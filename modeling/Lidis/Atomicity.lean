import Lidis.Transparency

namespace Lidis

namespace Engine

variable {S T : Type}

theorem kept_of_negative {s t s' : S} {c n : ℤ} (h : some (t, c) = some (s', n)) (hn : n < 0) (hc : t = s ∨ 0 ≤ c) :
    s' = s := by
  obtain ⟨rfl, rfl⟩ := Prod.mk.inj (Option.some.inj h)
  rcases hc with rfl | hc
  · rfl
  · exact absurd hn (not_lt.mpr hc)

/-- A negative code means that nothing was changed, for kvs_*_mod where `ok` holds. -/
structure Atomic (e : Engine S) (ok : S → Option CString → Option CString → Sys → Prop) : Prop where
  set : ∀ s k v sys s' n, e.set s k v sys = some (s', n) → n < 0 → s' = s
  del : ∀ s k s' n, e.del s k = some (s', n) → n < 0 → s' = s
  mod : ∀ s k v sys s' n, ok s k v sys → e.mod s k v sys = some (s', n) → n < 0 → s' = s

theorem Atomic.within {e : Engine S} {ok : S → Option CString → Option CString → Sys → Prop} (view : T → S) (put : T → S → T)
    (h : e.Atomic ok) (hput : ∀ t, put t (view t) = t) : (e.within view put).Atomic (fun t => ok (view t)) := by
  have hback : ∀ {t t' : T} {n : ℤ} {r : Option (S × ℤ)}, r.map (fun q => (put t q.1, q.2)) = some (t', n) →
      (∀ s, r = some (s, n) → s = view t) → t' = t := by
    rintro t t' n r hr hs
    obtain ⟨⟨s, n'⟩, rfl, he⟩ := Option.map_eq_some_iff.mp hr
    obtain ⟨rfl, rfl⟩ := Prod.mk.inj he
    rw [hs s rfl]
    exact hput t
  constructor
  · intro t k v sys t' n hr hn
    exact hback hr (fun s hs => h.set _ k v sys s n hs hn)
  · intro t k t' n hr hn
    exact hback hr (fun s hs => h.del _ k s n hs hn)
  · intro t k v sys t' n hok hr hn
    exact hback hr (fun s hs => h.mod _ k v sys s n hok hs hn)

end Engine

open Engine

theorem KvsArray.engine_atomic (P : Params) : (KvsArray.engine P).Atomic (fun _ _ _ _ => True) := by
  constructor
  · intro A k v sys A' n h hn
    simp only [engine, kvsArraySet] at h
    split at h
    · split at h
      · exact kept_of_negative h hn (Or.inl rfl)
      · obtain ⟨o, -, h⟩ := Option.bind_eq_some_iff.mp h
        cases o with
        | some w => exact kept_of_negative h hn (Or.inl rfl)
        | none =>
          dsimp only at h
          split_ifs at h
          · split at h
            · exact kept_of_negative h hn (Or.inr le_rfl)
            · exact kept_of_negative h hn (Or.inl rfl)
          · exact kept_of_negative h hn (Or.inl rfl)
          · exact kept_of_negative h hn (Or.inl rfl)
    · exact kept_of_negative h hn (Or.inl rfl)
  · intro A k A' n h hn
    simp only [engine, kvsArrayDel] at h
    split at h
    · exact kept_of_negative h hn (Or.inl rfl)
    · split at h
      · exact kept_of_negative h hn (Or.inr le_rfl)
      · exact kept_of_negative h hn (Or.inl rfl)
  · intro A k v sys A' n _ h hn
    simp only [engine, kvsArrayMod] at h
    split at h
    · split at h
      · exact kept_of_negative h hn (Or.inl rfl)
      · split at h
        · split_ifs at h
          · exact kept_of_negative h hn (Or.inr le_rfl)
          · exact kept_of_negative h hn (Or.inl rfl)
        · exact kept_of_negative h hn (Or.inl rfl)
    · exact kept_of_negative h hn (Or.inl rfl)

theorem KvsHash.engine_atomic (P : Params) : (KvsHash.engine P).Atomic (fun _ _ _ _ => True) := by
  constructor
  · intro H k v sys H' n h hn
    simp only [engine, kvsHashSet] at h
    split at h
    · split_ifs at h
      · exact kept_of_negative h hn (Or.inl rfl)
      · exact kept_of_negative h hn (Or.inl rfl)
      · exact kept_of_negative h hn (Or.inr le_rfl)
    · exact kept_of_negative h hn (Or.inl rfl)
  · intro H k H' n h hn
    simp only [engine, kvsHashDel] at h
    split at h
    · exact kept_of_negative h hn (Or.inl rfl)
    · split at h
      · exact kept_of_negative h hn (Or.inr le_rfl)
      · exact kept_of_negative h hn (Or.inl rfl)
  · intro H k v sys H' n _ h hn
    simp only [engine, kvsHashMod] at h
    split at h
    · exact kept_of_negative h hn (Or.inl rfl)
    · split at h
      · split at h
        · simp at h
        · split at h
          · exact kept_of_negative h hn (Or.inl rfl)
          · split at h
            · exact kept_of_negative h hn (Or.inr le_rfl)
            · simp at h
      · exact kept_of_negative h hn (Or.inl rfl)

theorem Skiplist.engine_atomic : Skiplist.engine.Atomic (fun _ _ _ _ => True) := by
  constructor
  · intro L k v sys L' n h hn
    simp only [engine, kvsSkiplistSet] at h
    split at h
    · obtain ⟨⟨p, update, hit⟩, -, h⟩ := Option.bind_eq_some_iff.mp h
      dsimp only at h
      split_ifs at h
      · exact kept_of_negative h hn (Or.inl rfl)
      · split at h
        · exact kept_of_negative h hn (Or.inl rfl)
        · obtain ⟨raised, -, h⟩ := Option.bind_eq_some_iff.mp h
          obtain ⟨linked, -, h⟩ := Option.bind_eq_some_iff.mp h
          exact kept_of_negative h hn (Or.inr le_rfl)
    · exact kept_of_negative h hn (Or.inl rfl)
  · intro L k L' n h hn
    simp only [engine, kvsSkiplistDel] at h
    split at h
    · exact kept_of_negative h hn (Or.inl rfl)
    · obtain ⟨⟨p, update, hit⟩, -, h⟩ := Option.bind_eq_some_iff.mp h
      dsimp only at h
      split_ifs at h
      · obtain ⟨unlinked, -, h⟩ := Option.bind_eq_some_iff.mp h
        obtain ⟨level, -, h⟩ := Option.bind_eq_some_iff.mp h
        exact kept_of_negative h hn (Or.inr le_rfl)
      · exact kept_of_negative h hn (Or.inl rfl)
  · intro L k v sys L' n _ h hn
    simp only [engine, kvsSkiplistMod] at h
    split at h
    · obtain ⟨⟨p, update, hit⟩, -, h⟩ := Option.bind_eq_some_iff.mp h
      dsimp only at h
      split_ifs at h
      · exact kept_of_negative h hn (Or.inr le_rfl)
      · exact kept_of_negative h hn (Or.inl rfl)
      · exact kept_of_negative h hn (Or.inl rfl)
    · exact kept_of_negative h hn (Or.inl rfl)

namespace Rbtree

/-- The value of a node that is there gets its memory. -/
def ModProvided (T : Rbtree) (key value : Option CString) (sys : Sys) : Prop :=
  value.isSome → kvsRbtreeExist T key = some 0 → sys.alloc 0 = true

theorem engine_atomic : engine.Atomic ModProvided := by
  constructor
  · intro T k v sys T' n h hn
    simp only [engine, kvsRbtreeSet] at h
    split at h
    · obtain ⟨o, -, h⟩ := Option.bind_eq_some_iff.mp h
      cases o with
      | some w => exact kept_of_negative h hn (Or.inl rfl)
      | none =>
        dsimp only at h
        split_ifs at h
        · obtain ⟨inserted, -, h⟩ := Option.bind_eq_some_iff.mp h
          exact kept_of_negative h hn (Or.inr le_rfl)
        · exact kept_of_negative h hn (Or.inl rfl)
        · exact kept_of_negative h hn (Or.inl rfl)
    · exact kept_of_negative h hn (Or.inl rfl)
  · intro T k T' n h hn
    simp only [engine, kvsRbtreeDel] at h
    split at h
    · exact kept_of_negative h hn (Or.inl rfl)
    · obtain ⟨node, -, h⟩ := Option.bind_eq_some_iff.mp h
      split_ifs at h
      · exact kept_of_negative h hn (Or.inl rfl)
      · obtain ⟨deleted, -, h⟩ := Option.bind_eq_some_iff.mp h
        exact kept_of_negative h hn (Or.inr le_rfl)
  · intro T k v sys T' n hok h hn
    simp only [engine, kvsRbtreeMod] at h
    split at h
    · obtain ⟨node, hs, h⟩ := Option.bind_eq_some_iff.mp h
      split_ifs at h with hnil halloc
      · exact kept_of_negative h hn (Or.inl rfl)
      · exact kept_of_negative h hn (Or.inr le_rfl)
      · exact absurd (hok rfl (by simp [kvsRbtreeExist, hs, hnil])) halloc
    · exact kept_of_negative h hn (Or.inl rfl)

theorem mod_absent {T : Rbtree} {key : Option CString} (value : Option CString) (sys sys' : Sys)
    (h : kvsRbtreeExist T key ≠ some 0) : kvsRbtreeMod T key value sys = kvsRbtreeMod T key value sys' := by
  cases key with
  | none => rfl
  | some k =>
    cases value with
    | none => rfl
    | some v =>
      simp only [kvsRbtreeExist] at h
      simp only [kvsRbtreeMod]
      cases hs : rbtreeSearch T k T.next T.root with
      | none => rfl
      | some node =>
        have hnil : node = T.nil := by
          by_contra hne
          simp [hs, hne] at h
        simp [hnil]

theorem mod_loses {T : Rbtree} {m : Map} {a : CString} (h : Stands T m) (ha : (m.get a).isSome) (v : CString) {sys : Sys}
    (h0 : sys.alloc 0 ≠ true) : ∃ T', kvsRbtreeMod T a v sys = some (T', -2) ∧ kvsRbtreeGet T' a = some none := by
  obtain ⟨l, hl, rfl⟩ := (stands_iff T m).mp h
  rcases search_lists hl a with ⟨-, hk⟩ | ⟨z, l1, l2, hs, hz, he, -, hset⟩
  · rw [keys_present] at hk
    rw [FMap.ofList_get, (FMap.lookup_eq_none a l).mpr hk] at ha
    simp at ha
  · refine ⟨T.setValue z none, by simp [kvsRbtreeMod, hs, hz, h0], ?_⟩
    have hsorted := (hset none).sorted
    have hn1 : a ∉ FMap.keys l1 := by
      simp only [FMap.keys, List.map_append, List.map_cons, List.pairwise_append] at hsorted
      exact fun hm => lt_irrefl _ (hsorted.2.2 _ hm _ List.mem_cons_self)
    rw [get_lookup (hset none), FMap.lookup_middle l1 l2 a none hn1]
    rfl

end Rbtree

namespace Store

def ModProvided (P : Params) (s : Store) (id : EngineId) (key value : Option CString) (sys : Sys) : Prop :=
  id = .rbtree → value.isSome → (engine P id).exist s key = some 0 → sys.alloc 0 = true

theorem engine_atomic (P : Params) (id : EngineId) : (engine P id).Atomic (fun s => ModProvided P s id) := by
  have hall : ∀ {e : Engine Store} {ok ok' : Store → Option CString → Option CString → Sys → Prop}, e.Atomic ok →
      (∀ s k v sys, ok' s k v sys → ok s k v sys) → e.Atomic ok' :=
    fun h himp => ⟨h.set, h.del, fun s k v sys s' n hok => h.mod s k v sys s' n (himp s k v sys hok)⟩
  cases id with
  | array =>
    exact hall ((KvsArray.engine_atomic P).within Store.array (fun s a => { s with array := a }) (fun _ => rfl))
      (fun _ _ _ _ _ => trivial)
  | rbtree =>
    exact hall (Rbtree.engine_atomic.within Store.rbtree (fun s t => { s with rbtree := t }) (fun _ => rfl))
      (fun _ _ _ _ h => h rfl)
  | hash =>
    exact hall ((KvsHash.engine_atomic P).within Store.hash (fun s h => { s with hash := h }) (fun _ => rfl))
      (fun _ _ _ _ _ => trivial)
  | skiplist =>
    exact hall (Skiplist.engine_atomic.within Store.skiplist (fun s l => { s with skiplist := l }) (fun _ => rfl))
      (fun _ _ _ _ _ => trivial)

structure Unchanged (P : Params) (s s' : Store) : Prop where
  maps : SameMaps P s s'
  total : s'.array.total = s.array.total
  count : s'.hash.count = s.hash.count
  level : s'.skiplist.level = s.skiplist.level

theorem Unchanged.of_eq {P : Params} {s s' : Store} (h : s' = s) : Unchanged P s s' := by
  subst h
  exact ⟨fun _ _ => ⟨rfl, rfl⟩, rfl, rfl, rfl⟩

theorem mod_unchanged_iff {P : Params} {s : Store} {m : Maps} (h : Holds P s m) (id : EngineId)
    (key value : Option CString) (sys : Sys) :
    (∀ s' n, (engine P id).mod s key value sys = some (s', n) → n < 0 → Unchanged P s s') ↔
      ModProvided P s id key value sys := by
  constructor
  · rintro hall rfl hvalue hexist
    by_contra h0
    obtain ⟨v, rfl⟩ := Option.isSome_iff_exists.mp hvalue
    cases key with
    | none =>
      have hnull : some (-1 : ℤ) = some 0 := hexist
      simp at hnull
    | some k =>
      have hsome : ((m .rbtree).get k).isSome := by
        rw [holds_exist h] at hexist
        by_contra hn
        simp [hn] at hexist
      obtain ⟨T', hmod, hget⟩ := Rbtree.mod_loses h.rbtree hsome v h0
      have hmod' : (engine P .rbtree).mod s (some k) (some v) sys = some ({ s with rbtree := T' }, -2) := by
        simp only [engine, Engine.within, Rbtree.engine, hmod, Option.map_some]
      have hsame := ((hall _ _ hmod' (by decide)).maps .rbtree k).1
      rw [holds_get h] at hsame
      have hnone : (engine P .rbtree).get { s with rbtree := T' } (some k) = some none := hget
      rw [hnone] at hsame
      rw [Option.some.inj hsame] at hsome
      simp at hsome
  · intro hp s' n hmod hn
    exact Unchanged.of_eq ((engine_atomic P id).mod s key value sys s' n hp hmod hn)

def CallProvided (P : Params) (s : Store) (id : EngineId) (i : Op × Sys) : Prop :=
  ∀ k v, i.1 = .mod k v → ModProvided P s id (some k) (some v) i.2

/-- The states that calls lead to from empty engines, with any outcomes of their allocations but one: kvs_rbtree_mod
gets its memory wherever the key is there. -/
inductive Provisioned (P : Params) : Store → Prop where
  | empty {s : Store} (h : Holds P s Maps.empty) : Provisioned P s
  | call {s s' : Store} {id : EngineId} {i : Op × Sys} {a : Answer} (h : Provisioned P s) (hp : CallProvided P s id i)
    (hc : (engine P id).call s i = some (s', a)) : Provisioned P s'

theorem call_kept {P : Params} {s s' : Store} {id : EngineId} {i : Op × Sys} {n : ℤ} (hp : CallProvided P s id i)
    (hc : (engine P id).call s i = some (s', .code n)) (hn : n < 0) : s' = s := by
  have hcode : ∀ {r : Option (Store × ℤ)}, r.map codeOf = some (s', .code n) → r = some (s', n) := by
    rintro r hr
    obtain ⟨q, rfl, he⟩ := Option.map_eq_some_iff.mp hr
    obtain ⟨rfl, hcode⟩ := Prod.mk.inj he
    rw [← MapAnswer.code.inj hcode]
  obtain ⟨o, sys⟩ := i
  cases o with
  | set k v => exact (engine_atomic P id).set _ _ _ _ _ _ (hcode hc) hn
  | del k => exact (engine_atomic P id).del _ _ _ _ (hcode hc) hn
  | mod k v => exact (engine_atomic P id).mod _ _ _ _ _ _ (hp k v rfl) (hcode hc) hn
  | get k =>
    obtain ⟨v, -, he⟩ := Option.map_eq_some_iff.mp hc
    simp at he
  | exist k =>
    obtain ⟨c, -, he⟩ := Option.map_eq_some_iff.mp hc
    exact (Prod.mk.inj he).1.symm

theorem call_provided {P : Params} {s s' : Store} {m : Maps} {id : EngineId} {o : Op} {sys : Sys} {a : Answer}
    (h : Holds P s m) (hp : CallProvided P s id (o, sys)) (hc : (engine P id).call s (o, sys) = some (s', a)) :
    (a = ((m id).step (contract P id) o).2 ∧ Holds P s' (m.step P (id, o))) ∨ (a = .code (-2) ∧ s' = s) := by
  by_cases hg : callGranted id (o, sys)
  · rcases call_tolerated h hg hc with hstep | ⟨rfl, -⟩
    · exact Or.inl hstep
    · exact Or.inr ⟨rfl, call_kept hp hc (by decide)⟩
  · -- only a kvs_rbtree_mod without memory is left, and then the key is not there
    cases id with
    | rbtree =>
      cases o with
      | mod k v =>
        have hexist : Rbtree.kvsRbtreeExist s.rbtree (some k) ≠ some 0 := fun he => hg (hp k v rfl rfl rfl he)
        have hsame : (engine P .rbtree).call s (.mod k v, sys) = (engine P .rbtree).call s (.mod k v, sys.grant) := by
          simp only [call, engine, Engine.within, Rbtree.engine, Rbtree.mod_absent (some v) sys sys.grant hexist]
        obtain ⟨s1, hs1, hH⟩ := call_granted h .rbtree (.mod k v) sys.grant_allocOk
        obtain ⟨rfl, rfl⟩ := Prod.mk.inj (Option.some.inj (hc.symm.trans (hsame.trans hs1)))
        exact Or.inl ⟨rfl, hH⟩
      | _ => exact absurd trivial hg
    | _ => exact absurd trivial hg

theorem Provisioned.holds {P : Params} {s : Store} (h : Provisioned P s) : ∃ m, Holds P s m := by
  induction h with
  | empty h => exact ⟨_, h⟩
  | @call s s' id i a _ hp hc ih =>
    obtain ⟨m, hm⟩ := ih
    rcases call_provided hm hp hc with ⟨-, hm'⟩ | ⟨-, rfl⟩
    · exact ⟨_, hm'⟩
    · exact ⟨m, hm⟩

def Reads (P : Params) (s : Store) (m : Maps) : Prop :=
  ∀ id key, (engine P id).get s (some key) = some ((m id).get key) ∧
    (engine P id).exist s (some key) = some (if ((m id).get key).isSome then 0 else 1)

theorem Holds.reads {P : Params} {s : Store} {m : Maps} (h : Holds P s m) : Reads P s m :=
  fun id key => ⟨holds_get h id key, holds_exist h id key⟩

/-- In every state reached, a call that returns a negative code has changed nothing (for kvs_*_mod: just where its
memory is provided), and the calls after it are answered as by the finite maps. -/
theorem failed_calls_change_nothing_iff (P : Params) (s : Store) (h : Provisioned P s) (id : EngineId) :
    (∀ key value sys s' n, (engine P id).set s key value sys = some (s', n) → n < 0 → Unchanged P s s') ∧
    (∀ key s' n, (engine P id).del s key = some (s', n) → n < 0 → Unchanged P s s') ∧
    (∀ key value sys, (∀ s' n, (engine P id).mod s key value sys = some (s', n) → n < 0 → Unchanged P s s') ↔
      ModProvided P s id key value sys) ∧
    (∀ k v sys s', (engine P id).set s (some k) (some v) sys = some (s', 0) →
      (engine P id).get s' (some k) = some (some v)) ∧
    ∃ m, Reads P s m ∧ ∀ o sys, (sys.AllocOk → ∃ r, (engine P id).call s (o, sys) = some r) ∧
      (CallProvided P s id (o, sys) → ∀ s' a, (engine P id).call s (o, sys) = some (s', a) →
        (a = ((m id).step (contract P id) o).2 ∧ Reads P s' (m.step P (id, o))) ∨ (a = .code (-2) ∧ s' = s)) := by
  obtain ⟨m, hm⟩ := h.holds
  refine ⟨?_, ?_, mod_unchanged_iff hm id, ?_, m, hm.reads, fun o sys => ⟨?_, ?_⟩⟩
  · intro key value sys s' n hs hn
    exact Unchanged.of_eq ((engine_atomic P id).set s key value sys s' n hs hn)
  · intro key s' n hd hn
    exact Unchanged.of_eq ((engine_atomic P id).del s key s' n hd hn)
  · intro k v sys s' hs
    have hcall : (engine P id).call s (.set k v, sys) = some (s', .code 0) := by simp only [call, hs, Option.map_some, codeOf]
    rcases call_provided hm (fun _ _ he => by cases he) hcall with ⟨ha, hm'⟩ | ⟨ha, -⟩
    · simp only [FMap.step, Maps.step, FMap.apply] at ha hm'
      split_ifs at ha hm' with hfull hsome
      · cases ha
      · cases ha
      · rw [holds_get hm', Function.update_self, FMap.insert_get, if_pos rfl]
    · cases ha
  · intro hok
    obtain ⟨s', hs', -⟩ := call_granted hm id o hok
    exact ⟨_, hs'⟩
  · intro hp s' a hc
    exact (call_provided hm hp hc).imp_left (fun hstep => ⟨hstep.1, hstep.2.reads⟩)

theorem failed_calls_change_nothing_iff_example :
    Provisioned .small (fresh .small) ∧ ∀ s' n, (engine .small .array).mod (fresh .small) (some (.lit "k"))
      (some (.lit "v")) ⟨fun _ => false, fun _ => false⟩ = some (s', n) → n < 0 → Unchanged .small (fresh .small) s' := by
  have hstart : Provisioned .small (fresh .small) := .empty (fresh_empty _)
  obtain ⟨-, -, hmod, -⟩ := failed_calls_change_nothing_iff .small (fresh .small) hstart .array
  exact ⟨hstart, (hmod _ _ _).mpr (fun h => by cases h)⟩

/-- A kvs_rbtree_mod without memory returns -2 and takes the value away; a set of the key is then answered 0 and stores
nothing. -/
theorem failed_mod_loses_value :
    ((engine .small .rbtree).run (fresh .small)
      [(.set (.lit "k") (.lit "v"), .granted), (.get (.lit "k"), .granted),
        (.mod (.lit "k") (.lit "w"), ⟨fun _ => false, fun _ => false⟩), (.get (.lit "k"), .granted),
        (.set (.lit "k") (.lit "x"), .granted), (.get (.lit "k"), .granted)]).map Prod.snd =
      some [.code 0, .value (some (.lit "v")), .code (-2), .value none, .code 0, .value none] := by
  decide +kernel

end Store

end Lidis
