import Lidis.KvsSync
import Lidis.Lib.Absorb

namespace Lidis

open Engine Store

namespace Store

def Maps.load (P : Params) : Maps → List Record → Maps
  | m, [] => m
  | m, e :: es =>
    if (contract P e.1).capacity = some (m e.1).size then m else Maps.load P (m.step P (setOf e)) es

theorem capacity_eq {P : Params} {id : EngineId} {n : ℕ} (h : (contract P id).capacity = some n) :
    id = .array ∧ n = P.arraySize := by
  cases id with
  | array => exact ⟨rfl, (Option.some.inj h).symm⟩
  | rbtree => cases h
  | hash => cases h
  | skiplist => cases h

theorem Maps.step_full {P : Params} {m : Maps} {e : Record} (h : (contract P e.1).capacity = some (m e.1).size) :
    m.step P (setOf e) = m := by
  rw [Maps.step, setOf, FMap.apply_set_full _ _ h, Function.update_eq_self]

theorem Maps.replay_records (P : Params) (m : Maps) (es : List Record) (id : EngineId) :
    m.replay P (es.map setOf) id = (m id).absorb (contract P id) (entriesOf id es) := by
  rw [Maps.replay_at, opsOf_setOf]
  rfl

theorem Maps.replay_records_append (P : Params) (m : Maps) (es fs : List Record) :
    m.replay P ((es ++ fs).map setOf) = (m.replay P (es.map setOf)).replay P (fs.map setOf) := by
  rw [Maps.replay, List.map_append, List.foldl_append]
  rfl

theorem Maps.load_unbounded (P : Params) (m : Maps) (first rest : List Record) (h : ∀ e ∈ first, e.1 ≠ .array) :
    m.load P (first ++ rest) = (m.replay P (first.map setOf)).load P rest := by
  induction first generalizing m with
  | nil => rfl
  | cons e first ih =>
    have hroom : (contract P e.1).capacity ≠ some (m e.1).size :=
      fun hc => h e List.mem_cons_self (capacity_eq hc).1
    rw [List.cons_append, Maps.load, if_neg hroom, ih _ (fun d hd => h d (List.mem_cons_of_mem e hd))]
    rfl

theorem Maps.load_array (P : Params) (m : Maps) (es : List (CString × CString)) (rest : List Record) :
    m.load P (tagged .array es ++ rest) =
      if es ≠ [] ∧ ((m .array).absorb (contract P .array) es.dropLast).size = P.arraySize
      then m.replay P ((tagged .array es).map setOf)
      else (m.replay P ((tagged .array es).map setOf)).load P rest := by
  induction es generalizing m with
  | nil => rw [if_neg (by simp)]; rfl
  | cons e es ih =>
    have hcons : tagged .array (e :: es) ++ rest = (EngineId.array, e) :: (tagged .array es ++ rest) := rfl
    have hreplay : m.replay P ((tagged .array (e :: es)).map setOf) =
        (m.step P (setOf (.array, e))).replay P ((tagged .array es).map setOf) := rfl
    rw [hcons, Maps.load, hreplay]
    by_cases hfull : (contract P .array).capacity = some (m .array).size
    · have hsize : (m .array).size = P.arraySize := (capacity_eq hfull).2
      have hstay : m.replay P ((tagged .array es).map setOf) = m := by
        funext id
        rw [Maps.replay_records]
        by_cases hid : id = .array
        · subst hid
          exact FMap.absorb_full _ hfull
        · rw [entriesOf_tagged_ne (Ne.symm hid)]
          rfl
      rw [if_pos hfull, Maps.step_full hfull, hstay, if_pos]
      exact ⟨by simp, by rw [FMap.absorb_full _ hfull, hsize]⟩
    · rw [if_neg hfull, ih]
      have hstep : (m.step P (setOf (.array, e))) .array = (m .array).apply (contract P .array) (.set e.1 e.2) :=
        Function.update_self _ _ _
      cases es with
      | nil =>
        have hroom : (m .array).size ≠ P.arraySize := fun hs => hfull (congrArg some hs.symm)
        rw [if_neg (by simp), if_neg (by simpa using hroom)]
      | cons d es =>
        simp only [ne_eq, reduceCtorEq, not_false_eq_true, true_and, List.dropLast_cons_cons, FMap.absorb_cons, hstep]

theorem entriesOf_eq_nil {id : EngineId} {es : List Record} (h : ∀ e ∈ es, e.1 ≠ id) : entriesOf id es = [] := by
  rw [entriesOf, List.filterMap_eq_nil_iff]
  intro e he
  rw [if_neg (h e he)]

/-- Loading stops behind the array that became full before its last record; only the skiplist comes after it. -/
theorem Maps.load_at (P : Params) (m : Maps) {first : List Record} (es ls : List (CString × CString))
    (hfirst : ∀ e ∈ first, e.1 ≠ .array ∧ e.1 ≠ .skiplist) (id : EngineId) :
    m.load P (first ++ (tagged .array es ++ tagged .skiplist ls)) id =
      if id = .skiplist ∧ es ≠ [] ∧ ((m .array).absorb (contract P .array) es.dropLast).size = P.arraySize then m id
      else (m id).absorb (contract P id) (entriesOf id (first ++ (tagged .array es ++ tagged .skiplist ls))) := by
  have hstart : (m.replay P (first.map setOf)) .array = m .array := by
    rw [Maps.replay_records, entriesOf_eq_nil (fun e he => (hfirst e he).1)]
    rfl
  rw [Maps.load_unbounded P m first _ (fun e he => (hfirst e he).1), Maps.load_array, hstart]
  by_cases hcut : es ≠ [] ∧ ((m .array).absorb (contract P .array) es.dropLast).size = P.arraySize
  · rw [if_pos hcut, ← Maps.replay_records_append, Maps.replay_records]
    by_cases hid : id = .skiplist
    · rw [if_pos ⟨hid, hcut⟩, hid, entriesOf_append, entriesOf_eq_nil (fun e he => (hfirst e he).2),
        entriesOf_tagged_ne (by simp)]
      rfl
    · rw [if_neg (fun h => hid h.1), ← List.append_assoc, entriesOf_append id (first ++ _),
        entriesOf_tagged_ne (Ne.symm hid), List.append_nil]
  · have hrest : ∀ e ∈ tagged .skiplist ls, e.1 ≠ .array := by
      intro e he
      obtain ⟨x, -, rfl⟩ := List.mem_map.mp he
      simp
    have hload := Maps.load_unbounded P
      ((m.replay P (first.map setOf)).replay P ((tagged .array es).map setOf)) (tagged .skiplist ls) [] hrest
    rw [List.append_nil, Maps.load] at hload
    rw [if_neg hcut, if_neg (fun h => hcut h.2), hload, ← Maps.replay_records_append, ← Maps.replay_records_append,
      Maps.replay_records]

end Store

def Crowded (P : Params) (master : KvsArray) (m : Map) : Prop :=
  master.total = P.arraySize ∧
    ∃ slot key, master.table.getLast? = some slot ∧ slot.key = some key ∧ (m.get key).isSome

theorem map_some_reduceOption {α : Type} {l : List (Option α)} (h : ∀ x ∈ l, x.isSome) : l.reduceOption.map some = l := by
  induction l with
  | nil => rfl
  | cons x l ih =>
    obtain ⟨a, rfl⟩ := Option.isSome_iff_exists.mp (h x List.mem_cons_self)
    rw [List.reduceOption_cons_of_some, List.map_cons, ih (fun y hy => h y (List.mem_cons_of_mem _ hy))]

theorem crowded_iff {P : Params} {A : KvsArray} {slots : List (Option (CString × CString))} {m : Map}
    (htable : A.table = slots.map KvsArray.slotOf) (hlen : slots.length = P.arraySize)
    (htotal : A.total = slots.reduceOption.length) (hn : (FMap.keys slots.reduceOption).Nodup)
    (hb : FMap.Below m (FMap.ofList slots.reduceOption)) :
    Crowded P A m ↔ slots.reduceOption ≠ [] ∧
      (m.absorb (contract P .array) slots.reduceOption.dropLast).size = P.arraySize := by
  have hle : slots.reduceOption.length ≤ P.arraySize := (List.reduceOption_length_le slots).trans hlen.le
  rcases List.eq_nil_or_concat slots.reduceOption with hnil | ⟨init, e, hconcat⟩
  · rw [Crowded, htotal, hnil]
    have hpos := P.arraySize_pos
    constructor
    · rintro ⟨h, -⟩
      simp only [List.length_nil, Nat.cast_zero] at h
      omega
    · rintro ⟨h, -⟩
      exact absurd rfl h
  rw [List.concat_eq_append] at hconcat
  rw [Crowded, htotal]
  rw [hconcat] at hn hb hle ⊢
  rw [List.dropLast_concat, FMap.absorb_full_iff hn rfl hle hb]
  have hlast : (init ++ [e]).length = P.arraySize → A.table.getLast? = some (KvsArray.slotOf (some e)) := by
    intro hfull
    have hall : ∀ x ∈ slots, x.isSome := List.reduceOption_length_eq_iff.mp (by rw [hconcat, hfull, hlen])
    rw [htable, ← map_some_reduceOption hall, hconcat]
    simp
  constructor
  · rintro ⟨hfull, slot, key, hslot, hkey, hhas⟩
    have hfull' : (init ++ [e]).length = P.arraySize := by exact_mod_cast hfull
    rw [hlast hfull'] at hslot
    obtain rfl := Option.some.inj hslot
    obtain rfl := Option.some.inj hkey
    exact ⟨by simp, hfull', hhas⟩
  · rintro ⟨-, hfull, hhas⟩
    exact ⟨by exact_mod_cast hfull, _, e.1, hlast hfull, rfl, hhas⟩

section Load

variable {P : Params}

theorem load_eq_iff {s : Store} {m M : Maps} {vs : List Record} (hM : Holds P s M) (hc : Covers vs M)
    (hlaid : LaidOut s vs) : m.load P vs = M ↔
      (∀ id, FMap.Below (m id) (M id)) ∧ (Crowded P s.array (m .array) → m .skiplist = M .skiplist) := by
  obtain ⟨first, slots, ls, rfl, hfirst, htable⟩ := hlaid
  have harray : entriesOf .array (first ++ (tagged .array slots.reduceOption ++ tagged .skiplist ls)) =
      slots.reduceOption := by
    rw [entriesOf_append, entriesOf_append, entriesOf_eq_nil (fun e he => (hfirst e he).1), entriesOf_tagged,
      entriesOf_tagged_ne (by simp)]
    simp
  have hcap : ∀ id n, (contract P id).capacity = some n →
      (entriesOf id (first ++ (tagged .array slots.reduceOption ++ tagged .skiplist ls))).length ≤ n := by
    intro id n hn
    obtain ⟨rfl, rfl⟩ := capacity_eq hn
    rw [← FMap.ofList_size _ (hc .array).1, ← (hc .array).2]
    exact hM.array.size_le
  have hcrowded : FMap.Below (m .array) (M .array) → (Crowded P s.array (m .array) ↔ slots.reduceOption ≠ [] ∧
      ((m .array).absorb (contract P .array) slots.reduceOption.dropLast).size = P.arraySize) := by
    intro hb
    have hn := (hc .array).1
    have hm := (hc .array).2
    rw [harray] at hn hm
    rw [hm] at hb
    obtain ⟨slots', htable', hlen, htotal, -, -⟩ := hM.array
    have hsame : slots = slots' := by
      apply List.map_injective_iff.mpr KvsArray.slotOf_injective
      rw [← htable, ← htable']
    subst hsame
    exact crowded_iff htable hlen htotal hn hb
  have hat : ∀ id, m.load P (first ++ (tagged .array slots.reduceOption ++ tagged .skiplist ls)) id = M id ↔
      if id = .skiplist ∧ slots.reduceOption ≠ [] ∧
        ((m .array).absorb (contract P .array) slots.reduceOption.dropLast).size = P.arraySize then m id = M id
      else FMap.Below (m id) (M id) := by
    intro id
    rw [Maps.load_at P m _ ls hfirst id]
    split_ifs with hcut
    · rfl
    · rw [(hc id).2]
      exact FMap.absorb_eq_iff (hc id).1 (hcap id)
  rw [funext_iff]
  constructor
  · intro h
    have hb : ∀ id, FMap.Below (m id) (M id) := by
      intro id
      have hid := (hat id).mp (h id)
      split_ifs at hid with hcut
      · rw [hid]
        exact FMap.Below.refl _
      · exact hid
    refine ⟨hb, fun hcr => ?_⟩
    have hskip := (hat .skiplist).mp (h .skiplist)
    rwa [if_pos ⟨rfl, (hcrowded (hb .array)).mp hcr⟩] at hskip
  · rintro ⟨hb, hskip⟩ id
    rw [hat id]
    split_ifs with hcut
    · obtain ⟨rfl, hcut⟩ := hcut
      exact hskip ((hcrowded (hb .array)).mpr hcut)
    · exact hb id

theorem loadRecord_granted {s : Store} {m : Maps} {e : Record} {sys : Sys} (h : Holds P s m) (ha : sys.AllocOk) :
    ∃ s' n, loadRecord P (recordTokens e) s sys = some (n, s') ∧ Holds P s' (m.step P (setOf e)) ∧
      (n < 0 ↔ (contract P e.1).capacity = some (m e.1).size) := by
  obtain ⟨s', n, hload, hs', hn⟩ := loadRecord_step h ha
  refine ⟨s', n, hload, hs', ?_⟩
  simp only [setOf, FMap.step] at hn
  split_ifs at hn with hfull hhas
  · obtain rfl := MapAnswer.code.inj hn
    simp [hfull]
  · obtain rfl := MapAnswer.code.inj hn
    simp [hfull]
  · obtain rfl := MapAnswer.code.inj hn
    simp [hfull]

theorem applyUntil_records {sys : ℕ → Sys} (hsys : ∀ i, (sys i).AllocOk) (es : List Record) (i : ℕ) {s : Store} {m : Maps}
    (h : Holds P s m) : ∃ s', applyUntil (fun i ts s => loadRecord P ts s (sys i)) i (es.map recordTokens) s = some s' ∧
      Holds P s' (m.load P es) := by
  induction es generalizing i s m with
  | nil => exact ⟨s, rfl, h⟩
  | cons e es ih =>
    obtain ⟨s1, n, hload, hs1, hn⟩ := loadRecord_granted h (hsys i)
    rw [Maps.load, List.map_cons, applyUntil_cons hload]
    by_cases hfull : (contract P e.1).capacity = some (m e.1).size
    · rw [if_pos (hn.mpr hfull), if_pos hfull]
      rw [Maps.step_full hfull] at hs1
      exact ⟨s1, rfl, hs1⟩
    · rw [if_neg (fun hneg => hfull (hn.mp hneg)), if_neg hfull]
      exact ih (i + 1) hs1

def Lost (s : Store) (key : CString) : Prop := ∃ l, Rbtree.Lists s.rbtree l ∧ (key, none) ∈ l

theorem Lost.not_holds {s : Store} {key : CString} (h : Lost s key) (m : Maps) : ¬ Holds P s m := by
  obtain ⟨l, hl, hk⟩ := h
  intro hm
  exact Rbtree.not_stands_of_lost hl hk _ hm.rbtree

theorem formed_cases {s : Store} (h : Formed P s) : (∃ m, Holds P s m) ∨ ∃ key, Lost s key := by
  obtain ⟨⟨ma, ha⟩, ⟨l, hl⟩, ⟨mh, hh⟩, ⟨ms, hs⟩⟩ := h
  rcases Rbtree.lists_cases hl with ⟨mr, hr⟩ | ⟨key, hk⟩
  · exact Or.inl ⟨Maps.ofEngines ma mr mh ms, ha, hr, hh, hs⟩
  · exact Or.inr ⟨key, l, hl, hk⟩

theorem loadRecord_lost {s : Store} {key : CString} {e : Record} {sys : Sys} (h : Formed P s) (hk : Lost s key)
    (ha : sys.AllocOk) : ∃ s' n, loadRecord P (recordTokens e) s sys = some (n, s') ∧ Formed P s' ∧ Lost s' key := by
  have hset : ∃ s' n, (engine P e.1).set s (some e.2.1) (some e.2.2) sys = some (s', n) ∧ Lost s' key := by
    obtain ⟨id, k, v⟩ := e
    cases id with
    | array =>
      obtain ⟨ma, hma⟩ := h.array
      obtain ⟨A, hA, -⟩ := KvsArray.engine_refines P _ _ (.set k v, sys) hma ha
      obtain ⟨⟨A', n⟩, hr, -⟩ := Option.map_eq_some_iff.mp hA
      exact ⟨{ s with array := A' }, n, by simp only [engine, within, hr, Option.map_some], hk⟩
    | rbtree =>
      obtain ⟨l, hl, hmem⟩ := hk
      obtain ⟨T', n, l', hr, hl', hsub⟩ := Rbtree.set_lists hl ha k v
      exact ⟨{ s with rbtree := T' }, n, by simp only [engine, within, Rbtree.engine, hr, Option.map_some], l', hl', hsub _ hmem⟩
    | hash =>
      obtain ⟨mh, hmh⟩ := h.hash
      obtain ⟨A, hA, -⟩ := KvsHash.engine_refines P _ _ (.set k v, sys) hmh ha
      obtain ⟨⟨A', n⟩, hr, -⟩ := Option.map_eq_some_iff.mp hA
      exact ⟨{ s with hash := A' }, n, by simp only [engine, within, hr, Option.map_some], hk⟩
    | skiplist =>
      obtain ⟨ms, hms⟩ := h.skiplist
      obtain ⟨A, hA, -⟩ := Skiplist.engine_refines _ _ (.set k v, sys) hms ha
      obtain ⟨⟨A', n⟩, hr, -⟩ := Option.map_eq_some_iff.mp hA
      exact ⟨{ s with skiplist := A' }, n, by simp only [engine, within, hr, Option.map_some], hk⟩
  obtain ⟨s', n, hr, hk'⟩ := hset
  refine ⟨s', n, ?_, ?_, hk'⟩
  · simp only [loadRecord, recordTokens, engineOf_engineName, hr, Option.map_some]
  · have hcall : (engine P e.1).call s (.set e.2.1 e.2.2, sys) = some (s', .code n) := by
      simp only [call, hr, Option.map_some, codeOf]
    exact h.call hcall

theorem applyUntil_lost {sys : ℕ → Sys} (hsys : ∀ i, (sys i).AllocOk) (es : List Record) (i : ℕ) {s : Store}
    {key : CString} (h : Formed P s) (hk : Lost s key) :
    ∃ s', applyUntil (fun i ts s => loadRecord P ts s (sys i)) i (es.map recordTokens) s = some s' ∧ Lost s' key := by
  induction es generalizing i s with
  | nil => exact ⟨s, rfl, hk⟩
  | cons e es ih =>
    obtain ⟨s1, n, hload, hf, hk1⟩ := loadRecord_lost (e := e) h hk (hsys i)
    rw [List.map_cons, applyUntil_cons hload]
    by_cases hneg : n < 0
    · rw [if_pos hneg]
      exact ⟨s1, rfl, hk1⟩
    · rw [if_neg hneg]
      exact ih (i + 1) hf hk1

end Load

theorem slaveFullSync_records {P : Params} {sync : SyncEnv} {es : List Record} {r r' : Store}
    (hsync : sync.Delivers (frames (es.map recordTokens))) (hsize : (frames (es.map recordTokens)).length < 2 ^ 31)
    (hfits : ∀ e ∈ es, Fits e)
    (hall : applyUntil (fun i ts s => loadRecord P ts s (sync.sys i)) 0 (es.map recordTokens) r = some r') :
    kvsSlaveFullSync P sync r = some (0, r') := by
  have hok := records_readable hfits
  apply slaveFullSync_delivered hsync hsize
  · intro hne
    exact fileRead_until (save_handles P sync.sys) hsync.load _ hok (fun ts hts => (hok ts hts).2) hsize hne hall
  · intro hnil
    have hcount := length_le_frames (es.map recordTokens)
    rw [hnil] at hcount
    rw [List.length_eq_zero_iff.mp (Nat.le_zero.mp hcount)] at hall
    exact (Option.some.inj hall).symm

/-- A snapshot that arrives whole is loaded over what the slave holds, and 0 is returned. The slave then holds the
snapshot's maps exactly when it had no other entries before and the load was not cut short of the skiplist. -/
theorem full_sync_copies_snapshot_iff (P : Params) (s r : Store) (hs : Reachable P s) (hint : CountFits P s)
    (hr : Reachable P r) (env : ℕ → RecordEnv) (fd : ℤ) (hfd : 0 ≤ fd) (ctx : SaveCtx) (ret : ℤ)
    (hwrite : kvsTraversalWrite env s fd .start = some (ctx, ret)) (hok : ∀ x ∈ ctx.returns, x = 0)
    (hsize : ctx.file.length < 2 ^ 31) (sync : SyncEnv) (hsync : sync.Delivers ctx.file) :
    (∀ r', kvsSlaveFullSync P sync r = some (0, r') → ∃ M, Holds P s M ∧ Holds P r' M) ↔
      ∃ m M, Holds P r m ∧ Holds P s M ∧ (∀ id, FMap.Below (m id) (M id)) ∧
        (Crowded P s.array (m .array) → m .skiplist = M .skiplist) := by
  obtain ⟨es, hout, -, hcov⟩ := traversal_outcome hs.formed hint env hfd .start
  rw [hwrite] at hout
  obtain ⟨-, vs, hvs, rfl, hfits⟩ := hout.2.2 hok
  obtain ⟨M, hM, hc, hlaid⟩ := hcov vs hvs
  rw [emitAll_file] at hsize hsync
  have hread : ∀ r', applyUntil (fun i ts s => loadRecord P ts s (sync.sys i)) 0 (vs.map recordTokens) r = some r' →
      kvsSlaveFullSync P sync r = some (0, r') := fun r' hall => slaveFullSync_records hsync hsize hfits hall
  rcases formed_cases hr.formed with ⟨m, hm⟩ | ⟨key, hlost⟩
  · obtain ⟨r', hall, hr'⟩ := applyUntil_records hsync.sys vs 0 hm
    rw [hread r' hall]
    have hiff : (∃ M, Holds P s M ∧ Holds P r' M) ↔ m.load P vs = M := by
      constructor
      · rintro ⟨M', hM', hr''⟩
        rw [holds_unique hr' hr'', holds_unique hM hM']
      · intro he
        exact ⟨M, hM, he ▸ hr'⟩
    constructor
    · intro h
      obtain ⟨hb, hcr⟩ := (load_eq_iff hM hc hlaid).mp (hiff.mp (h r' rfl))
      exact ⟨m, M, hm, hM, hb, hcr⟩
    · rintro ⟨m', M', hm', hM', hb, hcr⟩ r'' he
      obtain rfl := holds_unique hm hm'
      obtain rfl := holds_unique hM hM'
      obtain ⟨-, rfl⟩ := Prod.mk.inj (Option.some.inj he)
      exact hiff.mpr ((load_eq_iff hM hc hlaid).mpr ⟨hb, hcr⟩)
  · obtain ⟨r', hall, hlost'⟩ := applyUntil_lost hsync.sys vs 0 hr.formed hlost
    rw [hread r' hall]
    constructor
    · intro h
      obtain ⟨M', -, hr'⟩ := h r' rfl
      exact absurd hr' (hlost'.not_holds M')
    · rintro ⟨m, -, hm, -⟩
      exact absurd hm (hlost.not_holds m)

theorem full_sync_copies_snapshot_example :
    ∃ s ctx ret, Reachable .small s ∧ (engine .small .rbtree).get s (some (.lit "k")) = some (some (.lit "v")) ∧
      kvsTraversalWrite (fun _ => ⟨true, true, true⟩) s 3 .start = some (ctx, ret) ∧ ctx.returns = [0] ∧
      ∀ r', kvsSlaveFullSync .small (.delivering ctx.file) (fresh .small) = some (0, r') →
        ∃ M, Holds .small s M ∧ Holds .small r' M := by
  obtain ⟨s, hcall, hs⟩ := call_granted (fresh_empty .small) .rbtree (.set (.lit "k") (.lit "v")) Sys.granted_allocOk
  have hrun : (do
      let s ← (engine .small .rbtree).call (fresh .small) (.set (.lit "k") (.lit "v"), .granted)
      let w ← kvsTraversalWrite (fun _ => ⟨true, true, true⟩) s.1 3 .start
      some ((engine .small .rbtree).get s.1 (some (.lit "k")), w.1.returns, w.1.file.length)) =
      some (some (some (.lit "v")), [0], 24) := by decide +kernel
  rw [hcall] at hrun
  obtain ⟨x, hx, hrun⟩ := Option.bind_eq_some_iff.mp hrun
  obtain rfl := Option.some.inj hx
  obtain ⟨⟨ctx, ret⟩, hw, hf⟩ := Option.bind_eq_some_iff.mp hrun
  obtain ⟨hget, hf⟩ := Prod.mk.inj (Option.some.inj hf)
  obtain ⟨hret, hlen⟩ := Prod.mk.inj hf
  have hreach : Reachable .small s := (Reachable.empty (fresh_empty _)).call hcall
  refine ⟨s, ctx, ret, hreach, hget, hw, hret, ?_⟩
  refine (full_sync_copies_snapshot_iff .small s (fresh .small) hreach (hs.countFits (by decide)) (.empty (fresh_empty _)) _ 3
    (by decide) ctx ret hw (by rw [hret]; decide) (by rw [hlen]; decide) _ (SyncEnv.delivering_delivers _)).mpr
    ⟨Maps.empty, _, fresh_empty _, hs, fun id key => Or.inl rfl, ?_⟩
  rintro ⟨-, slot, key, -, -, hkey⟩
  cases hkey

/-- A key that the slave has already keeps its old value, and the sync is reported as a success. -/
theorem full_sync_keeps_old_value :
    ∃ s r r' ctx ret, Reachable .small s ∧ Reachable .small r ∧
      kvsTraversalWrite (fun _ => ⟨true, true, true⟩) s 3 .start = some (ctx, ret) ∧ ctx.returns = [0] ∧
      kvsSlaveFullSync .small (.delivering ctx.file) r = some (0, r') ∧
      (engine .small .rbtree).get s (some (.lit "k")) = some (some (.lit "new")) ∧
      (engine .small .rbtree).get r' (some (.lit "k")) = some (some (.lit "old")) ∧
      ¬ ∃ M, Holds .small s M ∧ Holds .small r' M := by
  have hrun : (do
      let s ← (engine .small .rbtree).call (fresh .small) (.set (.lit "k") (.lit "new"), .granted)
      let r ← (engine .small .rbtree).call (fresh .small) (.set (.lit "k") (.lit "old"), .granted)
      let w ← kvsTraversalWrite (fun _ => ⟨true, true, true⟩) s.1 3 .start
      let t ← kvsSlaveFullSync .small (.delivering w.1.file) r.1
      some (w.1.returns, t.1, (engine .small .rbtree).get s.1 (some (.lit "k")),
        (engine .small .rbtree).get t.2 (some (.lit "k")))) =
      some ([0], 0, some (some (.lit "new")), some (some (.lit "old"))) := by decide +kernel
  obtain ⟨s, hs, hrun⟩ := Option.bind_eq_some_iff.mp hrun
  obtain ⟨r, hr, hrun⟩ := Option.bind_eq_some_iff.mp hrun
  obtain ⟨⟨ctx, ret⟩, hw, hrun⟩ := Option.bind_eq_some_iff.mp hrun
  obtain ⟨⟨code, r'⟩, ht, hrun⟩ := Option.bind_eq_some_iff.mp hrun
  obtain ⟨hret, hrun⟩ := Prod.mk.inj (Option.some.inj hrun)
  obtain ⟨rfl, hrun⟩ := Prod.mk.inj hrun
  obtain ⟨hnew, hold⟩ := Prod.mk.inj hrun
  have hstart : Reachable .small (fresh .small) := .empty (fresh_empty _)
  refine ⟨s.1, r.1, r', ctx, ret, hstart.call hs, hstart.call hr, hw, hret, ht, hnew, hold, ?_⟩
  rintro ⟨M, hM, hM'⟩
  have hsame := (sameMaps_of_holds hM hM' .rbtree (.lit "k")).1
  rw [hnew, hold] at hsame
  exact absurd hsame (by decide)

end Lidis
