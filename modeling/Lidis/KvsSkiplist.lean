import Lidis.Lib.Entries
import Lidis.SkiplistOperations

namespace Lidis.Skiplist

open Chain Engine

def entry (S : Skiplist) (p : ℕ) : Option CString × Option CString := (S.key p, S.value p)

def both (e : CString × CString) : Option CString × Option CString := (some e.1, some e.2)

def Stands (S : Skiplist) (m : Map) : Prop :=
  ∃ l es, Shape S l ∧ l.map S.entry = es.map both ∧ m = FMap.ofList es

theorem keyOf_both {S : Skiplist} {l : List ℕ} {es : List (CString × CString)} (h : l.map S.entry = es.map both) :
    l.map S.keyOf = FMap.keys es := by
  have hk := congrArg (List.map (fun e : Option CString × Option CString => e.1.getD ⟨[], by simp⟩)) h
  rw [List.map_map, List.map_map] at hk
  exact hk

theorem find_stands {S : Skiplist} {m : Map} (h : Stands S m) (a : CString) {size : ℕ} (hs : S.level < size) :
    (∃ l r es1 es2 p, Cut S a l r ∧ (∀ q ∈ r, a < S.keyOf q) ∧
      S.find a size = some (p, preds S l S.level (fun _ => none), false) ∧
      l.map S.entry = es1.map both ∧ r.map S.entry = es2.map both ∧ m = FMap.ofList (es1 ++ es2) ∧
      a ∉ FMap.keys es1 ∧ m.get a = none) ∨
    ∃ l x r es1 v es2, Cut S a l (x :: r) ∧
      S.find a size = some (x, preds S l S.level (fun _ => none), true) ∧ S.entry x = (some a, some v) ∧
      l.map S.entry = es1.map both ∧ r.map S.entry = es2.map both ∧ m = FMap.ofList (es1 ++ (a, v) :: es2) ∧
      a ∉ FMap.keys es1 ∧ a ∉ FMap.keys es2 ∧ m.get a = some v := by
  obtain ⟨l, es, hshape, hes, rfl⟩ := h
  obtain ⟨l1, l2, rfl, hcut⟩ := hshape.exists_cut a
  have hfind := hcut.find hs
  rw [List.map_append] at hes
  obtain ⟨es1, es2, rfl, h1, h2⟩ := List.map_eq_append_iff.mp hes.symm
  have hn1 : a ∉ FMap.keys es1 := by
    rw [← keyOf_both h1.symm]
    intro hm
    obtain ⟨p, hp, rfl⟩ := List.mem_map.mp hm
    exact lt_irrefl _ (hcut.lo p hp)
  by_cases hit : ∃ x ∈ l2.head?, S.keyOf x = a
  · right
    obtain ⟨x, hx, hxa⟩ := hit
    cases l2 with
    | nil => simp at hx
    | cons y r =>
      obtain rfl : y = x := by simpa using hx
      obtain ⟨⟨b, v⟩, es2, rfl, he, h2⟩ := List.map_eq_cons_iff.mp h2
      have hkey := hcut.shape.keyed y (by simp)
      have hent : S.entry y = (some a, some v) := by
        simp only [entry, both, Prod.mk.injEq] at he ⊢
        exact ⟨by rw [hkey, hxa], he.2.symm⟩
      have hb : b = a := by
        simp only [both, entry, hkey, hxa, Prod.mk.injEq, Option.some.injEq] at he
        exact he.1
      subst hb
      have hn2 : b ∉ FMap.keys es2 := by
        rw [← keyOf_both h2.symm]
        intro hm
        obtain ⟨p, hp, hpa⟩ := List.mem_map.mp hm
        have hsorted := hcut.shape.sorted
        rw [List.pairwise_append, List.pairwise_cons] at hsorted
        exact absurd (hsorted.2.1.1 p hp) (by rw [hpa, hxa]; exact lt_irrefl _)
      refine ⟨l1, y, r, es1, v, es2, hcut, ?_, hent, h1.symm, h2.symm, rfl, hn1, hn2, FMap.lookup_middle es1 es2 b v hn1⟩
      rw [hfind]
      simp [hxa]
  · left
    have hgt : ∀ q ∈ l2, a < S.keyOf q := by
      intro q hq
      refine lt_of_le_of_ne (hcut.hi q hq) ?_
      rintro rfl
      cases l2 with
      | nil => simp at hq
      | cons y r =>
        have hsorted := hcut.shape.sorted
        rw [List.pairwise_append, List.pairwise_cons] at hsorted
        rcases List.mem_cons.mp hq with rfl | hq
        · exact hit ⟨q, by simp, rfl⟩
        · exact absurd (hcut.hi y List.mem_cons_self) (not_le.mpr (hsorted.2.1.1 q hq))
    have hn2 : a ∉ FMap.keys es2 := by
      rw [← keyOf_both h2.symm]
      intro hm
      obtain ⟨p, hp, rfl⟩ := List.mem_map.mp hm
      exact lt_irrefl _ (hgt p hp)
    refine ⟨l1, l2, es1, es2, _, hcut, hgt, by rw [hfind, decide_eq_false hit], h1.symm, h2.symm, rfl, hn1, ?_⟩
    rw [FMap.ofList_get, FMap.lookup_append, (FMap.lookup_eq_none a es1).mpr hn1,
      (FMap.lookup_eq_none a es2).mpr hn2]
    rfl

theorem get_stands {S : Skiplist} {m : Map} (h : Stands S m) (a : CString) :
    kvsSkiplistGet S a = some (m.get a) := by
  rcases find_stands h a (Nat.lt_succ_self S.level) with
    ⟨l, -, -, -, p, -, -, hf, -, -, -, -, hm⟩ | ⟨l, x, -, -, v, -, -, hf, he, -, -, -, -, -, hm⟩
  · simp [kvsSkiplistGet, hf, hm]
  · have hv : S.value x = some v := congrArg Prod.snd he
    simp [kvsSkiplistGet, hf, hm, hv]

theorem exist_stands {S : Skiplist} {m : Map} (h : Stands S m) (a : CString) :
    kvsSkiplistExist S a = some (if (m.get a).isSome then 0 else 1) := by
  cases hm : m.get a <;> simp [kvsSkiplistExist, get_stands h a, hm]

theorem createNode_spec {S : Skiplist} {sys : Sys} (level : ℕ) (ha : ∀ i < 4, sys.alloc i = true) (a v : CString) :
    ∃ S', S.createNode level (some a) (some v) sys = some (S', S.next) ∧ S'.header = S.header ∧ S'.level = S.level ∧
      S'.height = Function.update S.height S.next level ∧ S'.key = Function.update S.key S.next (some a) ∧
      S'.value = Function.update S.value S.next (some v) ∧ S'.next = S.next + 1 ∧
      S'.forward = Function.update S.forward S.next (fun _ => 0) := by
  simp [createNode, ha 0, ha 1, ha 2, ha 3]

/-- The way of a new node into the list, from createNode to the last of its links. -/
theorem Cut.linked_new {S : Skiplist} {a : CString} {l r : List ℕ} {sys : Sys} {level : ℕ} (hcut : Cut S a l r)
    (hgt : ∀ q ∈ r, a < S.keyOf q) (ha : ∀ i < 4, sys.alloc i = true) (hrl : level < maxLevel) (v : CString) :
    ∃ S1 u S2, S.createNode level (some a) (some v) sys = some (S1, S.next) ∧
      S1.raise level (preds S l S.level (fun _ => none)) = some (S1.setLevel (max S.level level), u) ∧
      link u S.next level (S1.setLevel (max S.level level)) = some S2 ∧ Shape S2 (l ++ S.next :: r) ∧
      S2.header = S.header ∧ S2.next = S.next + 1 ∧ S2.key = Function.update S.key S.next (some a) ∧
      S2.value = Function.update S.value S.next (some v) := by
  obtain ⟨S1, hcreate, hh1, hl1, hhe1, hk1, hv1, hn1', hf1⟩ := createNode_spec (S := S) level ha a v
  obtain ⟨u, hraise, hu⟩ := raise_spec (l := l) hh1 hl1
    (fun q hq => hcut.shape.heights q (List.mem_append_left _ hq)) hrl
  have hne : ∀ j, lastOf S.header (S.tower j l) ≠ S.next := fun j => (hcut.pred_lt_next j).ne
  have hsn : S.next ≠ 0 := by
    have := hcut.shape.bound S.header List.mem_cons_self
    omega
  obtain ⟨S2, hlink, hsame, hfwd⟩ := link_spec level
    (S1.setLevel (max S.level level)) hu hsn
    (fun j hj => ⟨(hcut.pred_ok (by omega)).1, hne j, by
      have := (hcut.pred_ok (j := j) (by omega)).2
      simpa [setLevel, hhe1, hne j] using this⟩) (by simp [setLevel, hhe1])
  refine ⟨S1, u, S2, hcreate, hraise, hlink, ?_, hsame.header.trans hh1, hsame.next.trans hn1', hsame.key.trans hk1,
    hsame.value.trans hv1⟩
  refine hcut.insert (hsame.height.trans hhe1) ?_ hgt hrl (hsame.header.trans hh1) (hsame.key.trans hk1)
    (hsame.next.trans hn1') hsame.level
  intro x j
  rw [hfwd]
  simp only [setLevel, hf1, Function.update_apply, hne j, ↓reduceIte]
  by_cases hxs : x = S.next <;> simp [hxs]

theorem set_stands {S : Skiplist} {m : Map} {sys : Sys} (h : Stands S m) (ha : ∀ i < 4, sys.alloc i = true)
    (a v : CString) : ∃ S', kvsSkiplistSet S a v sys = some (S', if (m.get a).isSome then 1 else 0) ∧
      Stands S' (if (m.get a).isSome then m else m.insert a v) := by
  have hlevel : S.level < maxLevel := h.choose_spec.choose_spec.1.level_lt
  rcases find_stands h a hlevel with
    ⟨l, r, es1, es2, p, hcut, hgt, hf, h1, h2, rfl, hn1, hm⟩ | ⟨l, x, -, -, w, -, -, hf, -, -, -, -, -, -, hm⟩
  · obtain ⟨S1, u, S2, hcreate, hraise, hlink, hshape, -, -, hkey, hvalue⟩ :=
      hcut.linked_new hgt ha (randomLevel_lt sys.low) v
    refine ⟨S2, by simp [kvsSkiplistSet, hf, hm, hcreate, hraise, hlink], l ++ S.next :: r, es1 ++ (a, v) :: es2, hshape,
      ?_, ?_⟩
    · have hold : ∀ xs : List ℕ, (∀ q ∈ xs, q ∈ l ++ r) → xs.map S2.entry = xs.map S.entry := by
        intro xs hxs
        refine List.map_congr_left (fun q hq => ?_)
        have hqn : q ≠ S.next := (hcut.shape.bound q (List.mem_cons_of_mem _ (hxs q hq))).ne
        simp only [entry, hkey, hvalue, Function.update_of_ne hqn]
      rw [List.map_append, List.map_cons, hold l (by simp +contextual), hold r (by simp +contextual), h1, h2]
      simp [entry, hkey, hvalue, both]
    · simp [hm, FMap.ofList_insert es1 es2 a v hn1]
  · exact ⟨S, by simp [kvsSkiplistSet, hf, hm], by simpa [hm] using h⟩

/-- The way of a node out of the list; the level is lowered when nothing points to the node any more. -/
theorem Cut.unlinked {S : Skiplist} {a : CString} {x : ℕ} {l r : List ℕ} (hcut : Cut S a l (x :: r)) :
    ∃ S1 level, unlink (preds S l S.level (fun _ => none)) x (S.level + 1) 0 S = some S1 ∧ SameNodes S S1 ∧
      S1.lower S1.level = some level ∧ Shape (S1.setLevel level) (l ++ r) := by
  have hlv := hcut.shape.level_lt
  have hxl : S.height x ≤ S.level := hcut.shape.heights x (by simp)
  have hnext : ∀ j ≤ maxLevel, S.forward (lastOf S.header (S.tower j l)) j = (S.tower j (x :: r)).headD 0 := by
    intro j hj
    have hlink := hcut.shape.linked j hj
    rw [tower_append] at hlink
    exact hlink.next_lastOf
  have hxr : x ∉ r := by
    have hnd := hcut.shape.nodup
    simp only [List.nodup_cons, List.nodup_append] at hnd
    exact hnd.2.2.1.1
  have hx0 : x ≠ 0 := hcut.shape.nonzero x (by simp)
  have hu : ∀ j ≤ S.level, preds S l S.level (fun _ => none) j = some (lastOf S.header (S.tower j l)) :=
    fun j hj => if_pos hj
  obtain ⟨S1, hun, hsame, hfwd⟩ := unlink_spec (S.level + 1) 0 S rfl hu hx0 (fun j hj => hcut.pred_ok (by omega)) hxl (Nat.zero_le _)
    (fun j _ hj => by rw [hnext j (by omega), tower_cons_of_le hj]; rfl)
    (fun j hj hjl => by
      rw [hnext j (by omega), tower_cons_of_lt hj]
      intro he
      cases ht : S.tower j r with
      | nil =>
        rw [ht] at he
        exact hx0 he.symm
      | cons y t =>
        rw [ht] at he
        obtain rfl : y = x := he
        exact hxr (mem_tower.mp (ht ▸ List.mem_cons_self)).1)
  have hhead : S1.header ≠ 0 := hsame.header ▸ hcut.shape.header_ne
  obtain ⟨level, hlow, hle, hzero, htop⟩ := lower_spec hhead S1.level (by
    rw [hsame.header, hsame.height, hcut.shape.header_height, hsame.level]; omega)
  rw [hsame.level] at hle hzero
  rw [hsame.header] at hzero htop
  exact ⟨S1, level, hun, hsame, hlow, hcut.remove hsame hle (fun y j => by simpa using hfwd y j) hzero htop⟩

theorem del_stands {S : Skiplist} {m : Map} (h : Stands S m) (a : CString) :
    ∃ S', kvsSkiplistDel S a = some (S', if (m.get a).isSome then 0 else 1) ∧
      Stands S' (if (m.get a).isSome then m.erase a else m) := by
  rcases find_stands h a (Nat.lt_succ_self S.level) with
    ⟨l, -, -, -, p, -, -, hf, -, -, -, -, hm⟩ | ⟨l, x, r, es1, v, es2, hcut, hf, -, h1, h2, rfl, hn1, hn2, hm⟩
  · exact ⟨S, by simp [kvsSkiplistDel, hf, hm], by simpa [hm] using h⟩
  · obtain ⟨S1, level, hun, hsame, hlow, hshape⟩ := hcut.unlinked
    refine ⟨S1.setLevel level, by simp [kvsSkiplistDel, hf, hm, hun, hlow], l ++ r, es1 ++ es2, hshape, ?_, ?_⟩
    · have hent : (S1.setLevel level).entry = S.entry := by
        funext p
        simp only [entry, setLevel, hsame.key, hsame.value]
      rw [hent, List.map_append, h1, h2, List.map_append]
    · simp [hm, FMap.ofList_erase es1 es2 a v hn1 hn2]

theorem mod_stands {S : Skiplist} {m : Map} {sys : Sys} (h : Stands S m) (ha : sys.alloc 0 = true) (a v : CString) :
    ∃ S', kvsSkiplistMod S a v sys = some (S', if (m.get a).isSome then 0 else 1) ∧
      Stands S' (if (m.get a).isSome then m.insert a v else m) := by
  rcases find_stands h a (Nat.lt_succ_self S.level) with
    ⟨l, -, -, -, p, -, -, hf, -, -, -, -, hm⟩ | ⟨l, x, r, es1, w, es2, hcut, hf, he, h1, h2, rfl, hn1, -, hm⟩
  · exact ⟨S, by simp [kvsSkiplistMod, hf, hm], by simpa [hm] using h⟩
  · refine ⟨S.setValue x (some v), by simp [kvsSkiplistMod, hf, hm, ha], l ++ x :: r, es1 ++ (a, v) :: es2, ?_, ?_, ?_⟩
    · exact ⟨hcut.shape.header_ne, hcut.shape.header_height, hcut.shape.nodup, hcut.shape.nonzero, hcut.shape.bound,
        hcut.shape.keyed, hcut.shape.sorted, hcut.shape.linked, hcut.shape.heights, hcut.shape.level_lt, hcut.shape.top⟩
    · have hnd := hcut.shape.nodup
      simp only [List.nodup_cons, List.nodup_append', List.disjoint_cons_right] at hnd
      have hold : ∀ xs : List ℕ, x ∉ xs → xs.map (S.setValue x (some v)).entry = xs.map S.entry := by
        intro xs hxs
        refine List.map_congr_left (fun q hq => ?_)
        have hqx : q ≠ x := fun hqx => hxs (hqx ▸ hq)
        simp [entry, setValue, hqx]
      have hk : S.key x = some a := congrArg Prod.fst he
      rw [List.map_append, List.map_cons, hold l hnd.2.2.2.1, hold r hnd.2.2.1.1, h1, h2]
      simp [entry, setValue, hk, both]
    · simp [hm, FMap.ofList_modify es1 es2 a w v hn1]

/-- What the calls amount to, for every outcome of every kvs_malloc. -/
def account (m : Map) (c : Op × Sys) : Map × Answer :=
  match c.1 with
  | .set k v =>
    if (m.get k).isSome then (m, .code 1)
    else if c.2.alloc 0 ∧ c.2.alloc 1 ∧ c.2.alloc 2 ∧ c.2.alloc 3 then (m.insert k v, .code 0)
    else (m, .code (-2))
  | .mod k v =>
    if ¬ (m.get k).isSome then (m, .code 1)
    else if c.2.alloc 0 then (m.insert k v, .code 0)
    else (m, .code (-2))
  | o => m.step .plain o

theorem granted_four {sys : Sys} (h : sys.alloc 0 ∧ sys.alloc 1 ∧ sys.alloc 2 ∧ sys.alloc 3) :
    ∀ i < 4, sys.alloc i = true := by
  obtain ⟨h0, h1, h2, h3⟩ := h
  rintro (_ | _ | _ | _ | i) hi <;> first | assumption | omega

theorem createNode_refused {S : Skiplist} {level : ℕ} {k v : CString} {sys : Sys}
    (h : ¬ (sys.alloc 0 ∧ sys.alloc 1 ∧ sys.alloc 2 ∧ sys.alloc 3)) : S.createNode level (some k) (some v) sys = none := by
  unfold createNode
  by_cases h01 : ¬ sys.alloc 0 ∨ ¬ sys.alloc 1
  · rw [if_pos h01]
  · have h23 : ¬ sys.alloc 2 ∨ ¬ sys.alloc 3 := by tauto
    rw [if_neg h01]
    simp only [if_pos h23]

theorem engine_simulates : Machine.Simulates engine.call account Stands (fun _ => True) := by
  rintro S m ⟨op, sys⟩ h -
  cases op with
  | set k v =>
    by_cases hall : sys.alloc 0 ∧ sys.alloc 1 ∧ sys.alloc 2 ∧ sys.alloc 3
    · obtain ⟨S', hset, hS'⟩ := set_stands h (granted_four hall) k v
      refine ⟨S', ?_, ?_⟩
      · cases hm : m.get k <;> simp [call, engine, hset, account, hm, hall, codeOf]
      · cases hm : m.get k <;> simpa [account, hm, hall] using hS'
    · have hlevel : S.level < maxLevel := h.choose_spec.choose_spec.1.level_lt
      rcases find_stands h k hlevel with
        ⟨l1, -, -, -, p, -, -, hf, -, -, -, -, hm⟩ | ⟨l1, x, -, -, w, -, -, hf, -, -, -, -, -, -, hm⟩
      · have hspec : account m (.set k v, sys) = (m, .code (-2)) := by
          simp only [account, hm, Option.isSome_none, Bool.false_eq_true, if_false, if_neg hall]
        rw [hspec]
        exact ⟨S, by simp [call, engine, kvsSkiplistSet, hf, createNode_refused hall, codeOf], h⟩
      · have hspec : account m (.set k v, sys) = (m, .code 1) := by simp [account, hm]
        rw [hspec]
        exact ⟨S, by simp [call, engine, kvsSkiplistSet, hf, codeOf], h⟩
  | get k => exact ⟨S, by simp [call, engine, account, FMap.step, get_stands h k], h⟩
  | del k =>
    obtain ⟨S', hdel, hS'⟩ := del_stands h k
    refine ⟨S', ?_, ?_⟩
    · cases hm : m.get k <;> simp [call, engine, hdel, account, FMap.step, FMap.Contract.plain, hm, codeOf]
    · cases hm : m.get k <;> simpa [account, FMap.step, hm] using hS'
  | mod k v =>
    by_cases h0 : sys.alloc 0
    · obtain ⟨S', hmod, hS'⟩ := mod_stands h h0 k v
      refine ⟨S', ?_, ?_⟩
      · cases hm : m.get k <;> simp [call, engine, hmod, account, hm, h0, codeOf]
      · cases hm : m.get k <;> simpa [account, hm, h0] using hS'
    · rcases find_stands h k (Nat.lt_succ_self S.level) with
        ⟨l1, -, -, -, p, -, -, hf, -, -, -, -, hm⟩ | ⟨l1, x, -, -, w, -, -, hf, -, -, -, -, -, -, hm⟩
      · exact ⟨S, by simp [call, engine, kvsSkiplistMod, hf, account, hm, codeOf], by simpa [account, hm] using h⟩
      · exact ⟨S, by simp [call, engine, kvsSkiplistMod, hf, account, hm, h0, codeOf], by simpa [account, hm, h0] using h⟩
  | exist k => exact ⟨S, by simp [call, engine, account, FMap.step, exist_stands h k], h⟩

theorem account_granted {c : Op × Sys} (h : c.2.AllocOk) (m : Map) : account m c = model .plain m c := by
  obtain ⟨op, sys⟩ := c
  have hall : ∀ i, sys.alloc i = true := h
  cases op with
  | set k v => cases hm : m.get k <;> simp [account, model, FMap.step, FMap.Contract.plain, hm, hall]
  | mod k v => cases hm : m.get k <;> simp [account, model, FMap.step, FMap.Contract.plain, hm, hall]
  | _ => rfl

theorem engine_refines : engine.Refines .plain Stands := by
  intro S m c h hc
  rw [← account_granted hc]
  exact engine_simulates S m c h trivial

theorem createNode_asGranted (S : Skiplist) (level : ℕ) (k v : CString) (sys : Sys) :
    S.createNode level (some k) (some v) sys = S.createNode level (some k) (some v) sys.grant ∨
      S.createNode level (some k) (some v) sys = none := by
  by_cases hall : sys.alloc 0 ∧ sys.alloc 1 ∧ sys.alloc 2 ∧ sys.alloc 3
  · exact Or.inl (by simp [createNode, hall, Sys.grant])
  · exact Or.inr (createNode_refused hall)

theorem set_asGranted (S : Skiplist) (k v : CString) (sys : Sys) :
    AsGranted S (kvsSkiplistSet S k v sys) (kvsSkiplistSet S k v sys.grant) := by
  cases hf : S.find k maxLevel with
  | none => exact Or.inl (by simp [kvsSkiplistSet, hf])
  | some r =>
    obtain ⟨p, update, hit⟩ := r
    cases hit with
    | true => exact Or.inl (by simp [kvsSkiplistSet, hf])
    | false =>
      rcases createNode_asGranted S (randomLevel sys.low) k v sys with hc | hc
      · have hlow : randomLevel sys.grant.low = randomLevel sys.low := rfl
        exact Or.inl (by simp only [kvsSkiplistSet, hlow, hc])
      · exact Or.inr (Or.inl (by simp [kvsSkiplistSet, hf, hc]))

theorem mod_asGranted (S : Skiplist) (k v : CString) (sys : Sys) :
    AsGranted S (kvsSkiplistMod S k v sys) (kvsSkiplistMod S k v sys.grant) := by
  by_cases h0 : sys.alloc 0
  · exact Or.inl (by simp [kvsSkiplistMod, h0, Sys.grant])
  · cases hf : S.find k (S.level + 1) with
    | none => exact Or.inl (by simp [kvsSkiplistMod, hf])
    | some r =>
      obtain ⟨p, update, hit⟩ := r
      cases hit with
      | true => exact Or.inr (Or.inl (by simp [kvsSkiplistMod, hf, h0]))
      | false => exact Or.inl (by simp [kvsSkiplistMod, hf])

theorem engine_tolerates : engine.Tolerates .plain Stands (fun _ => True) :=
  engine_refines.tolerates set_asGranted (fun S k v sys _ => mod_asGranted S k v sys)

theorem create_shape (S : Skiplist) {sys : Sys} (h0 : sys.alloc 0 = true) (h1 : sys.alloc 1 = true) (hn : 0 < S.next) :
    ∃ S', S.kvsSkiplistCreate sys = (S', 0) ∧ Shape S' [] ∧ S'.header < S'.next := by
  have hc : S.kvsSkiplistCreate sys = ({ S with
      height := Function.update S.height S.next maxLevel, forward := Function.update S.forward S.next (fun _ => 0),
      next := S.next + 1, key := Function.update S.key S.next none, value := Function.update S.value S.next none,
      header := S.next, level := 0 }, 0) := by
    simp [kvsSkiplistCreate, createNode, h0, h1]
  refine ⟨_, hc, ⟨hn.ne', by simp, by simp, by simp, by simp, by simp, List.Pairwise.nil, ?_, by simp, ?_, Or.inl rfl⟩,
    Nat.lt_succ_self _⟩
  · intro i _
    simp [tower, Linked]
  · simp [maxLevel]

theorem create_stands (S : Skiplist) (sys : Sys) (h : sys.alloc 0 = true ∧ sys.alloc 1 = true) (hn : 0 < S.next) :
    (S.kvsSkiplistCreate sys).2 = 0 ∧ Stands (S.kvsSkiplistCreate sys).1 FMap.empty := by
  obtain ⟨S', hc, hshape, -⟩ := create_shape S h.1 h.2 hn
  rw [hc]
  exact ⟨rfl, [], [], hshape, rfl, FMap.ofList_nil.symm⟩

/-- After any calls, for any draws of the levels and any outcome of every kvs_malloc: the links of each level run
through strictly increasing keys, level by level a subsequence, up to a topmost level that is in use. The answers are
those of the account, which are a finite map's where memory is granted. -/
theorem skiplist_levels_and_answers (S : Skiplist) (hn : 0 < S.next) (sys : Sys)
    (h : sys.alloc 0 = true ∧ sys.alloc 1 = true) (cs : List (Op × Sys)) :
    ∃ (S' : Skiplist) (nodes : ℕ → List ℕ), engine.run (S.kvsSkiplistCreate sys).1 cs =
        some (S', (Machine.track account FMap.empty cs).2) ∧
      ((∀ c ∈ cs, c.2.AllocOk) →
        Machine.track account FMap.empty cs = Machine.track (model .plain) FMap.empty cs) ∧
      (∀ i ≤ maxLevel, Linked (fun p => S'.forward p i) 0 S'.header (nodes i)) ∧
      (∀ i, (nodes i).Pairwise (fun p q => ∃ a b, S'.key p = some a ∧ S'.key q = some b ∧ CString.strcmp a b < 0)) ∧
      (∀ i, (nodes (i + 1)).Sublist (nodes i)) ∧ (∀ i, S'.level < i → nodes i = []) ∧
      (S'.level = 0 ∨ nodes S'.level ≠ []) ∧ S'.level ≤ 31 := by
  obtain ⟨S', hr, l, es, hshape, -, -⟩ :=
    engine_simulates.run cs _ FMap.empty (create_stands S sys h hn).2 (fun _ _ => trivial)
  refine ⟨S', fun i => S'.tower i l, hr, fun hcs => Machine.track_congr (fun c hc => account_granted (hcs c hc)) _,
    hshape.linked, ?_, fun i => tower_succ_sublist S' i l, ?_, ?_, ?_⟩
  · intro i
    have hsorted : (S'.tower i l).Pairwise (fun p q => S'.keyOf p < S'.keyOf q) :=
      hshape.sorted.sublist List.filter_sublist
    refine hsorted.imp_of_mem (fun {p q} hp hq hpq => ?_)
    exact ⟨_, _, hshape.keyed p (mem_tower.mp hp).1, hshape.keyed q (mem_tower.mp hq).1, (CString.strcmp_neg _ _).mpr hpq⟩
  · intro i hi
    exact tower_eq_nil (fun p hp => lt_of_le_of_lt (hshape.heights p hp) hi)
  · rcases hshape.top with h0 | ⟨p, hp, hph⟩
    · exact Or.inl h0
    · exact Or.inr (List.ne_nil_of_mem (mem_tower.mpr ⟨hp, hph.ge⟩))
  · exact Nat.le_of_lt_succ hshape.level_lt

def blank : Skiplist := ⟨0, 0, fun _ _ => 0, fun _ => 0, fun _ => none, fun _ => none, 1⟩

/-- The second node finds no memory for its value. -/
theorem skiplist_levels_and_answers_example :
    ∃ (S' : Skiplist) (nodes : ℕ → List ℕ), engine.run (blank.kvsSkiplistCreate .granted).1
        [(.set (.lit "b") (.lit "1"), ⟨fun _ => true, fun i => i < 2⟩),
          (.set (.lit "c") (.lit "3"), ⟨fun i => i < 3, fun _ => true⟩), (.set (.lit "a") (.lit "2"), .granted),
          (.del (.lit "b"), .granted), (.get (.lit "a"), .granted)] =
        some (S', [.code 0, .code (-2), .code 0, .code 0, .value (some (.lit "2"))]) ∧
      (∀ i ≤ maxLevel, Linked (fun p => S'.forward p i) 0 S'.header (nodes i)) ∧
      (∀ i, (nodes i).Pairwise (fun p q => ∃ a b, S'.key p = some a ∧ S'.key q = some b ∧ CString.strcmp a b < 0)) ∧
      (∀ i, (nodes (i + 1)).Sublist (nodes i)) ∧ (∀ i, S'.level < i → nodes i = []) ∧
      (S'.level = 0 ∨ nodes S'.level ≠ []) ∧ S'.level ≤ 31 := by
  obtain ⟨S', nodes, hrun, -, hinv⟩ := skiplist_levels_and_answers blank Nat.one_pos .granted ⟨rfl, rfl⟩
    [(.set (.lit "b") (.lit "1"), ⟨fun _ => true, fun i => i < 2⟩),
      (.set (.lit "c") (.lit "3"), ⟨fun i => i < 3, fun _ => true⟩), (.set (.lit "a") (.lit "2"), .granted),
      (.del (.lit "b"), .granted), (.get (.lit "a"), .granted)]
  exact ⟨S', nodes, hrun, hinv⟩

end Lidis.Skiplist
