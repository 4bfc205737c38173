import Lidis.Engine
import Lidis.Lib.Entries
import Lidis.RbtreeEntries

namespace Lidis.Rbtree

open RedBlack ColoredTree Context Engine

def kvsRbtreeCreate (T : Rbtree) (sys : Sys) : Option Rbtree :=
  if sys.alloc 0 then
    some { T with nil := T.next, color := Function.update T.color T.next .black, root := T.next, next := T.next + 1 }
  else none

def kvsRbtreeGet (T : Rbtree) (key : Option CString) : Option (Option CString) :=
  match key with
  | none => some none
  | some key => do
    let node ← rbtreeSearch T key T.next T.root
    if node = T.nil then some none else some (T.value node)

def newNode (T : Rbtree) (key value : CString) : Rbtree :=
  { T with
    key := Function.update T.key T.next key
    value := Function.update T.value T.next (some value)
    next := T.next + 1 }

def kvsRbtreeSet (T : Rbtree) (key value : Option CString) (sys : Sys) : Option (Rbtree × ℤ) :=
  match key, value with
  | some key, some value => do
    match ← kvsRbtreeGet T key with
    | some _ => some (T, 1)
    | none =>
      if ¬ sys.alloc 0 then none
      else if ¬ sys.alloc 1 then some (T, -2)
      else if ¬ sys.alloc 2 then some (T, -2)
      else do
        let T' ← rbtreeInsert (T.newNode key value) T.next
        some (T', 0)
  | _, _ => some (T, -1)

def kvsRbtreeDel (T : Rbtree) (key : Option CString) : Option (Rbtree × ℤ) :=
  match key with
  | none => some (T, -1)
  | some key => do
    let node ← rbtreeSearch T key T.next T.root
    if node = T.nil then some (T, 1)
    else do
      let (T, _) ← rbtreeDelete T node
      some (T, 0)

def setValue (T : Rbtree) (p : Ptr) (v : Option CString) : Rbtree :=
  { T with value := Function.update T.value p v }

def kvsRbtreeMod (T : Rbtree) (key value : Option CString) (sys : Sys) : Option (Rbtree × ℤ) :=
  match key, value with
  | some key, some value => do
    let node ← rbtreeSearch T key T.next T.root
    if node = T.nil then some (T, 1)
    else if ¬ sys.alloc 0 then some (T.setValue node none, -2)
    else some (T.setValue node (some value), 0)
  | _, _ => some (T, -1)

def kvsRbtreeExist (T : Rbtree) (key : Option CString) : Option ℤ :=
  match key with
  | none => some (-1)
  | some key => do
    let node ← rbtreeSearch T key T.next T.root
    if node = T.nil then some 1 else some 0

def engine : Engine Rbtree := ⟨kvsRbtreeSet, kvsRbtreeGet, kvsRbtreeDel, kvsRbtreeMod, kvsRbtreeExist⟩

/-- The entries of a valid tree in key order. A value is missing where kvs_rbtree_mod found no memory for it. -/
def Lists (T : Rbtree) (l : List (CString × Option CString)) : Prop := ∃ t, Valid T t ∧ T.entries t = l

theorem Lists.sorted {T : Rbtree} {l : List (CString × Option CString)} (h : Lists T l) :
    (FMap.keys l).Pairwise (· < ·) := by
  obtain ⟨t, hv, rfl⟩ := h
  exact List.pairwise_map.mpr (ordered_keys.mp hv.ordered)

theorem absent_of_bounds {T : Rbtree} {a : CString} {xs : List Ptr} (h : ∀ p ∈ xs, T.key p ≠ a) :
    a ∉ FMap.keys (xs.map T.entry) := by
  intro ha
  obtain ⟨e, he, rfl⟩ := List.mem_map.mp ha
  obtain ⟨p, hp, rfl⟩ := List.mem_map.mp he
  exact h p hp rfl

theorem setValue_valid {T : Rbtree} {t : ColoredTree Ptr} (h : Valid T t) (z : Ptr) (o : Option CString) :
    Valid (T.setValue z o) t :=
  ⟨⟨h.holds.root, h.holds.rep.congr_all rfl (fun _ _ => rfl) (fun _ _ _ => rfl) (fun _ _ => rfl), h.holds.nodup,
    h.holds.nil_not_mem, h.holds.nil_black⟩, h.redBlack, h.ordered, h.bound⟩

theorem setValue_entries {T : Rbtree} {c : Color} {u w : ColoredTree Ptr} {z : Ptr} {k : Context Ptr}
    (h : Valid T (plug k (node c u z w))) (o : Option CString) :
    (T.setValue z o).entries (plug k (node c u z w)) =
      (before k ++ u.items).map T.entry ++ (T.key z, o) :: (w.items ++ after k).map T.entry := by
  have hnd := h.holds.nodup
  have hsplit : (plug k (node c u z w)).items = (before k ++ u.items) ++ z :: (w.items ++ after k) := by
    rw [items_plug, items]; simp
  rw [hsplit, List.nodup_append', List.nodup_cons, List.disjoint_cons_right] at hnd
  have hother : ∀ xs : List Ptr, z ∉ xs → xs.map (T.setValue z o).entry = xs.map T.entry := by
    intro xs hxs
    refine List.map_congr_left (fun p hp => ?_)
    have hpz : p ≠ z := fun he => hxs (he ▸ hp)
    simp [entry, setValue, hpz]
  rw [entries, hsplit, List.map_append, List.map_cons, hother _ hnd.2.2.1, hother _ hnd.2.1.1]
  simp [entry, setValue]

theorem setValue_lists {T : Rbtree} {c : Color} {u w : ColoredTree Ptr} {z : Ptr} {k : Context Ptr}
    (h : Valid T (plug k (node c u z w))) (o : Option CString) :
    Lists (T.setValue z o)
      ((before k ++ u.items).map T.entry ++ (T.key z, o) :: (w.items ++ after k).map T.entry) :=
  ⟨_, setValue_valid h z o, setValue_entries h o⟩

theorem delete_valid {T : Rbtree} {c : Color} {u w : ColoredTree Ptr} {z : Ptr} {k : Context Ptr}
    (h : Valid T (plug k (node c u z w))) :
    ∃ T' t' y, rbtreeDelete T z = some (T', y) ∧ Valid T' t' ∧ T'.nil = T.nil ∧ T'.data = (T.swapData y z).data ∧
      (plug k (node c u z w)).items.Perm (y :: t'.items) ∧
      T'.entries t' = (before k ++ u.items).map T.entry ++ (w.items ++ after k).map T.entry := by
  obtain ⟨T', t', y, hdel, hholds, hrb, hnil, hdata, hsub, hperm, hent⟩ := delete_at h
  refine ⟨T', t', y, hdel, ⟨hholds, hrb, ?_, ?_⟩, hnil, hdata, hperm, hent⟩
  · rw [ordered_keys, hent, ← List.map_append, List.pairwise_map]
    refine h.ordered.sublist ?_
    rw [items_plug, items]
    simp
  · intro p hp
    rw [next_of_data hdata, swapData_next]
    rw [hnil] at hp
    exact h.bound p (List.cons_subset_cons _ hsub.subset hp)

theorem delete_lists {T : Rbtree} {c : Color} {u w : ColoredTree Ptr} {z : Ptr} {k : Context Ptr}
    (h : Valid T (plug k (node c u z w))) :
    ∃ T' y, rbtreeDelete T z = some (T', y) ∧
      Lists T' ((before k ++ u.items).map T.entry ++ (w.items ++ after k).map T.entry) := by
  obtain ⟨T', t', y, hdel, hv, -, -, -, hent⟩ := delete_valid h
  exact ⟨T', y, hdel, t', hv, hent⟩

/-- Either the key is nowhere, or its node `z` cuts the entries in two and can be deleted or given another value. -/
theorem search_lists {T : Rbtree} {l : List (CString × Option CString)} (h : Lists T l) (a : CString) :
    (rbtreeSearch T a T.next T.root = some T.nil ∧ a ∉ FMap.keys l) ∨
      ∃ z l1 l2, rbtreeSearch T a T.next T.root = some z ∧ z ≠ T.nil ∧ l = l1 ++ (a, T.value z) :: l2 ∧
        (∃ T' y, rbtreeDelete T z = some (T', y) ∧ Lists T' (l1 ++ l2)) ∧
        ∀ o, Lists (T.setValue z o) (l1 ++ (a, o) :: l2) := by
  obtain ⟨t, hv, rfl⟩ := h
  rcases search_spec (a := a) hv with ⟨k, rfl, hs, hlo, hhi⟩ | ⟨k, c, u, z, w, rfl, rfl, hs⟩
  · left
    refine ⟨hs, absent_of_bounds (fun p hp => ?_)⟩
    rw [items_plug] at hp
    simp only [items, List.append_nil, List.mem_append] at hp
    rcases hp with hp | hp
    · exact (hlo p hp).ne
    · exact (hhi p hp).ne'
  · right
    refine ⟨z, (before k ++ u.items).map T.entry, (w.items ++ after k).map T.entry, hs, ?_, ?_, delete_lists hv,
      setValue_lists hv⟩
    · rintro rfl
      exact hv.holds.nil_not_mem (by rw [items_plug]; simp [items])
    · rw [entries, items_plug, items]
      simp [entry]

theorem newNode_valid {T : Rbtree} {t : ColoredTree Ptr} (h : Valid T t) (a v : CString) :
    Valid (T.newNode a v) t ∧ (T.newNode a v).entries t = T.entries t ∧ T.next ∉ t.items ∧ T.next ≠ T.nil := by
  have hfresh : ∀ p ∈ t.items, p ≠ T.next := fun p hp => (h.bound p (List.mem_cons_of_mem _ hp)).ne
  have hat := (holds_plug T [] t).mp h.holds
  have hentry : (T.newNode a v).entries t = T.entries t := by
    refine List.map_congr_left (fun p hp => ?_)
    simp [entry, newNode, hfresh p hp]
  refine ⟨⟨?_, h.redBlack, ?_, ?_⟩, hentry, fun hm => hfresh _ hm rfl, (h.bound T.nil List.mem_cons_self).ne'⟩
  · exact (holds_plug _ [] t).mpr ⟨hat.ctx.congr_all rfl rfl (fun _ _ => rfl) (fun _ _ _ => rfl) (fun _ _ => rfl),
      hat.rep.congr_all rfl (fun _ _ => rfl) (fun _ _ _ => rfl) (fun _ _ => rfl), hat.nodup, hat.nil_not_mem,
      hat.nil_black⟩
  · rw [ordered_keys, hentry, ← ordered_keys]
    exact h.ordered
  · intro p hp
    exact Nat.lt_succ_of_lt (h.bound p hp)

theorem insert_valid {T : Rbtree} {t : ColoredTree Ptr} (h : Valid T t) {a : CString} (v : CString)
    (ha : a ∉ FMap.keys (T.entries t)) :
    ∃ T' t' xs ys, rbtreeInsert (T.newNode a v) T.next = some T' ∧ Valid T' t' ∧ T'.nil = T.nil ∧
      T'.data = (T.newNode a v).data ∧ t.items = xs ++ ys ∧ t'.items = xs ++ T.next :: ys ∧ ∀ p ∈ xs, T.key p < a := by
  obtain ⟨hv', hent, hnx, hnn⟩ := newNode_valid h a v
  have hold : ∀ p ∈ t.items, (T.newNode a v).key p = T.key p := by
    intro p hp
    have hne : p ≠ T.next := fun he => hnx (he ▸ hp)
    exact Function.update_of_ne hne _ _
  have hkey : (T.newNode a v).key T.next = a := Function.update_self _ _ _
  have habs : ∀ p ∈ t.items, (T.newNode a v).key p ≠ a := by
    intro p hp he
    have hm : T.entry p ∈ T.entries t := List.mem_map.mpr ⟨p, hp, rfl⟩
    exact ha (List.mem_map.mpr ⟨_, hm, (hold p hp).symm.trans he⟩)
  have hlt := h.length_lt
  obtain ⟨T', t', xs, ys, hins, hholds, hrb, hnil, hdata, hitems, hitems', hlo, hhi⟩ :=
    insert_absent hv' hnx hnn (show t.items.length + 2 ≤ T.next + 1 by omega) (by rw [hkey]; exact habs)
  rw [hkey] at hlo hhi
  refine ⟨T', t', xs, ys, hins, ⟨hholds, hrb, ?_, ?_⟩, hnil, hdata, hitems, hitems', ?_⟩
  · have ho := hv'.ordered
    rw [hitems, Ordered, List.pairwise_append] at ho
    rw [key_of_data hdata, hitems', Ordered, List.pairwise_append, List.pairwise_cons, hkey]
    refine ⟨ho.1, ⟨hhi, ho.2.1⟩, ?_⟩
    intro p hp q hq
    rcases List.mem_cons.mp hq with rfl | hq
    · rw [hkey]; exact hlo p hp
    · exact ho.2.2 p hp q hq
  · intro p hp
    rw [next_of_data hdata]
    rw [hnil, hitems'] at hp
    have hb := hv'.bound
    rw [hitems] at hb
    simp only [List.mem_cons, List.mem_append] at hp hb
    rcases hp with hp | hp | rfl | hp
    · exact hb p (Or.inl hp)
    · exact hb p (Or.inr (Or.inl hp))
    · exact Nat.lt_succ_self _
    · exact hb p (Or.inr (Or.inr hp))
  · intro p hp
    rw [← hold p (hitems ▸ List.mem_append_left _ hp)]
    exact hlo p hp

theorem newNode_entry {T : Rbtree} (a v : CString) {xs : List Ptr} (h : T.next ∉ xs) :
    (T.newNode a v).entry T.next = (a, some v) ∧ xs.map (T.newNode a v).entry = xs.map T.entry := by
  refine ⟨by simp [entry, newNode], List.map_congr_left (fun p hp => ?_)⟩
  have hne : p ≠ T.next := fun he => h (he ▸ hp)
  simp [entry, newNode, hne]

theorem insert_lists {T : Rbtree} {l : List (CString × Option CString)} (h : Lists T l) {a : CString} (v : CString)
    (ha : a ∉ FMap.keys l) :
    ∃ T' l1 l2, rbtreeInsert (T.newNode a v) T.next = some T' ∧ l = l1 ++ l2 ∧ a ∉ FMap.keys l1 ∧
      Lists T' (l1 ++ (a, some v) :: l2) := by
  obtain ⟨t, hv, rfl⟩ := h
  obtain ⟨-, -, hnx, -⟩ := newNode_valid hv a v
  obtain ⟨T', t', xs, ys, hins, hv', -, hdata, hitems, hitems', hlo⟩ := insert_valid hv v ha
  rw [hitems, List.mem_append, not_or] at hnx
  refine ⟨T', xs.map T.entry, ys.map T.entry, hins, ?_, absent_of_bounds (fun p hp => (hlo p hp).ne), t', hv', ?_⟩
  · rw [entries, hitems, List.map_append]
  · rw [entries, hitems', entry_of_data hdata, List.map_append, List.map_cons, (newNode_entry a v hnx.1).1,
      (newNode_entry a v hnx.1).2, (newNode_entry a v hnx.2).2]

theorem insert_again {T : Rbtree} {l : List (CString × Option CString)} (h : Lists T l) {a : CString} (v : CString)
    (ha : a ∈ FMap.keys l) : rbtreeInsert (T.newNode a v) T.next = some (T.newNode a v) ∧ Lists (T.newNode a v) l := by
  obtain ⟨t, hv, rfl⟩ := h
  obtain ⟨hv', hent, -, -⟩ := newNode_valid hv a v
  refine ⟨?_, t, hv', hent⟩
  rw [← hent] at ha
  obtain ⟨e, he, hea⟩ := List.mem_map.mp ha
  obtain ⟨p, hp, hpe⟩ := List.mem_map.mp he
  have hkey : (T.newNode a v).key p = a := (congrArg Prod.fst hpe).trans hea
  exact insert_present hv' hp (hkey.trans (by simp [newNode]))

theorem call_lists {T T' : Rbtree} {l : List (CString × Option CString)} {i : Op × Sys} {a : Answer} (h : Lists T l)
    (hc : engine.call T i = some (T', a)) : ∃ l', Lists T' l' := by
  obtain ⟨o, sys⟩ := i
  cases o with
  | set k v =>
    obtain ⟨r, hr, he⟩ := Option.map_eq_some_iff.mp hc
    obtain ⟨rfl, -⟩ := Prod.mk.inj he
    simp only [engine, kvsRbtreeSet] at hr
    obtain ⟨o, -, hr⟩ := Option.bind_eq_some_iff.mp hr
    cases o with
    | some w =>
      obtain rfl := Option.some.inj hr
      exact ⟨l, h⟩
    | none =>
      dsimp only at hr
      split_ifs at hr
      · obtain ⟨T1, hins, hr⟩ := Option.bind_eq_some_iff.mp hr
        obtain rfl := Option.some.inj hr
        by_cases hk : k ∈ FMap.keys l
        · rw [(insert_again h v hk).1] at hins
          obtain rfl := Option.some.inj hins
          exact ⟨l, (insert_again h v hk).2⟩
        · obtain ⟨T2, l1, l2, hins2, -, -, hl⟩ := insert_lists h v hk
          rw [hins2] at hins
          obtain rfl := Option.some.inj hins
          exact ⟨_, hl⟩
      · obtain rfl := Option.some.inj hr
        exact ⟨l, h⟩
      · obtain rfl := Option.some.inj hr
        exact ⟨l, h⟩
  | get k =>
    obtain ⟨r, -, he⟩ := Option.map_eq_some_iff.mp hc
    obtain ⟨rfl, -⟩ := Prod.mk.inj he
    exact ⟨l, h⟩
  | del k =>
    obtain ⟨r, hr, he⟩ := Option.map_eq_some_iff.mp hc
    obtain ⟨rfl, -⟩ := Prod.mk.inj he
    rcases search_lists h k with ⟨hs, -⟩ | ⟨z, l1, l2, hs, hz, -, ⟨T1, y, hdel, hT1⟩, -⟩
    · simp only [engine, kvsRbtreeDel, hs, bind, Option.bind, ↓reduceIte, Option.some.injEq] at hr
      subst hr
      exact ⟨l, h⟩
    · simp only [engine, kvsRbtreeDel, hs, hz, hdel, bind, Option.bind, ↓reduceIte, Option.some.injEq] at hr
      subst hr
      exact ⟨_, hT1⟩
  | mod k v =>
    obtain ⟨r, hr, he⟩ := Option.map_eq_some_iff.mp hc
    obtain ⟨rfl, -⟩ := Prod.mk.inj he
    rcases search_lists h k with ⟨hs, -⟩ | ⟨z, l1, l2, hs, hz, -, -, hset⟩
    · simp only [engine, kvsRbtreeMod, hs, bind, Option.bind, ↓reduceIte, Option.some.injEq] at hr
      subst hr
      exact ⟨l, h⟩
    · simp only [engine, kvsRbtreeMod, hs, hz, bind, Option.bind, ↓reduceIte] at hr
      split_ifs at hr
      · obtain rfl := Option.some.inj hr
        exact ⟨_, hset (some v)⟩
      · obtain rfl := Option.some.inj hr
        exact ⟨_, hset none⟩
  | exist k =>
    obtain ⟨r, -, he⟩ := Option.map_eq_some_iff.mp hc
    obtain ⟨rfl, -⟩ := Prod.mk.inj he
    exact ⟨l, h⟩

theorem set_lists {T : Rbtree} {l : List (CString × Option CString)} {sys : Sys} (h : Lists T l) (ha : sys.AllocOk)
    (a v : CString) : ∃ T' n l', kvsRbtreeSet T a v sys = some (T', n) ∧ Lists T' l' ∧ ∀ e ∈ l, e ∈ l' := by
  have hget : ∃ o, kvsRbtreeGet T a = some o := by
    rcases search_lists h a with ⟨hs, -⟩ | ⟨z, l1, l2, hs, hz, -⟩
    · exact ⟨none, by simp [kvsRbtreeGet, hs]⟩
    · exact ⟨T.value z, by simp [kvsRbtreeGet, hs, hz]⟩
  obtain ⟨o, ho⟩ := hget
  cases o with
  | some w => exact ⟨T, 1, l, by simp [kvsRbtreeSet, ho], h, fun _ he => he⟩
  | none =>
    by_cases hk : a ∈ FMap.keys l
    · obtain ⟨hins, hl⟩ := insert_again h v hk
      exact ⟨_, 0, l, by simp [kvsRbtreeSet, ho, ha 0, ha 1, ha 2, hins], hl, fun _ he => he⟩
    · obtain ⟨T', l1, l2, hins, rfl, -, hl⟩ := insert_lists h v hk
      refine ⟨T', 0, _, by simp [kvsRbtreeSet, ho, ha 0, ha 1, ha 2, hins], hl, ?_⟩
      intro e he
      rcases List.mem_append.mp he with he | he
      · exact List.mem_append_left _ he
      · exact List.mem_append_right _ (List.mem_cons_of_mem _ he)

theorem get_lists {T : Rbtree} {l : List (CString × Option CString)} (h : Lists T l) {a v : CString}
    (hm : (a, some v) ∈ l) : kvsRbtreeGet T a = some (some v) := by
  have hn : (FMap.keys l).Nodup := h.sorted.imp (fun hlt => hlt.ne)
  rcases search_lists h a with ⟨-, hk⟩ | ⟨z, l1, l2, hs, hz, he, -, -⟩
  · exact absurd (List.mem_map.mpr ⟨_, hm, rfl⟩) hk
  · have hat : (a, T.value z) ∈ l := by rw [he]; simp
    have hval : some (T.value z) = some (some v) := by
      rw [← FMap.lookup_of_mem l hn hat, FMap.lookup_of_mem l hn hm]
    simp [kvsRbtreeGet, hs, hz, Option.some.inj hval]

theorem get_lookup {T : Rbtree} {l : List (CString × Option CString)} (h : Lists T l) (a : CString) :
    kvsRbtreeGet T a = some (FMap.lookup a l).join := by
  have hn : (FMap.keys l).Nodup := h.sorted.imp (fun hlt => hlt.ne)
  rcases search_lists h a with ⟨hs, hk⟩ | ⟨z, l1, l2, hs, hz, he, -, -⟩
  · simp [kvsRbtreeGet, hs, (FMap.lookup_eq_none a l).mpr hk]
  · have hat : (a, T.value z) ∈ l := by rw [he]; simp
    simp [kvsRbtreeGet, hs, hz, FMap.lookup_of_mem l hn hat]

theorem exist_keys {T : Rbtree} {l : List (CString × Option CString)} (h : Lists T l) (a : CString) :
    kvsRbtreeExist T a = some (if a ∈ FMap.keys l then 0 else 1) := by
  rcases search_lists h a with ⟨hs, hk⟩ | ⟨z, l1, l2, hs, hz, he, -, -⟩
  · simp [kvsRbtreeExist, hs, hk]
  · have hk : a ∈ FMap.keys l := by rw [he]; simp [FMap.keys]
    simp [kvsRbtreeExist, hs, hz, hk]

/-- A set that returns 0 has stored nothing where the key already had a node. -/
theorem set_zero {T T' : Rbtree} {l : List (CString × Option CString)} {sys : Sys} {a v : CString} (h : Lists T l)
    (hr : kvsRbtreeSet T a v sys = some (T', 0)) :
    ∃ l', Lists T' l' ∧ (a ∈ FMap.keys l → l' = l) ∧ (a ∉ FMap.keys l → FMap.lookup a l' = some (some v)) ∧
      ∀ j, j ≠ a → FMap.lookup j l' = FMap.lookup j l := by
  simp only [kvsRbtreeSet] at hr
  obtain ⟨o, -, hr⟩ := Option.bind_eq_some_iff.mp hr
  cases o with
  | some w => simp at hr
  | none =>
    dsimp only at hr
    split_ifs at hr
    · obtain ⟨T1, hins, hr⟩ := Option.bind_eq_some_iff.mp hr
      obtain rfl : T1 = T' := congrArg Prod.fst (Option.some.inj hr)
      by_cases hk : a ∈ FMap.keys l
      · rw [(insert_again h v hk).1] at hins
        obtain rfl := Option.some.inj hins
        exact ⟨l, (insert_again h v hk).2, fun _ => rfl, fun hn => absurd hk hn, fun _ _ => rfl⟩
      · obtain ⟨T2, l1, l2, hins2, rfl, hn, hl⟩ := insert_lists h v hk
        rw [hins2] at hins
        obtain rfl := Option.some.inj hins
        refine ⟨_, hl, fun hk' => absurd hk' hk, fun _ => FMap.lookup_middle l1 l2 a (some v) hn, ?_⟩
        intro j hj
        simp [FMap.lookup_append, FMap.lookup_cons, Ne.symm hj]
    · simp at hr
    · simp at hr

def Stands (T : Rbtree) (m : Map) : Prop :=
  ∃ t l, Valid T t ∧ T.entries t = l.map (fun e => (e.1, some e.2)) ∧ m = FMap.ofList l

def present (e : CString × CString) : CString × Option CString := (e.1, some e.2)

theorem stands_iff (T : Rbtree) (m : Map) : Stands T m ↔ ∃ l, Lists T (l.map present) ∧ m = FMap.ofList l := by
  constructor
  · rintro ⟨t, l, hv, hl, rfl⟩
    exact ⟨l, ⟨t, hv, hl⟩, rfl⟩
  · rintro ⟨l, ⟨t, hv, hl⟩, rfl⟩
    exact ⟨t, l, hv, hl, rfl⟩

theorem keys_present (l : List (CString × CString)) : FMap.keys (l.map present) = FMap.keys l := by
  simp [FMap.keys, present]

theorem lists_cases {T : Rbtree} {l : List (CString × Option CString)} (h : Lists T l) :
    (∃ m, Stands T m) ∨ ∃ a, (a, none) ∈ l := by
  by_cases hall : ∃ a, (a, none) ∈ l
  · exact Or.inr hall
  · left
    have hl : (l.map (fun e => (e.1, e.2.getD e.1))).map present = l := by
      rw [List.map_map]
      conv_rhs => rw [← List.map_id l]
      apply List.map_congr_left
      rintro ⟨a, o⟩ he
      cases o with
      | none => exact absurd ⟨a, he⟩ hall
      | some v => rfl
    exact ⟨_, (stands_iff T _).mpr ⟨_, by rwa [hl], rfl⟩⟩

theorem search_stands {T : Rbtree} {m : Map} (h : Stands T m) (a : CString) :
    (rbtreeSearch T a T.next T.root = some T.nil ∧ m.get a = none) ∨
      ∃ z x, rbtreeSearch T a T.next T.root = some z ∧ z ≠ T.nil ∧ T.value z = some x ∧ m.get a = some x ∧
        (∃ T' y, rbtreeDelete T z = some (T', y) ∧ Stands T' (m.erase a)) ∧
        ∀ v, Stands (T.setValue z (some v)) (m.insert a v) := by
  obtain ⟨l, hl, rfl⟩ := (stands_iff T m).mp h
  rcases search_lists hl a with ⟨hs, hn⟩ | ⟨z, l1, l2, hs, hz, he, ⟨T', y, hdel, hT'⟩, hset⟩
  · rw [keys_present] at hn
    exact Or.inl ⟨hs, (FMap.lookup_eq_none a l).mpr hn⟩
  · right
    have hsorted := hl.sorted
    rw [keys_present] at hsorted
    obtain ⟨e1, l', rfl, rfl, h'⟩ := List.map_eq_append_iff.mp he
    obtain ⟨⟨b, x⟩, e2, rfl, hz', rfl⟩ := List.map_eq_cons_iff.mp h'
    simp only [present, Prod.mk.injEq] at hz'
    obtain ⟨rfl, hx⟩ := hz'
    simp only [FMap.keys, List.map_append, List.map_cons, List.pairwise_append, List.pairwise_cons] at hsorted
    have hn1 : b ∉ FMap.keys e1 := fun hm => lt_irrefl _ (hsorted.2.2 _ hm _ List.mem_cons_self)
    have hn2 : b ∉ FMap.keys e2 := fun hm => lt_irrefl _ (hsorted.2.1.1 _ hm)
    refine ⟨z, x, hs, hz, hx.symm, FMap.lookup_middle e1 e2 b x hn1, ⟨T', y, hdel, ?_⟩, fun v => ?_⟩
    · refine (stands_iff _ _).mpr ⟨e1 ++ e2, by rwa [List.map_append], (FMap.ofList_erase e1 e2 b x hn1 hn2).symm⟩
    · refine (stands_iff _ _).mpr ⟨e1 ++ (b, v) :: e2, ?_, (FMap.ofList_modify e1 e2 b x v hn1).symm⟩
      rw [List.map_append, List.map_cons]
      exact hset (some v)

theorem get_stands {T : Rbtree} {m : Map} (h : Stands T m) (a : CString) : kvsRbtreeGet T a = some (m.get a) := by
  rcases search_stands h a with ⟨hs, hm⟩ | ⟨z, x, hs, hz, hv, hm, -, -⟩
  · simp [kvsRbtreeGet, hs, hm]
  · simp [kvsRbtreeGet, hs, hz, hv, hm]

theorem exist_stands {T : Rbtree} {m : Map} (h : Stands T m) (a : CString) :
    kvsRbtreeExist T a = some (if (m.get a).isSome then 0 else 1) := by
  rcases search_stands h a with ⟨hs, hm⟩ | ⟨z, x, hs, hz, -, hm, -, -⟩
  · simp [kvsRbtreeExist, hs, hm]
  · simp [kvsRbtreeExist, hs, hz, hm]

theorem not_stands_of_lost {T : Rbtree} {l : List (CString × Option CString)} (h : Lists T l) {a : CString}
    (ha : (a, none) ∈ l) (m : Map) : ¬ Stands T m := by
  intro hm
  have hn : (FMap.keys l).Nodup := h.sorted.imp (fun hlt => hlt.ne)
  rcases search_lists h a with ⟨-, hk⟩ | ⟨z, l1, l2, hs, hz, hl, -⟩
  · exact hk (List.mem_map.mpr ⟨_, ha, rfl⟩)
  · have hat : (a, T.value z) ∈ l := by rw [hl]; simp
    have hval : some (T.value z) = some none := by
      rw [← FMap.lookup_of_mem l hn ha, FMap.lookup_of_mem l hn hat]
    have hget := get_stands hm a
    have hexist := exist_stands hm a
    simp only [kvsRbtreeGet, hs, bind, Option.bind, hz, ↓reduceIte, Option.some.inj hval, Option.some.injEq] at hget
    simp [kvsRbtreeExist, hs, hz, ← hget] at hexist

theorem set_stands {T : Rbtree} {m : Map} {sys : Sys} (h : Stands T m) (ha : sys.AllocOk) (a v : CString) :
    ∃ T', kvsRbtreeSet T a v sys = some (T', if (m.get a).isSome then 1 else 0) ∧
      Stands T' (if (m.get a).isSome then m else m.insert a v) := by
  have hget := get_stands h a
  cases hm : m.get a with
  | some w =>
    refine ⟨T, ?_, by simpa [hm] using h⟩
    simp [kvsRbtreeSet, hget, hm]
  | none =>
    obtain ⟨l, hl, rfl⟩ := (stands_iff T m).mp h
    have habs : a ∉ FMap.keys (l.map present) := by
      rw [keys_present]
      exact (FMap.lookup_eq_none a l).mp hm
    obtain ⟨T', l1, l2, hins, he, hn, hT'⟩ := insert_lists hl v habs
    obtain ⟨e1, e2, rfl, rfl, rfl⟩ := List.map_eq_append_iff.mp he
    rw [keys_present] at hn
    refine ⟨T', by simp [kvsRbtreeSet, hget, hm, ha 0, ha 1, ha 2, hins], (stands_iff _ _).mpr ⟨e1 ++ (a, v) :: e2, ?_, ?_⟩⟩
    · rw [List.map_append, List.map_cons]
      exact hT'
    · simp [FMap.ofList_insert e1 e2 a v hn]

theorem del_stands {T : Rbtree} {m : Map} (h : Stands T m) (a : CString) :
    ∃ T', kvsRbtreeDel T a = some (T', if (m.get a).isSome then 0 else 1) ∧
      Stands T' (if (m.get a).isSome then m.erase a else m) := by
  rcases search_stands h a with ⟨hs, hm⟩ | ⟨z, x, hs, hz, -, hm, ⟨T', y, hdel, hT'⟩, -⟩
  · exact ⟨T, by simp [kvsRbtreeDel, hs, hm], by simpa [hm] using h⟩
  · exact ⟨T', by simp [kvsRbtreeDel, hs, hz, hm, hdel], by simpa [hm] using hT'⟩

theorem mod_stands {T : Rbtree} {m : Map} {sys : Sys} (h : Stands T m) (ha : sys.AllocOk) (a v : CString) :
    ∃ T', kvsRbtreeMod T a v sys = some (T', if (m.get a).isSome then 0 else 1) ∧
      Stands T' (if (m.get a).isSome then m.insert a v else m) := by
  rcases search_stands h a with ⟨hs, hm⟩ | ⟨z, x, hs, hz, -, hm, -, hset⟩
  · exact ⟨T, by simp [kvsRbtreeMod, hs, hm], by simpa [hm] using h⟩
  · exact ⟨T.setValue z (some v), by simp [kvsRbtreeMod, hs, hz, hm, ha 0], by simpa [hm] using hset v⟩

theorem engine_refines : engine.Refines .plain Stands :=
  refines_of_calls (fun _ _ _ _ _ _ hc => by cases hc) (fun _ _ _ k v h ha _ => set_stands h ha k v)
    (fun _ _ k h => get_stands h k) (fun _ _ k h => del_stands h k) (fun _ _ _ k v h ha => mod_stands h ha k v)
    (fun _ _ k h => exist_stands h k)

theorem set_asGranted (T : Rbtree) (k v : CString) (sys : Sys) :
    AsGranted T (kvsRbtreeSet T k v sys) (kvsRbtreeSet T k v sys.grant) := by
  cases hg : kvsRbtreeGet T k with
  | none => exact Or.inl (by simp [kvsRbtreeSet, hg])
  | some o =>
    cases o with
    | some w => exact Or.inl (by simp [kvsRbtreeSet, hg])
    | none =>
      by_cases h0 : sys.alloc 0
      · by_cases h1 : sys.alloc 1
        · by_cases h2 : sys.alloc 2
          · exact Or.inl (by simp [kvsRbtreeSet, h0, h1, h2, Sys.grant])
          · exact Or.inr (Or.inl (by simp [kvsRbtreeSet, hg, h0, h1, h2]))
        · exact Or.inr (Or.inl (by simp [kvsRbtreeSet, hg, h0, h1]))
      · exact Or.inr (Or.inr (by simp [kvsRbtreeSet, hg, h0]))

/-- The one update that is not atomic: kvs_rbtree_mod frees the old value before it asks for memory. -/
def modGranted (i : Op × Sys) : Prop :=
  match i.1 with
  | .mod _ _ => i.2.alloc 0 = true
  | _ => True

theorem mod_zero_granted {T : Rbtree} {k v : CString} {sys : Sys} {r : Rbtree × Answer}
    (h : engine.call T (.mod k v, sys) = some r) (h0 : r.2 = .code 0) : sys.alloc 0 = true := by
  obtain ⟨q, hq, rfl⟩ := Option.map_eq_some_iff.mp h
  have hret : q.2 = 0 := MapAnswer.code.inj h0
  simp only [engine, kvsRbtreeMod] at hq
  obtain ⟨node, -, hq⟩ := Option.bind_eq_some_iff.mp hq
  split_ifs at hq with hnode halloc
  · rw [← Option.some.inj hq] at hret
    cases hret
  · exact halloc
  · rw [← Option.some.inj hq] at hret
    cases hret

theorem engine_tolerates : engine.Tolerates .plain Stands modGranted := by
  refine engine_refines.tolerates set_asGranted (fun T k v sys h => Or.inl ?_)
  have h0 : sys.alloc 0 = true := h
  simp [engine, kvsRbtreeMod, h0, Sys.grant]

theorem create_valid (T : Rbtree) {sys : Sys} (h : sys.alloc 0 = true) :
    ∃ T', kvsRbtreeCreate T sys = some T' ∧ Valid T' leaf := by
  refine ⟨_, by rw [kvsRbtreeCreate, if_pos h], ⟨rfl, trivial, List.nodup_nil, by simp [items], ?_⟩,
    ⟨trivial, rfl, 0, rfl⟩, List.Pairwise.nil, ?_⟩
  · simp
  · simp [items]

theorem create_stands (T : Rbtree) (sys : Sys) (h : sys.AllocOk) :
    ∃ T', kvsRbtreeCreate T sys = some T' ∧ Stands T' FMap.empty := by
  obtain ⟨T', hc, hv⟩ := create_valid T (h 0)
  exact ⟨T', hc, leaf, [], hv, rfl, FMap.ofList_nil.symm⟩

theorem run_stands (T : Rbtree) (sys : Sys) (h : sys.AllocOk) (cs : List (Op × Sys)) (hcs : ∀ c ∈ cs, c.2.AllocOk) :
    ∃ T0 T', kvsRbtreeCreate T sys = some T0 ∧
      engine.run T0 cs = some (T', (Machine.track (model .plain) FMap.empty cs).2) ∧
      Stands T' (Machine.track (model .plain) FMap.empty cs).1 := by
  obtain ⟨T0, hc, hT0⟩ := create_stands T sys h
  obtain ⟨T', hr, hT'⟩ := engine_refines.run cs T0 FMap.empty hT0 hcs
  exact ⟨T0, T', hc, hr, hT'⟩

/-- After any calls the heap holds a red-black tree with consistent links and keys in strict strcmp order.
The run having a result means that both fixup loops ended and left the sentinel alone. -/
theorem rbtree_stays_red_black (T : Rbtree) (sys : Sys) (h : sys.AllocOk) (cs : List (Op × Sys))
    (hcs : ∀ c ∈ cs, c.2.AllocOk) :
    ∃ T0 T' answers t, kvsRbtreeCreate T sys = some T0 ∧ engine.run T0 cs = some (T', answers) ∧
      Holds T' t ∧ IsRedBlack t ∧ t.items.Pairwise (fun p q => CString.strcmp (T'.key p) (T'.key q) < 0) := by
  obtain ⟨T0, T', hc, hr, t, l, hv, -, -⟩ := run_stands T sys h cs hcs
  refine ⟨T0, T', _, t, hc, hr, hv.holds, hv.redBlack, ?_⟩
  simp only [CString.strcmp_neg]
  exact hv.ordered

def blank : Rbtree := ⟨0, 0, fun _ _ => 0, fun _ => 0, fun _ => .red, fun _ => ⟨[], by simp⟩, fun _ => none, 1⟩

theorem rbtree_stays_red_black_example :
    ∃ T0 T' answers t, kvsRbtreeCreate blank Sys.granted = some T0 ∧
      engine.run T0 [(.set (.lit "b") (.lit "1"), .granted), (.set (.lit "a") (.lit "2"), .granted),
        (.set (.lit "c") (.lit "3"), .granted), (.del (.lit "b"), .granted)] = some (T', answers) ∧
      Holds T' t ∧ IsRedBlack t ∧ t.items.Pairwise (fun p q => CString.strcmp (T'.key p) (T'.key q) < 0) :=
  rbtree_stays_red_black blank Sys.granted Sys.granted_allocOk _ (by simp [Sys.granted_allocOk])

/-- The answers are those of a finite map, and a deletion leaves what every other key reads as it was. -/
theorem rbtree_answers_as_map (T : Rbtree) (sys : Sys) (h : sys.AllocOk) (cs : List (Op × Sys))
    (hcs : ∀ c ∈ cs, c.2.AllocOk) :
    ∃ T0 T', kvsRbtreeCreate T sys = some T0 ∧
      engine.run T0 cs = some (T', (Machine.track (model .plain) FMap.empty cs).2) ∧
      ∀ k, ∃ T'' n, kvsRbtreeDel T' (some k) = some (T'', n) ∧
        ∀ j, j ≠ k → kvsRbtreeGet T'' (some j) = kvsRbtreeGet T' (some j) := by
  obtain ⟨T0, T', hc, hr, hT'⟩ := run_stands T sys h cs hcs
  refine ⟨T0, T', hc, hr, fun k => ?_⟩
  obtain ⟨T'', hd, hT''⟩ := del_stands hT' k
  refine ⟨T'', _, hd, fun j hj => ?_⟩
  rw [get_stands hT' j, get_stands hT'' j]
  split_ifs
  · rw [FMap.erase_get, if_neg hj]
  · rfl

theorem rbtree_answers_as_map_example :
    ∃ T0 T', kvsRbtreeCreate blank Sys.granted = some T0 ∧
      engine.run T0 [(.set (.lit "b") (.lit "1"), .granted), (.set (.lit "a") (.lit "2"), .granted),
        (.set (.lit "c") (.lit "3"), .granted), (.del (.lit "b"), .granted), (.get (.lit "c"), .granted)] =
        some (T', [.code 0, .code 0, .code 0, .code 0, .value (some (.lit "3"))]) ∧
      ∀ k, ∃ T'' n, kvsRbtreeDel T' (some k) = some (T'', n) ∧
        ∀ j, j ≠ k → kvsRbtreeGet T'' (some j) = kvsRbtreeGet T' (some j) :=
  rbtree_answers_as_map blank Sys.granted Sys.granted_allocOk _ (by simp [Sys.granted_allocOk])

end Lidis.Rbtree
