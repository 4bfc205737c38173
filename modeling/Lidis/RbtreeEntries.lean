import Lidis.Lib.Chain
import Lidis.RbtreeOperations

namespace Lidis.Rbtree

open RedBlack ColoredTree Context

def entry (T : Rbtree) (p : Ptr) : CString × Option CString := (T.key p, T.value p)

def entries (T : Rbtree) (t : ColoredTree Ptr) : List (CString × Option CString) := t.items.map T.entry

theorem entry_of_data {T T' : Rbtree} (h : T'.data = T.data) : T'.entry = T.entry := by
  simp only [data, Prod.mk.injEq] at h
  funext p
  simp only [entry, h.1, h.2.1]

theorem key_of_data {T T' : Rbtree} (h : T'.data = T.data) : T'.key = T.key := congrArg Prod.fst h

theorem next_of_data {T T' : Rbtree} (h : T'.data = T.data) : T'.next = T.next :=
  congrArg (fun d => d.2.2) h

structure Valid (T : Rbtree) (t : ColoredTree Ptr) : Prop where
  holds : Holds T t
  redBlack : IsRedBlack t
  ordered : Ordered T.key t.items
  bound : ∀ p ∈ T.nil :: t.items, p < T.next

theorem Valid.length_lt {T : Rbtree} {t : ColoredTree Ptr} (h : Valid T t) : t.items.length < T.next :=
  Chain.length_lt_of_bound (List.nodup_cons.mpr ⟨h.holds.nil_not_mem, h.holds.nodup⟩) h.bound

theorem length_le_labels (k : Context Ptr) : k.length ≤ (Context.labels k).length := by
  induction k with
  | nil => exact le_rfl
  | cons f k ih =>
    simp only [Context.labels, List.length_cons, List.length_append]
    omega

theorem length_add_le_items (k : Context Ptr) (t : ColoredTree Ptr) :
    k.length + t.items.length ≤ (plug k t).items.length := by
  have h := (items_plug_perm k t).length_eq
  have hk := length_le_labels k
  rw [List.length_append] at h
  omega

theorem ordered_keys {T : Rbtree} {t : ColoredTree Ptr} :
    Ordered T.key t.items ↔ (T.entries t).Pairwise (fun e f => e.1 < f.1) := by
  rw [Ordered, entries, List.pairwise_map]
  exact Iff.rfl

section Search

variable {T : Rbtree} {t : ColoredTree Ptr} {a : CString}

theorem search_spec (h : Valid T t) :
    (∃ k, plug k leaf = t ∧ rbtreeSearch T a T.next T.root = some T.nil ∧
      (∀ p ∈ before k, T.key p < a) ∧ ∀ p ∈ after k, a < T.key p) ∨
    ∃ k c l z r, plug k (node c l z r) = t ∧ T.key z = a ∧ rbtreeSearch T a T.next T.root = some z := by
  have hs : rbtreeSearch T a T.next T.root = some (ptrOf T.nil (zoom T.key a t []).1) := by
    rw [h.holds.root]
    exact search_zoom [] h.holds.rep h.holds.nil_not_mem h.length_lt
  have hp : plug (zoom T.key a t []).2 (zoom T.key a t []).1 = t := zoom_plug T.key a t []
  rcases zoom_cases T.key a t [] with hz | ⟨c, l, z, r, hz, hk⟩
  · left
    rw [hz] at hp hs
    exact ⟨_, hp, hs, zoom_bounds T.key a t [] h.ordered (by simp [before]) (by simp [after])⟩
  · right
    rw [hz] at hp hs
    exact ⟨_, c, l, z, r, hp, hk, hs⟩

theorem insert_absent {z : Ptr} (h : Valid T t) (hz : z ∉ t.items) (hzn : z ≠ T.nil)
    (hfuel : t.items.length + 2 ≤ T.next) (habs : ∀ p ∈ t.items, T.key p ≠ T.key z) :
    ∃ T' t' l r, rbtreeInsert T z = some T' ∧ Holds T' t' ∧ IsRedBlack t' ∧ T'.nil = T.nil ∧ T'.data = T.data ∧
      t.items = l ++ r ∧ t'.items = l ++ z :: r ∧ (∀ p ∈ l, T.key p < T.key z) ∧ ∀ p ∈ r, T.key z < T.key p := by
  have hp : plug (zoom T.key (T.key z) t []).2 (zoom T.key (T.key z) t []).1 = t := zoom_plug T.key (T.key z) t []
  have hdesc : insertDescend T z T.next T.root T.nil = some (descentOf T.nil (zoom T.key (T.key z) t [])) := by
    rw [h.holds.root]
    exact descend_zoom [] h.holds.rep h.holds.nil_not_mem h.length_lt
  have hbounds := zoom_bounds T.key (T.key z) t [] h.ordered (by simp [before]) (by simp [after])
  rcases zoom_cases T.key (T.key z) t [] with hleaf | ⟨c, l, x, r, hnode, hk⟩
  · generalize zoom T.key (T.key z) t [] = f at hp hdesc hbounds hleaf
    obtain ⟨u, k⟩ := f
    obtain rfl : u = leaf := hleaf
    simp only at hp hbounds
    obtain ⟨hlo, hhi⟩ := hbounds
    have hat : At T leaf k := (holds_plug T k leaf).mp (hp ▸ h.holds)
    have hitems : t.items = before k ++ after k := by
      rw [← hp, items_plug]; simp [items]
    have hzk : z ∉ Context.labels k := fun hm => hz (by
      rw [← hp]; exact (items_plug_perm k leaf).mem_iff.mpr (by simpa [items] using hm))
    have hsuits : Suits T z k := by
      cases k with
      | nil => trivial
      | cons f k =>
        obtain ⟨d, c, x, s⟩ := f
        cases d with
        | left => simpa [Suits] using hhi x (by simp [after, Frame.after])
        | right => simpa [Suits] using (hlo x (by simp [before, Frame.before])).le
    obtain ⟨hred, hctx, htop, hroot⟩ := redOk_of_plug k leaf (hp ▸ h.redBlack.red) (hp ▸ h.redBlack.root)
    obtain ⟨m, hm⟩ := h.redBlack.height
    obtain ⟨n, hn, hkn⟩ := balanced_of_plug k leaf m (hp ▸ hm)
    obtain rfl : n = 0 := hn
    obtain ⟨hat', hnil, hdata⟩ := plant_at hat hzn hzk hsuits
    have hlen := length_add_le_items k leaf
    rw [hp] at hlen
    obtain ⟨T', hfix, hholds, hsame⟩ := insertFixup_refines (n := T.next) hat' rfl hctx (by omega)
    have hinv := insertRepair_invariant (node .red leaf z leaf) k 0 rfl (by simp [ColoredTree.RedOk, ColoredTree.color]) hctx
      (by simp [ColoredTree.Balanced]) hkn
    refine ⟨T', _, before k, after k, ?_, hholds, isRedBlack_paint hinv.1 hinv.2, hsame.nil.trans hnil,
      hsame.data.trans hdata, hitems, ?_, hlo, hhi⟩
    · simp only [rbtreeInsert, hdesc, descentOf, Option.bind_eq_bind, Option.bind_some]
      have hnx : (T.plant (topOf T.nil k) z).next = T.next := next_of_data hdata
      rw [← hnx] at hfix
      simpa [plant, ptrOf] using hfix
    · rw [items_paint, insertRepair_items, items_plug]
      simp [items]
  · exfalso
    rw [hnode] at hp
    have hx : x ∈ t.items := by
      rw [← hp, items_plug]; simp [items]
    exact habs x hx hk

theorem insert_present {z : Ptr} (h : Valid T t) {p : Ptr} (hp : p ∈ t.items) (hk : T.key p = T.key z) :
    rbtreeInsert T z = some T := by
  have hdesc : insertDescend T z T.next T.root T.nil = some (descentOf T.nil (zoom T.key (T.key z) t [])) := by
    rw [h.holds.root]
    exact descend_zoom [] h.holds.rep h.holds.nil_not_mem h.length_lt
  have hplug : plug (zoom T.key (T.key z) t []).2 (zoom T.key (T.key z) t []).1 = t := zoom_plug T.key (T.key z) t []
  obtain ⟨hlo, hhi⟩ := zoom_bounds T.key (T.key z) t [] h.ordered (by simp [before]) (by simp [after])
  rcases zoom_cases T.key (T.key z) t [] with hleaf | ⟨c, l, x, r, hnode, -⟩
  · rw [hleaf] at hplug
    rw [← hplug, items_plug] at hp
    simp only [items, List.append_nil, List.mem_append] at hp
    rcases hp with hp | hp
    · exact absurd hk (hlo p hp).ne
    · exact absurd hk (hhi p hp).ne'
  · simp [rbtreeInsert, hdesc, descentOf, hnode]

end Search

theorem swapData_data (T : Rbtree) (y z : Ptr) :
    (T.swapData y z).data = if y = z then T.data
      else (Function.update (Function.update T.key z (T.key y)) y (T.key z),
        Function.update (Function.update T.value z (T.value y)) y (T.value z), T.next) := by
  unfold swapData
  by_cases h : y = z <;> simp [h, data]

theorem swapData_congr {T T' : Rbtree} (h : T'.data = T.data) (y z : Ptr) :
    (T'.swapData y z).data = (T.swapData y z).data := by
  have hd := h
  simp only [data, Prod.mk.injEq] at hd
  rw [swapData_data, swapData_data, h, hd.1, hd.2.1, hd.2.2]

@[simp] theorem swapData_nil (T : Rbtree) (y z : Ptr) : (T.swapData y z).nil = T.nil := by
  unfold swapData; split_ifs <;> rfl

@[simp] theorem swapData_color (T : Rbtree) (y z : Ptr) : (T.swapData y z).color = T.color := by
  unfold swapData; split_ifs <;> rfl

@[simp] theorem swapData_parent (T : Rbtree) (y z : Ptr) : (T.swapData y z).parent = T.parent := by
  unfold swapData; split_ifs <;> rfl

@[simp] theorem swapData_next (T : Rbtree) (y z : Ptr) : (T.swapData y z).next = T.next := by
  unfold swapData; split_ifs <;> rfl

theorem swapData_entry_left {T : Rbtree} (y z : Ptr) : (T.swapData y z).entry z = T.entry y := by
  unfold swapData
  by_cases h : y = z
  · simp [h]
  · simp [h, Ne.symm h, entry]

theorem swapData_entry_other {T : Rbtree} {y z p : Ptr} (hy : p ≠ y) (hz : p ≠ z) :
    (T.swapData y z).entry p = T.entry p := by
  unfold swapData
  split_ifs <;> simp [entry, hy, hz]

theorem only_leaf_of_red {α : Type} {l r : ColoredTree α} {x : α} {n : ℕ} (ho : l = leaf ∨ r = leaf)
    (hr : (node .red l x r).RedOk) (hb : ColoredTree.Balanced n (node .red l x r)) : only l r = leaf := by
  obtain ⟨hc, -, -⟩ := hr
  obtain ⟨hcl, hcr⟩ := hc rfl
  have hbl : ColoredTree.Balanced n l ∧ ColoredTree.Balanced n r := (balanced_bin_red .left n l x r).mp hb
  have hn : n = 0 := by
    rcases ho with rfl | rfl
    · exact hbl.1
    · exact hbl.2
  subst hn
  have hleaf : ∀ t : ColoredTree α, ColoredTree.Balanced 0 t → t.color = .black → t = leaf := by
    intro t ht hc
    cases t with
    | leaf => rfl
    | node c a y b =>
      obtain rfl : c = .black := hc
      exact absurd ht (balanced_zero_bin_black .left a y b)
  rcases only_cases l r with h | h <;> rw [h]
  · exact hleaf l hbl.1 hcl
  · exact hleaf r hbl.2 hcr

theorem remove_at {T : Rbtree} {c : Color} {l r : ColoredTree Ptr} {y z : Ptr} {k : Context Ptr}
    (h : At T (node c l y r) k) (ho : l = leaf ∨ r = leaf) (hrb : IsRedBlack (plug k (node c l y r)))
    (hfuel : k.length + 1 ≤ T.next) :
    ∃ T' t', T.unhook y z = some T' ∧ Holds T' t' ∧ IsRedBlack t' ∧ T'.nil = T.nil ∧
      T'.data = (T.swapData y z).data ∧ t'.items = before k ++ (l.items ++ r.items) ++ after k := by
  obtain ⟨hat, hpar, hnil, hdata, hcol⟩ := splice_at h ho
  have hptr := onlyChild_eq h
  have hat' := hat.swapData y z
  have hdata' := swapData_congr hdata y z
  obtain ⟨hred, hctx, htop, hroot⟩ := redOk_of_plug k _ hrb.red hrb.root
  obtain ⟨m, hm⟩ := hrb.height
  obtain ⟨n, hn, hkn⟩ := balanced_of_plug k _ m hm
  simp only [unhook, swapData_color, hcol, swapData_next, next_of_data hdata]
  cases c with
  | black =>
    obtain _ | n := n
    · exact absurd hn (balanced_zero_bin_black .left l y r)
    obtain ⟨hbl, hbr⟩ := (balanced_bin_black .left n l y r).mp hn
    have hbo : ColoredTree.Balanced n (only l r) := by
      rcases only_cases l r with he | he <;> rw [he] <;> assumption
    have hro : (only l r).RedOk := by
      rcases only_cases l r with he | he <;> rw [he]
      · exact hred.2.1
      · exact hred.2.2
    have hp : ((T.splice y (T.onlyChild y)).swapData y z).parent
        (ptrOf ((T.splice y (T.onlyChild y)).swapData y z).nil (only l r)) =
        topOf ((T.splice y (T.onlyChild y)).swapData y z).nil k := by
      rw [swapData_parent, swapData_nil, hnil, ← hptr, hpar]
    obtain ⟨T', hfix, hholds, hsame⟩ := deleteFixup_refines (n := T.next) hat' hp hbo hctx hkn hfuel
    rw [swapData_nil, hnil, ← hptr] at hfix
    refine ⟨T', _, by rw [if_pos rfl, hfix], hholds, deleteRepair_isRedBlack _ _ _ hro.paint_black hbo hctx hkn,
      ?_, hsame.data.trans hdata', ?_⟩
    · rw [hsame.nil, swapData_nil, hnil]
    · rw [deleteRepair_items, items_plug, only_items ho]
  | red =>
    have hleaf := only_leaf_of_red ho hred hn
    refine ⟨_, plug k (only l r), if_neg (by simp), (holds_plug _ _ _).mpr hat', ?_, ?_, hdata', ?_⟩
    · rw [hleaf]
      have hbn : ColoredTree.Balanced n (leaf : ColoredTree Ptr) := by
        rcases ho with rfl | rfl
        · exact ((balanced_bin_red .left n leaf y r).mp hn).1
        · exact ((balanced_bin_red .left n l y leaf).mp hn).2
      exact ⟨redOk_plug k leaf hctx trivial (fun _ => rfl), color_plug k leaf hctx (fun _ => rfl),
        balanced_plug k leaf n hbn hkn⟩
    · rw [swapData_nil, hnil]
    · rw [items_plug, only_items ho]

theorem delete_at {T : Rbtree} {c : Color} {l r : ColoredTree Ptr} {z : Ptr} {k : Context Ptr}
    (h : Valid T (plug k (node c l z r))) :
    ∃ T' t' y, rbtreeDelete T z = some (T', y) ∧ Holds T' t' ∧ IsRedBlack t' ∧ T'.nil = T.nil ∧
      T'.data = (T.swapData y z).data ∧ t'.items.Sublist (plug k (node c l z r)).items ∧
      (plug k (node c l z r)).items.Perm (y :: t'.items) ∧
      T'.entries t' = (before k ++ l.items).map T.entry ++ (r.items ++ after k).map T.entry := by
  have hat : At T (node c l z r) k := (holds_plug _ _ _).mp h.holds
  have hlt := h.length_lt
  obtain ⟨-, -, hl, hr, hrl, hrr⟩ := hat.rep
  have hnil := hat.nil_not_mem
  simp only [items, List.mem_append, List.mem_cons, not_or] at hnil
  have hchild : (T.child .left z = T.nil ∨ T.child .right z = T.nil) ↔ (l = leaf ∨ r = leaf) := by
    rw [hl, hr, ptrOf_eq_nil hnil.1.1, ptrOf_eq_nil hnil.1.2.2]
  by_cases ho : l = leaf ∨ r = leaf
  · have hlen := length_add_le_items k (node c l z r)
    obtain ⟨T', t', hfix, hholds, hrb, hnil', hdata, hitems⟩ :=
      remove_at (z := z) hat ho h.redBlack (by omega)
    refine ⟨T', t', z, ?_, hholds, hrb, hnil', hdata, ?_, ?_, ?_⟩
    · rw [rbtreeDelete, if_pos (hchild.mpr ho)]
      simp only [Option.bind_eq_bind, Option.bind_some, hfix]
    · rw [hitems, items_plug, items]
      exact ((List.Sublist.refl _).append ((List.Sublist.refl _).append (List.sublist_cons_self _ _))).append
        (List.Sublist.refl _)
    · rw [hitems, items_plug, items]
      simp only [List.append_assoc, List.cons_append]
      rw [← List.append_assoc (before k), ← List.append_assoc (before k)]
      exact List.perm_middle
    · rw [swapData_data, if_pos rfl] at hdata
      rw [entries, hitems, entry_of_data hdata]
      simp
  · have hrl : r ≠ leaf := fun he => ho (Or.inr he)
    have hsucc : T.child .right z ≠ T.nil := fun he => ho (hchild.mp (Or.inr he))
    have hlen := length_add_le_items k (node c l z r)
    simp only [items, List.length_append, List.length_cons] at hlen
    obtain ⟨k2, cy, y, ry, hplug, hbefore, hmini⟩ :=
      mini_leftmost (n := T.next) hrr hnil.1.2.2 (by omega) hrl
    have hwhole : plug (k2 ++ ⟨.right, c, z, l⟩ :: k) (node cy leaf y ry) = plug k (node c l z r) := by
      rw [plug_append, hplug]; rfl
    have haty : At T (node cy leaf y ry) (k2 ++ ⟨.right, c, z, l⟩ :: k) :=
      (holds_plug _ _ _).mp (hwhole ▸ h.holds)
    have hleny := length_add_le_items (k2 ++ ⟨.right, c, z, l⟩ :: k) (node cy leaf y ry)
    rw [hwhole] at hleny
    obtain ⟨T', t', hfix, hholds, hrb, hnil', hdata, hitems⟩ :=
      remove_at (z := z) haty (Or.inl rfl) (hwhole ▸ h.redBlack) (by omega)
    have hritems : r.items = y :: (ry.items ++ after k2) := by
      rw [← hplug, items_plug, hbefore]; simp [items]
    rw [before_append, after_append, hbefore] at hitems
    simp only [before, after, Frame.before, Frame.after, items, List.append_nil, List.nil_append] at hitems
    have hnd := h.holds.nodup
    rw [items_plug, items, hritems] at hnd
    refine ⟨T', t', y, ?_, hholds, hrb, hnil', hdata, ?_, ?_, ?_⟩
    · rw [rbtreeDelete, if_neg (fun hc => ho (hchild.mp hc)), rbtreeSuccessor, if_pos hsucc, hr, hmini]
      simp only [Option.bind_eq_bind, Option.bind_some, hfix]
    · rw [hitems, items_plug, items, hritems]
      simp
    · rw [hitems, items_plug, items, hritems]
      simp only [List.append_assoc, List.cons_append]
      rw [show before k ++ (l.items ++ z :: y :: (ry.items ++ (after k2 ++ after k))) =
        (before k ++ (l.items ++ [z])) ++ y :: (ry.items ++ (after k2 ++ after k)) by simp]
      refine List.perm_middle.trans (List.Perm.cons y ?_)
      simp
    · rw [entries, hitems, entry_of_data hdata, hritems]
      have hother : ∀ p ∈ before k ++ l.items ++ (ry.items ++ after k2 ++ after k),
          (T.swapData y z).entry p = T.entry p := by
        intro p hp
        apply swapData_entry_other <;> rintro rfl <;> simp [List.nodup_append] at hnd hp <;> grind
      simp only [List.map_append, List.map_cons, List.map_nil, swapData_entry_left]
      have hmap : ∀ xs : List Ptr, (∀ p ∈ xs, p ∈ before k ++ l.items ++ (ry.items ++ after k2 ++ after k)) →
          xs.map (T.swapData y z).entry = xs.map T.entry := fun xs hxs =>
        List.map_congr_left (fun p hp => hother p (hxs p hp))
      rw [hmap (before k) (by simp +contextual), hmap l.items (by simp +contextual), hmap ry.items (by simp +contextual),
        hmap (after k2) (by simp +contextual), hmap (after k) (by simp +contextual)]
      simp

end Lidis.Rbtree
