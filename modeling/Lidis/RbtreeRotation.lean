import Lidis.RbtreeFocus

namespace Lidis.Rbtree

open RedBlack ColoredTree Context

@[simp] theorem setChild_child (T : Rbtree) (d e : Side) (p q v : Ptr) :
    (T.setChild d p v).child e q = if e = d ∧ q = p then v else T.child e q := rfl

@[simp] theorem setChild_parent (T : Rbtree) (d : Side) (p v : Ptr) : (T.setChild d p v).parent = T.parent := rfl

@[simp] theorem setChild_color (T : Rbtree) (d : Side) (p v : Ptr) : (T.setChild d p v).color = T.color := rfl

@[simp] theorem setChild_root (T : Rbtree) (d : Side) (p v : Ptr) : (T.setChild d p v).root = T.root := rfl

@[simp] theorem setChild_nil (T : Rbtree) (d : Side) (p v : Ptr) : (T.setChild d p v).nil = T.nil := rfl

@[simp] theorem setChild_data (T : Rbtree) (d : Side) (p v : Ptr) : (T.setChild d p v).data = T.data := rfl

@[simp] theorem setParent_parent (T : Rbtree) (p q v : Ptr) :
    (T.setParent p v).parent q = if q = p then v else T.parent q := by
  simp [setParent, Function.update_apply]

@[simp] theorem setParent_child (T : Rbtree) (p v : Ptr) : (T.setParent p v).child = T.child := rfl

@[simp] theorem setParent_color (T : Rbtree) (p v : Ptr) : (T.setParent p v).color = T.color := rfl

@[simp] theorem setParent_root (T : Rbtree) (p v : Ptr) : (T.setParent p v).root = T.root := rfl

@[simp] theorem setParent_nil (T : Rbtree) (p v : Ptr) : (T.setParent p v).nil = T.nil := rfl

@[simp] theorem setParent_data (T : Rbtree) (p v : Ptr) : (T.setParent p v).data = T.data := rfl

@[simp] theorem setColor_parent (T : Rbtree) (p : Ptr) (c : Color) : (T.setColor p c).parent = T.parent := rfl

@[simp] theorem setColor_child (T : Rbtree) (p : Ptr) (c : Color) : (T.setColor p c).child = T.child := rfl

@[simp] theorem setColor_root (T : Rbtree) (p : Ptr) (c : Color) : (T.setColor p c).root = T.root := rfl

@[simp] theorem setColor_nil (T : Rbtree) (p : Ptr) (c : Color) : (T.setColor p c).nil = T.nil := rfl

@[simp] theorem adopt_parent (T : Rbtree) (b x p : Ptr) :
    (T.adopt b x).parent p = if p = b ∧ b ≠ T.nil then x else T.parent p := by
  unfold adopt
  split_ifs with h1 h2 h3 <;> simp_all

@[simp] theorem adopt_child (T : Rbtree) (b x : Ptr) : (T.adopt b x).child = T.child := by
  unfold adopt; split_ifs <;> rfl

@[simp] theorem adopt_color (T : Rbtree) (b x : Ptr) : (T.adopt b x).color = T.color := by
  unfold adopt; split_ifs <;> rfl

@[simp] theorem adopt_root (T : Rbtree) (b x : Ptr) : (T.adopt b x).root = T.root := by
  unfold adopt; split_ifs <;> rfl

@[simp] theorem adopt_nil (T : Rbtree) (b x : Ptr) : (T.adopt b x).nil = T.nil := by
  unfold adopt; split_ifs <;> rfl

@[simp] theorem adopt_data (T : Rbtree) (b x : Ptr) : (T.adopt b x).data = T.data := by
  unfold adopt; split_ifs <;> rfl

theorem relink_child (T : Rbtree) (d e : Side) (q x y p : Ptr) :
    (T.relink d q x y).child e p =
      if q ≠ T.nil ∧ p = q ∧ e = (if x = T.child d q then d else d.flip) then y else T.child e p := by
  unfold relink
  split_ifs with h1 h2 h3 h4 h5 <;> simp_all <;> tauto

@[simp] theorem relink_root (T : Rbtree) (d : Side) (q x y : Ptr) :
    (T.relink d q x y).root = if q = T.nil then y else T.root := by
  unfold relink; split_ifs <;> rfl

@[simp] theorem relink_parent (T : Rbtree) (d : Side) (q x y : Ptr) : (T.relink d q x y).parent = T.parent := by
  unfold relink; split_ifs <;> rfl

@[simp] theorem relink_color (T : Rbtree) (d : Side) (q x y : Ptr) : (T.relink d q x y).color = T.color := by
  unfold relink; split_ifs <;> rfl

@[simp] theorem relink_nil (T : Rbtree) (d : Side) (q x y : Ptr) : (T.relink d q x y).nil = T.nil := by
  unfold relink; split_ifs <;> rfl

@[simp] theorem relink_data (T : Rbtree) (d : Side) (q x y : Ptr) : (T.relink d q x y).data = T.data := by
  unfold relink; split_ifs <;> rfl

theorem rotate_fields (d : Side) (T : Rbtree) (x y b : Ptr) (hy : T.child d.flip x = y) (hb : T.child d y = b)
    (hx : x ≠ T.nil) (hyn : y ≠ T.nil) (hxy : x ≠ y) (hbx : b ≠ x) (hqx : T.parent x ≠ x) :
    ∃ T', rotate d T x = some T' ∧ T'.color = T.color ∧ T'.nil = T.nil ∧ T'.data = T.data ∧
      T'.root = (if T.parent x = T.nil then y else T.root) ∧
      (∀ p, T'.parent p = if p = x then y else if p = y then T.parent x
        else if p = b ∧ b ≠ T.nil then x else T.parent p) ∧
      ∀ e p, T'.child e p = if e = d ∧ p = y then x
        else if T.parent x ≠ T.nil ∧ p = T.parent x ∧ e = (if x = T.child d (T.parent x) then d else d.flip) then y
        else if e = d.flip ∧ p = x then b else T.child e p := by
  have hxb : x ≠ b := hbx.symm
  simp only [rotate, hy, hb, hx, hyn, or_self, ↓reduceIte, Option.some.injEq, exists_eq_left']
  refine ⟨by simp, by simp, by simp, by simp [hxy, hxb], ?_, ?_⟩
  · intro p
    simp only [setParent_parent, setChild_parent, relink_parent, adopt_parent, setChild_nil, hxy, hxb,
      false_and, ↓reduceIte]
    congr!
  · intro e p
    simp [hxy, hxb, hqx, relink_child]

theorem topOf_mem {nil : Ptr} {k : Context Ptr} (h : topOf nil k ≠ nil) : topOf nil k ∈ Context.labels k := by
  cases k with
  | nil => simp [topOf] at h
  | cons f k => simp [topOf, Context.labels]

theorem topOf_not_mem {nil : Ptr} {k : Context Ptr} {xs : List Ptr} (hn : nil ∉ xs)
    (hd : ∀ p ∈ Context.labels k, p ∉ xs) : topOf nil k ∉ xs := by
  by_cases h : topOf nil k = nil
  · rwa [h]
  · exact hd _ (topOf_mem h)

theorem items_rotate (d : Side) (c e : Color) (a b g : ColoredTree Ptr) (x y : Ptr) :
    (bin d e (bin d c a x b) y g).items = (bin d c a x (bin d e b y g)).items := by
  cases d <;> simp [items_bin, Side.pick]

theorem topOf_eq_nil {nil : Ptr} {k : Context Ptr} (h : nil ∉ Context.labels k) :
    topOf nil k = nil ↔ k = [] := by
  cases k with
  | nil => simp [topOf]
  | cons f k =>
    simp only [Context.labels, List.mem_cons, not_or] at h
    simpa [topOf] using Ne.symm h.1

theorem rotate_at (d : Side) (T : Rbtree) (c e : Color) (a b g : ColoredTree Ptr) (x y : Ptr) (k : Context Ptr)
    (h : At T (bin d c a x (bin d e b y g)) k) :
    ∃ T', rotate d T x = some T' ∧ At T' (bin d e (bin d c a x b) y g) k ∧ SameData T T' := by
  obtain ⟨hctx, hrep, hnd, hnil, hblack⟩ := h
  obtain ⟨hcx, hpx, hxa, hxy, hra, hry⟩ := (rep_bin _ _ _ _ _ _ _).mp hrep
  obtain ⟨hcy, hpy, hyb, hyg, hrb, hrg⟩ := (rep_bin _ _ _ _ _ _ _).mp hry
  simp only [ptrOf_bin] at hctx hxy
  obtain ⟨hndt, hndk, hdisj⟩ := List.nodup_append'.mp hnd
  obtain ⟨hxna, hxnyt, hnda, hndy, hday⟩ := nodup_items_bin.mp hndt
  obtain ⟨hynb, hyng, hndb, hndg, hdbg⟩ := nodup_items_bin.mp hndy
  simp only [mem_items_bin, not_or] at hxnyt
  obtain ⟨hxney, hxnb, hxng⟩ := hxnyt
  simp only [List.mem_append, mem_items_bin, not_or] at hnil
  obtain ⟨⟨hnx, hna, hny, hnb, hng⟩, hnk⟩ := hnil
  have hqt : topOf T.nil k ∉ (bin d c a x (bin d e b y g)).items :=
    topOf_not_mem (by simp only [mem_items_bin, not_or]; exact ⟨hnx, hna, hny, hnb, hng⟩)
      (fun p hp ht => hdisj ht hp)
  simp only [mem_items_bin, not_or] at hqt
  obtain ⟨hqx, hqa, hqy, hqb, hqg⟩ := hqt
  have hbx : ptrOf T.nil b ≠ x := by
    by_cases hb : ptrOf T.nil b = T.nil
    · rw [hb]; exact hnx
    · exact fun he => hxnb (he ▸ ptrOf_mem hb)
  obtain ⟨T', hrot, hcol, hnil', hdata, hroot, hpar, hch⟩ :=
    rotate_fields d T x y (ptrOf T.nil b) hxy hyb (Ne.symm hnx) (Ne.symm hny) hxney hbx (by rw [hpx]; exact hqx)
  rw [hpx] at hroot hpar hch
  have hkt : ∀ p ∈ Context.labels k, p ≠ x ∧ p ∉ a.items ∧ p ≠ y ∧ p ∉ b.items ∧ p ∉ g.items := by
    intro p hp
    have : p ∉ (bin d c a x (bin d e b y g)).items := fun ht => hdisj ht hp
    simpa only [mem_items_bin, not_or] using this
  refine ⟨T', hrot, ⟨?_, ?_, ?_, ?_, ?_⟩, ⟨hnil', hdata, ?_⟩⟩
  · rw [ptrOf_bin]
    refine hctx.congr hnil' hndk ?_ (fun p _ => by rw [hcol]) ?_ ?_ ?_
    · simp only [hroot, topOf_eq_nil hnk]
    · intro f hf
      cases k with
      | nil => simp at hf
      | cons f' k =>
        obtain rfl : f' = f := by simpa using hf
        obtain ⟨-, -, hs, hfl, -, -⟩ := hctx
        simp only [topOf] at hqy hqx hch
        have hsx : ptrOf T.nil f'.sibling ≠ x := by
          by_cases hb : ptrOf T.nil f'.sibling = T.nil
          · rw [hb]; exact hnx
          · exact (hkt _ (by simp [Context.labels, ptrOf_mem hb])).1
        have hfn : f'.item ≠ T.nil := fun he => hnk (by simp [Context.labels, he])
        by_cases hd : f'.side = d
        · subst hd
          simp [hch, hqx, hqy, hfn, hs]
        · obtain rfl : d = f'.side.flip := by rw [Side.eq_flip_of_ne hd, Side.flip_flip]
          simp [hch, hqx, hqy, hfn, hfl, hsx.symm]
    · intro e' p hp hpt
      obtain ⟨hp1, -, hp2, -, -⟩ := hkt p hp
      simp [hch, hp1, hp2, hpt]
    · intro p hp
      obtain ⟨hp1, -, hp2, hp3, -⟩ := hkt p hp
      have hpb : ¬(p = ptrOf T.nil b ∧ ptrOf T.nil b ≠ T.nil) := fun he => hp3 (he.1 ▸ ptrOf_mem he.2)
      simp [hpar, hp1, hp2, hpb]
  · have hsub : ∀ p ∈ a.items ++ b.items ++ g.items, p ≠ x ∧ p ≠ y ∧ p ≠ topOf T.nil k := by
      intro p hp
      simp only [List.mem_append] at hp
      have hay : y ∉ a.items := fun h => hday h (mem_items_bin.mpr (Or.inl rfl))
      rcases hp with (hp | hp) | hp <;>
        refine ⟨?_, ?_, ?_⟩ <;> rintro rfl <;> contradiction
    have hchild : ∀ e', ∀ p ∈ a.items ++ b.items ++ g.items, T'.child e' p = T.child e' p := by
      intro e' p hp
      obtain ⟨hp1, hp2, hp3⟩ := hsub p hp
      simp [hch, hp1, hp2, hp3]
    have hparent : ∀ p ∈ a.items ++ b.items ++ g.items, p ≠ ptrOf T.nil b → T'.parent p = T.parent p := by
      intro p hp hpb
      obtain ⟨hp1, hp2, -⟩ := hsub p hp
      simp [hpar, hp1, hp2, hpb]
    have hab : ∀ p ∈ a.items ++ g.items, p ≠ ptrOf T.nil b := by
      intro p hp he
      by_cases hb : ptrOf T.nil b = T.nil
      · rw [he, hb] at hp
        simp_all
      · have hmem : p ∈ b.items := he ▸ ptrOf_mem hb
        rcases List.mem_append.mp hp with hp | hp
        · exact hday hp (mem_items_bin.mpr (Or.inr (Or.inl hmem)))
        · exact hdbg hmem hp
    rw [rep_bin, rep_bin, hcol, hnil']
    refine ⟨hcy, ?_, ?_, ?_, ⟨hcx, ?_, ?_, ?_, ?_, ?_⟩, ?_⟩
    · simp [hpar, Ne.symm hxney]
    · simp [hch]
    · simp [hch, Ne.symm hxney, Ne.symm hqy, hyg]
    · simp [hpar]
    · simp [hch, hxney, Ne.symm hqx, hxa]
    · simp [hch, hxney, Ne.symm hqx]
    · exact hra.congr_all hnil' (fun p _ => by rw [hcol]) (fun e' p hp => hchild e' p (by simp [hp]))
        (fun p hp => hparent p (by simp [hp]) (hab p (by simp [hp])))
    · refine hrb.congr hnil' hndb (fun p _ => by rw [hcol]) (fun e' p hp => hchild e' p (by simp [hp]))
        (fun p hp hpb => hparent p (by simp [hp]) hpb) ?_
      intro hb
      have hbn : ptrOf T.nil b ≠ T.nil := fun he => hb ((ptrOf_eq_nil hnb).mp he)
      obtain ⟨hp1, hp2, -⟩ := hsub (ptrOf T.nil b) (by simp [ptrOf_mem hbn])
      simp [hpar, hp1, hp2, hbn]
    · exact hrg.congr_all hnil' (fun p _ => by rw [hcol]) (fun e' p hp => hchild e' p (by simp [hp]))
        (fun p hp => hparent p (by simp [hp]) (hab p (by simp [hp])))
  · rw [items_rotate]; exact hnd
  · rw [items_rotate, hnil']
    simp only [List.mem_append, mem_items_bin, not_or]
    exact ⟨⟨hnx, hna, hny, hnb, hng⟩, hnk⟩
  · rw [hcol, hnil', hblack]
  · have hbn : ¬(T.nil = ptrOf T.nil b ∧ ptrOf T.nil b ≠ T.nil) := fun he => he.2 he.1.symm
    simp [hpar, hnx, hny, hbn]

end Lidis.Rbtree
