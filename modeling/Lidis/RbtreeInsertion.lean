import Lidis.RbtreeRotation

namespace Lidis.Rbtree

open RedBlack ColoredTree Context

theorem bin_flip {α : Type} (d : Side) (c : Color) (a : ColoredTree α) (x : α) (b : ColoredTree α) :
    bin d c a x b = bin d.flip c b x a := by
  cases d <;> rfl

theorem at_cons {T : Rbtree} {t s : ColoredTree Ptr} {d : Side} {c : Color} {x : Ptr} {k : Context Ptr} :
    At T t (⟨d, c, x, s⟩ :: k) ↔ At T (bin d c t x s) k := by
  rw [← holds_plug, ← holds_plug]; rfl

theorem at_sibling {T : Rbtree} {t s : ColoredTree Ptr} {d : Side} {c : Color} {x : Ptr} {k : Context Ptr} :
    At T t (⟨d, c, x, s⟩ :: k) ↔ At T s (⟨d.flip, c, x, t⟩ :: k) := by
  rw [at_cons, at_cons, bin_flip]

theorem color_ptrOf {T : Rbtree} {q : Ptr} {t : ColoredTree Ptr} (h : Rep T q t) (hb : T.color T.nil = .black) :
    T.color (ptrOf T.nil t) = t.color := by
  cases t with
  | leaf => exact hb
  | node c l x r => exact h.1

theorem recolor_at (T : Rbtree) (d : Side) (c c' : Color) (a b : ColoredTree Ptr) (x : Ptr) (k : Context Ptr)
    (h : At T (bin d c a x b) k) :
    T.recolor x c' = some (T.setColor x c') ∧ At (T.setColor x c') (bin d c' a x b) k ∧
      SameData T (T.setColor x c') := by
  obtain ⟨hctx, hrep, hnd, hnil, hblack⟩ := h
  obtain ⟨hcx, hpx, hxa, hxb, hra, hrb⟩ := (rep_bin _ _ _ _ _ _ _).mp hrep
  obtain ⟨hndt, hndk, hdisj⟩ := List.nodup_append'.mp hnd
  obtain ⟨hxna, hxnb, -, -, -⟩ := nodup_items_bin.mp hndt
  have hnx : x ≠ T.nil := fun he => hnil (List.mem_append_left _ (mem_items_bin.mpr (Or.inl he.symm)))
  have hxk : x ∉ Context.labels k := fun hk => hdisj (mem_items_bin.mpr (Or.inl rfl)) hk
  have hcol : ∀ p, p ≠ x → (T.setColor x c').color p = T.color p := fun p hp => by
    simp [setColor, hp]
  refine ⟨by simp [recolor, hnx], ⟨?_, ?_, ?_, ?_, ?_⟩, ⟨rfl, rfl, rfl⟩⟩
  · exact hctx.congr_all rfl rfl (fun p hp => hcol p (fun he => hxk (he ▸ hp))) (fun _ _ _ => rfl) (fun _ _ => rfl)
  · refine (rep_bin _ _ _ _ _ _ _).mpr ⟨by simp [setColor], hpx, hxa, hxb, ?_, ?_⟩
    · exact hra.congr_all rfl (fun p hp => hcol p (fun he => hxna (he ▸ hp))) (fun _ _ _ => rfl) (fun _ _ => rfl)
    · exact hrb.congr_all rfl (fun p hp => hcol p (fun he => hxnb (he ▸ hp))) (fun _ _ _ => rfl) (fun _ _ => rfl)
  · have hi : (bin d c' a x b).items = (bin d c a x b).items := by simp only [items_bin]
    rw [hi]; exact hnd
  · have hi : (bin d c' a x b).items = (bin d c a x b).items := by simp only [items_bin]
    rw [hi]; exact hnil
  · exact (hcol T.nil (Ne.symm hnx)).trans hblack

theorem blacken_root (T : Rbtree) (t : ColoredTree Ptr) (h : Holds T t) :
    Holds (T.setColor T.root .black) (t.paint .black) ∧ SameData T (T.setColor T.root .black) := by
  cases t with
  | leaf =>
    have hroot : T.root = T.nil := h.root
    refine ⟨⟨hroot, trivial, h.nodup, h.nil_not_mem, ?_⟩, ⟨rfl, rfl, rfl⟩⟩
    simp [setColor, hroot]
  | node c l x r =>
    have hroot : T.root = x := h.root
    obtain ⟨-, hat, hsame⟩ := recolor_at T .left c .black l r x [] ((holds_plug T [] _).mp h)
    rw [hroot]
    exact ⟨(holds_plug _ [] _).mpr hat, hsame⟩

theorem focus_ne_sibling {T : Rbtree} {t : ColoredTree Ptr} {f : Frame Ptr} {k : Context Ptr} (h : At T t (f :: k))
    (hn : t ≠ leaf ∨ f.sibling ≠ leaf) : ptrOf T.nil t ≠ ptrOf T.nil f.sibling := by
  have hnil := h.nil_not_mem
  simp only [Context.labels, List.mem_append, List.mem_cons, not_or] at hnil
  obtain ⟨hnt, -, hns, -⟩ := hnil
  obtain ⟨-, -, hdisj⟩ := List.nodup_append'.mp h.nodup
  intro he
  by_cases hp : ptrOf T.nil t = T.nil
  · have ht := (ptrOf_eq_nil hnt).mp hp
    have hs := (ptrOf_eq_nil hns).mp (he ▸ hp)
    rcases hn with hn | hn <;> contradiction
  · have hs : ptrOf T.nil f.sibling ∈ f.sibling.items := ptrOf_mem (he ▸ hp)
    exact hdisj (ptrOf_mem hp) (by rw [he]; simp [Context.labels, hs])

theorem focus_links {T : Rbtree} {t : ColoredTree Ptr} {f : Frame Ptr} {k : Context Ptr} (h : At T t (f :: k)) :
    T.color f.item = f.color ∧ T.parent f.item = topOf T.nil k ∧ T.child f.side f.item = ptrOf T.nil t ∧
      T.child f.side.flip f.item = ptrOf T.nil f.sibling ∧ T.color (ptrOf T.nil f.sibling) = f.sibling.color := by
  obtain ⟨hc, hp, hs, hf, hr, -⟩ := h.ctx
  exact ⟨hc, hp, hs, hf, color_ptrOf hr h.nil_black⟩

theorem focus_side {T : Rbtree} {t : ColoredTree Ptr} {f : Frame Ptr} {k : Context Ptr} (h : At T t (f :: k))
    (hn : t ≠ leaf ∨ f.sibling ≠ leaf) :
    T.sideOf (ptrOf T.nil t) f.item = f.side := by
  obtain ⟨-, -, hs, hf, -⟩ := focus_links h
  have hne := focus_ne_sibling h hn
  cases hd : f.side with
  | left =>
    rw [hd] at hs
    rw [sideOf, hs, if_pos rfl]
  | right =>
    rw [hd] at hf
    rw [sideOf, show T.child .left f.item = ptrOf T.nil f.sibling from hf, if_neg hne]

theorem parent_ptrOf {T : Rbtree} {q : Ptr} {t : ColoredTree Ptr} (h : Rep T q t) (hn : t ≠ leaf) :
    T.parent (ptrOf T.nil t) = q := by
  cases t with
  | leaf => exact absurd rfl hn
  | node c l x r => exact h.2.1

theorem round_recolor {T : Rbtree} {t s u : ColoredTree Ptr} {d e : Side} {c c' : Color} {p g : Ptr} {k : Context Ptr}
    (h : At T t (⟨d, c, p, s⟩ :: ⟨e, c', g, u⟩ :: k)) (ht : t ≠ leaf) (hu : u.color = .red) :
    ∃ T', insertFixupRound e T (ptrOf T.nil t) = some (T', g) ∧
      At T' (bin e .red (bin d .black t p s) g (u.paint .black)) k ∧ SameData T T' := by
  have hp : T.parent (ptrOf T.nil t) = p := parent_ptrOf h.rep ht
  obtain ⟨-, hg, -, -, -⟩ := focus_links h
  have hf := at_cons.mp h
  obtain ⟨-, -, -, hgs, hgc⟩ := focus_links hf
  obtain ⟨a, y, b, rfl⟩ := exists_bin_of_red .left hu
  simp only [topOf, ptrOf_bin, color_bin] at hg hgs hgc
  obtain ⟨hr1, h1, s1⟩ := recolor_at T d c .black _ _ _ _ hf
  obtain ⟨hr2, h2, s2⟩ := recolor_at _ .left .red .black _ _ _ _ (at_sibling.mp h1)
  have h2' := at_cons.mp (at_sibling.mp h2)
  rw [Side.flip_flip] at h2'
  obtain ⟨hr3, h3, s3⟩ := recolor_at _ e c' .red _ _ _ _ h2'
  refine ⟨_, ?_, h3, s1.trans (s2.trans s3)⟩
  simp [insertFixupRound, hp, hg, hgs, hgc, hr1, hr2, hr3]

theorem round_outer {T : Rbtree} {t s u : ColoredTree Ptr} {d : Side} {c c' : Color} {p g : Ptr} {k : Context Ptr}
    (h : At T t (⟨d, c, p, s⟩ :: ⟨d, c', g, u⟩ :: k)) (ht : t ≠ leaf) (hu : u.color = .black) :
    ∃ T', insertFixupRound d T (ptrOf T.nil t) = some (T', ptrOf T.nil t) ∧
      At T' (bin d .black t p (bin d .red s g u)) k ∧ SameData T T' := by
  have hp : T.parent (ptrOf T.nil t) = p := parent_ptrOf h.rep ht
  obtain ⟨-, hg, -, hs, -⟩ := focus_links h
  have hne := focus_ne_sibling h (Or.inl ht)
  have hf := at_cons.mp h
  obtain ⟨-, -, -, hgs, hgc⟩ := focus_links hf
  simp only [topOf] at hg hgs hgc hs hne
  obtain ⟨hr1, h1, s1⟩ := recolor_at T d c .black _ _ _ _ hf
  obtain ⟨hr2, h2, s2⟩ := recolor_at _ d c' .red _ _ _ _ (at_cons.mp h1)
  rw [bin_flip, bin_flip d .black] at h2
  obtain ⟨T', hrot, h3, s3⟩ := rotate_at _ _ _ _ _ _ _ _ _ _ h2
  rw [← bin_flip, ← bin_flip] at h3
  refine ⟨T', ?_, h3, s1.trans (s2.trans s3)⟩
  simp [insertFixupRound, hp, hg, hgs, hgc, hs, hne, hu, hr1, hr2, hrot]

theorem round_inner {T : Rbtree} {a b s u : ColoredTree Ptr} {d : Side} {c c' : Color} {z p g : Ptr} {k : Context Ptr}
    (h : At T (bin d .red a z b) (⟨d.flip, c, p, s⟩ :: ⟨d, c', g, u⟩ :: k)) (hu : u.color = .black) :
    ∃ T', insertFixupRound d T z = some (T', p) ∧
      At T' (bin d .black (bin d c s p a) z (bin d .red b g u)) k ∧ SameData T T' := by
  have hp : T.parent z = p := parent_ptrOf h.rep (by simp [bin])
  obtain ⟨-, hg, hz, -, -⟩ := focus_links h
  have hf := at_cons.mp h
  obtain ⟨-, -, -, hgs, hgc⟩ := focus_links hf
  simp only [topOf, ptrOf_bin] at hg hgs hgc hz
  rw [bin_flip, Side.flip_flip] at hf
  obtain ⟨T1, hrot1, h1, s1⟩ := rotate_at _ _ _ _ _ _ _ _ _ _ hf
  have hp1 : T1.parent p = z := ((rep_bin _ _ _ _ _ _ _).mp ((rep_bin _ _ _ _ _ _ _).mp h1.rep).2.2.2.2.1).2.1
  have hg1 : T1.parent z = g := ((rep_bin _ _ _ _ _ _ _).mp h1.rep).2.1
  obtain ⟨hr2, h2, s2⟩ := recolor_at T1 d .red .black _ _ _ _ h1
  obtain ⟨hr3, h3, s3⟩ := recolor_at _ d c' .red _ _ _ _ (at_cons.mp h2)
  rw [bin_flip, bin_flip d .black] at h3
  obtain ⟨T', hrot, h4, s4⟩ := rotate_at _ _ _ _ _ _ _ _ _ _ h3
  rw [← bin_flip, ← bin_flip] at h4
  refine ⟨T', ?_, h4, s1.trans (s2.trans (s3.trans s4))⟩
  simp [insertFixupRound, hp, hg, hgs, hgc, hz, hu, hrot1, hp1, hg1, hr2, hr3, hrot]

theorem insertFixup_done {T : Rbtree} {t : ColoredTree Ptr} {z : Ptr} {n : ℕ} (h : Holds T t)
    (hz : T.color (T.parent z) = .black) :
    ∃ T', rbtreeInsertFixup (n + 1) T z = some T' ∧ Holds T' (t.paint .black) ∧ SameData T T' := by
  obtain ⟨hh, hs⟩ := blacken_root T t h
  exact ⟨_, by simp [rbtreeInsertFixup, hz], hh, hs⟩

theorem insertFixup_round {T T' T'' : Rbtree} {t s : ColoredTree Ptr} {f : Frame Ptr} {e : Side} {c' : Color}
    {g z : Ptr} {k : Context Ptr} {n : ℕ} (h : At T t (f :: ⟨e, c', g, s⟩ :: k)) (ht : t ≠ leaf)
    (hf : f.color = .red) (hr : insertFixupRound e T (ptrOf T.nil t) = some (T', z))
    (hrest : rbtreeInsertFixup n T' z = some T'') :
    rbtreeInsertFixup (n + 1) T (ptrOf T.nil t) = some T'' := by
  obtain ⟨hc, hg, -, -, -⟩ := focus_links h
  have hp : T.parent (ptrOf T.nil t) = f.item := parent_ptrOf h.rep ht
  have hside := focus_side (at_cons.mp h) (Or.inl (by simp [bin]))
  simp only [topOf, ptrOf_bin] at hg hside
  simp only [rbtreeInsertFixup, hp, hc, hf, ↓reduceIte, hg, hside, hr, Option.bind_eq_bind, Option.bind_some, hrest]

theorem insertFixup_refines {T : Rbtree} {t : ColoredTree Ptr} {k : Context Ptr} {n : ℕ} (h : At T t k)
    (hred : t.color = .red) (hk : Context.RedOk k) (hn : k.length + 2 ≤ n) :
    ∃ T', rbtreeInsertFixup n T (ptrOf T.nil t) = some T' ∧
      Holds T' ((insertRepair t k).paint .black) ∧ SameData T T' := by
  obtain ⟨n, rfl⟩ : ∃ m, n = m + 1 := ⟨n - 1, by omega⟩
  have ht : t ≠ leaf := by rintro rfl; simp [ColoredTree.color] at hred
  fun_induction insertRepair t k generalizing n T with
  | case1 t =>
    refine insertFixup_done ((holds_plug T [] t).mpr h) ?_
    rw [parent_ptrOf h.rep ht]
    exact h.nil_black
  | case2 t f =>
    have hf : f.color = .black := by
      cases hf : f.color with
      | red => exact absurd rfl (hk.2.1 hf).2.1
      | black => rfl
    refine insertFixup_done ((holds_plug T [f] t).mpr h) ?_
    rw [parent_ptrOf h.rep ht]
    exact (focus_links h).1.trans hf
  | case3 t f g k hf =>
    refine insertFixup_done ((holds_plug T (f :: g :: k) t).mpr h) ?_
    rw [parent_ptrOf h.rep ht]
    exact (focus_links h).1.trans hf
  | case4 t f g k hf hu ih =>
    obtain ⟨d, c, p, s⟩ := f
    obtain ⟨e, c', y, u⟩ := g
    have hf : c = .red := by cases c <;> simp_all
    obtain ⟨T1, hr1, h1, s1⟩ := round_recolor h ht hu
    obtain ⟨m, rfl⟩ : ∃ m, n = m + 1 := ⟨n - 1, by simp only [List.length_cons] at hn; omega⟩
    obtain ⟨T2, hr2, h2, s2⟩ := ih (n := m) h1 rfl hk.2.2.2.2 (by simp only [List.length_cons] at hn ⊢; omega)
      (by simp [bin])
    exact ⟨T2, insertFixup_round h ht hf hr1 hr2, h2, s1.trans s2⟩
  | case5 t f g k hf hu hd =>
    obtain ⟨d, c, p, s⟩ := f
    obtain ⟨e, c', y, u⟩ := g
    obtain rfl : d = e := hd
    have hf : c = .red := by cases c <;> simp_all
    have hu : u.color = .black := by cases hu' : u.color <;> simp_all
    obtain ⟨T1, hr1, h1, s1⟩ := round_outer h ht hu
    obtain ⟨m, rfl⟩ : ∃ m, n = m + 1 := ⟨n - 1, by simp only [List.length_cons] at hn; omega⟩
    have hpz : T1.color (T1.parent (ptrOf T.nil t)) = .black := by
      obtain ⟨hc, -, -, -, hrt, -⟩ := (rep_bin _ _ _ _ _ _ _).mp h1.rep
      rw [← s1.nil, parent_ptrOf hrt ht, hc]
    obtain ⟨T2, hr2, h2, s2⟩ := insertFixup_done (n := m) ((holds_plug T1 k _).mpr h1) hpz
    exact ⟨T2, insertFixup_round h ht hf hr1 hr2, h2, s1.trans s2⟩
  | case6 => exact absurd rfl ht
  | case7 f g k hf hu hd ct l x r =>
    obtain ⟨d, c, p, s⟩ := f
    obtain ⟨e, c', y, u⟩ := g
    obtain rfl : d = e.flip := Side.eq_flip_of_ne hd
    obtain rfl : c = .red := by cases c <;> simp_all
    obtain rfl : ct = .red := hred
    have hu : u.color = .black := by cases hu' : u.color <;> simp_all
    have h' := h
    rw [node_eq_bin e] at h'
    obtain ⟨T1, hr1, h1, s1⟩ := round_inner h' hu
    obtain ⟨m, rfl⟩ : ∃ m, n = m + 1 := ⟨n - 1, by simp only [List.length_cons] at hn; omega⟩
    have hpz : T1.color (T1.parent p) = .black := by
      obtain ⟨hc, -, -, -, hrt, -⟩ := (rep_bin _ _ _ _ _ _ _).mp h1.rep
      obtain ⟨-, hp, -⟩ := (rep_bin _ _ _ _ _ _ _).mp hrt
      rw [hp, hc]
    obtain ⟨T2, hr2, h2, s2⟩ := insertFixup_done (n := m) ((holds_plug T1 k _).mpr h1) hpz
    exact ⟨T2, insertFixup_round h ht rfl hr1 hr2, h2, s1.trans s2⟩

end Lidis.Rbtree
