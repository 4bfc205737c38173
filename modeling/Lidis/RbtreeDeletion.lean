import Lidis.RbtreeInsertion

namespace Lidis.Rbtree

open RedBlack ColoredTree Context

theorem parent_focus {T T' : Rbtree} {t : ColoredTree Ptr} {q : Ptr} (h : T.parent (ptrOf T.nil t) = q)
    (hs : SameData T T') (hr : Rep T' q t) : T'.parent (ptrOf T.nil t) = q := by
  cases t with
  | leaf => exact hs.parent_nil.trans h
  | node c l x r => exact hr.2.1

theorem deleteLast_at {T : Rbtree} {t near far : ColoredTree Ptr} {d : Side} {c cw : Color} {p w : Ptr} {k : Context Ptr}
    (h : At T t (⟨d, c, p, bin d cw near w far⟩ :: k)) (hp : T.parent (ptrOf T.nil t) = p)
    (hfar : far.color = .red) :
    ∃ T', deleteFixupLast d T (ptrOf T.nil t) w = some (T', T'.root) ∧
      At T' (bin d c (bin d .black t p near) w (far.paint .black)) k ∧ SameData T T' := by
  obtain ⟨hc, -, -, -, -⟩ := focus_links h
  obtain ⟨a, y, b, rfl⟩ := exists_bin_of_red .left hfar
  obtain ⟨hr1, h1, s1⟩ := recolor_at T d cw c _ _ _ _ (at_sibling.mp h)
  have h1' := at_cons.mp (at_sibling.mp h1)
  rw [Side.flip_flip] at h1'
  obtain ⟨hr2, h2, s2⟩ := recolor_at _ d c .black _ _ _ _ h1'
  have h2' := at_sibling.mp (at_cons.mpr h2)
  have hy : T.child d.flip w = y := by
    obtain ⟨-, -, -, hy, -, -⟩ := (rep_bin _ _ _ _ _ _ _).mp h2'.rep
    exact hy
  rw [bin_flip] at h2'
  obtain ⟨hr3, h3, s3⟩ := recolor_at _ .left .red .black _ _ _ _ (at_cons.mpr h2')
  have h3' := at_cons.mp (at_sibling.mp (at_cons.mp h3))
  rw [Side.flip_flip, ← bin_flip] at h3'
  obtain ⟨T', hrot, h4, s4⟩ := rotate_at _ _ _ _ _ _ _ _ _ _ h3'
  refine ⟨T', ?_, h4, s1.trans (s2.trans (s3.trans s4))⟩
  simp only at hc
  simp [deleteFixupLast, hp, hc, hy, hr1, hr2, hr3, hrot]

theorem children_black {T : Rbtree} {q : Ptr} {near far : ColoredTree Ptr} {d : Side} {cw : Color} {w : Ptr}
    (h : Rep T q (bin d cw near w far)) (hb : T.color T.nil = .black) :
    (T.color (T.child .left w) = .black ∧ T.color (T.child .right w) = .black) ↔
      near.color = .black ∧ far.color = .black := by
  obtain ⟨-, -, hn, hf, hrn, hrf⟩ := (rep_bin _ _ _ _ _ _ _).mp h
  have hcn := color_ptrOf hrn hb
  have hcf := color_ptrOf hrf hb
  rw [← hn] at hcn
  rw [← hf] at hcf
  rw [← hcn, ← hcf]
  cases d with
  | left => rfl
  | right => exact and_comm

theorem deleteBlack_up {T : Rbtree} {t near far : ColoredTree Ptr} {d : Side} {c cw : Color} {p w : Ptr} {k : Context Ptr}
    (h : At T t (⟨d, c, p, bin d cw near w far⟩ :: k)) (hp : T.parent (ptrOf T.nil t) = p)
    (hb : near.color = .black ∧ far.color = .black) :
    ∃ T', deleteFixupBlack d T (ptrOf T.nil t) w = some (T', p) ∧
      At T' (bin d c t p (bin d .red near w far)) k ∧ SameData T T' := by
  have hw := at_sibling.mp h
  obtain ⟨hr1, h1, s1⟩ := recolor_at T d cw .red _ _ _ _ hw
  have h1' := at_cons.mp (at_sibling.mp h1)
  rw [Side.flip_flip] at h1'
  refine ⟨_, ?_, h1', s1⟩
  rw [deleteFixupBlack, if_pos ((children_black hw.rep h.nil_black).mpr hb)]
  simp [hr1, hp]

theorem deleteBlack_far {T : Rbtree} {t near far : ColoredTree Ptr} {d : Side} {c cw : Color} {p w : Ptr} {k : Context Ptr}
    (h : At T t (⟨d, c, p, bin d cw near w far⟩ :: k)) (hp : T.parent (ptrOf T.nil t) = p)
    (hfar : far.color = .red) :
    ∃ T', deleteFixupBlack d T (ptrOf T.nil t) w = some (T', T'.root) ∧
      At T' (bin d c (bin d .black t p near) w (far.paint .black)) k ∧ SameData T T' := by
  have hw := at_sibling.mp h
  obtain ⟨T', hr, h1, s1⟩ := deleteLast_at h hp hfar
  refine ⟨T', ?_, h1, s1⟩
  obtain ⟨-, -, -, hf, -, hrf⟩ := (rep_bin _ _ _ _ _ _ _).mp hw.rep
  have hcf := color_ptrOf hrf h.nil_black
  rw [deleteFixupBlack, if_neg (fun hb => by simpa [hfar] using (children_black hw.rep h.nil_black).mp hb),
    if_neg (by rw [hf, hcf, hfar]; simp), hr]

theorem deleteBlack_near {T : Rbtree} {t a b far : ColoredTree Ptr} {d : Side} {c cw : Color} {p w v : Ptr}
    {k : Context Ptr} (h : At T t (⟨d, c, p, bin d cw (bin d .red a v b) w far⟩ :: k))
    (hp : T.parent (ptrOf T.nil t) = p) (hfar : far.color = .black) :
    ∃ T', deleteFixupBlack d T (ptrOf T.nil t) w = some (T', T'.root) ∧
      At T' (bin d c (bin d .black t p a) v (bin d .black b w far)) k ∧ SameData T T' := by
  have hw := at_sibling.mp h
  obtain ⟨-, -, hn, hf, -, hrf⟩ := (rep_bin _ _ _ _ _ _ _).mp hw.rep
  have hcf := color_ptrOf hrf h.nil_black
  simp only [ptrOf_bin] at hn
  obtain ⟨hr1, h1, s1⟩ := recolor_at T d .red .black _ _ _ _ (at_cons.mpr hw)
  obtain ⟨hr2, h2, s2⟩ := recolor_at _ d cw .red _ _ _ _ (at_cons.mp h1)
  rw [bin_flip, bin_flip d .black] at h2
  obtain ⟨T3, hrot, h3, s3⟩ := rotate_at _ _ _ _ _ _ _ _ _ _ h2
  rw [← bin_flip, ← bin_flip] at h3
  have h3' := at_sibling.mp h3
  rw [Side.flip_flip] at h3'
  have hs := s1.trans (s2.trans s3)
  have hp3 : T3.parent (ptrOf T.nil t) = p := parent_focus hp hs h3'.rep
  have hv : T3.child d.flip p = v := (focus_links h3').2.2.2.1
  rw [← hs.nil] at hp3
  obtain ⟨T', hr, h4, s4⟩ := deleteLast_at h3' hp3 rfl
  refine ⟨T', ?_, h4, hs.trans s4⟩
  rw [hs.nil] at hr hp3
  rw [deleteFixupBlack, if_neg (fun hb => by simpa using (children_black hw.rep h.nil_black).mp hb),
    if_pos (by rw [hf, hcf, hfar])]
  simp [hn, hr1, hr2, hrot, hp3, hv, hr]

theorem root_mem_labels {T : Rbtree} {p : Ptr} {k : Context Ptr} (h : RepContext T p k) (hk : k ≠ []) :
    T.root ∈ Context.labels k := by
  induction k generalizing p with
  | nil => exact absurd rfl hk
  | cons f k ih =>
    by_cases hk' : k = []
    · subst hk'
      have hr : T.root = f.item := h.2.2.2.2.2
      simp [Context.labels, hr]
    · have := ih h.2.2.2.2.2 hk'
      simp [Context.labels, this]

theorem focus_ne_root {T : Rbtree} {t : ColoredTree Ptr} {k : Context Ptr} (h : At T t k) (hk : k ≠ []) :
    ptrOf T.nil t ≠ T.root := by
  have hroot := root_mem_labels h.ctx hk
  obtain ⟨-, -, hdisj⟩ := List.nodup_append'.mp h.nodup
  intro he
  by_cases hp : ptrOf T.nil t = T.nil
  · exact h.nil_not_mem (List.mem_append_right _ (hp ▸ he ▸ hroot))
  · exact hdisj (ptrOf_mem hp) (he ▸ hroot)

theorem deleteFixup_done {T : Rbtree} {t : ColoredTree Ptr} {n : ℕ} (h : Holds T t) :
    ∃ T', rbtreeDeleteFixup (n + 1) T T.root = some T' ∧ Holds T' (t.paint .black) ∧ SameData T T' := by
  obtain ⟨hh, hs⟩ := blacken_root T t h
  exact ⟨_, by simp [rbtreeDeleteFixup], hh, hs⟩

theorem deleteFixup_red {T : Rbtree} {t : ColoredTree Ptr} {k : Context Ptr} {n : ℕ} (h : At T t k) (ht : t.color = .red) :
    ∃ T', rbtreeDeleteFixup (n + 1) T (ptrOf T.nil t) = some T' ∧ Holds T' (plug k (t.paint .black)) ∧
      SameData T T' := by
  obtain ⟨a, x, b, rfl⟩ := exists_bin_of_red .left ht
  have hc : T.color x = .red := ((rep_bin _ _ _ _ _ _ _).mp h.rep).1
  obtain ⟨-, h1, s1⟩ := recolor_at T .left .red .black _ _ _ _ h
  exact ⟨_, by simp [rbtreeDeleteFixup, hc], (holds_plug _ _ _).mpr h1, s1⟩

theorem deleteFixup_round {T T' T'' : Rbtree} {t : ColoredTree Ptr} {f : Frame Ptr} {z : Ptr} {k : Context Ptr} {n : ℕ}
    (h : At T t (f :: k)) (hc : t.color = .black) (hs : f.sibling ≠ leaf)
    (hp : T.parent (ptrOf T.nil t) = f.item)
    (hr : deleteFixupRound f.side T (ptrOf T.nil t) = some (T', z))
    (hrest : rbtreeDeleteFixup n T' z = some T'') :
    rbtreeDeleteFixup (n + 1) T (ptrOf T.nil t) = some T'' := by
  have hroot := focus_ne_root h (by simp)
  have hcol : T.color (ptrOf T.nil t) = .black := (color_ptrOf h.rep h.nil_black).trans hc
  simp [rbtreeDeleteFixup, hroot, hcol, hp, focus_side h (Or.inr hs), hr, hrest]

theorem settle_refines {T : Rbtree} {t : ColoredTree Ptr} {f : Frame Ptr} {k : Context Ptr} {n : ℕ}
    {g : ColoredTree Ptr → ColoredTree Ptr} (h : At T t (f :: k)) (hp : T.parent (ptrOf T.nil t) = f.item)
    (hs : f.sibling ≠ leaf)
    (hup : ∀ T', At T' (bin f.side f.color t f.item (f.sibling.paint .red)) k →
      ∃ T'', rbtreeDeleteFixup (n + 1) T' f.item = some T'' ∧
        Holds T'' (g (bin f.side f.color t f.item (f.sibling.paint .red))) ∧ SameData T' T'') :
    ∃ T' z T'', deleteFixupBlack f.side T (ptrOf T.nil t) (ptrOf T.nil f.sibling) = some (T', z) ∧
      rbtreeDeleteFixup (n + 1) T' z = some T'' ∧ Holds T'' (settle t f k g) ∧ SameData T T'' := by
  obtain ⟨d, c, p, s⟩ := f
  cases s with
  | leaf => exact absurd rfl hs
  | node cs l w r =>
    have h' := h
    rw [node_eq_bin d] at h'
    simp only [settle, ptrOf]
    split_ifs with h1 h2
    · obtain ⟨T1, hr1, hat, s1⟩ := deleteBlack_up h' hp h1
      have hpaint : bin d .red (d.pick l r) w (d.pick r l) = (node cs l w r).paint .red := by
        rw [node_eq_bin d]; rfl
      rw [hpaint] at hat ⊢
      obtain ⟨T2, hr2, hh, s2⟩ := hup T1 hat
      exact ⟨T1, p, T2, hr1, hr2, hh, s1.trans s2⟩
    · have hnear : (d.pick l r).color = .red := by cases hc : (d.pick l r).color <;> simp_all
      obtain ⟨a, v, b, hab⟩ := exists_bin_of_red d hnear
      rw [hab] at h'
      obtain ⟨T1, hr1, hat, s1⟩ := deleteBlack_near h' hp h2
      obtain ⟨T2, hr2, hh, s2⟩ := deleteFixup_done (n := n) ((holds_plug _ _ _).mpr hat)
      refine ⟨T1, _, T2, hr1, hr2, ?_, s1.trans s2⟩
      have hpa : d.pick (d.pick a b) (d.pick b a) = a := by cases d <;> rfl
      have hpb : d.pick (d.pick b a) (d.pick a b) = b := by cases d <;> rfl
      rw [hab]
      simp only [bin, hpa, hpb]
      exact hh
    · have hfar : (d.pick r l).color = .red := by cases hc : (d.pick r l).color <;> simp_all
      obtain ⟨T1, hr1, hat, s1⟩ := deleteBlack_far h' hp hfar
      obtain ⟨T2, hr2, hh, s2⟩ := deleteFixup_done (n := n) ((holds_plug _ _ _).mpr hat)
      exact ⟨T1, _, T2, hr1, hr2, hh, s1.trans s2⟩

theorem round_red_sibling {T : Rbtree} {t near far : ColoredTree Ptr} {d : Side} {c : Color} {p w : Ptr} {k : Context Ptr}
    (h : At T t (⟨d, c, p, bin d .red near w far⟩ :: k)) (hp : T.parent (ptrOf T.nil t) = p) :
    ∃ T', deleteFixupRound d T (ptrOf T.nil t) = deleteFixupBlack d T' (ptrOf T.nil t) (ptrOf T.nil near) ∧
      At T' t (⟨d, .red, p, near⟩ :: ⟨d, .black, w, far⟩ :: k) ∧ T'.parent (ptrOf T.nil t) = p ∧ SameData T T' := by
  obtain ⟨-, -, -, hw, hcw⟩ := focus_links h
  simp only [ptrOf_bin, color_bin] at hw hcw
  obtain ⟨hr1, h1, s1⟩ := recolor_at T d .red .black _ _ _ _ (at_sibling.mp h)
  have h1' := at_cons.mp (at_sibling.mp h1)
  rw [Side.flip_flip] at h1'
  obtain ⟨hr2, h2, s2⟩ := recolor_at _ d c .red _ _ _ _ h1'
  obtain ⟨T', hrot, h3, s3⟩ := rotate_at _ _ _ _ _ _ _ _ _ _ h2
  have h3' := at_cons.mpr (at_cons.mpr h3)
  have hs := s1.trans (s2.trans s3)
  have hp' : T'.parent (ptrOf T.nil t) = p := parent_focus hp hs h3'.rep
  obtain ⟨-, -, -, hn, -⟩ := focus_links h3'
  simp only [hs.nil] at hn
  refine ⟨T', ?_, h3', hp', hs⟩
  simp [deleteFixupRound, hp, hw, hcw, hr1, hr2, hrot, hp', hn]

theorem deleteFixup_refines {T : Rbtree} {t : ColoredTree Ptr} {k : Context Ptr} {n m : ℕ} (h : At T t k)
    (hp : T.parent (ptrOf T.nil t) = topOf T.nil k) (hb : ColoredTree.Balanced m t) (hk : Context.RedOk k)
    (hkb : Context.Balanced (m + 1) k) (hn : k.length + 1 ≤ n) :
    ∃ T', rbtreeDeleteFixup n T (ptrOf T.nil t) = some T' ∧ Holds T' (deleteRepair t k) ∧ SameData T T' := by
  induction k generalizing T t n m with
  | nil =>
    obtain ⟨n, rfl⟩ : ∃ j, n = j + 1 := ⟨n - 1, by omega⟩
    have hh := (holds_plug T [] t).mpr h
    have hroot : ptrOf T.nil t = T.root := hh.root.symm
    rw [hroot]
    exact deleteFixup_done hh
  | cons f k ih =>
    obtain ⟨n, rfl⟩ : ∃ j, n = j + 2 := ⟨n - 2, by simp only [List.length_cons] at hn; omega⟩
    rw [deleteRepair]
    split_ifs with hc
    · exact deleteFixup_red h hc
    · have hc : t.color = .black := by cases h : t.color <;> simp_all
      obtain ⟨d, c, p, s⟩ := f
      obtain ⟨hsr, hcol, hk'⟩ := hk
      obtain ⟨hsb, hkb'⟩ := hkb
      have hsl : s ≠ leaf := by rintro rfl; simp [ColoredTree.Balanced] at hsb
      cases s with
      | leaf => exact absurd rfl hsl
      | node cs l w r =>
        cases cs with
        | red =>
          have h' := h
          rw [node_eq_bin d] at h'
          obtain ⟨T1, hr1, h1, hp1, s1⟩ := round_red_sibling h' hp
          have hnb : ColoredTree.Balanced (m + 1) (d.pick l r) := by
            rw [node_eq_bin d] at hsb
            exact ((balanced_bin_red _ _ _ _ _).mp hsb).1
          have hnl : d.pick l r ≠ leaf := by
            intro he
            simp [he, ColoredTree.Balanced] at hnb
          rw [← s1.nil] at hp1 hr1
          obtain ⟨T2, z, T3, hr2, hr3, hh, s3⟩ := settle_refines (n := n)
            (g := fun u => plug (⟨d, .black, w, d.pick r l⟩ :: k) (u.paint .black)) h1 hp1 hnl
            (fun T' hat => deleteFixup_red hat rfl)
          rw [s1.nil] at hr1 hr2
          exact ⟨T3, deleteFixup_round h hc hsl hp (hr1.trans hr2) hr3, hh, s1.trans s3⟩
        | black =>
          obtain ⟨T2, z, T3, hr2, hr3, hh, s3⟩ := settle_refines (n := n) (g := fun u => deleteRepair u k) h hp hsl
            (fun T' hat => by
              have hrep := (rep_bin _ _ _ _ _ _ _).mp hat.rep
              have hbal := hsb.paint_red_of_black rfl
              cases c with
              | red =>
                exact ih hat hrep.2.1 ((balanced_bin_red _ _ _ _ _).mpr ⟨hb, hbal⟩) hk' hkb'
                  (by simp only [List.length_cons] at hn; omega)
              | black =>
                exact ih hat hrep.2.1 ((balanced_bin_black _ _ _ _ _).mpr ⟨hb, hbal⟩) hk' hkb'
                  (by simp only [List.length_cons] at hn; omega))
          have hw : T.child d.flip p = w := (focus_links h).2.2.2.1
          have hcw : T.color w = .black := (focus_links h).2.2.2.2
          have hr1 : deleteFixupRound d T (ptrOf T.nil t) = deleteFixupBlack d T (ptrOf T.nil t) w := by
            have hp' : T.parent (ptrOf T.nil t) = p := hp
            simp [deleteFixupRound, hp', hw, hcw]
          exact ⟨T3, deleteFixup_round h hc hsl hp (hr1.trans hr2) hr3, hh, s3⟩

end Lidis.Rbtree
