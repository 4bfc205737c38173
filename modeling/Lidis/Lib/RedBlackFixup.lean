import Lidis.Lib.ColoredTree

namespace Lidis.RedBlack

open ColoredTree Context

variable {α : Type}

def insertRepair : ColoredTree α → Context α → ColoredTree α
  | t, [] => t
  | t, [f] => plug [f] t
  | t, f :: g :: k =>
    if f.color = .black then plug (f :: g :: k) t
    else if g.sibling.color = .red then
      insertRepair (bin g.side .red (bin f.side .black t f.item f.sibling) g.item (g.sibling.paint .black)) k
    else if f.side = g.side then
      plug k (bin g.side .black t f.item (bin g.side .red f.sibling g.item g.sibling))
    else
      match t with
      | leaf => plug (f :: g :: k) leaf
      | node _ l x r => plug k (bin g.side .black (bin g.side .red f.sibling f.item (g.side.pick l r)) x
          (bin g.side .red (g.side.pick r l) g.item g.sibling))

theorem items_bin (d : Side) (c : Color) (a : ColoredTree α) (x : α) (b : ColoredTree α) :
    (bin d c a x b).items = d.pick a.items b.items ++ x :: d.pick b.items a.items := by
  cases d <;> rfl

theorem insertRepair_items (t : ColoredTree α) (k : Context α) :
    (insertRepair t k).items = (plug k t).items := by
  fun_induction insertRepair t k with
  | case1 => rfl
  | case2 => rfl
  | case3 => rfl
  | case4 t f g k hf hu ih =>
    rw [ih]
    apply items_plug_congr
    simp [Frame.fill, items_bin]
  | case5 t f g k hf hu hs =>
    apply items_plug_congr
    obtain ⟨d, c, x, s⟩ := f
    obtain ⟨e, c', y, u⟩ := g
    obtain rfl : d = e := hs
    cases d <;> simp [Frame.fill, items_bin, Side.pick]
  | case6 => rfl
  | case7 f g k hf hu hs c l x r =>
    apply items_plug_congr
    obtain ⟨d, c, p, s⟩ := f
    obtain ⟨e, c', y, u⟩ := g
    obtain rfl : d = e.flip := Side.eq_flip_of_ne hs
    cases e <;> simp [Frame.fill, items_bin, Side.pick, Side.flip, ColoredTree.items]

theorem insertRepair_invariant (t : ColoredTree α) (k : Context α) (n : ℕ)
    (hred : t.color = .red) (ht : t.RedOk) (hk : Context.RedOk k)
    (hb : ColoredTree.Balanced n t) (hkb : Context.Balanced n k) :
    (insertRepair t k).RedOk ∧ ∃ m, ColoredTree.Balanced m (insertRepair t k) := by
  fun_induction insertRepair t k generalizing n with
  | case1 t => exact ⟨ht, n, hb⟩
  | case2 t f =>
    have hf : f.color = .black := by
      cases hf : f.color with
      | red => exact absurd rfl (hk.2.1 hf).2.1
      | black => rfl
    exact ⟨redOk_plug _ _ hk ht (by simp [topColor, hf]), balanced_plug _ _ n hb hkb⟩
  | case3 t f g k hf =>
    exact ⟨redOk_plug _ _ hk ht (by simp [topColor, hf]), balanced_plug _ _ n hb hkb⟩
  | case4 t f g k hf hu ih =>
    obtain ⟨d, c, p, s⟩ := f
    obtain ⟨e, c', y, u⟩ := g
    obtain rfl : c = .red := by cases c <;> simp_all
    obtain ⟨hs, hsp, hur, hg, hk⟩ := hk
    obtain ⟨hsc, -, rfl⟩ := hsp rfl
    obtain ⟨hsb, hub, hkb⟩ := hkb
    apply ih (n + 1) rfl
    · exact (redOk_bin _ _ _ _ _).mpr ⟨fun _ => ⟨rfl, by cases u <;> rfl⟩,
        (redOk_bin _ _ _ _ _).mpr ⟨by simp, ht, hs⟩, hur.paint_black⟩
    · exact hk
    · exact (balanced_bin_red _ _ _ _ _).mpr ⟨(balanced_bin_black _ _ _ _ _).mpr ⟨hb, hsb⟩,
        hub.paint_black_of_red hu⟩
    · exact hkb
  | case5 t f g k hf hu hd =>
    obtain ⟨d, c, p, s⟩ := f
    obtain ⟨e, c', y, u⟩ := g
    obtain rfl : c = .red := by cases c <;> simp_all
    obtain ⟨hs, hsp, hur, hg, hk⟩ := hk
    obtain ⟨hsc, -, rfl⟩ := hsp rfl
    obtain ⟨hsb, hub, hkb⟩ := hkb
    have huc : u.color = .black := by cases h : u.color <;> simp_all
    constructor
    · refine redOk_plug _ _ hk ?_ (fun _ => rfl)
      exact (redOk_bin _ _ _ _ _).mpr ⟨by simp, ht,
        (redOk_bin _ _ _ _ _).mpr ⟨fun _ => ⟨hsc, huc⟩, hs, hur⟩⟩
    · refine balanced_plug _ _ (n + 1) ?_ hkb
      exact (balanced_bin_black _ _ _ _ _).mpr ⟨hb, (balanced_bin_red _ _ _ _ _).mpr ⟨hsb, hub⟩⟩
  | case6 => simp [ColoredTree.color] at hred
  | case7 f g k hf hu hd ct l x r =>
    obtain ⟨d, c, p, s⟩ := f
    obtain ⟨e, c', y, u⟩ := g
    obtain rfl : c = .red := by cases c <;> simp_all
    obtain rfl : ct = .red := hred
    obtain ⟨hs, hsp, hur, hg, hk⟩ := hk
    obtain ⟨hsc, -, rfl⟩ := hsp rfl
    obtain ⟨hsb, hub, hkb⟩ := hkb
    have huc : u.color = .black := by cases h : u.color <;> simp_all
    rw [node_eq_bin e] at ht hb
    obtain ⟨hcol, hl, hr⟩ := (redOk_bin _ _ _ _ _).mp ht
    obtain ⟨hcl, hcr⟩ := hcol rfl
    obtain ⟨hbl, hbr⟩ := (balanced_bin_red _ _ _ _ _).mp hb
    constructor
    · refine redOk_plug _ _ hk ?_ (fun _ => rfl)
      exact (redOk_bin _ _ _ _ _).mpr ⟨by simp,
        (redOk_bin _ _ _ _ _).mpr ⟨fun _ => ⟨hsc, hcl⟩, hs, hl⟩,
        (redOk_bin _ _ _ _ _).mpr ⟨fun _ => ⟨hcr, huc⟩, hr, hur⟩⟩
    · refine balanced_plug _ _ (n + 1) ?_ hkb
      exact (balanced_bin_black _ _ _ _ _).mpr ⟨(balanced_bin_red _ _ _ _ _).mpr ⟨hsb, hbl⟩,
        (balanced_bin_red _ _ _ _ _).mpr ⟨hbr, hub⟩⟩

theorem isRedBlack_paint {t : ColoredTree α} (ht : t.RedOk) (hb : ∃ m, ColoredTree.Balanced m t) :
    IsRedBlack (t.paint .black) := by
  obtain ⟨m, hm⟩ := hb
  refine ⟨ht.paint_black, ?_, hm.exists_paint_black⟩
  cases t <;> rfl

end Lidis.RedBlack
