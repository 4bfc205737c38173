import Lidis.Lib.RedBlackFixup

namespace Lidis.RedBlack

open ColoredTree Context

variable {α : Type}

/-- One round of the removal repair below a black sibling; `up` goes on one level higher. -/
def settle (t : ColoredTree α) (f : Frame α) (k : Context α) (up : ColoredTree α → ColoredTree α) : ColoredTree α :=
  match f.sibling with
  | leaf => plug (f :: k) t
  | node _ l w r =>
    let near := f.side.pick l r
    let far := f.side.pick r l
    if near.color = .black ∧ far.color = .black then
      up (bin f.side f.color t f.item (bin f.side .red near w far))
    else if far.color = .black then
      match near with
      | leaf => plug (f :: k) t
      | node _ a v b => (plug k (bin f.side f.color (bin f.side .black t f.item (f.side.pick a b)) v
          (bin f.side .black (f.side.pick b a) w far))).paint .black
    else
      (plug k (bin f.side f.color (bin f.side .black t f.item near) w (far.paint .black))).paint .black

def deleteRepair : ColoredTree α → Context α → ColoredTree α
  | t, [] => t.paint .black
  | t, f :: k =>
    if t.color = .red then plug (f :: k) (t.paint .black)
    else
      match f.sibling with
      | leaf => plug (f :: k) t
      | node .red l w r =>
        let outer : Context α := ⟨f.side, .black, w, f.side.pick r l⟩ :: k
        settle t ⟨f.side, .red, f.item, f.side.pick l r⟩ outer (fun u => plug outer (u.paint .black))
      | node .black _ _ _ => settle t f k (fun u => deleteRepair u k)

theorem settle_items (t : ColoredTree α) (f : Frame α) (k : Context α) (up : ColoredTree α → ColoredTree α)
    (hup : ∀ u, (up u).items = (plug k u).items) :
    (settle t f k up).items = (plug (f :: k) t).items := by
  obtain ⟨d, c, p, s⟩ := f
  cases s with
  | leaf => rfl
  | node cs l w r =>
    simp only [settle]
    split_ifs with h1 h2
    · rw [hup]
      apply items_plug_congr
      cases d <;> simp [Frame.fill, items_bin, Side.pick, ColoredTree.items]
    · split
      · rfl
      · rename_i a v b hnear
        rw [items_paint]
        apply items_plug_congr
        cases d <;> simp only [Side.pick] at hnear <;> subst hnear <;>
          simp [Frame.fill, items_bin, Side.pick, ColoredTree.items]
    · rw [items_paint]
      apply items_plug_congr
      cases d <;> simp [Frame.fill, items_bin, Side.pick, ColoredTree.items]

theorem deleteRepair_items (t : ColoredTree α) (k : Context α) :
    (deleteRepair t k).items = (plug k t).items := by
  induction k generalizing t with
  | nil => simp [deleteRepair, plug]
  | cons f k ih =>
    rw [deleteRepair]
    split_ifs with hc
    · exact items_plug_congr (f :: k) (items_paint _ _)
    · obtain ⟨d, c, p, s⟩ := f
      cases s with
      | leaf => rfl
      | node cs l w r =>
        cases cs with
        | red =>
          rw [settle_items _ _ _ _ (fun u => items_plug_congr _ (items_paint _ _))]
          simp only [plug]
          apply items_plug_congr
          cases d <;> simp [Frame.fill, items_bin, Side.pick, ColoredTree.items]
        | black => exact settle_items _ _ _ _ (fun u => ih u)

theorem settle_isRedBlack (t : ColoredTree α) (f : Frame α) (k : Context α) (up : ColoredTree α → ColoredTree α) (n : ℕ)
    (ht : t.RedOk) (hb : ColoredTree.Balanced n t)
    (hs : f.sibling.color = .black) (hk : Context.RedOk (f :: k)) (hkb : Context.Balanced (n + 1) (f :: k))
    (hup : ∀ u m, u.color = f.color → (u.paint .black).RedOk → ColoredTree.Balanced m u →
      Context.Balanced (m + 1) k → IsRedBlack (up u)) :
    IsRedBlack (settle t f k up) := by
  obtain ⟨d, c, p, s⟩ := f
  obtain ⟨hsr, hcol, hk⟩ := hk
  obtain ⟨hsb, hkb⟩ := hkb
  have hcol : c = .red → topColor k = .black := fun h => (hcol h).2.2
  obtain ⟨cs, near, w, far, rfl⟩ := exists_bin_of_balanced_succ d hsb
  obtain rfl : cs = .black := hs
  obtain ⟨-, hnr, hfr⟩ := (redOk_bin _ _ _ _ _).mp hsr
  obtain ⟨hnb, hfb⟩ := (balanced_bin_black _ _ _ _ _).mp hsb
  have hpn : d.pick (d.pick near far) (d.pick far near) = near := by cases d <;> rfl
  have hpf : d.pick (d.pick far near) (d.pick near far) = far := by cases d <;> rfl
  have hplug : ∀ a b x, a.RedOk → b.RedOk → (c = .red → a.color = .black ∧ b.color = .black) →
      ColoredTree.Balanced (n + 1) a → ColoredTree.Balanced (n + 1) b →
      IsRedBlack ((plug k (bin d c a x b)).paint .black) := by
    intro a b x ha hb' hab hba hbb
    apply isRedBlack_paint
    · refine redOk_plug _ _ hk ((redOk_bin _ _ _ _ _).mpr ⟨hab, ha, hb'⟩) ?_
      intro htop
      cases c with
      | red => simp [hcol rfl] at htop
      | black => rfl
    · cases c with
      | red => exact balanced_plug _ _ (n + 1) ((balanced_bin_red _ _ _ _ _).mpr ⟨hba, hbb⟩) hkb
      | black => exact balanced_plug _ _ (n + 2) ((balanced_bin_black _ _ _ _ _).mpr ⟨hba, hbb⟩) hkb
  simp only [settle, bin, hpn, hpf]
  split_ifs with h1 h2
  · have hred : (bin d .red near w far).RedOk := (redOk_bin _ _ _ _ _).mpr ⟨fun _ => h1, hnr, hfr⟩
    have hbal : ColoredTree.Balanced n (bin d .red near w far) := (balanced_bin_red _ _ _ _ _).mpr ⟨hnb, hfb⟩
    cases c with
    | red =>
      exact hup _ n rfl ((redOk_bin d .black _ p _).mpr ⟨by simp, ht, hred⟩)
        ((balanced_bin_red d n _ p _).mpr ⟨hb, hbal⟩) hkb
    | black =>
      exact hup _ (n + 1) rfl ((redOk_bin d .black _ p _).mpr ⟨by simp, ht, hred⟩)
        ((balanced_bin_black d n _ p _).mpr ⟨hb, hbal⟩) hkb
  · have hnear : near.color = .red := by cases h : near.color <;> simp_all
    obtain ⟨a, v, b, rfl⟩ := exists_bin_of_red d hnear
    obtain ⟨hab, har, hbr⟩ := (redOk_bin _ _ _ _ _).mp hnr
    obtain ⟨hba, hbb⟩ := (balanced_bin_red _ _ _ _ _).mp hnb
    have hpa : d.pick (d.pick a b) (d.pick b a) = a := by cases d <;> rfl
    have hpb : d.pick (d.pick b a) (d.pick a b) = b := by cases d <;> rfl
    simp only [bin, hpa, hpb]
    exact hplug _ _ v ((redOk_bin d .black _ p _).mpr ⟨by simp, ht, har⟩)
      ((redOk_bin d .black _ w _).mpr ⟨by simp, hbr, hfr⟩) (fun _ => ⟨rfl, rfl⟩)
      ((balanced_bin_black d n _ p _).mpr ⟨hb, hba⟩) ((balanced_bin_black d n _ w _).mpr ⟨hbb, hfb⟩)
  · have hfar : far.color = .red := by cases h : far.color <;> simp_all
    exact hplug _ _ w ((redOk_bin d .black _ p _).mpr ⟨by simp, ht, hnr⟩) hfr.paint_black
      (fun _ => ⟨rfl, by cases far <;> rfl⟩)
      ((balanced_bin_black d n _ p _).mpr ⟨hb, hnb⟩) (hfb.paint_black_of_red hfar)

theorem deleteRepair_isRedBlack (t : ColoredTree α) (k : Context α) (n : ℕ)
    (ht : (t.paint .black).RedOk) (hb : ColoredTree.Balanced n t) (hk : Context.RedOk k)
    (hkb : Context.Balanced (n + 1) k) : IsRedBlack (deleteRepair t k) := by
  induction k generalizing t n with
  | nil => exact ⟨ht, by cases t <;> rfl, hb.exists_paint_black⟩
  | cons f k ih =>
    rw [deleteRepair]
    split_ifs with hc
    · have hp : (t.paint .black).color = .black := by cases t <;> rfl
      exact ⟨redOk_plug _ _ hk ht (fun _ => hp), color_plug _ _ hk (fun _ => hp),
        balanced_plug _ _ _ (hb.paint_black_of_red hc) hkb⟩
    · have hc : t.color = .black := by cases h : t.color <;> simp_all
      rw [paint_black_of_black hc] at ht
      obtain ⟨d, c, p, s⟩ := f
      obtain ⟨hsr, hcol, hk'⟩ := hk
      obtain ⟨hsb, hkb'⟩ := hkb
      cases s with
      | leaf => simp [ColoredTree.Balanced] at hsb
      | node cs l w r =>
        cases cs with
        | red =>
          obtain rfl : c = .black := by cases c <;> simp_all [ColoredTree.color]
          rw [node_eq_bin d] at hsr hsb
          obtain ⟨hnf, hnr, hfr⟩ := (redOk_bin _ _ _ _ _).mp hsr
          obtain ⟨hnb, hfb⟩ := (balanced_bin_red _ _ _ _ _).mp hsb
          obtain ⟨hnc, hfc⟩ := hnf rfl
          have houter : Context.RedOk (⟨d, .black, w, d.pick r l⟩ :: k) := ⟨hfr, by simp, hk'⟩
          apply settle_isRedBlack t _ _ _ n ht hb hnc
          · exact ⟨hnr, fun _ => ⟨hnc, by simp, rfl⟩, houter⟩
          · exact ⟨hnb, hfb, hkb'⟩
          · intro u m hu hur hub hkm
            have hp : (u.paint .black).color = .black := by cases u <;> rfl
            exact ⟨redOk_plug _ _ houter hur (fun _ => hp), color_plug _ _ houter (by simp),
              balanced_plug _ _ _ (hub.paint_black_of_red hu) hkm⟩
        | black =>
          exact settle_isRedBlack t _ k _ n ht hb rfl ⟨hsr, hcol, hk'⟩ ⟨hsb, hkb'⟩
            (fun u m _ hur hub hkm => ih u m hur hub hk' hkm)

end Lidis.RedBlack
