import Mathlib.Data.List.Basic
import Mathlib.Tactic.SplitIfs

namespace Lidis.RedBlack

inductive Color where
  | red
  | black
  deriving DecidableEq

inductive Side where
  | left
  | right
  deriving DecidableEq

namespace Side

def flip : Side → Side
  | .left => .right
  | .right => .left

@[simp] theorem flip_flip (d : Side) : d.flip.flip = d := by cases d <;> rfl

@[simp] theorem flip_ne (d : Side) : d.flip ≠ d := by cases d <;> simp [flip]

@[simp] theorem ne_flip (d : Side) : d ≠ d.flip := (flip_ne d).symm

theorem eq_flip_of_ne {d e : Side} (h : d ≠ e) : d = e.flip := by
  cases d <;> cases e <;> simp_all [flip]

def pick {β : Type} (d : Side) (a b : β) : β :=
  match d with
  | .left => a
  | .right => b

end Side

inductive ColoredTree (α : Type) where
  | leaf
  | node (c : Color) (l : ColoredTree α) (x : α) (r : ColoredTree α)
  deriving DecidableEq

namespace ColoredTree

variable {α : Type}

def color : ColoredTree α → Color
  | leaf => .black
  | node c _ _ _ => c

def paint (c : Color) : ColoredTree α → ColoredTree α
  | leaf => leaf
  | node _ l x r => node c l x r

def items : ColoredTree α → List α
  | leaf => []
  | node _ l x r => l.items ++ x :: r.items

def preorder : ColoredTree α → List α
  | leaf => []
  | node _ l x r => x :: (l.preorder ++ r.preorder)

theorem preorder_perm (t : ColoredTree α) : t.preorder.Perm t.items := by
  induction t with
  | leaf => exact List.Perm.refl _
  | node c l x r ihl ihr => exact ((ihl.append ihr).cons x).trans List.perm_middle.symm

def bin (d : Side) (c : Color) (near : ColoredTree α) (x : α) (far : ColoredTree α) : ColoredTree α :=
  node c (d.pick near far) x (d.pick far near)

@[simp] theorem color_bin (d : Side) (c : Color) (a : ColoredTree α) (x : α) (b : ColoredTree α) :
    (bin d c a x b).color = c := rfl

@[simp] theorem paint_bin (d : Side) (c e : Color) (a : ColoredTree α) (x : α) (b : ColoredTree α) :
    (bin d c a x b).paint e = bin d e a x b := rfl

@[simp] theorem items_paint (c : Color) (t : ColoredTree α) : (t.paint c).items = t.items := by
  cases t <;> rfl

theorem paint_color (t : ColoredTree α) : t.paint t.color = t := by cases t <;> rfl

theorem paint_black_of_black {t : ColoredTree α} (h : t.color = .black) : t.paint .black = t := by
  rw [← h, paint_color]

theorem node_eq_bin (d : Side) (c : Color) (l : ColoredTree α) (x : α) (r : ColoredTree α) :
    node c l x r = bin d c (d.pick l r) x (d.pick r l) := by
  cases d <;> rfl

theorem exists_bin_of_red (d : Side) {t : ColoredTree α} (h : t.color = .red) :
    ∃ a x b, t = bin d .red a x b := by
  cases t with
  | leaf => simp [color] at h
  | node c l x r =>
    obtain rfl : c = .red := h
    exact ⟨_, x, _, node_eq_bin d .red l x r⟩

def RedOk : ColoredTree α → Prop
  | leaf => True
  | node c l _ r => (c = .red → l.color = .black ∧ r.color = .black) ∧ l.RedOk ∧ r.RedOk

def Balanced : ℕ → ColoredTree α → Prop
  | n, leaf => n = 0
  | n, node .red l _ r => Balanced n l ∧ Balanced n r
  | 0, node .black _ _ _ => False
  | n + 1, node .black l _ r => Balanced n l ∧ Balanced n r

theorem redOk_bin (d : Side) (c : Color) (a : ColoredTree α) (x : α) (b : ColoredTree α) :
    (bin d c a x b).RedOk ↔
      (c = .red → a.color = .black ∧ b.color = .black) ∧ a.RedOk ∧ b.RedOk := by
  cases d with
  | left => rfl
  | right =>
    simp only [bin, Side.pick, RedOk]
    exact ⟨fun h => ⟨fun hc => (h.1 hc).symm, h.2.symm⟩, fun h => ⟨fun hc => (h.1 hc).symm, h.2.symm⟩⟩

@[simp] theorem balanced_bin_red (d : Side) (n : ℕ) (a : ColoredTree α) (x : α) (b : ColoredTree α) :
    Balanced n (bin d .red a x b) ↔ Balanced n a ∧ Balanced n b := by
  cases d with
  | left => cases n <;> rfl
  | right => cases n <;> exact and_comm

@[simp] theorem balanced_bin_black (d : Side) (n : ℕ) (a : ColoredTree α) (x : α) (b : ColoredTree α) :
    Balanced (n + 1) (bin d .black a x b) ↔ Balanced n a ∧ Balanced n b := by
  cases d with
  | left => rfl
  | right => exact and_comm

theorem balanced_zero_bin_black (d : Side) (a : ColoredTree α) (x : α) (b : ColoredTree α) :
    ¬ Balanced 0 (bin d .black a x b) := by
  cases d <;> exact id

theorem RedOk.paint_black {t : ColoredTree α} (h : t.RedOk) : (t.paint .black).RedOk := by
  cases t with
  | leaf => exact h
  | node c l x r => exact ⟨by simp, h.2⟩

theorem Balanced.paint_black_of_red {t : ColoredTree α} {n : ℕ} (h : Balanced n t) (hc : t.color = .red) :
    Balanced (n + 1) (t.paint .black) := by
  obtain ⟨a, x, b, rfl⟩ := exists_bin_of_red .left hc
  simpa only [paint_bin, balanced_bin_black, balanced_bin_red] using h

theorem Balanced.paint_red_of_black {t : ColoredTree α} {n : ℕ} (h : Balanced (n + 1) t)
    (hc : t.color = .black) : Balanced n (t.paint .red) := by
  cases t with
  | leaf => simp [Balanced] at h
  | node c l x r =>
    obtain rfl : c = .black := hc
    cases n <;> exact h

theorem Balanced.exists_paint_black {t : ColoredTree α} {n : ℕ} (h : Balanced n t) :
    ∃ m, Balanced m (t.paint .black) := by
  cases hc : t.color with
  | red => exact ⟨n + 1, h.paint_black_of_red hc⟩
  | black => exact ⟨n, by rwa [paint_black_of_black hc]⟩

theorem exists_bin_of_balanced_succ (d : Side) {t : ColoredTree α} {n : ℕ} (h : Balanced (n + 1) t) :
    ∃ c a x b, t = bin d c a x b := by
  cases t with
  | leaf => simp [Balanced] at h
  | node c l x r => exact ⟨c, _, x, _, node_eq_bin d c l x r⟩

end ColoredTree

structure Frame (α : Type) where
  side : Side
  color : Color
  item : α
  sibling : ColoredTree α
  deriving DecidableEq

namespace Frame

variable {α : Type}

def fill (f : Frame α) (t : ColoredTree α) : ColoredTree α := ColoredTree.bin f.side f.color t f.item f.sibling

def before (f : Frame α) : List α :=
  match f.side with
  | .left => []
  | .right => f.sibling.items ++ [f.item]

def after (f : Frame α) : List α :=
  match f.side with
  | .left => f.item :: f.sibling.items
  | .right => []

theorem items_fill (f : Frame α) (t : ColoredTree α) : (f.fill t).items = f.before ++ t.items ++ f.after := by
  obtain ⟨d, c, x, s⟩ := f
  cases d <;> simp [fill, before, after, ColoredTree.bin, Side.pick, ColoredTree.items]

end Frame

abbrev Context (α : Type) := List (Frame α)

namespace Context

variable {α : Type}

def plug : Context α → ColoredTree α → ColoredTree α
  | [], t => t
  | f :: k, t => plug k (f.fill t)

def before : Context α → List α
  | [] => []
  | f :: k => before k ++ f.before

def after : Context α → List α
  | [] => []
  | f :: k => f.after ++ after k

theorem items_plug (k : Context α) (t : ColoredTree α) :
    (plug k t).items = before k ++ t.items ++ after k := by
  induction k generalizing t with
  | nil => simp [plug, before, after]
  | cons f k ih => simp [plug, before, after, ih, Frame.items_fill]

theorem plug_append (k m : Context α) (t : ColoredTree α) : plug (k ++ m) t = plug m (plug k t) := by
  induction k generalizing t with
  | nil => rfl
  | cons f k ih => exact ih (f.fill t)

theorem before_append (k m : Context α) : before (k ++ m) = before m ++ before k := by
  induction k with
  | nil => simp [before]
  | cons f k ih => simp [before, ih]

theorem after_append (k m : Context α) : after (k ++ m) = after k ++ after m := by
  induction k with
  | nil => simp [after]
  | cons f k ih => simp [after, ih]

theorem items_plug_congr (k : Context α) {t u : ColoredTree α} (h : t.items = u.items) :
    (plug k t).items = (plug k u).items := by
  simp only [items_plug, h]

def topColor : Context α → Color
  | [] => .black
  | f :: _ => f.color

/-- The context is the outside of a tree with a black root and no red child of a red node,
the link between the hole and the innermost frame left open. -/
def RedOk : Context α → Prop
  | [] => True
  | f :: k => f.sibling.RedOk ∧
      (f.color = .red → f.sibling.color = .black ∧ k ≠ [] ∧ topColor k = .black) ∧ RedOk k

def Balanced : ℕ → Context α → Prop
  | _, [] => True
  | n, f :: k => ColoredTree.Balanced n f.sibling ∧
      match f.color with
      | .red => Balanced n k
      | .black => Balanced (n + 1) k

theorem redOk_plug (k : Context α) (t : ColoredTree α) (hk : RedOk k) (ht : t.RedOk)
    (hc : topColor k = .red → t.color = .black) : (plug k t).RedOk := by
  induction k generalizing t with
  | nil => exact ht
  | cons f k ih =>
    obtain ⟨hs, hf, hk⟩ := hk
    refine ih (f.fill t) hk ?_ ?_
    · exact (ColoredTree.redOk_bin _ _ _ _ _).mpr ⟨fun h => ⟨hc h, (hf h).1⟩, ht, hs⟩
    · intro hr
      cases hfc : f.color with
      | red => simp [(hf hfc).2.2] at hr
      | black => exact hfc

theorem color_plug (k : Context α) (t : ColoredTree α) (hk : RedOk k) (ht : k = [] → t.color = .black) :
    (plug k t).color = .black := by
  induction k generalizing t with
  | nil => exact ht rfl
  | cons f k ih =>
    obtain ⟨_, hf, hk⟩ := hk
    refine ih (f.fill t) hk ?_
    rintro rfl
    cases hfc : f.color with
    | red => exact absurd rfl (hf hfc).2.1
    | black => exact hfc

theorem balanced_plug (k : Context α) (t : ColoredTree α) (n : ℕ) (ht : ColoredTree.Balanced n t) (hk : Balanced n k) :
    ∃ m, ColoredTree.Balanced m (plug k t) := by
  induction k generalizing t n with
  | nil => exact ⟨n, ht⟩
  | cons f k ih =>
    obtain ⟨d, c, x, s⟩ := f
    obtain ⟨hs, hk⟩ := hk
    cases c with
    | red => exact ih _ n ((ColoredTree.balanced_bin_red _ _ _ _ _).mpr ⟨ht, hs⟩) hk
    | black => exact ih _ (n + 1) ((ColoredTree.balanced_bin_black _ _ _ _ _).mpr ⟨ht, hs⟩) hk

theorem balanced_of_plug (k : Context α) (t : ColoredTree α) (m : ℕ) (h : ColoredTree.Balanced m (plug k t)) :
    ∃ n, ColoredTree.Balanced n t ∧ Balanced n k := by
  induction k generalizing t with
  | nil => exact ⟨m, h, trivial⟩
  | cons f k ih =>
    obtain ⟨d, c, x, s⟩ := f
    obtain ⟨n, ht, hk⟩ := ih _ h
    cases c with
    | red =>
      obtain ⟨ht, hs⟩ := (ColoredTree.balanced_bin_red _ _ _ _ _).mp ht
      exact ⟨n, ht, hs, hk⟩
    | black =>
      cases n with
      | zero => exact absurd ht (ColoredTree.balanced_zero_bin_black _ _ _ _)
      | succ n =>
        obtain ⟨ht, hs⟩ := (ColoredTree.balanced_bin_black _ _ _ _ _).mp ht
        exact ⟨n, ht, hs, hk⟩

theorem redOk_of_plug (k : Context α) (t : ColoredTree α) (h : (plug k t).RedOk)
    (hc : (plug k t).color = .black) :
    t.RedOk ∧ RedOk k ∧ (topColor k = .red → t.color = .black) ∧ (k = [] → t.color = .black) := by
  induction k generalizing t with
  | nil => exact ⟨h, trivial, by simp [topColor], fun _ => hc⟩
  | cons f k ih =>
    obtain ⟨ht, hk, hred, hroot⟩ := ih (f.fill t) h hc
    obtain ⟨hcol, hft, hs⟩ := (ColoredTree.redOk_bin _ _ _ _ _).mp ht
    refine ⟨hft, ⟨hs, ?_, hk⟩, fun hf => (hcol hf).1, by simp⟩
    intro hf
    have hfill : (f.fill t).color = .red := hf
    refine ⟨(hcol hf).2, ?_, ?_⟩
    · intro hn
      simp [hroot hn] at hfill
    · cases htc : topColor k with
      | red => simp [hred htc] at hfill
      | black => rfl

end Context

structure IsRedBlack {α : Type} (t : ColoredTree α) : Prop where
  red : t.RedOk
  root : t.color = .black
  height : ∃ n, ColoredTree.Balanced n t

end Lidis.RedBlack
