import Lidis.Lib.ColoredTree
import Mathlib.Order.Lattice

namespace Lidis.RedBlack

open ColoredTree Context

variable {α κ : Type} [LinearOrder κ]

def zoom (key : α → κ) (a : κ) : ColoredTree α → Context α → ColoredTree α × Context α
  | leaf, k => (leaf, k)
  | node c l x r, k =>
    if a < key x then zoom key a l (⟨.left, c, x, r⟩ :: k)
    else if key x < a then zoom key a r (⟨.right, c, x, l⟩ :: k)
    else (node c l x r, k)

theorem zoom_plug (key : α → κ) (a : κ) (t : ColoredTree α) (k : Context α) :
    plug (zoom key a t k).2 (zoom key a t k).1 = plug k t := by
  induction t generalizing k with
  | leaf => rfl
  | node c l x r ihl ihr =>
    rw [zoom]
    split_ifs
    · rw [ihl]; rfl
    · rw [ihr]; rfl
    · rfl

theorem zoom_cases (key : α → κ) (a : κ) (t : ColoredTree α) (k : Context α) :
    (zoom key a t k).1 = leaf ∨ ∃ c l x r, (zoom key a t k).1 = node c l x r ∧ key x = a := by
  induction t generalizing k with
  | leaf => exact Or.inl rfl
  | node c l x r ihl ihr =>
    rw [zoom]
    split_ifs with h1 h2
    · exact ihl _
    · exact ihr _
    · exact Or.inr ⟨c, l, x, r, rfl, le_antisymm (not_lt.mp h1) (not_lt.mp h2)⟩

def Ordered (key : α → κ) (xs : List α) : Prop := xs.Pairwise (fun x y => key x < key y)

theorem zoom_bounds (key : α → κ) (a : κ) (t : ColoredTree α) (k : Context α) (ho : Ordered key (plug k t).items)
    (hlo : ∀ x ∈ before k, key x < a) (hhi : ∀ x ∈ after k, a < key x) :
    (∀ x ∈ before (zoom key a t k).2, key x < a) ∧ ∀ x ∈ after (zoom key a t k).2, a < key x := by
  induction t generalizing k with
  | leaf => exact ⟨hlo, hhi⟩
  | node c l x r ihl ihr =>
    have ho' := ho
    rw [items_plug, Ordered, List.pairwise_append, List.pairwise_append] at ho'
    obtain ⟨⟨-, hnode, -⟩, -, -⟩ := ho'
    simp only [items, List.pairwise_append, List.pairwise_cons] at hnode
    obtain ⟨-, ⟨hr, -⟩, hl⟩ := hnode
    rw [zoom]
    split_ifs with h1 h2
    · apply ihl _ ho
      · intro y hy
        exact hlo y (by simpa [before, Frame.before] using hy)
      · intro y hy
        simp only [after, Frame.after, List.cons_append, List.mem_cons, List.mem_append] at hy
        rcases hy with rfl | hy | hy
        · exact h1
        · exact lt_trans h1 (hr y hy)
        · exact hhi y hy
    · apply ihr _ ho
      · intro y hy
        simp only [before, Frame.before, List.mem_append, List.mem_singleton] at hy
        rcases hy with hy | hy | rfl
        · exact hlo y hy
        · exact lt_trans (hl y hy x List.mem_cons_self) h2
        · exact h2
      · intro y hy
        exact hhi y (by simpa [after, Frame.after] using hy)
    · exact ⟨hlo, hhi⟩

end Lidis.RedBlack
