import Lidis.RbtreeFocus
import Lidis.Lib.TreeSearch

namespace Lidis.Rbtree

open RedBlack ColoredTree Context

theorem search_zoom {T : Rbtree} {a : CString} {t : ColoredTree Ptr} {q : Ptr} {n : ℕ} (k : Context Ptr)
    (h : Rep T q t) (hnil : T.nil ∉ t.items) (hn : t.items.length < n) :
    rbtreeSearch T a n (ptrOf T.nil t) = some (ptrOf T.nil (zoom T.key a t k).1) := by
  induction t generalizing q n k with
  | leaf =>
    obtain ⟨n, rfl⟩ := Nat.exists_eq_succ_of_ne_zero (by omega : n ≠ 0)
    simp [rbtreeSearch, ptrOf, zoom]
  | node c l x r ihl ihr =>
    obtain ⟨n, rfl⟩ := Nat.exists_eq_succ_of_ne_zero (by omega : n ≠ 0)
    obtain ⟨-, -, hl, hr, hrl, hrr⟩ := h
    simp only [items, List.mem_append, List.mem_cons, not_or] at hnil
    simp only [items, List.length_append, List.length_cons] at hn
    rw [ptrOf, rbtreeSearch, if_pos (Ne.symm hnil.2.1), zoom, hl, hr]
    simp only [CString.strcmp_neg, gt_iff_lt, CString.strcmp_pos]
    split_ifs
    · exact ihl _ hrl hnil.1 (by omega)
    · exact ihr _ hrr hnil.2.2 (by omega)
    · rfl

def descentOf (nil : Ptr) (f : ColoredTree Ptr × Context Ptr) : Descent :=
  match f.1 with
  | leaf => .under (topOf nil f.2)
  | node _ _ _ _ => .exists

theorem descend_zoom {T : Rbtree} {z : Ptr} {t : ColoredTree Ptr} {q : Ptr} {n : ℕ} (k : Context Ptr)
    (h : Rep T q t) (hnil : T.nil ∉ t.items) (hn : t.items.length < n) :
    insertDescend T z n (ptrOf T.nil t) (topOf T.nil k) =
      some (descentOf T.nil (zoom T.key (T.key z) t k)) := by
  induction t generalizing q n k with
  | leaf =>
    obtain ⟨n, rfl⟩ := Nat.exists_eq_succ_of_ne_zero (by omega : n ≠ 0)
    simp [insertDescend, ptrOf, zoom, descentOf]
  | node c l x r ihl ihr =>
    obtain ⟨n, rfl⟩ := Nat.exists_eq_succ_of_ne_zero (by omega : n ≠ 0)
    obtain ⟨-, -, hl, hr, hrl, hrr⟩ := h
    simp only [items, List.mem_append, List.mem_cons, not_or] at hnil
    simp only [items, List.length_append, List.length_cons] at hn
    rw [ptrOf, insertDescend, if_pos (Ne.symm hnil.2.1), zoom, hl, hr]
    simp only [CString.strcmp_neg, gt_iff_lt, CString.strcmp_pos]
    split_ifs
    · exact ihl (⟨.left, c, x, r⟩ :: k) hrl hnil.1 (by omega)
    · exact ihr (⟨.right, c, x, l⟩ :: k) hrr hnil.2.2 (by omega)
    · rfl

theorem mini_leftmost {T : Rbtree} {t : ColoredTree Ptr} {q : Ptr} {n : ℕ} (h : Rep T q t)
    (hnil : T.nil ∉ t.items) (hn : t.items.length < n) (ht : t ≠ leaf) :
    ∃ k c y r, plug k (node c leaf y r) = t ∧ before k = [] ∧
      rbtreeMini T n (ptrOf T.nil t) = some y := by
  induction t generalizing q n with
  | leaf => exact absurd rfl ht
  | node c l x r ihl _ =>
    obtain ⟨n, rfl⟩ := Nat.exists_eq_succ_of_ne_zero (by omega : n ≠ 0)
    obtain ⟨-, -, hl, -, hrl, -⟩ := h
    simp only [items, List.mem_append, List.mem_cons, not_or] at hnil
    simp only [items, List.length_append, List.length_cons] at hn
    rw [ptrOf, rbtreeMini, hl]
    by_cases hleaf : l = leaf
    · subst hleaf
      exact ⟨[], c, x, r, rfl, rfl, by simp [ptrOf]⟩
    · obtain ⟨k, c', y, r', hp, hb, hm⟩ := ihl (n := n) hrl hnil.1 (by omega) hleaf
      have hne : ptrOf T.nil l ≠ T.nil := fun he => hleaf ((ptrOf_eq_nil hnil.1).mp he)
      refine ⟨k ++ [⟨.left, c, x, r⟩], c', y, r', ?_, ?_, ?_⟩
      · rw [plug_append, hp]; rfl
      · rw [before_append, hb]; rfl
      · rw [if_pos hne, hm]

end Lidis.Rbtree
