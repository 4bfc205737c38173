import Mathlib.Data.Finset.Card
import Mathlib.Data.Finset.Range
import Mathlib.Data.List.Basic
import Mathlib.Data.List.Nodup
import Mathlib.Logic.Function.Basic

namespace Lidis.Chain

variable {α : Type}

def Linked (next : α → α) (stop : α) : α → List α → Prop
  | a, [] => next a = stop
  | a, b :: l => next a = b ∧ Linked next stop b l

def lastOf : α → List α → α
  | a, [] => a
  | _, b :: l => lastOf b l

theorem lastOf_append (a : α) (l m : List α) : lastOf a (l ++ m) = lastOf (lastOf a l) m := by
  induction l generalizing a with
  | nil => rfl
  | cons b l ih => exact ih b

theorem lastOf_mem (a : α) (l : List α) : lastOf a l ∈ a :: l := by
  induction l generalizing a with
  | nil => exact List.mem_cons_self
  | cons b l ih => exact List.mem_cons_of_mem a (ih b)

theorem exists_lastOf {a x : α} {l : List α} (h : x ∈ a :: l) : ∃ m n, l = m ++ n ∧ lastOf a m = x := by
  rcases List.mem_cons.mp h with rfl | h
  · exact ⟨[], l, rfl, rfl⟩
  · obtain ⟨m, n, rfl⟩ := List.append_of_mem h
    exact ⟨m ++ [x], n, by simp, by rw [lastOf_append]; rfl⟩

theorem length_lt_of_bound {a b : ℕ} {xs : List ℕ} (hn : (a :: xs).Nodup) (hb : ∀ x ∈ a :: xs, x < b) :
    xs.length < b := by
  have hsub : (a :: xs).toFinset ⊆ Finset.range b := by
    intro x hx
    exact Finset.mem_range.mpr (hb x (List.mem_toFinset.mp hx))
  have hcard := Finset.card_le_card hsub
  rw [List.toFinset_card_of_nodup hn, Finset.card_range, List.length_cons] at hcard
  omega

namespace Linked

variable {next next' : α → α} {stop a x : α} {l m : List α}

theorem congr (h : Linked next stop a l) (he : ∀ y ∈ a :: l, next' y = next y) : Linked next' stop a l := by
  induction l generalizing a with
  | nil => exact (he a List.mem_cons_self).trans h
  | cons b l ih =>
    exact ⟨(he a List.mem_cons_self).trans h.1, ih h.2 (fun y hy => he y (List.mem_cons_of_mem a hy))⟩

theorem drop (h : Linked next stop a (l ++ m)) : Linked next stop (lastOf a l) m := by
  induction l generalizing a with
  | nil => exact h
  | cons b l ih => exact ih h.2

theorem next_lastOf (h : Linked next stop a (l ++ m)) : next (lastOf a l) = m.headD stop := by
  have hm := h.drop
  cases m with
  | nil => exact hm
  | cons b m => exact hm.1

theorem unique {l' : List α} (h : Linked next stop a l) (h' : Linked next stop a l') (hl : stop ∉ l) (hl' : stop ∉ l') :
    l = l' := by
  induction l generalizing a l' with
  | nil =>
    cases l' with
    | nil => rfl
    | cons b l' => exact absurd (h'.1.symm.trans h : b = stop) (fun hb => hl' (hb ▸ List.mem_cons_self))
  | cons b l ih =>
    cases l' with
    | nil => exact absurd (h.1.symm.trans h' : b = stop) (fun hb => hl (hb ▸ List.mem_cons_self))
    | cons c l' =>
      obtain rfl : b = c := h.1.symm.trans h'.1
      rw [ih h.2 h'.2 (fun hm => hl (List.mem_cons_of_mem _ hm)) (fun hm => hl' (List.mem_cons_of_mem _ hm))]

variable [DecidableEq α]

theorem insert (h : Linked next stop a (l ++ m)) (hnd : (a :: (l ++ m)).Nodup) (hx : x ∉ a :: (l ++ m)) :
    Linked (Function.update (Function.update next x (next (lastOf a l))) (lastOf a l) x) stop a (l ++ x :: m) := by
  induction l generalizing a with
  | nil =>
    simp only [List.nil_append, List.mem_cons, not_or] at h hx
    refine ⟨by simp [lastOf], ?_⟩
    obtain ⟨ham, -⟩ := List.nodup_cons.mp hnd
    have hxa : x ≠ a := hx.1
    cases m with
    | nil =>
      simp only [Linked] at h ⊢
      simp [lastOf, hxa, h]
    | cons b m =>
      refine ⟨by simp [lastOf, hxa, h.1], h.2.congr ?_⟩
      intro y hy
      have hya : y ≠ a := fun he => ham (he ▸ hy)
      have hyx : y ≠ x := fun he => hx.2 (he ▸ hy)
      simp [lastOf, hya, hyx]
  | cons b l ih =>
    obtain ⟨hab, hnd'⟩ := List.nodup_cons.mp hnd
    have hx' : x ∉ b :: (l ++ m) := fun hm => hx (List.mem_cons_of_mem a hm)
    have hne : lastOf b l ≠ a := by
      intro he
      have hmem := lastOf_mem b l
      rw [he] at hmem
      exact hab (List.mem_append_left m hmem)
    have hxa : a ≠ x := fun he => hx (he ▸ List.mem_cons_self)
    exact ⟨by simpa [lastOf, Ne.symm hne, hxa] using h.1, ih h.2 hnd' hx'⟩

theorem remove (h : Linked next stop a (l ++ x :: m)) (hnd : (a :: (l ++ x :: m)).Nodup) :
    Linked (Function.update next (lastOf a l) (next x)) stop a (l ++ m) := by
  induction l generalizing a with
  | nil =>
    obtain ⟨ham, -⟩ := List.nodup_cons.mp hnd
    obtain ⟨-, hm⟩ := h
    cases m with
    | nil =>
      simp only [Linked] at hm
      simp [Linked, lastOf, hm]
    | cons b m =>
      refine ⟨by simpa [lastOf] using hm.1, hm.2.congr ?_⟩
      intro y hy
      have hya : y ≠ a := fun he => ham (he ▸ List.mem_cons_of_mem x hy)
      simp [lastOf, hya]
  | cons b l ih =>
    obtain ⟨hab, hnd'⟩ := List.nodup_cons.mp hnd
    have hne : lastOf b l ≠ a := by
      intro he
      have hmem := lastOf_mem b l
      rw [he] at hmem
      exact hab (List.mem_append_left _ hmem)
    exact ⟨by simpa [lastOf, Ne.symm hne] using h.1, ih h.2 hnd'⟩

end Linked

def Heads (next : α → α) (stop head : α) : List α → Prop
  | [] => head = stop
  | b :: l => head = b ∧ Linked next stop b l

namespace Heads

variable {next next' : α → α} {stop head a : α} {l : List α}

theorem linked_iff : Linked next stop a l ↔ Heads next stop (next a) l := by
  cases l with
  | nil => exact Iff.rfl
  | cons b l => exact Iff.rfl

theorem congr (h : Heads next stop head l) (he : ∀ y ∈ l, next' y = next y) : Heads next' stop head l := by
  cases l with
  | nil => exact h
  | cons b l => exact ⟨h.1, h.2.congr he⟩

end Heads

end Lidis.Chain
