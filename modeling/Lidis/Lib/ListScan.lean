import Mathlib.Data.List.Basic

namespace Lidis

variable {α : Type}

def editFirst (p : α → Bool) (f : α → List α) : List α → Option (List α)
  | [] => none
  | x :: l => if p x then some (f x ++ l) else (editFirst p f l).map (x :: ·)

theorem editFirst_none {p : α → Bool} (f : α → List α) {l : List α} (h : ∀ x ∈ l, p x = false) :
    editFirst p f l = none := by
  induction l with
  | nil => rfl
  | cons x l ih =>
    rw [editFirst, ih (fun y hy => h y (List.mem_cons_of_mem x hy)), h x List.mem_cons_self]
    rfl

theorem editFirst_split {p : α → Bool} (f : α → List α) {a b : List α} {x : α} (ha : ∀ y ∈ a, p y = false)
    (hx : p x = true) : editFirst p f (a ++ x :: b) = some (a ++ f x ++ b) := by
  induction a with
  | nil => simp [editFirst, hx]
  | cons y a ih =>
    rw [List.cons_append, editFirst, ih (fun z hz => ha z (List.mem_cons_of_mem y hz)), ha y List.mem_cons_self]
    rfl

theorem editFirst_map {β : Type} {g : α → β} {p : β → Bool} {q : α → Bool} {f : β → List β} {f' : α → List α}
    (hp : ∀ x, p (g x) = q x) (hf : ∀ x, f (g x) = (f' x).map g) (l : List α) :
    editFirst p f (l.map g) = (editFirst q f' l).map (List.map g) := by
  induction l with
  | nil => rfl
  | cons x l ih =>
    rw [List.map_cons, editFirst, editFirst, ih, hp]
    split_ifs with hx
    · simp [hf]
    · cases editFirst q f' l <;> rfl

theorem find_split {p : α → Bool} {a b : List α} {x : α} (ha : ∀ y ∈ a, p y = false) (hx : p x = true) :
    (a ++ x :: b).find? p = some x := by
  have hn : a.find? p = none := by
    rw [List.find?_eq_none]
    intro y hy
    simp [ha y hy]
  rw [List.find?_append, hn, List.find?_cons_of_pos hx]
  rfl

theorem first_split (p : α → Bool) (l : List α) :
    (∀ x ∈ l, p x = false) ∨ ∃ a x b, l = a ++ x :: b ∧ (∀ y ∈ a, p y = false) ∧ p x = true := by
  induction l with
  | nil => exact Or.inl (by simp)
  | cons x l ih =>
    cases hx : p x with
    | true => exact Or.inr ⟨[], x, l, rfl, by simp, hx⟩
    | false =>
      rcases ih with h | ⟨a, y, b, rfl, ha, hy⟩
      · exact Or.inl (by simpa [hx] using h)
      · exact Or.inr ⟨x :: a, y, b, rfl, by simpa [hx] using ha, hy⟩

theorem editFirst_set {p : α → Bool} {y : α} {l l' : List α} (h : editFirst p (fun _ => [y]) l = some l') :
    ∃ i x, l[i]? = some x ∧ p x = true ∧ l' = l.set i y := by
  rcases first_split p l with hnone | ⟨a, x, b, rfl, ha, hx⟩
  · rw [editFirst_none _ hnone] at h
    cases h
  · rw [editFirst_split _ ha hx] at h
    exact ⟨a.length, x, by simp, hx, by simpa using (Option.some.inj h).symm⟩

theorem mem_of_editFirst_none {p : α → Bool} {f : α → List α} {l : List α} (h : editFirst p f l = none) {x : α} (hx : x ∈ l) :
    p x = false := by
  rcases first_split p l with hnone | ⟨a, y, b, rfl, ha, hy⟩
  · exact hnone x hx
  · rw [editFirst_split _ ha hy] at h
    cases h

theorem filterMap_range (l : List α) : (List.range l.length).filterMap (l[·]?) = l := by
  have hmap : (List.range l.length).map (l[·]?) = l.map some := by
    apply List.ext_getElem
    · simp
    · intro i hi _
      simp
  rw [← Function.id_comp (l[·]?), ← List.filterMap_map, hmap, List.filterMap_map]
  exact List.filterMap_some

end Lidis
