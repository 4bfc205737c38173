import Lidis.Skiplist
import Mathlib.Data.List.Sublists
import Mathlib.Order.Basic

namespace Lidis.Skiplist

open Chain

def keyOf (S : Skiplist) (p : ℕ) : CString := (S.key p).getD ⟨[], List.not_mem_nil⟩

def tower (S : Skiplist) (i : ℕ) (l : List ℕ) : List ℕ := l.filter (fun p => i ≤ S.height p)

/-- The nodes are those of `l`, linked at every level through the ones tall enough for it. -/
structure Shape (S : Skiplist) (l : List ℕ) : Prop where
  header_ne : S.header ≠ 0
  header_height : S.height S.header = maxLevel
  nodup : (S.header :: l).Nodup
  nonzero : ∀ p ∈ l, p ≠ 0
  bound : ∀ p ∈ S.header :: l, p < S.next
  keyed : ∀ p ∈ l, S.key p = some (S.keyOf p)
  sorted : l.Pairwise (fun p q => S.keyOf p < S.keyOf q)
  linked : ∀ i ≤ maxLevel, Linked (fun p => S.forward p i) 0 S.header (S.tower i l)
  heights : ∀ p ∈ l, S.height p ≤ S.level
  level_lt : S.level < maxLevel
  top : S.level = 0 ∨ ∃ p ∈ l, S.height p = S.level

theorem mem_tower {S : Skiplist} {i p : ℕ} {l : List ℕ} : p ∈ S.tower i l ↔ p ∈ l ∧ i ≤ S.height p := by
  simp [tower]

theorem tower_append (S : Skiplist) (i : ℕ) (l m : List ℕ) : S.tower i (l ++ m) = S.tower i l ++ S.tower i m :=
  List.filter_append l m

theorem tower_cons_of_le {S : Skiplist} {i x : ℕ} {l : List ℕ} (h : i ≤ S.height x) :
    S.tower i (x :: l) = x :: S.tower i l :=
  List.filter_cons_of_pos (by simpa using h)

theorem tower_cons_of_lt {S : Skiplist} {i x : ℕ} {l : List ℕ} (h : S.height x < i) :
    S.tower i (x :: l) = S.tower i l :=
  List.filter_cons_of_neg (by simpa using h)

theorem tower_zero (S : Skiplist) (l : List ℕ) : S.tower 0 l = l := by simp [tower]

theorem tower_succ_sublist (S : Skiplist) (i : ℕ) (l : List ℕ) : (S.tower (i + 1) l).Sublist (S.tower i l) := by
  refine List.monotone_filter_right l ?_
  intro p hp
  simp only [decide_eq_true_eq] at hp ⊢
  omega

theorem tower_eq_nil {S : Skiplist} {i : ℕ} {l : List ℕ} (h : ∀ p ∈ l, S.height p < i) : S.tower i l = [] := by
  refine List.filter_eq_nil_iff.mpr ?_
  intro p hp
  have := h p hp
  simp only [decide_eq_true_eq]
  omega

theorem Shape.length_lt {S : Skiplist} {l : List ℕ} (h : Shape S l) : l.length < S.next :=
  length_lt_of_bound h.nodup h.bound

theorem Shape.fwd_eq {S : Skiplist} {l : List ℕ} (h : Shape S l) {i p : ℕ} (hi : i ≤ maxLevel)
    (hp : p ∈ S.header :: S.tower i l) : S.fwd p i = some (S.forward p i) := by
  rw [fwd, if_pos]
  rcases List.mem_cons.mp hp with rfl | hp
  · exact ⟨h.header_ne, h.header_height ▸ hi⟩
  · exact ⟨h.nonzero p (mem_tower.mp hp).1, (mem_tower.mp hp).2⟩

structure Cut (S : Skiplist) (a : CString) (l m : List ℕ) : Prop where
  shape : Shape S (l ++ m)
  lo : ∀ p ∈ l, S.keyOf p < a
  hi : ∀ p ∈ m, a ≤ S.keyOf p

theorem Shape.exists_cut {S : Skiplist} {l : List ℕ} (h : Shape S l) (a : CString) :
    ∃ l1 l2, l = l1 ++ l2 ∧ Cut S a l1 l2 := by
  have hsplit : ∀ xs : List ℕ, xs.Pairwise (fun p q => S.keyOf p < S.keyOf q) →
      ∃ l1 l2, xs = l1 ++ l2 ∧ (∀ p ∈ l1, S.keyOf p < a) ∧ ∀ p ∈ l2, a ≤ S.keyOf p := by
    intro xs hxs
    induction xs with
    | nil => exact ⟨[], [], rfl, by simp, by simp⟩
    | cons x xs ih =>
      obtain ⟨hx, hxs⟩ := List.pairwise_cons.mp hxs
      by_cases hlt : S.keyOf x < a
      · obtain ⟨l1, l2, rfl, h1, h2⟩ := ih hxs
        refine ⟨x :: l1, l2, rfl, ?_, h2⟩
        intro p hp
        rcases List.mem_cons.mp hp with rfl | hp
        · exact hlt
        · exact h1 p hp
      · refine ⟨[], x :: xs, rfl, by simp, ?_⟩
        intro p hp
        rcases List.mem_cons.mp hp with rfl | hp
        · exact not_lt.mp hlt
        · exact (not_lt.mp hlt).trans (hx p hp).le
  obtain ⟨l1, l2, rfl, h1, h2⟩ := hsplit l h.sorted
  exact ⟨l1, l2, rfl, h, h1, h2⟩

section Descent

variable {S : Skiplist} {a : CString} {l m : List ℕ}

theorem advance_lastOf {i n cur : ℕ} {xs ys : List ℕ} (hl : Linked (fun p => S.forward p i) 0 cur (xs ++ ys))
    (hf : ∀ p ∈ cur :: xs, S.fwd p i = some (S.forward p i))
    (hx : ∀ p ∈ xs, p ≠ 0 ∧ S.key p = some (S.keyOf p) ∧ S.keyOf p < a)
    (hy : ∀ p ∈ ys, p ≠ 0 ∧ S.key p = some (S.keyOf p) ∧ a ≤ S.keyOf p) (hn : xs.length < n) :
    S.advance a i n cur = some (lastOf cur xs) := by
  induction xs generalizing cur n with
  | nil =>
    obtain ⟨n, rfl⟩ := Nat.exists_eq_succ_of_ne_zero (by omega : n ≠ 0)
    rw [advance, hf cur List.mem_cons_self]
    cases ys with
    | nil =>
      have h0 : S.forward cur i = 0 := hl
      simp [h0, lastOf]
    | cons y ys =>
      obtain ⟨hy0, hyk, hya⟩ := hy y List.mem_cons_self
      have hfy : S.forward cur i = y := hl.1
      simp [hfy, hy0, hyk, hya, lastOf]
  | cons x xs ih =>
    obtain ⟨n, rfl⟩ := Nat.exists_eq_succ_of_ne_zero (by omega : n ≠ 0)
    obtain ⟨hx0, hxk, hxa⟩ := hx x List.mem_cons_self
    have hfx : S.forward cur i = x := hl.1
    rw [advance, hf cur List.mem_cons_self]
    have hrest := ih hl.2 (fun p hp => hf p (List.mem_cons_of_mem _ hp))
      (fun p hp => hx p (List.mem_cons_of_mem _ hp)) (Nat.lt_of_succ_lt_succ hn)
    simp [hfx, hx0, hxk, hxa, lastOf, hrest]

theorem Cut.advance (h : Cut S a l m) {i cur : ℕ} (hi : i ≤ maxLevel) (hc : cur ∈ S.header :: S.tower i l) :
    S.advance a i S.next cur = some (lastOf S.header (S.tower i l)) := by
  obtain ⟨xs, ys, hsplit, rfl⟩ := exists_lastOf hc
  have hlink := h.shape.linked i hi
  rw [tower_append, hsplit, List.append_assoc] at hlink
  have hys : ∀ p ∈ ys, p ∈ S.tower i l := fun p hp => by rw [hsplit]; exact List.mem_append_right _ hp
  have hmem : ∀ p ∈ lastOf S.header xs :: ys, p ∈ S.header :: S.tower i (l ++ m) := by
    intro p hp
    have hpl : p ∈ S.header :: S.tower i l := by
      rcases List.mem_cons.mp hp with rfl | hp
      · exact hc
      · exact List.mem_cons_of_mem _ (hys p hp)
    rw [tower_append]
    exact List.mem_append_left _ hpl
  rw [hsplit, lastOf_append]
  refine advance_lastOf hlink.drop (fun p hp => h.shape.fwd_eq hi (hmem p hp)) ?_ ?_ ?_
  · intro p hp
    have hpl := (mem_tower.mp (hys p hp)).1
    exact ⟨h.shape.nonzero p (List.mem_append_left _ hpl), h.shape.keyed p (List.mem_append_left _ hpl), h.lo p hpl⟩
  · intro p hp
    have hpm := (mem_tower.mp hp).1
    exact ⟨h.shape.nonzero p (List.mem_append_right _ hpm), h.shape.keyed p (List.mem_append_right _ hpm), h.hi p hpm⟩
  · have h1 := h.shape.length_lt
    have h2 : (S.tower i l).length ≤ l.length := List.length_filter_le _ _
    rw [hsplit] at h2
    simp only [List.length_append] at h1 h2
    omega

def preds (S : Skiplist) (l : List ℕ) (top : ℕ) (rest : ℕ → Option ℕ) (i : ℕ) : Option ℕ :=
  if i ≤ top then some (lastOf S.header (S.tower i l)) else rest i

theorem preds_zero (rest : ℕ → Option ℕ) :
    Function.update rest 0 (some (lastOf S.header (S.tower 0 l))) = preds S l 0 rest := by
  funext j
  by_cases hj : j = 0
  · subst hj; simp [preds]
  · simp [preds, hj]

theorem preds_succ (i : ℕ) (rest : ℕ → Option ℕ) :
    preds S l i (Function.update rest (i + 1) (some (lastOf S.header (S.tower (i + 1) l)))) =
      preds S l (i + 1) rest := by
  funext j
  rcases Nat.lt_trichotomy j (i + 1) with hj | rfl | hj
  · simp [preds, Nat.lt_succ_iff.mp hj, hj.le]
  · simp [preds]
  · simp [preds, hj.ne', show ¬ j ≤ i by omega, show ¬ j ≤ i + 1 by omega]

theorem Cut.descend (h : Cut S a l m) {size i cur : ℕ} {rest : ℕ → Option ℕ} (hi : i < maxLevel) (hs : i < size)
    (hc : cur ∈ S.header :: S.tower i l) :
    S.descend a size i cur rest = some (lastOf S.header l, preds S l i rest) := by
  induction i generalizing cur rest with
  | zero =>
    rw [Skiplist.descend, h.advance (Nat.zero_le _) hc]
    simp only [Option.bind_eq_bind, Option.bind_some, show ¬ size ≤ 0 by omega, ↓reduceIte, preds_zero]
    rw [tower_zero]
  | succ i ih =>
    rw [Skiplist.descend, h.advance hi.le hc]
    simp only [Option.bind_eq_bind, Option.bind_some, show ¬ size ≤ i + 1 by omega, ↓reduceIte]
    rw [ih (by omega) (by omega) ?_, preds_succ]
    exact ((tower_succ_sublist S i l).cons_cons S.header).subset (lastOf_mem _ _)

theorem Cut.find (h : Cut S a l m) {size : ℕ} (hs : S.level < size) :
    S.find a size =
      some (m.headD 0, preds S l S.level (fun _ => none), decide (∃ x ∈ m.head?, S.keyOf x = a)) := by
  have hlink := h.shape.linked 0 (Nat.zero_le _)
  rw [tower_zero] at hlink
  have hnext := hlink.next_lastOf
  have hmem : lastOf S.header l ∈ S.header :: S.tower 0 (l ++ m) := by
    rw [tower_zero]
    exact List.mem_append_left m (lastOf_mem S.header l)
  rw [Skiplist.find, h.descend h.shape.level_lt hs List.mem_cons_self]
  simp only [Option.bind_eq_bind, Option.bind_some, h.shape.fwd_eq (Nat.zero_le _) hmem, hnext]
  cases m with
  | nil => simp [isKey]
  | cons x m =>
    have hx : x ∈ l ++ x :: m := by simp
    simp [isKey, h.shape.nonzero x hx, h.shape.keyed x hx]

end Descent

end Lidis.Skiplist
