import Mathlib.Data.List.Basic
import Mathlib.Data.List.Nodup
import Mathlib.Logic.Function.Basic

namespace Lidis.DoublyLinked

variable {α : Type}

structure Links (α : Type) where
  prev : α → α
  next : α → α

def Segment (l : Links α) : α → List α → α → Prop
  | _, [], _ => True
  | p, x :: xs, n => l.prev x = p ∧ l.next x = xs.headD n ∧ Segment l x xs n

namespace Segment

variable {l l' : Links α} {p n x : α} {xs ys : List α}

theorem congr (h : Segment l p xs n) (hp : ∀ x ∈ xs, l'.prev x = l.prev x)
    (hn : ∀ x ∈ xs, l'.next x = l.next x) : Segment l' p xs n := by
  induction xs generalizing p with
  | nil => trivial
  | cons x xs ih =>
    obtain ⟨hprev, hnext, hrest⟩ := h
    refine ⟨(hp x List.mem_cons_self).trans hprev, (hn x List.mem_cons_self).trans hnext, ih hrest ?_ ?_⟩
    · exact fun y hy => hp y (List.mem_cons_of_mem x hy)
    · exact fun y hy => hn y (List.mem_cons_of_mem x hy)

theorem append_iff : Segment l p (xs ++ ys) n ↔ Segment l p xs (ys.headD n) ∧ Segment l (xs.getLastD p) ys n := by
  induction xs generalizing p with
  | nil => simp [Segment]
  | cons x xs ih =>
    have hhead : (xs ++ ys).headD n = xs.headD (ys.headD n) := by cases xs <;> rfl
    have hlast : (x :: xs).getLastD p = xs.getLastD x := by cases xs <;> rfl
    simp only [List.cons_append, Segment, ih, hhead, hlast, and_assoc]

variable [DecidableEq α] {null : α}

theorem set_prev {f : α → α} (h : Segment l p xs n) (hnull : null ∉ xs) (hnd : xs.Nodup) (q : α)
    (hf : f = if xs.headD null ≠ null then Function.update l.prev (xs.headD null) q else l.prev) :
    Segment ⟨f, l.next⟩ q xs n := by
  cases xs with
  | nil => trivial
  | cons x xs =>
    have hx : x ≠ null := fun he => hnull (he ▸ List.mem_cons_self)
    obtain ⟨hxs, -⟩ := List.nodup_cons.mp hnd
    have hf' : f = Function.update l.prev x q := by rw [hf, List.headD_cons, if_pos hx]
    subst hf'
    obtain ⟨-, hnext, hrest⟩ := h
    refine ⟨Function.update_self x q l.prev, hnext, hrest.congr ?_ (fun y hy => rfl)⟩
    intro y hy
    have hne : y ≠ x := fun he => hxs (he ▸ hy)
    exact Function.update_of_ne hne q l.prev

theorem set_next {f : α → α} (h : Segment l p xs n) (hnull : null ∉ xs) (hnd : xs.Nodup) (q : α)
    (hf : f = if xs.getLastD null ≠ null then Function.update l.next (xs.getLastD null) q else l.next) :
    Segment ⟨l.prev, f⟩ p xs q := by
  rcases List.eq_nil_or_concat xs with rfl | ⟨ys, y, rfl⟩
  · trivial
  · rw [List.concat_eq_append] at *
    have hy : y ≠ null := fun he => hnull (he ▸ by simp)
    have hys : y ∉ ys := fun hm => (List.nodup_append.mp hnd).2.2 y hm y (by simp) rfl
    have hf' : f = Function.update l.next y q := by rw [hf, List.getLastD_concat, if_pos hy]
    subst hf'
    obtain ⟨hfirst, hprev, -, -⟩ := append_iff.mp h
    refine append_iff.mpr ⟨hfirst.congr (fun z hz => rfl) ?_, hprev, Function.update_self y q l.next, trivial⟩
    intro z hz
    have hne : z ≠ y := fun he => hys (he ▸ hz)
    exact Function.update_of_ne hne q l.next

end Segment

namespace Links

variable [DecidableEq α]

def insert (l : Links α) (null list item : α) : Links α where
  prev := Function.update (if list ≠ null then Function.update l.prev list item else l.prev) item null
  next := Function.update l.next item list

def bypassPrev (l : Links α) (null item : α) : α → α :=
  if l.next item ≠ null then Function.update l.prev (l.next item) (l.prev item) else l.prev

def bypassNext (l : Links α) (null item : α) : α → α :=
  if l.bypassPrev null item item ≠ null then
    Function.update l.next (l.bypassPrev null item item) (l.next item)
  else l.next

def remove (l : Links α) (null item : α) : Links α where
  prev := Function.update (l.bypassPrev null item) item null
  next := Function.update (l.bypassNext null item) item null

def headAfter (l : Links α) (null list item : α) : α :=
  if item = list then l.bypassNext null item list else list

variable {l : Links α} {null list item x y : α} {xs ys : List α}

theorem insert_prev_of_ne (hl : x ≠ list) (hi : x ≠ item) : (l.insert null list item).prev x = l.prev x := by
  simp only [insert, Function.update_of_ne hi]
  split
  · exact Function.update_of_ne hl _ _
  · rfl

theorem insert_next_of_ne (hi : x ≠ item) : (l.insert null list item).next x = l.next x := by
  rw [insert]
  exact Function.update_of_ne hi _ _

theorem segment_insert (h : Segment l null xs null) (hnd : xs.Nodup) (hnull : null ∉ xs) (hx : x ∉ xs) :
    Segment (l.insert null (xs.headD null) x) null (x :: xs) null := by
  have hself : (l.insert null (xs.headD null) x).prev x = null ∧
      (l.insert null (xs.headD null) x).next x = xs.headD null := by
    constructor <;> simp [insert]
  refine ⟨hself.1, hself.2, ?_⟩
  have hset := h.set_prev hnull hnd x rfl
  apply hset.congr
  · intro y hy
    have hne : y ≠ x := fun he => hx (he ▸ hy)
    simp [insert, hne]
  · intro y hy
    exact insert_next_of_ne (fun he => hx (he ▸ hy))

theorem bypassPrev_of_ne (hn : y ≠ l.next item) : l.bypassPrev null item y = l.prev y := by
  rw [bypassPrev]
  split
  · exact Function.update_of_ne hn _ _
  · rfl

theorem bypassNext_of_ne (hp : y ≠ l.bypassPrev null item item) : l.bypassNext null item y = l.next y := by
  rw [bypassNext]
  split
  · exact Function.update_of_ne hp _ _
  · rfl

theorem remove_prev_of_ne (hi : y ≠ item) : (l.remove null item).prev y = l.bypassPrev null item y := by
  rw [remove]
  exact Function.update_of_ne hi _ _

theorem remove_next_of_ne (hi : y ≠ item) : (l.remove null item).next y = l.bypassNext null item y := by
  rw [remove]
  exact Function.update_of_ne hi _ _

section Bypass

variable (h : Segment l null (xs ++ x :: ys) null) (hnd : (xs ++ x :: ys).Nodup) (hnull : null ∉ xs ++ x :: ys)
include h

omit [DecidableEq α] in
theorem prev_of_segment : l.prev x = xs.getLastD null :=
  (Segment.append_iff.mp h).2.1

omit [DecidableEq α] in
theorem next_of_segment : l.next x = ys.headD null :=
  (Segment.append_iff.mp h).2.2.1

theorem bypassPrev_eq : l.bypassPrev null x =
    if ys.headD null ≠ null then Function.update l.prev (ys.headD null) (xs.getLastD null) else l.prev := by
  rw [bypassPrev, prev_of_segment h, next_of_segment h]

include hnd hnull

omit [DecidableEq α] in
theorem not_headD : x ≠ ys.headD null := by
  intro he
  cases ys with
  | nil => exact hnull (he ▸ by simp)
  | cons y ys =>
    have hx : x ∉ y :: ys := (List.nodup_cons.mp (List.nodup_append.mp hnd).2.1).1
    exact hx (he ▸ List.mem_cons_self)

theorem bypassPrev_item : l.bypassPrev null x x = xs.getLastD null := by
  rw [bypassPrev_of_ne (next_of_segment h ▸ not_headD h hnd hnull), prev_of_segment h]

theorem bypassNext_eq : l.bypassNext null x =
    if xs.getLastD null ≠ null then Function.update l.next (xs.getLastD null) (ys.headD null) else l.next := by
  rw [bypassNext, bypassPrev_item h hnd hnull, next_of_segment h]

theorem segment_remove : Segment (l.remove null x) null (xs ++ ys) null := by
  obtain ⟨hndx, hndy, hdis⟩ := List.nodup_append.mp hnd
  obtain ⟨hxy, hndy⟩ := List.nodup_cons.mp hndy
  have hxx : x ∉ xs := fun hm => hdis x hm x List.mem_cons_self rfl
  have hnx : null ∉ xs := fun hm => hnull (List.mem_append_left _ hm)
  have hny : null ∉ ys := fun hm => hnull (List.mem_append_right _ (List.mem_cons_of_mem x hm))
  have hlast : ∀ y ∈ ys, y ≠ xs.getLastD null := by
    rintro y hy rfl
    rcases List.eq_nil_or_concat xs with rfl | ⟨zs, z, rfl⟩
    · exact hny hy
    · simp only [List.concat_eq_append, List.getLastD_concat] at hy hdis
      exact hdis z (by simp) z (List.mem_cons_of_mem x hy) rfl
  have hhead : ∀ y ∈ xs, y ≠ ys.headD null := by
    rintro y hy rfl
    cases ys with
    | nil => exact hnx hy
    | cons z zs => exact hdis z hy z (by simp) rfl
  obtain ⟨hleft, -, -, hright⟩ := Segment.append_iff.mp h
  apply Segment.append_iff.mpr
  constructor
  · apply (hleft.set_next hnx hndx (ys.headD null) rfl).congr
    · intro y hy
      have hne : y ≠ x := fun he => hxx (he ▸ hy)
      rw [remove_prev_of_ne hne, bypassPrev_of_ne (next_of_segment h ▸ hhead y hy)]
    · intro y hy
      have hne : y ≠ x := fun he => hxx (he ▸ hy)
      rw [remove_next_of_ne hne, bypassNext_eq h hnd hnull]
  · apply (hright.set_prev hny hndy (xs.getLastD null) rfl).congr
    · intro y hy
      have hne : y ≠ x := fun he => hxy (he ▸ hy)
      rw [remove_prev_of_ne hne, bypassPrev_eq h]
    · intro y hy
      have hne : y ≠ x := fun he => hxy (he ▸ hy)
      have hp : y ≠ l.bypassPrev null x x := bypassPrev_item h hnd hnull ▸ hlast y hy
      rw [remove_next_of_ne hne, bypassNext_of_ne hp]

theorem headAfter_eq : l.headAfter null ((xs ++ x :: ys).headD null) x = (xs ++ ys).headD null := by
  cases xs with
  | nil =>
    have hp : x ≠ l.bypassPrev null x x := by
      rw [bypassPrev_item h hnd hnull]
      exact fun he => hnull (he ▸ by simp)
    rw [headAfter, List.nil_append, List.headD_cons, if_pos rfl, bypassNext_of_ne hp, next_of_segment h]
    rfl
  | cons z zs =>
    have hne : x ≠ z := by
      rintro rfl
      simp at hnd
    rw [headAfter, List.cons_append, List.headD_cons, if_neg hne]
    rfl

end Bypass

end Links

variable {κ : Type}

/-- Several lists through the same links: the list `k` begins at `heads k`, no node is in two of them. -/
structure Lists (l : Links α) (null : α) (heads : κ → α) (xs : κ → List α) : Prop where
  head : ∀ k, heads k = (xs k).headD null
  segment : ∀ k, Segment l null (xs k) null
  nodup : ∀ k, (xs k).Nodup
  disjoint : ∀ {k k' x}, x ∈ xs k → x ∈ xs k' → k = k'
  null_notMem : ∀ k, null ∉ xs k

namespace Lists

variable {l : Links α} {null x : α} {heads : κ → α} {xs : κ → List α} {k : κ}

theorem head_eq_null_iff (h : Lists l null heads xs) : heads k = null ↔ xs k = [] := by
  rw [h.head k]
  constructor
  · intro he
    cases hk : xs k with
    | nil => rfl
    | cons y ys =>
      rw [hk, List.headD_cons] at he
      exact absurd (he ▸ hk ▸ List.mem_cons_self : null ∈ xs k) (h.null_notMem k)
  · intro he
    rw [he]
    rfl

theorem head_mem (h : Lists l null heads xs) (hk : heads k ≠ null) : heads k ∈ xs k := by
  have hne : xs k ≠ [] := fun he => hk (h.head_eq_null_iff.mpr he)
  rw [h.head k]
  cases hx : xs k with
  | nil => exact absurd hx hne
  | cons y ys => exact List.mem_cons_self

theorem next_mem (h : Lists l null heads xs) (hx : x ∈ xs k) : l.next x = null ∨ l.next x ∈ xs k := by
  obtain ⟨as, bs, hk⟩ := List.append_of_mem hx
  rw [Links.next_of_segment (hk ▸ h.segment k), hk]
  cases bs with
  | nil => exact .inl rfl
  | cons b bs => exact .inr (by simp)

theorem prev_mem (h : Lists l null heads xs) (hx : x ∈ xs k) : l.prev x = null ∨ l.prev x ∈ xs k := by
  obtain ⟨as, bs, hk⟩ := List.append_of_mem hx
  rw [Links.prev_of_segment (hk ▸ h.segment k), hk]
  rcases List.eq_nil_or_concat as with rfl | ⟨cs, c, rfl⟩
  · exact .inl rfl
  · exact .inr (by simp)

variable [DecidableEq α] [DecidableEq κ]

theorem insert (h : Lists l null heads xs) (hx : ∀ k, x ∉ xs k) (hn : x ≠ null) (k : κ) :
    Lists (l.insert null (heads k) x) null (Function.update heads k x) (Function.update xs k (x :: xs k)) := by
  constructor
  · intro j
    rcases eq_or_ne j k with rfl | hj
    · simp
    · simpa [hj] using h.head j
  · intro j
    rcases eq_or_ne j k with rfl | hj
    · rw [Function.update_self, h.head j]
      exact Links.segment_insert (h.segment j) (h.nodup j) (h.null_notMem j) (hx j)
    · rw [Function.update_of_ne hj]
      apply (h.segment j).congr
      · intro y hy
        apply Links.insert_prev_of_ne
        · rintro rfl
          have hnull : heads k ≠ null := fun he => h.null_notMem j (he ▸ hy)
          exact hj (h.disjoint hy (h.head_mem hnull))
        · exact fun he => hx j (he ▸ hy)
      · intro y hy
        exact Links.insert_next_of_ne (fun he => hx j (he ▸ hy))
  · intro j
    rcases eq_or_ne j k with rfl | hj
    · rw [Function.update_self]
      exact List.nodup_cons.mpr ⟨hx j, h.nodup j⟩
    · rw [Function.update_of_ne hj]
      exact h.nodup j
  · intro i j y hi hj
    have hcase : ∀ i, y ∈ Function.update xs k (x :: xs k) i → y = x ∧ i = k ∨ y ∈ xs i := by
      intro i hi
      rcases eq_or_ne i k with rfl | hne
      · rw [Function.update_self] at hi
        exact (List.mem_cons.mp hi).imp (fun he => ⟨he, rfl⟩) id
      · rw [Function.update_of_ne hne] at hi
        exact .inr hi
    rcases hcase i hi with ⟨rfl, hik⟩ | hi' <;> rcases hcase j hj with ⟨he, hjk⟩ | hj'
    · rw [hik, hjk]
    · exact absurd hj' (hx j)
    · exact absurd (he ▸ hi') (hx i)
    · exact h.disjoint hi' hj'
  · intro j
    rcases eq_or_ne j k with rfl | hj
    · rw [Function.update_self]
      exact fun hm => (List.mem_cons.mp hm).elim (fun he => hn he.symm) (h.null_notMem j)
    · rw [Function.update_of_ne hj]
      exact h.null_notMem j

theorem remove (h : Lists l null heads xs) (hx : x ∈ xs k) :
    Lists (l.remove null x) null (Function.update heads k (l.headAfter null (heads k) x))
      (Function.update xs k ((xs k).erase x)) := by
  obtain ⟨as, bs, hk⟩ := List.append_of_mem hx
  have hseg := hk ▸ h.segment k
  have hnd := hk ▸ h.nodup k
  have hnull := hk ▸ h.null_notMem k
  have hxas : x ∉ as := fun hm => (List.nodup_append.mp hnd).2.2 x hm x List.mem_cons_self rfl
  have herase : (xs k).erase x = as ++ bs := by
    rw [hk, List.erase_append_right _ hxas, List.erase_cons_head]
  have hsub : ∀ j y, y ∈ Function.update xs k ((xs k).erase x) j → y ∈ xs j := by
    intro j y hy
    rcases eq_or_ne j k with rfl | hj
    · rw [Function.update_self] at hy
      exact List.mem_of_mem_erase hy
    · rwa [Function.update_of_ne hj] at hy
  constructor
  · intro j
    rcases eq_or_ne j k with rfl | hj
    · rw [Function.update_self, Function.update_self, h.head j, hk, ← hk, herase, hk]
      exact Links.headAfter_eq hseg hnd hnull
    · simpa [hj] using h.head j
  · intro j
    rcases eq_or_ne j k with rfl | hj
    · rw [Function.update_self, herase]
      exact Links.segment_remove hseg hnd hnull
    · have hother : ∀ y ∈ xs j, ∀ z, z = null ∨ z ∈ xs k → y ≠ z := by
        rintro y hy z (rfl | hz) rfl
        · exact h.null_notMem j hy
        · exact hj (h.disjoint hy hz)
      rw [Function.update_of_ne hj]
      apply (h.segment j).congr
      · intro y hy
        rw [Links.remove_prev_of_ne (hother y hy x (.inr hx)), Links.bypassPrev_of_ne]
        exact hother y hy _ (h.next_mem hx)
      · intro y hy
        rw [Links.remove_next_of_ne (hother y hy x (.inr hx)), Links.bypassNext_of_ne]
        rw [Links.bypassPrev_item hseg hnd hnull, ← Links.prev_of_segment hseg]
        exact hother y hy _ (h.prev_mem hx)
  · intro j
    rcases eq_or_ne j k with rfl | hj
    · rw [Function.update_self]
      exact (h.nodup j).erase x
    · rw [Function.update_of_ne hj]
      exact h.nodup j
  · intro i j y hi hj
    exact h.disjoint (hsub i y hi) (hsub j y hj)
  · intro j hm
    exact h.null_notMem j (hsub j null hm)

theorem mem_remove_iff (h : Lists l null heads xs) (hx : x ∈ xs k) {y : α} (j : κ) :
    y ∈ Function.update xs k ((xs k).erase x) j ↔ y ≠ x ∧ y ∈ xs j := by
  rcases eq_or_ne j k with rfl | hj
  · rw [Function.update_self]
    exact (h.nodup j).mem_erase_iff
  · rw [Function.update_of_ne hj]
    constructor
    · intro hy
      exact ⟨fun he => hj (h.disjoint hy (he ▸ hx)), hy⟩
    · exact And.right

omit [DecidableEq α] in
theorem clear (h : Lists l null heads xs) (k : κ) :
    Lists l null (Function.update heads k null) (Function.update xs k []) := by
  have hsub : ∀ {j x}, x ∈ Function.update xs k [] j → x ∈ xs j := by
    intro j x hx
    rcases eq_or_ne j k with rfl | hj
    · simp at hx
    · rwa [Function.update_of_ne hj] at hx
  refine ⟨?_, ?_, ?_, fun hx hx' => h.disjoint (hsub hx) (hsub hx'), fun j hj => h.null_notMem j (hsub hj)⟩
  all_goals
    intro j
    rcases eq_or_ne j k with rfl | hj
  · simp
  · rw [Function.update_of_ne hj, Function.update_of_ne hj, h.head j]
  · rw [Function.update_self]
    trivial
  · rw [Function.update_of_ne hj]
    exact h.segment j
  · simp
  · rw [Function.update_of_ne hj]
    exact h.nodup j

end Lists

end Lidis.DoublyLinked
