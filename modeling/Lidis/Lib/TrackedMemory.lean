import Lidis.Lib.CString

namespace Lidis

/-- A memory together with the addresses read or written so far. -/
structure Tracked where
  mem : Bytes
  touched : List ℕ

/-- A computation over a memory that keeps track of its accesses, and may return early. -/
def Access (α : Type) := Tracked → Option α × Tracked

namespace Access

variable {α β : Type}

def fail : Access α := fun s => (none, s)

def load (i : ℕ) : Access UInt8 := fun s => (some (s.mem.getD i 0), ⟨s.mem, i :: s.touched⟩)

def store (i : ℕ) (c : UInt8) : Access Unit := fun s => (some (), ⟨s.mem.set i c, i :: s.touched⟩)

instance : Monad Access where
  pure a := fun s => (some a, s)
  bind m f := fun s =>
    match m s with
    | (none, s) => (none, s)
    | (some a, s) => f a s

theorem bind_run {m : Access α} {f : α → Access β} {s s' : Tracked} {a : α} (h : m s = (some a, s')) :
    (m >>= f) s = f a s' := by
  simp only [bind, h]

theorem bind_run_none {m : Access α} {f : α → Access β} {s s' : Tracked} (h : m s = (none, s')) :
    (m >>= f) s = (none, s') := by
  simp only [bind, h]

@[simp] theorem load_bind (i : ℕ) (f : UInt8 → Access β) (s : Tracked) :
    (load i >>= f) s = f (s.mem.getD i 0) ⟨s.mem, i :: s.touched⟩ := rfl

@[simp] theorem store_bind (i : ℕ) (c : UInt8) (f : Unit → Access β) (s : Tracked) :
    (store i c >>= f) s = f () ⟨s.mem.set i c, i :: s.touched⟩ := rfl

@[simp] theorem pure_bind (a : α) (f : α → Access β) (s : Tracked) : ((pure a : Access α) >>= f) s = f a s := rfl

@[simp] theorem pure_run (a : α) (s : Tracked) : (pure a : Access α) s = (some a, s) := rfl

@[simp] theorem fail_run (s : Tracked) : (fail : Access α) s = (none, s) := rfl

def Keeps (P : ℕ → Prop) (m : Access α) (Q : α → Prop) : Prop :=
  ∀ s, (∀ i ∈ s.touched, P i) → (∀ i ∈ (m s).2.touched, P i) ∧ ∀ a ∈ (m s).1, Q a

section Rules

variable {P : ℕ → Prop} {Q : α → Prop} {R : β → Prop}

theorem keeps_pure {a : α} (h : Q a) : Keeps P (pure a) Q := by
  intro s hs
  refine ⟨hs, ?_⟩
  intro b hb
  obtain rfl := Option.some.inj hb
  exact h

theorem keeps_fail : Keeps P (fail : Access α) Q := by
  intro s hs
  exact ⟨hs, by simp⟩

theorem keeps_load {i : ℕ} (h : P i) : Keeps P (load i) (fun _ => True) := by
  intro s hs
  refine ⟨?_, fun _ _ => trivial⟩
  rintro j (_ | ⟨_, hj⟩)
  · exact h
  · exact hs j hj

theorem keeps_store {i : ℕ} {c : UInt8} (h : P i) : Keeps P (store i c) (fun _ => True) := by
  intro s hs
  refine ⟨?_, fun _ _ => trivial⟩
  rintro j (_ | ⟨_, hj⟩)
  · exact h
  · exact hs j hj

theorem keeps_ite {c : Prop} [Decidable c] {m m' : Access α} (ht : c → Keeps P m Q) (he : ¬ c → Keeps P m' Q) :
    Keeps P (if c then m else m') Q := by
  by_cases h : c
  · rw [if_pos h]
    exact ht h
  · rw [if_neg h]
    exact he h

theorem keeps_bind {m : Access α} {f : α → Access β} (hm : Keeps P m Q) (hf : ∀ a, Q a → Keeps P (f a) R) :
    Keeps P (m >>= f) R := by
  intro s hs
  obtain ⟨ht, hq⟩ := hm s hs
  rcases hr : m s with ⟨_ | a, s'⟩
  · rw [bind_run_none hr]
    rw [hr] at ht
    exact ⟨ht, by simp⟩
  · rw [bind_run hr]
    rw [hr] at ht hq
    exact hf a (hq a rfl) s' ht

end Rules

end Access

end Lidis
