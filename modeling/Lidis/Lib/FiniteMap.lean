import Mathlib.Data.Finset.Card

namespace Lidis

structure FMap (K V : Type) where
  get : K → Option V
  dom : Finset K
  mem_dom : ∀ k, k ∈ dom ↔ (get k).isSome

namespace FMap

variable {K V : Type}

theorem ext_get {m n : FMap K V} (h : ∀ k, m.get k = n.get k) : m = n := by
  obtain ⟨f, s, hs⟩ := m
  obtain ⟨g, t, ht⟩ := n
  obtain rfl : f = g := funext h
  obtain rfl : s = t := Finset.ext (fun k => (hs k).trans (ht k).symm)
  rfl

theorem not_mem_dom (m : FMap K V) (k : K) : k ∉ m.dom ↔ m.get k = none := by
  rw [m.mem_dom, Bool.not_eq_true, Option.isSome_eq_false_iff, Option.isNone_iff_eq_none]

def size (m : FMap K V) : ℕ := m.dom.card

def empty : FMap K V := ⟨fun _ => none, ∅, by simp⟩

@[simp] theorem empty_get (k : K) : (empty : FMap K V).get k = none := rfl

@[simp] theorem empty_size : (empty : FMap K V).size = 0 := rfl

variable [DecidableEq K]

def insert (m : FMap K V) (k : K) (v : V) : FMap K V where
  get := Function.update m.get k (some v)
  dom := Insert.insert k m.dom
  mem_dom := by
    intro j
    by_cases hj : j = k
    · subst j; simp
    · simp [hj, m.mem_dom]

def erase (m : FMap K V) (k : K) : FMap K V where
  get := Function.update m.get k none
  dom := m.dom.erase k
  mem_dom := by
    intro j
    by_cases hj : j = k
    · subst j; simp
    · simp [hj, m.mem_dom]

theorem insert_get (m : FMap K V) (k j : K) (v : V) :
    (m.insert k v).get j = if j = k then some v else m.get j := by
  simp [insert, Function.update_apply]

theorem erase_get (m : FMap K V) (k j : K) :
    (m.erase k).get j = if j = k then none else m.get j := by
  simp [erase, Function.update_apply]

theorem insert_size_of_none (m : FMap K V) (k : K) (v : V) (h : m.get k = none) :
    (m.insert k v).size = m.size + 1 := by
  have hk : k ∉ m.dom := (m.not_mem_dom k).mpr h
  simp [size, insert, hk]

theorem insert_size_of_some (m : FMap K V) (k : K) (v w : V) (h : m.get k = some w) :
    (m.insert k v).size = m.size := by
  have hk : k ∈ m.dom := by simp [m.mem_dom, h]
  simp [size, insert, Finset.insert_eq_self.mpr hk]

theorem erase_size_of_some (m : FMap K V) (k : K) (w : V) (h : m.get k = some w) :
    (m.erase k).size + 1 = m.size := by
  have hk : k ∈ m.dom := by simp [m.mem_dom, h]
  simpa [size, erase] using Finset.card_erase_add_one hk

end FMap

inductive MapOp (K V : Type) where
  | set (k : K) (v : V)
  | get (k : K)
  | del (k : K)
  | mod (k : K) (v : V)
  | exist (k : K)
  deriving DecidableEq

namespace MapOp

variable {K V : Type}

def key : MapOp K V → K
  | .set k _ => k
  | .get k => k
  | .del k => k
  | .mod k _ => k
  | .exist k => k

end MapOp

inductive MapAnswer (V : Type) where
  | code (n : ℤ)
  | value (v : Option V)
  deriving DecidableEq

namespace FMap

variable {K V : Type} [DecidableEq K]

/-- How a map answers beyond the plain success code 0 and the `set` refusal 1. -/
structure Contract where
  capacity : Option ℕ
  delAbsent : ℤ
  modAbsent : ℤ

def Contract.plain : Contract := ⟨none, 1, 1⟩

def step (c : Contract) (m : FMap K V) : MapOp K V → FMap K V × MapAnswer V
  | .set k v =>
    if c.capacity = some m.size then (m, .code (-1))
    else if (m.get k).isSome then (m, .code 1) else (m.insert k v, .code 0)
  | .get k => (m, .value (m.get k))
  | .del k => if (m.get k).isSome then (m.erase k, .code 0) else (m, .code c.delAbsent)
  | .mod k v => if (m.get k).isSome then (m.insert k v, .code 0) else (m, .code c.modAbsent)
  | .exist k => (m, .code (if (m.get k).isSome then 0 else 1))

theorem step_get_of_ne (c : Contract) (m : FMap K V) (o : MapOp K V) (j : K) (h : j ≠ o.key) :
    (m.step c o).1.get j = m.get j := by
  cases o with
  | set k v => simp only [step]; split_ifs <;> simp [insert_get, show j ≠ k from h]
  | get k => rfl
  | del k => simp only [step]; split_ifs <;> simp [erase_get, show j ≠ k from h]
  | mod k v => simp only [step]; split_ifs <;> simp [insert_get, show j ≠ k from h]
  | exist k => rfl

end FMap

end Lidis
