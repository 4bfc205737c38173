import Mathlib.Algebra.Order.Ring.Nat
import Mathlib.Tactic.Ring

namespace Lidis

/-- The `k` lowest base-`b` digits of `x` in the opposite order. -/
def mirror (b : ℕ) : ℕ → ℕ → ℕ
  | 0, _ => 0
  | k + 1, x => x % b * b ^ k + mirror b k (x / b)

theorem mirror_add (b m k x : ℕ) : mirror b (m + k) x = mirror b m (x % b ^ m) * b ^ k + mirror b k (x / b ^ m) := by
  induction m generalizing x with
  | zero => simp [mirror]
  | succ m ih =>
    have hlow : x % b ^ (m + 1) % b = x % b := Nat.mod_mod_of_dvd x (dvd_pow_self b (Nat.succ_ne_zero m))
    have hnext : x % b ^ (m + 1) / b = x / b % b ^ m := by
      rw [pow_succ', Nat.mod_mul_right_div_self]
    have hhigh : x / b / b ^ m = x / b ^ (m + 1) := by
      rw [Nat.div_div_eq_div_mul, ← pow_succ']
    rw [Nat.add_right_comm, mirror, mirror, hlow, hnext, ih, hhigh, pow_add]
    ring

theorem mirror_of_lt {b m x : ℕ} (k : ℕ) (hx : x < b ^ m) : mirror b (m + k) x = mirror b m x * b ^ k := by
  have hzero : ∀ k, mirror b k 0 = 0 := by
    intro k
    induction k with
    | zero => rfl
    | succ k ih => rw [mirror, Nat.zero_div, ih, Nat.zero_mod, Nat.zero_mul]
  rw [mirror_add, Nat.mod_eq_of_lt hx, Nat.div_eq_of_lt hx, hzero, Nat.add_zero]

section

variable {b : ℕ} (hb : 0 < b)

include hb

theorem mirror_lt (k x : ℕ) : mirror b k x < b ^ k := by
  induction k generalizing x with
  | zero => exact Nat.one_pos
  | succ k ih =>
    have hdigit : x % b * b ^ k ≤ (b - 1) * b ^ k := by
      apply Nat.mul_le_mul_right
      have := Nat.mod_lt x hb
      omega
    have hsplit : b ^ (k + 1) = (b - 1) * b ^ k + b ^ k := by
      rw [pow_succ', ← Nat.succ_mul]
      congr 1
      omega
    rw [mirror, hsplit]
    exact Nat.add_lt_add_of_le_of_lt hdigit (ih (x / b))

theorem mirror_mirror (k x : ℕ) : mirror b k (mirror b k x) = x % b ^ k := by
  induction k generalizing x with
  | zero => rw [mirror, pow_zero, Nat.mod_one]
  | succ k ih =>
    have hpow : 0 < b ^ k := Nat.pow_pos hb
    have hlow : mirror b (k + 1) x % b ^ k = mirror b k (x / b) := by
      rw [mirror, Nat.mul_add_mod_self_right, Nat.mod_eq_of_lt (mirror_lt hb k (x / b))]
    have hhigh : mirror b (k + 1) x / b ^ k = x % b := by
      rw [mirror, Nat.mul_comm, Nat.mul_add_div hpow, Nat.div_eq_of_lt (mirror_lt hb k (x / b)), Nat.add_zero]
    rw [mirror_add b k 1, hlow, hhigh, ih, pow_one, mirror, mirror, pow_zero, Nat.mul_one, Nat.add_zero, Nat.mod_mod,
      pow_succ', Nat.mod_mul, Nat.mul_comm, Nat.add_comm]

end

end Lidis
