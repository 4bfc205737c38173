import Mathlib.Data.Int.DivMod
import Mathlib.Tactic.NormNum

namespace Lidis

def intMax : ℕ := 2147483647

/-- What an `int` of 32 bits holds when `z` is stored in it. -/
def toInt (z : ℤ) : ℤ := Int.bmod z (2 ^ 32)

theorem toInt_of_le {n : ℕ} (h : n ≤ intMax) : toInt n = n := by
  unfold toInt
  simp only [intMax] at h
  exact Int.bmod_eq_of_le (by norm_num) (by norm_num; omega)

theorem toInt_le (z : ℤ) : toInt z ≤ intMax := by
  have hlt : toInt z < _ := Int.bmod_lt (by norm_num)
  simp only [intMax]
  norm_num at hlt
  omega

theorem toInt_eq_iff {n : ℕ} : toInt n = n ↔ n ≤ intMax := by
  constructor
  · intro h
    have hle := toInt_le n
    omega
  · exact toInt_of_le

theorem toInt_toInt_add (a b : ℤ) : toInt (toInt a + b) = toInt (a + b) := Int.bmod_add_bmod

end Lidis
