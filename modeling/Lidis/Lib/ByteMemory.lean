import Mathlib.Algebra.Group.Nat.Defs
import Mathlib.Data.Nat.Notation
import Mathlib.Logic.Function.Basic

namespace Lidis.ByteMemory

def load (m : ℕ → UInt8) (a : ℕ) : ℕ → ℕ
  | 0 => 0
  | n + 1 => (m a).toNat + 256 * load m (a + 1) n

def store (m : ℕ → UInt8) (a v : ℕ) : ℕ → (ℕ → UInt8)
  | 0 => m
  | n + 1 => store (Function.update m a (UInt8.ofNat v)) (a + 1) (v / 256) n

def copy (m : ℕ → UInt8) (dst src n : ℕ) : ℕ → UInt8 :=
  fun x => if dst ≤ x ∧ x < dst + n then m (src + (x - dst)) else m x

def Apart (a n b k : ℕ) : Prop :=
  a + n ≤ b ∨ b + k ≤ a

theorem Apart.symm {a n b k : ℕ} (h : Apart a n b k) : Apart b k a n :=
  Or.symm h

theorem Apart.mono {a n b k a' n' b' k' : ℕ} (h : Apart a n b k) (ha : a ≤ a') (hn : a' + n' ≤ a + n)
    (hb : b ≤ b') (hk : b' + k' ≤ b + k) : Apart a' n' b' k' := by
  rcases h with h | h
  · exact .inl (by omega)
  · exact .inr (by omega)

def SameOutside (m m' : ℕ → UInt8) (a n : ℕ) : Prop :=
  ∀ x, x < a ∨ a + n ≤ x → m' x = m x

theorem load_congr {m m' : ℕ → UInt8} {a n : ℕ} (h : ∀ x, a ≤ x → x < a + n → m' x = m x) :
    load m' a n = load m a n := by
  induction n generalizing a with
  | zero => rfl
  | succ n ih =>
    have hrest := @ih (a + 1) (fun x hx hn => h x (by omega) (by omega))
    rw [load, load, h a (Nat.le_refl a) (by omega), hrest]

theorem store_sameOutside (m : ℕ → UInt8) (a v n : ℕ) : SameOutside m (store m a v n) a n := by
  induction n generalizing m a v with
  | zero => exact fun x _ => rfl
  | succ n ih =>
    intro x hx
    rw [store, ih _ _ _ x (by omega)]
    exact Function.update_of_ne (by omega) _ _

theorem copy_sameOutside (m : ℕ → UInt8) (dst src n : ℕ) : SameOutside m (copy m dst src n) dst n := by
  intro x hx
  exact if_neg (by omega)

theorem copy_apply {m : ℕ → UInt8} {dst src n i : ℕ} (hi : i < n) : copy m dst src n (dst + i) = m (src + i) := by
  rw [copy, if_pos (by omega), Nat.add_sub_cancel_left]

theorem load_store (m : ℕ → UInt8) (a v n : ℕ) : load (store m a v n) a n = v % 256 ^ n := by
  induction n generalizing m a v with
  | zero => simp [load, Nat.mod_one]
  | succ n ih =>
    have hfirst : store m a v (n + 1) a = UInt8.ofNat v := by
      rw [store, store_sameOutside _ _ _ _ a (by omega)]
      exact Function.update_self a _ m
    have hrest : load (store m a v (n + 1)) (a + 1) n = v / 256 % 256 ^ n := by
      rw [store, ih]
    have hbyte : (UInt8.ofNat v).toNat = v % 256 := UInt8.toNat_ofNat'
    rw [load, hfirst, hrest, hbyte, pow_succ', Nat.mod_mul]

theorem load_store_of_lt {m : ℕ → UInt8} {a v n : ℕ} (h : v < 256 ^ n) : load (store m a v n) a n = v := by
  rw [load_store, Nat.mod_eq_of_lt h]

namespace SameOutside

variable {m m' m'' : ℕ → UInt8} {a n b k : ℕ}

theorem load (h : SameOutside m m' a n) (hap : Apart b k a n) : load m' b k = load m b k := by
  apply load_congr
  intro x hx hk
  apply h
  rcases hap with hap | hap
  · exact .inl (by omega)
  · exact .inr (by omega)

theorem refl (m : ℕ → UInt8) (a n : ℕ) : SameOutside m m a n := fun _ _ => rfl

theorem trans (h : SameOutside m m' a n) (h' : SameOutside m' m'' a n) : SameOutside m m'' a n :=
  fun x hx => (h' x hx).trans (h x hx)

theorem mono (h : SameOutside m m' a n) (ha : b ≤ a) (hn : a + n ≤ b + k) : SameOutside m m' b k := by
  intro x hx
  apply h
  omega

end SameOutside

end Lidis.ByteMemory
