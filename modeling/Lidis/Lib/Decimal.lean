import Lidis.Lib.CString
import Mathlib.Data.Nat.Digits.Lemmas

namespace Lidis

def isDigit (c : UInt8) : Bool := decide (48 ≤ c) && decide (c ≤ 57)

def digitValue (c : UInt8) : ℕ := c.toNat - 48

def scanDigits (limit : ℕ) : ℕ → Bytes → Option (ℕ × Bytes)
  | acc, [] => some (acc, [])
  | acc, c :: rest =>
    if isDigit c then
      if (limit - digitValue c) / 10 < acc then none
      else scanDigits limit (10 * acc + digitValue c) rest
    else some (acc, c :: rest)

def valueFrom (acc : ℕ) (ds : Bytes) : ℕ := ds.foldl (fun v c => 10 * v + digitValue c) acc

def decimal (n : ℕ) : Bytes :=
  if n = 0 then [48] else ((Nat.digits 10 n).map (fun d => UInt8.ofNat (48 + d))).reverse

theorem le_valueFrom (acc : ℕ) (ds : Bytes) : acc ≤ valueFrom acc ds := by
  induction ds generalizing acc with
  | nil => exact le_rfl
  | cons c ds ih =>
    have h := ih (10 * acc + digitValue c)
    simp only [valueFrom, List.foldl_cons] at h ⊢
    omega

theorem valueFrom_append (acc : ℕ) (ds es : Bytes) :
    valueFrom acc (ds ++ es) = valueFrom (valueFrom acc ds) es := by
  simp [valueFrom]

theorem valueFrom_le_append (acc : ℕ) (ds es : Bytes) : valueFrom acc ds ≤ valueFrom acc (ds ++ es) := by
  rw [valueFrom_append]
  exact le_valueFrom _ _

theorem room_of_fits {limit acc d : ℕ} (h : 10 * acc + d ≤ limit) : ¬ (limit - d) / 10 < acc := by
  rw [not_lt, Nat.le_div_iff_mul_le (by norm_num)]
  omega

theorem scanDigits_append {limit acc : ℕ} {ds rest : Bytes} (hd : ∀ c ∈ ds, isDigit c = true)
    (hr : ∀ c ∈ rest.head?, isDigit c = false) (hv : valueFrom acc ds ≤ limit) :
    scanDigits limit acc (ds ++ rest) = some (valueFrom acc ds, rest) := by
  induction ds generalizing acc with
  | nil =>
    cases rest with
    | nil => rfl
    | cons c rest => simp [scanDigits, hr c (by simp), valueFrom]
  | cons c ds ih =>
    have hstep : 10 * acc + digitValue c ≤ limit := (le_valueFrom _ ds).trans hv
    rw [List.cons_append, scanDigits, hd c List.mem_cons_self, if_pos rfl, if_neg (room_of_fits hstep),
      ih (fun e he => hd e (List.mem_cons_of_mem c he)) hv]
    rfl

theorem digitValue_le {c : UInt8} (h : isDigit c = true) : digitValue c ≤ 9 := by
  simp only [isDigit, Bool.and_eq_true, decide_eq_true_eq, UInt8.le_iff_toNat_le, UInt8.toNat_ofNat] at h
  simp only [digitValue]
  omega

theorem fits_of_room {limit acc : ℕ} {c : UInt8} (hl : 9 ≤ limit) (hc : isDigit c = true)
    (h : ¬ (limit - digitValue c) / 10 < acc) : 10 * acc + digitValue c ≤ limit := by
  have hv := digitValue_le hc
  rw [not_lt, Nat.le_div_iff_mul_le (by norm_num)] at h
  omega

theorem scanDigits_some {limit acc v : ℕ} {bs tail : Bytes} (h : scanDigits limit acc bs = some (v, tail))
    (hl : 9 ≤ limit) (ha : acc ≤ limit) : ∃ ds, bs = ds ++ tail ∧ (∀ c ∈ ds, isDigit c = true) ∧
      valueFrom acc ds = v ∧ v ≤ limit ∧ ∀ c ∈ tail.head?, isDigit c = false := by
  induction bs generalizing acc with
  | nil =>
    obtain ⟨rfl, rfl⟩ := Prod.mk.inj (Option.some.inj h)
    exact ⟨[], rfl, by simp, rfl, ha, by simp⟩
  | cons c bs ih =>
    rw [scanDigits] at h
    split_ifs at h with hc hroom
    · obtain ⟨ds, rfl, hds, hval, hle, hend⟩ := ih h (fits_of_room hl hc hroom)
      refine ⟨c :: ds, rfl, ?_, hval, hle, hend⟩
      rintro d (_ | ⟨_, hd⟩)
      · exact hc
      · exact hds d hd
    · obtain ⟨rfl, rfl⟩ := Prod.mk.inj (Option.some.inj h)
      exact ⟨[], rfl, by simp, rfl, ha, by simpa using hc⟩

theorem digit_byte {d : ℕ} (h : d < 10) :
    isDigit (UInt8.ofNat (48 + d)) = true ∧ digitValue (UInt8.ofNat (48 + d)) = d := by
  interval_cases d <;> decide

theorem decimal_digits (n : ℕ) : ∀ c ∈ decimal n, isDigit c = true := by
  intro c hc
  rw [decimal] at hc
  split_ifs at hc with h
  · obtain rfl : c = 48 := by simpa using hc
    decide
  · simp only [List.mem_reverse, List.mem_map] at hc
    obtain ⟨d, hd, rfl⟩ := hc
    exact (digit_byte (Nat.digits_lt_base (by norm_num) hd)).1

theorem valueFrom_reverse (ds : List ℕ) (h : ∀ d ∈ ds, d < 10) :
    valueFrom 0 (ds.map (fun d => UInt8.ofNat (48 + d))).reverse = Nat.ofDigits 10 ds := by
  induction ds with
  | nil => rfl
  | cons d ds ih =>
    rw [List.map_cons, List.reverse_cons, valueFrom_append, ih (fun e he => h e (List.mem_cons_of_mem d he)),
      Nat.ofDigits_cons]
    simp only [valueFrom, List.foldl_cons, List.foldl_nil, (digit_byte (h d List.mem_cons_self)).2]
    omega

theorem valueFrom_decimal (n : ℕ) : valueFrom 0 (decimal n) = n := by
  rw [decimal]
  split_ifs with h
  · subst h; rfl
  · rw [valueFrom_reverse _ (fun d hd => Nat.digits_lt_base (by norm_num) hd), Nat.ofDigits_digits]

theorem decimal_ne_nil (n : ℕ) : decimal n ≠ [] := by
  rw [decimal]
  split_ifs with h
  · simp
  · simpa [Nat.digits_eq_nil_iff_eq_zero] using h

theorem decimal_length_le {n k : ℕ} (h : n < 10 ^ k) (hk : 0 < k) : (decimal n).length ≤ k := by
  rw [decimal]
  split_ifs
  · exact hk
  · rw [List.length_reverse, List.length_map]
    exact Nat.digits_length_le_iff (by norm_num) n |>.mpr h

theorem scanDigits_decimal {limit n : ℕ} {rest : Bytes} (hn : n ≤ limit)
    (hr : ∀ c ∈ rest.head?, isDigit c = false) : scanDigits limit 0 (decimal n ++ rest) = some (n, rest) := by
  have h : scanDigits limit 0 (decimal n ++ rest) = some (valueFrom 0 (decimal n), rest) :=
    scanDigits_append (decimal_digits n) hr (by rwa [valueFrom_decimal])
  rwa [valueFrom_decimal] at h

theorem scanDigits_cut {limit : ℕ} {ds es : Bytes} (rest : Bytes) (hd : ∀ c ∈ ds ++ es, isDigit c = true)
    (hv : valueFrom 0 (ds ++ es) ≤ limit) (hr : ∀ c ∈ rest.head?, isDigit c = false) :
    ∃ v, scanDigits limit 0 (ds ++ rest) = some (v, rest) :=
  ⟨_, scanDigits_append (fun c hc => hd c (List.mem_append_left es hc)) hr ((valueFrom_le_append 0 ds es).trans hv)⟩

example : decimal 40960 = ascii "40960" := by decide

end Lidis
