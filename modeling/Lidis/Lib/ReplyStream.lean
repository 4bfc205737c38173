import Lidis.Lib.Decimal
import Mathlib.Data.FinEnum
import Mathlib.Data.List.Infix

namespace Lidis

section Cut

variable {α : Type}

/-- A reader of units: it finds where the first unit ends, and finds it again whatever follows that unit. -/
structure ReadsUnits (unit : List α → Option ℕ) : Prop where
  pos : ∀ bs n, unit bs = some n → 0 < n
  le : ∀ bs n, unit bs = some n → n ≤ bs.length
  again : ∀ bs n rest, unit bs = some n → unit (bs.take n ++ rest) = some n

def cut (unit : List α → Option ℕ) : ℕ → List α → Option (List (List α))
  | _, [] => some []
  | 0, _ :: _ => none
  | n + 1, b :: bs => do
    let k ← unit (b :: bs)
    let rest ← cut unit n ((b :: bs).drop k)
    some ((b :: bs).take k :: rest)

def cutAll (unit : List α → Option ℕ) (bs : List α) : Option (List (List α)) := cut unit bs.length bs

variable {unit : List α → Option ℕ}

theorem cut_unit (h : ReadsUnits unit) {t : List α} (ht : unit t = some t.length) (rest : List α) (n : ℕ) :
    cut unit (n + 1) (t ++ rest) = (cut unit n rest).map (t :: ·) := by
  obtain ⟨b, bs, hb⟩ := List.exists_cons_of_length_pos (h.pos t _ ht)
  have hagain := h.again t _ rest ht
  rw [List.take_length] at hagain
  subst hb
  rw [List.cons_append] at hagain ⊢
  simp only [cut, hagain, bind, Option.bind]
  rw [← List.cons_append, List.drop_left, List.take_left]
  cases cut unit n rest <;> rfl

theorem cut_flatten (h : ReadsUnits unit) (ts : List (List α)) (n : ℕ) (hn : ts.flatten.length ≤ n) :
    cut unit n ts.flatten = some ts ↔ ∀ t ∈ ts, unit t = some t.length := by
  induction ts generalizing n with
  | nil => cases n <;> simp [cut]
  | cons t ts ih =>
    rw [List.flatten_cons] at hn ⊢
    rw [List.forall_mem_cons]
    constructor
    · intro hcut
      obtain ⟨b, bs, hb⟩ : ∃ b bs, t ++ ts.flatten = b :: bs := by
        refine List.exists_cons_of_ne_nil ?_
        intro hnil
        rw [hnil] at hcut
        cases n <;> simp [cut] at hcut
      cases n with
      | zero => rw [hb] at hn; simp at hn
      | succ n =>
        rw [hb] at hcut
        simp only [cut] at hcut
        obtain ⟨k, hk, hcut⟩ := Option.bind_eq_some_iff.mp hcut
        obtain ⟨rest, hrest, hcut⟩ := Option.bind_eq_some_iff.mp hcut
        obtain ⟨rfl, rfl⟩ := List.cons.inj (Option.some.inj hcut)
        have hle := h.le _ k hk
        have hpos := h.pos _ k hk
        have hlen : ((b :: bs).take k).length = k := by rw [List.length_take]; omega
        have hdrop : (b :: bs).drop k = rest.flatten := by
          rw [← hb]
          exact List.drop_left' hlen
        refine ⟨?_, ?_⟩
        · rw [hlen]
          have hagain := h.again _ k [] hk
          rwa [List.append_nil] at hagain
        · rw [hdrop] at hrest
          refine (ih n ?_).mp hrest
          rw [List.length_append, hlen] at hn
          omega
    · rintro ⟨ht, hts⟩
      have hpos := h.pos t _ ht
      rw [List.length_append] at hn
      obtain ⟨n, rfl⟩ := Nat.exists_eq_succ_of_ne_zero (by omega : n ≠ 0)
      rw [cut_unit h ht, (ih n (by omega)).mpr hts]
      rfl

theorem cutAll_flatten (h : ReadsUnits unit) (ts : List (List α)) :
    cutAll unit ts.flatten = some ts ↔ ∀ t ∈ ts, unit t = some t.length := cut_flatten h ts _ le_rfl

end Cut

/-- The bytes up to and including the first CR LF. -/
def lineLen : Bytes → Option ℕ
  | [] => none
  | c :: t => if c = 13 ∧ t.head? = some 10 then some 2 else (lineLen t).map (· + 1)

/-- The length of the reply that stands first: a line after `+`, `-` or `:`, a bulk string or none after `$`, an
empty array after `*`. -/
def replyLen : Bytes → Option ℕ
  | [] => none
  | c :: t => do
    let n ← lineLen t
    if c = 43 ∨ c = 45 ∨ c = 58 then some (n + 1)
    else if c = 42 then if t.take (n - 2) = [48] then some (n + 1) else none
    else if c = 36 then
      if t.take (n - 2) = [45, 49] then some (n + 1)
      else if t.take (n - 2) ≠ [] ∧ ∀ d ∈ t.take (n - 2), isDigit d = true then
        let len := valueFrom 0 (t.take (n - 2))
        if (t.drop (n + len)).take 2 = [13, 10] then some (n + len + 3) else none
      else none
    else none

theorem lineLen_bounds {t : Bytes} {n : ℕ} (h : lineLen t = some n) : 2 ≤ n ∧ n ≤ t.length := by
  induction t generalizing n with
  | nil => simp [lineLen] at h
  | cons c t ih =>
    rw [lineLen] at h
    split_ifs at h with hend
    · obtain rfl := Option.some.inj h
      obtain ⟨d, t', rfl⟩ : ∃ d t', t = d :: t' := by
        cases t with
        | nil => simp at hend
        | cons d t' => exact ⟨d, t', rfl⟩
      simp
    · obtain ⟨m, hm, rfl⟩ := Option.map_eq_some_iff.mp h
      obtain ⟨h2, hle⟩ := ih hm
      rw [List.length_cons]
      omega

theorem lineLen_take {t : Bytes} {n k : ℕ} (rest : Bytes) (h : lineLen t = some n) (hk : n ≤ k) :
    lineLen (t.take k ++ rest) = some n := by
  induction t generalizing n k with
  | nil => simp [lineLen] at h
  | cons c t ih =>
    have hb := lineLen_bounds h
    obtain ⟨k, rfl⟩ := Nat.exists_eq_succ_of_ne_zero (by omega : k ≠ 0)
    have hhead : (t.take k ++ rest).head? = t.head? := by
      cases t with
      | nil =>
        have := hb.2
        simp only [List.length_cons, List.length_nil] at this
        omega
      | cons d t' =>
        obtain ⟨k, rfl⟩ := Nat.exists_eq_succ_of_ne_zero (by omega : k ≠ 0)
        rfl
    rw [List.take_succ_cons, List.cons_append, lineLen, hhead]
    rw [lineLen] at h
    split_ifs at h ⊢ with hend
    · exact h
    · obtain ⟨m, hm, rfl⟩ := Option.map_eq_some_iff.mp h
      rw [ih hm (by omega)]
      rfl

theorem lineLen_line (a rest : Bytes) :
    lineLen (a ++ 13 :: 10 :: rest) = some (a.length + 2) ↔ ¬ [13, 10] <:+: a := by
  induction a with
  | nil => simp [lineLen]
  | cons x a ih =>
    have hstart : (x = 13 ∧ (a ++ 13 :: 10 :: rest).head? = some 10) ↔ [13, 10] <+: x :: a := by
      cases a with
      | nil => simp
      | cons y a => simp [eq_comm]
    rw [List.cons_append, lineLen, List.infix_cons_iff, not_or, List.length_cons]
    by_cases hx : x = 13 ∧ (a ++ 13 :: 10 :: rest).head? = some 10
    · rw [if_pos hx]
      simp [hstart.mp hx]
    · rw [if_neg hx, ← ih, and_iff_right (fun h => hx (hstart.mpr h))]
      constructor
      · intro h
        obtain ⟨m, hm, hn⟩ := Option.map_eq_some_iff.mp h
        rw [hm, show m = a.length + 2 by omega]
      · intro h
        rw [h]
        rfl

theorem replyLen_cases {c : UInt8} {t : Bytes} {n : ℕ} (h : replyLen (c :: t) = some n) :
    ∃ m, lineLen t = some m ∧ ((n = m + 1) ∨ (n = m + valueFrom 0 (t.take (m - 2)) + 3 ∧
      (t.drop (m + valueFrom 0 (t.take (m - 2)))).take 2 = [13, 10])) := by
  obtain ⟨m, hm, h⟩ := Option.bind_eq_some_iff.mp h
  refine ⟨m, hm, ?_⟩
  dsimp only at h
  split_ifs at h with h1 h2 h3 h4 h5 h6 h7
  · exact Or.inl (Option.some.inj h).symm
  · exact Or.inl (Option.some.inj h).symm
  · exact Or.inl (Option.some.inj h).symm
  · exact Or.inr ⟨(Option.some.inj h).symm, h7⟩

theorem replyLen_bounds {c : UInt8} {t : Bytes} {n : ℕ} (h : replyLen (c :: t) = some n) :
    0 < n ∧ n ≤ (c :: t).length := by
  obtain ⟨m, hm, hn | ⟨hn, hend⟩⟩ := replyLen_cases h
  · have := (lineLen_bounds hm).2
    rw [List.length_cons]
    omega
  · have hlen := congrArg List.length hend
    simp only [List.length_take, List.length_drop, List.length_cons, List.length_nil] at hlen ⊢
    omega

theorem replyLen_again {c : UInt8} {t : Bytes} {k : ℕ} (rest : Bytes) (h : replyLen (c :: t) = some (k + 1)) :
    replyLen (c :: (t.take k ++ rest)) = some (k + 1) := by
  obtain ⟨m, hm, hk⟩ := replyLen_cases h
  have hb := lineLen_bounds hm
  have hle : k ≤ t.length := Nat.succ_le_succ_iff.mp (replyLen_bounds h).2
  have hline := lineLen_take rest hm (show m ≤ k by omega)
  have htake : (t.take k ++ rest).take (m - 2) = t.take (m - 2) := by
    rw [List.take_append_of_le_length (by rw [List.length_take]; omega), List.take_take, min_eq_left (by omega)]
  have hend : ∀ len, m + len + 2 = k → ((t.take k ++ rest).drop (m + len)).take 2 = (t.drop (m + len)).take 2 := by
    intro len hlen
    rw [List.drop_append_of_le_length (by rw [List.length_take]; omega), List.drop_take,
      show k - (m + len) = 2 by omega]
    exact List.take_left' (by rw [List.length_take, List.length_drop]; omega)
  simp only [replyLen, hm, hline, htake, bind, Option.bind] at h ⊢
  split_ifs at h with h1 h2 h3 h4 h5 h6 h7
  · rwa [if_pos h1]
  · rwa [if_neg h1, if_pos h2, if_pos h3]
  · rwa [if_neg h1, if_neg h2, if_pos h4, if_pos h5]
  · have hlen := Option.some.inj h
    rwa [if_neg h1, if_neg h2, if_pos h4, if_neg h5, if_pos h6, if_pos (by rw [hend _ (by omega)]; exact h7)]

theorem replyLen_readsUnits : ReadsUnits replyLen := by
  constructor
  · intro bs n h
    cases bs with
    | nil => simp [replyLen] at h
    | cons c t => exact (replyLen_bounds h).1
  · intro bs n h
    cases bs with
    | nil => simp [replyLen] at h
    | cons c t => exact (replyLen_bounds h).2
  · intro bs n rest h
    cases bs with
    | nil => simp [replyLen] at h
    | cons c t =>
      obtain ⟨k, rfl⟩ := Nat.exists_eq_succ_of_ne_zero (replyLen_bounds h).1.ne'
      exact replyLen_again rest h

theorem replyLen_line {c : UInt8} (hc : c = 43 ∨ c = 45 ∨ c = 58) (text : Bytes) :
    replyLen (c :: (text ++ [13, 10])) = some (c :: (text ++ [13, 10])).length ↔ ¬ [13, 10] <:+: text := by
  rw [← lineLen_line text []]
  simp only [replyLen, bind]
  cases hl : lineLen (text ++ [13, 10]) with
  | none => simp
  | some n => simp [hc]

theorem replyLen_bulk (content : Bytes) :
    replyLen (36 :: (decimal content.length ++ (13 :: 10 :: (content ++ [13, 10])))) =
      some (36 :: (decimal content.length ++ (13 :: 10 :: (content ++ [13, 10])))).length := by
  have hdig := decimal_digits content.length
  have hline : lineLen (decimal content.length ++ (13 :: 10 :: (content ++ [13, 10]))) =
      some ((decimal content.length).length + 2) := by
    rw [lineLen_line]
    intro h
    have h13 : (13 : UInt8) ∈ decimal content.length := h.subset (by simp)
    exact absurd (hdig 13 h13) (by decide)
  have htake : (decimal content.length ++ (13 :: 10 :: (content ++ [13, 10]))).take ((decimal content.length).length + 2 - 2) =
      decimal content.length := by
    rw [Nat.add_sub_cancel, List.take_left]
  have hneg : decimal content.length ≠ [45, 49] := by
    intro h
    have h45 : (45 : UInt8) ∈ decimal content.length := by simp [h]
    exact absurd (hdig 45 h45) (by decide)
  have hdrop : (decimal content.length ++ (13 :: 10 :: (content ++ [13, 10]))).drop
      ((decimal content.length).length + 2 + content.length) = [13, 10] := by
    rw [show decimal content.length ++ (13 :: 10 :: (content ++ [13, 10])) =
      (decimal content.length ++ (13 :: 10 :: content)) ++ [13, 10] by simp]
    exact List.drop_left' (by simp only [List.length_append, List.length_cons]; omega)
  simp only [replyLen, hline, htake, bind, Option.bind, valueFrom_decimal, hdrop]
  rw [if_neg (by decide), if_neg (by decide), if_pos trivial, if_neg hneg, if_pos ⟨decimal_ne_nil _, hdig⟩, if_pos (by simp)]
  simp only [List.length_cons, List.length_append, List.length_nil]
  congr 1
  omega

end Lidis
