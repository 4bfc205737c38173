import Lidis.AgentRelay

namespace Lidis

/-- An operation in the type int; `none` is a signed overflow. -/
def intOp (z : ℤ) : Option ℤ := if -(2 ^ 31) ≤ z ∧ z ≤ intMax then some z else none

/-- An operation in the type size_t, or a conversion to it. -/
def sizeTOp (z : ℤ) : ℤ := z % 2 ^ 64

/-- The return value and, where the call sets it, *head_len. -/
structure ParsedSize where
  ret : ℤ
  headLen : Option ℤ
  deriving DecidableEq

/-- The digit loop that both copies share, over the bytes from `pos` on; `advance` is pos++ in the type that pos has. -/
def digitSteps (advance : ℤ → Option ℤ) : Bytes → ℤ → ℤ → Bool → Option (Except ℤ (ℤ × ℤ × Bool × Bytes))
  | [], pos, bodyLen, hasDigit => some (.ok (pos, bodyLen, hasDigit, []))
  | c :: rest, pos, bodyLen, hasDigit =>
    if isDigit c then do
      let room ← intOp (intMax - digitValue c)
      if room / 10 < bodyLen then some (.error (-2))
      else do
        let product ← intOp (10 * bodyLen)
        let bodyLen ← intOp (product + digitValue c)
        let pos ← advance pos
        digitSteps advance rest pos bodyLen true
    else some (.ok (pos, bodyLen, hasDigit, c :: rest))

def Kvsp.sizeBehindDigits (bufSize pos bodyLen : ℤ) (hasDigit : Bool) (rest : Bytes) : Option ParsedSize :=
  if hasDigit = false then
    if bufSize ≤ pos then some ⟨0, none⟩ else some ⟨-2, none⟩
  else if bufSize ≤ pos then some ⟨0, none⟩
  else do
    let left ← intOp (bufSize - pos)
    if left < 2 then some ⟨0, none⟩
    else if rest.take 2 ≠ crlf then some ⟨-2, none⟩
    else do
      let pos ← intOp (pos + 2)
      let room ← intOp (intMax - pos)
      if room < bodyLen then some ⟨-2, none⟩
      else do
        let totalLen ← intOp (bodyLen + pos)
        some ⟨if bufSize < totalLen then 0 else totalLen, some pos⟩

def Kvsp.kvspParseBulkSizeInt (buf : Bytes) : Option ParsedSize :=
  let bufSize : ℤ := buf.length
  if bufSize ≤ 0 then some ⟨-1, none⟩
  else if bufSize < 1 then some ⟨0, none⟩
  else if buf.take 1 ≠ [35] then some ⟨-2, none⟩
  else do
    let pos ← intOp (0 + 1)
    match ← digitSteps (fun pos => intOp (pos + 1)) (buf.drop 1) pos 0 false with
    | .error code => some ⟨code, none⟩
    | .ok (pos, bodyLen, hasDigit, rest) => sizeBehindDigits bufSize pos bodyLen hasDigit rest

def Agent.sizeBehindDigits (bufSize pos bodyLen : ℤ) (hasDigit : Bool) (rest : Bytes) : ParsedSize :=
  if hasDigit = false then
    if bufSize ≤ pos then ⟨0, none⟩ else ⟨-2, none⟩
  else if bufSize ≤ pos ∨ sizeTOp (bufSize - pos) < 2 then ⟨0, none⟩
  else if rest.take 2 ≠ crlf then ⟨-2, none⟩
  else
    let pos := sizeTOp (pos + 2)
    if sizeTOp (intMax - pos) < sizeTOp bodyLen then ⟨-2, none⟩
    else
      -- total_len and *head_len are of type int again, and the comparison converts total_len back
      let totalLen := toInt (sizeTOp (sizeTOp bodyLen + pos))
      ⟨if bufSize < sizeTOp totalLen then 0 else totalLen, some (toInt pos)⟩

def Agent.kvspParseBulkSizeSizeT (buf : Bytes) : Option ParsedSize :=
  let bufSize : ℤ := sizeTOp buf.length
  if bufSize = 0 then some ⟨-1, none⟩
  else if bufSize < 1 then some ⟨0, none⟩
  else if buf.take 1 ≠ [35] then some ⟨-2, none⟩
  else do
    match ← digitSteps (fun pos => some (sizeTOp (pos + 1))) (buf.drop 1) (sizeTOp (0 + 1)) 0 false with
    | .error code => some ⟨code, none⟩
    | .ok (pos, bodyLen, hasDigit, rest) => some (sizeBehindDigits bufSize pos bodyLen hasDigit rest)

theorem intOp_eq {z : ℤ} (hlo : -(2 ^ 31) ≤ z) (hhi : z ≤ intMax) : intOp z = some z := if_pos ⟨hlo, hhi⟩

theorem sizeTOp_eq {z : ℤ} (hlo : 0 ≤ z) (hhi : z < 2 ^ 64) : sizeTOp z = z := Int.emod_eq_of_lt hlo hhi

theorem digitSteps_digit {advance : ℤ → Option ℤ} {c : UInt8} {rest : Bytes} {pos : ℤ} {acc : ℕ} (hasDigit : Bool)
    (hc : isDigit c = true) (hpos : advance pos = some (pos + 1)) :
    digitSteps advance (c :: rest) pos acc hasDigit =
      if (intMax - digitValue c) / 10 < acc then some (.error (-2))
      else digitSteps advance rest (pos + 1) ((10 * acc + digitValue c : ℕ) : ℤ) true := by
  have hd := digitValue_le hc
  have hmax : intMax = 2147483647 := rfl
  have hsub : (intMax : ℤ) - digitValue c = ((intMax - digitValue c : ℕ) : ℤ) := by omega
  rw [digitSteps, if_pos hc, hsub, intOp_eq (by omega) (by omega)]
  by_cases hover : (intMax - digitValue c) / 10 < acc
  · rw [if_pos hover]
    exact if_pos (by exact_mod_cast hover)
  · rw [if_neg hover]
    have hfit := fits_of_room (by decide) hc hover
    have hbody : 10 * (acc : ℤ) + digitValue c = ((10 * acc + digitValue c : ℕ) : ℤ) := by push_cast; rfl
    have hnext : (intOp (10 * (acc : ℤ)) >>= fun product => intOp (product + digitValue c) >>= fun bodyLen =>
        advance pos >>= fun pos => digitSteps advance rest pos bodyLen true) =
        digitSteps advance rest (pos + 1) ((10 * acc + digitValue c : ℕ) : ℤ) true := by
      rw [intOp_eq (by omega) (by omega), Option.bind_eq_bind, Option.bind_some, hbody, intOp_eq (by omega) (by omega),
        Option.bind_some, hpos, Option.bind_some]
    exact (if_neg (by exact_mod_cast hover)).trans hnext

theorem digitSteps_scan {advance : ℤ → Option ℤ} (rest : Bytes) (pos : ℤ) (acc : ℕ) (hasDigit : Bool)
    (hadvance : ∀ p, pos ≤ p → p < pos + rest.length → advance p = some (p + 1)) :
    digitSteps advance rest pos acc hasDigit =
      match scanDigits intMax acc rest with
      | none => some (.error (-2))
      | some (v, tail) =>
        some (.ok (pos + rest.length - tail.length, v, hasDigit || decide (tail.length < rest.length), tail)) := by
  induction rest generalizing pos acc hasDigit with
  | nil => simp [digitSteps, scanDigits]
  | cons c rest ih =>
    have hlen : ((c :: rest).length : ℤ) = rest.length + 1 := by simp
    by_cases hc : isDigit c = true
    · rw [digitSteps_digit hasDigit hc (hadvance pos le_rfl (by omega)), scanDigits, if_pos hc]
      by_cases hover : (intMax - digitValue c) / 10 < acc
      · rw [if_pos hover, if_pos hover]
      · rw [if_neg hover, if_neg hover, ih]
        · cases hscan : scanDigits intMax (10 * acc + digitValue c) rest with
          | none => rfl
          | some r =>
            obtain ⟨v, tail⟩ := r
            obtain ⟨ds, rfl, -⟩ := scanDigits_some hscan (by decide) (fits_of_room (by decide) hc hover)
            have hle : tail.length < (c :: (ds ++ tail)).length := by simp
            have hpos : pos + 1 + (ds ++ tail).length - tail.length = pos + (c :: (ds ++ tail)).length - tail.length := by
              omega
            simp only [Bool.true_or, hle, decide_true, Bool.or_true, hpos]
        · intro p hlo hhi
          exact hadvance p (by omega) (by omega)
    · rw [digitSteps, if_neg hc, scanDigits, if_neg hc]
      simp

/-- Both copies behind the digits in exact arithmetic, with `rest` the bytes from `pos` on. -/
def exactBehindDigits (bufSize pos bodyLen : ℕ) (rest : Bytes) : ParsedSize :=
  if pos = 1 then
    if rest = [] then ⟨0, none⟩ else ⟨-2, none⟩
  else if rest.length < 2 then ⟨0, none⟩
  else if rest.take 2 ≠ crlf then ⟨-2, none⟩
  else if intMax - (pos + 2) < bodyLen then ⟨-2, none⟩
  else ⟨if bufSize < bodyLen + (pos + 2) then 0 else (bodyLen + (pos + 2) : ℕ), some (pos + 2 : ℕ)⟩

section

variable {bufSize pos bodyLen : ℕ} {rest : Bytes} (hsize : bufSize = pos + rest.length) (hpos : 1 ≤ pos)
  (hmax : bufSize ≤ intMax)

include hsize hpos hmax

theorem kvsp_behind_exact : Kvsp.sizeBehindDigits bufSize pos bodyLen (decide (1 < pos)) rest =
    some (exactBehindDigits bufSize pos bodyLen rest) := by
  have hint : intMax = 2147483647 := rfl
  rw [Kvsp.sizeBehindDigits, exactBehindDigits]
  by_cases h1 : pos = 1
  · have hempty : (bufSize : ℤ) ≤ pos ↔ rest = [] := by
      rw [← List.length_eq_zero_iff]
      omega
    rw [if_pos (by simp [h1]), if_pos h1]
    simp only [hempty, apply_ite some]
  rw [if_neg (by simp; omega), if_neg h1]
  by_cases hshort : rest.length < 2
  · rw [if_pos hshort]
    by_cases hend : (bufSize : ℤ) ≤ pos
    · rw [if_pos hend]
    · rw [if_neg hend, intOp_eq (by omega) (by omega)]
      exact if_pos (by omega)
  rw [if_neg (by omega), if_neg hshort, intOp_eq (by omega) (by omega), Option.bind_eq_bind, Option.bind_some,
    if_neg (by omega)]
  by_cases hcrlf : rest.take 2 ≠ crlf
  · rw [if_pos hcrlf, if_pos hcrlf]
  rw [if_neg hcrlf, if_neg hcrlf, intOp_eq (by omega) (by omega), Option.bind_some, intOp_eq (by omega) (by omega),
    Option.bind_some]
  by_cases hroom : intMax - (pos + 2) < bodyLen
  · rw [if_pos (by omega), if_pos hroom]
  rw [if_neg (by omega), if_neg hroom, intOp_eq (by omega) (by omega), Option.bind_some]
  have htotal : (bodyLen : ℤ) + (pos + 2) = ((bodyLen + (pos + 2) : ℕ) : ℤ) := by push_cast; rfl
  rw [htotal]
  simp only [Nat.cast_lt]
  rfl

theorem agent_behind_exact (hbody : bodyLen ≤ intMax) :
    Agent.sizeBehindDigits bufSize pos bodyLen (decide (1 < pos)) rest = exactBehindDigits bufSize pos bodyLen rest := by
  have hint : intMax = 2147483647 := rfl
  rw [Agent.sizeBehindDigits, exactBehindDigits]
  by_cases h1 : pos = 1
  · have hempty : (bufSize : ℤ) ≤ pos ↔ rest = [] := by
      rw [← List.length_eq_zero_iff]
      omega
    rw [if_pos (by simp [h1]), if_pos h1]
    simp only [hempty]
  have hleft : ((bufSize : ℤ) ≤ pos ∨ sizeTOp (bufSize - pos) < 2) ↔ rest.length < 2 := by
    rw [sizeTOp_eq (by omega) (by omega)]
    omega
  rw [if_neg (by simp; omega), if_neg h1]
  simp only [hleft]
  by_cases hshort : rest.length < 2
  · rw [if_pos hshort, if_pos hshort]
  rw [if_neg hshort, if_neg hshort]
  by_cases hcrlf : rest.take 2 ≠ crlf
  · rw [if_pos hcrlf, if_pos hcrlf]
  rw [if_neg hcrlf, if_neg hcrlf, sizeTOp_eq (show (0 : ℤ) ≤ pos + 2 by omega) (by omega),
    sizeTOp_eq (show (0 : ℤ) ≤ bodyLen by omega) (by omega),
    sizeTOp_eq (show (0 : ℤ) ≤ intMax - (pos + 2) by omega) (by omega)]
  by_cases hroom : intMax - (pos + 2) < bodyLen
  · rw [if_pos (by omega), if_pos hroom]
  -- the head and the body together are an int, so no conversion changes them
  have htotal : (bodyLen : ℤ) + (pos + 2) = ((bodyLen + (pos + 2) : ℕ) : ℤ) := by push_cast; rfl
  have hhead : (pos : ℤ) + 2 = ((pos + 2 : ℕ) : ℤ) := by push_cast; rfl
  rw [if_neg (by omega), if_neg hroom, sizeTOp_eq (show (0 : ℤ) ≤ bodyLen + (pos + 2) by omega) (by omega), htotal,
    toInt_of_le (by omega), sizeTOp_eq (by omega) (by omega), hhead, toInt_of_le (by omega)]
  simp only [Nat.cast_lt]

end

def exactParse : Bytes → ParsedSize
  | [] => ⟨-1, none⟩
  | c :: rest =>
    if c ≠ 35 then ⟨-2, none⟩
    else
      match scanDigits intMax 0 rest with
      | none => ⟨-2, none⟩
      | some (bodyLen, tail) => exactBehindDigits (rest.length + 1) (rest.length + 1 - tail.length) bodyLen tail

theorem scanned_position {rest tail : Bytes} {bodyLen : ℕ} (h : scanDigits intMax 0 rest = some (bodyLen, tail)) :
    rest.length + 1 = rest.length + 1 - tail.length + tail.length ∧ 1 ≤ rest.length + 1 - tail.length ∧
      bodyLen ≤ intMax := by
  obtain ⟨ds, rfl, -, -, hle, -⟩ := scanDigits_some h (by decide) (Nat.zero_le _)
  simp only [List.length_append]
  omega

section

variable {advance : ℤ → Option ℤ} {rest : Bytes}
  (hadvance : ∀ p : ℤ, 1 ≤ p → p < 1 + rest.length → advance p = some (p + 1))

include hadvance

theorem digitSteps_refused (hscan : scanDigits intMax 0 rest = none) :
    digitSteps advance rest 1 0 false = some (.error (-2)) := by
  have h := digitSteps_scan rest 1 0 false hadvance
  rwa [hscan] at h

theorem digitSteps_read {bodyLen : ℕ} {tail : Bytes} (hscan : scanDigits intMax 0 rest = some (bodyLen, tail)) :
    digitSteps advance rest 1 0 false =
      some (.ok (((rest.length + 1 - tail.length : ℕ) : ℤ), (bodyLen : ℤ), decide (1 < rest.length + 1 - tail.length),
        tail)) := by
  have h := digitSteps_scan rest 1 0 false hadvance
  obtain ⟨ds, rfl, -⟩ := scanDigits_some hscan (by decide) (Nat.zero_le _)
  have hpos : (1 : ℤ) + (ds ++ tail).length - tail.length = (((ds ++ tail).length + 1 - tail.length : ℕ) : ℤ) := by
    simp only [List.length_append]
    omega
  have hdigit : tail.length < (ds ++ tail).length ↔ 1 < (ds ++ tail).length + 1 - tail.length := by omega
  rw [hscan] at h
  simp only [hpos, hdigit, Bool.false_or] at h
  exact h

end

theorem kvspParseBulkSizeInt_exact {buf : Bytes} (hmax : buf.length ≤ intMax) :
    Kvsp.kvspParseBulkSizeInt buf = some (exactParse buf) := by
  cases buf with
  | nil => rfl
  | cons c rest =>
    have hint : intMax = 2147483647 := rfl
    rw [List.length_cons] at hmax
    have hadvance : ∀ p : ℤ, 1 ≤ p → p < 1 + rest.length → intOp (p + 1) = some (p + 1) :=
      fun p hlo hhi => intOp_eq (by omega) (by omega)
    rw [Kvsp.kvspParseBulkSizeInt, exactParse]
    simp only [List.length_cons, List.take_succ_cons, List.take_zero, List.drop_succ_cons, List.drop_zero]
    rw [if_neg (by omega), if_neg (by omega), zero_add, intOp_eq (by omega) (by omega), Option.bind_eq_bind,
      Option.bind_some]
    by_cases hc : c = 35
    · rw [if_neg (by simp [hc]), if_neg (by simp [hc])]
      cases hscan : scanDigits intMax 0 rest with
      | none =>
        rw [digitSteps_refused hadvance hscan]
        rfl
      | some r =>
        obtain ⟨hlen, hpos, -⟩ := scanned_position hscan
        rw [digitSteps_read hadvance hscan]
        exact kvsp_behind_exact hlen hpos hmax
    · rw [if_pos (by simp [hc]), if_pos hc]

theorem kvspParseBulkSizeSizeT_exact {buf : Bytes} (hmax : buf.length ≤ intMax) :
    Agent.kvspParseBulkSizeSizeT buf = some (exactParse buf) := by
  cases buf with
  | nil => rfl
  | cons c rest =>
    have hint : intMax = 2147483647 := rfl
    rw [List.length_cons] at hmax
    have hadvance : ∀ p : ℤ, 1 ≤ p → p < 1 + rest.length → some (sizeTOp (p + 1)) = some (p + 1) :=
      fun p hlo hhi => congrArg some (sizeTOp_eq (by omega) (by omega))
    have hsize : sizeTOp ((rest.length + 1 : ℕ) : ℤ) = ((rest.length + 1 : ℕ) : ℤ) := sizeTOp_eq (by omega) (by omega)
    rw [Agent.kvspParseBulkSizeSizeT, exactParse]
    simp only [List.length_cons, List.take_succ_cons, List.take_zero, List.drop_succ_cons, List.drop_zero, hsize]
    rw [if_neg (by omega), if_neg (by omega), zero_add, sizeTOp_eq (by omega) (by omega)]
    by_cases hc : c = 35
    · rw [if_neg (by simp [hc]), if_neg (by simp [hc])]
      cases hscan : scanDigits intMax 0 rest with
      | none =>
        rw [digitSteps_refused hadvance hscan]
        rfl
      | some r =>
        obtain ⟨hlen, hpos, hbody⟩ := scanned_position hscan
        rw [digitSteps_read hadvance hscan]
        exact congrArg some (agent_behind_exact hlen hpos hmax hbody)
    · rw [if_pos (by simp [hc]), if_pos hc]

def BulkSize.ret : BulkSize → ℤ
  | .error code => code
  | .more => 0
  | .frame total _ => total

/-- The exact result `r` is what the call returned, and *head_len is set to the head of a frame. -/
def BulkSize.Returned (r : BulkSize) (p : ParsedSize) : Prop :=
  p.ret = r.ret ∧ ∀ total head, r = .frame total head → p.headLen = some (head : ℤ)

theorem returned_behind {bufSize pos bodyLen : ℕ} {rest : Bytes} :
    (if pos = 1 then if rest = [] then BulkSize.more else .error (-2)
      else if rest.length < 2 then .more
      else if rest.take 2 ≠ crlf then .error (-2)
      else if intMax - (pos + 2) < bodyLen then .error (-2)
      else if bufSize < bodyLen + (pos + 2) then .more
      else .frame (bodyLen + (pos + 2)) (pos + 2)).Returned (exactBehindDigits bufSize pos bodyLen rest) := by
  rw [exactBehindDigits]
  split_ifs
  all_goals
    refine ⟨rfl, ?_⟩
    intro total head h
    first
    | cases h
      rfl
    | cases h

theorem returned_exact (buf : Bytes) : (Kvsp.kvspParseBulkSize buf).Returned (exactParse buf) := by
  cases buf with
  | nil => exact ⟨rfl, by simp [Kvsp.kvspParseBulkSize]⟩
  | cons c rest =>
    rw [Kvsp.kvspParseBulkSize, exactParse]
    by_cases hc : c ≠ 35
    · rw [if_pos hc, if_pos hc]
      exact ⟨rfl, by simp⟩
    rw [if_neg hc, if_neg hc]
    cases hscan : scanDigits intMax 0 rest with
    | none => exact ⟨rfl, by simp⟩
    | some r =>
      obtain ⟨bodyLen, tail⟩ := r
      obtain ⟨ds, rfl, -⟩ := scanDigits_some hscan (by decide) (Nat.zero_le _)
      have hnone : tail.length = (ds ++ tail).length ↔ (ds ++ tail).length + 1 - tail.length = 1 := by
        simp only [List.length_append]
        omega
      simp only [hnone, List.length_cons]
      exact returned_behind

theorem parse_error_neg {buf : Bytes} {code : ℤ} (h : Kvsp.kvspParseBulkSize buf = .error code) : code < 0 := by
  cases buf with
  | nil =>
    obtain rfl := BulkSize.error.inj h
    decide
  | cons c rest =>
    simp only [Kvsp.kvspParseBulkSize] at h
    split at h
    · exact BulkSize.error.inj h ▸ by decide
    split at h
    · exact BulkSize.error.inj h ▸ by decide
    · split_ifs at h <;> exact BulkSize.error.inj h ▸ by decide

theorem parser_copies_agree (buf : Bytes) (hmax : buf.length ≤ intMax) :
    ∃ p, Kvsp.kvspParseBulkSizeInt buf = some p ∧ Agent.kvspParseBulkSizeSizeT buf = some p ∧
      (0 < p.ret → ∃ (h : Kvsp.Head) (rest : Bytes), buf = h.bytes ++ rest ∧ p.headLen = some (h.bytes.length : ℤ) ∧
        p.ret = h.bytes.length + valueFrom 0 h.digits) := by
  refine ⟨exactParse buf, kvspParseBulkSizeInt_exact hmax, kvspParseBulkSizeSizeT_exact hmax, ?_⟩
  intro hret
  obtain ⟨hcode, hhead⟩ := returned_exact buf
  rw [hcode] at hret ⊢
  cases hparse : Kvsp.kvspParseBulkSize buf with
  | error code =>
    rw [hparse] at hret
    exact absurd hret (parse_error_neg hparse).not_gt
  | more =>
    rw [hparse] at hret
    exact absurd hret (lt_irrefl 0)
  | frame total head =>
    obtain ⟨h, rest, rfl, rfl, rfl⟩ := Kvsp.Head.of_parse hparse
    exact ⟨h, rest, rfl, hhead _ _ hparse, by simp [BulkSize.ret, Kvsp.Head.bodyLen]⟩

theorem parser_copies_agree_leading_zero :
    ∃ p, Kvsp.kvspParseBulkSizeInt (ascii "#02\r\n\r\n") = some p ∧
      Agent.kvspParseBulkSizeSizeT (ascii "#02\r\n\r\n") = some p ∧
      (0 < p.ret → ∃ (h : Kvsp.Head) (rest : Bytes), ascii "#02\r\n\r\n" = h.bytes ++ rest ∧
        p.headLen = some (h.bytes.length : ℤ) ∧ p.ret = h.bytes.length + valueFrom 0 h.digits) :=
  parser_copies_agree (ascii "#02\r\n\r\n") (by decide)

end Lidis
