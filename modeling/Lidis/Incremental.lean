import Lidis.KvspFrame
import Lidis.RespSafety

namespace Lidis

/-- A parser that is given the bytes received so far and the memory behind them answers the same however the
bytes are cut: a frame it accepts stays, an error stays, and a frame that is not all there was not yet answered. -/
structure Coherent (parse : Bytes → Bytes → Option BulkSize) (b : Bytes) : Prop where
  frame : ∀ e s s' n h, (b ++ e).length ≤ intMax → parse b s = some (.frame n h) →
    n ≤ b.length ∧ parse (b ++ e) s' = some (.frame n h)
  error : ∀ e s s' c, (b ++ e).length ≤ intMax → parse b s = some (.error c) → ∃ c', parse (b ++ e) s' = some (.error c')
  more : ∀ e s s' n h, (b ++ e).length ≤ intMax → parse (b ++ e) s' = some (.frame n h) → b.length < n →
    parse b s = some .more

theorem Coherent.of_stable {parse : Bytes → Bytes → Option BulkSize} {b : Bytes}
    (hbound : ∀ s n h, b.length ≤ intMax → parse b s = some (.frame n h) → n ≤ b.length)
    (hstable : ∀ e s s', (b ++ e).length ≤ intMax → parse b s = some .more ∨ parse (b ++ e) s' = parse b s) :
    Coherent parse b := by
  have hshort : ∀ {e : Bytes}, (b ++ e).length ≤ intMax → b.length ≤ intMax := by
    intro e he
    rw [List.length_append] at he
    omega
  constructor
  · intro e s s' n h he hp
    refine ⟨hbound s n h (hshort he) hp, ?_⟩
    rcases hstable e s s' he with hm | hm
    · rw [hm] at hp
      cases hp
    · rw [hm, hp]
  · intro e s s' c he hp
    rcases hstable e s s' he with hm | hm
    · rw [hm] at hp
      cases hp
    · exact ⟨c, by rw [hm, hp]⟩
  · intro e s s' n h he hp hlt
    rcases hstable e s s' he with hm | hm
    · exact hm
    · rw [hm] at hp
      exact absurd (hbound s n h (hshort he) hp) (Nat.not_le.mpr hlt)

theorem scanDigits_none_append {limit acc : ℕ} {bs : Bytes} (e : Bytes) (h : scanDigits limit acc bs = none) :
    scanDigits limit acc (bs ++ e) = none := by
  induction bs generalizing acc with
  | nil => cases h
  | cons c bs ih =>
    rw [List.cons_append, scanDigits]
    rw [scanDigits] at h
    split_ifs at h ⊢ with hc hfit
    · rfl
    · exact ih h

theorem scanDigits_some_append {limit acc v : ℕ} {bs tail : Bytes} (e : Bytes) (hne : tail ≠ [])
    (h : scanDigits limit acc bs = some (v, tail)) : scanDigits limit acc (bs ++ e) = some (v, tail ++ e) := by
  induction bs generalizing acc with
  | nil =>
    obtain ⟨rfl, rfl⟩ := Prod.mk.inj (Option.some.inj h)
    exact absurd rfl hne
  | cons c bs ih =>
    rw [List.cons_append, scanDigits]
    rw [scanDigits] at h
    split_ifs at h ⊢ with hc hfit
    · exact ih h
    · obtain ⟨rfl, rfl⟩ := Prod.mk.inj (Option.some.inj h)
      rfl

namespace Kvsp

theorem parse_append {b : Bytes} (hb : b ≠ []) (e : Bytes) :
    kvspParseBulkSize b = .more ∨ kvspParseBulkSize (b ++ e) = kvspParseBulkSize b := by
  obtain ⟨c, rest, rfl⟩ := List.exists_cons_of_ne_nil hb
  rw [List.cons_append, kvspParseBulkSize, kvspParseBulkSize]
  by_cases hc : c ≠ 35
  · rw [if_pos hc, if_pos hc]
    exact .inr rfl
  · rw [if_neg hc, if_neg hc]
    cases hscan : scanDigits intMax 0 rest with
    | none =>
      rw [scanDigits_none_append e hscan]
      exact .inr rfl
    | some r =>
      obtain ⟨v, tail⟩ := r
      by_cases hnil : tail = []
      · left
        subst hnil
        by_cases hz : 0 = rest.length
        · simp [hz]
        · simp [hz]
      · have hne : tail ++ e ≠ [] := by simp [hnil]
        have hdrop : rest.length + e.length + 1 - (tail.length + e.length) = rest.length + 1 - tail.length := by omega
        rw [scanDigits_some_append e hnil hscan]
        simp only [List.length_append, List.length_cons, Nat.add_right_cancel_iff]
        simp only [hdrop, if_neg hnil, if_neg hne]
        by_cases hdigit : tail.length = rest.length
        · rw [if_pos hdigit, if_pos hdigit]
          exact .inr rfl
        · rw [if_neg hdigit, if_neg hdigit]
          by_cases htwo : tail.length < 2
          · rw [if_pos htwo]
            exact .inl rfl
          · have htwo' : ¬ tail.length + e.length < 2 := by omega
            have htake : (tail ++ e).take 2 = tail.take 2 := List.take_append_of_le_length (by omega)
            simp only [if_neg htwo, if_neg htwo', htake]
            generalize rest.length + 1 - tail.length + 2 = pos
            by_cases hend : tail.take 2 ≠ crlf
            · rw [if_pos hend, if_pos hend]
              exact .inr rfl
            · rw [if_neg hend, if_neg hend]
              by_cases hbig : intMax - pos < v
              · rw [if_pos hbig, if_pos hbig]
                exact .inr rfl
              · rw [if_neg hbig, if_neg hbig]
                by_cases hshort : rest.length + 1 < v + pos
                · rw [if_pos hshort]
                  exact .inl rfl
                · rw [if_neg hshort, if_neg (by omega)]
                  exact .inr rfl

theorem parse_coherent {b : Bytes} (hb : b ≠ []) : Coherent (fun w _ => some (kvspParseBulkSize w)) b := by
  apply Coherent.of_stable
  · intro s n h _ hp
    exact (parse_frame_bounds (Option.some.inj hp)).2
  · intro e s s' _
    rcases parse_append hb e with h | h
    · exact .inl (congrArg some h)
    · exact .inr (congrArg some h)

end Kvsp

namespace Resp

/-- The parser on the bytes `w` received so far, with the memory `s` behind them. -/
def parseIn (w s : Bytes) : Option BulkSize := respParseBulkSize (w ++ s) w.length

/-- The number of every length line that the scan of `b` completes ends inside `b`. -/
def SettledArgs (b : Bytes) : ℕ → ℕ → Prop
  | 0, _ => True
  | n + 1, pos =>
    if b.length ≤ pos + 1 ∨ b[pos + 1]? ≠ some 36 then True
    else
      match scanLine b b.length (pos + 1) with
      | none => True
      | some q =>
        match atoi b (pos + 2) with
        | none => False
        | some bsLen =>
          (intMax : ℤ) < bsLen + 2 ∨ b.length ≤ (((q : ℤ) + (bsLen + 2)) % 2 ^ 64).toNat ∨
            SettledArgs b n (((q : ℤ) + (bsLen + 2)) % 2 ^ 64).toNat

def Settled (b : Bytes) : Prop :=
  b[0]? ≠ some 42 ∨
    match scanLine b b.length 1 with
    | none => True
    | some pos =>
      match atoi b 1 with
      | none => False
      | some argc => SettledArgs b argc.toNat pos

theorem lineEnd_append {prev : UInt8} {text : Bytes} {k : ℕ} (more : Bytes) (h : lineEnd prev text = some k) :
    lineEnd prev (text ++ more) = some k := by
  induction text generalizing prev k with
  | nil => cases h
  | cons c text ih =>
    rw [List.cons_append, lineEnd]
    rw [lineEnd] at h
    split_ifs at h ⊢ with hend
    · exact h
    · obtain ⟨j, hj, rfl⟩ := Option.map_eq_some_iff.mp h
      rw [ih hj]
      rfl

section Scan

variable {b : Bytes} {p q : ℕ}

theorem getElem?_received (s : Bytes) (hp : p < b.length) : (b ++ s)[p]? = b[p]? :=
  List.getElem?_append_left hp

theorem scanLine_received (s : Bytes) (hp : p - 1 < b.length) : scanLine (b ++ s) b.length p = scanLine b b.length p := by
  rw [scanLine, scanLine, getElem?_received s hp, List.take_left, List.take_length]

theorem scanLine_extend (t : Bytes) (k : ℕ) (hp : p - 1 < b.length) (hle : p ≤ b.length)
    (h : scanLine b b.length p = some q) : scanLine (b ++ t) (b.length + k) p = some q := by
  obtain ⟨j, hj, rfl⟩ := Option.map_eq_some_iff.mp h
  rw [List.take_length] at hj
  rw [scanLine, getElem?_received t hp, List.take_length_add_append, List.drop_append_of_le_length hle,
    lineEnd_append _ hj]
  rfl

end Scan

section Stable

variable {b mem : Bytes} {bufSize head n pos q : ℕ}

/-- Where the scan goes from a bulk string whose line ends at `q`. -/
def jump (q : ℕ) (bsLen : ℤ) : ℕ := (((q : ℤ) + (bsLen + 2)) % 2 ^ 64).toNat

theorem parseArgs_line (head n : ℕ) (hlt : ¬ bufSize ≤ pos + 1) (hmark : mem[pos + 1]? = some 36)
    (hscan : scanLine mem bufSize (pos + 1) = some q) :
    parseArgs mem bufSize head (n + 1) pos = (atoi mem (pos + 2)).bind (fun bsLen =>
      if (intMax : ℤ) < bsLen + 2 then none
      else if bufSize ≤ jump q bsLen then some .more else parseArgs mem bufSize head n (jump q bsLen)) := by
  rw [parseArgs, if_neg hlt, if_neg (not_not.mpr hmark), hscan]
  rfl

theorem settledArgs_line (hlt : ¬ b.length ≤ pos + 1) (hmark : b[pos + 1]? = some 36)
    (hscan : scanLine b b.length (pos + 1) = some q) :
    SettledArgs b (n + 1) pos ↔ ∃ bsLen, atoi b (pos + 2) = some bsLen ∧
      ((intMax : ℤ) < bsLen + 2 ∨ b.length ≤ jump q bsLen ∨ SettledArgs b n (jump q bsLen)) := by
  rw [SettledArgs, if_neg (not_or.mpr ⟨hlt, not_not.mpr hmark⟩), hscan]
  cases atoi b (pos + 2) with
  | none => simp
  | some bsLen => simp [jump]

theorem parseArgs_stable (hset : SettledArgs b n pos) (s t : Bytes) (k : ℕ) :
    parseArgs (b ++ s) b.length head n pos = some .more ∨
      parseArgs (b ++ t) (b.length + k) head n pos = parseArgs (b ++ s) b.length head n pos := by
  induction n generalizing pos with
  | zero => exact .inr rfl
  | succ n ih =>
    by_cases hlt : b.length ≤ pos + 1
    · left
      rw [parseArgs, if_pos hlt]
    · have hin : pos + 1 < b.length := Nat.not_le.mp hlt
      have hlt' : ¬ b.length + k ≤ pos + 1 := by omega
      by_cases hmark : b[pos + 1]? = some 36
      · have hmark' : ∀ u, (b ++ u)[pos + 1]? = some 36 := fun u => (getElem?_received u hin).trans hmark
        cases hscan : scanLine b b.length (pos + 1) with
        | none =>
          left
          rw [parseArgs, if_neg hlt, if_neg (not_not.mpr (hmark' s)), scanLine_received s (by omega), hscan]
        | some q =>
          obtain ⟨bsLen, hatoi, hrest⟩ := (settledArgs_line hlt hmark hscan).mp hset
          rw [parseArgs_line head n hlt (hmark' s) ((scanLine_received s (by omega)).trans hscan),
            parseArgs_line head n hlt' (hmark' t) (scanLine_extend t k (by omega) hin.le hscan),
            atoi_extend s hatoi, atoi_extend t hatoi, Option.bind_some, Option.bind_some]
          by_cases hbig : (intMax : ℤ) < bsLen + 2
          · rw [if_pos hbig, if_pos hbig]
            exact .inr rfl
          · rw [if_neg hbig, if_neg hbig]
            by_cases hmore : b.length ≤ jump q bsLen
            · rw [if_pos hmore]
              exact .inl rfl
            · rw [if_neg hmore, if_neg (by omega)]
              exact ih ((hrest.resolve_left hbig).resolve_left hmore)
      · right
        have hmark' : ∀ u, (b ++ u)[pos + 1]? ≠ some 36 := by
          intro u
          rw [getElem?_received u hin]
          exact hmark
        rw [parseArgs, parseArgs, if_neg hlt, if_neg hlt', if_pos (hmark' s), if_pos (hmark' t)]

theorem parseIn_star (s : Bytes) (hb : b ≠ []) (hstar : b[0]? = some 42) :
    parseIn b s = match scanLine b b.length 1 with
      | none => some .more
      | some pos => (atoi (b ++ s) 1).bind (fun argc => parseArgs (b ++ s) b.length (pos + 1) argc.toNat pos) := by
  have hpos := List.length_pos_of_ne_nil hb
  rw [parseIn, respParseBulkSize, if_neg (by omega), getElem?_received s hpos, if_neg (not_not.mpr hstar),
    scanLine_received s hpos]
  cases scanLine b b.length 1 with
  | none => rfl
  | some pos => rfl

theorem parseIn_other (s : Bytes) (hb : b ≠ []) (hstar : b[0]? ≠ some 42) : parseIn b s = some (.error (-2)) := by
  have hpos := List.length_pos_of_ne_nil hb
  rw [parseIn, respParseBulkSize, if_neg (by omega), getElem?_received s hpos, if_pos hstar]

theorem parseIn_coherent (hb : b ≠ []) (hset : Settled b) : Coherent parseIn b := by
  have hpos := List.length_pos_of_ne_nil hb
  apply Coherent.of_stable
  · intro s total h _ hp
    obtain ⟨pos, hscan, hargs⟩ := parse_cases hp
    obtain ⟨-, hlt, -⟩ := scanLine_spec hscan
    exact (parseArgs_within hlt hargs).2
  · intro e s s' _
    have hbe : b ++ e ≠ [] := by simp [hb]
    by_cases hstar : b[0]? = some 42
    · rw [parseIn_star s hb hstar, parseIn_star s' hbe ((getElem?_received e hpos).trans hstar)]
      cases hscan : scanLine b b.length 1 with
      | none => exact .inl rfl
      | some pos =>
        have hset' := hset.resolve_left (not_not.mpr hstar)
        rw [hscan] at hset'
        have hscan' : scanLine (b ++ e) (b ++ e).length 1 = some pos := by
          rw [List.length_append]
          exact scanLine_extend e e.length hpos hpos hscan
        cases hatoi : atoi b 1 with
        | none =>
          rw [hatoi] at hset'
          exact hset'.elim
        | some argc =>
          rw [hatoi] at hset'
          rw [hscan', List.append_assoc]
          simp only [atoi_extend _ hatoi, Option.bind_some, List.length_append]
          exact parseArgs_stable hset' s (e ++ s') e.length
    · right
      rw [parseIn_other s hb hstar, parseIn_other s' hbe]
      rw [getElem?_received e hpos]
      exact hstar

end Stable

section Unsettled

variable {b : Bytes} {p : ℕ}

theorem valueFrom_acc (acc : ℕ) (ds : Bytes) : valueFrom acc ds = acc * 10 ^ ds.length + valueFrom 0 ds := by
  induction ds generalizing acc with
  | nil => simp [valueFrom]
  | cons c ds ih =>
    have hcons : ∀ a, valueFrom a (c :: ds) = valueFrom (10 * a + digitValue c) ds := fun _ => rfl
    rw [hcons, hcons, ih, ih (10 * 0 + digitValue c), List.length_cons, pow_succ]
    ring

/-- What `atoi` has read when it runs into the end of `b`: the sign and the digits so far. -/
def numberOf (b : Bytes) (p : ℕ) : Bool × Bytes := signOf ((b.drop p).dropWhile isSpace)

theorem signOf_suffix (t : Bytes) : ∃ front, t = front ++ (signOf t).2 ∧ ∀ c ∈ front, c ≠ 36 := by
  unfold signOf
  split
  · exact ⟨[45], rfl, by simp⟩
  · exact ⟨[43], rfl, by simp⟩
  · exact ⟨[], rfl, by simp⟩

theorem space_ne_dollar {c : UInt8} (h : isSpace c = true) : c ≠ 36 := by
  rintro rfl
  exact absurd h (by decide)

theorem digit_ne {c : UInt8} (h : isDigit c = true) : c ≠ 10 ∧ c ≠ 36 := by
  constructor
  · rintro rfl
    exact absurd h (by decide)
  · rintro rfl
    exact absurd h (by decide)

theorem digits_of_atoi_none (h : atoi b p = none) : ∀ c ∈ (numberOf b p).2, isDigit c = true := by
  rw [atoi] at h
  by_cases hend : (numberOf b p).2.dropWhile isDigit = []
  · exact List.dropWhile_eq_nil_iff.mp hend
  · have hne : ¬ (signOf ((b.drop p).dropWhile isSpace)).2.dropWhile isDigit = [] := hend
    simp only [if_neg hne] at h
    cases h

theorem unfinished_text (b : Bytes) (p : ℕ) :
    ∃ front, b.drop p = front ++ (numberOf b p).2 ∧ ∀ c ∈ front, c ≠ 36 := by
  obtain ⟨sign, hsign, hfront⟩ := signOf_suffix ((b.drop p).dropWhile isSpace)
  refine ⟨(b.drop p).takeWhile isSpace ++ sign, ?_, ?_⟩
  · rw [List.append_assoc, numberOf, ← hsign, List.takeWhile_append_dropWhile]
  · intro c hc
    rcases List.mem_append.mp hc with hc | hc
    · exact space_ne_dollar (List.mem_takeWhile_imp hc)
    · exact hfront c hc

theorem no_mark_of_atoi_none (h : atoi b p = none) {i : ℕ} (hp : p ≤ i) : b[i]? ≠ some 36 := by
  obtain ⟨front, htext, hfront⟩ := unfinished_text b p
  intro hi
  have hmem : (36 : UInt8) ∈ b.drop p := by
    apply List.mem_of_getElem? (i := i - p)
    rw [List.getElem?_drop, show p + (i - p) = i by omega]
    exact hi
  rw [htext] at hmem
  rcases List.mem_append.mp hmem with hm | hm
  · exact hfront _ hm rfl
  · exact (digit_ne (digits_of_atoi_none h _ hm)).2 rfl

theorem digits_after_line (h : atoi b p = none) {q : ℕ} (hp : p ≤ q) (hq : b[q]? = some 10) :
    q + 1 + (numberOf b p).2.length ≤ b.length := by
  obtain ⟨front, htext, -⟩ := unfinished_text b p
  have hget : (b.drop p)[q - p]? = some 10 := by
    rw [List.getElem?_drop, show p + (q - p) = q by omega]
    exact hq
  have hlen := congrArg List.length htext
  rw [List.length_drop, List.length_append] at hlen
  have hfront : q - p < front.length := by
    by_contra hge
    rw [htext, List.getElem?_append_right (Nat.not_lt.mp hge)] at hget
    exact (digit_ne (digits_of_atoi_none h _ (List.mem_of_getElem? hget))).1 rfl
  omega

/-- Any digits, and a byte that ends them, complete an unfinished number. -/
theorem atoi_complete (h : atoi b p = none) (hp : p ≤ b.length) {ds : Bytes} (hd : ∀ c ∈ ds, isDigit c = true) :
    atoi (b ++ (ds ++ [0])) p = some (toInt (clampLong
      (if (numberOf b p).1 then -(valueFrom 0 ((numberOf b p).2 ++ ds) : ℤ)
        else valueFrom 0 ((numberOf b p).2 ++ ds)))) := by
  have hall : ∀ c ∈ (numberOf b p).2 ++ ds, isDigit c = true := by
    intro c hc
    rcases List.mem_append.mp hc with hc | hc
    · exact digits_of_atoi_none h c hc
    · exact hd c hc
  have hnumber : signOf (((b ++ (ds ++ [0])).drop p).dropWhile isSpace) =
      ((numberOf b p).1, (numberOf b p).2 ++ ds ++ [0]) := by
    rw [List.drop_append_of_le_length hp, List.dropWhile_append, numberOf, List.append_assoc]
    cases hspace : (b.drop p).dropWhile isSpace with
    | cons c t => exact signOf_append c t _
    | nil =>
      cases ds with
      | nil => rfl
      | cons d ds =>
        have hdig := hd d List.mem_cons_self
        rw [List.isEmpty_nil, if_pos rfl, List.cons_append, List.dropWhile_cons_of_neg (by simp [not_space_of_digit hdig]),
          signOf_digit _ hdig]
        rfl
  have hdrop : ((numberOf b p).2 ++ ds ++ [0]).dropWhile isDigit ≠ [] := by
    intro hnil
    exact absurd (List.dropWhile_eq_nil_iff.mp hnil 0 (by simp)) (by decide)
  have htake : ((numberOf b p).2 ++ ds ++ [0]).takeWhile isDigit = (numberOf b p).2 ++ ds := by
    rw [List.takeWhile_append_of_pos hall, List.takeWhile_cons_of_neg (by decide), List.append_nil]
  rw [atoi, hnumber]
  simp only [if_neg hdrop, htake]

def nines : Bytes := List.replicate 20 57

theorem nines_digits : ∀ c ∈ nines, isDigit c = true := by
  intro c hc
  rw [List.eq_of_mem_replicate hc]
  decide

/-- Enough digits push a number past `LONG_MAX` or `LONG_MIN`. -/
theorem atoi_saturate (h : atoi b p = none) (hp : p ≤ b.length) :
    ∃ v, atoi (b ++ (nines ++ [0])) p = some v ∧ (v = -1 ∨ v = 0) := by
  refine ⟨_, atoi_complete h hp nines_digits, ?_⟩
  have hbig : 10 ^ 20 - 1 ≤ valueFrom 0 ((numberOf b p).2 ++ nines) := by
    rw [valueFrom_append, valueFrom_acc, show valueFrom 0 nines = 10 ^ 20 - 1 by decide]
    exact Nat.le_add_left _ _
  split
  · right
    rw [clampLong, min_eq_right (by omega), max_eq_left (by omega)]
    decide
  · left
    rw [clampLong, min_eq_left (by omega), max_eq_right (by decide)]
    decide

theorem padded_digits {d k : ℕ} (hd : d < 10 ^ k) (hk : 0 < k) :
    ∃ ds : Bytes, ds.length = k ∧ (∀ c ∈ ds, isDigit c = true) ∧ valueFrom 0 ds = d := by
  have hlen := decimal_length_le hd hk
  refine ⟨List.replicate (k - (decimal d).length) 48 ++ decimal d, ?_, ?_, ?_⟩
  · rw [List.length_append, List.length_replicate]
    omega
  · intro c hc
    rcases List.mem_append.mp hc with hc | hc
    · rw [List.eq_of_mem_replicate hc]
      decide
    · exact decimal_digits d c hc
  · have hzero : ∀ m, valueFrom 0 (List.replicate m 48) = 0 := by
      intro m
      induction m with
      | zero => rfl
      | succ m ih => exact ih
    rw [valueFrom_append, hzero, valueFrom_decimal]

theorem valueFrom_lt {ds : Bytes} (hd : ∀ c ∈ ds, isDigit c = true) : valueFrom 0 ds < 10 ^ ds.length := by
  induction ds with
  | nil => decide
  | cons c ds ih =>
    have hc := digitValue_le (hd c List.mem_cons_self)
    have hrest := ih (fun e he => hd e (List.mem_cons_of_mem c he))
    have hcons : valueFrom 0 (c :: ds) = valueFrom (digitValue c) ds := by simp [valueFrom]
    rw [hcons, valueFrom_acc, List.length_cons, pow_succ]
    nlinarith

/-- A number of at most two digits so far can still become -3 modulo 2^32. -/
theorem atoi_steer (h : atoi b p = none) (hp : p ≤ b.length) (hshort : (numberOf b p).2.length ≤ 2) :
    ∃ s, atoi (b ++ s) p = some (-3) := by
  have hv : valueFrom 0 (numberOf b p).2 < 100 :=
    (valueFrom_lt (digits_of_atoi_none h)).trans_le (Nat.pow_le_pow_right (by decide) hshort)
  set v := valueFrom 0 (numberOf b p).2 with hvdef
  set target := if (numberOf b p).1 then 3 else 2 ^ 32 - 3 with htarget
  have htlt : target < 2 ^ 32 := by
    rw [htarget]
    split <;> decide
  obtain ⟨ds, hlen, hdig, hval⟩ :=
    padded_digits (d := (target + 2 ^ 32 - v * 10 ^ 10 % 2 ^ 32) % 2 ^ 32) (k := 10) (by omega) (by decide)
  have hsum : valueFrom 0 ((numberOf b p).2 ++ ds) % 2 ^ 32 = target := by
    rw [valueFrom_append, valueFrom_acc, hlen, hval, ← hvdef]
    omega
  have hbound : valueFrom 0 ((numberOf b p).2 ++ ds) < 2 ^ 62 := by
    rw [valueFrom_append, valueFrom_acc, hlen, hval, ← hvdef]
    omega
  refine ⟨ds ++ [0], ?_⟩
  rw [atoi_complete h hp hdig]
  generalize valueFrom 0 ((numberOf b p).2 ++ ds) = w at hsum hbound
  congr 1
  rw [htarget] at hsum
  split at hsum
  · next hneg =>
    rw [if_pos hneg, clampLong, min_eq_right (by omega), max_eq_right (by omega), toInt, Int.bmod_def]
    split <;> omega
  · next hneg =>
    rw [if_neg hneg, clampLong, min_eq_right (by omega), max_eq_right (by omega), toInt, Int.bmod_def]
    split <;> omega

def Decided (r : Option BulkSize) : Prop := (∃ total head, r = some (.frame total head)) ∨ ∃ c, r = some (.error c)

variable {head n pos q : ℕ}

theorem jump_eq {r : ℕ} {bsLen : ℤ} (h : (q : ℤ) + (bsLen + 2) = r) (hr : r < 2 ^ 64) : jump q bsLen = r := by
  rw [jump, h]
  omega

theorem decided_of_no_mark (s : Bytes) {r : ℕ} (hr : r + 1 < b.length) (hmark : b[r + 1]? ≠ some 36) :
    Decided (parseArgs (b ++ s) b.length head n r) := by
  cases n with
  | zero => exact .inl ⟨_, _, rfl⟩
  | succ n =>
    right
    refine ⟨-2, ?_⟩
    rw [parseArgs, if_neg (by omega), getElem?_received s hr, if_pos hmark]

theorem decided_at_line (hlen : b.length ≤ intMax) (hmark : b[pos + 1]? = some 36)
    (hscan : scanLine b b.length (pos + 1) = some q) (hatoi : atoi b (pos + 2) = none) :
    ∃ s, Decided (parseArgs (b ++ s) b.length head (n + 1) pos) := by
  obtain ⟨-, hq, hlf, -⟩ := scanLine_spec hscan
  obtain ⟨-, hafter, -⟩ := scanLine_bulk hmark hscan
  have hin : pos + 1 < b.length := by omega
  have hroom := digits_after_line hatoi (by omega) hlf
  simp only [intMax] at hlen
  -- after the number the scan lands inside `b`, at a byte that is not a mark
  have hland : ∀ (s : Bytes) (v : ℤ) (r : ℕ), atoi (b ++ s) (pos + 2) = some v → (q : ℤ) + (v + 2) = r →
      v ≤ 0 → q ≤ r + 1 → r + 1 < b.length → Decided (parseArgs (b ++ s) b.length head (n + 1) pos) := by
    intro s v r hv hr hneg hlow hhigh
    rw [parseArgs_line head n (by omega) ((getElem?_received s hin).trans hmark)
      ((scanLine_received s (by omega)).trans hscan), hv, Option.bind_some, if_neg (by simp only [intMax]; omega),
      jump_eq hr (by omega), if_neg (by omega)]
    exact decided_of_no_mark s hhigh (no_mark_of_atoi_none hatoi (by omega))
  by_cases hshort : (numberOf b (pos + 2)).2.length ≤ 2
  · obtain ⟨s, hs⟩ := atoi_steer hatoi (by omega) hshort
    exact ⟨s, hland s (-3) (q - 1) hs (by omega) (by decide) (by omega) (by omega)⟩
  · obtain ⟨v, hv, rfl | rfl⟩ := atoi_saturate hatoi (by omega)
    · exact ⟨_, hland _ (-1) (q + 1) hv (by omega) (by decide) (by omega) (by omega)⟩
    · exact ⟨_, hland _ 0 (q + 2) hv (by omega) le_rfl (by omega) (by omega)⟩

theorem parseArgs_unsettled (hlen : b.length ≤ intMax) (h : ¬ SettledArgs b n pos) :
    parseArgs (b ++ []) b.length head n pos = none ∧ ∃ s, Decided (parseArgs (b ++ s) b.length head n pos) := by
  induction n generalizing pos with
  | zero => exact absurd trivial h
  | succ n ih =>
    by_cases hcase : b.length ≤ pos + 1 ∨ b[pos + 1]? ≠ some 36
    · rw [SettledArgs, if_pos hcase] at h
      exact absurd trivial h
    · obtain ⟨hlt, hmark⟩ := not_or.mp hcase
      have hmark := not_not.mp hmark
      have hin := Nat.not_le.mp hlt
      cases hscan : scanLine b b.length (pos + 1) with
      | none =>
        rw [SettledArgs, if_neg hcase, hscan] at h
        exact absurd trivial h
      | some q =>
        have hline : ∀ s, parseArgs (b ++ s) b.length head (n + 1) pos = _ := fun s =>
          parseArgs_line head n hlt ((getElem?_received s hin).trans hmark) ((scanLine_received s (by omega)).trans hscan)
        cases hatoi : atoi b (pos + 2) with
        | none =>
          refine ⟨?_, decided_at_line hlen hmark hscan hatoi⟩
          rw [hline, List.append_nil, hatoi]
          rfl
        | some bsLen =>
          rw [settledArgs_line hlt hmark hscan] at h
          have hnot := not_exists.mp h bsLen
          simp only [hatoi, true_and, not_or] at hnot
          obtain ⟨hbig, hmore, hrest⟩ := hnot
          have hstep : ∀ s, parseArgs (b ++ s) b.length head (n + 1) pos =
              parseArgs (b ++ s) b.length head n (jump q bsLen) := by
            intro s
            rw [hline, atoi_extend s hatoi, Option.bind_some, if_neg hbig, if_neg hmore]
          simp only [hstep]
          exact ih hrest

theorem parseIn_unsettled (hb : b ≠ []) (hlen : b.length ≤ intMax) (h : ¬ Settled b) :
    parseIn b [] = none ∧ ∃ s, Decided (parseIn b s) := by
  obtain ⟨hstar, hset⟩ := not_or.mp h
  have hstar := not_not.mp hstar
  have hpos := List.length_pos_of_ne_nil hb
  simp only [parseIn_star _ hb hstar]
  cases hscan : scanLine b b.length 1 with
  | none =>
    rw [hscan] at hset
    exact absurd trivial hset
  | some pos =>
    rw [hscan] at hset
    cases hatoi : atoi b 1 with
    | none =>
      obtain ⟨v, hv, hcase⟩ := atoi_saturate hatoi hpos
      refine ⟨by simp [hatoi], nines ++ [0], .inl ⟨pos + 1, pos + 1, ?_⟩⟩
      simp only [hv, Option.bind_some]
      rcases hcase with rfl | rfl <;> rfl
    | some argc =>
      rw [hatoi] at hset
      simp only [atoi_extend _ hatoi, Option.bind_some]
      exact parseArgs_unsettled hlen hset

end Unsettled

theorem not_coherent {b : Bytes} (hb : b ≠ []) (hlen : b.length ≤ intMax) (h : ¬ Settled b) : ¬ Coherent parseIn b := by
  obtain ⟨hnone, s, ⟨total, head, hs⟩ | ⟨c, hs⟩⟩ := parseIn_unsettled hb hlen h
  · intro hco
    obtain ⟨-, hsame⟩ := hco.frame [] s [] total head (by simpa using hlen) hs
    rw [List.append_nil, hnone] at hsame
    cases hsame
  · intro hco
    obtain ⟨c', hsame⟩ := hco.error [] s [] c (by simpa using hlen) hs
    rw [List.append_nil, hnone] at hsame
    cases hsame

end Resp

/-- The answers of both parsers do not depend on how the bytes arrive, unfinished RESP numbers apart. -/
theorem incremental_parsing_iff (b : Bytes) (hb : b ≠ []) (hlen : b.length ≤ intMax) :
    Coherent (fun w _ => some (Kvsp.kvspParseBulkSize w)) b ∧ (Coherent Resp.parseIn b ↔ Resp.Settled b) := by
  refine ⟨Kvsp.parse_coherent hb, ?_, Resp.parseIn_coherent hb⟩
  intro hco
  by_contra hset
  exact Resp.not_coherent hb hlen hset hco

theorem incremental_parsing_iff_ping :
    Coherent (fun w _ => some (Kvsp.kvspParseBulkSize w)) (ascii "*1\r\n$4\r\nPING\r\n") ∧
      (Coherent Resp.parseIn (ascii "*1\r\n$4\r\nPING\r\n") ↔ Resp.Settled (ascii "*1\r\n$4\r\nPING\r\n")) :=
  incremental_parsing_iff _ (by decide +kernel) (by decide +kernel)

/-- An empty count is a request of no arguments until a digit comes after the line end. -/
theorem blank_count_splits :
    Resp.parseIn (ascii "*\r\n") [0] = some (.frame 3 3) ∧
      Resp.parseIn (ascii "*\r\n" ++ ascii "1\r\n") [0] = some (.error (-2)) ∧ ¬ Coherent Resp.parseIn (ascii "*\r\n") := by
  have hshort : Resp.parseIn (ascii "*\r\n") [0] = some (.frame 3 3) := by decide +kernel
  have hlong : Resp.parseIn (ascii "*\r\n" ++ ascii "1\r\n") [0] = some (.error (-2)) := by decide +kernel
  refine ⟨hshort, hlong, ?_⟩
  intro hco
  obtain ⟨-, hsame⟩ := hco.frame (ascii "1\r\n") [0] [0] 3 3 (by decide) hshort
  rw [hlong] at hsame
  cases hsame

end Lidis
