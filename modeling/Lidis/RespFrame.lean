import Lidis.Resp

namespace Lidis.Resp

theorem clampLong_of_le {n : ℕ} (h : n ≤ intMax) : clampLong n = n := by
  simp only [clampLong, intMax] at h ⊢
  omega

theorem not_space_of_digit {c : UInt8} (h : isDigit c = true) : isSpace c = false := by
  simp only [isDigit, isSpace, Bool.and_eq_true, decide_eq_true_eq, decide_eq_false_iff_not, UInt8.le_iff_toNat_le,
    ← UInt8.toNat_inj, UInt8.toNat_ofNat] at h ⊢
  omega

theorem signOf_digit {c : UInt8} (t : Bytes) (h : isDigit c = true) : signOf (c :: t) = (false, c :: t) := by
  unfold signOf
  split
  · next heq =>
    obtain ⟨rfl, -⟩ := List.cons.inj heq
    exact absurd h (by decide)
  · next heq =>
    obtain ⟨rfl, -⟩ := List.cons.inj heq
    exact absurd h (by decide)
  · rfl

theorem atoi_decimal {mem : Bytes} {pos n : ℕ} (rest : Bytes) (hn : n ≤ intMax)
    (h : mem.drop pos = decimal n ++ 13 :: rest) : atoi mem pos = some (n : ℤ) := by
  obtain ⟨c, ds, hds⟩ := List.exists_cons_of_ne_nil (decimal_ne_nil n)
  have hc : isDigit c = true := decimal_digits n c (by rw [hds]; exact List.mem_cons_self)
  have hspace : (mem.drop pos).dropWhile isSpace = decimal n ++ 13 :: rest := by
    rw [h, hds, List.cons_append, List.dropWhile_cons_of_neg (by simp [not_space_of_digit hc])]
  have hsign : signOf (decimal n ++ 13 :: rest) = (false, decimal n ++ 13 :: rest) := by
    rw [hds, List.cons_append]
    exact signOf_digit _ hc
  have htake : (decimal n ++ 13 :: rest).takeWhile isDigit = decimal n := by
    rw [List.takeWhile_append_of_pos (decimal_digits n), List.takeWhile_cons_of_neg (by decide), List.append_nil]
  have hdrop : (decimal n ++ 13 :: rest).dropWhile isDigit = 13 :: rest := by
    rw [List.dropWhile_append_of_pos (decimal_digits n), List.dropWhile_cons_of_neg (by decide)]
  simp only [atoi, hspace, hsign, htake, hdrop, valueFrom_decimal, reduceCtorEq, ↓reduceIte, Bool.false_eq_true]
  rw [clampLong_of_le hn, toInt_of_le hn]

theorem lineEnd_line {line : Bytes} (prev : UInt8) (rest : Bytes) (h : ∀ c ∈ line, c ≠ 10 ∧ c ≠ 13) (hl : line ≠ []) :
    lineEnd prev (line ++ 13 :: 10 :: rest) = some (line.length + 1) := by
  induction line generalizing prev with
  | nil => exact absurd rfl hl
  | cons c line ih =>
    have hc := h c List.mem_cons_self
    rw [List.cons_append, lineEnd, if_neg (by simp [hc.1])]
    by_cases hne : line = []
    · subst hne
      simp [lineEnd]
    · rw [ih c (fun d hd => h d (List.mem_cons_of_mem c hd)) hne]
      rfl

theorem lineEnd_cut {line : Bytes} (prev : UInt8) (rest : Bytes) (k : ℕ) (h : ∀ c ∈ line, c ≠ 10 ∧ c ≠ 13)
    (hl : line ≠ []) (hk : k < line.length + 2) : lineEnd prev ((line ++ 13 :: 10 :: rest).take k) = none := by
  induction line generalizing prev k with
  | nil => exact absurd rfl hl
  | cons c line ih =>
    have hc := h c List.mem_cons_self
    cases k with
    | zero => rfl
    | succ k =>
      rw [List.cons_append, List.take_succ_cons, lineEnd, if_neg (by simp [hc.1])]
      by_cases hne : line = []
      · subst hne
        have hk' : k = 0 ∨ k = 1 := by
          simp only [List.length_cons, List.length_nil] at hk
          omega
        rcases hk' with rfl | rfl <;> simp [lineEnd]
      · rw [ih c k (fun d hd => h d (List.mem_cons_of_mem c hd)) hne (by simpa using hk)]
        rfl

theorem plain_of_digit {c : UInt8} (h : isDigit c = true) : c ≠ 10 ∧ c ≠ 13 := by
  constructor <;> (rintro rfl; exact absurd h (by decide))

theorem arrived {mem : Bytes} {k : ℕ} (a b : Bytes) (h : mem.take k = (a ++ b).take k) (hk : a.length ≤ k) :
    mem = a ++ mem.drop a.length := by
  have ha : mem.take a.length = a := by
    calc mem.take a.length = (mem.take k).take a.length := by rw [List.take_take, min_eq_left hk]
      _ = a := by rw [h, List.take_take, min_eq_left hk, List.take_left]
  conv_lhs => rw [← List.take_append_drop a.length mem, ha]

section Reading

variable {mem : Bytes} {k : ℕ}

theorem scanLine_line (pre line tail : Bytes) (hl : line ≠ []) (hp : ∀ c ∈ line, c ≠ 10 ∧ c ≠ 13)
    (hk : mem.take k = (pre ++ (line ++ 13 :: 10 :: tail)).take k) :
    scanLine mem k pre.length =
      if pre.length + line.length + 2 ≤ k then some (pre.length + line.length + 1) else none := by
  have hseen : (mem.take k).drop pre.length = (line ++ 13 :: 10 :: tail).take (k - pre.length) := by
    rw [hk, List.drop_take, List.drop_left]
  rw [scanLine, hseen]
  split_ifs with hfit
  · have hgrow : (line ++ 13 :: 10 :: tail).take (k - pre.length) =
        line ++ 13 :: 10 :: tail.take (k - pre.length - line.length - 2) := by
      rw [List.take_append, List.take_of_length_le (by omega),
        show k - pre.length - line.length = (k - pre.length - line.length - 2) + 1 + 1 by omega,
        List.take_succ_cons, List.take_succ_cons]
      rfl
    rw [hgrow, lineEnd_line _ _ hp hl]
    rfl
  · rw [lineEnd_cut _ _ _ hp hl (by omega)]
    rfl

theorem atoi_arrived (pre tail : Bytes) {n : ℕ} (hn : n ≤ intMax) (hk : mem.take k = (pre ++ (decimal n ++ 13 :: tail)).take k)
    (hfit : pre.length + (decimal n).length + 1 ≤ k) : atoi mem pre.length = some (n : ℤ) := by
  have hmem : mem = (pre ++ (decimal n ++ [13])) ++ mem.drop (pre ++ (decimal n ++ [13])).length := by
    refine arrived _ tail ?_ (by simp only [List.length_append, List.length_singleton]; omega)
    rw [hk]
    simp
  refine atoi_decimal (mem.drop (pre ++ (decimal n ++ [13])).length) hn ?_
  conv_lhs => rw [hmem]
  rw [List.append_assoc, List.drop_left]
  simp

theorem bulkOf_length (s : Bytes) : (bulkOf s).length = (decimal s.length).length + s.length + 5 := by
  simp only [bulkOf, crlf, List.length_append, List.length_cons, List.length_nil]
  omega

theorem count_le_bulks (bs : List Bytes) : bs.length ≤ (bs.flatMap bulkOf).length := by
  induction bs with
  | nil => exact le_rfl
  | cons s bs ih =>
    simp only [List.flatMap_cons, List.length_append, List.length_cons, bulkOf_length]
    omega

theorem parseArgs_bulks (bs : List Bytes) (pre tail : Bytes) (head : ℕ) (hp : pre ≠ []) (hpk : pre.length ≤ k)
    (hk : mem.take k = (pre ++ (bs.flatMap bulkOf ++ tail)).take k) (hs : (pre ++ bs.flatMap bulkOf).length ≤ intMax) :
    parseArgs mem k head bs.length (pre.length - 1) =
      some (if (pre ++ bs.flatMap bulkOf).length ≤ k then .frame (pre ++ bs.flatMap bulkOf).length head else .more) := by
  have hpos : 0 < pre.length := List.length_pos_iff.mpr hp
  induction bs generalizing pre with
  | nil =>
    simp only [List.length_nil, parseArgs, List.flatMap_nil, List.append_nil, hpk, ↓reduceIte]
    rw [Nat.sub_add_cancel hpos]
  | cons s bs ih =>
    have hbulk := bulkOf_length s
    have hlen : (pre ++ (s :: bs).flatMap bulkOf).length = pre.length + (bulkOf s).length + (bs.flatMap bulkOf).length := by
      simp only [List.flatMap_cons, List.length_append]
      omega
    rw [List.length_cons, parseArgs, Nat.sub_add_cancel hpos, show pre.length - 1 + 2 = pre.length + 1 by omega]
    by_cases hend : k ≤ pre.length
    · rw [if_pos hend, if_neg (by omega)]
    · have hmark : mem[pre.length]? = some 36 := by
        have hmem := arrived (pre ++ [36]) (decimal s.length ++ (crlf ++ (s ++ crlf)) ++ (bs.flatMap bulkOf ++ tail))
          (by rw [hk]; simp [bulkOf]) (by simp only [List.length_append, List.length_singleton]; omega)
        rw [hmem]
        simp
      have hplain : ∀ c ∈ 36 :: decimal s.length, c ≠ 10 ∧ c ≠ 13 := by
        intro c hc
        rcases List.mem_cons.mp hc with rfl | hc
        · decide
        · exact plain_of_digit (decimal_digits _ c hc)
      have hscan := scanLine_line pre (36 :: decimal s.length) (s ++ crlf ++ (bs.flatMap bulkOf ++ tail))
        (by simp) hplain (hk.trans (by simp [bulkOf, crlf]))
      have hsmall : s.length + 2 ≤ intMax := by omega
      rw [if_neg hend, if_neg (by simp [hmark]), hscan]
      simp only [List.length_cons]
      by_cases hfit : pre.length + ((decimal s.length).length + 1) + 2 ≤ k
      · have hatoi : atoi mem (pre ++ [36]).length = some (s.length : ℤ) :=
          atoi_arrived _ (10 :: (s ++ crlf ++ (bs.flatMap bulkOf ++ tail))) (by omega)
            (hk.trans (by simp [bulkOf, crlf])) (by simp only [List.length_append, List.length_singleton]; omega)
        rw [List.length_append, List.length_singleton] at hatoi
        have hjump : (((pre.length + ((decimal s.length).length + 1) + 1 : ℕ) : ℤ) + ((s.length : ℤ) + 2)) % 2 ^ 64 =
            (((pre ++ bulkOf s).length - 1 : ℕ) : ℤ) := by
          rw [List.length_append, Int.emod_eq_of_lt (by positivity)]
          · omega
          · simp only [intMax] at hs
            omega
        simp only [hfit, ↓reduceIte, hatoi, bind, Option.bind, hjump, Int.toNat_natCast]
        rw [if_neg (by omega)]
        by_cases hwhole : k ≤ (pre ++ bulkOf s).length - 1
        · rw [if_pos hwhole, if_neg]
          rw [List.length_append] at hwhole
          omega
        · rw [if_neg hwhole, ih (pre ++ bulkOf s) (by simp [hp]) (by omega) (by rw [hk]; simp) (by simpa using hs)
            (by rw [List.length_append]; omega)]
          simp
      · rw [if_neg hfit, if_neg (by omega)]

theorem parse_rawFrame {bs : List Bytes} {rest : Bytes} (hk : mem.take k = (rawFrame bs ++ rest).take k) (h0 : 0 < k)
    (hs : (rawFrame bs).length ≤ intMax) :
    respParseBulkSize mem k =
      some (if (rawFrame bs).length ≤ k then .frame (rawFrame bs).length (headOf bs.length).length else .more) := by
  have hhead : (headOf bs.length).length = (decimal bs.length).length + 3 := by simp [headOf, crlf]
  have hlen : (rawFrame bs).length = (headOf bs.length).length + (bs.flatMap bulkOf).length := List.length_append
  have hmark : mem[0]? = some 42 := by
    have hmem := arrived [42] (decimal bs.length ++ crlf ++ bs.flatMap bulkOf ++ rest)
      (by rw [hk]; simp [rawFrame, headOf]) h0
    rw [hmem]
    rfl
  have hscan := scanLine_line [42] (decimal bs.length) (bs.flatMap bulkOf ++ rest) (decimal_ne_nil _)
    (fun c hc => plain_of_digit (decimal_digits _ c hc)) (hk.trans (by simp [rawFrame, headOf, crlf]))
  have hcount := count_le_bulks bs
  rw [respParseBulkSize, if_neg (by omega), if_neg (by simp [hmark])]
  simp only [List.length_singleton] at hscan
  rw [hscan]
  by_cases hfit : 1 + (decimal bs.length).length + 2 ≤ k
  · have hatoi : atoi mem [(42 : UInt8)].length = some (bs.length : ℤ) :=
      atoi_arrived _ (10 :: (bs.flatMap bulkOf ++ rest)) (by omega)
        (hk.trans (by simp [rawFrame, headOf, crlf])) (by simp only [List.length_singleton]; omega)
    rw [List.length_singleton] at hatoi
    simp only [hfit, ↓reduceIte, hatoi, bind, Option.bind, Int.toNat_natCast]
    have hargs := parseArgs_bulks bs (headOf bs.length) rest (headOf bs.length).length (by simp [headOf])
      (by omega) (hk.trans (by simp [rawFrame]))
      (by rw [List.length_append]; omega)
    rw [← rawFrame] at hargs
    rw [show 1 + (decimal bs.length).length + 1 + 1 = (headOf bs.length).length by omega,
      show 1 + (decimal bs.length).length + 1 = (headOf bs.length).length - 1 by omega, hargs]
  · rw [if_neg hfit, if_neg (by omega)]

end Reading

def marked (s : Bytes) : Bytes := 36 :: (decimal s.length ++ (crlf ++ (s ++ [0, 10])))

def addresses : ℕ → List Bytes → List ℕ
  | _, [] => []
  | pos, s :: bs => (pos + (decimal s.length).length + 3) :: addresses (pos + (bulkOf s).length) bs

theorem marked_length (s : Bytes) : (marked s).length = (bulkOf s).length := by simp [marked, bulkOf, crlf]

theorem findIdx_digits {ds : Bytes} (rest : Bytes) (h : ∀ c ∈ ds, isDigit c = true) :
    (ds ++ 13 :: rest).findIdx? (· = 13) = some ds.length := by
  have hds : ds.findIdx? (fun c => decide (c = 13)) = none := by
    rw [List.findIdx?_eq_none_iff]
    intro c hc
    simpa using (plain_of_digit (h c hc)).2
  rw [List.findIdx?_append, hds]
  simp [List.findIdx?_cons]

theorem poke_cell (a b : Bytes) (c d : UInt8) : poke (a ++ c :: b) a.length d = some (a ++ d :: b) := by
  have hin : (0 : ℤ) ≤ (a.length : ℤ) ∧ (a.length : ℤ) < ((a ++ c :: b).length : ℕ) := by
    simp only [List.length_append, List.length_cons]
    omega
  rw [poke, if_pos hin, Int.toNat_natCast, List.set_append_right _ _ le_rfl, Nat.sub_self]
  rfl

theorem splitBulks_bulks (bs : List Bytes) (slots : ℕ) (front rest : Bytes) (tokens : List ℕ) (h : bs.length ≤ slots)
    (hs : ∀ s ∈ bs, s.length ≤ intMax) :
    splitBulks slots (front ++ (bs.flatMap bulkOf ++ 0 :: rest)) front.length tokens =
      some (some (front ++ (bs.flatMap marked ++ 0 :: rest), tokens ++ addresses front.length bs)) := by
  induction bs generalizing slots front tokens with
  | nil =>
    unfold splitBulks
    simp [byteAt, addresses]
  | cons s bs ih =>
    obtain ⟨n, rfl⟩ := Nat.exists_eq_succ_of_ne_zero (by rintro rfl; simp at h : slots ≠ 0)
    have hmem : front ++ ((s :: bs).flatMap bulkOf ++ 0 :: rest) =
        (front ++ [36]) ++ (decimal s.length ++ 13 :: (10 :: (s ++ crlf) ++ (bs.flatMap bulkOf ++ 0 :: rest))) := by
      simp [bulkOf, crlf]
    have hcell : front ++ ((s :: bs).flatMap bulkOf ++ 0 :: rest) =
        (front ++ 36 :: (decimal s.length ++ (crlf ++ s))) ++ 13 :: (10 :: (bs.flatMap bulkOf ++ 0 :: rest)) := by
      simp [bulkOf, crlf]
    have hbyte : byteAt (front ++ ((s :: bs).flatMap bulkOf ++ 0 :: rest)) front.length = some 36 := by
      simp [byteAt, bulkOf]
    have hdrop : (front ++ ((s :: bs).flatMap bulkOf ++ 0 :: rest)).drop (front.length + 1) =
        decimal s.length ++ 13 :: (10 :: (s ++ crlf) ++ (bs.flatMap bulkOf ++ 0 :: rest)) := by
      rw [hmem, show front.length + 1 = (front ++ [(36 : UInt8)]).length by simp, List.drop_left]
    have hatoi := atoi_decimal _ (hs s List.mem_cons_self) hdrop
    have hgap : ((front ++ ((s :: bs).flatMap bulkOf ++ 0 :: rest)).drop (front.length + 1)).findIdx? (· = 13) =
        some (decimal s.length).length := by
      rw [hdrop]
      exact findIdx_digits _ (decimal_digits _)
    have hat : (((front.length + 1 + (decimal s.length).length + 2 : ℕ) : ℤ) + (s.length : ℤ)) =
        ((front ++ 36 :: (decimal s.length ++ (crlf ++ s))).length : ℕ) := by
      simp only [List.length_append, List.length_cons, crlf, List.length_nil]
      push_cast
      ring
    have hpoke : poke (front ++ ((s :: bs).flatMap bulkOf ++ 0 :: rest))
        ((front.length + 1 + (decimal s.length).length + 2 : ℕ) + (s.length : ℤ)) 0 =
        some ((front ++ marked s) ++ (bs.flatMap bulkOf ++ 0 :: rest)) := by
      rw [hat, hcell, poke_cell]
      simp [marked]
    have hnext : (((front.length + 1 + (decimal s.length).length + 2 : ℕ) : ℤ) + (s.length : ℤ)) + 2 =
        ((front ++ marked s).length : ℕ) := by
      rw [hat, List.length_append, List.length_append]
      simp only [marked, List.length_append, List.length_cons, crlf, List.length_nil]
      push_cast
      ring
    unfold splitBulks
    simp only [hbyte, bind, Option.bind, Int.toNat_natCast, hatoi, hgap, hpoke, hnext]
    rw [if_neg (by decide), if_neg (by decide), ih n (front ++ marked s) (tokens ++ [front.length + 1 + (decimal s.length).length + 2])
      (by simpa using h) (fun t ht => hs t (List.mem_cons_of_mem s ht))]
    simp only [addresses, List.flatMap_cons, List.append_assoc, List.singleton_append, List.length_append, marked_length]
    rw [show front.length + 1 + (decimal s.length).length + 2 = front.length + (decimal s.length).length + 3 by omega]

theorem read_addresses (bs : List Bytes) (front rest : Bytes) :
    (addresses front.length bs).mapM (CString.read (front ++ (bs.flatMap marked ++ rest))) = some (bs.map CString.prefixOf) := by
  induction bs generalizing front with
  | nil => rfl
  | cons s bs ih =>
    have hread : CString.read (front ++ ((s :: bs).flatMap marked ++ rest))
        (front.length + (decimal s.length).length + 3) = some (CString.prefixOf s) := by
      have hmem : front ++ ((s :: bs).flatMap marked ++ rest) =
          (front ++ 36 :: (decimal s.length ++ crlf)) ++ (s ++ 0 :: (10 :: (bs.flatMap marked ++ rest))) := by
        simp [marked]
      have hpos : front.length + (decimal s.length).length + 3 =
          (front ++ 36 :: (decimal s.length ++ crlf)).length := by
        simp only [List.length_append, List.length_cons, crlf, List.length_nil]
        omega
      rw [hmem, hpos]
      exact CString.read_content _ s _
    have hrest := ih (front ++ marked s)
    rw [List.length_append, marked_length, List.append_assoc, ← List.append_assoc (marked s), ← List.flatMap_cons] at hrest
    simp only [addresses, List.mapM_cons, hread, hrest]
    rfl

theorem splitToken_rawFrame {bs : List Bytes} (rest : Bytes) (hmax : bs.length ≤ maxTokens)
    (hl : (rawFrame bs).length ≤ intMax) :
    ∃ mem tokens, splitToken (rawFrame bs ++ 0 :: rest) (headOf bs.length).length = some (some (mem, tokens)) ∧
      tokens.mapM (CString.read mem) = some (bs.map CString.prefixOf) ∧ mem.drop (rawFrame bs).length = 0 :: rest := by
  have hsmall : ∀ s ∈ bs, s.length ≤ intMax := by
    intro s hs
    obtain ⟨a, b, rfl⟩ := List.append_of_mem hs
    simp only [rawFrame, List.flatMap_append, List.flatMap_cons, List.length_append, bulkOf_length] at hl
    omega
  refine ⟨headOf bs.length ++ (bs.flatMap marked ++ 0 :: rest), addresses (headOf bs.length).length bs, ?_,
    read_addresses bs _ _, ?_⟩
  · rw [rawFrame, List.append_assoc, splitToken, splitBulks_bulks bs maxTokens _ rest [] hmax hsmall]
    rfl
  · have hlen : (rawFrame bs).length = (headOf bs.length ++ bs.flatMap marked).length := by
      simp only [rawFrame, List.length_append, List.length_flatMap]
      rw [List.map_congr_left (fun s _ => (marked_length s).symm)]
    rw [hlen, ← List.append_assoc]
    exact List.drop_left

theorem parse_frame {mem : Bytes} {k : ℕ} {ts : List CString} {rest : Bytes}
    (hk : mem.take k = (frameOf ts ++ rest).take k) (h0 : 0 < k) (hs : (frameOf ts).length ≤ intMax) :
    respParseBulkSize mem k =
      some (if (frameOf ts).length ≤ k then .frame (frameOf ts).length (headOf ts.length).length else .more) := by
  have hparse := parse_rawFrame hk h0 hs
  rwa [List.length_map] at hparse

theorem splitToken_frame {ts : List CString} (rest : Bytes) (hmax : ts.length ≤ maxTokens)
    (hl : (frameOf ts).length ≤ intMax) :
    ∃ mem tokens, splitToken (frameOf ts ++ 0 :: rest) (headOf ts.length).length = some (some (mem, tokens)) ∧
      tokens.mapM (CString.read mem) = some ts ∧ mem.drop (frameOf ts).length = 0 :: rest := by
  obtain ⟨mem, tokens, hsplit, hread, hdrop⟩ := splitToken_rawFrame rest (by rwa [List.length_map]) hl
  rw [List.length_map] at hsplit
  rw [CString.map_prefixOf_bytes] at hread
  exact ⟨mem, tokens, hsplit, hread, hdrop⟩

/-- `bufSize` is an int, so the whole of a frame can be handed over only when it fits one. -/
theorem resp_decode_undoes_encode (ts : List CString) (hmax : ts.length ≤ maxTokens) (rest : Bytes)
    (bufSize : Fin (intMax + 1)) (hwhole : (frameOf ts).length ≤ bufSize) :
    respParseBulkSize (frameOf ts ++ rest) bufSize =
        some (.frame (frameOf ts).length (headOf ts.length).length) ∧
      ∀ c after, ∃ mem tokens,
        splitToken ((frameOf ts ++ c :: after).set (frameOf ts).length 0) (headOf ts.length).length =
          some (some (mem, tokens)) ∧ tokens.length = ts.length ∧ tokens.mapM (CString.read mem) = some ts ∧
        mem.drop (frameOf ts).length = 0 :: after := by
  have hl : (frameOf ts).length ≤ intMax := hwhole.trans (Nat.lt_succ_iff.mp bufSize.isLt)
  constructor
  · have hpos : 0 < (frameOf ts).length := by simp [frameOf, rawFrame, headOf]
    have hparse := parse_frame (rfl : (frameOf ts ++ rest).take bufSize = (frameOf ts ++ rest).take bufSize)
      (hpos.trans_le hwhole) hl
    rwa [if_pos hwhole] at hparse
  · intro c after
    obtain ⟨mem, tokens, hsplit, hread, hdrop⟩ := splitToken_frame after hmax hl
    have hset : (frameOf ts ++ c :: after).set (frameOf ts).length 0 = frameOf ts ++ 0 :: after := by
      rw [List.set_append_right _ _ le_rfl, Nat.sub_self]
      rfl
    rw [hset]
    exact ⟨mem, tokens, hsplit, CString.readAll_length hread, hread, hdrop⟩

theorem resp_decode_undoes_encode_example :
    respParseBulkSize (frameOf [.lit "SET", .lit "", .lit "$1\r\n*"] ++ ascii "*2\r\n") 34 = some (.frame 30 4) ∧
      ∃ mem tokens, splitToken ((frameOf [.lit "SET", .lit "", .lit "$1\r\n*"] ++ 42 :: ascii "2\r\n").set 30 0) 4 =
        some (some (mem, tokens)) ∧ tokens.mapM (CString.read mem) = some [.lit "SET", .lit "", .lit "$1\r\n*"] := by
  have hl : (frameOf [.lit "SET", .lit "", .lit "$1\r\n*"]).length = 30 := by decide +kernel
  have hhead : (headOf [CString.lit "SET", .lit "", .lit "$1\r\n*"].length).length = 4 := by decide +kernel
  obtain ⟨hparse, hsplit⟩ := resp_decode_undoes_encode [.lit "SET", .lit "", .lit "$1\r\n*"] (by decide)
    (ascii "*2\r\n") ⟨34, by decide⟩ (by rw [hl]; decide)
  obtain ⟨mem, tokens, hs, -, hread, -⟩ := hsplit 42 (ascii "2\r\n")
  rw [hl, hhead] at hparse hs
  exact ⟨hparse, mem, tokens, hs, hread⟩

end Lidis.Resp
