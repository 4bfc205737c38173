import Lidis.RespFrame

namespace Lidis.Resp

def declared (mem : Bytes) : ℕ := ((atoi mem 1).getD 0).toNat

/-- The frame is handled safely: the bounds of the scanner are in order, the split does not depend on the bytes
after position `total` and leaves them alone, and it stores as many tokens as the head declares. -/
def Handled (mem : Bytes) (bufSize total head : ℕ) : Prop :=
  (0 < head ∧ head ≤ total ∧ total ≤ bufSize) ∧
    ∃ r : Option (Bytes × List ℕ),
      (∀ rest, splitToken (mem.take total ++ 0 :: rest) head = some (r.map (fun s => (s.1 ++ rest, s.2)))) ∧
      ∀ s ∈ r, s.2.length = declared mem ∧ s.2.length ≤ maxTokens

/-- What stands between the `$` at `p` and the line end at `q`. -/
def lineText (mem : Bytes) (p q : ℕ) : Bytes := (mem.take (q - 1)).drop (p + 1)

/-- The split of a frame of `total` bytes reads a length line as the scanner of the whole request did: no CR stands
before the line end, the number is the same where the frame is cut off, and it does not lead back over the line. -/
def AlikeArgs (mem : Bytes) (bufSize total : ℕ) : ℕ → ℕ → Prop
  | 0, _ => True
  | n + 1, pos =>
    match scanLine mem bufSize (pos + 1), atoi mem (pos + 2) with
    | some q, some bsLen =>
      (13 ∉ lineText mem (pos + 1) q ∧ atoi (mem.take total ++ [0]) (pos + 2) = some bsLen ∧ -3 ≤ bsLen) ∧
        AlikeArgs mem bufSize total n ((q : ℤ) + (bsLen + 2)).toNat
    | _, _ => True

instance decidableAlikeArgs (mem : Bytes) (bufSize total : ℕ) :
    (n pos : ℕ) → Decidable (AlikeArgs mem bufSize total n pos)
  | 0, _ => isTrue trivial
  | n + 1, pos => by
    unfold AlikeArgs
    split
    · exact @instDecidableAnd _ _ _ (decidableAlikeArgs mem bufSize total n _)
    · exact isTrue trivial

def AlikeRequest (mem : Bytes) (bufSize total : ℕ) : Prop :=
  match scanLine mem bufSize 1 with
  | some pos => AlikeArgs mem bufSize total (declared mem) pos
  | none => True

instance (mem : Bytes) (bufSize total : ℕ) : Decidable (AlikeRequest mem bufSize total) := by
  unfold AlikeRequest
  split
  · exact decidableAlikeArgs _ _ _ _ _
  · exact isTrue trivial

/-- From position `i` on, with room for `slots` tokens, each `$` that the split comes to has a CR behind it in the frame
and a token that ends in the frame, up to a byte that is no `$` or, after `n` tokens, a NUL. -/
inductive SplitsWithin : ℕ → ℤ → Bytes → ℤ → Prop
  | ends {slots : ℕ} {frame : Bytes} {i : ℤ} (h : byteAt frame i = some 0) : SplitsWithin slots 0 frame i
  | refuses {slots : ℕ} {n : ℤ} {frame : Bytes} {i : ℤ} {c : UInt8} (h : byteAt frame i = some c) (hnul : c ≠ 0)
    (hmark : c ≠ 36) : SplitsWithin slots n frame i
  | bulk {slots gap : ℕ} {n i bsLen : ℤ} {frame frame' : Bytes} (h : byteAt frame i = some 36)
    (hcr : (frame.drop (i.toNat + 1)).findIdx? (· = 13) = some gap) (hlen : atoi frame (i.toNat + 1) = some bsLen)
    (hend : poke frame ((i.toNat + 1 + gap + 2 : ℕ) + bsLen) 0 = some frame')
    (hrest : SplitsWithin slots (n - 1) frame' ((i.toNat + 1 + gap + 2 : ℕ) + bsLen + 2)) :
    SplitsWithin (slots + 1) n frame i

theorem lineEnd_spec {prev : UInt8} {text : Bytes} {k : ℕ} (h : lineEnd prev text = some k) :
    text[k]? = some 10 ∧ (prev :: text)[k]? = some 13 := by
  induction text generalizing prev k with
  | nil => simp [lineEnd] at h
  | cons c text ih =>
    rw [lineEnd] at h
    split_ifs at h with hend
    · obtain rfl := Option.some.inj h
      simp [hend.1, hend.2]
    · obtain ⟨j, hj, rfl⟩ := Option.map_eq_some_iff.mp h
      exact ih hj

theorem scanLine_spec {mem : Bytes} {n p q : ℕ} (h : scanLine mem n p = some q) :
    p ≤ q ∧ q < n ∧ mem[q]? = some 10 ∧ mem[q - 1]? = some 13 := by
  obtain ⟨k, hk, rfl⟩ := Option.map_eq_some_iff.mp h
  obtain ⟨hlf, hcr⟩ := lineEnd_spec hk
  rw [List.getElem?_drop, List.getElem?_take] at hlf
  split_ifs at hlf with hlt
  refine ⟨Nat.le_add_right p k, hlt, hlf, ?_⟩
  cases k with
  | zero =>
    have hbefore : mem[p - 1]?.getD 0 = 13 := Option.some.inj hcr
    cases hm : mem[p - 1]? with
    | none => rw [hm] at hbefore; exact absurd hbefore (by decide)
    | some c => rw [hm] at hbefore; exact congrArg some hbefore
  | succ k =>
    rw [List.getElem?_cons_succ, List.getElem?_drop, List.getElem?_take, if_pos (by omega)] at hcr
    rw [← hcr]
    rfl

/-- The line after a `$` as the scanner of the whole request finds it. -/
theorem scanLine_bulk {mem : Bytes} {n p q : ℕ} (hmark : mem[p]? = some 36)
    (h : scanLine mem n p = some q) :
    q < n ∧ q = p + (lineText mem p q).length + 2 ∧
      mem.drop (p + 1) = lineText mem p q ++ 13 :: mem.drop q := by
  obtain ⟨hle, hlt, hlf, hcr⟩ := scanLine_spec h
  have hne : q ≠ p := by
    rintro rfl
    rw [hmark] at hlf
    exact absurd (Option.some.inj hlf) (by decide)
  have hne' : q - 1 ≠ p := by
    intro heq
    rw [heq, hmark] at hcr
    exact absurd (Option.some.inj hcr) (by decide)
  obtain ⟨hin, hget⟩ := List.getElem?_eq_some_iff.mp hcr
  have hlen : (lineText mem p q).length = q - 1 - (p + 1) := by
    rw [lineText, List.length_drop, List.length_take, min_eq_left hin.le]
  refine ⟨hlt, by omega, ?_⟩
  have htail : mem.drop (q - 1) = 13 :: mem.drop q := by
    rw [List.drop_eq_getElem_cons hin, hget, show q - 1 + 1 = q by omega]
  calc mem.drop (p + 1) = (mem.take (q - 1) ++ mem.drop (q - 1)).drop (p + 1) := by rw [List.take_append_drop]
    _ = lineText mem p q ++ mem.drop (q - 1) := by
      rw [List.drop_append_of_le_length (by rw [List.length_take]; omega)]
      rfl
    _ = lineText mem p q ++ 13 :: mem.drop q := by rw [htail]

theorem signOf_append (c : UInt8) (t rest : Bytes) :
    signOf (c :: t ++ rest) = ((signOf (c :: t)).1, (signOf (c :: t)).2 ++ rest) := by
  unfold signOf
  split
  · next heq =>
    obtain ⟨rfl, rfl⟩ := List.cons.inj heq
    rfl
  · next heq =>
    obtain ⟨rfl, rfl⟩ := List.cons.inj heq
    rfl
  · next h45 h43 =>
    split
    · next heq => exact absurd (by rw [heq]; rfl) (h45 _)
    · next heq => exact absurd (by rw [heq]; rfl) (h43 _)
    · rfl

/-- A number that ends in `b` is read from `b` alone. -/
theorem atoi_extend {b : Bytes} {p : ℕ} {v : ℤ} (s : Bytes) (h : atoi b p = some v) : atoi (b ++ s) p = some v := by
  have hle : p ≤ b.length := by
    by_contra hlt
    rw [atoi, List.drop_of_length_le (by omega)] at h
    cases h
  rw [atoi] at h ⊢
  rw [List.drop_append_of_le_length hle]
  cases hd : (b.drop p).dropWhile isSpace with
  | nil =>
    rw [hd] at h
    cases h
  | cons c t =>
    rw [hd] at h
    rw [List.dropWhile_append, hd]
    simp only [List.isEmpty_cons, Bool.false_eq_true, if_false, signOf_append] at h ⊢
    by_cases hend : (signOf (c :: t)).2.dropWhile isDigit = []
    · rw [if_pos hend] at h
      cases h
    · rw [if_neg hend] at h
      obtain ⟨d, u, hu⟩ := List.exists_cons_of_ne_nil hend
      rw [List.dropWhile_append, hu]
      have htake : ((signOf (c :: t)).2 ++ s).takeWhile isDigit = (signOf (c :: t)).2.takeWhile isDigit := by
        rw [List.takeWhile_append, if_neg]
        intro hlen
        have hsplit := congrArg List.length (List.takeWhile_append_dropWhile (p := isDigit) (l := (signOf (c :: t)).2))
        rw [List.length_append, hu, List.length_cons] at hsplit
        omega
      simpa [htake] using h

theorem findIdx_line {line : Bytes} (rest : Bytes) (h : 13 ∉ line) :
    (line ++ 13 :: rest).findIdx? (· = 13) = some line.length := by
  have hnone : line.findIdx? (fun c => decide (c = 13)) = none := by
    rw [List.findIdx?_eq_none_iff]
    intro c hc
    rw [decide_eq_false_iff_not]
    rintro rfl
    exact h hc
  rw [List.findIdx?_append, hnone]
  simp [List.findIdx?_cons]

section Split

variable {mem : Bytes} {slots : ℕ} {i : ℤ} {tokens : List ℕ}

theorem splitBulks_stop (h : byteAt mem i = some 0) : splitBulks slots mem i tokens = some (some (mem, tokens)) := by
  unfold splitBulks
  simp [h]

theorem splitBulks_refused {c : UInt8} (h : byteAt mem i = some c) (hnul : c ≠ 0) (hmark : c ≠ 36) :
    splitBulks slots mem i tokens = some none := by
  unfold splitBulks
  simp [h, hnul, hmark]

theorem splitBulks_full (h : byteAt mem i = some 36) : splitBulks 0 mem i tokens = none := by
  unfold splitBulks
  simp [h]

theorem splitBulks_next {gap : ℕ} {mem' : Bytes} {bsLen : ℤ} (slots : ℕ) (tokens : List ℕ) (h : byteAt mem i = some 36)
    (hg : (mem.drop (i.toNat + 1)).findIdx? (· = 13) = some gap) (ha : atoi mem (i.toNat + 1) = some bsLen)
    (hp : poke mem ((i.toNat + 1 + gap + 2 : ℕ) + bsLen) 0 = some mem') :
    splitBulks (slots + 1) mem i tokens =
      splitBulks slots mem' ((i.toNat + 1 + gap + 2 : ℕ) + bsLen + 2) (tokens ++ [i.toNat + 1 + gap + 2]) := by
  conv_lhs => unfold splitBulks
  simp only [h, bind, Option.bind, ha, hg, hp]
  rfl

/-- All that one round of the loop can do when it stays in the memory. -/
theorem splitBulks_cases {r : Option (Bytes × List ℕ)} (h : splitBulks slots mem i tokens = some r) :
    (byteAt mem i = some 0 ∧ r = some (mem, tokens)) ∨
      (∃ c, byteAt mem i = some c ∧ c ≠ 0 ∧ c ≠ 36 ∧ r = none) ∨
      ∃ left gap bsLen mem', slots = left + 1 ∧ byteAt mem i = some 36 ∧
        (mem.drop (i.toNat + 1)).findIdx? (· = 13) = some gap ∧ atoi mem (i.toNat + 1) = some bsLen ∧
        poke mem ((i.toNat + 1 + gap + 2 : ℕ) + bsLen) 0 = some mem' ∧
        splitBulks left mem' ((i.toNat + 1 + gap + 2 : ℕ) + bsLen + 2) (tokens ++ [i.toNat + 1 + gap + 2]) = some r := by
  have hrun := h
  unfold splitBulks at h
  obtain ⟨c, hc, h⟩ := Option.bind_eq_some_iff.mp h
  split_ifs at h with hnul hmark
  · exact .inl ⟨hnul ▸ hc, (Option.some.inj h).symm⟩
  · exact .inr (.inl ⟨c, hc, hnul, hmark, (Option.some.inj h).symm⟩)
  · obtain rfl := not_not.mp hmark
    cases slots with
    | zero => cases h
    | succ left =>
      obtain ⟨bsLen, hlen, h⟩ := Option.bind_eq_some_iff.mp h
      obtain ⟨gap, hgap, h⟩ := Option.bind_eq_some_iff.mp h
      obtain ⟨mem', hend, -⟩ := Option.bind_eq_some_iff.mp h
      rw [splitBulks_next left tokens hc hgap hlen hend] at hrun
      exact .inr (.inr ⟨left, gap, bsLen, mem', rfl, hc, hgap, hlen, hend, hrun⟩)

/-- A split that stays in `mem` neither reads nor changes what stands behind. -/
theorem splitBulks_extend {r : Option (Bytes × List ℕ)} (rest : Bytes) (h : splitBulks slots mem i tokens = some r) :
    splitBulks slots (mem ++ rest) i tokens = some (r.map (fun s => (s.1 ++ rest, s.2))) := by
  have hbyte : ∀ {m : Bytes} {j : ℤ} {c : UInt8}, byteAt m j = some c → byteAt (m ++ rest) j = some c := by
    intro m j c hc
    rw [byteAt] at hc ⊢
    split_ifs at hc ⊢
    rw [List.getElem?_append_left (List.getElem?_eq_some_iff.mp hc).1, hc]
  induction slots using Nat.strongRecOn generalizing mem i tokens with
  | ind slots ih =>
    rcases splitBulks_cases h with ⟨hc, rfl⟩ | ⟨c, hc, hnul, hmark, rfl⟩ |
      ⟨left, gap, bsLen, mem', rfl, hc, hgap, hlen, hend, hrun⟩
    · exact splitBulks_stop (hbyte hc)
    · exact splitBulks_refused (hbyte hc) hnul hmark
    · have hgap' : ((mem ++ rest).drop (i.toNat + 1)).findIdx? (· = 13) = some gap := by
        have hlt : i.toNat + 1 ≤ mem.length := by
          by_contra hover
          rw [List.drop_of_length_le (by omega)] at hgap
          cases hgap
        rw [List.drop_append_of_le_length hlt, List.findIdx?_append, hgap]
        rfl
      have hend' : poke (mem ++ rest) ((i.toNat + 1 + gap + 2 : ℕ) + bsLen) 0 = some (mem' ++ rest) := by
        rw [poke] at hend ⊢
        split_ifs at hend with hin
        rw [if_pos ⟨hin.1, by rw [List.length_append]; omega⟩, List.set_append_left _ _ (by omega),
          Option.some.inj hend]
      rw [splitBulks_next left tokens (hbyte hc) hgap' (atoi_extend rest hlen) hend']
      exact ih left (Nat.lt_succ_self left) hrun

theorem splitsWithin_iff {n : ℤ} (tokens : List ℕ) :
    SplitsWithin slots n mem i ↔ ∃ r, splitBulks slots mem i tokens = some r ∧
      ∀ s ∈ r, (s.2.length : ℤ) = tokens.length + n ∧ s.2.length ≤ tokens.length + slots := by
  constructor
  · intro h
    induction h generalizing tokens with
    | ends hc => exact ⟨_, splitBulks_stop hc, fun s hs => by simp [← Option.some.inj hs]⟩
    | refuses hc hnul hmark => exact ⟨_, splitBulks_refused hc hnul hmark, fun s hs => by cases hs⟩
    | @bulk slots gap n i bsLen frame frame' hc hgap hlen hend _ ih =>
      obtain ⟨r, hr, hall⟩ := ih (tokens ++ [i.toNat + 1 + gap + 2])
      refine ⟨r, by rw [splitBulks_next slots tokens hc hgap hlen hend, hr], ?_⟩
      intro s hs
      have hcount := hall s hs
      rw [List.length_append, List.length_singleton] at hcount
      omega
  · rintro ⟨r, hr, hall⟩
    induction slots using Nat.strongRecOn generalizing mem i tokens n with
    | ind slots ih =>
      rcases splitBulks_cases hr with ⟨hc, rfl⟩ | ⟨c, hc, hnul, hmark, rfl⟩ |
        ⟨left, gap, bsLen, mem', rfl, hc, hgap, hlen, hend, hrun⟩
      · obtain rfl : n = 0 := by simpa using (hall _ rfl).1
        exact .ends hc
      · exact .refuses hc hnul hmark
      · refine .bulk hc hgap hlen hend (ih left (Nat.lt_succ_self left) _ hrun ?_)
        intro s hs
        have hcount := hall s hs
        rw [List.length_append, List.length_singleton]
        omega

end Split

section Alike

variable {mem : Bytes} {bufSize total head : ℕ}

theorem parseArgs_within {n pos head' : ℕ} (hpos : pos < bufSize)
    (h : parseArgs mem bufSize head n pos = some (.frame total head')) : head' = head ∧ total ≤ bufSize := by
  induction n generalizing pos with
  | zero =>
    obtain ⟨rfl, rfl⟩ := BulkSize.frame.inj (Option.some.inj h)
    exact ⟨rfl, hpos⟩
  | succ n ih =>
    rw [parseArgs] at h
    split_ifs at h
    · simp at h
    · simp at h
    · split at h
      · simp at h
      · obtain ⟨bsLen, -, h⟩ := Option.bind_eq_some_iff.mp h
        split_ifs at h
        dsimp only at h
        split_ifs at h with hmore
        · simp at h
        · exact ih (not_le.mp hmore) h

theorem parseArgs_frame {n pos head' : ℕ} (hb : bufSize ≤ intMax)
    (h : parseArgs mem bufSize head (n + 1) pos = some (.frame total head'))
    (halike : AlikeArgs mem bufSize total (n + 1) pos) :
    ∃ q r : ℕ, ∃ bsLen : ℤ, mem[pos + 1]? = some 36 ∧ scanLine mem bufSize (pos + 1) = some q ∧
      13 ∉ lineText mem (pos + 1) q ∧ atoi (mem.take total ++ [0]) (pos + 2) = some bsLen ∧
      (r : ℤ) = q + (bsLen + 2) ∧ -3 ≤ bsLen ∧ r < bufSize ∧ AlikeArgs mem bufSize total n r ∧
      parseArgs mem bufSize head n r = some (.frame total head') := by
  rw [parseArgs] at h
  split_ifs at h with hend hmark
  · simp at h
  · simp at h
  · cases hscan : scanLine mem bufSize (pos + 1) with
    | none => simp [hscan] at h
    | some q =>
      cases hatoi : atoi mem (pos + 2) with
      | none => simp [hscan, hatoi] at h
      | some bsLen =>
        simp only [hscan, hatoi, bind, Option.bind] at h
        simp only [AlikeArgs, hscan, hatoi] at halike
        obtain ⟨⟨hline, hnumber, hlow⟩, hrest⟩ := halike
        split_ifs at h with hbig hmore
        · simp at h
        · obtain ⟨-, hlt, -, -⟩ := scanLine_spec hscan
          obtain ⟨-, hq, -⟩ := scanLine_bulk (not_not.mp hmark) hscan
          have hjump : ((q : ℤ) + (bsLen + 2)) % 2 ^ 64 = q + (bsLen + 2) := by
            simp only [intMax] at hb hbig
            exact Int.emod_eq_of_lt (by omega) (by omega)
          rw [hjump] at h hmore
          exact ⟨q, _, bsLen, not_not.mp hmark, rfl, hline, hnumber, Int.toNat_of_nonneg (by omega), hlow,
            not_le.mp hmore, hrest, h⟩

theorem parseArgs_total {n pos head' : ℕ} (hb : bufSize ≤ intMax)
    (h : parseArgs mem bufSize head n pos = some (.frame total head')) (halike : AlikeArgs mem bufSize total n pos) :
    pos < total := by
  induction n generalizing pos with
  | zero =>
    obtain ⟨rfl, -⟩ := BulkSize.frame.inj (Option.some.inj h)
    exact Nat.lt_succ_self pos
  | succ n ih =>
    obtain ⟨q, r, bsLen, hmark, hscan, -, -, hr, hlow, -, hrest, hnext⟩ := parseArgs_frame hb h halike
    obtain ⟨-, hq, -⟩ := scanLine_bulk hmark hscan
    have hrt := ih hnext hrest
    omega

/-- One bulk string of a frame whose bytes from `pos + 1` on are as they were received: the split steps to where the
scanner stepped to. -/
theorem splitBulks_step {pos q r : ℕ} {bsLen : ℤ} {frame : Bytes} (ht : total ≤ mem.length)
    (hmark : mem[pos + 1]? = some 36) (hscan : scanLine mem bufSize (pos + 1) = some q)
    (hline : 13 ∉ lineText mem (pos + 1) q) (hnumber : atoi (mem.take total ++ [0]) (pos + 2) = some bsLen)
    (hr : (r : ℤ) = q + (bsLen + 2)) (hlow : -3 ≤ bsLen) (hrt : r < total) (hf : frame.length = total + 1)
    (hsame : frame.drop (pos + 1) = (mem.take total ++ [0]).drop (pos + 1)) (slots : ℕ) (tokens : List ℕ) :
    byteAt frame (pos + 1 : ℕ) = some 36 ∧
      ∃ frame' : Bytes, frame'.length = total + 1 ∧ frame'.drop (r + 1) = (mem.take total ++ [0]).drop (r + 1) ∧
        splitBulks (slots + 1) frame (pos + 1 : ℕ) tokens =
          splitBulks slots frame' (r + 1 : ℕ) (tokens ++ [q + 1]) := by
  obtain ⟨-, hq, htext⟩ := scanLine_bulk hmark hscan
  have hlen : (mem.take total).length = total := by rw [List.length_take]; omega
  have hlater : ∀ k, pos + 1 ≤ k → frame.drop k = (mem.take total ++ [0]).drop k := by
    intro k hk
    have hdrop := congrArg (List.drop (k - (pos + 1))) hsame
    rwa [List.drop_drop, List.drop_drop, Nat.add_sub_cancel' hk] at hdrop
  have hbyte : byteAt frame (pos + 1 : ℕ) = some 36 := by
    have hat := congrArg (fun l => l[0]?) hsame
    simp only [List.getElem?_drop, Nat.add_zero] at hat
    rw [byteAt, if_pos (Int.natCast_nonneg _), Int.toNat_natCast, hat, List.getElem?_append_left (by omega),
      List.getElem?_take, if_pos (by omega), hmark]
  have hcut : frame.drop (pos + 2) =
      lineText mem (pos + 1) q ++ 13 :: ((mem.drop q).take (total - q) ++ [0]) := by
    rw [hlater _ (by omega), List.drop_append_of_le_length (by omega), List.drop_take, htext, List.take_append,
      List.take_of_length_le (by omega),
      show total - (pos + 2) - (lineText mem (pos + 1) q).length = (total - q) + 1 by omega, List.take_succ_cons]
    simp
  have hnumber' : atoi frame (pos + 2) = some bsLen := by
    rw [← hnumber, atoi, atoi, hlater _ (by omega)]
  have hstart : pos + 1 + 1 + (lineText mem (pos + 1) q).length + 2 = q + 1 := by omega
  have hat : ((q + 1 : ℕ) : ℤ) + bsLen = (r - 1 : ℕ) := by omega
  have hpoke : poke frame (r - 1 : ℕ) 0 = some (frame.set (r - 1) 0) := by
    rw [poke, if_pos (by omega), Int.toNat_natCast]
  refine ⟨hbyte, frame.set (r - 1) 0, by rw [List.length_set, hf], ?_, ?_⟩
  · rw [List.drop_set_of_lt (by omega), hlater _ (by omega)]
  · have hgap := findIdx_line ((mem.drop q).take (total - q) ++ [0]) hline
    rw [← hcut] at hgap
    rw [splitBulks_next slots tokens hbyte hgap hnumber' (by rw [Int.toNat_natCast, hstart, hat]; exact hpoke),
      Int.toNat_natCast, hstart, hat]
    congr 1
    omega

theorem splitBulks_alike {n pos head' : ℕ} (hb : bufSize ≤ intMax) (hm : bufSize ≤ mem.length) (hpos : pos < bufSize)
    (h : parseArgs mem bufSize head n pos = some (.frame total head')) (halike : AlikeArgs mem bufSize total n pos)
    (slots : ℕ) {frame : Bytes} (hf : frame.length = total + 1)
    (hsame : frame.drop (pos + 1) = (mem.take total ++ [0]).drop (pos + 1)) (tokens : List ℕ) :
    if n ≤ slots then
      ∃ m ts, ts.length = n ∧ splitBulks slots frame (pos + 1 : ℕ) tokens = some (some (m, tokens ++ ts))
    else splitBulks slots frame (pos + 1 : ℕ) tokens = none := by
  induction n generalizing pos slots frame tokens with
  | zero =>
    obtain ⟨rfl, -⟩ := BulkSize.frame.inj (Option.some.inj h)
    rw [if_pos (Nat.zero_le slots)]
    refine ⟨frame, [], rfl, ?_⟩
    rw [List.append_nil]
    apply splitBulks_stop
    have hat := congrArg (fun l => l[0]?) hsame
    simp only [List.getElem?_drop, Nat.add_zero] at hat
    rw [byteAt, if_pos (Int.natCast_nonneg _), Int.toNat_natCast, hat, List.getElem?_append_right (by simp)]
    simp [Nat.min_eq_left (show pos + 1 ≤ mem.length by omega)]
  | succ n ih =>
    obtain ⟨q, r, bsLen, hmark, hscan, hline, hnumber, hr, hlow, hlt, hrest, hnext⟩ := parseArgs_frame hb h halike
    have hrt := parseArgs_total hb hnext hrest
    have htotal := (parseArgs_within hpos h).2
    cases slots with
    | zero =>
      rw [if_neg (by omega)]
      exact splitBulks_full (splitBulks_step (htotal.trans hm) hmark hscan hline hnumber hr hlow hrt hf hsame 0 tokens).1
    | succ slots =>
      obtain ⟨-, frame', hf', hsame', hstep⟩ :=
        splitBulks_step (htotal.trans hm) hmark hscan hline hnumber hr hlow hrt hf hsame slots tokens
      have hrun := ih hlt hnext hrest slots hf' hsame' (tokens ++ [q + 1])
      rw [hstep]
      simp only [Nat.add_le_add_iff_right]
      split_ifs at hrun ⊢ with hle
      · obtain ⟨m, ts, hts, hall⟩ := hrun
        exact ⟨m, (q + 1) :: ts, by simp [hts], by rw [hall]; simp⟩
      · exact hrun

end Alike

theorem parse_cases {mem : Bytes} {bufSize total head : ℕ} (h : respParseBulkSize mem bufSize = some (.frame total head)) :
    ∃ pos, scanLine mem bufSize 1 = some pos ∧
      parseArgs mem bufSize (pos + 1) (declared mem) pos = some (.frame total head) := by
  rw [respParseBulkSize] at h
  split_ifs at h
  · simp at h
  · simp at h
  · cases hscan : scanLine mem bufSize 1 with
    | none => simp [hscan] at h
    | some pos =>
      cases hatoi : atoi mem 1 with
      | none => simp [hscan, hatoi] at h
      | some argc =>
        simp only [hscan, hatoi, bind, Option.bind] at h
        exact ⟨pos, rfl, by rw [declared, hatoi]; exact h⟩

theorem handled_iff {mem : Bytes} {bufSize total head : ℕ}
    (hparse : respParseBulkSize mem bufSize = some (.frame total head)) :
    Handled mem bufSize total head ↔
      head ≤ total ∧ SplitsWithin maxTokens (declared mem) (mem.take total ++ [0]) head := by
  obtain ⟨pos, hscan, hargs⟩ := parse_cases hparse
  obtain ⟨rfl, htotal⟩ := parseArgs_within (scanLine_spec hscan).2.1 hargs
  rw [splitsWithin_iff []]
  simp only [List.length_nil, Nat.cast_zero, zero_add, Nat.cast_inj]
  constructor
  · rintro ⟨⟨-, hle, -⟩, r, hr, hcount⟩
    have hrun := hr []
    simp only [List.append_nil] at hrun
    exact ⟨hle, r, by simpa [splitToken] using hrun, hcount⟩
  · rintro ⟨hle, r, hr, hcount⟩
    refine ⟨⟨Nat.succ_pos pos, hle, htotal⟩, r, ?_, hcount⟩
    intro rest
    have hrun := splitBulks_extend rest hr
    rwa [List.append_assoc, List.singleton_append] at hrun

end Lidis.Resp
