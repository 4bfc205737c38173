import Lidis.KvspTokens
import Lidis.Lib.TrackedMemory

namespace Lidis.Kvsp

open Access

def digitLoop (body parseEnd pos tokLen : ℕ) (hasDigit : Bool) : Access (ℕ × ℕ × Bool) :=
  if pos < parseEnd then do
    let c ← load (body + pos)
    if isDigit c then
      if (intMax - digitValue c) / 10 < tokLen then fail
      else digitLoop body parseEnd (pos + 1) (10 * tokLen + digitValue c) true
    else pure (pos, tokLen, hasDigit)
  else pure (pos, tokLen, hasDigit)
termination_by parseEnd - pos

def markToken (body pos idx : ℕ) : Access Unit := if 0 < idx then store (body + pos) 0 else pure ()

def tokenLoop (body parseEnd : ℕ) : ℕ → ℕ → List ℕ → Access (List ℕ)
  | 0, _, _ => fail
  | n + 1, pos, tokens =>
    if pos < parseEnd then do
      let c ← load (body + pos)
      if c ≠ 94 then fail
      else do
        markToken body pos tokens.length
        let (pos, tokLen, hasDigit) ← digitLoop body parseEnd (pos + 1) 0 false
        if ¬ hasDigit then fail
        else if parseEnd ≤ pos then fail
        else do
          let d ← load (body + pos)
          if d ≠ 38 then fail
          else if parseEnd - (pos + 1) < tokLen then fail
          else if maxTokens ≤ tokens.length then fail
          else tokenLoop body parseEnd n (pos + 1 + tokLen) (tokens ++ [body + (pos + 1)])
    else if pos ≠ parseEnd then fail
    else do
      store (body + parseEnd) 0
      pure tokens

/-- kvs_split_token for KVSP, over addresses; both bytes of the end marker count as read by memcmp. -/
def kvsSplitTokenAt (cmdHl cmdTl : ℕ) : Access (List ℕ) :=
  if cmdTl - cmdHl < 2 then fail
  else do
    let c ← load (cmdHl + (cmdTl - cmdHl - 2))
    let d ← load (cmdHl + (cmdTl - cmdHl - 2) + 1)
    if [c, d] ≠ crlf then fail
    else tokenLoop cmdHl (cmdTl - cmdHl - 2) (cmdTl - cmdHl - 2 + 1) 0 []

section Bounds

variable {body parseEnd : ℕ} {P : ℕ → Prop} (hP : ∀ i ≤ parseEnd, P (body + i))

include hP

theorem digitLoop_keeps (pos tokLen : ℕ) (hasDigit : Bool) (hpos : pos ≤ parseEnd) :
    Keeps P (digitLoop body parseEnd pos tokLen hasDigit) (fun r => r.1 ≤ parseEnd) := by
  fun_induction digitLoop body parseEnd pos tokLen hasDigit with
  | case1 pos tokLen hasDigit hlt ih =>
    apply keeps_bind (keeps_load (hP pos hpos))
    intro c _
    apply keeps_ite
    · intro _
      exact keeps_ite (fun _ => keeps_fail) (fun _ => ih c hlt)
    · intro _
      exact keeps_pure hpos
  | case2 pos tokLen hasDigit hge => exact keeps_pure hpos

theorem tokenLoop_keeps (n pos : ℕ) (tokens : List ℕ) (hpos : pos ≤ parseEnd) :
    Keeps P (tokenLoop body parseEnd n pos tokens) (fun _ => True) := by
  induction n generalizing pos tokens with
  | zero => exact keeps_fail
  | succ n ih =>
    apply keeps_ite
    · intro hlt
      apply keeps_bind (keeps_load (hP pos hpos))
      intro c _
      apply keeps_ite (fun _ => keeps_fail)
      intro _
      have hmark : Keeps P (markToken body pos tokens.length) (fun _ => True) :=
        keeps_ite (fun _ => keeps_store (hP pos hpos)) (fun _ => keeps_pure trivial)
      apply keeps_bind hmark
      intro _ _
      apply keeps_bind (digitLoop_keeps hP (pos + 1) 0 false hlt)
      rintro ⟨pos', tokLen, hasDigit⟩ hpos'
      apply keeps_ite (fun _ => keeps_fail)
      intro _
      apply keeps_ite (fun _ => keeps_fail)
      intro hshort
      apply keeps_bind (keeps_load (hP pos' hpos'))
      intro d _
      apply keeps_ite (fun _ => keeps_fail)
      intro _
      apply keeps_ite (fun _ => keeps_fail)
      intro hlen
      apply keeps_ite (fun _ => keeps_fail)
      intro _
      exact ih (pos' + 1 + tokLen) (tokens ++ [body + (pos' + 1)]) (by omega)
    · intro _
      apply keeps_ite (fun _ => keeps_fail)
      intro _
      apply keeps_bind (keeps_store (hP parseEnd le_rfl))
      intro _ _
      exact keeps_pure trivial

end Bounds

theorem splitTokenAt_keeps (head total : ℕ) :
    Keeps (fun i => head ≤ i ∧ i < total) (kvsSplitTokenAt head total) (fun _ => True) := by
  apply keeps_ite (fun _ => keeps_fail)
  intro hsmall
  apply keeps_bind (keeps_load ⟨by omega, by omega⟩)
  intro c _
  apply keeps_bind (keeps_load ⟨by omega, by omega⟩)
  intro d _
  apply keeps_ite (fun _ => keeps_fail)
  intro _
  apply tokenLoop_keeps
  · intro i hi
    constructor <;> omega
  · exact Nat.zero_le _

theorem getD_front (front rest : Bytes) (c : UInt8) : (front ++ c :: rest).getD front.length 0 = c := by
  rw [List.getD_eq_getElem?_getD, List.getElem?_append_right le_rfl, Nat.sub_self]
  rfl

theorem set_front (front rest : Bytes) (c d : UInt8) : (front ++ c :: rest).set front.length d = front ++ d :: rest := by
  rw [List.set_append_right _ _ le_rfl, Nat.sub_self]
  rfl

section Runs

variable {body parseEnd : ℕ}

theorem digitLoop_run (text front rest : Bytes) (pos tokLen : ℕ) (hasDigit : Bool) (touched : List ℕ)
    (hf : front.length = body + pos) (he : parseEnd = pos + text.length) :
    ∃ touched', digitLoop body parseEnd pos tokLen hasDigit ⟨front ++ (text ++ rest), touched⟩ =
      ((scanDigits intMax tokLen text).map
        (fun r => (parseEnd - r.2.length, r.1, hasDigit || decide (r.2.length < text.length))),
        ⟨front ++ (text ++ rest), touched'⟩) := by
  induction text generalizing front pos tokLen hasDigit touched with
  | nil =>
    subst he
    rw [digitLoop, if_neg (by simp)]
    exact ⟨touched, by simp [scanDigits]⟩
  | cons c text ih =>
    have hlt : pos < parseEnd := by
      rw [he, List.length_cons]
      omega
    have hload : (front ++ (c :: text ++ rest)).getD (body + pos) 0 = c := by
      rw [← hf]
      exact getD_front front (text ++ rest) c
    rw [digitLoop, if_pos hlt, load_bind, hload]
    by_cases hc : isDigit c = true
    · rw [if_pos hc, scanDigits, if_pos hc]
      by_cases hover : (intMax - digitValue c) / 10 < tokLen
      · rw [if_pos hover, if_pos hover]
        exact ⟨_, rfl⟩
      · rw [if_neg hover, if_neg hover]
        obtain ⟨touched', hrun⟩ := ih (front ++ [c]) (pos + 1) (10 * tokLen + digitValue c) true
          ((body + pos) :: touched) (by rw [List.length_append, hf]; rfl) (by rw [he, List.length_cons]; omega)
        rw [show front ++ [c] ++ (text ++ rest) = front ++ (c :: text ++ rest) by simp] at hrun
        refine ⟨touched', hrun.trans ?_⟩
        rcases hscan : scanDigits intMax (10 * tokLen + digitValue c) text with _ | ⟨v, tail⟩
        · rfl
        · obtain ⟨ds, rfl, -⟩ := scanDigits_some hscan (by decide) (fits_of_room (by decide) hc hover)
          have hshort : tail.length < (c :: (ds ++ tail)).length := by
            rw [List.length_cons, List.length_append]
            omega
          simp only [Option.map_some, Bool.true_or, hshort, decide_true, Bool.or_true]
    · rw [if_neg hc, scanDigits, if_neg hc]
      refine ⟨(body + pos) :: touched, ?_⟩
      have hpos : parseEnd - (c :: text).length = pos := by omega
      simp only [pure_run, Option.map_some, hpos, lt_irrefl, decide_false, Bool.or_false]

theorem markToken_run (front rest : Bytes) (c : UInt8) (pos : ℕ) (tokens touched : List ℕ)
    (hf : front.length = body + pos) : ∃ touched', markToken body pos tokens.length ⟨front ++ c :: rest, touched⟩ =
      (some (), ⟨front ++ (if tokens = [] then c else 0) :: rest, touched'⟩) := by
  cases tokens with
  | nil => exact ⟨touched, rfl⟩
  | cons a tokens =>
    refine ⟨front.length :: touched, ?_⟩
    rw [markToken, if_pos (by simp), if_neg (by simp), ← hf, store, set_front]

theorem tokenLoop_run (n : ℕ) (front todo rest : Bytes) (e : UInt8) (pos : ℕ) (tokens touched : List ℕ)
    (hf : front.length = body + pos) (he : parseEnd = pos + todo.length) :
    ∃ s', tokenLoop body parseEnd n pos tokens ⟨front ++ (todo ++ e :: rest), touched⟩ =
        ((splitItems n front todo tokens).map Prod.snd, s') ∧
      ∀ r ∈ splitItems n front todo tokens, s'.mem = r.1 ++ 0 :: rest := by
  induction n generalizing front todo pos tokens touched with
  | zero => exact ⟨_, rfl, by simp [splitItems]⟩
  | succ n ih =>
    rcases todo with _ | ⟨c, todo⟩
    · obtain rfl : parseEnd = pos := he
      refine ⟨⟨front ++ 0 :: rest, (body + parseEnd) :: touched⟩, ?_, ?_⟩
      · rw [tokenLoop, if_neg (lt_irrefl _), if_neg (by simp), store_bind, ← hf, List.nil_append]
        simp only [set_front, pure_run, splitItems, Option.map_some]
      · intro r hr
        obtain rfl := Option.some.inj hr
        rfl
    · rw [List.length_cons] at he
      have hload : (front ++ (c :: todo ++ e :: rest)).getD (body + pos) 0 = c := by
        rw [← hf]
        exact getD_front front (todo ++ e :: rest) c
      rw [tokenLoop, if_pos (by omega), load_bind, hload, splitItems]
      by_cases hc : c ≠ 94
      · rw [if_pos hc, if_pos hc]
        exact ⟨_, rfl, by simp⟩
      rw [if_neg hc, if_neg hc]
      -- the mark is written before the digits behind it are read
      obtain ⟨t1, hmark⟩ := markToken_run front (todo ++ e :: rest) c pos tokens ((body + pos) :: touched) hf
      rw [List.cons_append, bind_run hmark]
      obtain ⟨t2, hdigits⟩ := digitLoop_run todo
        (front ++ [if tokens = [] then c else 0]) (e :: rest) (pos + 1) 0 false t1
        (by rw [List.length_append, hf]; rfl) (by omega : parseEnd = pos + 1 + todo.length)
      rw [List.append_assoc, List.singleton_append] at hdigits
      rcases hscan : scanDigits intMax 0 todo with _ | ⟨len, tail⟩
      · rw [hscan] at hdigits
        rw [bind_run_none hdigits]
        exact ⟨_, rfl, by simp⟩
      rw [hscan] at hdigits
      rw [bind_run hdigits]
      obtain ⟨ds, rfl, -⟩ := scanDigits_some hscan (by decide) (Nat.zero_le _)
      rw [List.length_append] at he
      simp only [Bool.false_or, decide_eq_true_eq]
      by_cases hdig : tail.length = (ds ++ tail).length
      · rw [if_pos (by omega), if_pos hdig]
        exact ⟨_, rfl, by simp⟩
      have hlt : tail.length < (ds ++ tail).length := by
        rw [List.length_append] at hdig ⊢
        omega
      rw [if_neg (by omega), if_neg hdig]
      rcases tail with _ | ⟨d, content⟩
      · rw [if_pos (by simp)]
        exact ⟨_, rfl, by simp⟩
      rw [List.length_cons] at he
      have hat : (front ++ (if tokens = [] then c else 0) :: ds).length = body + (parseEnd - (d :: content).length) := by
        simp only [List.length_append, List.length_cons, hf]
        omega
      have hmem : front ++ (if tokens = [] then c else 0) :: (ds ++ d :: content ++ e :: rest) =
          (front ++ (if tokens = [] then c else 0) :: ds) ++ d :: (content ++ e :: rest) := by simp
      have hd' : ((front ++ (if tokens = [] then c else 0) :: ds) ++ d :: (content ++ e :: rest)).getD
          (body + (parseEnd - (d :: content).length)) 0 = d := by
        rw [← hat]
        exact getD_front _ _ d
      rw [if_neg (by rw [List.length_cons]; omega), load_bind, hmem, hd']
      dsimp only
      by_cases hd : d ≠ 38
      · rw [if_pos hd, if_pos hd]
        exact ⟨_, rfl, by simp⟩
      have hleft : parseEnd - (parseEnd - (d :: content).length + 1) = content.length := by
        rw [List.length_cons]
        omega
      rw [if_neg hd, if_neg hd, hleft]
      by_cases hlen : content.length < len
      · rw [if_pos hlen, if_pos hlen]
        exact ⟨_, rfl, by simp⟩
      rw [if_neg hlen, if_neg hlen]
      by_cases hmax : maxTokens ≤ tokens.length
      · rw [if_pos hmax, if_pos hmax]
        exact ⟨_, rfl, by simp⟩
      rw [if_neg hmax, if_neg hmax]
      have hlead : (ds ++ d :: content).take ((ds ++ d :: content).length - (d :: content).length) = ds := by
        rw [List.length_append, Nat.add_sub_cancel]
        exact List.take_left
      rw [hlead]
      have hfront : (front ++ ((if tokens = [] then c else 0) :: ds ++ [d]) ++ content.take len).length =
          body + (parseEnd - (d :: content).length + 1 + len) := by
        simp only [List.length_append, List.length_cons, List.length_nil, List.length_take] at hat ⊢
        omega
      obtain ⟨s', hrun, hfinal⟩ := ih (front ++ ((if tokens = [] then c else 0) :: ds ++ [d]) ++ content.take len)
        (content.drop len) (parseEnd - (d :: content).length + 1 + len)
        (tokens ++ [front.length + ((if tokens = [] then c else 0) :: ds ++ [d]).length])
        ((body + (parseEnd - (d :: content).length)) :: t2) hfront
        (by simp only [List.length_cons, List.length_drop] at he ⊢; omega)
      refine ⟨s', ?_, hfinal⟩
      rw [← hrun]
      have htoken : body + (parseEnd - (d :: content).length + 1) =
          front.length + ((if tokens = [] then c else 0) :: ds ++ [d]).length := by
        simp only [List.length_append, List.length_cons, List.length_nil] at hat ⊢
        omega
      have hback : (front ++ (if tokens = [] then c else 0) :: ds) ++ d :: (content ++ e :: rest) =
          front ++ ((if tokens = [] then c else 0) :: ds ++ [d]) ++ content.take len ++ (content.drop len ++ e :: rest) := by
        rw [List.append_assoc _ (content.take len), ← List.append_assoc (content.take len), List.take_append_drop]
        simp
      rw [htoken, hback]

end Runs

theorem splitTokenAt_run (mem : Bytes) (head total : ℕ) (ht : total ≤ mem.length) :
    ∃ s', kvsSplitTokenAt head total ⟨mem, []⟩ = ((splitToken mem head total).map Prod.snd, s') ∧
      ∀ r ∈ splitToken mem head total, s'.mem = r.1 := by
  by_cases hsmall : total - head < 2
  · refine ⟨⟨mem, []⟩, ?_, by simp [splitToken, hsmall]⟩
    simp only [kvsSplitTokenAt, splitToken, hsmall, ↓reduceIte, fail_run, Option.map_none]
  obtain ⟨c, d, rest, hrest⟩ : ∃ c d rest, mem.drop (head + (total - head - 2)) = c :: d :: rest := by
    have hlen : (mem.drop (head + (total - head - 2))).length = mem.length - (total - 2) := by
      rw [List.length_drop]
      omega
    rcases hdrop : mem.drop (head + (total - head - 2)) with _ | ⟨c, _ | ⟨d, rest⟩⟩
    · rw [hdrop, List.length_nil] at hlen
      omega
    · rw [hdrop, List.length_singleton] at hlen
      omega
    · exact ⟨c, d, rest, rfl⟩
  have hc : mem.getD (head + (total - head - 2)) 0 = c := by
    rw [List.getD_eq_getElem?_getD, ← List.head?_drop, hrest]
    rfl
  have hd : mem.getD (head + (total - head - 2) + 1) 0 = d := by
    rw [List.getD_eq_getElem?_getD, ← List.head?_drop, ← List.drop_drop, hrest]
    rfl
  have hnext : mem.drop (head + (total - head - 2) + 1) = d :: rest := by
    rw [← List.drop_drop, hrest]
    rfl
  have hfront : (mem.take head).length = head := by
    rw [List.length_take]
    omega
  have htodo : ((mem.drop head).take (total - head - 2)).length = total - head - 2 := by
    rw [List.length_take, List.length_drop]
    omega
  have hmem : mem = mem.take head ++ ((mem.drop head).take (total - head - 2) ++ c :: d :: rest) := by
    rw [← hrest, ← List.drop_drop, List.take_append_drop, List.take_append_drop]
  rw [kvsSplitTokenAt, if_neg hsmall, load_bind, hc, load_bind, hd, splitToken, if_neg hsmall]
  dsimp only
  rw [hrest, hnext, show (c :: d :: rest).take 2 = [c, d] from rfl]
  by_cases hend : [c, d] ≠ crlf
  · rw [if_pos hend, if_pos hend]
    exact ⟨_, rfl, by simp⟩
  rw [if_neg hend, if_neg hend]
  obtain ⟨s', hrun, hfinal⟩ := tokenLoop_run (total - head - 2 + 1) (mem.take head)
    ((mem.drop head).take (total - head - 2)) (d :: rest) c 0 []
    [head + (total - head - 2) + 1, head + (total - head - 2)] hfront (by omega : total - head - 2 = 0 + _)
  rw [← hmem] at hrun
  refine ⟨s', ?_, ?_⟩
  · rw [hrun]
    rcases splitItems (total - head - 2 + 1) (mem.take head) ((mem.drop head).take (total - head - 2)) [] with _ | r
    · rfl
    · rfl
  · intro r hr
    obtain ⟨r', hitems, hr⟩ := Option.bind_eq_some_iff.mp hr
    obtain rfl := Option.some.inj hr
    exact hfinal r' hitems

theorem kvsp_body_parser_exact (buf slack : Bytes) (total head : ℕ) (h : kvspParseBulkSize buf = .frame total head) :
    (∀ n, (∃ tokens, (kvsSplitTokenAt head total ⟨buf ++ slack, []⟩).1 = some tokens ∧ tokens.length = n) ↔
      ∃ xs, IsBody ((buf.drop head).take (total - head)) xs ∧ xs.length = n) ∧
    (∀ tokens xs, (kvsSplitTokenAt head total ⟨buf ++ slack, []⟩).1 = some tokens →
      IsBody ((buf.drop head).take (total - head)) xs → tokens = Item.contents head xs ∧
        tokens.mapM (CString.read (kvsSplitTokenAt head total ⟨buf ++ slack, []⟩).2.mem) =
          some (xs.map (fun x => CString.prefixOf x.content))) ∧
    ∀ i ∈ (kvsSplitTokenAt head total ⟨buf ++ slack, []⟩).2.touched, head ≤ i ∧ i < total := by
  obtain ⟨hh, ht⟩ := parse_frame_bounds h
  have ht' : total ≤ (buf ++ slack).length := by
    rw [List.length_append]
    omega
  have hbody : ((buf ++ slack).drop head).take (total - head) = (buf.drop head).take (total - head) := by
    rw [List.drop_append_of_le_length (hh.trans ht), List.take_append_of_le_length]
    rw [List.length_drop]
    omega
  obtain ⟨s', hrun, hfinal⟩ := splitTokenAt_run (buf ++ slack) head total ht'
  have hgood : ∀ xs, IsBody ((buf.drop head).take (total - head)) xs →
      splitToken (buf ++ slack) head total = some ((buf ++ slack).take head ++ Item.marked true xs ++
        0 :: (10 :: (buf ++ slack).drop total), Item.contents head xs) := by
    intro xs hxs
    exact splitToken_isBody hh ht' (by rwa [hbody])
  have hhead : ((buf ++ slack).take head).length = head := (take_drop_parts hh ht').2.1
  refine ⟨?_, ?_, ?_⟩
  · intro n
    rw [hrun]
    constructor
    · rintro ⟨tokens, htokens, rfl⟩
      obtain ⟨r, hr, rfl⟩ := Option.map_eq_some_iff.mp htokens
      obtain ⟨-, -, xs, hxs⟩ := splitToken_some hr
      rw [hbody] at hxs
      rw [hgood xs hxs] at hr
      obtain rfl := Option.some.inj hr
      exact ⟨xs, hxs, (Item.contents_length head xs).symm⟩
    · rintro ⟨xs, hxs, rfl⟩
      rw [hgood xs hxs]
      exact ⟨_, rfl, Item.contents_length head xs⟩
  · intro tokens xs htokens hxs
    rw [hrun] at htokens ⊢
    rw [hgood xs hxs] at htokens hfinal
    obtain rfl := Option.some.inj htokens
    refine ⟨rfl, ?_⟩
    rw [hfinal _ rfl]
    have hread := Item.read_contents xs ((buf ++ slack).take head) (10 :: (buf ++ slack).drop total) true
    rwa [hhead] at hread
  · exact (splitTokenAt_keeps head total ⟨buf ++ slack, []⟩ (by simp)).1

theorem kvsp_body_parser_exact_example :
    kvspParseBulkSize (ascii "#7\r\n^01&a\r\n") = .frame 11 4 ∧
      (∃ tokens, (kvsSplitTokenAt 4 11 ⟨ascii "#7\r\n^01&a\r\n" ++ [7], []⟩).1 = some tokens ∧ tokens.length = 1) ∧
      ∀ i ∈ (kvsSplitTokenAt 4 11 ⟨ascii "#7\r\n^01&a\r\n" ++ [7], []⟩).2.touched, 4 ≤ i ∧ i < 11 := by
  have hparse : kvspParseBulkSize (ascii "#7\r\n^01&a\r\n") = .frame 11 4 := by decide
  obtain ⟨hiff, -, hbounds⟩ := kvsp_body_parser_exact (ascii "#7\r\n^01&a\r\n") [7] 11 4 hparse
  have hbody : IsBody (((ascii "#7\r\n^01&a\r\n").drop 4).take (11 - 4))
      [⟨ascii "01", ascii "a", by decide +kernel, by decide +kernel, by decide +kernel⟩] := by
    refine ⟨by decide, ?_, by decide⟩
    intro x hx
    obtain rfl := List.mem_singleton.mp hx
    decide
  exact ⟨hparse, (hiff 1).mpr ⟨_, hbody, rfl⟩, hbounds⟩

end Lidis.Kvsp
