import Lidis.KvspFrame

namespace Lidis.Kvsp

structure Item where
  digits : Bytes
  content : Bytes
  digits_ne_nil : digits ≠ []
  all_digits : ∀ c ∈ digits, isDigit c = true
  denotes : valueFrom 0 digits = content.length

namespace Item

def bytes (x : Item) : Bytes := 94 :: (x.digits ++ 38 :: x.content)

def ofContent (content : Bytes) : Item where
  digits := decimal content.length
  content := content
  digits_ne_nil := decimal_ne_nil content.length
  all_digits := decimal_digits content.length
  denotes := valueFrom_decimal content.length

def ofToken (s : CString) : Item := ofContent s.bytes

theorem bytes_length (x : Item) : x.bytes.length = x.digits.length + x.content.length + 2 := by
  simp only [bytes, List.length_cons, List.length_append]
  omega

theorem scan (x : Item) (more : Bytes) (hx : x.content.length ≤ intMax) :
    scanDigits intMax 0 (x.digits ++ 38 :: (x.content ++ more)) = some (x.content.length, 38 :: (x.content ++ more)) := by
  rw [← x.denotes]
  apply scanDigits_append x.all_digits
  · intro c hc
    obtain rfl : c = 38 := by simpa using hc.symm
    decide
  · rwa [x.denotes]

theorem of_scan {rest content : Bytes} {len : ℕ} (h : scanDigits intMax 0 rest = some (len, 38 :: content))
    (hdig : (38 :: content).length ≠ rest.length) (hlen : len ≤ content.length) :
    ∃ x : Item, 94 :: rest = x.bytes ++ content.drop len ∧ x.content = content.take len ∧ x.content.length ≤ intMax := by
  obtain ⟨ds, rfl, hds, hval, hle, -⟩ := scanDigits_some h (by decide) (Nat.zero_le _)
  have hcut : (content.take len).length = len := List.length_take_of_le hlen
  have hds0 : ds ≠ [] := by
    rintro rfl
    exact hdig rfl
  exact ⟨⟨ds, content.take len, hds0, hds, hval.trans hcut.symm⟩, by simp [bytes], rfl, by rwa [hcut]⟩

def marked : Bool → List Item → Bytes
  | _, [] => []
  | first, x :: xs => (if first then 94 else 0) :: (x.digits ++ 38 :: x.content) ++ marked false xs

def contents : ℕ → List Item → List ℕ
  | _, [] => []
  | pos, x :: xs => (pos + x.digits.length + 2) :: contents (pos + x.bytes.length) xs

theorem marked_length (first : Bool) (xs : List Item) : (marked first xs).length = (xs.flatMap bytes).length := by
  induction xs generalizing first with
  | nil => rfl
  | cons x xs ih =>
    simp only [marked, List.flatMap_cons, List.length_append, List.length_cons, ih, bytes_length]
    omega

theorem contents_length (pos : ℕ) (xs : List Item) : (contents pos xs).length = xs.length := by
  induction xs generalizing pos with
  | nil => rfl
  | cons x xs ih => rw [contents, List.length_cons, List.length_cons, ih]

theorem contents_le (pos : ℕ) (xs : List Item) : ∀ a ∈ contents pos xs, a ≤ pos + (xs.flatMap bytes).length := by
  induction xs generalizing pos with
  | nil => simp [contents]
  | cons x xs ih =>
    intro a ha
    have hx := x.bytes_length
    rw [List.flatMap_cons, List.length_append]
    rcases List.mem_cons.mp ha with rfl | ha
    · omega
    · have := ih _ a ha
      omega

theorem length_le (xs : List Item) : xs.length ≤ (xs.flatMap bytes).length := by
  induction xs with
  | nil => exact le_rfl
  | cons x xs ih =>
    rw [List.flatMap_cons, List.length_append, List.length_cons, bytes_length]
    omega

theorem marked_nul (xs : List Item) (rest : Bytes) : ∃ rest', marked false xs ++ 0 :: rest = 0 :: rest' := by
  cases xs with
  | nil => exact ⟨rest, rfl⟩
  | cons x xs => exact ⟨_, by rw [marked]; rfl⟩

theorem read_contents (xs : List Item) (front rest : Bytes) (first : Bool) :
    (contents front.length xs).mapM (CString.read (front ++ marked first xs ++ 0 :: rest)) =
      some (xs.map (fun x => CString.prefixOf x.content)) := by
  induction xs generalizing front first with
  | nil => rfl
  | cons x xs ih =>
    obtain ⟨rest', hnul⟩ := marked_nul xs rest
    have hread : CString.read (front ++ marked first (x :: xs) ++ 0 :: rest) (front.length + x.digits.length + 2) =
        some (CString.prefixOf x.content) := by
      have hmem : front ++ marked first (x :: xs) ++ 0 :: rest =
          (front ++ (if first then 94 else 0) :: (x.digits ++ [38])) ++ (x.content ++ 0 :: rest') := by
        rw [← hnul]
        simp [marked]
      have hpos : front.length + x.digits.length + 2 =
          (front ++ (if first then 94 else 0) :: (x.digits ++ [38])).length := by
        simp only [List.length_append, List.length_cons, List.length_nil]
        omega
      rw [hmem, hpos]
      exact CString.read_content _ x.content rest'
    have hrest := ih (front ++ (if first then 94 else 0) :: (x.digits ++ 38 :: x.content)) false
    have hlen : (front ++ (if first then 94 else 0) :: (x.digits ++ 38 :: x.content)).length =
        front.length + x.bytes.length := by
      simp only [bytes, List.length_append, List.length_cons]
    have hmem : front ++ (if first then 94 else 0) :: (x.digits ++ 38 :: x.content) ++ marked false xs ++ 0 :: rest =
        front ++ marked first (x :: xs) ++ 0 :: rest := by
      simp [marked]
    rw [hlen, hmem] at hrest
    simp only [contents, List.mapM_cons, hread, hrest]
    rfl

end Item

open Item

theorem splitItems_item (x : Item) (n : ℕ) (front more : Bytes) {tokens : List ℕ} (hx : x.content.length ≤ intMax)
    (hmax : tokens.length < maxTokens) :
    splitItems (n + 1) front (x.bytes ++ more) tokens =
      splitItems n (front ++ (if tokens.isEmpty then 94 else 0) :: (x.digits ++ 38 :: x.content)) more
        (tokens ++ [front.length + x.digits.length + 2]) := by
  have htake : (x.digits ++ 38 :: (x.content ++ more)).take
      ((x.digits ++ 38 :: (x.content ++ more)).length - (38 :: (x.content ++ more)).length) = x.digits := by
    rw [List.length_append, Nat.add_sub_cancel]
    exact List.take_left
  have hdig : (38 :: (x.content ++ more)).length ≠ (x.digits ++ 38 :: (x.content ++ more)).length := by
    simp [x.digits_ne_nil]
  have hempty : (if tokens = [] then (94 : UInt8) else 0) = if tokens.isEmpty then 94 else 0 := by
    cases tokens <;> rfl
  rw [show x.bytes ++ more = 94 :: (x.digits ++ 38 :: (x.content ++ more)) by simp [bytes], splitItems, if_neg (by simp),
    x.scan more hx]
  simp only [hdig, ↓reduceIte, htake]
  rw [if_neg (by simp), if_neg (by simp), if_neg (by omega), List.take_left, List.drop_left, hempty]
  congr 1
  · simp
  · simp only [List.length_append, List.length_cons, List.length_nil, List.append_cancel_left_eq, List.cons.injEq, and_true]
    omega

theorem splitItems_items {xs : List Item} {n : ℕ} {front : Bytes} {tokens : List ℕ}
    (hn : xs.length < n) (hmax : tokens.length + xs.length ≤ maxTokens) (hlen : ∀ x ∈ xs, x.content.length ≤ intMax) :
    splitItems n front (xs.flatMap bytes) tokens =
      some (front ++ marked tokens.isEmpty xs, tokens ++ contents front.length xs) := by
  induction xs generalizing n front tokens with
  | nil =>
    obtain ⟨n, rfl⟩ := Nat.exists_eq_succ_of_ne_zero (by omega : n ≠ 0)
    simp [splitItems, marked, contents]
  | cons x xs ih =>
    obtain ⟨n, rfl⟩ := Nat.exists_eq_succ_of_ne_zero (by omega : n ≠ 0)
    simp only [List.length_cons] at hn hmax
    have hmore : ∀ a, (tokens ++ [a]).isEmpty = false := by simp
    rw [List.flatMap_cons, splitItems_item x n front _ (hlen x List.mem_cons_self) (by omega),
      ih (by omega) (by rw [List.length_append, List.length_singleton]; omega)
        (fun y hy => hlen y (List.mem_cons_of_mem x hy))]
    simp only [marked, contents, hmore, bytes, List.append_assoc, List.cons_append, List.nil_append, List.length_append,
      List.length_cons]

theorem splitItems_inv {n : ℕ} {front rest : Bytes} {c : UInt8} {tokens : List ℕ} {r : Bytes × List ℕ}
    (h : splitItems (n + 1) front (c :: rest) tokens = some r) :
    ∃ (x : Item) (more : Bytes), c :: rest = x.bytes ++ more ∧ x.content.length ≤ intMax ∧ tokens.length < maxTokens := by
  rw [splitItems] at h
  by_cases hc : c ≠ 94
  · simp [hc] at h
  rw [if_neg hc] at h
  rcases hscan : scanDigits intMax 0 rest with _ | ⟨len, tail⟩
  · simp [hscan] at h
  simp only [hscan] at h
  by_cases hdig : tail.length = rest.length
  · exact absurd h (by rw [if_pos hdig]; simp)
  rw [if_neg hdig] at h
  rcases tail with _ | ⟨d, content⟩
  · simp at h
  dsimp only at h
  by_cases hd : d ≠ 38
  · simp [hd] at h
  rw [if_neg hd] at h
  by_cases hlen : content.length < len
  · simp [hlen] at h
  rw [if_neg hlen] at h
  by_cases hmax : maxTokens ≤ tokens.length
  · simp [hmax] at h
  obtain rfl := not_not.mp hc
  obtain rfl := not_not.mp hd
  obtain ⟨x, hx, -, hsmall⟩ := of_scan hscan hdig (not_lt.mp hlen)
  exact ⟨x, content.drop len, hx, hsmall, not_le.mp hmax⟩

theorem splitItems_some {n : ℕ} {front todo : Bytes} {tokens : List ℕ} {r : Bytes × List ℕ}
    (h : splitItems n front todo tokens = some r) : ∃ xs : List Item, todo = xs.flatMap bytes ∧
      tokens.length + xs.length ≤ max tokens.length maxTokens ∧ ∀ x ∈ xs, x.content.length ≤ intMax := by
  induction n generalizing front todo tokens with
  | zero => simp [splitItems] at h
  | succ n ih =>
    cases todo with
    | nil => exact ⟨[], rfl, le_max_left _ _, by simp⟩
    | cons c rest =>
      obtain ⟨x, more, hx, hlen, hmax⟩ := splitItems_inv h
      rw [hx, splitItems_item x n front more hlen hmax] at h
      obtain ⟨xs, rfl, hxs, hall⟩ := ih h
      refine ⟨x :: xs, hx, ?_, ?_⟩
      · simp only [List.length_append, List.length_cons, List.length_nil] at hxs ⊢
        omega
      · rintro y (_ | ⟨_, hy⟩)
        · exact hlen
        · exact hall y hy

structure IsBody (text : Bytes) (xs : List Item) : Prop where
  count : xs.length ≤ maxTokens
  small : ∀ x ∈ xs, x.content.length ≤ intMax
  text_eq : text = xs.flatMap bytes ++ crlf

theorem splitToken_body {xs : List Item} {text : Bytes} (h : IsBody text xs) (front rest : Bytes) :
    splitToken (front ++ (text ++ rest)) front.length (front.length + text.length) =
      some (front ++ marked true xs ++ 0 :: (10 :: rest), contents front.length xs) := by
  obtain ⟨hcount, hsmall, rfl⟩ := h
  have hend : front.length + (xs.flatMap bytes ++ crlf).length - front.length - 2 = (xs.flatMap bytes).length := by
    rw [Nat.add_sub_cancel_left, List.length_append]
    rfl
  have hmem : front ++ (xs.flatMap bytes ++ crlf ++ rest) = front ++ (xs.flatMap bytes ++ 13 :: (10 :: rest)) := by
    simp [crlf]
  have hlong : ¬ front.length + (xs.flatMap bytes ++ crlf).length - front.length < 2 := by
    rw [Nat.add_sub_cancel_left, List.length_append]
    simp [crlf]
  have hbody : ((front ++ (xs.flatMap bytes ++ 13 :: (10 :: rest))).drop front.length).take (xs.flatMap bytes).length =
      xs.flatMap bytes := by
    rw [List.drop_left, List.take_left]
  have hdrop : (front ++ (xs.flatMap bytes ++ 13 :: (10 :: rest))).drop (front.length + (xs.flatMap bytes).length) =
      13 :: (10 :: rest) := by
    rw [← List.drop_drop, List.drop_left, List.drop_left]
  have hnext : (front ++ (xs.flatMap bytes ++ 13 :: (10 :: rest))).drop (front.length + (xs.flatMap bytes).length + 1) =
      10 :: rest := by
    rw [← List.drop_drop, hdrop]
    rfl
  have hitems : splitItems ((xs.flatMap bytes).length + 1) front (xs.flatMap bytes) [] =
      some (front ++ marked true xs, contents front.length xs) :=
    splitItems_items (Nat.lt_succ_of_le (length_le xs)) (by simpa using hcount) hsmall
  simp only [splitToken, hlong, ↓reduceIte, hend, hmem, hdrop, hnext, hbody, List.take_left, hitems]
  simp [crlf]

/-- The frame of a body: its tokens read as the strings its contents start with, and nothing behind it moves. -/
theorem splitToken_items {xs : List Item} {text : Bytes} (h : IsBody text xs) (head rest : Bytes) :
    ∃ mem tokens, splitToken (head ++ text ++ rest) head.length (head ++ text).length = some (mem, tokens) ∧
      tokens.mapM (CString.read mem) = some (xs.map (fun x => CString.prefixOf x.content)) ∧
      mem.length = (head ++ text ++ rest).length ∧ mem.drop (head ++ text).length = rest := by
  have hlen : (head ++ text).length = (head ++ marked true xs ++ [0, 10]).length := by
    rw [h.text_eq]
    simp only [List.length_append, marked_length, crlf, List.length_cons, List.length_nil]
    omega
  have hmem : head ++ marked true xs ++ 0 :: (10 :: rest) = (head ++ marked true xs ++ [0, 10]) ++ rest := by simp
  refine ⟨head ++ marked true xs ++ 0 :: (10 :: rest), contents head.length xs, ?_, read_contents xs head _ true, ?_, ?_⟩
  · rw [List.append_assoc, List.length_append]
    exact splitToken_body h _ rest
  · rw [hmem, List.length_append, ← hlen, ← List.length_append]
  · rw [hmem, hlen]
    exact List.drop_left

theorem take_drop_parts {mem : Bytes} {head total : ℕ} (hh : head ≤ total) (ht : total ≤ mem.length) :
    mem = mem.take head ++ ((mem.drop head).take (total - head) ++ mem.drop total) ∧
      (mem.take head).length = head ∧ head + ((mem.drop head).take (total - head)).length = total := by
  refine ⟨?_, ?_, ?_⟩
  · have hback : mem.drop total = (mem.drop head).drop (total - head) := by
      rw [List.drop_drop, Nat.add_sub_cancel' hh]
    rw [hback, List.take_append_drop, List.take_append_drop]
  · rw [List.length_take, min_eq_left (hh.trans ht)]
  · rw [List.length_take, List.length_drop]
    omega

theorem splitToken_some {mem : Bytes} {head total : ℕ} {r : Bytes × List ℕ} (h : splitToken mem head total = some r) :
    head ≤ total ∧ total ≤ mem.length ∧ ∃ xs, IsBody ((mem.drop head).take (total - head)) xs := by
  rw [splitToken] at h
  by_cases hsmall : total - head < 2
  · simp [hsmall] at h
  rw [if_neg hsmall] at h
  dsimp only at h
  by_cases hend : (mem.drop (head + (total - head - 2))).take 2 ≠ crlf
  · simp [hend] at h
  rw [if_neg hend] at h
  obtain ⟨⟨front, tokens⟩, hitems, -⟩ := Option.bind_eq_some_iff.mp h
  obtain ⟨xs, htodo, hcount, hall⟩ := splitItems_some hitems
  have hsum : total - head = (total - head - 2) + 2 := by omega
  have hlen := congrArg List.length (not_not.mp hend)
  simp only [List.length_take, List.length_drop, crlf, List.length_cons, List.length_nil] at hlen
  refine ⟨by omega, by omega, xs, by simpa using hcount, hall, ?_⟩
  rw [hsum, List.take_add, htodo, List.drop_drop, not_not.mp hend]

theorem splitToken_isBody {mem : Bytes} {head total : ℕ} {xs : List Item} (hh : head ≤ total) (ht : total ≤ mem.length)
    (h : IsBody ((mem.drop head).take (total - head)) xs) :
    splitToken mem head total =
      some (mem.take head ++ marked true xs ++ 0 :: (10 :: mem.drop total), contents head xs) := by
  obtain ⟨hmem, hhead, htotal⟩ := take_drop_parts hh ht
  have hsplit := splitToken_body h (mem.take head) (mem.drop total)
  rwa [← hmem, hhead, htotal] at hsplit

end Lidis.Kvsp
