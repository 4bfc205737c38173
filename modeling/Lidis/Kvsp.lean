import Lidis.Lib.CInt
import Lidis.Lib.Decimal

namespace Lidis

def crlf : Bytes := [13, 10]

def maxTokens : ℕ := 128

/-- What a length parser answers: a negative code, 0 for a frame still incomplete, or the frame's
total length, with the length of its head. -/
inductive BulkSize where
  | error (code : ℤ)
  | more
  | frame (total head : ℕ)
  deriving DecidableEq

namespace Kvsp

def kvspParseBulkSize (buf : Bytes) : BulkSize :=
  match buf with
  | [] => .error (-1)
  | c :: rest =>
    if c ≠ 35 then .error (-2)
    else
      match scanDigits intMax 0 rest with
      | none => .error (-2)
      | some (bodyLen, tail) =>
        if tail.length = rest.length then
          if tail = [] then .more else .error (-2)
        else if tail.length < 2 then .more
        else if tail.take 2 ≠ crlf then .error (-2)
        else
          let pos := buf.length - tail.length + 2
          if intMax - pos < bodyLen then .error (-2)
          else if buf.length < bodyLen + pos then .more
          else .frame (bodyLen + pos) pos

/-- The token loop. `front` is the memory already passed, `todo` the bytes up to parse_end; the `^` of
every token but the first is overwritten by NUL. `none` is a negative return. -/
def splitItems : ℕ → Bytes → Bytes → List ℕ → Option (Bytes × List ℕ)
  | 0, _, _, _ => none
  | _ + 1, front, [], tokens => some (front, tokens)
  | n + 1, front, c :: rest, tokens =>
    if c ≠ 94 then none
    else
      match scanDigits intMax 0 rest with
      | none => none
      | some (len, tail) =>
        if tail.length = rest.length then none
        else
          match tail with
          | [] => none
          | d :: content =>
            if d ≠ 38 then none
            else if content.length < len then none
            else if maxTokens ≤ tokens.length then none
            else
              let lead := (if tokens = [] then c else 0) :: rest.take (rest.length - tail.length) ++ [d]
              splitItems n (front ++ lead ++ content.take len) (content.drop len)
                (tokens ++ [front.length + lead.length])

def splitToken (mem : Bytes) (head total : ℕ) : Option (Bytes × List ℕ) :=
  if total - head < 2 then none
  else
    let parseEnd := total - head - 2
    if (mem.drop (head + parseEnd)).take 2 ≠ crlf then none
    else do
      let (front, tokens) ← splitItems (parseEnd + 1) (mem.take head) ((mem.drop head).take parseEnd) []
      some (front ++ 0 :: mem.drop (head + parseEnd + 1), tokens)

def itemOf (content : Bytes) : Bytes := 94 :: (decimal content.length ++ 38 :: content)

def item (s : CString) : Bytes := itemOf s.bytes

def headOf (bodyLen : ℕ) : Bytes := 35 :: (decimal bodyLen ++ crlf)

def kvsBuildKvspFrame (argv : List CString) (alloc : Bool) : Option (Option Bytes) :=
  if argv = [] then some none
  else if argv.any (fun s => intMax < (item s).length) then some none
  else
    let bodyLen := (argv.map (fun s => (item s).length)).sum + 2
    let totalLen := (headOf bodyLen).length + bodyLen
    if intMax < totalLen + 1 then none
    else if ¬ alloc then some none
    else
      let buf := headOf bodyLen ++ argv.flatMap item ++ crlf
      if buf.length ≠ totalLen then some none else some (some buf)

def rawBody (contents : List Bytes) : Bytes := contents.flatMap itemOf ++ crlf

def rawFrame (contents : List Bytes) : Bytes := headOf (rawBody contents).length ++ rawBody contents

def body (ts : List CString) : Bytes := rawBody (ts.map CString.bytes)

def frameOf (ts : List CString) : Bytes := rawFrame (ts.map CString.bytes)

theorem body_eq (ts : List CString) : body ts = ts.flatMap item ++ crlf := by
  rw [body, rawBody, List.flatMap_map]
  rfl

theorem frameOf_eq (ts : List CString) : frameOf ts = headOf (body ts).length ++ ts.flatMap item ++ crlf := by
  rw [List.append_assoc, ← body_eq]
  rfl

theorem body_length (ts : List CString) : (body ts).length = (ts.map (fun s => (item s).length)).sum + 2 := by
  simp [body_eq, crlf, List.length_flatMap]

theorem built_length (ts : List CString) : (headOf (body ts).length ++ ts.flatMap item ++ crlf).length =
    (headOf (body ts).length).length + (body ts).length := by
  simp only [body_eq, List.length_append]
  omega

theorem rawFrame_length (contents : List Bytes) :
    (rawFrame contents).length = (headOf (rawBody contents).length).length + (rawBody contents).length :=
  List.length_append

theorem frameOf_length (ts : List CString) :
    (frameOf ts).length = (headOf (body ts).length).length + (body ts).length := rawFrame_length _

theorem itemOf_le_rawBody {contents : List Bytes} {content : Bytes} (h : content ∈ contents) :
    (itemOf content).length ≤ (rawBody contents).length := by
  obtain ⟨a, b, rfl⟩ := List.append_of_mem h
  simp only [rawBody, List.flatMap_append, List.flatMap_cons, List.length_append]
  omega

theorem item_le_body {ts : List CString} {s : CString} (h : s ∈ ts) : (item s).length ≤ (body ts).length :=
  itemOf_le_rawBody (List.mem_map_of_mem h)

theorem buildKvspFrame_some {ts : List CString} {alloc : Bool} {buf : Bytes}
    (h : kvsBuildKvspFrame ts alloc = some (some buf)) :
    buf = frameOf ts ∧ ts ≠ [] ∧ (frameOf ts).length < intMax := by
  simp only [kvsBuildKvspFrame, ← body_length, built_length, ne_eq, not_true_eq_false, ↓reduceIte] at h
  split_ifs at h with h1 h2 h3 h4
  · simp at h
  · simp at h
  · obtain rfl := Option.some.inj (Option.some.inj h)
    refine ⟨(frameOf_eq ts).symm, h1, ?_⟩
    rw [frameOf_length]
    omega
  · simp at h

theorem buildKvspFrame_defined {ts : List CString} (alloc : Bool) (h : (frameOf ts).length < intMax) :
    ∃ r, kvsBuildKvspFrame ts alloc = some r := by
  rw [frameOf_length] at h
  have hfit : ¬ intMax < (headOf (body ts).length).length + (body ts).length + 1 := by omega
  simp only [kvsBuildKvspFrame, ← body_length, built_length, hfit, ↓reduceIte, ne_eq, not_true_eq_false]
  split_ifs <;> exact ⟨_, rfl⟩

theorem items_fit {ts : List CString} (h : (frameOf ts).length ≤ intMax) :
    ¬ ts.any (fun s => intMax < (item s).length) = true := by
  rw [frameOf_length] at h
  simp only [List.any_eq_true, decide_eq_true_eq, not_exists, not_and]
  intro s hs hlt
  have := item_le_body hs
  omega

theorem buildKvspFrame_eq {ts : List CString} (h : ts ≠ []) (hl : (frameOf ts).length < intMax) :
    kvsBuildKvspFrame ts true = some (some (frameOf ts)) := by
  have hany := items_fit hl.le
  rw [frameOf_length] at hl
  have hfit : ¬ intMax < (headOf (body ts).length).length + (body ts).length + 1 := by omega
  simp only [kvsBuildKvspFrame, ← body_length, built_length, h, hany, hfit, ↓reduceIte, ne_eq, not_true_eq_false]
  simp [frameOf_eq]

end Kvsp

end Lidis
