import Lidis.Kvsp

namespace Lidis

def byteAt (mem : Bytes) (i : ℤ) : Option UInt8 := if 0 ≤ i then mem[i.toNat]? else none

def poke (mem : Bytes) (i : ℤ) (c : UInt8) : Option Bytes :=
  if 0 ≤ i ∧ i < mem.length then some (mem.set i.toNat c) else none

namespace Resp

def isSpace (c : UInt8) : Bool := c = 32 ∨ (9 ≤ c ∧ c ≤ 13)

def clampLong (z : ℤ) : ℤ := max (-(2 ^ 63)) (min (2 ^ 63 - 1) z)

def signOf : Bytes → Bool × Bytes
  | 45 :: t => (true, t)
  | 43 :: t => (false, t)
  | t => (false, t)

def atoi (mem : Bytes) (pos : ℕ) : Option ℤ :=
  let (neg, text) := signOf ((mem.drop pos).dropWhile isSpace)
  if text.dropWhile isDigit = [] then none
  else
    let value : ℤ := valueFrom 0 (text.takeWhile isDigit)
    some (toInt (clampLong (if neg then -value else value)))

def lineEnd (prev : UInt8) : Bytes → Option ℕ
  | [] => none
  | c :: t => if c = 10 ∧ prev = 13 then some 0 else (lineEnd c t).map (· + 1)

def scanLine (mem : Bytes) (bufSize pos : ℕ) : Option ℕ :=
  (lineEnd (mem[pos - 1]?.getD 0) ((mem.take bufSize).drop pos)).map (pos + ·)

def parseArgs (mem : Bytes) (bufSize head : ℕ) : ℕ → ℕ → Option BulkSize
  | 0, pos => some (.frame (pos + 1) head)
  | n + 1, pos =>
    if bufSize ≤ pos + 1 then some .more
    else if mem[pos + 1]? ≠ some 36 then some (.error (-2))
    else
      match scanLine mem bufSize (pos + 1) with
      | none => some .more
      | some q => do
        let bsLen ← atoi mem (pos + 2)
        if (intMax : ℤ) < bsLen + 2 then none
        else
          let r := (((q : ℤ) + (bsLen + 2)) % 2 ^ 64).toNat
          if bufSize ≤ r then some .more else parseArgs mem bufSize head n r

/-- `mem` is all the memory from `buf` on, of which the caller has filled bufSize bytes; `none` is a read past
it or a signed overflow. -/
def respParseBulkSize (mem : Bytes) (bufSize : ℕ) : Option BulkSize :=
  if bufSize = 0 then some (.error (-1))
  else if mem[0]? ≠ some 42 then some (.error (-2))
  else
    match scanLine mem bufSize 1 with
    | none => some .more
    | some pos => do
      let argc ← atoi mem 1
      parseArgs mem bufSize (pos + 1) argc.toNat pos

/-- The token loop from address `i` on, with room for `slots` more tokens. The outer `none` is an access outside
the memory or the token array, the inner one a negative return. -/
def splitBulks : ℕ → Bytes → ℤ → List ℕ → Option (Option (Bytes × List ℕ))
  | slots, mem, i, tokens => do
    let c ← byteAt mem i
    if c = 0 then some (some (mem, tokens))
    else if c ≠ 36 then some none
    else
      match slots with
      | 0 => none
      | n + 1 => do
        let bsLen ← atoi mem (i.toNat + 1)
        let gap ← (mem.drop (i.toNat + 1)).findIdx? (· = 13)
        let start := i.toNat + 1 + gap + 2
        let mem ← poke mem (start + bsLen) 0
        splitBulks n mem (start + bsLen + 2) (tokens ++ [start])

def splitToken (mem : Bytes) (head : ℕ) : Option (Option (Bytes × List ℕ)) := splitBulks maxTokens mem head []

def headOf (argc : ℕ) : Bytes := 42 :: (decimal argc ++ crlf)

def bulkOf (content : Bytes) : Bytes := 36 :: (decimal content.length ++ (crlf ++ (content ++ crlf)))

def rawFrame (contents : List Bytes) : Bytes := headOf contents.length ++ contents.flatMap bulkOf

def frameOf (ts : List CString) : Bytes := rawFrame (ts.map CString.bytes)

end Resp

end Lidis
