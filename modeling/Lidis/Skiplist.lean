import Lidis.Engine
import Lidis.Lib.Chain

namespace Lidis

/-- Node fields as one map each; NULL is 0, and node `p` owns `forward p 0` to `forward p (height p)`. -/
structure Skiplist where
  header : ℕ
  level : ℕ
  forward : ℕ → ℕ → ℕ
  height : ℕ → ℕ
  key : ℕ → Option CString
  value : ℕ → Option CString
  next : ℕ

namespace Skiplist

def maxLevel : ℕ := 32

def fwd (S : Skiplist) (p i : ℕ) : Option ℕ := if p ≠ 0 ∧ i ≤ S.height p then some (S.forward p i) else none

def setForward (S : Skiplist) (p i q : ℕ) : Option Skiplist :=
  if p ≠ 0 ∧ i ≤ S.height p then
    some { S with forward := Function.update S.forward p (Function.update (S.forward p) i q) }
  else none

def advance (S : Skiplist) (key : CString) (i : ℕ) : ℕ → ℕ → Option ℕ
  | 0, _ => none
  | n + 1, current => do
    let nxt ← S.fwd current i
    if nxt ≠ 0 then do
      let k ← S.key nxt
      if CString.strcmp k key < 0 then advance S key i n nxt else some current
    else some current

def descend (S : Skiplist) (key : CString) (size : ℕ) : ℕ → ℕ → (ℕ → Option ℕ) → Option (ℕ × (ℕ → Option ℕ))
  | i, current, update => do
    let current ← advance S key i S.next current
    if size ≤ i then none
    else match i with
      | 0 => some (current, Function.update update 0 (some current))
      | i + 1 => descend S key size i current (Function.update update (i + 1) (some current))

def isKey (S : Skiplist) (key : CString) (p : ℕ) : Option Bool :=
  if p ≠ 0 then do
    let k ← S.key p
    some (CString.strcmp k key = 0)
  else some false

def find (S : Skiplist) (key : CString) (size : ℕ) : Option (ℕ × (ℕ → Option ℕ) × Bool) := do
  let (current, update) ← descend S key size S.level S.header (fun _ => none)
  let current ← S.fwd current 0
  let hit ← S.isKey key current
  some (current, update, hit)

def randomLevelFrom (low : ℕ → Bool) : ℕ → ℕ → ℕ
  | 0, level => level
  | n + 1, level => if low level then randomLevelFrom low n (level + 1) else level

def randomLevel (low : ℕ → Bool) : ℕ := randomLevelFrom low (maxLevel - 1) 0

def createNode (S : Skiplist) (level : ℕ) (key value : Option CString) (sys : Sys) : Option (Skiplist × ℕ) :=
  if ¬ sys.alloc 0 ∨ ¬ sys.alloc 1 then none
  else
    let S' := { S with
      height := Function.update S.height S.next level
      forward := Function.update S.forward S.next (fun _ => 0)
      next := S.next + 1 }
    match key, value with
    | some key, some value =>
      if ¬ sys.alloc 2 ∨ ¬ sys.alloc 3 then none
      else some ({ S' with
        key := Function.update S.key S.next (some key)
        value := Function.update S.value S.next (some value) }, S.next)
    | _, _ => some ({ S' with
        key := Function.update S.key S.next none
        value := Function.update S.value S.next none }, S.next)

def kvsSkiplistCreate (S : Skiplist) (sys : Sys) : Skiplist × ℤ :=
  match createNode S maxLevel none none sys with
  | none => ({ S with header := 0 }, -2)
  | some (S, header) => ({ S with header := header, level := 0 }, 0)

def setLevel (S : Skiplist) (level : ℕ) : Skiplist := { S with level := level }

def raise (S : Skiplist) (level : ℕ) (update : ℕ → Option ℕ) : Option (Skiplist × (ℕ → Option ℕ)) :=
  if S.level < level then
    if maxLevel ≤ level then none
    else some (S.setLevel level, fun i => if S.level < i ∧ i ≤ level then some S.header else update i)
  else some (S, update)

def linkAt (S : Skiplist) (update : ℕ → Option ℕ) (node i : ℕ) : Option Skiplist := do
  let p ← update i
  let q ← S.fwd p i
  let S ← S.setForward node i q
  S.setForward p i node

def link (update : ℕ → Option ℕ) (node : ℕ) : ℕ → Skiplist → Option Skiplist
  | 0, S => S.linkAt update node 0
  | i + 1, S => do
    let S ← S.linkAt update node (i + 1)
    link update node i S

def kvsSkiplistSet (S : Skiplist) (key value : Option CString) (sys : Sys) : Option (Skiplist × ℤ) :=
  match key, value with
  | some key, some value => do
    let (_, update, hit) ← S.find key maxLevel
    if hit then some (S, 1)
    else
      let level := randomLevel sys.low
      match S.createNode level key value sys with
      | none => some (S, -2)
      | some (S, node) => do
        let (S, update) ← S.raise level update
        let S ← link update node level S
        some (S, 0)
  | _, _ => some (S, -1)

def kvsSkiplistGet (S : Skiplist) (key : Option CString) : Option (Option CString) :=
  match key with
  | none => some none
  | some key => do
    let (current, _, hit) ← S.find key (S.level + 1)
    if hit then some (S.value current) else some none

def unlink (update : ℕ → Option ℕ) (current : ℕ) : ℕ → ℕ → Skiplist → Option Skiplist
  | 0, _, S => some S
  | n + 1, i, S => do
    let p ← update i
    let q ← S.fwd p i
    if q = current then do
      let r ← S.fwd current i
      let S ← S.setForward p i r
      unlink update current n (i + 1) S
    else some S

def lower (S : Skiplist) : ℕ → Option ℕ
  | 0 => some 0
  | i + 1 => do
    let q ← S.fwd S.header (i + 1)
    if q = 0 then lower S i else some (i + 1)

def kvsSkiplistDel (S : Skiplist) (key : Option CString) : Option (Skiplist × ℤ) :=
  match key with
  | none => some (S, -1)
  | some key => do
    let (current, update, hit) ← S.find key (S.level + 1)
    if hit then do
      let S ← unlink update current (S.level + 1) 0 S
      let level ← S.lower S.level
      some (S.setLevel level, 0)
    else some (S, 1)

def setValue (S : Skiplist) (p : ℕ) (v : Option CString) : Skiplist :=
  { S with value := Function.update S.value p v }

def kvsSkiplistMod (S : Skiplist) (key value : Option CString) (sys : Sys) : Option (Skiplist × ℤ) :=
  match key, value with
  | some key, some value => do
    let (current, _, hit) ← S.find key (S.level + 1)
    if hit then
      if ¬ sys.alloc 0 then some (S, -2)
      else some (S.setValue current (some value), 0)
    else some (S, 1)
  | _, _ => some (S, -1)

def kvsSkiplistExist (S : Skiplist) (key : Option CString) : Option ℤ :=
  match key with
  | none => some (-1)
  | some key => do
    let v ← kvsSkiplistGet S (some key)
    match v with
    | none => some 1
    | some _ => some 0

def engine : Engine Skiplist :=
  ⟨kvsSkiplistSet, kvsSkiplistGet, kvsSkiplistDel, kvsSkiplistMod, kvsSkiplistExist⟩

end Skiplist

end Lidis
