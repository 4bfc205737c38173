import Lidis.Lib.CString
import Lidis.Lib.ColoredTree

namespace Lidis

open RedBlack

abbrev Ptr := ℕ

/-- The node fields as one map each; `next` is the first address never allocated. -/
structure Rbtree where
  root : Ptr
  nil : Ptr
  child : Side → Ptr → Ptr
  parent : Ptr → Ptr
  color : Ptr → Color
  key : Ptr → CString
  value : Ptr → Option CString
  next : Ptr

namespace Rbtree

def setChild (T : Rbtree) (d : Side) (p v : Ptr) : Rbtree :=
  { T with child := fun e q => if e = d ∧ q = p then v else T.child e q }

def setParent (T : Rbtree) (p v : Ptr) : Rbtree :=
  { T with parent := Function.update T.parent p v }

def setColor (T : Rbtree) (p : Ptr) (c : Color) : Rbtree :=
  { T with color := Function.update T.color p c }

def recolor (T : Rbtree) (p : Ptr) (c : Color) : Option Rbtree :=
  if p = T.nil then none else some (T.setColor p c)

def adopt (T : Rbtree) (b x : Ptr) : Rbtree := if b ≠ T.nil then T.setParent b x else T

def relink (T : Rbtree) (d : Side) (q x y : Ptr) : Rbtree :=
  if q = T.nil then { T with root := y }
  else if x = T.child d q then T.setChild d q y
  else T.setChild d.flip q y

def rotate (d : Side) (T : Rbtree) (x : Ptr) : Option Rbtree :=
  let y := T.child d.flip x
  if x = T.nil ∨ y = T.nil then none
  else
    let b := T.child d y
    let T := T.setChild d.flip x b
    let T := T.adopt b x
    let T := T.setParent y (T.parent x)
    let T := T.relink d (T.parent x) x y
    let T := T.setChild d y x
    some (T.setParent x y)

def rbtreeLeftRotate (T : Rbtree) (x : Ptr) : Option Rbtree := rotate .left T x

def rbtreeRightRotate (T : Rbtree) (y : Ptr) : Option Rbtree := rotate .right T y

def rbtreeMini (T : Rbtree) : ℕ → Ptr → Option Ptr
  | 0, _ => none
  | n + 1, x => if T.child .left x ≠ T.nil then rbtreeMini T n (T.child .left x) else some x

def climb (T : Rbtree) : ℕ → Ptr → Ptr → Option Ptr
  | 0, _, _ => none
  | n + 1, x, y => if y ≠ T.nil ∧ x = T.child .right y then climb T n y (T.parent y) else some y

def rbtreeSuccessor (T : Rbtree) (x : Ptr) : Option Ptr :=
  if T.child .right x ≠ T.nil then rbtreeMini T T.next (T.child .right x)
  else climb T T.next x (T.parent x)

def insertFixupRound (d : Side) (T : Rbtree) (z : Ptr) : Option (Rbtree × Ptr) :=
  let y := T.child d.flip (T.parent (T.parent z))
  if T.color y = .red then do
    let T ← T.recolor (T.parent z) .black
    let T ← T.recolor y .black
    let T ← T.recolor (T.parent (T.parent z)) .red
    some (T, T.parent (T.parent z))
  else do
    let (T, z) ← if z = T.child d.flip (T.parent z) then do
        let T' ← rotate d T (T.parent z)
        some (T', T.parent z)
      else some (T, z)
    let T ← T.recolor (T.parent z) .black
    let T ← T.recolor (T.parent (T.parent z)) .red
    let T ← rotate d.flip T (T.parent (T.parent z))
    some (T, z)

def sideOf (T : Rbtree) (x q : Ptr) : Side := if x = T.child .left q then .left else .right

def rbtreeInsertFixup : ℕ → Rbtree → Ptr → Option Rbtree
  | 0, _, _ => none
  | n + 1, T, z =>
    if T.color (T.parent z) = .red then do
      let (T, z) ← insertFixupRound (T.sideOf (T.parent z) (T.parent (T.parent z))) T z
      rbtreeInsertFixup n T z
    else some (T.setColor T.root .black)

inductive Descent where
  | exists
  | under (y : Ptr)
  deriving DecidableEq

def insertDescend (T : Rbtree) (z : Ptr) : ℕ → Ptr → Ptr → Option Descent
  | 0, _, _ => none
  | n + 1, x, y =>
    if x ≠ T.nil then
      if CString.strcmp (T.key z) (T.key x) < 0 then insertDescend T z n (T.child .left x) x
      else if CString.strcmp (T.key z) (T.key x) > 0 then insertDescend T z n (T.child .right x) x
      else some .exists
    else some (.under y)

def hang (T : Rbtree) (y z : Ptr) : Rbtree :=
  if y = T.nil then { T with root := z }
  else if CString.strcmp (T.key z) (T.key y) < 0 then T.setChild .left y z
  else T.setChild .right y z

def rbtreeInsert (T : Rbtree) (z : Ptr) : Option Rbtree := do
  match ← insertDescend T z T.next T.root T.nil with
  | .exists => some T
  | .under y =>
    let T := (T.setParent z y).hang y z
    let T := T.setChild .left z T.nil
    let T := T.setChild .right z T.nil
    let T := T.setColor z .red
    rbtreeInsertFixup T.next T z

def deleteFixupLast (d : Side) (T : Rbtree) (x w : Ptr) : Option (Rbtree × Ptr) := do
  let T ← T.recolor w (T.color (T.parent x))
  let T ← T.recolor (T.parent x) .black
  let T ← T.recolor (T.child d.flip w) .black
  let T ← rotate d T (T.parent x)
  some (T, T.root)

def deleteFixupBlack (d : Side) (T : Rbtree) (x w : Ptr) : Option (Rbtree × Ptr) :=
  if T.color (T.child .left w) = .black ∧ T.color (T.child .right w) = .black then do
    let T ← T.recolor w .red
    some (T, T.parent x)
  else if T.color (T.child d.flip w) = .black then do
    let T ← T.recolor (T.child d w) .black
    let T ← T.recolor w .red
    let T ← rotate d.flip T w
    deleteFixupLast d T x (T.child d.flip (T.parent x))
  else deleteFixupLast d T x w

def deleteFixupRound (d : Side) (T : Rbtree) (x : Ptr) : Option (Rbtree × Ptr) :=
  let w := T.child d.flip (T.parent x)
  if T.color w = .red then do
    let T ← T.recolor w .black
    let T ← T.recolor (T.parent x) .red
    let T ← rotate d T (T.parent x)
    deleteFixupBlack d T x (T.child d.flip (T.parent x))
  else deleteFixupBlack d T x w

def rbtreeDeleteFixup : ℕ → Rbtree → Ptr → Option Rbtree
  | 0, _, _ => none
  | n + 1, T, x =>
    if x ≠ T.root ∧ T.color x = .black then do
      let (T, x) ← deleteFixupRound (T.sideOf x (T.parent x)) T x
      rbtreeDeleteFixup n T x
    else some (T.setColor x .black)

def onlyChild (T : Rbtree) (y : Ptr) : Ptr :=
  if T.child .left y ≠ T.nil then T.child .left y
  else if T.child .right y ≠ T.nil then T.child .right y
  else T.nil

def splice (T : Rbtree) (y x : Ptr) : Rbtree :=
  let T := T.setParent x (T.parent y)
  T.relink .left (T.parent y) y x

def swapData (T : Rbtree) (y z : Ptr) : Rbtree :=
  if y ≠ z then
    { T with
      key := Function.update (Function.update T.key z (T.key y)) y (T.key z)
      value := Function.update (Function.update T.value z (T.value y)) y (T.value z) }
  else T

def unhook (T : Rbtree) (y z : Ptr) : Option Rbtree :=
  let x := T.onlyChild y
  let T := (T.splice y x).swapData y z
  if T.color y = .black then rbtreeDeleteFixup T.next T x else some T

def rbtreeDelete (T : Rbtree) (z : Ptr) : Option (Rbtree × Ptr) := do
  let y ← if T.child .left z = T.nil ∨ T.child .right z = T.nil then some z else rbtreeSuccessor T z
  let T ← T.unhook y z
  some (T, y)

def rbtreeSearch (T : Rbtree) (k : CString) : ℕ → Ptr → Option Ptr
  | 0, _ => none
  | n + 1, p =>
    if p ≠ T.nil then
      if CString.strcmp k (T.key p) < 0 then rbtreeSearch T k n (T.child .left p)
      else if CString.strcmp k (T.key p) > 0 then rbtreeSearch T k n (T.child .right p)
      else some p
    else some T.nil

end Rbtree

end Lidis
