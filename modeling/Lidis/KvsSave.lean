import Lidis.KvsFile
import Lidis.Store

namespace Lidis

open Engine Store

inductive SaveStatus where
  | idle
  | running
  | error
  deriving DecidableEq

structure SaveState where
  status : SaveStatus
  child : Bool
  pending : Bool
  deriving DecidableEq

structure ForkEnv where
  pair : Bool
  fork : Bool
  notify : Bool

def kvsForkSaveChild (st : SaveState) (env : ForkEnv) : SaveState × ℤ :=
  if ¬ env.pair then (st, -1)
  else if ¬ env.fork then ({ st with status := .error }, -1)
  else if ¬ env.notify then ({ st with status := .error, child := true }, -1)
  else ({ st with status := .running, child := true }, 0)

def kvsSaveWrite (enableSave : Bool) (st : SaveState) (env : ForkEnv) : SaveState × ℤ :=
  if ¬ enableSave then (st, 0)
  else
    match st.status with
    | .running => ({ st with pending := true }, 1)
    | .error => (st, -1)
    | .idle => kvsForkSaveChild st env

/-- What kvs_save_child_done sees of the child: the byte '0' arrived, waitpid returned its pid, it exited with 0. -/
structure ChildEnd where
  received : Bool
  reaped : Bool
  exitedZero : Bool

def ChildEnd.Saved (e : ChildEnd) : Prop := e.received = true ∧ e.reaped = true ∧ e.exitedZero = true

instance (e : ChildEnd) : Decidable e.Saved := inferInstanceAs (Decidable (_ ∧ _ ∧ _))

def kvsSaveChildDone (st : SaveState) (e : ChildEnd) (env : ForkEnv) : SaveState :=
  let st := { st with
    status := if e.Saved then .idle else .error
    child := if e.reaped then false else st.child }
  if st.pending ∧ st.status = .idle then (kvsForkSaveChild { st with pending := false } env).1 else st

structure RecordEnv where
  frame : Bool
  ctx : Bool
  sqe : Bool

/-- The context of one traversal. `writes` lists what the ring was handed, each with its offset, and `returns` what
kvs_io_uring_write returned, oldest first. -/
structure SaveCtx where
  offset : ℕ
  writes : List (ℕ × Bytes)
  returns : List ℤ

def engineName : EngineId → CString
  | .array => .lit "ARRAY"
  | .rbtree => .lit "RBTREE"
  | .hash => .lit "HASH"
  | .skiplist => .lit "SKIPLIST"

/-- The outer `none` is a signed overflow, the inner one a NULL return: a body that snprintf cannot count makes the
two lengths differ. -/
def buildSaveProtocol (key value : Option CString) (type : EngineId) (alloc : Bool) : Option (Option Bytes) :=
  match key, value with
  | some key, some value =>
    let body := Kvsp.item (engineName type) ++ Kvsp.item key ++ Kvsp.item value ++ crlf
    let totalLen := body.length + (Kvsp.headOf body.length).length
    if intMax < body.length then some none
    else if intMax < totalLen + 1 then none
    else if ¬ alloc then some none
    else some (some (Kvsp.headOf body.length ++ body))
  | _, _ => some none

def kvsIoUringWrite (fd : ℤ) (buf : Option Bytes) (env : RecordEnv) (ctx : SaveCtx) : SaveCtx × ℤ :=
  let ret (ctx : SaveCtx) (code : ℤ) := ({ ctx with returns := ctx.returns ++ [code] }, code)
  match buf with
  | none => ret ctx (-1)
  | some buf =>
    if fd < 0 ∨ buf = [] then ret ctx (-1)
    else if ¬ env.ctx then ret ctx (-2)
    else if ¬ env.sqe then ret ctx (-4)
    else ret { ctx with offset := ctx.offset + buf.length, writes := ctx.writes ++ [(ctx.offset, buf)] } 0

def saveRecord (env : ℕ → RecordEnv) (type : EngineId) (key value : Option CString) (fd : ℤ) (ctx : SaveCtx) :
    Option (SaveCtx × ℤ) := do
  let buf ← buildSaveProtocol key value type (env ctx.returns.length).frame
  some (kvsIoUringWrite fd buf (env ctx.returns.length) ctx)

/-! The loops of the traversal over any context and any way of writing a record. -/

section Loops

variable {σ : Type} (write : EngineId → Option CString → Option CString → ℤ → σ → Option (σ × ℤ))

/-- A failed write turns the subtrees below it away; what the subtrees return is not looked at. -/
def kvsSaveWriteRbtree (T : Rbtree) : ℕ → Ptr → ℤ → σ → Option (σ × ℤ)
  | 0, _, _, _ => none
  | n + 1, node, fd, ctx =>
    if fd < 0 then some (ctx, fd)
    else if node ≠ T.nil then do
      let (ctx, ret) ← write .rbtree (some (T.key node)) (T.value node) fd ctx
      let fd := if ret < 0 then ret else fd
      let (ctx, _) ← kvsSaveWriteRbtree T n (T.child .left node) fd ctx
      let (ctx, _) ← kvsSaveWriteRbtree T n (T.child .right node) fd ctx
      some (ctx, ret)
    else some (ctx, 0)

def saveChain (fd : ℤ) : List HashNode → σ → Option (σ × ℤ)
  | [], ctx => some (ctx, 0)
  | node :: rest, ctx => do
    let (ctx, ret) ← write .hash (some node.key) (some node.value) fd ctx
    if ret ≠ 0 then some (ctx, ret) else saveChain fd rest ctx

def saveBuckets (H : KvsHash) (fd : ℤ) : ℕ → ℕ → ℤ → σ → Option (σ × ℤ)
  | 0, _, _, ctx => some (ctx, 0)
  | n + 1, i, count, ctx => do
    let (ctx, ret) ← saveChain write fd (H.nodes i) ctx
    if ret ≠ 0 then some (ctx, ret)
    else if count - (H.nodes i).length ≤ 0 then some (ctx, 0)
    else saveBuckets H fd n (i + 1) (count - (H.nodes i).length) ctx

def saveHash (H : KvsHash) (fd : ℤ) (ctx : σ) : Option (σ × ℤ) :=
  if 0 < H.count then saveBuckets write H fd H.maxSlots 0 H.count ctx else some (ctx, 0)

def saveSlots (fd : ℤ) : List Slot → ℤ → σ → Option (σ × ℤ)
  | [], _, ctx => some (ctx, 0)
  | slot :: rest, count, ctx =>
    match slot.key with
    | none => if count ≤ 0 then some (ctx, 0) else saveSlots fd rest count ctx
    | some key => do
      let (ctx, ret) ← write .array (some key) slot.value fd ctx
      if ret ≠ 0 then some (ctx, ret)
      else if count - 1 ≤ 0 then some (ctx, 0)
      else saveSlots fd rest (count - 1) ctx

def saveArray (A : KvsArray) (fd : ℤ) (ctx : σ) : Option (σ × ℤ) :=
  if 0 < A.total then saveSlots write fd A.table A.total ctx else some (ctx, 0)

def saveNodes (S : Skiplist) (fd : ℤ) : ℕ → ℕ → σ → Option (σ × ℤ)
  | 0, _, _ => none
  | n + 1, current, ctx =>
    if current ≠ 0 then do
      let (ctx, ret) ← write .skiplist (S.key current) (S.value current) fd ctx
      if ret ≠ 0 then some (ctx, ret)
      else do
        let current ← S.fwd current 0
        saveNodes S fd n current ctx
    else some (ctx, 0)

/-- kvs_traversal_write up to the last record. -/
def writeStore (s : Store) (fd : ℤ) (ctx : σ) : Option (σ × ℤ) := do
  let (ctx, ret) ← kvsSaveWriteRbtree write s.rbtree s.rbtree.next s.rbtree.root fd ctx
  if ret ≠ 0 then some (ctx, ret)
  else do
    let (ctx, ret) ← saveHash write s.hash fd ctx
    if ret ≠ 0 then some (ctx, ret)
    else do
      let (ctx, ret) ← saveArray write s.array fd ctx
      if ret ≠ 0 then some (ctx, ret)
      else do
        let current ← s.skiplist.fwd s.skiplist.header 0
        saveNodes write s.skiplist fd s.skiplist.next current ctx

end Loops

def kvsTraversalWrite (env : ℕ → RecordEnv) (s : Store) (fd : ℤ) (ctx : SaveCtx) : Option (SaveCtx × ℤ) :=
  writeStore (saveRecord env) s fd ctx

def SaveCtx.start : SaveCtx := ⟨0, [], []⟩

def engineOf (type : CString) : Option EngineId :=
  match type.bytes.head? with
  | some 65 => some .array
  | some 72 => some .hash
  | some 82 => some .rbtree
  | some 83 => some .skiplist
  | _ => none

def loadRecord (P : Params) (tokens : List CString) (s : Store) (sys : Sys) : Option (ℤ × Store) :=
  match tokens with
  | [type, key, value] =>
    match engineOf type with
    | some id => ((engine P id).set s (some key) (some value) sys).map (fun r => (r.2, r.1))
    | none => some (0, s)
  | _ => some (-2, s)

def kvsSaveHandler (P : Params) (sys : ℕ → Sys) : Handler Store := fun i cli s => do
  match ← kvsSplitToken cli with
  | none => some (-2, cli, s)
  | some (rbuf, addresses) => do
    let tokens ← addresses.mapM (CString.read rbuf)
    let (ret, s) ← loadRecord P tokens s (sys i)
    some (ret, { cli with rbuf := rbuf }, s)

structure LoadEnv where
  opened : Bool
  fstat : Bool
  mmap : Bool
  read : FileEnv

def kvsSaveInit (P : Params) (enableSave : Bool) (file : Bytes) (load : LoadEnv) (sys : ℕ → Sys) (s : Store) :
    Option (ℤ × Store) :=
  if ¬ enableSave then some (0, s)
  else if ¬ load.opened then some (0, s)
  else if ¬ load.fstat then some (-1, s)
  else if file = [] then some (0, s)
  else if ¬ load.mmap then some (-2, s)
  else do
    let (_, s) ← kvsFileRead (kvsSaveHandler P sys) load.read file s
    some (0, s)

end Lidis
