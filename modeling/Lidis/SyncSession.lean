import Lidis.ControlMessage
import Mathlib.Logic.Function.Basic

namespace Lidis.Sessions

def syncCommand : CString := .lit "SYNC"

def slaveFullsyncReady : CString := .lit "FULLSYNC READY"

def slaveFullsyncError : CString := .lit "FULLSYNC ERROR"

/-- Where kvs_master_full_sync stands on one connection. `idle` is before SYNC, `served` after a return of 0, `closed`
after a negative one, on which server_reader closes the connection. -/
inductive MasterPhase where
  | idle
  | snapshotting
  | waiting
  | sending (sent : ℕ)
  | served
  | closed
  deriving DecidableEq

/-- Where kvs_slave_full_sync stands. `file` is what it gave to kvs_file_read. -/
inductive SlavePhase where
  | start
  | requested
  | receiving (size : ℕ) (buf : Bytes)
  | finished (code : ℤ) (file : Option Bytes)
  deriving DecidableEq

/-- One connection: all that either side has put into it and how much of that the other side has taken out. `base`
and `snapshot` only record: how much the slave had taken before the first byte of the file, and what
kvs_snapshot.tmp held when the child had ended. -/
structure Session where
  master : MasterPhase
  slave : SlavePhase
  masterOut : Bytes
  slaveTaken : ℕ
  slaveOut : Bytes
  masterTaken : ℕ
  size : ℕ
  base : ℕ
  snapshot : Bytes

def Session.fresh : Session := ⟨.idle, .start, [], 0, [], 0, 0, 0, []⟩

/-- The answers to one kvs_send_single_command: the memory for the frame and what send returns. -/
structure SendEnv where
  alloc : Bool
  accepted : ℤ

def sendCommand (cmd : CString) (env : SendEnv) : Option (Bool × Bytes) :=
  (Control.kvsSendSingleCommand 0 (some cmd) env.alloc env.accepted).map (fun r => (decide (r.1 = 0), r.2))

/-- What a recv of at most `size` bytes brings when `n` are there to be taken; nothing is a return of 0 or less. -/
def available (out : Bytes) (taken size n : ℕ) : Bytes := ((out.drop taken).take size).take n

def recvCommand (received : Bytes) : Option (Option (List CString)) :=
  kvsRecvSingleCommand (if received = [] then none else some received)

namespace Session

/-- The cleanup of kvs_master_full_sync when FULLSYNC OK was not acknowledged. -/
def refuse (x : Session) (err : SendEnv) : Option Session := do
  let (_, bytes) ← sendCommand masterFullsyncError err
  some { x with master := .closed, masterOut := x.masterOut ++ bytes }

/-- The cleanup of kvs_slave_full_sync with a negative return value. -/
def giveUp (x : Session) (code : ℤ) (file : Option Bytes) (err : SendEnv) : Option Session := do
  let (_, bytes) ← sendCommand slaveFullsyncError err
  some { x with slave := .finished code file, slaveOut := x.slaveOut ++ bytes }

def request (x : Session) (env err : SendEnv) : Option Session := do
  let (whole, bytes) ← sendCommand syncCommand env
  let x := { x with slaveOut := x.slaveOut ++ bytes }
  if whole then some { x with slave := .requested } else x.giveUp (-2) none err

/-- kvs_slave_obtain_file_size after SYNC, and the first half of kvs_slave_obtain_file. -/
def answer (sscanf : CString → Option ℕ) (x : Session) (n : ℕ) (buffer : Bool) (ready err : SendEnv) : Option Session := do
  let received := available x.masterOut x.slaveTaken syncBufferSize n
  let x := { x with slaveTaken := x.slaveTaken + received.length }
  match ← recvCommand received with
  | none => x.giveUp (-2) none err
  | some [] => none
  | some (command :: _) =>
    if command = masterFullsyncBusy then some { x with slave := .finished kvsSyncRetBusy none }
    else if command = masterFullsyncError then some { x with slave := .finished kvsSyncRetError none }
    else
      match sscanf command with
      | none => some { x with slave := .finished kvsSyncRetError none }
      | some size =>
        if 2 ^ 63 - 1 < size then some { x with slave := .finished kvsSyncRetError none }
        else if size = 0 then some { x with slave := .finished 0 none }
        else if ¬ buffer then x.giveUp (-3) none err
        else do
          let (whole, bytes) ← sendCommand slaveFullsyncReady ready
          let x := { x with slaveOut := x.slaveOut ++ bytes }
          if whole then some { x with slave := .receiving size [], base := x.slaveTaken } else x.giveUp (-3) none err

/-- One recv of kvs_slave_obtain_file, and kvs_file_read after the last one. -/
def chunk (x : Session) (size : ℕ) (buf : Bytes) (n : ℕ) (loaded : Bool) (err : SendEnv) : Option Session :=
  let received := available x.masterOut x.slaveTaken (size - buf.length) n
  let x := { x with slaveTaken := x.slaveTaken + received.length }
  if received = [] then x.giveUp (-3) none err
  else if (buf ++ received).length < size then some { x with slave := .receiving size (buf ++ received) }
  else if loaded then some { x with slave := .finished 0 (some (buf ++ received)) }
  else x.giveUp (-3) (some (buf ++ received)) err

end Session

/-- `isFullSync` is the flag of kvs_sync.c, `tmp` the content of kvs_snapshot.tmp. -/
structure System where
  isFullSync : Bool
  tmp : Bytes
  sessions : ℕ → Session

def System.start (tmp : Bytes) : System := ⟨false, tmp, fun _ => .fresh⟩

def System.put (k : System) (i : ℕ) (x : Session) : System := { k with sessions := Function.update k.sessions i x }

/-- What one side of a connection does next, with the answers of the system. The other coroutines of the master may
run between any two of these, so may the slaves. -/
inductive Act where
  | request (i : ℕ) (env err : SendEnv)
  | sync (i : ℕ) (opened paired forked : Bool) (reply : SendEnv)
  | snapshot (i : ℕ) (report stat : Bool) (content : Bytes) (ok err : SendEnv)
  | ready (i : ℕ) (n : ℕ) (err : SendEnv)
  | sendfile (i : ℕ) (n : ℕ)
  | answer (i : ℕ) (n : ℕ) (buffer : Bool) (ready err : SendEnv)
  | chunk (i : ℕ) (n : ℕ) (loaded : Bool) (err : SendEnv)

section

variable (enableSync : Bool) (sscanf : CString → Option ℕ)

/-- The master's handler of SYNC up to the fork. -/
def System.sync (k : System) (i : ℕ) (opened paired forked : Bool) (reply : SendEnv) : Option System := do
  let x := { k.sessions i with masterTaken := (k.sessions i).masterTaken + (Kvsp.frameOf [syncCommand]).length }
  if ¬ enableSync then some (k.put i { x with master := .served })
  else if k.isFullSync then do
    let (_, bytes) ← sendCommand masterFullsyncBusy reply
    some (k.put i { x with master := .served, masterOut := x.masterOut ++ bytes })
  else
    let k := { k with tmp := if opened then [] else k.tmp }
    if opened ∧ paired ∧ forked then some { k.put i { x with master := .snapshotting } with isFullSync := true }
    else do
      let x ← x.refuse reply
      some (k.put i x)

/-- From the end of the child to the wait for FULLSYNC READY. `report` is its exit status and the byte it wrote. -/
def System.snapshot (k : System) (i : ℕ) (report stat : Bool) (content : Bytes) (ok err : SendEnv) : Option System := do
  let x := k.sessions i
  let k := { k with tmp := content }
  if ¬ (report ∧ stat) then do
    let x ← x.refuse err
    some { k.put i x with isFullSync := false }
  else do
    let (whole, bytes) ← sendCommand (masterFullsyncOk content.length) ok
    let x := { x with masterOut := x.masterOut ++ bytes, size := content.length, snapshot := content }
    if ¬ whole then do
      let x ← x.refuse err
      some { k.put i x with isFullSync := false }
    else if content.length = 0 then some { k.put i { x with master := .served } with isFullSync := false }
    else some (k.put i { x with master := .waiting })

def System.ready (k : System) (i : ℕ) (n : ℕ) (err : SendEnv) : Option System := do
  let received := available (k.sessions i).slaveOut (k.sessions i).masterTaken syncBufferSize n
  let x := { k.sessions i with masterTaken := (k.sessions i).masterTaken + received.length }
  match ← recvCommand received with
  | some [] => none
  | some (command :: _) =>
    if command = slaveFullsyncReady then some (k.put i { x with master := .sending 0 })
    else do
      let x ← x.refuse err
      some { k.put i x with isFullSync := false }
  | none => do
    let x ← x.refuse err
    some { k.put i x with isFullSync := false }

/-- One sendfile of kvs_master_send_file that is not told to try again. -/
def System.sendfile (k : System) (i sent n : ℕ) : System :=
  let x := k.sessions i
  let bytes := ((k.tmp.drop sent).take (x.size - sent)).take n
  if bytes = [] then { k.put i { x with master := .closed } with isFullSync := false }
  else
    let x := { x with masterOut := x.masterOut ++ bytes }
    if sent + bytes.length = x.size then { k.put i { x with master := .served } with isFullSync := false }
    else k.put i { x with master := .sending (sent + bytes.length) }

/-- An act of a side that stands elsewhere does nothing; `none` is undefined behaviour. -/
def System.step (k : System) : Act → Option System
  | .request i env err =>
    if (k.sessions i).slave = .start then ((k.sessions i).request env err).map (k.put i) else some k
  | .sync i opened paired forked reply =>
    if (k.sessions i).master = .idle ∧ Kvsp.frameOf [syncCommand] <+: (k.sessions i).slaveOut.drop (k.sessions i).masterTaken
    then k.sync enableSync i opened paired forked reply
    else some k
  | .snapshot i report stat content ok err =>
    if (k.sessions i).master = .snapshotting then k.snapshot i report stat content ok err else some k
  | .ready i n err => if (k.sessions i).master = .waiting then k.ready i n err else some k
  | .sendfile i n =>
    match (k.sessions i).master with
    | .sending sent => some (k.sendfile i sent n)
    | _ => some k
  | .answer i n buffer ready err =>
    if (k.sessions i).slave = .requested then
      ((k.sessions i).answer sscanf n buffer ready err).map (k.put i)
    else some k
  | .chunk i n loaded err =>
    match (k.sessions i).slave with
    | .receiving size buf => ((k.sessions i).chunk size buf n loaded err).map (k.put i)
    | _ => some k

def System.run : List Act → System → Option System
  | [], k => some k
  | act :: acts, k => do
    let k ← k.step enableSync sscanf act
    System.run acts k

end

end Lidis.Sessions
