import Lidis.KvsLog
import Lidis.KvsSave

namespace Lidis

open Mempool (Grant)

structure Config where
  enableLog : Bool
  enableSave : Bool
  enableSync : Bool

/-- The globals of the server. `executed` and `logReturns` only record: the commands that were executed and what
kvs_log_write returned for them, oldest first. -/
structure Global where
  store : Store
  recovering : Bool
  config : Config
  log : LogState
  save : SaveState
  executed : List (List CString)
  logReturns : List ℤ

/-- What the system answers during one command. `reserve` and `grow` are the two reallocations of the write
buffer, `fresh` is what new memory holds, `fullSync` what kvs_master_full_sync returns. -/
structure Env where
  sys : Sys
  reserve : Grant
  grow : Grant
  fresh : ℕ → UInt8
  log : LogEnv
  save : ForkEnv
  fullSync : ℤ

structure Env.Granted (env : Env) : Prop where
  sys : env.sys.AllocOk
  reserve : env.reserve = .whole
  grow : env.grow = .whole

def Env.granted : Env := ⟨.granted, .whole, .whole, fun _ => 0, ⟨true, true, true⟩, ⟨true, true, true⟩, 0⟩

def Global.start (P : Params) : Global :=
  ⟨Store.fresh P, true, ⟨true, true, true⟩, ⟨true, true, 0, []⟩, ⟨.idle, false, false⟩, [], []⟩

inductive Verb where
  | set
  | get
  | del
  | mod
  | exist
  deriving DecidableEq

inductive Command where
  | data (id : EngineId) (verb : Verb)
  | save
  | sync
  | fullsyncFinished
  | command
  deriving DecidableEq

def commandTable : List (CString × Command) :=
  [(.lit "SET", .data .array .set), (.lit "GET", .data .array .get), (.lit "DEL", .data .array .del),
   (.lit "MOD", .data .array .mod), (.lit "EXIST", .data .array .exist),
   (.lit "RSET", .data .rbtree .set), (.lit "RGET", .data .rbtree .get), (.lit "RDEL", .data .rbtree .del),
   (.lit "RMOD", .data .rbtree .mod), (.lit "REXIST", .data .rbtree .exist),
   (.lit "HSET", .data .hash .set), (.lit "HGET", .data .hash .get), (.lit "HDEL", .data .hash .del),
   (.lit "HMOD", .data .hash .mod), (.lit "HEXIST", .data .hash .exist),
   (.lit "LSET", .data .skiplist .set), (.lit "LGET", .data .skiplist .get), (.lit "LDEL", .data .skiplist .del),
   (.lit "LMOD", .data .skiplist .mod), (.lit "LEXIST", .data .skiplist .exist),
   (.lit "SAVE", .save), (.lit "SYNC", .sync), (.lit "FULLSYNC FINISHED", .fullsyncFinished),
   (.lit "COMMAND", .command)]

def commandOf (token : CString) : Option Command :=
  (commandTable.find? (fun e => CString.strcmp token e.1 = 0)).map Prod.snd

/-- `silent` is REPLY_START: nothing is written and the length is the one given. -/
inductive Reply where
  | silent (length : ℤ)
  | ok
  | error
  | exist
  | noExist
  | value (result : CString)
  | none (token : CString)
  | command
  deriving DecidableEq

def Reply.text : Reply → Bytes
  | .silent _ => []
  | .ok => ascii "+OK\r\n"
  | .error => ascii "-ERR message\r\n"
  | .exist => ascii ":1\r\n"
  | .noExist => ascii "$-1\r\n"
  | .value result => ascii "$" ++ (decimal result.length ++ (ascii "\r\n" ++ (result.bytes ++ ascii "\r\n")))
  | .none token => ascii "-ERR no such command '" ++ (token.bytes ++ ascii "'\r\n")
  | .command => ascii "*0\r\n"

def replyOf (other : Reply) (ret : ℤ) : Reply × Bool :=
  if ret < 0 then (.error, false) else if ret = 0 then (.ok, true) else (other, false)

def runVerb (e : Engine Store) (verb : Verb) (key value : Option CString) (s : Store) (sys : Sys) :
    Option (Store × Reply × Bool) :=
  match verb with
  | .set => (e.set s key value sys).map (fun r => (r.1, replyOf .exist r.2))
  | .get => (e.get s key).map (fun
    | none => (s, .noExist, false)
    | some result => (s, .value result, false))
  | .del => (e.del s key).map (fun r => (r.1, replyOf .noExist r.2))
  | .mod => (e.mod s key value sys).map (fun r => (r.1, replyOf .noExist r.2))
  | .exist => (e.exist s key).map (fun ret => (s, if ret = 0 then .exist else .noExist, false))

def runCommand (P : Params) (token : CString) (key value : Option CString) (g : Global) (env : Env) :
    Option (Global × Reply × Bool) :=
  match commandOf token with
  | some (.data id verb) =>
    (runVerb (Store.engine P id) verb key value g.store env.sys).map (fun r => ({ g with store := r.1 }, r.2))
  | some .save =>
    let (st, ret) := kvsSaveWrite g.config.enableSave g.save env.save
    some ({ g with save := st }, if ret = 0 ∨ ret = 1 then .ok else .error, false)
  | some .sync => some (g, .silent (if env.fullSync < 0 then env.fullSync else 0), false)
  | some .fullsyncFinished => some (g, .silent 0, false)
  | some .command => some (g, .command, false)
  | none => some (g, .none token, false)

/-- Room for a short reply. The outer `none` is a signed overflow, the inner one a failed allocation. -/
def reserveReply (cli : Client) (env : Env) : Option (Option Client) :=
  if cli.wCap - cli.wPos < 32 then
    if intMax < cli.wCap * 2 then none
    else some ((kvsRealloc env.fresh cli.wbuf (cli.wCap * 2) env.reserve).map fun wbuf =>
      { cli with wbuf := wbuf, wCap := cli.wCap * 2 })
  else some (some cli)

def growReply (cli : Client) (result : CString) (env : Env) : Option (Option Client) :=
  if intMax < result.length + 15 then none
  else if cli.wCap - cli.wPos < result.length + 15 then
    if intMax < cli.wCap + (result.length + 15) + 1 then none
    else some ((kvsRealloc env.fresh cli.wbuf (cli.wCap + (result.length + 15) + 1) env.grow).map fun wbuf =>
      { cli with wbuf := wbuf, wCap := cli.wCap + (result.length + 15) })
  else some (some cli)

def printReply (cli : Client) (text : Bytes) : Option (ℤ × Client) := do
  let wbuf ← sprintf cli.wbuf cli.wPos text
  some (text.length, { cli with wbuf := wbuf })

def writeReply (cli : Client) (reply : Reply) (env : Env) : Option (Option (ℤ × Client)) :=
  match reply with
  | .silent length => some (some (length, cli))
  | .value result => do
    match ← growReply cli result env with
    | none => some none
    | some cli => (printReply cli (Reply.value result).text).map some
  | reply => (printReply cli reply.text).map some

def kvsMasterIncrSync (enableSync : Bool) (tokens : List CString) : ℤ :=
  if ¬ enableSync then 0 else if tokens = [] then -1 else 0

/-- A successful write outside recovery is logged; what kvs_log_write returns is not looked at. -/
def logCommand (tokens : List CString) (wrote : Bool) (g : Global) (env : Env) : Option Global :=
  if wrote ∧ ¬ g.recovering then do
    let (log, ret) ← kvsLogWrite g.config.enableLog tokens g.log env.log
    some { g with log := log, logReturns := g.logReturns ++ [ret] }
  else some g

def kvsFilterProtocol (P : Params) (tokens : List CString) (cli : Client) (g : Global) (env : Env) :
    Option (ℤ × Client × Global) :=
  match tokens with
  | [] => some (-1, cli, g)
  | token :: args => do
    match ← reserveReply cli env with
    | none => some (-1, cli, g)
    | some cli => do
      let (g, reply, wrote) ← runCommand P token args[0]? args[1]? { g with executed := g.executed ++ [tokens] } env
      match ← writeReply cli reply env with
      | none => some (-1, cli, g)
      | some (length, cli) => do
        let g ← logCommand tokens wrote g env
        if wrote ∧ ¬ g.recovering ∧ kvsMasterIncrSync g.config.enableSync tokens ≠ 0 then some (-2, cli, g)
        else some (length, cli, g)

def kvsProtocol (P : Params) (cli : Client) (g : Global) (env : Env) : Option (ℤ × Client × Global) := do
  match ← kvsSplitToken cli with
  | none => some (-1, cli, g)
  | some (rbuf, addresses) => do
    let tokens ← addresses.mapM (CString.read rbuf)
    kvsFilterProtocol P tokens { cli with rbuf := rbuf } g env

theorem kvsProtocol_tokens {P : Params} {cli : Client} {g : Global} {env : Env} {rbuf : Bytes} {addresses : List ℕ}
    {tokens : List CString} (h : kvsSplitToken cli = some (some (rbuf, addresses)))
    (hr : addresses.mapM (CString.read rbuf) = some tokens) :
    kvsProtocol P cli g env = kvsFilterProtocol P tokens { cli with rbuf := rbuf } g env := by
  simp only [kvsProtocol, h, bind, Option.bind, hr]

theorem kvsProtocol_refused {P : Params} {cli : Client} {g : Global} {env : Env} (h : kvsSplitToken cli = some none) :
    kvsProtocol P cli g env = some (-1, cli, g) := by
  simp only [kvsProtocol, h, bind, Option.bind]

end Lidis
