import Lidis.Resp
import Lidis.KvspStream
import Lidis.Lib.ListScan
import Lidis.Lib.Ring

namespace Lidis.Agent

def leBytes : ℕ → ℕ → Bytes
  | 0, _ => []
  | k + 1, n => UInt8.ofNat (n % 256) :: leBytes k (n / 256)

def leValue : Bytes → ℕ
  | [] => 0
  | c :: cs => c.toNat + 256 * leValue cs

def sizeBytes (n : ℕ) : Bytes := leBytes 8 n

structure AgentCache where
  readPos : ℕ
  writePos : ℕ
  used : ℕ
  cache : Bytes

def AgentCache.capacity (ac : AgentCache) : ℕ := ac.cache.length

def kvsAgentCacheCreate (memory : Bytes) : AgentCache := ⟨0, 0, 0, memory⟩

def cacheWriteBytes (ac : AgentCache) (buf : Bytes) : AgentCache × ℤ :=
  if buf = [] then (ac, -1)
  else if ac.capacity - ac.used < buf.length then (ac, -2)
  else
    let (cache, writePos) := Ring.write ac.cache ac.writePos buf
    ({ ac with cache := cache, writePos := writePos, used := ac.used + buf.length }, 0)

def kvsAgentCacheWrite (ac : AgentCache) (buf : Bytes) : AgentCache × ℤ :=
  if buf = [] then (ac, -1)
  else if 2 ^ 64 - 1 - 8 < buf.length then (ac, -2)
  else if ac.capacity - ac.used < 8 + buf.length then (ac, -2)
  else
    match cacheWriteBytes ac (sizeBytes buf.length) with
    | (ac, 0) =>
      match cacheWriteBytes ac buf with
      | (ac, 0) => (ac, 0)
      | (ac, _) => (ac, -3)
    | (ac, _) => (ac, -3)

def cacheReadBytes (ac : AgentCache) (n : ℕ) : AgentCache × Option Bytes :=
  if n = 0 then (ac, none)
  else if ac.used < n then (ac, none)
  else
    let (buf, readPos) := Ring.read ac.cache ac.readPos n
    ({ ac with readPos := readPos, used := ac.used - n }, some buf)

def cachePeekLen (ac : AgentCache) : Option ℕ :=
  if ac.used < 8 then none else some (leValue (Ring.read ac.cache ac.readPos 8).1)

def kvsAgentCacheRead (ac : AgentCache) (alloc : Bool) : AgentCache × Option Bytes :=
  match cachePeekLen ac with
  | none => (ac, none)
  | some len =>
    if ac.used - 8 < len ∨ len = 0 then (ac, none)
    else if ¬ alloc then (ac, none)
    else cacheReadBytes { ac with readPos := (ac.readPos + 8) % ac.capacity, used := ac.used - 8 } len

structure Slaves where
  table : List ℤ
  total : ℕ

def kvsSlavesCreate (size : ℕ) : Slaves := ⟨List.replicate size (-1), 0⟩

def kvsSlavesInsert (inst : Slaves) (fd : ℤ) : Slaves × ℤ :=
  if inst.total = inst.table.length then (inst, -2)
  else
    match editFirst (fun x => decide (x < 0)) (fun _ => [fd]) inst.table with
    | some table => (⟨table, inst.total + 1⟩, 0)
    | none => (inst, 0)

def kvsSlavesDelete (inst : Slaves) (fd : ℤ) : Slaves × ℤ :=
  if inst.total = 0 then (inst, 0)
  else
    match editFirst (fun x => decide (x = fd)) (fun _ => [-1]) inst.table with
    | some table => (⟨table, inst.total - 1⟩, 0)
    | none => (inst, 0)

inductive ServerEvent where
  | accept (fd : ℤ)
  | closed (fd : ℤ)

def server (inst : Slaves) : ServerEvent → Slaves
  | .accept fd => (kvsSlavesInsert inst fd).1
  | .closed fd => (kvsSlavesDelete inst fd).1

inductive SlaveState where
  | unknown
  | fullSync
  | incrSync
  deriving DecidableEq

/-- The agent, with the table of slaves and what has gone out on each descriptor. `buf` is the part of the buffer
that is filled. -/
structure AgentInfo where
  buf : Bytes
  bufCap : ℕ
  state : SlaveState
  fullsyncCache : AgentCache
  slaves : Slaves
  sent : ℤ → Bytes

def kvsAgentInfoInit (bufSize : ℕ) (memory : Bytes) (slaves : Slaves) : AgentInfo :=
  ⟨[], bufSize, .unknown, kvsAgentCacheCreate memory, slaves, fun _ => []⟩

inductive SendResult where
  | wrote (n : ℕ)
  | again
  | error

/-- What goes out, and the return code; `none` while send keeps answering EAGAIN. -/
def sendAll : List SendResult → Bytes → Option (Bytes × ℤ)
  | _, [] => some ([], 0)
  | [], _ => none
  | .wrote 0 :: _, _ => some ([], -2)
  | .wrote (n + 1) :: results, buf => do
    let (out, ret) ← sendAll results (buf.drop (n + 1))
    some (buf.take (n + 1) ++ out, ret)
  | .again :: results, buf => sendAll results buf
  | .error :: _, _ => some ([], -2)

/-- The outcomes of one kvs_agent_send_to_slave: the growth of the buffer, the memory for the command of each frame
and for each record of a drained cache, what the server thread does to the table before each record is sent, and
what send returns for a buffer on a descriptor that has carried the given bytes so far. -/
structure AgentEnv where
  grow : Bool
  command : ℕ → Bool
  record : ℕ → ℕ → Bool
  server : ℕ → ℕ → List ServerEvent
  send : ℤ → Bytes → Bytes → List SendResult

section

variable (env : AgentEnv)

def sendSlots (buf : Bytes) : List ℕ → AgentInfo → Option AgentInfo
  | [], a => some a
  | i :: rest, a =>
    match a.slaves.table[i]? with
    | none => sendSlots buf rest a
    | some fd =>
      if 0 < fd then do
        let (out, ret) ← sendAll (env.send fd (a.sent fd) buf) buf
        let sent := Function.update a.sent fd (a.sent fd ++ out)
        if ret ≠ 0 then sendSlots buf rest { a with sent := sent, slaves := (kvsSlavesDelete a.slaves fd).1 }
        else sendSlots buf rest { a with sent := sent }
      else sendSlots buf rest a

def kvsAgentSend (buf : Bytes) (a : AgentInfo) : Option (ℤ × AgentInfo) :=
  if buf = [] then some (-1, a)
  else do
    let a ← sendSlots env buf (List.range a.slaves.table.length) a
    some (0, a)

def kvsAgentSendCache (i : ℕ) : ℕ → ℕ → AgentInfo → Option (ℤ × AgentInfo)
  | 0, _, _ => none
  | n + 1, j, a =>
    if a.fullsyncCache.used = 0 then some (0, a)
    else
      match kvsAgentCacheRead a.fullsyncCache (env.record i j) with
      | (cache, none) => some (-2, { a with fullsyncCache := cache })
      | (cache, some buf) => do
        let (ret, a) ← kvsAgentSend env buf
          { a with fullsyncCache := cache, slaves := (env.server i j).foldl server a.slaves }
        if ret ≠ 0 then some (ret, a) else kvsAgentSendCache i n (j + 1) a

def kvsAgentParseCommand (buf : Bytes) (cmdHl cmdTl : ℕ) (alloc : Bool) : Option CString :=
  if cmdTl - cmdHl < 2 then none
  else
    let parseEnd := cmdTl - cmdHl - 2
    if (buf.drop (cmdHl + parseEnd)).take 2 ≠ crlf then none
    else
      match buf.drop cmdHl with
      | [] => none
      | c :: _ =>
        if c ≠ 94 then none
        else
          let text := ((buf.drop cmdHl).take parseEnd).drop 1
          match scanDigits intMax 0 text with
          | none => none
          | some (tokLen, tail) =>
            if tail.length = text.length then none
            else
              match tail with
              | [] => none
              | d :: content =>
                if d ≠ 38 then none
                else if content.length < tokLen then none
                else if ¬ alloc then none
                else some (.prefixOf (content.take tokLen))

def kvsCommand : List CString :=
  [.lit "SET", .lit "DEL", .lit "MOD", .lit "RSET", .lit "RDEL", .lit "RMOD", .lit "HSET", .lit "HDEL", .lit "HMOD",
    .lit "LSET", .lit "LDEL", .lit "LMOD", .lit "SYNC", .lit "FULLSYNC FINISHED", .lit "FULLSYNC ERROR"]

inductive Cmd where
  | sync
  | fullsyncFinished
  | fullsyncError
  | allowedSend
  | other
  deriving DecidableEq

def cmdOf (command : CString) : Cmd :=
  match kvsCommand.findIdx? (· = command) with
  | none => .other
  | some cmd =>
    if cmd < 12 then .allowedSend
    else if cmd = 12 then .sync
    else if cmd = 13 then .fullsyncFinished
    else .fullsyncError

def kvsAgentHandler (i cmdHl cmdTl : ℕ) (a : AgentInfo) : Option (ℤ × AgentInfo) :=
  match kvsAgentParseCommand a.buf cmdHl cmdTl (env.command i) with
  | none => some (-2, a)
  | some command =>
    match cmdOf command with
    | .sync => some (0, { a with state := .fullSync })
    | .fullsyncFinished | .fullsyncError =>
      if a.state = .fullSync then
        kvsAgentSendCache env i (a.fullsyncCache.used + 1) 0 { a with state := .incrSync }
      else some (0, a)
    | .allowedSend =>
      if a.state = .fullSync then
        let (cache, ret) := kvsAgentCacheWrite a.fullsyncCache (a.buf.take cmdTl)
        some (ret, { a with fullsyncCache := cache })
      else kvsAgentSend env (a.buf.take cmdTl) a
    | .other => some (0, a)

/-- The agent's own copy of the length parser. The sizes are size_t, so INT_MAX - pos wraps around, and the total and
the head are converted to int; `none` is a body that would start before the buffer. -/
def kvspParseBulkSize (buf : Bytes) : Option BulkSize :=
  match buf with
  | [] => some (.error (-1))
  | c :: rest =>
    if c ≠ 35 then some (.error (-2))
    else
      match scanDigits intMax 0 rest with
      | none => some (.error (-2))
      | some (bodyLen, tail) =>
        if tail.length = rest.length then
          if tail = [] then some .more else some (.error (-2))
        else if tail.length < 2 then some .more
        else if tail.take 2 ≠ crlf then some (.error (-2))
        else
          let pos := buf.length - tail.length + 2
          if (intMax + 2 ^ 64 - pos) % 2 ^ 64 < bodyLen then some (.error (-2))
          else
            let total := toInt ((bodyLen + pos : ℕ) : ℤ)
            if total ≤ 0 ∨ (buf.length : ℤ) < total then some .more
            else if toInt pos < 0 then none
            else some (.frame total.toNat (toInt pos).toNat)

inductive Turn where
  | stop (ret : ℤ) (a : AgentInfo)
  | next (a : AgentInfo)

def agentTurn (i : ℕ) (a : AgentInfo) : Option Turn :=
  if a.buf = [] then some (.stop 0 a)
  else
    match kvspParseBulkSize a.buf with
    | none => none
    | some .more => some (.stop 0 a)
    | some (.error _) => some (.stop (-2) a)
    | some (.frame total head) => do
      let (ret, a) ← kvsAgentHandler env i head total a
      if ret ≠ 0 then some (.stop (-2) a) else some (.next { a with buf := a.buf.drop total })

def agentLoop : ℕ → ℕ → AgentInfo → Option (ℤ × AgentInfo)
  | 0, _, _ => none
  | n + 1, i, a =>
    match agentTurn env i a with
    | none => none
    | some (.stop ret a) => some (ret, a)
    | some (.next a) => agentLoop n (i + 1) a

def AgentInfo.receive (a : AgentInfo) (buf : Bytes) : AgentInfo :=
  { a with buf := a.buf ++ buf, bufCap := max a.bufCap (a.buf.length + buf.length) }

def kvsAgentSendToSlave (a : AgentInfo) (buf : Bytes) : Option (ℤ × AgentInfo) :=
  if buf = [] then some (-1, a)
  else if a.bufCap < a.buf.length + buf.length ∧ ¬ env.grow then some (-2, a)
  else agentLoop env ((a.receive buf).buf.length + 1) 0 (a.receive buf)

end

end Lidis.Agent
