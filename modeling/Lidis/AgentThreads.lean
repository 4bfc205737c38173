import Lidis.AgentStream

namespace Lidis.Agent

/-- Where the agent thread stands: before the next chunk, in the loop of kvs_agent_send_to_slave, in that of
kvs_agent_send_cache for a frame of `total` bytes, or returned after an error. -/
inductive Stage where
  | idle
  | parsing
  | draining (total : ℕ)
  | stopped
  deriving DecidableEq

/-- A connection that the server thread has accepted. `joined` only records how many sends came before it got its slot
in the table, `carried` what a closed connection had been sent. -/
structure Peer where
  fd : ℤ
  isOpen : Bool
  joined : Option ℕ
  carried : Bytes

/-- The agent with its two threads, which share the table of slaves under slaves_mutex. `records` and `received` only
record: what kvs_agent_send was called with, and what the agent thread was handed. -/
structure Threads where
  agent : AgentInfo
  stage : Stage
  serving : Bool
  peers : List Peer
  records : List Bytes
  received : Bytes

def epollin : ℕ := 1

/-- What one thread does next, up to its next critical section, with the answers of the system. -/
inductive ThreadEvent where
  | accept (fd : ℤ)
  | input (fd : ℤ) (events : ℕ) (ret : ℤ)
  | waitError
  | hand (buf : Bytes) (grow : Bool)
  | turn (command : Bool) (send : ℤ → Bytes → Bytes → List SendResult)
  | drain (record : Bool) (send : ℤ → Bytes → Bytes → List SendResult)

def sending (send : ℤ → Bytes → Bytes → List SendResult) : AgentEnv := { AgentEnv.granting with send := send }

namespace Threads

def start (size bufSize : ℕ) (memory : Bytes) : Threads where
  agent := kvsAgentInfoInit bufSize memory (kvsSlavesCreate size)
  stage := .idle
  serving := true
  peers := []
  records := []
  received := []

def isOpen (s : Threads) (fd : ℤ) : Bool := s.peers.any (fun p => p.isOpen && p.fd == fd)

/-- The result of kvs_slaves_insert is not looked at: a connection without a slot stays open. -/
def accept (s : Threads) (fd : ℤ) : Threads :=
  if fd < 0 then { s with serving := false }
  else
    let slaves := (kvsSlavesInsert s.agent.slaves fd).1
    { s with
      agent := { s.agent with slaves := slaves, sent := Function.update s.agent.sent fd [] }
      peers := s.peers ++ [⟨fd, true, if fd ∈ slaves.table then some s.records.length else none, []⟩] }

def hangUp (s : Threads) (fd : ℤ) : Threads :=
  { s with
    agent := { s.agent with slaves := (kvsSlavesDelete s.agent.slaves fd).1 }
    peers := s.peers.map (fun p =>
      if p.isOpen ∧ p.fd = fd then { p with isOpen := false, carried := s.agent.sent fd } else p) }

def next (s : Threads) (total : ℕ) : Threads :=
  { s with stage := .parsing, agent := { s.agent with buf := s.agent.buf.drop total } }

/-- kvs_agent_send, and what its caller makes of the return value. -/
def sendRecord (s : Threads) (send : ℤ → Bytes → Bytes → List SendResult) (buf : Bytes) (after : Threads → Threads) :
    Option Threads := do
  let (ret, agent) ← kvsAgentSend (sending send) buf s.agent
  let s := { s with agent := agent, records := s.records ++ [buf] }
  if ret ≠ 0 then some { s with stage := .stopped } else some (after s)

/-- One turn of the loop of kvs_agent_send_to_slave with kvs_agent_handler. -/
def turn (s : Threads) (command : Bool) (send : ℤ → Bytes → Bytes → List SendResult) : Option Threads :=
  if s.agent.buf = [] then some { s with stage := .idle }
  else
    match kvspParseBulkSize s.agent.buf with
    | none => none
    | some .more => some { s with stage := .idle }
    | some (.error _) => some { s with stage := .stopped }
    | some (.frame total head) =>
      match kvsAgentParseCommand s.agent.buf head total command with
      | none => some { s with stage := .stopped }
      | some name =>
        match cmdOf name with
        | .sync => some ({ s with agent := { s.agent with state := .fullSync } }.next total)
        | .fullsyncFinished | .fullsyncError =>
          if s.agent.state = .fullSync then
            some { s with agent := { s.agent with state := .incrSync }, stage := .draining total }
          else some (s.next total)
        | .allowedSend =>
          if s.agent.state = .fullSync then
            let (cache, ret) := kvsAgentCacheWrite s.agent.fullsyncCache (s.agent.buf.take total)
            let s := { s with agent := { s.agent with fullsyncCache := cache } }
            if ret ≠ 0 then some { s with stage := .stopped } else some (s.next total)
          else s.sendRecord send (s.agent.buf.take total) (fun s => s.next total)
        | .other => some (s.next total)

/-- One turn of the loop of kvs_agent_send_cache. -/
def drain (s : Threads) (total : ℕ) (record : Bool) (send : ℤ → Bytes → Bytes → List SendResult) : Option Threads :=
  if s.agent.fullsyncCache.used = 0 then some (s.next total)
  else
    match kvsAgentCacheRead s.agent.fullsyncCache record with
    | (cache, none) => some { s with agent := { s.agent with fullsyncCache := cache }, stage := .stopped }
    | (cache, some buf) => { s with agent := { s.agent with fullsyncCache := cache } }.sendRecord send buf id

/-- An event of a thread that stands elsewhere does nothing, nor does one the kernel does not produce: accept returns no
descriptor that is open, epoll reports none that is closed. -/
def step (s : Threads) : ThreadEvent → Option Threads
  | .accept fd => some (if s.serving ∧ s.isOpen fd = false then s.accept fd else s)
  | .input fd events ret => some (if s.serving ∧ s.isOpen fd ∧ events = epollin ∧ ret ≤ 0 then s.hangUp fd else s)
  | .waitError => some { s with serving := false }
  | .hand buf grow =>
    if s.stage = .idle ∧ buf ≠ [] then
      if s.agent.bufCap < s.agent.buf.length + buf.length ∧ ¬ grow then some { s with stage := .stopped }
      else some { s with agent := s.agent.receive buf, stage := .parsing, received := s.received ++ buf }
    else some s
  | .turn command send => if s.stage = .parsing then s.turn command send else some s
  | .drain record send =>
    match s.stage with
    | .draining total => s.drain total record send
    | _ => some s

def run : List ThreadEvent → Threads → Option Threads
  | [], s => some s
  | ev :: events, s => do
    let s ← s.step ev
    run events s

end Threads

end Lidis.Agent
