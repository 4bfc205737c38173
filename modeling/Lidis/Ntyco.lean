import Lidis.Fragmentation

namespace Lidis

/-- Where a coroutine of server_reader stands: at recv, in the loop over the frames, in the loop over send with so many
bytes of wbuf gone, or past cleanup (`none` after a recv that brought nothing). -/
inductive Place where
  | reading
  | parsing
  | sending (gone : ℕ)
  | closed (stop : Option Stop)
  deriving DecidableEq

/-- `received` and `sent` only record what went over the socket. -/
structure Coroutine where
  cli : Client
  place : Place
  received : Bytes
  sent : Bytes

namespace Coroutine

def create (role : ℕ) : Coroutine := ⟨{ clientInfoInit with role := role }, .reading, [], []⟩

def close (co : Coroutine) (stop : Stop) : Coroutine := { co with place := .closed (some stop) }

def sendFrom (co : Coroutine) (gone : ℕ) : Coroutine :=
  if gone < co.cli.wPos then { co with place := .sending gone }
  else { co with cli := { co.cli with wPos := 0 }, place := .reading }

def endFrames (co : Coroutine) : Coroutine :=
  if co.cli.role = 1 then { co with cli := { co.cli with wPos := 0 }, place := .reading } else co.sendFrom 0

def conn (co : Coroutine) (g : Global) : Conn Global := ⟨co.cli, g, co.sent, 0, 0, 0⟩

/-- From a recv to the loop over the frames. -/
def recvStep (sys : ServerEnv) (chunk : Bytes) (co : Coroutine) : Option Coroutine :=
  if chunk = [] then some { co with place := .closed none }
  else do
    let co := { co with received := co.received ++ chunk }
    match ← growFor co.cli chunk (sys.grow 0) sys.fresh with
    | none => some (co.close .noMemory)
    | some cli => do
      let cli ← receive cli chunk
      if cli.protocol = .unknown then
        let (cli, ret) := kvsDetectProtocol cli
        if ret < 0 then some ({ co with cli := cli }.close .undetected)
        else if 0 < ret then some { co with cli := cli }
        else some { co with cli := cli, place := .parsing }
      else some { co with cli := cli, place := .parsing }

/-- One turn of the loop over the frames. Here a handler that never returns takes the whole process with it. -/
def frameStep (P : Params) (sys : ServerEnv) (env : Env) (g : Global) (co : Coroutine) : Option (Global × Coroutine) :=
  if co.cli.rPos = 0 then some (g, co.endFrames)
  else if co.cli.protocol = .unknown then some (g, co.close .noParser)
  else do
    match ← recvProtocol co.cli with
    | .more => some (g, co.endFrames)
    | .error _ => do
      let (c, stop) ← protocolError sys (co.conn g)
      some (g, { co with cli := c.cli, sent := c.sent, place := .closed stop })
    | .frame total head => do
      match ← handleFrame (protocolHandler P (fun _ => env)) total head (co.conn g) with
      | (_, some (.handler none)) => none
      | (c, some stop) => some (c.state, { co with cli := c.cli }.close stop)
      | (c, none) => some (c.state, { co with cli := c.cli })

def sendStep (ret : ℤ) (gone : ℕ) (co : Coroutine) : Coroutine :=
  if ret ≤ 0 then co.close .send
  else
    { co with sent := co.sent ++ ((co.cli.wbuf.take co.cli.wPos).drop gone).take ret.toNat }.sendFrom (gone + ret.toNat)

end Coroutine

/-- The coroutine kvs_save_child_done, which is there just while a child is running. -/
def SaveState.childEnd (st : SaveState) (done : ChildEnd × ForkEnv) : SaveState :=
  if st.status = .running then kvsSaveChildDone st done.1 done.2 else st

def Global.childEnds (g : Global) (ends : List (ChildEnd × ForkEnv)) : Global :=
  { g with save := ends.foldl SaveState.childEnd g.save }

theorem Global.childEnds_append (g : Global) (a b : List (ChildEnd × ForkEnv)) :
    (g.childEnds a).childEnds b = g.childEnds (a ++ b) := by
  rw [childEnds, childEnds, childEnds, List.foldl_append]

/-- What happens next, with the answers of the system: the accept loop, the connection to the agent that
kvs_slave_incr_sync gives to server_reader without looking at what client_info_init returned, the coroutines between
two places where the scheduler may switch, and the end of a child that saves. A SYNC is one `frame` here, though
kvs_master_full_sync sends and receives on the socket in between; `Sessions` has its steps. -/
inductive Event where
  | accept (granted : Bool)
  | attach (granted : Bool)
  | recv (i : ℕ) (chunk : Bytes) (sys : ServerEnv)
  | frame (i : ℕ) (sys : ServerEnv) (env : Env)
  | send (i : ℕ) (ret : ℤ)
  | childDone (e : ChildEnd) (env : ForkEnv)

/-- The process: what all coroutines share, whether the accept loop still runs, and the coroutines as they were made. -/
structure Ntyco where
  state : Global
  accepting : Bool
  conns : List Coroutine

namespace Ntyco

def start (g : Global) : Ntyco := ⟨g, true, []⟩

/-- An event of a coroutine that stands elsewhere does nothing; `none` is undefined behaviour. -/
def step (P : Params) (s : Ntyco) : Event → Option Ntyco
  | .accept granted =>
    if ¬ s.accepting then some s
    else if ¬ granted then some { s with accepting := false }
    else some { s with conns := s.conns ++ [.create 0] }
  | .attach granted => if ¬ granted then none else some { s with conns := s.conns ++ [.create 1] }
  | .recv i chunk sys =>
    match s.conns[i]? with
    | none => some s
    | some co =>
      if co.place = .reading then do
        let co ← co.recvStep sys chunk
        some { s with conns := s.conns.set i co }
      else some s
  | .frame i sys env =>
    match s.conns[i]? with
    | none => some s
    | some co =>
      if co.place = .parsing then do
        let (g, co) ← co.frameStep P sys env s.state
        some { s with state := g, conns := s.conns.set i co }
      else some s
  | .send i ret =>
    match s.conns[i]? with
    | none => some s
    | some co =>
      match co.place with
      | .sending gone => some { s with conns := s.conns.set i (co.sendStep ret gone) }
      | _ => some s
  | .childDone e env => some { s with state := s.state.childEnds [(e, env)] }

def run (P : Params) : List Event → Ntyco → Option Ntyco
  | [], s => some s
  | ev :: evs, s => do
    let s ← s.step P ev
    run P evs s

/-- What a step does: nothing, a change of the accept loop, a new coroutine, or one part of one coroutine's work. -/
inductive Steps (P : Params) (s : Ntyco) : Event → Ntyco → Prop where
  | idle (ev : Event) : Steps P s ev s
  | refuse : Steps P s (.accept false) { s with accepting := false }
  | create {ev : Event} (role : ℕ) : Steps P s ev { s with conns := s.conns ++ [.create role] }
  | recv {i : ℕ} {chunk : Bytes} {sys : ServerEnv} {co co' : Coroutine} (hget : s.conns[i]? = some co)
    (hplace : co.place = .reading) (h : co.recvStep sys chunk = some co') :
    Steps P s (.recv i chunk sys) { s with conns := s.conns.set i co' }
  | frame {i : ℕ} {sys : ServerEnv} {env : Env} {co co' : Coroutine} {g : Global} (hget : s.conns[i]? = some co)
    (hplace : co.place = .parsing) (h : co.frameStep P sys env s.state = some (g, co')) :
    Steps P s (.frame i sys env) { s with state := g, conns := s.conns.set i co' }
  | send {i : ℕ} {ret : ℤ} {co : Coroutine} {gone : ℕ} (hget : s.conns[i]? = some co) (hplace : co.place = .sending gone) :
    Steps P s (.send i ret) { s with conns := s.conns.set i (co.sendStep ret gone) }
  | childDone (e : ChildEnd) (env : ForkEnv) : Steps P s (.childDone e env) { s with state := s.state.childEnds [(e, env)] }

theorem steps_of_step {P : Params} {s s' : Ntyco} {ev : Event} (h : s.step P ev = some s') : Steps P s ev s' := by
  cases ev with
  | accept granted =>
    rw [step] at h
    split_ifs at h with hacc hgrant
    · obtain rfl := Option.some.inj h
      exact .create 0
    · obtain rfl := Option.some.inj h
      obtain rfl : granted = false := by simpa using hgrant
      exact .refuse
    · obtain rfl := Option.some.inj h
      exact .idle _
  | attach granted =>
    rw [step] at h
    split_ifs at h
    obtain rfl := Option.some.inj h
    exact .create 1
  | recv i chunk sys =>
    rw [step] at h
    split at h
    · obtain rfl := Option.some.inj h
      exact .idle _
    · next co hget =>
      split_ifs at h with hplace
      · obtain ⟨co', hco, h⟩ := Option.bind_eq_some_iff.mp h
        obtain rfl := Option.some.inj h
        exact .recv hget hplace hco
      · obtain rfl := Option.some.inj h
        exact .idle _
  | frame i sys env =>
    rw [step] at h
    split at h
    · obtain rfl := Option.some.inj h
      exact .idle _
    · next co hget =>
      split_ifs at h with hplace
      · obtain ⟨⟨g, co'⟩, hco, h⟩ := Option.bind_eq_some_iff.mp h
        obtain rfl := Option.some.inj h
        exact .frame hget hplace hco
      · obtain rfl := Option.some.inj h
        exact .idle _
  | send i ret =>
    rw [step] at h
    split at h
    · obtain rfl := Option.some.inj h
      exact .idle _
    · next co hget =>
      split at h
      · next gone hplace =>
        obtain rfl := Option.some.inj h
        exact .send hget hplace
      · obtain rfl := Option.some.inj h
        exact .idle _
  | childDone e env =>
    obtain rfl := Option.some.inj h
    exact .childDone e env

end Ntyco

end Lidis
