import Lidis.AgentStream
import Lidis.Fragmentation

namespace Lidis

open Agent

structure RecvEvent where
  conn : ℕ
  chunk : Bytes
  senv : ServerEnv
  env : ℕ → Env

structure Master where
  clients : ℕ → Client
  state : Global

def Master.start (g : Global) : Master := ⟨fun _ => clientInfoInit, g⟩

def Master.recv (P : Params) (m : Master) (ev : RecvEvent) : Option (Master × Option Stop) := do
  let (c, stop) ← readChunk (protocolHandler P ev.env) ev.senv ev.chunk ⟨m.clients ev.conn, m.state, [], 0, 0, 0⟩
  some (⟨Function.update m.clients ev.conn c.cli, c.state⟩, stop)

def kvsAgentPayloadSize : ℕ := 4 * 1024

/-- The payload of the event that the probe on tcp_recvmsg submits. -/
def tcpRecvmsgExit (chunk : Bytes) : Bytes := chunk.take kvsAgentPayloadSize

/-- The master and the agent beside it. `queue` is global_agent_cache; `existing` is set when the agent gives up. -/
structure World where
  master : Master
  queue : AgentCache
  agent : AgentInfo
  existing : Bool

namespace World

def start (g : Global) (memory : Bytes) (agent : AgentInfo) : World :=
  ⟨.start g, kvsAgentCacheCreate memory, agent, false⟩

def handleEvent (w : World) (payload : Bytes) : World :=
  if payload = [] then w
  else
    let (queue, ret) := kvsAgentCacheWrite w.queue payload
    { w with queue := queue, existing := w.existing || decide (ret ≠ 0) }

def kvsAgent (w : World) (alloc : Bool) (env : AgentEnv) : Option World :=
  if w.existing ∨ w.queue.used = 0 then some w
  else
    match kvsAgentCacheRead w.queue alloc with
    | (queue, none) => some { w with queue := queue, existing := true }
    | (queue, some buf) => do
      let (ret, agent) ← kvsAgentSendToSlave env w.agent buf
      some { w with queue := queue, agent := agent, existing := decide (ret ≠ 0) }

end World

inductive Step where
  | recv (ev : RecvEvent)
  | take (alloc : Bool) (env : AgentEnv)

namespace World

variable (P : Params)

def step (w : World) : Step → Option (World × Option Stop)
  | .recv ev => do
    let (master, stop) ← w.master.recv P ev
    some ({ w.handleEvent (tcpRecvmsgExit ev.chunk) with master := master }, stop)
  | .take alloc env => do
    let w ← w.kvsAgent alloc env
    some (w, none)

def run : List Step → World → Option (World × Option Stop)
  | [], w => some (w, none)
  | s :: steps, w =>
    match w.step P s with
    | some (w, none) => run steps w
    | r => r

end World

def isWriteCommand (ts : List CString) : Bool :=
  match ts.head?.bind commandOf with
  | some (.data _ .set) | some (.data _ .del) | some (.data _ .mod) => true
  | _ => false

theorem commandOf_unknown {t : CString} (h : t ∉ commandTable.map Prod.fst) : commandOf t = none := by
  rw [commandOf, List.find?_eq_none.mpr, Option.map_none]
  intro e he hcmp
  apply h
  rw [(CString.strcmp_eq_zero t e.1).mp (of_decide_eq_true hcmp)]
  exact List.mem_map_of_mem he

theorem mem_of_allowedSend {t : CString} (h : cmdOf t = .allowedSend) : t ∈ kvsCommand.take 12 := by
  rw [cmdOf] at h
  rcases hidx : kvsCommand.findIdx? (· = t) with _ | i
  · simp [hidx] at h
  · have hlt : i < 12 := by
      by_contra hge
      simp only [hidx, hge, ↓reduceIte] at h
      split_ifs at h
    obtain ⟨hlen, hname, -⟩ := List.findIdx?_eq_some_iff_getElem.mp hidx
    exact List.mem_take_iff_getElem.mpr ⟨i, lt_min hlt hlen, of_decide_eq_true hname⟩

theorem isWrite_toFrame {ts : List CString} (h : Kvsp.Framed ts) : isWrite (Kvsp.toFrame ts) = isWriteCommand ts := by
  obtain ⟨t, ts, rfl⟩ := List.exists_cons_of_ne_nil h.1
  rw [isWrite, Kvsp.toFrame_command h]
  by_cases hmem : t ∈ commandTable.map Prod.fst
  · have htable : ∀ t ∈ commandTable.map Prod.fst, decide (cmdOf t = .allowedSend) = isWriteCommand [t] := by
      decide +kernel
    exact htable t hmem
  · rw [isWriteCommand, List.head?_cons, Option.bind_some, commandOf_unknown hmem, decide_eq_false]
    intro hsend
    have hsub : kvsCommand.take 12 ⊆ commandTable.map Prod.fst := by decide +kernel
    exact hmem (hsub (mem_of_allowedSend hsend))

theorem writes_toFrame {tss : List (List CString)} (h : ∀ ts ∈ tss, Kvsp.Framed ts) :
    Kvsp.stream (writes (tss.map Kvsp.toFrame)) = (tss.filter isWriteCommand).flatMap Kvsp.frameOf := by
  have hfilter : writes (tss.map Kvsp.toFrame) = (tss.filter isWriteCommand).map Kvsp.toFrame := by
    rw [writes, List.filter_map]
    congr 1
    exact List.filter_congr (fun ts hts => isWrite_toFrame (h ts hts))
  rw [hfilter, Kvsp.stream_toFrame (fun ts hts => h ts (List.mem_filter.mp hts).1)]

structure Ready (e : Encoding) (cli : Client) (rest : Bytes) (todo : List (List CString)) : Prop
    extends Buffered e rest todo cli where
  role : cli.role = 0
  wPos : cli.wPos = 0
  known : Known e cli
  short : ∀ ts ∈ todo.head?, cli.rPos < (e.frame ts).length

section

variable {P : Params} {e : Encoding} {rest : Bytes} {todo : List (List CString)}

theorem Ready.serving {cli : Client} (h : Ready e cli rest todo) (env : ℕ → Env) (g : Global) :
    Serving P env e g rest [] todo ⟨cli, g, [], 0, 0, 0⟩ :=
  ⟨h.toBuffered, h.role, rfl, [], rfl, by simp [h.wPos]⟩

theorem ready_accept (e : Encoding) (todo : List (List CString)) : Ready e clientInfoInit (e.stream todo) todo := by
  obtain ⟨done, todo', heq, h, hshort⟩ := accept_waiting .small (fun _ => .granted) e (.start .small) todo
  have hdone : done = [] := List.length_eq_zero_iff.mp h.calls.symm
  subst hdone
  obtain rfl : todo = todo' := heq
  exact ⟨h.toBuffered, h.role, rfl, Or.inr ⟨rfl, rfl⟩, hshort⟩

theorem Master.recv_ready {m : Master} {ev : RecvEvent} (h : Ready e (m.clients ev.conn) (ev.chunk ++ rest) todo)
    (hmax : ∀ ts ∈ todo, ts.length ≤ maxTokens) (hs : (e.stream todo).length < 2 ^ 30)
    (hc : 0 < ev.chunk.length) (hc' : ev.chunk.length ≤ bufferSize) :
    ∃ m' stop, m.recv P ev = some (m', stop) ∧ ((∃ s, stop = some s ∧ s.Excused ev.senv) ∨
      (stop = none ∧ ∃ cli done todo', m' = ⟨Function.update m.clients ev.conn cli, m'.state⟩ ∧ todo = done ++ todo' ∧
        m'.state.executed = m.state.executed ++ done ∧ Ready e cli rest todo')) := by
  obtain ⟨c, stop, hread, hres⟩ := readChunk_serves (P := P) ev.senv hmax hs hc hc' rfl (h.serving ev.env m.state) h.known
  refine ⟨⟨Function.update m.clients ev.conn c.cli, c.state⟩, stop, by simp [Master.recv, hread], hres.imp_right ?_⟩
  rintro ⟨rfl, ⟨done, todo', heq, hserv, hshort⟩, hknown, hw⟩
  obtain ⟨replies, hall, -⟩ := hserv.ran
  refine ⟨rfl, c.cli, done, todo', rfl, heq, (effectAll_executed hall).1, ?_⟩
  exact ⟨hserv.toBuffered, hserv.role, hw, hknown, hshort⟩

end

def chunksOf (c : ℕ) : List Step → Bytes
  | [] => []
  | .recv ev :: steps => (if ev.conn = c then ev.chunk else []) ++ chunksOf c steps
  | .take _ _ :: steps => chunksOf c steps

def bytesIn : List Step → ℕ
  | [] => 0
  | .recv ev :: steps => ev.chunk.length + bytesIn steps
  | .take _ _ :: steps => bytesIn steps

def Client.pending (cli : Client) : Bytes := cli.rbuf.take cli.rPos

namespace World

def Alone (w : World) (c : ℕ) : Prop := ∀ d, d ≠ c → (w.master.clients d).rPos = 0

/-- Whenever something comes in, no other connection is in the middle of a command, and the queue has room. -/
def Orderly (P : Params) : World → List Step → Prop
  | _, [] => True
  | w, s :: steps =>
    (∀ ev, s = .recv ev → w.Alone ev.conn ∧ w.queue.used + (8 + ev.chunk.length) ≤ w.queue.capacity) ∧
      ∀ w', w.step P s = some (w', none) → Orderly P w' steps

end World

theorem pending_of_rPos {cli : Client} (h : cli.rPos = 0) : cli.pending = [] := by
  rw [Client.pending, h, List.take_zero]

/-- The agent has received all of the stream but the queued chunks; the commands `seen` are behind it, the commands
`unseen` the master alone has executed. -/
structure Agree (g : Global) (a : AgentInfo) (r : Relay) (w : World) (c : ℕ) (seen unseen : List (List CString))
    (chunks : List Bytes) (received : Bytes) : Prop where
  executed : w.master.state.executed = g.executed ++ (seen ++ unseen)
  framed : ∀ ts ∈ seen ++ unseen, Kvsp.Framed ts
  alone : w.Alone c
  queued : w.queue.Holds chunks
  bytes : received ++ chunks.flatten = (seen ++ unseen).flatMap Kvsp.frameOf ++ (w.master.clients c).pending
  passed : Passed a r received (seen.map Kvsp.toFrame) w.agent
  incomplete : Incomplete w.agent.buf
  awake : w.existing = false

section

variable {g : Global} {a : AgentInfo} {r : Relay} {w : World} {c : ℕ} {seen unseen : List (List CString)}
  {chunks : List Bytes} {received : Bytes}

theorem Agree.turn_to (h : Agree g a r w c seen unseen chunks received) {d : ℕ} (hd : w.Alone d) :
    Agree g a r w d seen unseen chunks received := by
  by_cases hcd : c = d
  · rwa [← hcd]
  · refine ⟨h.executed, h.framed, hd, h.queued, ?_, h.passed, h.incomplete, h.awake⟩
    rw [h.bytes, pending_of_rPos (hd c hcd), pending_of_rPos (h.alone d (Ne.symm hcd))]

theorem Agree.caught_up (h : Agree g a r w c seen unseen chunks received) (hq : w.queue.used = 0) : unseen = [] := by
  obtain rfl := h.queued.used_eq_zero_iff.mp hq
  have hbytes := h.bytes
  rw [List.flatten_nil, List.append_nil, h.passed.received_eq,
    Kvsp.stream_toFrame (fun ts hts => h.framed ts (List.mem_append_left _ hts)), List.flatMap_append,
    List.append_assoc] at hbytes
  have hbuf := List.append_cancel_left hbytes
  cases unseen with
  | nil => rfl
  | cons ts unseen =>
    have hinc := h.incomplete
    rw [hbuf, List.flatMap_cons, List.append_assoc,
      ← Kvsp.toFrame_bytes (h.framed ts (List.mem_append_right _ List.mem_cons_self))] at hinc
    exact hinc.not_whole.elim

theorem framed_of_sendable {ts : List CString} {todo : List (List CString)} (h : ∀ ts ∈ todo, Sendable ts)
    (hs : (Encoding.kvsp.stream todo).length < 2 ^ 30) (hts : ts ∈ todo) : Kvsp.Framed ts := by
  refine ⟨List.ne_nil_of_length_pos (h ts hts).nonempty, ?_⟩
  obtain ⟨front, back, rfl⟩ := List.append_of_mem hts
  simp only [Encoding.stream, List.flatMap_append, List.flatMap_cons, List.length_append] at hs
  change (Encoding.kvsp.frame ts).length ≤ intMax
  simp only [intMax]
  omega

theorem handleEvent_queued {chunk : Bytes} (h : w.queue.Holds chunks) (hc : 0 < chunk.length)
    (hc' : chunk.length ≤ bufferSize) (hroom : w.queue.used + (8 + chunk.length) ≤ w.queue.capacity) :
    ∃ queue, w.handleEvent (tcpRecvmsgExit chunk) = { w with queue := queue } ∧ queue.Holds (chunks ++ [chunk]) := by
  have hne : chunk ≠ [] := List.ne_nil_of_length_pos hc
  have hsmall : chunk.length ≤ 2 ^ 64 - 1 - 8 := hc'.trans (by decide)
  have hpayload : tcpRecvmsgExit chunk = chunk := List.take_of_length_le hc'
  have hweight : AgentCache.weight (chunks ++ [chunk]) ≤ w.queue.capacity := by
    rw [AgentCache.weight_append, AgentCache.weight_singleton, ← h.used_eq]
    exact hroom
  obtain ⟨queue, hwrite, hholds, -⟩ := h.write hne hsmall hweight
  refine ⟨queue, ?_, hholds⟩
  rw [World.handleEvent, hpayload, if_neg hne, hwrite]
  simp

theorem Agree.recv {P : Params} {ev : RecvEvent} {rest : Bytes} {todo : List (List CString)}
    (h : Agree g a r w ev.conn seen unseen chunks received)
    (hready : Ready .kvsp (w.master.clients ev.conn) (ev.chunk ++ rest) todo) (hsend : ∀ ts ∈ todo, Sendable ts)
    (hs : (Encoding.kvsp.stream todo).length < 2 ^ 30) (hc : 0 < ev.chunk.length) (hc' : ev.chunk.length ≤ bufferSize)
    (hroom : w.queue.used + (8 + ev.chunk.length) ≤ w.queue.capacity) :
    ∃ w' stop, w.step P (.recv ev) = some (w', stop) ∧ ((∃ s, stop = some s ∧ s.Excused ev.senv) ∨
      (stop = none ∧ ∃ cli done todo', w'.master.clients = Function.update w.master.clients ev.conn cli ∧
        todo = done ++ todo' ∧ Ready .kvsp cli rest todo' ∧
        Agree g a r w' ev.conn seen (unseen ++ done) (chunks ++ [ev.chunk]) received)) := by
  obtain ⟨m', stop, hrecv, hres⟩ := Master.recv_ready (P := P) hready (fun ts hts => (hsend ts hts).max) hs hc hc'
  obtain ⟨queue, hevent, hqueued⟩ := handleEvent_queued h.queued hc hc' hroom
  refine ⟨{ w with queue := queue, master := m' }, stop, by simp [World.step, hrecv, hevent], hres.imp_right ?_⟩
  rintro ⟨rfl, cli, done, todo', hm, rfl, hexec, hready'⟩
  have hclients : m'.clients = Function.update w.master.clients ev.conn cli := congrArg Master.clients hm
  refine ⟨rfl, cli, done, todo', hclients, rfl, hready', ?_, ?_, ?_, hqueued, ?_, h.passed, h.incomplete, h.awake⟩
  · change m'.state.executed = _
    rw [hexec, h.executed, List.append_assoc, List.append_assoc]
  · intro ts hts
    rw [← List.append_assoc] at hts
    rcases List.mem_append.mp hts with hts | hts
    · exact h.framed ts hts
    · exact framed_of_sendable hsend hs (List.mem_append_left _ hts)
  · intro d hd
    change (m'.clients d).rPos = 0
    rw [hclients, Function.update_of_ne hd]
    exact h.alone d hd
  · -- the chunk completes the commands `done` and leaves the new pending part
    have hnew : (w.master.clients ev.conn).pending ++ ev.chunk = done.flatMap Kvsp.frameOf ++ cli.pending := by
      have hbytes := hready.bytes
      rw [Encoding.stream_append, ← hready'.bytes, ← List.append_assoc, ← List.append_assoc] at hbytes
      exact List.append_cancel_right hbytes
    have hpending : (m'.clients ev.conn).pending = cli.pending := by rw [hclients, Function.update_self]
    calc received ++ (chunks ++ [ev.chunk]).flatten
        = (received ++ chunks.flatten) ++ ev.chunk := by simp
      _ = (seen ++ unseen).flatMap Kvsp.frameOf ++ ((w.master.clients ev.conn).pending ++ ev.chunk) := by
        rw [h.bytes, List.append_assoc]
      _ = (seen ++ (unseen ++ done)).flatMap Kvsp.frameOf ++ (m'.clients ev.conn).pending := by
        rw [hnew, hpending, ← List.append_assoc, ← List.append_assoc, ← List.flatMap_append]

theorem handled_of_length {A T S X : List Kvsp.Frame} {pending : Bytes} (heq : A ++ T = S ++ X)
    (hlen : (Kvsp.stream S).length ≤ (Kvsp.stream A).length + pending.length)
    (hshort : ∀ f ∈ T.head?, pending.length < f.bytes.length) : ∃ U, A = S ++ U := by
  rcases List.append_eq_append_iff.mp heq with ⟨more, rfl, hT⟩ | ⟨U, hA, -⟩
  · cases more with
    | nil => exact ⟨[], by simp⟩
    | cons f more =>
      have hf := hshort f (by rw [hT]; rfl)
      rw [Kvsp.stream_append, Kvsp.stream_cons, List.length_append, List.length_append] at hlen
      omega
  · exact ⟨U, hA⟩

theorem Agree.take {P : Params} {env : AgentEnv} {rest : Bytes} {todo : List (List CString)}
    (h : Agree g a r w c seen unseen chunks received) (hready : Ready .kvsp (w.master.clients c) rest todo)
    (hsend : ∀ ts ∈ todo, Sendable ts) (hs : (Encoding.kvsp.stream todo).length < 2 ^ 30) (hmem : env.Granted)
    (hdel : env.Delivers) (hquiet : env.Quiet) (hnodup : a.slaves.active.Nodup) (hsettled : r.Settled)
    (hroom : AgentCache.weight r.queue + 2 * (received ++ chunks.flatten).length ≤ a.fullsyncCache.capacity) :
    ∃ w', w.step P (.take true env) = some (w', none) ∧ w'.master = w.master ∧
      ∃ seen' unseen' chunks' received', seen' ++ unseen' = seen ++ unseen ∧
        received' ++ chunks'.flatten = received ++ chunks.flatten ∧ Agree g a r w' c seen' unseen' chunks' received' := by
  cases chunks with
  | nil =>
    refine ⟨w, ?_, rfl, seen, unseen, [], received, rfl, rfl, h⟩
    rw [World.step, World.kvsAgent, if_pos (Or.inr (h.queued.used_eq_zero_iff.mpr rfl))]
    rfl
  | cons buf chunks =>
    obtain ⟨queue, hread, hqueued, -⟩ := h.queued.read
    have hne : buf ≠ [] := (h.queued.valid buf List.mem_cons_self).1
    have hused : w.queue.used ≠ 0 := fun h0 => by simpa using h.queued.used_eq_zero_iff.mp h0
    have hframed : ∀ ts ∈ seen ++ unseen ++ todo, Kvsp.Framed ts := by
      intro ts hts
      rcases List.mem_append.mp hts with hts | hts
      · exact h.framed ts hts
      · exact framed_of_sendable hsend hs hts
    have hstream : received ++ buf ++ (chunks.flatten ++ rest) =
        Kvsp.stream ((seen ++ unseen ++ todo).map Kvsp.toFrame) := by
      have hbytes := h.bytes
      rw [List.flatten_cons, ← List.append_assoc] at hbytes
      have htodo : (w.master.clients c).pending ++ rest = todo.flatMap Kvsp.frameOf := hready.bytes
      rw [Kvsp.stream_toFrame hframed, ← List.append_assoc, hbytes, List.append_assoc, htodo, ← List.flatMap_append]
    obtain ⟨⟨S, last, hcall, hpassed, hinc, X, hX⟩, -⟩ := h.passed.call hmem hdel hquiet hnodup hne hstream
      ⟨(unseen ++ todo).map Kvsp.toFrame, by rw [← List.map_append, List.append_assoc]⟩ (by
        intro S X _ hlen
        have hweight := Relay.weight_run hsettled S
        rw [List.flatten_cons, ← List.append_assoc, List.length_append] at hroom
        omega)
    -- the agent is never ahead of the master
    have hlen : (Kvsp.stream S).length ≤
        (Kvsp.stream ((seen ++ unseen).map Kvsp.toFrame)).length + (w.master.clients c).pending.length := by
      have hbytes := congrArg List.length h.bytes
      have hgot := congrArg List.length hpassed.received_eq
      rw [Kvsp.stream_toFrame h.framed]
      simp only [List.length_append, List.flatten_cons] at hbytes hgot
      omega
    have hshort : ∀ f ∈ (todo.map Kvsp.toFrame).head?, (w.master.clients c).pending.length < f.bytes.length := by
      intro f hf
      cases todo with
      | nil => simp at hf
      | cons ts todo =>
        obtain rfl : Kvsp.toFrame ts = f := by simpa using hf
        have hshort := hready.short ts rfl
        rw [Kvsp.toFrame_bytes (hframed ts (by simp)), Client.pending, List.length_take]
        exact (min_le_left _ _).trans_lt hshort
    obtain ⟨U, hU⟩ := handled_of_length (by rw [← List.map_append]; exact hX) hlen hshort
    obtain ⟨seen', unseen', heq, hS, -⟩ := List.map_eq_append_iff.mp hU
    refine ⟨{ w with queue := queue, agent := last, existing := false }, ?_, rfl, seen', unseen', chunks,
      received ++ buf, heq.symm, by simp, ?_⟩
    · rw [World.step, World.kvsAgent, if_neg (by simp [h.awake, hused]), hread]
      simp [hcall]
    · refine ⟨heq ▸ h.executed, heq ▸ h.framed, h.alone, hqueued, ?_, hS ▸ hpassed, hinc, rfl⟩
      rw [← heq, ← h.bytes, List.flatten_cons, List.append_assoc]

def AllReady (w : World) (rest : ℕ → Bytes) : Prop :=
  ∀ c, ∃ todo, Ready .kvsp (w.master.clients c) (rest c) todo ∧ (∀ ts ∈ todo, Sendable ts) ∧
    (Encoding.kvsp.stream todo).length < 2 ^ 30

theorem Agree.run {P : Params} {rest : ℕ → Bytes} {steps : List Step} (hnodup : a.slaves.active.Nodup)
    (hsettled : r.Settled) (hchunk : ∀ ev, .recv ev ∈ steps → 1 ≤ ev.chunk.length ∧ ev.chunk.length ≤ bufferSize)
    (hagent : ∀ alloc env, .take alloc env ∈ steps → alloc = true ∧ env.Granted ∧ env.Delivers ∧ env.Quiet)
    (horderly : w.Orderly P steps) (hready : AllReady w (fun c => chunksOf c steps ++ rest c))
    (h : Agree g a r w c seen unseen chunks received)
    (hroom : AgentCache.weight r.queue + 2 * ((received ++ chunks.flatten).length + bytesIn steps) ≤
      a.fullsyncCache.capacity) :
    ∃ w' stop, w.run P steps = some (w', stop) ∧
      ((∃ s ev, stop = some s ∧ .recv ev ∈ steps ∧ s.Excused ev.senv) ∨
        (stop = none ∧ ∃ c' seen' unseen' chunks' received', Agree g a r w' c' seen' unseen' chunks' received')) := by
  induction steps generalizing w c seen unseen chunks received with
  | nil => exact ⟨w, none, rfl, Or.inr ⟨rfl, c, seen, unseen, chunks, received, h⟩⟩
  | cons s steps ih =>
    obtain ⟨hnow, hlater⟩ := horderly
    have ih := fun {w' c' seen' unseen' chunks' received'} => @ih w' c' seen' unseen' chunks' received'
      (fun ev hev => hchunk ev (List.mem_cons_of_mem s hev))
      (fun alloc env hin => hagent alloc env (List.mem_cons_of_mem s hin))
    cases s with
    | take alloc env =>
      obtain ⟨rfl, hmem, hdel, hquiet⟩ := hagent alloc env List.mem_cons_self
      obtain ⟨todo, hc, hsend, hs⟩ := hready c
      obtain ⟨w', hstep, hmaster, seen', unseen', chunks', received', -, hsame, hagree⟩ :=
        h.take (P := P) hc hsend hs hmem hdel hquiet hnodup hsettled (by omega)
      obtain ⟨w'', stop, hrun, hres⟩ := ih (hlater w' hstep) (by rw [AllReady, hmaster]; exact hready) hagree
        (by rw [hsame]; exact hroom)
      refine ⟨w'', stop, by rw [World.run, hstep]; exact hrun, hres.imp_left ?_⟩
      rintro ⟨s, ev, hs, hev, hex⟩
      exact ⟨s, ev, hs, List.mem_cons_of_mem _ hev, hex⟩
    | recv ev =>
      obtain ⟨halone, hqueue⟩ := hnow ev rfl
      obtain ⟨hlo, hhi⟩ := hchunk ev List.mem_cons_self
      obtain ⟨todo, hc, hsend, hs⟩ := hready ev.conn
      simp only [chunksOf, ↓reduceIte, List.append_assoc] at hc
      obtain ⟨w', stop, hstep, hres⟩ := (h.turn_to halone).recv (P := P) hc hsend hs hlo hhi hqueue
      rcases hres with ⟨s, rfl, hex⟩ | ⟨rfl, cli, done, todo', hclients, rfl, hcli, hagree⟩
      · exact ⟨w', some s, by rw [World.run, hstep], Or.inl ⟨s, ev, rfl, List.mem_cons_self, hex⟩⟩
      · have hready' : AllReady w' (fun c => chunksOf c steps ++ rest c) := by
          intro d
          rw [hclients]
          by_cases hd : d = ev.conn
          · subst hd
            rw [Function.update_self]
            refine ⟨todo', hcli, fun ts hts => hsend ts (List.mem_append_right _ hts), ?_⟩
            rw [Encoding.stream_append, List.length_append] at hs
            omega
          · rw [Function.update_of_ne hd]
            have hrest := hready d
            simpa [chunksOf, Ne.symm hd] using hrest
        obtain ⟨w'', stop, hrun, hres⟩ := ih (hlater w' hstep) hready' hagree (by
          rw [bytesIn] at hroom
          simp only [List.flatten_append, List.flatten_singleton, List.length_append] at hroom ⊢
          omega)
        refine ⟨w'', stop, by rw [World.run, hstep]; exact hrun, hres.imp_left ?_⟩
        rintro ⟨s, ev', hs, hev, hex⟩
        exact ⟨s, ev', hs, List.mem_cons_of_mem _ hev, hex⟩

end

/-- While every connection speaks KVSP and none is in the middle of a command when another one is heard, the agent
forwards or keeps just the write commands that the master executes, in the master's order, and never fails. -/
theorem agent_follows_master_if_orderly (P : Params) (cmds : ℕ → List (List CString)) (rest : ℕ → Bytes)
    (hcmds : ∀ c, ∀ ts ∈ cmds c, Sendable ts) (hlen : ∀ c, (Encoding.kvsp.stream (cmds c)).length < 2 ^ 30)
    (steps : List Step) (hcut : ∀ c, chunksOf c steps ++ rest c = Encoding.kvsp.stream (cmds c))
    (hchunk : ∀ ev, .recv ev ∈ steps → 1 ≤ ev.chunk.length ∧ ev.chunk.length ≤ bufferSize)
    (hagent : ∀ alloc env, .take alloc env ∈ steps → alloc = true ∧ env.Granted ∧ env.Delivers ∧ env.Quiet)
    (g : Global) (memory : Bytes) (hmemory : memory ≠ []) (a : AgentInfo) (r : Relay) (ha : a.Follows r)
    (hsettled : r.Settled) (hbuf : a.buf = []) (hnodup : a.slaves.active.Nodup)
    (hcache : AgentCache.weight r.queue + 2 * bytesIn steps ≤ a.fullsyncCache.capacity)
    (horderly : (World.start g memory a).Orderly P steps) :
    ∃ w stop, (World.start g memory a).run P steps = some (w, stop) ∧
      ((∃ s ev, stop = some s ∧ .recv ev ∈ steps ∧ s.Excused ev.senv) ∨
        (stop = none ∧ w.existing = false ∧ ∃ seen unseen cached,
          w.master.state.executed = g.executed ++ (seen ++ unseen) ∧ (w.queue.used = 0 → unseen = []) ∧
          w.agent.fullsyncCache.contents = some cached ∧
          ∀ fd ∈ a.slaves.active, w.agent.sent fd ++ cached =
            a.sent fd ++ (r.queue.flatten ++ (seen.filter isWriteCommand).flatMap Kvsp.frameOf))) := by
  have hstart : Agree g a r (.start g memory a) 0 [] [] [] [] := by
    refine ⟨by simp [World.start, Master.start], by simp, fun d _ => rfl, ⟨.create hmemory, by simp⟩, rfl,
      .start ha hbuf, Or.inl hbuf, rfl⟩
  have hready : AllReady (.start g memory a) (fun c => chunksOf c steps ++ rest c) := by
    intro c
    refine ⟨cmds c, ?_, hcmds c, hlen c⟩
    change Ready .kvsp clientInfoInit (chunksOf c steps ++ rest c) (cmds c)
    rw [hcut c]
    exact ready_accept .kvsp (cmds c)
  obtain ⟨w, stop, hrun, hres⟩ := hstart.run hnodup hsettled hchunk hagent horderly hready (by simpa using hcache)
  refine ⟨w, stop, hrun, hres.imp_right ?_⟩
  rintro ⟨rfl, c, seen, unseen, chunks, received, h⟩
  refine ⟨rfl, h.awake, seen, unseen, _, h.executed, h.caught_up,
    AgentCache.contents_of_holds h.passed.follows.holds, ?_⟩
  intro fd hfd
  have hframed : ∀ ts ∈ seen, Kvsp.Framed ts := fun ts hts => h.framed ts (List.mem_append_left _ hts)
  have hwrites := congrArg List.flatten (Relay.run_writes hsettled (seen.map Kvsp.toFrame))
  have hbytes : ((writes (seen.map Kvsp.toFrame)).map Kvsp.Frame.bytes).flatten =
      (seen.filter isWriteCommand).flatMap Kvsp.frameOf := by
    rw [← writes_toFrame hframed, Kvsp.stream, List.flatMap_def]
  rw [List.flatten_append, List.flatten_append, hbytes] at hwrites
  rw [h.passed.sent_eq, broadcast, if_pos hfd, List.append_assoc, hwrites]

namespace World

def admits (w : World) (n : ℕ) : Step → Bool
  | .recv ev => decide (ev.conn < n) && (List.range n).all (fun d => d = ev.conn || (w.master.clients d).rPos = 0) &&
      decide (w.queue.used + (8 + ev.chunk.length) ≤ w.queue.capacity)
  | .take _ _ => true

def orderlyUpTo (P : Params) (n : ℕ) : World → List Step → Bool
  | _, [] => true
  | w, s :: steps =>
    w.admits n s && match w.step P s with
      | some (w', none) => orderlyUpTo P n w' steps
      | _ => true

theorem step_clients {P : Params} {n : ℕ} {w w' : World} {s : Step} {stop : Option Stop}
    (hs : ∀ ev, s = .recv ev → ev.conn < n) (h : w.step P s = some (w', stop)) (d : ℕ) (hd : n ≤ d) :
    w'.master.clients d = w.master.clients d := by
  cases s with
  | recv ev =>
    obtain ⟨⟨m, stop'⟩, hrecv, h⟩ := Option.bind_eq_some_iff.mp h
    obtain ⟨rfl, -⟩ := Prod.mk.inj (Option.some.inj h)
    obtain ⟨⟨c, stop''⟩, -, hm⟩ := Option.bind_eq_some_iff.mp hrecv
    obtain ⟨rfl, -⟩ := Prod.mk.inj (Option.some.inj hm)
    have hne : d ≠ ev.conn := by
      have := hs ev rfl
      omega
    exact Function.update_of_ne hne _ _
  | take alloc env =>
    obtain ⟨w₁, hagent, h⟩ := Option.bind_eq_some_iff.mp h
    obtain ⟨rfl, -⟩ := Prod.mk.inj (Option.some.inj h)
    rw [kvsAgent] at hagent
    split_ifs at hagent
    · rw [← Option.some.inj hagent]
    · split at hagent
      · rw [← Option.some.inj hagent]
      · obtain ⟨⟨ret, agent⟩, -, h⟩ := Option.bind_eq_some_iff.mp hagent
        rw [← Option.some.inj h]

theorem orderly_of_upTo {P : Params} {n : ℕ} {w : World} {steps : List Step} (h : w.orderlyUpTo P n steps = true)
    (hidle : ∀ d, n ≤ d → (w.master.clients d).rPos = 0) : w.Orderly P steps := by
  induction steps generalizing w with
  | nil => trivial
  | cons s steps ih =>
    rw [orderlyUpTo, Bool.and_eq_true] at h
    obtain ⟨hnow, hlater⟩ := h
    have hs : ∀ ev, s = .recv ev → ev.conn < n := by
      rintro ev rfl
      simp only [admits, Bool.and_eq_true, decide_eq_true_eq] at hnow
      exact hnow.1.1
    refine ⟨?_, ?_⟩
    · rintro ev rfl
      simp only [admits, Bool.and_eq_true, decide_eq_true_eq, List.all_eq_true, List.mem_range, Bool.or_eq_true] at hnow
      refine ⟨?_, hnow.2⟩
      intro d hd
      by_cases hn : d < n
      · exact (hnow.1.2 d hn).resolve_left hd
      · exact hidle d (not_lt.mp hn)
    · intro w' hw'
      rw [hw'] at hlater
      exact ih hlater (fun d hd => by rw [step_clients hs hw' d hd]; exact hidle d hd)

end World

def Step.recvAll (conn : ℕ) (chunk : Bytes) : Step := .recv ⟨conn, chunk, .granted, fun _ => .granted⟩

def inTurn : List Step :=
  [.recvAll 0 ((Kvsp.frameOf [.lit "SET", .lit "a", .lit "1"]).take 10), .take true .granting,
    .recvAll 0 ((Kvsp.frameOf [.lit "SET", .lit "a", .lit "1"]).drop 10),
    .recvAll 1 (Kvsp.frameOf [.lit "SET", .lit "b", .lit "2"]), .take true .granting, .take true .granting]

def syncedAgent : AgentInfo := { kvsAgentInfoInit 16 (List.replicate 200 0) ⟨[5, -1], 1⟩ with state := .incrSync }

theorem agent_follows_master_if_orderly_example :
    ∃ w, (World.start (.start .small) (List.replicate 100 0) syncedAgent).run .small inTurn = some (w, none) ∧
      w.existing = false ∧ w.master.state.executed = [[.lit "SET", .lit "a", .lit "1"], [.lit "SET", .lit "b", .lit "2"]] ∧
      w.agent.sent 5 =
        Kvsp.frameOf [.lit "SET", .lit "a", .lit "1"] ++ Kvsp.frameOf [.lit "SET", .lit "b", .lit "2"] := by
  have hfirst : Sendable [.lit "SET", .lit "a", .lit "1"] := ⟨by decide, by decide, by decide +kernel⟩
  have hsecond : Sendable [.lit "SET", .lit "b", .lit "2"] := ⟨by decide, by decide, by decide +kernel⟩
  have heval : ((World.start (.start .small) (List.replicate 100 0) syncedAgent).run .small inTurn).map
      (fun r => ((r.2, r.1.queue.used), r.1.agent.fullsyncCache.contents, r.1.master.state.executed)) =
        some ((none, 0), some [], [[.lit "SET", .lit "a", .lit "1"], [.lit "SET", .lit "b", .lit "2"]]) := by decide +kernel
  obtain ⟨w, stop, hrun, hres⟩ := agent_follows_master_if_orderly .small
    (fun c => if c = 0 then [[.lit "SET", .lit "a", .lit "1"]] else if c = 1 then [[.lit "SET", .lit "b", .lit "2"]] else [])
    (fun _ => [])
    (by
      intro c ts hts
      split_ifs at hts
      · exact List.mem_singleton.mp hts ▸ hfirst
      · exact List.mem_singleton.mp hts ▸ hsecond
      · simp at hts)
    (by
      intro c
      split_ifs <;> decide +kernel)
    inTurn
    (by
      intro c
      rcases c with _ | _ | c <;> simp [inTurn, Step.recvAll, chunksOf, Encoding.stream, Encoding.kvsp_frame])
    (by
      intro ev hev
      simp only [inTurn, Step.recvAll, List.mem_cons, Step.recv.injEq, reduceCtorEq, false_or, or_false, List.not_mem_nil]
        at hev
      rcases hev with rfl | rfl | rfl <;> decide +kernel)
    (by
      intro alloc env hin
      simp only [inTurn, Step.recvAll, List.mem_cons, Step.take.injEq, reduceCtorEq, false_or, or_false,
        List.not_mem_nil, or_self] at hin
      obtain ⟨rfl, rfl⟩ := hin
      exact ⟨rfl, AgentEnv.granting_granted, AgentEnv.granting_delivers, AgentEnv.granting_quiet⟩)
    (.start .small) (List.replicate 100 0) (by decide) syncedAgent ⟨.incrSync, []⟩ ⟨rfl, .create (by decide), by simp⟩
    (fun _ => rfl) rfl (by decide +kernel) (by decide +kernel)
    (World.orderly_of_upTo (n := 2) (by decide +kernel) (fun _ _ => rfl))
  rw [hrun] at heval
  simp only [Option.map_some, Option.some.injEq, Prod.mk.injEq] at heval
  obtain ⟨⟨rfl, hused⟩, hcont, hexec⟩ := heval
  rcases hres with ⟨s, ev, hs, -⟩ | ⟨-, hawake, seen, unseen, cached, hexec', hempty, hcached, hsent⟩
  · simp at hs
  · obtain rfl := hempty hused
    obtain rfl := Option.some.inj (hcached.symm.trans hcont)
    rw [hexec, List.append_nil] at hexec'
    change _ = [] ++ seen at hexec'
    rw [List.nil_append] at hexec'
    subst hexec'
    have hfive := hsent 5 (by decide +kernel)
    rw [List.append_nil] at hfive
    exact ⟨w, hrun, hawake, hexec, hfive.trans (by decide +kernel)⟩

def interleaved : List Step :=
  [.recvAll 0 ((Kvsp.frameOf [.lit "SET", .lit "a", .lit "1"]).take 10),
    .recvAll 1 (Kvsp.frameOf [.lit "SET", .lit "b", .lit "2"]),
    .recvAll 0 ((Kvsp.frameOf [.lit "SET", .lit "a", .lit "1"]).drop 10),
    .take true .granting, .take true .granting, .take true .granting]

/-- The agent gives up over two interleaved clients, and over one that speaks RESP, while the master serves them. -/
theorem agent_mixes_clients :
    (∃ w, (World.start (.start .small) (List.replicate 100 0) syncedAgent).run .small interleaved = some (w, none) ∧
      w.existing = true ∧ w.agent.sent 5 = [] ∧
      w.master.state.executed = [[.lit "SET", .lit "b", .lit "2"], [.lit "SET", .lit "a", .lit "1"]]) ∧
    ∃ w, (World.start (.start .small) (List.replicate 100 0) syncedAgent).run .small
        [.recvAll 0 (Resp.frameOf [.lit "SET", .lit "a", .lit "1"]), .take true .granting] = some (w, none) ∧
      w.existing = true ∧ w.agent.sent 5 = [] ∧ w.master.state.executed = [[.lit "SET", .lit "a", .lit "1"]] := by
  have hmixed : ((World.start (.start .small) (List.replicate 100 0) syncedAgent).run .small interleaved).map
      (fun r => (r.2, r.1.existing, r.1.agent.sent 5, r.1.master.state.executed)) =
        some (none, true, [], [[.lit "SET", .lit "b", .lit "2"], [.lit "SET", .lit "a", .lit "1"]]) := by decide +kernel
  have hresp : ((World.start (.start .small) (List.replicate 100 0) syncedAgent).run .small
      [.recvAll 0 (Resp.frameOf [.lit "SET", .lit "a", .lit "1"]), .take true .granting]).map
      (fun r => (r.2, r.1.existing, r.1.agent.sent 5, r.1.master.state.executed)) =
        some (none, true, [], [[.lit "SET", .lit "a", .lit "1"]]) := by decide +kernel
  obtain ⟨⟨w, stop⟩, hrun, hw⟩ := Option.map_eq_some_iff.mp hmixed
  obtain ⟨⟨w', stop'⟩, hrun', hw'⟩ := Option.map_eq_some_iff.mp hresp
  simp only [Prod.mk.injEq] at hw hw'
  obtain ⟨rfl, hgone, hsent, hexec⟩ := hw
  obtain ⟨rfl, hgone', hsent', hexec'⟩ := hw'
  exact ⟨⟨w, hrun, hgone, hsent, hexec⟩, w', hrun', hgone', hsent', hexec'⟩

end Lidis
