import Lidis.Ntyco

namespace Lidis

/-- One command of a connection, what the system answered during it, and the reply. -/
structure Exchange where
  conn : ℕ
  tokens : List CString
  env : Env
  reply : Reply

/-- The commands of the history, one after the other, lead from `g` to `g'` with the replies the history has; children
that save may end in between. -/
def Sequential (P : Params) : Global → List Exchange → Global → Prop
  | g, [], g' => ∃ ends, g' = g.childEnds ends
  | g, x :: h, g' => ∃ ends mid, effect P x.tokens (g.childEnds ends) x.env = some (mid, x.reply) ∧ Sequential P mid h g'

theorem Sequential.snoc {P : Params} {h : List Exchange} {x : Exchange} {g g' g'' : Global} (hs : Sequential P g h g')
    (hx : effect P x.tokens g' x.env = some (g'', x.reply)) : Sequential P g (h ++ [x]) g'' := by
  induction h generalizing g with
  | nil =>
    obtain ⟨ends, rfl⟩ := hs
    exact ⟨ends, g'', hx, [], rfl⟩
  | cons y h ih =>
    obtain ⟨ends, mid, hy, hs⟩ := hs
    exact ⟨ends, mid, hy, ih hs⟩

theorem Sequential.childEnds {P : Params} {h : List Exchange} {g g' : Global} (hs : Sequential P g h g')
    (ends : List (ChildEnd × ForkEnv)) : Sequential P g h (g'.childEnds ends) := by
  induction h generalizing g with
  | nil =>
    obtain ⟨before, rfl⟩ := hs
    exact ⟨before ++ ends, Global.childEnds_append g before ends⟩
  | cons y h ih =>
    obtain ⟨before, mid, hy, hs⟩ := hs
    exact ⟨before, mid, hy, ih hs⟩

def ofConn (i : ℕ) (h : List Exchange) : List Exchange := h.filter (fun x => decide (x.conn = i))

def commandsOf (i : ℕ) (h : List Exchange) : List (List CString) := (ofConn i h).map Exchange.tokens

def repliesTo (i : ℕ) (h : List Exchange) : Bytes := (ofConn i h).flatMap (fun x => x.reply.text)

section History

variable {i j : ℕ} {h : List Exchange} (ts : List CString) (env : Env) (reply : Reply)

theorem commandsOf_same (i : ℕ) : commandsOf i (h ++ [⟨i, ts, env, reply⟩]) = commandsOf i h ++ [ts] := by
  simp [commandsOf, ofConn]

theorem commandsOf_other (hne : j ≠ i) : commandsOf j (h ++ [⟨i, ts, env, reply⟩]) = commandsOf j h := by
  simp [commandsOf, ofConn, Ne.symm hne]

theorem repliesTo_same (i : ℕ) : repliesTo i (h ++ [⟨i, ts, env, reply⟩]) = repliesTo i h ++ reply.text := by
  simp [repliesTo, ofConn]

theorem repliesTo_other (hne : j ≠ i) : repliesTo j (h ++ [⟨i, ts, env, reply⟩]) = repliesTo j h := by
  simp [repliesTo, ofConn, Ne.symm hne]

theorem ofConn_eq_nil (hx : ∀ x ∈ h, x.conn ≠ i) : ofConn i h = [] := by
  rw [ofConn, List.filter_eq_nil_iff]
  intro x hmem
  simpa using hx x hmem

end History

namespace Coroutine

def unsent (co : Coroutine) : Bytes :=
  match co.place with
  | .sending gone => (co.cli.wbuf.take co.cli.wPos).drop gone
  | _ => co.cli.wbuf.take co.cli.wPos

/-- An open connection: `done` has been executed and answered by `replies`, of which a slave sends nothing; `rest` of
its stream is still to be received. -/
structure Open (e : Encoding) (cmds done : List (List CString)) (replies : Bytes) (co : Coroutine) : Prop where
  stream : ∃ todo rest, cmds = done ++ todo ∧ co.received ++ rest = e.stream cmds ∧ Buffered e rest todo co.cli ∧
    (co.place ≠ .parsing → ∀ ts ∈ todo.head?, co.cli.rPos < (e.frame ts).length)
  reading : co.place = .reading → Known e co.cli ∧ co.cli.wPos = 0
  known : co.place ≠ .reading → co.cli.protocol = e.protocol
  slave : co.cli.role = 1 → co.sent = [] ∧ ∀ gone, co.place ≠ .sending gone
  sent : co.cli.role ≠ 1 → co.sent ++ co.unsent = replies

/-- What may have closed a connection whose client sends well-formed commands. -/
def Excused : Option Stop → Prop
  | none => True
  | some .noMemory => True
  | some .send => True
  | some (.handler (some slen)) => slen < 0
  | _ => False

structure Closed (cmds done : List (List CString)) (replies : Bytes) (co : Coroutine) : Prop where
  commands : done <+: cmds
  slave : co.cli.role = 1 → co.sent = []
  sent : co.sent <+: replies

def InStep (e : Encoding) (cmds done : List (List CString)) (replies : Bytes) (co : Coroutine) : Prop :=
  match co.place with
  | .closed stop => Excused stop ∧ Closed cmds done replies co
  | _ => Open e cmds done replies co

variable {e : Encoding} {cmds done : List (List CString)} {replies : Bytes} {co co' : Coroutine}

theorem inStep_of_open (hne : ∀ stop, co.place ≠ .closed stop) (h : Open e cmds done replies co) :
    InStep e cmds done replies co := by
  rw [InStep]
  split
  · next stop hp => exact absurd hp (hne stop)
  · exact h

theorem InStep.open (h : InStep e cmds done replies co) (hne : ∀ stop, co.place ≠ .closed stop) :
    Open e cmds done replies co := by
  rw [InStep] at h
  split at h
  · next stop hp => exact absurd hp (hne stop)
  · exact h

theorem Open.closed (h : Open e cmds done replies co) : Closed cmds done replies co := by
  obtain ⟨todo, rest, hcmds, -⟩ := h.stream
  refine ⟨⟨todo, hcmds.symm⟩, fun hr => (h.slave hr).1, ?_⟩
  by_cases hr : co.cli.role = 1
  · rw [(h.slave hr).1]
    exact List.nil_prefix
  · exact ⟨_, h.sent hr⟩

theorem inStep_close {stop : Option Stop} (hx : Excused stop) (hp : co'.place = .closed stop)
    (h : Closed cmds done replies co') : InStep e cmds done replies co' := by
  rw [InStep, hp]
  exact ⟨hx, h⟩

theorem create_open (e : Encoding) (cmds : List (List CString)) (role : ℕ) : Open e cmds [] [] (create role) where
  stream := by
    exact ⟨cmds, e.stream cmds, rfl, rfl, ⟨List.length_replicate, show 0 < bufferSize by decide, le_rfl, rfl,
      clientInfoInit_writeOk.toFits.congr rfl rfl rfl⟩, fun _ ts _ => e.frame_pos ts⟩
  reading := fun _ => ⟨Or.inr ⟨rfl, rfl⟩, rfl⟩
  known := fun h => absurd rfl h
  slave := fun _ => ⟨rfl, by simp [create]⟩
  sent := fun _ => rfl

theorem recvStep_received {sys : ServerEnv} {chunk : Bytes} (h : co.recvStep sys chunk = some co') :
    co'.received = co.received ++ chunk := by
  rw [recvStep] at h
  split_ifs at h with hc
  · obtain rfl := Option.some.inj h
    rw [hc, List.append_nil]
  obtain ⟨o, -, h⟩ := Option.bind_eq_some_iff.mp h
  cases o with
  | none =>
    obtain rfl := Option.some.inj h
    rfl
  | some cli =>
    obtain ⟨cli', -, h⟩ := Option.bind_eq_some_iff.mp h
    dsimp only at h
    split_ifs at h <;>
      · obtain rfl := Option.some.inj h
        rfl

theorem recvStep_inStep {sys : ServerEnv} {chunk : Bytes} (h : Open e cmds done replies co) (hplace : co.place = .reading)
    (htotal : (e.stream cmds).length < 2 ^ 30) (hc : chunk.length ≤ bufferSize)
    (hfed : co.received ++ chunk <+: e.stream cmds) :
    ∃ co', co.recvStep sys chunk = some co' ∧ InStep e cmds done replies co' := by
  by_cases hnil : chunk = []
  · refine ⟨_, if_pos hnil, inStep_close (by trivial) rfl ?_⟩
    exact ⟨h.closed.commands, h.closed.slave, h.closed.sent⟩
  obtain ⟨rest', hrest'⟩ := hfed
  obtain ⟨todo, rest, hcmds, hrest, hbuf, -⟩ := h.stream
  obtain rfl : rest = chunk ++ rest' := by
    rw [← hrest, List.append_assoc] at hrest'
    exact (List.append_cancel_left hrest').symm
  obtain ⟨hknown, hw⟩ := h.reading hplace
  have hroom : co.cli.rPos + chunk.length < 2 ^ 30 := by
    have hlen := hbuf.length_eq
    rw [hcmds, Encoding.stream_append, List.length_append] at htotal
    rw [List.length_append] at hlen
    omega
  have hpos : 0 < co.cli.rPos + chunk.length := by
    have := List.length_pos_of_ne_nil hnil
    omega
  rcases growFor_cases (sys.grow 0) sys.fresh hroom with ⟨hnone, -⟩ | ⟨cli, hgrow⟩
  · refine ⟨{ co with received := co.received ++ chunk }.close .noMemory,
      by simp only [recvStep, if_neg hnil, hnone, bind, Option.bind], inStep_close (by trivial) rfl ?_⟩
    exact ⟨h.closed.commands, h.closed.slave, h.closed.sent⟩
  · obtain ⟨rbuf, rCap, hrecv, hbuf'⟩ := hbuf.grown hc hgrow
    have hopen : ∀ protocol, protocol = e.protocol → Open e cmds done replies
        ⟨{ co.cli with rbuf := rbuf, rCap := rCap, rPos := co.cli.rPos + chunk.length, protocol := protocol }, .parsing,
          co.received ++ chunk, co.sent⟩ := by
      intro protocol hp
      refine ⟨⟨todo, rest', hcmds, by rw [List.append_assoc, hrest], ?_, fun hne => absurd rfl hne⟩,
        fun hr => by simp at hr, fun _ => hp, fun hr => ⟨(h.slave hr).1, by simp⟩, fun hr => ?_⟩
      · exact ⟨hbuf'.block, hbuf'.fits, hbuf'.least, hbuf'.bytes, hbuf'.writable.congr rfl rfl rfl⟩
      · have hs := h.sent hr
        simpa only [unsent, hplace] using hs
    by_cases hunk : co.cli.protocol = .unknown
    · have hdetect : kvsDetectProtocol
            { co.cli with rbuf := rbuf, rCap := rCap, rPos := co.cli.rPos + chunk.length } =
          ({ co.cli with
            rbuf := rbuf, rCap := rCap, rPos := co.cli.rPos + chunk.length, protocol := e.protocol }, 0) :=
        kvsDetectProtocol_mark hpos (hbuf'.mark hpos)
      refine ⟨_, ?_, inStep_of_open (by simp) (hopen e.protocol rfl)⟩
      simp only [recvStep, if_neg hnil, hgrow, hrecv, bind, Option.bind, if_pos hunk, hdetect]
      rfl
    · refine ⟨_, ?_, inStep_of_open (by simp) (hopen co.cli.protocol (hknown.resolve_right (fun hk => hunk hk.1)))⟩
      simp only [recvStep, if_neg hnil, hgrow, hrecv, bind, Option.bind, if_neg hunk]

theorem sendFrom_open {gone : ℕ}
    (hstream : ∃ todo rest, cmds = done ++ todo ∧ co.received ++ rest = e.stream cmds ∧ Buffered e rest todo co.cli ∧
      ∀ ts ∈ todo.head?, co.cli.rPos < (e.frame ts).length)
    (hp : co.cli.protocol = e.protocol) (hr : co.cli.role ≠ 1)
    (hsent : co.sent ++ (co.cli.wbuf.take co.cli.wPos).drop gone = replies) :
    InStep e cmds done replies (co.sendFrom gone) := by
  obtain ⟨todo, rest, hcmds, hrest, hbuf, hwait⟩ := hstream
  rw [sendFrom]
  split_ifs with hlt
  · exact inStep_of_open (by simp) ⟨⟨todo, rest, hcmds, hrest, hbuf, fun _ => hwait⟩, fun h => by simp at h,
      fun _ => hp, fun h => absurd h hr, fun _ => hsent⟩
  · have hnone : (co.cli.wbuf.take co.cli.wPos).drop gone = [] := by
      rw [List.drop_eq_nil_iff, List.length_take]
      omega
    refine inStep_of_open (by simp) ⟨⟨todo, rest, hcmds, hrest, hbuf.flushed, fun _ => hwait⟩,
      fun _ => ⟨Or.inl hp, rfl⟩, fun _ => hp, fun h => absurd h hr, fun _ => ?_⟩
    rw [hnone] at hsent
    simpa [unsent] using hsent

theorem endFrames_open (h : Open e cmds done replies co) (hplace : co.place = .parsing)
    (hwait : ∀ todo, cmds = done ++ todo → ∀ ts ∈ todo.head?, co.cli.rPos < (e.frame ts).length) :
    InStep e cmds done replies co.endFrames := by
  obtain ⟨todo, rest, hcmds, hrest, hbuf, -⟩ := h.stream
  have hp : co.cli.protocol = e.protocol := h.known (by simp [hplace])
  rw [endFrames]
  split_ifs with hr
  · exact inStep_of_open (by simp) ⟨⟨todo, rest, hcmds, hrest, hbuf.flushed, fun _ => hwait todo hcmds⟩,
      fun _ => ⟨Or.inl hp, rfl⟩, fun _ => hp, fun _ => ⟨(h.slave hr).1, by simp⟩, fun hne => absurd hr hne⟩
  · refine sendFrom_open ⟨todo, rest, hcmds, hrest, hbuf, hwait todo hcmds⟩ hp hr ?_
    have hs := h.sent hr
    simpa only [unsent, hplace, List.drop_zero] using hs

theorem sendStep_inStep {ret : ℤ} {gone : ℕ} (h : Open e cmds done replies co) (hplace : co.place = .sending gone) :
    InStep e cmds done replies (co.sendStep ret gone) := by
  rw [sendStep]
  split_ifs with hret
  · exact inStep_close (by trivial) rfl ⟨h.closed.commands, h.closed.slave, h.closed.sent⟩
  · obtain ⟨todo, rest, hcmds, hrest, hbuf, hwait⟩ := h.stream
    have hr : co.cli.role ≠ 1 := fun hr => (h.slave hr).2 gone hplace
    refine sendFrom_open ⟨todo, rest, hcmds, hrest, hbuf, hwait (by simp [hplace])⟩ (h.known (by simp [hplace])) hr ?_
    have hs := h.sent hr
    rw [unsent, hplace] at hs
    rw [← hs, List.append_assoc, ← List.drop_drop, List.take_append_drop]

theorem sendFrom_received (co : Coroutine) (gone : ℕ) : (co.sendFrom gone).received = co.received := by
  rw [sendFrom]
  split_ifs <;> rfl

theorem endFrames_received (co : Coroutine) : co.endFrames.received = co.received := by
  rw [endFrames]
  split_ifs
  · rfl
  · exact sendFrom_received co 0

theorem sendStep_received (ret : ℤ) (gone : ℕ) (co : Coroutine) : (co.sendStep ret gone).received = co.received := by
  rw [sendStep]
  split_ifs
  · rfl
  · exact sendFrom_received _ _

theorem frameStep_received {P : Params} {sys : ServerEnv} {env : Env} {g g' : Global}
    (h : co.frameStep P sys env g = some (g', co')) : co'.received = co.received := by
  have hsame : ∀ {c : Coroutine} {g₁ : Global}, some (g₁, c) = some (g', co') → c = co' :=
    fun he => (Prod.mk.inj (Option.some.inj he)).2
  rw [frameStep] at h
  split_ifs at h
  · exact hsame h ▸ endFrames_received co
  · exact hsame h ▸ rfl
  obtain ⟨size, -, h⟩ := Option.bind_eq_some_iff.mp h
  cases size with
  | more => exact hsame h ▸ endFrames_received co
  | error n =>
    obtain ⟨⟨c, stop⟩, -, h⟩ := Option.bind_eq_some_iff.mp h
    exact hsame h ▸ rfl
  | frame total head =>
    obtain ⟨⟨c, stop⟩, -, h⟩ := Option.bind_eq_some_iff.mp h
    split at h
    · simp at h
    · exact hsame h ▸ rfl
    · exact hsame h ▸ rfl

/-- One turn of the loop over the frames: it comes to its end, the next command is refused, or it is answered. -/
theorem frameStep_inStep (P : Params) (sys : ServerEnv) (env : Env) (g : Global) (h : Open e cmds done replies co)
    (hplace : co.place = .parsing) (hmax : ∀ ts ∈ cmds, ts.length ≤ maxTokens)
    (htotal : (e.stream cmds).length < 2 ^ 30) :
    (co.frameStep P sys env g = none ∧ ∃ ts rbuf total head, cmds[done.length]? = some ts ∧
        kvsFilterProtocol P ts (co.cli.load rbuf total head) g env = none) ∨
      ∃ g' co', co.frameStep P sys env g = some (g', co') ∧
        (g' = g ∧ InStep e cmds done replies co' ∨
          ∃ ts reply, effect P ts g env = some (g', reply) ∧
            InStep e cmds (done ++ [ts]) (replies ++ reply.text) co') := by
  obtain ⟨todo, rest, hcmds, hrest, hbuf, -⟩ := h.stream
  have hp : co.cli.protocol = e.protocol := h.known (by simp [hplace])
  have hcancel : ∀ todo', cmds = done ++ todo' → todo' = todo := fun todo' heq =>
    List.append_cancel_left (heq.symm.trans hcmds)
  by_cases h0 : co.cli.rPos = 0
  · refine Or.inr ⟨g, co.endFrames, if_pos h0, Or.inl ⟨rfl, endFrames_open h hplace ?_⟩⟩
    intro _ _ ts _
    rw [h0]
    exact e.frame_pos ts
  have hknown : ¬ co.cli.protocol = .unknown := by
    rw [hp]
    exact e.protocol_ne_unknown
  cases todo with
  | nil =>
    have hlen := hbuf.length_eq
    simp only [Encoding.stream_nil, List.length_nil] at hlen
    omega
  | cons ts todo =>
    have hmem : ts ∈ cmds := hcmds ▸ List.mem_append_right _ List.mem_cons_self
    have hsize : (e.frame ts).length ≤ intMax := by
      rw [hcmds, Encoding.stream_append, Encoding.stream_cons, List.length_append, List.length_append] at htotal
      simp only [intMax]
      omega
    have hrecv := recvProtocol_frame hp (by rw [hbuf.bytes_eq, Encoding.stream_cons]) (Nat.pos_of_ne_zero h0) hsize
    by_cases hfit : (e.frame ts).length ≤ co.cli.rPos
    · obtain ⟨c', stop, hframe, hres⟩ :=
        @handleFrame_buffered P (fun _ => env) e rest todo ts (co.conn g) hbuf hp hfit (hmax ts hmem) hsize
      simp only [frameStep, if_neg h0, if_neg hknown, hrecv, if_pos hfit, hframe, bind, Option.bind]
      rcases hres with ⟨rfl, hnone⟩ | ⟨slen, hneg, rfl, href⟩ | ⟨rfl, reply, ha⟩
      · obtain ⟨rbuf, total, head, hnone⟩ := hnone
        exact Or.inl ⟨rfl, ts, rbuf, total, head, by simp [hcmds], hnone⟩
      · have hclosed : ∀ more text, done ++ more <+: cmds →
            InStep e cmds (done ++ more) (replies ++ text) ({ co with cli := c'.cli }.close (.handler (some slen))) := by
          intro more text hpre
          refine inStep_close (show Excused (some (.handler (some slen))) from hneg) rfl
            ⟨hpre, fun hr => (h.slave (href.role.symm.trans hr)).1, ?_⟩
          exact h.closed.sent.trans (List.prefix_append replies text)
        refine Or.inr ⟨c'.state, _, rfl, ?_⟩
        rcases href.effect_eq with hsame | ⟨reply, heff⟩
        · have hc := hclosed [] [] (by simpa using h.closed.commands)
          rw [List.append_nil, List.append_nil] at hc
          exact Or.inl ⟨hsame, hc⟩
        · exact Or.inr ⟨ts, reply, heff, hclosed [ts] reply.text ⟨todo, by rw [hcmds, List.append_assoc]; rfl⟩⟩
      · refine Or.inr ⟨c'.state, _, rfl, Or.inr ⟨ts, reply, ha.effect_eq, ?_⟩⟩
        refine inStep_of_open (by simp [hplace]) ⟨⟨todo, rest, by rw [hcmds, List.append_assoc]; rfl, hrest, ha.buffered,
          fun hne => absurd hplace hne⟩, fun hr => ?_, fun _ => ha.protocol.trans hp, fun hr => ?_, fun hr => ?_⟩
        · rw [hplace] at hr
          simp at hr
        · exact h.slave (ha.role.symm.trans hr)
        · have hs := h.sent (fun he => hr (ha.role.trans he))
          simp only [unsent, hplace] at hs ⊢
          rw [ha.pending, ← List.append_assoc]
          exact congrArg (· ++ reply.text) hs
    · simp only [frameStep, if_neg h0, if_neg hknown, hrecv, if_neg hfit, bind, Option.bind]
      refine Or.inr ⟨g, co.endFrames, rfl, Or.inl ⟨rfl, endFrames_open h hplace ?_⟩⟩
      intro todo' heq us hus
      rw [hcancel todo' heq] at hus
      obtain rfl := Option.some.inj hus
      omega

theorem Open.waiting (ho : Open e cmds done replies co) (hplace : co.place = .reading) :
    (∃ part, co.received = e.stream done ++ part ∧
      ∀ ts, cmds[done.length]? = some ts → part.length < (e.frame ts).length) ∧ (co.cli.role ≠ 1 → co.sent = replies) := by
  obtain ⟨todo, rest, hcmds, hrest, hbuf, hwait⟩ := ho.stream
  refine ⟨⟨co.cli.rbuf.take co.cli.rPos, ?_, fun ts hts => ?_⟩, fun hr => ?_⟩
  · rw [hcmds, Encoding.stream_append, ← hbuf.bytes, ← List.append_assoc] at hrest
    exact List.append_cancel_right hrest
  · rw [hcmds, List.getElem?_append_right le_rfl, Nat.sub_self, ← List.head?_eq_getElem?] at hts
    have hlt := hwait (by simp [hplace]) ts hts
    rw [List.length_take]
    omega
  · have hs := ho.sent hr
    rw [unsent, hplace, (ho.reading hplace).2, List.take_zero, List.append_nil] at hs
    exact hs

end Coroutine

/-- recv brings no more than recv_buf holds. -/
def Event.Within : Event → Prop
  | .recv _ chunk _ => chunk.length ≤ bufferSize
  | _ => True

/-- The answers of the system during a command of connection `i` are as `Q i` says. -/
def Event.Asks (Q : ℕ → Env → Prop) : Event → Prop
  | .frame i _ env => Q i env
  | _ => True

namespace Ntyco

open Coroutine

variable {P : Params} {e : ℕ → Encoding} {cmds : ℕ → List (List CString)} {g : Global} {s s' : Ntyco} {h : List Exchange}
  {Q : ℕ → Env → Prop} {i : ℕ} {co co' : Coroutine} {ev : Event}

/-- The invariant of the runs. `Q` is what is known of the answers the system gives while a connection's command runs. -/
structure Traced (P : Params) (e : ℕ → Encoding) (cmds : ℕ → List (List CString)) (g : Global) (Q : ℕ → Env → Prop)
    (s : Ntyco) (h : List Exchange) : Prop where
  state : Sequential P g h s.state
  each : ∀ i co, s.conns[i]? = some co → InStep (e i) (cmds i) (commandsOf i h) (repliesTo i h) co
  conns : ∀ x ∈ h, x.conn < s.conns.length
  asked : ∀ x ∈ h, Q x.conn x.env

def Fed (e : ℕ → Encoding) (cmds : ℕ → List (List CString)) (s : Ntyco) : Prop :=
  ∀ i co, s.conns[i]? = some co → co.received <+: (e i).stream (cmds i)

theorem start_traced (P : Params) (e : ℕ → Encoding) (cmds : ℕ → List (List CString)) (g : Global) (Q : ℕ → Env → Prop) :
    Traced P e cmds g Q (start g) [] :=
  ⟨⟨[], rfl⟩, fun i co hget => by simp [start] at hget, fun x hx => by simp at hx, fun x hx => by simp at hx⟩

theorem getElem?_put {conns : List Coroutine} {j : ℕ} {x : Coroutine} (hget : conns[i]? = some co)
    (hj : (conns.set i co')[j]? = some x) : (j = i ∧ x = co') ∨ (j ≠ i ∧ conns[j]? = some x) := by
  have hlt : i < conns.length := (List.getElem?_eq_some_iff.mp hget).1
  by_cases hji : j = i
  · subst hji
    rw [List.getElem?_set_self hlt] at hj
    exact Or.inl ⟨rfl, (Option.some.inj hj).symm⟩
  · rw [List.getElem?_set_ne (Ne.symm hji)] at hj
    exact Or.inr ⟨hji, hj⟩

theorem Traced.put (ht : Traced P e cmds g Q s h) (hget : s.conns[i]? = some co)
    (hin : InStep (e i) (cmds i) (commandsOf i h) (repliesTo i h) co') :
    Traced P e cmds g Q { s with conns := s.conns.set i co' } h := by
  refine ⟨ht.state, fun j x hj => ?_, fun x hx => by simpa using ht.conns x hx, ht.asked⟩
  rcases getElem?_put hget hj with ⟨rfl, rfl⟩ | ⟨-, hj⟩
  · exact hin
  · exact ht.each j x hj

theorem Traced.answer (ht : Traced P e cmds g Q s h) (hget : s.conns[i]? = some co) {ts : List CString} {env : Env}
    {reply : Reply} {g' : Global} (hq : Q i env) (heff : effect P ts s.state env = some (g', reply))
    (hin : InStep (e i) (cmds i) (commandsOf i h ++ [ts]) (repliesTo i h ++ reply.text) co') :
    Traced P e cmds g Q { s with state := g', conns := s.conns.set i co' } (h ++ [⟨i, ts, env, reply⟩]) := by
  refine ⟨ht.state.snoc heff, fun j x hj => ?_, fun x hx => ?_, fun x hx => ?_⟩
  · rcases getElem?_put hget hj with ⟨rfl, rfl⟩ | ⟨hne, hj⟩
    · rw [commandsOf_same, repliesTo_same]
      exact hin
    · rw [commandsOf_other _ _ _ hne, repliesTo_other _ _ _ hne]
      exact ht.each j x hj
  · rw [List.length_set]
    rcases List.mem_append.mp hx with hx | hx
    · exact ht.conns x hx
    · rw [List.mem_singleton.mp hx]
      exact (List.getElem?_eq_some_iff.mp hget).1
  · rcases List.mem_append.mp hx with hx | hx
    · exact ht.asked x hx
    · rw [List.mem_singleton.mp hx]
      exact hq

theorem Traced.create (ht : Traced P e cmds g Q s h) (role : ℕ) :
    Traced P e cmds g Q { s with conns := s.conns ++ [.create role] } h := by
  refine ⟨ht.state, fun j x hj => ?_, fun x hx => ?_, ht.asked⟩
  · rcases lt_or_ge j s.conns.length with hlt | hge
    · rw [List.getElem?_append_left hlt] at hj
      exact ht.each j x hj
    · rw [List.getElem?_append_right hge, List.getElem?_singleton] at hj
      split_ifs at hj with h0
      obtain rfl := Option.some.inj hj
      have hnone : ofConn j h = [] := ofConn_eq_nil (fun y hy he => by have := ht.conns y hy; omega)
      rw [commandsOf, repliesTo, hnone]
      exact inStep_of_open (by simp [Coroutine.create]) (create_open (e j) (cmds j) role)
  · have := ht.conns x hx
    rw [List.length_append]
    omega

theorem Steps.received (hs : Steps P s ev s') (hget : s.conns[i]? = some co) :
    ∃ co', s'.conns[i]? = some co' ∧ co.received <+: co'.received := by
  have hlt : i < s.conns.length := (List.getElem?_eq_some_iff.mp hget).1
  have hput : ∀ {j : ℕ} {x x' : Coroutine}, s.conns[j]? = some x → x.received <+: x'.received →
      ∃ co', (s.conns.set j x')[i]? = some co' ∧ co.received <+: co'.received := by
    intro j x x' hj hpre
    by_cases hji : j = i
    · subst hji
      obtain rfl := Option.some.inj (hget.symm.trans hj)
      exact ⟨x', List.getElem?_set_self hlt, hpre⟩
    · exact ⟨co, by rw [List.getElem?_set_ne hji, hget], List.prefix_refl _⟩
  cases hs with
  | idle => exact ⟨co, hget, List.prefix_refl _⟩
  | refuse => exact ⟨co, hget, List.prefix_refl _⟩
  | childDone => exact ⟨co, hget, List.prefix_refl _⟩
  | create role => exact ⟨co, by rw [List.getElem?_append_left hlt, hget], List.prefix_refl _⟩
  | recv hj hplace hrecv => exact hput hj (recvStep_received hrecv ▸ List.prefix_append _ _)
  | frame hj hplace hframe => exact hput hj (frameStep_received hframe ▸ List.prefix_refl _)
  | send hj hplace => exact hput hj (sendStep_received _ _ _ ▸ List.prefix_refl _)

theorem Steps.fed (hs : Steps P s ev s') (hf : Fed e cmds s') : Fed e cmds s := by
  intro i co hget
  obtain ⟨co', hget', hpre⟩ := hs.received hget
  exact hpre.trans (hf i co' hget')

theorem run_fed {evs : List Event} (hrun : run P evs s = some s') (hf : Fed e cmds s') : Fed e cmds s := by
  induction evs generalizing s with
  | nil =>
    obtain rfl := Option.some.inj hrun
    exact hf
  | cons ev evs ih =>
    obtain ⟨mid, hstep, hrun⟩ := Option.bind_eq_some_iff.mp hrun
    exact (steps_of_step hstep).fed (ih hrun)

theorem Traced.kept (ht : Traced P e cmds g Q s h) : ∃ more, Traced P e cmds g Q s (h ++ more) :=
  ⟨[], by rwa [List.append_nil]⟩

theorem Traced.step (ht : Traced P e cmds g Q s h) (hs : Steps P s ev s') (hev : ev.Within) (hq : ev.Asks Q)
    (hf : Fed e cmds s') (hmax : ∀ i, ∀ ts ∈ cmds i, ts.length ≤ maxTokens)
    (htotal : ∀ i, ((e i).stream (cmds i)).length < 2 ^ 30) : ∃ more, Traced P e cmds g Q s' (h ++ more) := by
  cases hs with
  | idle => exact ht.kept
  | refuse => exact Traced.kept ⟨ht.state, ht.each, ht.conns, ht.asked⟩
  | childDone e env => exact Traced.kept ⟨ht.state.childEnds _, ht.each, ht.conns, ht.asked⟩
  | create role => exact (ht.create role).kept
  | @recv i chunk sys co co' hget hplace hrecv =>
    have hlt : i < s.conns.length := (List.getElem?_eq_some_iff.mp hget).1
    have hfed := hf i co' (List.getElem?_set_self hlt)
    rw [recvStep_received hrecv] at hfed
    obtain ⟨co'', hco, hin⟩ := recvStep_inStep ((ht.each i co hget).open (by simp [hplace])) hplace (htotal i) hev hfed
    obtain rfl := Option.some.inj (hrecv.symm.trans hco)
    exact (ht.put hget hin).kept
  | @frame i sys env co co' g' hget hplace hframe =>
    rcases frameStep_inStep P sys env s.state ((ht.each i co hget).open (by simp [hplace])) hplace (hmax i) (htotal i) with
      ⟨hnone, -⟩ | ⟨g'', co'', hco, hres⟩
    · simp [hnone] at hframe
    obtain ⟨rfl, rfl⟩ := Prod.mk.inj (Option.some.inj (hframe.symm.trans hco))
    rcases hres with ⟨rfl, hin⟩ | ⟨ts, reply, heff, hin⟩
    · exact (ht.put hget hin).kept
    · exact ⟨[⟨i, ts, env, reply⟩], ht.answer hget hq heff hin⟩
  | @send i ret co gone hget hplace =>
    exact (ht.put hget (sendStep_inStep ((ht.each i co hget).open (by simp [hplace])) hplace)).kept

theorem Traced.run {evs : List Event} (ht : Traced P e cmds g Q s h) (hrun : Ntyco.run P evs s = some s')
    (hevs : ∀ ev ∈ evs, ev.Within ∧ ev.Asks Q) (hf : Fed e cmds s') (hmax : ∀ i, ∀ ts ∈ cmds i, ts.length ≤ maxTokens)
    (htotal : ∀ i, ((e i).stream (cmds i)).length < 2 ^ 30) : ∃ more, Traced P e cmds g Q s' (h ++ more) := by
  induction evs generalizing s h with
  | nil =>
    obtain rfl := Option.some.inj hrun
    exact ht.kept
  | cons ev evs ih =>
    obtain ⟨mid, hstep, hrun⟩ := Option.bind_eq_some_iff.mp hrun
    obtain ⟨hev, hq⟩ := hevs ev List.mem_cons_self
    obtain ⟨first, ht'⟩ := ht.step (steps_of_step hstep) hev hq (run_fed hrun hf) hmax htotal
    obtain ⟨rest, ht''⟩ := ih ht' hrun (fun ev' hev' => hevs ev' (List.mem_cons_of_mem ev hev'))
    exact ⟨first ++ rest, by rwa [← List.append_assoc]⟩

/-- The history `h` explains all that can be seen of the process. -/
structure Explained (P : Params) (e : ℕ → Encoding) (cmds : ℕ → List (List CString)) (g : Global) (Q : ℕ → Env → Prop)
    (s : Ntyco) (h : List Exchange) : Prop where
  state : Sequential P g h s.state
  conns : ∀ x ∈ h, x.conn < s.conns.length
  asked : ∀ x ∈ h, Q x.conn x.env
  commands : ∀ (i : ℕ) (co : Coroutine), s.conns[i]? = some co → commandsOf i h <+: cmds i
  sent : ∀ (i : ℕ) (co : Coroutine), s.conns[i]? = some co → co.sent <+: repliesTo i h
  slave : ∀ (i : ℕ) (co : Coroutine), s.conns[i]? = some co → co.cli.role = 1 → co.sent = []
  waiting : ∀ (i : ℕ) (co : Coroutine), s.conns[i]? = some co → co.place = .reading →
    (∃ part, co.received = (e i).stream (commandsOf i h) ++ part ∧
      ∀ ts, (cmds i)[(commandsOf i h).length]? = some ts → part.length < ((e i).frame ts).length) ∧
    (co.cli.role ≠ 1 → co.sent = repliesTo i h)
  stops : ∀ (i : ℕ) (co : Coroutine) stop, s.conns[i]? = some co → co.place = .closed stop → Excused stop

theorem Traced.closed (ht : Traced P e cmds g Q s h) (hget : s.conns[i]? = some co) :
    Closed (cmds i) (commandsOf i h) (repliesTo i h) co := by
  have hin := ht.each i co hget
  rw [InStep] at hin
  split at hin
  · exact hin.2
  · exact hin.closed

theorem Traced.explained (ht : Traced P e cmds g Q s h) : Explained P e cmds g Q s h where
  state := ht.state
  conns := ht.conns
  asked := ht.asked
  commands := fun _ _ hget => (ht.closed hget).commands
  sent := fun _ _ hget => (ht.closed hget).sent
  slave := fun _ _ hget => (ht.closed hget).slave
  waiting := fun i co hget hplace => ((ht.each i co hget).open (by simp [hplace])).waiting hplace
  stops := fun i co stop hget hplace => by
    have hin := ht.each i co hget
    rw [InStep, hplace] at hin
    exact hin.1

/-- The only step without a result is a command whose handler does not return. -/
theorem Traced.fails (ht : Traced P e cmds g Q s h) (hev : ev.Within)
    (hfed : ∀ i chunk sys (co : Coroutine), ev = .recv i chunk sys → s.conns[i]? = some co →
      co.received ++ chunk <+: (e i).stream (cmds i))
    (hmax : ∀ i, ∀ ts ∈ cmds i, ts.length ≤ maxTokens) (htotal : ∀ i, ((e i).stream (cmds i)).length < 2 ^ 30)
    (hnone : s.step P ev = none) :
    ev = .attach false ∨ ∃ i sys env co ts rbuf total head, ev = .frame i sys env ∧ s.conns[i]? = some co ∧
      (cmds i)[(commandsOf i h).length]? = some ts ∧
      kvsFilterProtocol P ts (co.cli.load rbuf total head) s.state env = none := by
  cases ev with
  | accept granted =>
    rw [Ntyco.step] at hnone
    split_ifs at hnone
  | attach granted =>
    rw [Ntyco.step] at hnone
    split_ifs at hnone with hgrant
    obtain rfl : granted = false := by simpa using hgrant
    exact Or.inl rfl
  | recv i chunk sys =>
    rw [Ntyco.step] at hnone
    split at hnone
    · simp at hnone
    · next co hget =>
      split_ifs at hnone with hplace
      have hin : ∃ co', co.recvStep sys chunk = some co' ∧ _ := recvStep_inStep ((ht.each i co hget).open (by simp [hplace]))
        hplace (htotal i) hev (hfed i chunk sys co rfl hget)
      obtain ⟨co', hco, -⟩ := hin
      simp [hco] at hnone
  | frame i sys env =>
    rw [Ntyco.step] at hnone
    split at hnone
    · simp at hnone
    · next co hget =>
      split_ifs at hnone with hplace
      rcases frameStep_inStep P sys env s.state ((ht.each i co hget).open (by simp [hplace])) hplace (hmax i)
        (htotal i) with ⟨-, ts, rbuf, total, head, hts, hcall⟩ | ⟨g', co', hco, -⟩
      · exact Or.inr ⟨i, sys, env, co, ts, rbuf, total, head, rfl, hget, hts, hcall⟩
      · simp [hco] at hnone
  | send i ret =>
    rw [Ntyco.step] at hnone
    split at hnone
    · simp at hnone
    · split at hnone <;> simp at hnone
  | childDone e env => cases hnone

/-- Whatever the scheduler does, the connections see one sequential execution of their commands: each its own commands
in order and the replies to them, nothing else, and what has happened by some moment stays the beginning of what has
happened later. Only a handler that does not return can end the process: mp_realloc may have left it a write buffer that
is too short, or the engine's call has no result. -/
theorem connections_are_serialized (P : Params) (e : ℕ → Encoding) (cmds : ℕ → List (List CString))
    (hcmds : ∀ i, ∀ ts ∈ cmds i, Sendable ts) (htotal : ∀ i, ((e i).stream (cmds i)).length < 2 ^ 30)
    (g : Global) (Q : ℕ → Env → Prop) (evs later : List Event) (hevs : ∀ ev ∈ evs ++ later, ev.Within ∧ ev.Asks Q)
    (s s' : Ntyco)
    (hrun : run P evs (start g) = some s) (hlater : run P later s = some s') (hf : Fed e cmds s') :
    ∃ h more, Explained P e cmds g Q s h ∧ Explained P e cmds g Q s' (h ++ more) ∧
      ∀ ev, ev.Within →
        (∀ i chunk sys (co : Coroutine), ev = .recv i chunk sys → s'.conns[i]? = some co →
          co.received ++ chunk <+: (e i).stream (cmds i)) →
        s'.step P ev = none →
        ev = .attach false ∨ ∃ i sys env co ts rbuf total head, ev = .frame i sys env ∧ s'.conns[i]? = some co ∧
          (cmds i)[(commandsOf i (h ++ more)).length]? = some ts ∧
          kvsFilterProtocol P ts (co.cli.load rbuf total head) s'.state env = none := by
  have hmax : ∀ i, ∀ ts ∈ cmds i, ts.length ≤ maxTokens := fun i ts hts => (hcmds i ts hts).max
  obtain ⟨h, ht⟩ := (start_traced P e cmds g Q).run hrun (fun ev hev => hevs ev (List.mem_append_left _ hev))
    (run_fed hlater hf) hmax htotal
  rw [List.nil_append] at ht
  obtain ⟨more, ht'⟩ := ht.run hlater (fun ev hev => hevs ev (List.mem_append_right _ hev)) hf hmax htotal
  exact ⟨h, more, ht.explained, ht'.explained, fun ev hev hfed hnone => ht'.fails hev hfed hmax htotal hnone⟩

/-- The first client's command is cut and the second client's comes in between: it finds no key. -/
def crossing : List Event :=
  [.accept true, .accept true, .recv 0 (ascii "*3\r\n$3\r\nSET\r\n$1\r\nk") .granted, .frame 0 .granted .granted,
   .recv 1 (ascii "*2\r\n$3\r\nGET\r\n$1\r\nk\r\n") .granted, .frame 1 .granted .granted, .frame 1 .granted .granted]

def finishing : List Event :=
  [.send 1 3, .recv 0 (ascii "\r\n$1\r\nv\r\n") .granted, .frame 0 .granted .granted, .send 1 2, .frame 0 .granted .granted,
   .send 0 5]

def crossingCommands : ℕ → List (List CString)
  | 0 => [[.lit "SET", .lit "k", .lit "v"]]
  | 1 => [[.lit "GET", .lit "k"]]
  | _ => []

theorem crossing_fed {s : Ntyco} (hs : s.conns.map Coroutine.received =
      [Encoding.resp.stream (crossingCommands 0), Encoding.resp.stream (crossingCommands 1)]) :
    Fed (fun _ => .resp) crossingCommands s := by
  intro i co hget
  have hr := congrArg (fun l => l[i]?) hs
  simp only [List.getElem?_map, hget, Option.map_some] at hr
  match i with
  | 0 => exact Option.some.inj hr ▸ List.prefix_refl _
  | 1 => exact Option.some.inj hr ▸ List.prefix_refl _
  | n + 2 => simp at hr

theorem crossing_events : ∀ ev ∈ crossing ++ finishing, ev.Within ∧ ev.Asks (fun _ env => env = .granted) := by
  simp only [crossing, finishing, List.cons_append, List.nil_append, List.forall_mem_cons, Event.Within, Event.Asks,
    and_self, and_true, true_and]
  exact ⟨by decide +kernel, by decide +kernel, by decide +kernel, by simp⟩

theorem connections_are_serialized_example :
    ∃ s s', run .small crossing (start (.start .small)) = some s ∧ run .small finishing s = some s' ∧
      s'.conns.map Coroutine.sent = [ascii "+OK\r\n", ascii "$-1\r\n"] ∧
      ∃ h more, Explained .small (fun _ => .resp) crossingCommands (.start .small) (fun _ env => env = .granted) s h ∧
        Explained .small (fun _ => .resp) crossingCommands (.start .small) (fun _ env => env = .granted) s' (h ++ more) := by
  have heval : ((run .small crossing (start (.start .small))).bind (run .small finishing)).map
      (fun s => (s.conns.map Coroutine.sent, s.conns.map Coroutine.received)) =
      some ([ascii "+OK\r\n", ascii "$-1\r\n"],
        [Encoding.resp.stream (crossingCommands 0), Encoding.resp.stream (crossingCommands 1)]) := by
    decide +kernel
  obtain ⟨s', hs', hparts⟩ := Option.map_eq_some_iff.mp heval
  obtain ⟨s, hs, hs'⟩ := Option.bind_eq_some_iff.mp hs'
  obtain ⟨hsent, hreceived⟩ := Prod.mk.inj hparts
  obtain ⟨h, more, hexp, hexp', -⟩ := connections_are_serialized .small (fun _ => .resp) crossingCommands
    (by
      intro i ts hts
      match i with
      | 0 | 1 =>
        obtain rfl := List.mem_singleton.mp hts
        exact ⟨by decide, by decide, by decide +kernel⟩
      | n + 2 => simp [crossingCommands] at hts)
    (by
      intro i
      match i with
      | 0 | 1 => decide +kernel
      | n + 2 => exact Nat.two_pow_pos 30)
    (.start .small) (fun _ env => env = .granted) crossing finishing crossing_events
    s s' hs hs' (crossing_fed hreceived)
  exact ⟨s, s', hs, hs', hsent, h, more, hexp, hexp'⟩

end Ntyco

end Lidis
