import Lidis.Replies
import Mathlib.Logic.Relation

namespace Lidis

open Relation

section Loop

variable {G : Type}

/-- One round of the loop of server_reader that handles a command and goes on. -/
def Continues (handler : Handler G) (c c' : Conn G) : Prop :=
  c.cli.rPos ≠ 0 ∧ c.cli.protocol ≠ .unknown ∧
    ∃ total head, recvProtocol c.cli = some (.frame total head) ∧ handleFrame handler total head c = some (c', none)

/-- The rounds that close the connection. -/
inductive Exits (handler : Handler G) (env : ServerEnv) (c : Conn G) : Conn G → Option Stop → Prop where
  | noParser (h0 : c.cli.rPos ≠ 0) (hu : c.cli.protocol = .unknown) : Exits handler env c c (some .noParser)
  | error {e : ℤ} {c' : Conn G} {stop : Option Stop} (h0 : c.cli.rPos ≠ 0) (hk : c.cli.protocol ≠ .unknown)
    (hr : recvProtocol c.cli = some (.error e)) (hp : protocolError env c = some (c', stop)) : Exits handler env c c' stop
  | handler {total head : ℕ} {c' : Conn G} {stop : Stop} (h0 : c.cli.rPos ≠ 0) (hk : c.cli.protocol ≠ .unknown)
    (hr : recvProtocol c.cli = some (.frame total head)) (hf : handleFrame handler total head c = some (c', some stop)) :
    Exits handler env c c' (some stop)

variable {handler : Handler G} {env : ServerEnv} {c c' : Conn G} {stop : Option Stop}

theorem Continues.unique {c₁ c₂ : Conn G} (h₁ : Continues handler c c₁) (h₂ : Continues handler c c₂) : c₁ = c₂ := by
  obtain ⟨-, -, total, head, hr, hf⟩ := h₁
  obtain ⟨-, -, total', head', hr', hf'⟩ := h₂
  obtain ⟨rfl, rfl⟩ := BulkSize.frame.inj (Option.some.inj (hr.symm.trans hr'))
  exact (Prod.mk.inj (Option.some.inj (hf.symm.trans hf'))).1

theorem Exits.stuck (h : Exits handler env c c' stop) (c₁ : Conn G) : ¬ Continues handler c c₁ := by
  rintro ⟨-, hk, total, head, hr, hf⟩
  cases h with
  | noParser _ hu => exact hk hu
  | error _ _ hr' _ => simp [hr] at hr'
  | handler _ _ hr' hf' =>
    obtain ⟨rfl, rfl⟩ := BulkSize.frame.inj (Option.some.inj (hr.symm.trans hr'))
    simp [hf] at hf'

theorem protocolError_stop {env : ServerEnv} {c c' : Conn G} {stop : Option Stop}
    (h : protocolError env c = some (c', stop)) :
    stop ≠ none ∧ c'.state = c.state ∧ ∃ k, c'.sent = c.sent ++ errProto.take k := by
  obtain ⟨o, -, h⟩ := Option.bind_eq_some_iff.mp h
  cases o with
  | none =>
    obtain ⟨rfl, rfl⟩ := Prod.mk.inj (Option.some.inj h)
    exact ⟨by simp, rfl, 0, by simp⟩
  | some cli =>
    obtain ⟨wbuf, -, h⟩ := Option.bind_eq_some_iff.mp h
    obtain ⟨rfl, rfl⟩ := Prod.mk.inj (Option.some.inj h)
    exact ⟨by simp, rfl, _, rfl⟩

theorem Exits.stop_ne (h : Exits handler env c c' stop) : stop ≠ none := by
  cases h with
  | noParser => simp
  | error _ _ _ hp => exact (protocolError_stop hp).1
  | handler => simp

theorem exit_unique {c₁ c₂ : Conn G} (h₁ : ReflTransGen (Continues handler) c c₁)
    (h₂ : ReflTransGen (Continues handler) c c₂) (hs₁ : ∀ d, ¬ Continues handler c₁ d) (hs₂ : ∀ d, ¬ Continues handler c₂ d) :
    c₁ = c₂ := by
  have hstay : ∀ {a b : Conn G}, ReflTransGen (Continues handler) a b → (∀ d, ¬ Continues handler a d) → a = b := by
    intro a b hab ha
    rcases hab.cases_head with rfl | ⟨d, hd, -⟩
    · rfl
    · exact absurd hd (ha d)
  have hunique : Relator.RightUnique (Continues handler) := fun _ _ _ => Continues.unique
  rcases ReflTransGen.total_of_right_unique hunique h₁ h₂ with h | h
  · exact hstay h hs₁
  · exact (hstay h hs₂).symm

theorem serveLoop_cases {n : ℕ} (h : serveLoop handler env n c = some (c', stop)) :
    ∃ c₁, ReflTransGen (Continues handler) c c₁ ∧
      (Exits handler env c₁ c' stop ∨
        (stop = none ∧ c' = c₁ ∧ (∀ d, ¬ Continues handler c₁ d) ∧ ∀ d s, ¬ Exits handler env c₁ d s)) := by
  induction n generalizing c with
  | zero => simp [serveLoop] at h
  | succ n ih =>
    rw [serveLoop] at h
    split_ifs at h with h0 hu
    · obtain ⟨rfl, rfl⟩ := Prod.mk.inj (Option.some.inj h)
      refine ⟨c, .refl, Or.inr ⟨rfl, rfl, fun d hd => hd.1 h0, fun d s hd => ?_⟩⟩
      cases hd <;> contradiction
    · obtain ⟨rfl, rfl⟩ := Prod.mk.inj (Option.some.inj h)
      exact ⟨c, .refl, Or.inl (.noParser h0 hu)⟩
    obtain ⟨size, hr, h⟩ := Option.bind_eq_some_iff.mp h
    cases size with
    | more =>
      obtain ⟨rfl, rfl⟩ := Prod.mk.inj (Option.some.inj h)
      refine ⟨c, .refl, Or.inr ⟨rfl, rfl, ?_, fun d s hd => ?_⟩⟩
      · rintro d ⟨-, -, total, head, hr', -⟩
        simp [hr] at hr'
      · cases hd with
        | noParser _ hu' => exact hu hu'
        | error _ _ hr' _ => simp [hr] at hr'
        | handler _ _ hr' _ => simp [hr] at hr'
    | error e => exact ⟨c, .refl, Or.inl (.error h0 hu hr h)⟩
    | frame total head =>
      obtain ⟨⟨c₁, s⟩, hf, h⟩ := Option.bind_eq_some_iff.mp h
      cases s with
      | none =>
        obtain ⟨c₂, hsteps, hres⟩ := ih h
        exact ⟨c₂, .head ⟨h0, hu, total, head, hr, hf⟩ hsteps, hres⟩
      | some s =>
        obtain ⟨rfl, rfl⟩ := Prod.mk.inj (Option.some.inj h)
        exact ⟨c, .refl, Or.inl (.handler h0 hu hr hf)⟩

/-- The chunk has been received and the frames in the read buffer are going to be handled. -/
def Arrives (env : ServerEnv) (chunk : Bytes) (c c₁ : Conn G) : Prop :=
  ∃ cli cli', growFor c.cli chunk (env.grow c.chunks) env.fresh = some (some cli) ∧ receive cli chunk = some cli' ∧
    ((cli'.protocol ≠ .unknown ∧ c₁ = { c with cli := cli', chunks := c.chunks + 1 }) ∨
      (cli'.protocol = .unknown ∧ (kvsDetectProtocol cli').2 = 0 ∧
        c₁ = { c with cli := (kvsDetectProtocol cli').1, chunks := c.chunks + 1 }))

/-- Where the bytes at the front of the read buffer close the connection, no reply waits in the write buffer. -/
def NonePendingIn (handler : Handler G) (env : ServerEnv) (chunk : Bytes) (c : Conn G) : Prop :=
  ∀ c₁ c₂ c' stop, Arrives env chunk c c₁ → ReflTransGen (Continues handler) c₁ c₂ → Exits handler env c₂ c' stop →
    c₂.cli.wPos = 0

def NonePending (handler : Handler G) (env : ServerEnv) : List Bytes → Conn G → Prop
  | [], _ => True
  | chunk :: chunks, c => NonePendingIn handler env chunk c ∧
      ∀ c', readChunk handler env chunk c = some (c', none) → NonePending handler env chunks c'

theorem serve_cases (h : serve handler env c = some (c', stop)) :
    ∃ c₁, ReflTransGen (Continues handler) c c₁ ∧
      (Exits handler env c₁ c' stop ∨
        (flush env c₁ = (c', stop) ∧ (∀ d, ¬ Continues handler c₁ d) ∧ ∀ d s, ¬ Exits handler env c₁ d s)) := by
  rw [serve] at h
  obtain ⟨⟨c₂, s⟩, hloop, h⟩ := Option.bind_eq_some_iff.mp h
  obtain ⟨c₁, hsteps, hx | ⟨rfl, rfl, hstuck, hno⟩⟩ := serveLoop_cases hloop
  · cases s with
    | none => exact absurd rfl hx.stop_ne
    | some s =>
      obtain ⟨rfl, rfl⟩ := Prod.mk.inj (Option.some.inj h)
      exact ⟨c₁, hsteps, Or.inl hx⟩
  · exact ⟨c₂, hsteps, Or.inr ⟨Option.some.inj h, hstuck, hno⟩⟩

theorem Arrives.unique {chunk : Bytes} {c₁ c₂ : Conn G} (h₁ : Arrives env chunk c c₁) (h₂ : Arrives env chunk c c₂) :
    c₁ = c₂ := by
  obtain ⟨cli, cli', hg, hr, h₁⟩ := h₁
  obtain ⟨_, _, hg', hr', h₂⟩ := h₂
  obtain rfl := Option.some.inj (Option.some.inj (hg.symm.trans hg'))
  obtain rfl := Option.some.inj (hr.symm.trans hr')
  rcases h₁ with ⟨hk, rfl⟩ | ⟨hu, -, rfl⟩ <;> rcases h₂ with ⟨hk', rfl⟩ | ⟨hu', -, rfl⟩
  · rfl
  · exact absurd hu' hk
  · exact absurd hu hk'
  · rfl

theorem kvsDetectProtocol_client (cli : Client) :
    ∃ protocol, (kvsDetectProtocol cli).1 = { cli with protocol := protocol } := by
  rw [kvsDetectProtocol]
  split_ifs
  · exact ⟨cli.protocol, rfl⟩
  · exact ⟨.resp, rfl⟩
  · exact ⟨.kvsp, rfl⟩
  · exact ⟨cli.protocol, rfl⟩

theorem received_client {cli cli₁ cli₂ : Client} {chunk : Bytes} {grant : Mempool.Grant} {fresh : ℕ → UInt8}
    (hg : growFor cli chunk grant fresh = some (some cli₁)) (hr : receive cli₁ chunk = some cli₂) :
    ∃ rbuf rCap rPos, cli₂ = { cli with rbuf := rbuf, rCap := rCap, rPos := rPos } := by
  have hgrown : ∃ rbuf rCap, cli₁ = { cli with rbuf := rbuf, rCap := rCap } := by
    rw [growFor] at hg
    split_ifs at hg
    · exact ⟨cli.rbuf, cli.rCap, (Option.some.inj (Option.some.inj hg)).symm⟩
    · obtain ⟨rbuf, -, he⟩ := Option.map_eq_some_iff.mp (Option.some.inj hg)
      exact ⟨_, _, he.symm⟩
  obtain ⟨rbuf, rCap, rfl⟩ := hgrown
  rw [receive] at hr
  split_ifs at hr
  exact ⟨_, _, _, (Option.some.inj hr).symm⟩

/-- What a chunk does before any frame is handled touches the read side only. -/
def ReadSide (c c₁ : Conn G) : Prop :=
  ∃ rbuf rCap rPos protocol chunks,
    c₁ = { c with cli := { c.cli with rbuf := rbuf, rCap := rCap, rPos := rPos, protocol := protocol }, chunks := chunks }

theorem Arrives.readSide {chunk : Bytes} {c₁ : Conn G} (h : Arrives env chunk c c₁) : ReadSide c c₁ := by
  obtain ⟨cli, cli', hg, hr, h⟩ := h
  obtain ⟨rbuf, rCap, rPos, rfl⟩ := received_client hg hr
  rcases h with ⟨-, rfl⟩ | ⟨-, -, rfl⟩
  · exact ⟨rbuf, rCap, rPos, c.cli.protocol, _, rfl⟩
  · obtain ⟨protocol, hp⟩ := kvsDetectProtocol_client { c.cli with rbuf := rbuf, rCap := rCap, rPos := rPos }
    exact ⟨rbuf, rCap, rPos, protocol, _, by rw [hp]⟩

theorem undetected_not_arrives {chunk : Bytes} {cli cli' : Client} (hr : receive cli chunk = some cli')
    (hg : growFor c.cli chunk (env.grow c.chunks) env.fresh = some (some cli)) (hu : cli'.protocol = .unknown)
    (hne : (kvsDetectProtocol cli').2 ≠ 0) :
    (∀ c₁, ¬ Arrives env chunk c c₁) ∧
      ReadSide c { c with cli := (kvsDetectProtocol cli').1, chunks := c.chunks + 1 } := by
  constructor
  · rintro c₁ ⟨_, _, hg', hr', h⟩
    obtain rfl := Option.some.inj (Option.some.inj (hg.symm.trans hg'))
    obtain rfl := Option.some.inj (hr.symm.trans hr')
    rcases h with ⟨hk, -⟩ | ⟨-, h0, -⟩
    · exact hk hu
    · exact hne h0
  · obtain ⟨rbuf, rCap, rPos, rfl⟩ := received_client hg hr
    obtain ⟨protocol, hp⟩ := kvsDetectProtocol_client { c.cli with rbuf := rbuf, rCap := rCap, rPos := rPos }
    exact ⟨rbuf, rCap, rPos, protocol, _, by rw [hp]⟩

theorem readChunk_cases {chunk : Bytes} (h : readChunk handler env chunk c = some (c', stop)) :
    (∃ c₁, Arrives env chunk c c₁ ∧ serve handler env c₁ = some (c', stop)) ∨
      ((∀ c₁, ¬ Arrives env chunk c c₁) ∧ ReadSide c c') := by
  rw [readChunk] at h
  obtain ⟨o, hg, h⟩ := Option.bind_eq_some_iff.mp h
  cases o with
  | none =>
    obtain ⟨rfl, -⟩ := Prod.mk.inj (Option.some.inj h)
    refine Or.inr ⟨?_, c.cli.rbuf, c.cli.rCap, c.cli.rPos, c.cli.protocol, c.chunks, rfl⟩
    rintro c₁ ⟨cli, cli', hg', -⟩
    simp [hg] at hg'
  | some cli =>
    obtain ⟨cli', hr, h⟩ := Option.bind_eq_some_iff.mp h
    dsimp only at h
    split_ifs at h with hu hneg hpos
    · obtain ⟨rfl, -⟩ := Prod.mk.inj (Option.some.inj h)
      exact Or.inr (undetected_not_arrives hr hg hu hneg.ne)
    · obtain ⟨rfl, -⟩ := Prod.mk.inj (Option.some.inj h)
      exact Or.inr (undetected_not_arrives hr hg hu hpos.ne')
    · exact Or.inl ⟨_, ⟨cli, cli', hg, hr, Or.inr ⟨hu, by omega, rfl⟩⟩, h⟩
    · exact Or.inl ⟨_, ⟨cli, cli', hg, hr, Or.inl ⟨hu, rfl⟩⟩, h⟩

/-- The handler is undefined, refuses the frame, or answers it and the frame leaves the buffer. -/
theorem handleFrame_cases {total head : ℕ} (h : handleFrame handler total head c = some (c', stop)) :
    ∃ rbuf, (handler c.calls (c.cli.load rbuf total head) c.state = none ∧ c' = c ∧ stop = some (.handler none)) ∨
      ∃ slen cli g rbuf', handler c.calls (c.cli.load rbuf total head) c.state = some (slen, cli, g) ∧
        (slen < 0 ∧ stop = some (.handler (some slen)) ∧
            c' = { c with cli := { cli with rbuf := rbuf' }, state := g, calls := c.calls + 1 } ∨
          0 ≤ slen ∧ stop = none ∧
            ∃ cli', discard { cli with rbuf := rbuf', wPos := cli.wPos + slen.toNat } total = some cli' ∧
              c' = { c with cli := cli', state := g, calls := c.calls + 1 }) := by
  rw [handleFrame] at h
  obtain ⟨temp, -, h⟩ := Option.bind_eq_some_iff.mp h
  obtain ⟨rbuf, -, h⟩ := Option.bind_eq_some_iff.mp h
  refine ⟨rbuf, ?_⟩
  cases hcall : handler c.calls (c.cli.load rbuf total head) c.state with
  | none =>
    rw [hcall, finishFrame] at h
    obtain ⟨rfl, rfl⟩ := Prod.mk.inj (Option.some.inj h)
    exact Or.inl ⟨rfl, rfl, rfl⟩
  | some r =>
    obtain ⟨slen, cli, g⟩ := r
    rw [hcall, finishFrame] at h
    obtain ⟨rbuf', -, h⟩ := Option.bind_eq_some_iff.mp h
    refine Or.inr ⟨slen, cli, g, rbuf', rfl, ?_⟩
    split_ifs at h with hneg
    · obtain ⟨rfl, rfl⟩ := Prod.mk.inj (Option.some.inj h)
      exact Or.inl ⟨hneg, rfl, rfl⟩
    · obtain ⟨cli', hdis, h⟩ := Option.bind_eq_some_iff.mp h
      obtain ⟨rfl, rfl⟩ := Prod.mk.inj (Option.some.inj h)
      exact Or.inr ⟨not_lt.mp hneg, rfl, cli', hdis, rfl⟩

end Loop

theorem kvsProtocol_cases {P : Params} {cli cli' : Client} {g g' : Global} {env : Env} {ret : ℤ}
    (h : kvsProtocol P cli g env = some (ret, cli', g')) :
    (ret = -1 ∧ cli' = cli ∧ g' = g) ∨
      ∃ rbuf tokens, kvsFilterProtocol P tokens { cli with rbuf := rbuf } g env = some (ret, cli', g') := by
  rw [kvsProtocol] at h
  obtain ⟨o, -, h⟩ := Option.bind_eq_some_iff.mp h
  cases o with
  | none =>
    obtain ⟨rfl, rfl, rfl⟩ := by simpa using h
    exact Or.inl ⟨rfl, rfl, rfl⟩
  | some r =>
    obtain ⟨tokens, -, h⟩ := Option.bind_eq_some_iff.mp h
    exact Or.inr ⟨r.1, tokens, h⟩

theorem discard_write {cli cli' : Client} {total : ℕ} (h : discard cli total = some cli') :
    ∃ rbuf rPos, cli' = { cli with rbuf := rbuf, rPos := rPos } := by
  rw [discard] at h
  split_ifs at h
  · exact ⟨cli.rbuf, 0, (Option.some.inj h).symm⟩
  · exact ⟨_, _, (Option.some.inj h).symm⟩

section Owing

variable {P : Params} {env : ℕ → Env} {senv : ServerEnv} {g : Global} {answered pending : List Reply} {c c' : Conn Global}

/-- Every command executed so far was answered: the first replies have been sent, the others wait in wbuf. -/
structure Owing (P : Params) (env : ℕ → Env) (g : Global) (answered pending : List Reply) (c : Conn Global) : Prop where
  role : c.cli.role = 0
  writable : c.cli.Fits
  ran : ∃ cmds, c.calls = cmds.length ∧ effectAll P env 0 cmds g = some (c.state, answered ++ pending)
  sent : c.sent = replyBytes answered
  waits : c.cli.wbuf.take c.cli.wPos = replyBytes pending

theorem Owing.wPos_eq (h : Owing P env g answered pending c) : c.cli.wPos = (replyBytes pending).length := by
  rw [← h.waits, List.length_take, min_eq_left h.writable.written]

theorem Owing.congr (h : Owing P env g answered pending c) {rbuf : Bytes} {rCap rPos tl hl chunks : ℕ} {protocol : Protocol} :
    Owing P env g answered pending { c with
      cli := { c.cli with rbuf := rbuf, rCap := rCap, rPos := rPos, cmdTl := tl, cmdHl := hl, protocol := protocol },
      chunks := chunks } :=
  ⟨h.role, h.writable.congr rfl rfl rfl, h.ran, h.sent, h.waits⟩

/-- A frame that was answered: its tokens were executed and the reply stands behind the others in wbuf. -/
theorem handleFrame_answered {total head : ℕ} (hw : c.cli.Fits)
    (hf : handleFrame (protocolHandler P env) total head c = some (c', none)) :
    ∃ tokens reply, effect P tokens c.state (env c.calls) = some (c'.state, reply) ∧ c'.calls = c.calls + 1 ∧
      c'.sent = c.sent ∧ c'.cli.role = c.cli.role ∧ c'.cli.Fits ∧ c.cli.wCap ≤ c'.cli.wCap ∧
      c'.cli.wbuf.take c'.cli.wPos = c.cli.wbuf.take c.cli.wPos ++ reply.text := by
  obtain ⟨rbuf, ⟨-, -, hstop⟩ | ⟨slen, cli, g', rbuf', hcall, ⟨-, hstop, -⟩ | ⟨hpos, -, cli', hdis, rfl⟩⟩⟩ :=
    handleFrame_cases hf
  · cases hstop
  · cases hstop
  · rcases kvsProtocol_cases hcall with ⟨rfl, -, -⟩ | ⟨mem, tokens, hfilter⟩
    · exact absurd hpos (by decide)
    have hload : Client.Fits { c.cli.load rbuf total head with rbuf := mem } := hw.congr rfl rfl rfl
    obtain ⟨reply, heff, rfl, hext, -⟩ := filter_returns hload hfilter hpos
    have hgrown := hext.grown
    obtain ⟨wbuf, wCap, rfl⟩ := hext.same
    obtain ⟨hw', hbytes⟩ := hext.advance
    obtain ⟨rb, rp, rfl⟩ := discard_write hdis
    exact ⟨tokens, reply, heff, rfl, rfl, rfl, hw'.congr rfl rfl rfl, hgrown, hbytes⟩

theorem handleFrame_owing {total head : ℕ} (h : Owing P env g answered pending c)
    (hf : handleFrame (protocolHandler P env) total head c = some (c', none)) :
    ∃ reply, Owing P env g answered (pending ++ [reply]) c' := by
  obtain ⟨tokens, reply, heff, hcalls', hsent, hrole, hw, -, hbytes⟩ := handleFrame_answered h.writable hf
  obtain ⟨cmds, hcalls, hall⟩ := h.ran
  refine ⟨reply, hrole.trans h.role, hw, ⟨cmds ++ [tokens], by simp [hcalls', hcalls], ?_⟩, hsent.trans h.sent, ?_⟩
  · rw [← List.append_assoc]
    apply effectAll_snoc hall
    rw [Nat.zero_add, ← hcalls]
    exact heff
  · rw [hbytes, h.waits]
    simp only [replyBytes, List.map_append, List.flatten_append, List.map_cons, List.map_nil, List.flatten_cons,
      List.flatten_nil, List.append_nil]

theorem handleFrame_stopped {total head : ℕ} {stop : Stop}
    (hf : handleFrame (protocolHandler P env) total head c = some (c', some stop)) :
    c'.sent = c.sent ∧ ∃ last, c'.state.executed = c.state.executed ++ last ∧ last.length ≤ 1 ∧
      (last ≠ [] → ∃ slen, stop = .handler (some slen) ∧ slen < 0) := by
  obtain ⟨rbuf, ⟨-, rfl, -⟩ | ⟨slen, cli, g', rbuf', hcall, ⟨hneg, hstop, rfl⟩ | ⟨-, hstop, -⟩⟩⟩ := handleFrame_cases hf
  · exact ⟨rfl, [], (List.append_nil _).symm, by simp, by simp⟩
  · obtain rfl := Option.some.inj hstop
    refine ⟨rfl, ?_⟩
    rcases kvsProtocol_cases hcall with ⟨rfl, -, rfl⟩ | ⟨mem, tokens, hfilter⟩
    · exact ⟨[], (List.append_nil _).symm, by simp, by simp⟩
    · rcases filter_executed hfilter with ⟨he, -⟩ | he
      · exact ⟨[], by rw [List.append_nil]; exact he, by simp, by simp⟩
      · exact ⟨[tokens], he, by simp, fun _ => ⟨slen, rfl, hneg⟩⟩
  · cases hstop

theorem Owing.flush (h : Owing P env g answered pending c) (hsend : ∀ i, 0 < senv.send i) :
    ∃ c', flush senv c = (c', none) ∧ Owing P env g (answered ++ pending) [] c' := by
  have hlen : (c.cli.wbuf.take c.cli.wPos).length ≤ c.cli.wPos := by
    rw [List.length_take]
    exact min_le_left _ _
  rcases sendLoop_cases senv.send c.cli.wPos c.sends _ hlen with ⟨j, hj⟩ | ⟨-, i, hi⟩
  · rw [Lidis.flush, if_neg (by rw [h.role]; decide), hj]
    refine ⟨_, rfl, h.role, h.writable.flushed, ?_, ?_, rfl⟩
    · rw [List.append_nil]
      exact h.ran
    · simp only [h.sent, h.waits, replyBytes, List.map_append, List.flatten_append]
  · exact absurd (hsend i) (not_lt.mpr hi)

theorem Owing.continues (h : Owing P env g answered pending c)
    (hsteps : ReflTransGen (Continues (protocolHandler P env)) c c') :
    ∃ more, Owing P env g answered (pending ++ more) c' := by
  induction hsteps with
  | refl => exact ⟨[], by rwa [List.append_nil]⟩
  | tail _ hstep ih =>
    obtain ⟨more, hm⟩ := ih
    obtain ⟨-, -, total, head, -, hf⟩ := hstep
    obtain ⟨reply, hr⟩ := handleFrame_owing hm hf
    exact ⟨more ++ [reply], by rwa [← List.append_assoc]⟩

end Owing

theorem text_not_prefix {reply : Reply} (h : reply.text <+: errProto) : reply.text = [] := by
  cases reply with
  | silent l => rfl
  | value v =>
    obtain ⟨t, ht⟩ := h
    have hhead := congrArg List.head? ht
    simp [Reply.text, ascii, errProto] at hhead
  | none token =>
    have hfront : ascii "-ERR no such command '" <+: errProto := (List.prefix_append _ _).trans h
    exact absurd hfront (by decide +kernel)
  | _ => exact absurd h (by decide +kernel)

theorem replyBytes_not_prefix {pending : List Reply} (h : replyBytes pending <+: errProto) : replyBytes pending = [] := by
  induction pending with
  | nil => rfl
  | cons reply pending ih =>
    rw [replyBytes_cons] at h ⊢
    have hnil := text_not_prefix ((List.prefix_append _ _).trans h)
    rw [hnil, List.nil_append] at h ⊢
    exact ih h

/-- The replies are those of the commands executed, a last one aside that the handler rejected. -/
def Executed (P : Params) (env : ℕ → Env) (g : Global) (replies : List Reply) (c : Conn Global) (stop : Option Stop) : Prop :=
  ∃ cmds g₁ last, effectAll P env 0 cmds g = some (g₁, replies) ∧
    c.state.executed = g.executed ++ (cmds ++ last) ∧ last.length ≤ 1 ∧
    (last ≠ [] → ∃ slen, stop = some (.handler (some slen)) ∧ slen < 0)

section Run

variable {P : Params} {env : ℕ → Env} {senv : ServerEnv} {g : Global} {answered pending : List Reply} {c c' : Conn Global}
  {stop : Option Stop}

theorem Owing.executed (h : Owing P env g answered [] c) (stop : Option Stop) : Executed P env g answered c stop := by
  obtain ⟨cmds, -, hall⟩ := h.ran
  rw [List.append_nil] at hall
  refine ⟨cmds, c.state, [], hall, ?_, by simp, by simp⟩
  rw [List.append_nil]
  exact (effectAll_executed hall).1

theorem Exits.effect (hx : Exits (protocolHandler P env) senv c c' stop) :
    (∃ k, c'.sent = c.sent ++ errProto.take k) ∧
      ∃ last, c'.state.executed = c.state.executed ++ last ∧ last.length ≤ 1 ∧
        (last ≠ [] → ∃ slen, stop = some (.handler (some slen)) ∧ slen < 0) := by
  cases hx with
  | noParser => exact ⟨⟨0, by simp⟩, [], by simp, by simp, by simp⟩
  | error _ _ _ hp =>
    obtain ⟨-, hstate, k, hk⟩ := protocolError_stop hp
    exact ⟨⟨k, hk⟩, [], by simp [hstate], by simp, by simp⟩
  | handler _ _ _ hf =>
    obtain ⟨hsent, last, hex, hlen, hlast⟩ := handleFrame_stopped hf
    refine ⟨⟨0, by simp [hsent]⟩, last, hex, hlen, fun hne => ?_⟩
    obtain ⟨slen, rfl, hneg⟩ := hlast hne
    exact ⟨slen, rfl, hneg⟩

theorem Owing.exits (h : Owing P env g answered pending c) (hx : Exits (protocolHandler P env) senv c c' stop) :
    Executed P env g (answered ++ pending) c' stop ∧ (replyBytes (answered ++ pending) <+: c'.sent ↔ c.cli.wPos = 0) := by
  obtain ⟨⟨k, hk⟩, last, hex, hlen, hlast⟩ := hx.effect
  constructor
  · obtain ⟨cmds, -, hall⟩ := h.ran
    refine ⟨cmds, c.state, last, hall, ?_, hlen, hlast⟩
    rw [hex, (effectAll_executed hall).1, List.append_assoc]
  · have hsplit : replyBytes (answered ++ pending) = c.sent ++ replyBytes pending := by
      rw [h.sent]
      simp only [replyBytes, List.map_append, List.flatten_append]
    rw [hsplit, hk, List.prefix_append_right_inj, h.wPos_eq, List.length_eq_zero_iff]
    constructor
    · intro hp
      exact replyBytes_not_prefix (hp.trans (List.take_prefix k errProto))
    · intro hnil
      rw [hnil]
      exact List.nil_prefix

theorem Owing.readSide (h : Owing P env g answered pending c) (hr : ReadSide c c') : Owing P env g answered pending c' := by
  obtain ⟨rbuf, rCap, rPos, protocol, chunks, rfl⟩ := hr
  exact h.congr

theorem readChunk_owing {chunk : Bytes} (hsend : ∀ i, 0 < senv.send i) (h : Owing P env g answered [] c)
    (hread : readChunk (protocolHandler P env) senv chunk c = some (c', stop)) :
    (∃ replies, stop ≠ none ∧ Executed P env g replies c' stop ∧
      (replyBytes replies <+: c'.sent ↔ NonePendingIn (protocolHandler P env) senv chunk c)) ∨
    ∃ more, Owing P env g more [] c' ∧ NonePendingIn (protocolHandler P env) senv chunk c := by
  rcases readChunk_cases hread with ⟨c₁, harr, hserve⟩ | ⟨hno, hside⟩
  · obtain ⟨c₂, hsteps, hx | ⟨hflush, hstuck, hnone⟩⟩ := serve_cases hserve
    · obtain ⟨more, hm⟩ := (h.readSide harr.readSide).continues hsteps
      obtain ⟨hex, hiff⟩ := hm.exits hx
      refine Or.inl ⟨_, hx.stop_ne, hex, hiff.trans ?_⟩
      constructor
      · intro h0 c₁' d e s harr' hd hx'
        obtain rfl := harr.unique harr'
        rw [exit_unique hd hsteps hx'.stuck hx.stuck]
        exact h0
      · intro hall
        exact hall c₁ c₂ c' stop harr hsteps hx
    · obtain ⟨more, hm⟩ := (h.readSide harr.readSide).continues hsteps
      obtain ⟨c₃, hc₃, howing⟩ := hm.flush hsend
      obtain ⟨rfl, rfl⟩ := Prod.mk.inj (hflush.symm.trans hc₃)
      refine Or.inr ⟨_, howing, ?_⟩
      intro c₁' d e s harr' hd hx'
      obtain rfl := harr.unique harr'
      obtain rfl := exit_unique hd hsteps hx'.stuck hstuck
      exact absurd hx' (hnone e s)
  · refine Or.inr ⟨answered, h.readSide hside, ?_⟩
    intro c₁ d e s harr
    exact absurd harr (hno c₁)

theorem Owing.sent_all (h : Owing P env g answered [] c) : replyBytes answered <+: c.sent := by
  rw [h.sent]

theorem serverReader_owing (hsend : ∀ i, 0 < senv.send i) {chunks : List Bytes} (h : Owing P env g answered [] c)
    (hrun : serverReader (protocolHandler P env) senv chunks c = some (c', stop)) :
    ∃ replies, Executed P env g replies c' stop ∧
      (replyBytes replies <+: c'.sent ↔ NonePending (protocolHandler P env) senv chunks c) := by
  induction chunks generalizing c answered with
  | nil =>
    obtain ⟨rfl, rfl⟩ := Prod.mk.inj (Option.some.inj hrun)
    exact ⟨answered, h.executed none, iff_of_true h.sent_all trivial⟩
  | cons chunk chunks ih =>
    rw [serverReader] at hrun
    obtain ⟨⟨c₁, s⟩, hread, hrun⟩ := Option.bind_eq_some_iff.mp hrun
    have hchunk := readChunk_owing hsend h hread
    cases s with
    | some s =>
      obtain ⟨rfl, rfl⟩ := Prod.mk.inj (Option.some.inj hrun)
      have hlast : NonePending (protocolHandler P env) senv (chunk :: chunks) c ↔
          NonePendingIn (protocolHandler P env) senv chunk c := by
        apply and_iff_left
        intro d hd
        simp [hread] at hd
      rw [hlast]
      rcases hchunk with ⟨replies, -, hex, hiff⟩ | ⟨more, howing, hnone⟩
      · exact ⟨replies, hex, hiff⟩
      · exact ⟨more, howing.executed (some s), iff_of_true howing.sent_all hnone⟩
    | none =>
      rcases hchunk with ⟨replies, hstop, -, -⟩ | ⟨more, howing, hnone⟩
      · exact absurd rfl hstop
      obtain ⟨replies, hex, hiff⟩ := ih howing hrun
      refine ⟨replies, hex, hiff.trans ?_⟩
      constructor
      · intro hrest
        refine ⟨hnone, fun d hd => ?_⟩
        obtain ⟨rfl, -⟩ := Prod.mk.inj (Option.some.inj (hread.symm.trans hd))
        exact hrest
      · rintro ⟨-, hrest⟩
        exact hrest c₁ hread

end Run

/-- What was sent when the connection closes begins with the reply of every command executed, just where no reply was
waiting for the chunk to end. -/
theorem replies_sent_before_close_iff (P : Params) (env : ℕ → Env) (senv : ServerEnv) (hsend : ∀ i, 0 < senv.send i)
    (chunks : List Bytes) (g : Global) (c : Conn Global) (stop : Option Stop)
    (h : serverReader (protocolHandler P env) senv chunks (.accept g) = some (c, stop)) :
    ∃ replies, Executed P env g replies c stop ∧
      (replyBytes replies <+: c.sent ↔ NonePending (protocolHandler P env) senv chunks (.accept g)) := by
  have hstart : Owing P env g [] [] (.accept g) := ⟨rfl, clientInfoInit_writeOk.toFits, ⟨[], rfl, rfl⟩, rfl, rfl⟩
  exact serverReader_owing hsend hstart h

def ServerEnv.sending : ServerEnv := ⟨fun _ => .whole, .whole, fun _ => 0, fun _ => 64⟩

def setFrame : Bytes := ascii "*3\r\n$3\r\nSET\r\n$1\r\nk\r\n$1\r\nv\r\n"

theorem replies_sent_before_close_iff_example :
    ∃ c stop, serverReader (protocolHandler .small (fun _ => .granted)) .sending [setFrame, ascii "?"]
        (.accept (.start .small)) = some (c, stop) ∧
      ∃ replies, Executed .small (fun _ => .granted) (.start .small) replies c stop ∧
        (replyBytes replies <+: c.sent ↔ NonePending (protocolHandler .small (fun _ => .granted)) .sending
          [setFrame, ascii "?"] (.accept (.start .small))) := by
  have hsome : (serverReader (protocolHandler .small (fun _ => .granted)) .sending [setFrame, ascii "?"]
      (.accept (.start .small))).isSome = true := by decide +kernel
  obtain ⟨⟨c, stop⟩, hrun⟩ := Option.isSome_iff_exists.mp hsome
  exact ⟨c, stop, hrun, replies_sent_before_close_iff .small _ .sending (fun _ => (by decide : (0 : ℤ) < 64)) _ _ c stop hrun⟩

/-- The same bytes in one chunk and in two: the +OK of the command executed is lost in the first. -/
theorem reply_lost_with_bad_bytes :
    (serverReader (protocolHandler .small (fun _ => .granted)) .sending [setFrame ++ ascii "?"]
        (.accept (.start .small))).map (fun r => (r.1.sent, r.2, r.1.state.executed)) =
      some (errProto, some .protocol, [[.lit "SET", .lit "k", .lit "v"]]) ∧
    (serverReader (protocolHandler .small (fun _ => .granted)) .sending [setFrame, ascii "?"]
        (.accept (.start .small))).map (fun r => (r.1.sent, r.2, r.1.state.executed)) =
      some (ascii "+OK\r\n" ++ errProto, some .protocol, [[.lit "SET", .lit "k", .lit "v"]]) := by
  constructor <;> decide +kernel

end Lidis
