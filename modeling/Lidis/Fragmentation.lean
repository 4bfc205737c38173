import Lidis.Encoding
import Lidis.Replay
import Lidis.Server

namespace Lidis

def effectAll (P : Params) (env : ℕ → Env) : ℕ → List (List CString) → Global → Option (Global × List Reply)
  | _, [], g => some (g, [])
  | i, ts :: tss, g => do
    let (g, reply) ← effect P ts g (env i)
    let (g, replies) ← effectAll P env (i + 1) tss g
    some (g, reply :: replies)

theorem effectAll_snoc {P : Params} {env : ℕ → Env} {tss : List (List CString)} {ts : List CString} {i : ℕ}
    {g g' g'' : Global} {replies : List Reply} {reply : Reply} (h : effectAll P env i tss g = some (g', replies))
    (he : effect P ts g' (env (i + tss.length)) = some (g'', reply)) :
    effectAll P env i (tss ++ [ts]) g = some (g'', replies ++ [reply]) := by
  induction tss generalizing i g replies with
  | nil =>
    obtain ⟨rfl, rfl⟩ := Prod.mk.inj (Option.some.inj h)
    simp only [List.length_nil, Nat.add_zero] at he
    simp [effectAll, he]
  | cons us tss ih =>
    simp only [effectAll] at h
    obtain ⟨⟨g1, r1⟩, h1, h⟩ := Option.bind_eq_some_iff.mp h
    obtain ⟨⟨g2, rs⟩, h2, h⟩ := Option.bind_eq_some_iff.mp h
    obtain ⟨rfl, rfl⟩ := Prod.mk.inj (Option.some.inj h)
    rw [List.length_cons, ← Nat.add_assoc, Nat.add_right_comm] at he
    simp [effectAll, h1, ih h2 he]

theorem effectAll_executed {P : Params} {env : ℕ → Env} {tss : List (List CString)} {i : ℕ} {g g' : Global}
    {replies : List Reply} (h : effectAll P env i tss g = some (g', replies)) :
    g'.executed = g.executed ++ tss ∧ replies.length = tss.length := by
  induction tss generalizing i g replies with
  | nil =>
    obtain ⟨rfl, rfl⟩ := Prod.mk.inj (Option.some.inj h)
    simp
  | cons ts tss ih =>
    simp only [effectAll] at h
    obtain ⟨⟨g1, r1⟩, h1, h⟩ := Option.bind_eq_some_iff.mp h
    obtain ⟨⟨g2, rs⟩, h2, h⟩ := Option.bind_eq_some_iff.mp h
    obtain ⟨rfl, rfl⟩ := Prod.mk.inj (Option.some.inj h)
    obtain ⟨hex, hlen⟩ := ih h2
    obtain ⟨token, args, g0, wrote, rfl, hrun, hlog⟩ := effect_cases h1
    refine ⟨?_, by simp [hlen]⟩
    rw [hex, logCommand_executed hlog, runCommand_executed hrun, List.append_assoc]
    rfl

structure Sendable (ts : List CString) : Prop where
  nonempty : 1 ≤ ts.length
  max : ts.length ≤ maxTokens
  not_sync : ∀ t ∈ ts.head?, commandOf t ≠ some .sync

section

variable {P : Params} {env : ℕ → Env} {e : Encoding} {g : Global} {rest : Bytes} {done todo : List (List CString)}
  {ts : List CString} {c : Conn Global}

/-- The buffers of a connection whose stream, from what the read buffer holds to the `rest` still to come, is `todo`. -/
structure Buffered (e : Encoding) (rest : Bytes) (todo : List (List CString)) (cli : Client) : Prop where
  block : cli.rbuf.length = cli.rCap + 1
  fits : cli.rPos < cli.rCap
  least : bufferSize ≤ cli.rCap
  bytes : cli.rbuf.take cli.rPos ++ rest = e.stream todo
  writable : cli.Fits

theorem Buffered.bytes_eq {cli : Client} (h : Buffered e rest todo cli) :
    cli.rbuf.take cli.rPos = (e.stream todo).take cli.rPos := by
  have hlen : (cli.rbuf.take cli.rPos).length = cli.rPos := by
    have := h.block
    have := h.fits
    rw [List.length_take]
    omega
  rw [← h.bytes, List.take_append_of_le_length hlen.ge, List.take_take, min_self]

theorem Buffered.flushed {cli : Client} (h : Buffered e rest todo cli) : Buffered e rest todo { cli with wPos := 0 } :=
  ⟨h.block, h.fits, h.least, h.bytes, h.writable.flushed⟩

theorem Buffered.length_eq {cli : Client} (h : Buffered e rest todo cli) :
    cli.rPos + rest.length = (e.stream todo).length := by
  have hb := h.block
  have hf := h.fits
  rw [← h.bytes, List.length_append, List.length_take]
  omega

theorem byteAt_cell (a b : Bytes) (x : UInt8) : byteAt (a ++ x :: b) (a.length : ℕ) = some x := by
  rw [byteAt, if_pos (Int.natCast_nonneg _), Int.toNat_natCast, List.getElem?_append_right le_rfl, Nat.sub_self]
  rfl

theorem Buffered.front {cli : Client} (h : Buffered e rest (ts :: todo) cli) (hfit : (e.frame ts).length ≤ cli.rPos) :
    ∃ temp junk, cli.rbuf = e.frame ts ++ temp :: junk := by
  have hb := h.block
  have hf := h.fits
  have htake : cli.rbuf.take (e.frame ts).length = e.frame ts := by
    have := congrArg (List.take (e.frame ts).length) h.bytes_eq
    rw [List.take_take, List.take_take, min_eq_left hfit, Encoding.stream_cons, List.take_left] at this
    exact this
  have hdrop : cli.rbuf.drop (e.frame ts).length ≠ [] :=
    List.ne_nil_of_length_pos (by rw [List.length_drop]; omega)
  obtain ⟨temp, junk, hj⟩ := List.exists_cons_of_ne_nil hdrop
  exact ⟨temp, junk, by rw [← hj, ← htake, List.length_take_of_le (by omega), List.take_append_drop]⟩

/-- `done` has been executed; what is left in the read buffer together with `rest` still to come is `todo`. -/
structure Serving (P : Params) (env : ℕ → Env) (e : Encoding) (g : Global) (rest : Bytes)
    (done todo : List (List CString)) (c : Conn Global) : Prop extends Buffered e rest todo c.cli where
  role : c.cli.role = 0
  calls : c.calls = done.length
  ran : ∃ replies, effectAll P env 0 done g = some (c.state, replies) ∧
    c.sent ++ c.cli.wbuf.take c.cli.wPos = replies.flatMap Reply.text

theorem poke_at {a : Bytes} {n : ℕ} (h : a.length = n) (b : Bytes) (x y : UInt8) :
    poke (a ++ x :: b) (n : ℕ) y = some (a ++ y :: b) := by
  rw [← h]
  exact Resp.poke_cell a b x y

theorem kvsProtocol_frame (P : Params) (g : Global) (env : Env) {cli : Client} (junk : Bytes)
    (hp : cli.protocol = e.protocol) (hmax : ts.length ≤ maxTokens) (hs : (e.frame ts).length ≤ intMax) :
    ∃ front : Bytes, front.length = (e.frame ts).length ∧
      kvsProtocol P (cli.load (e.frame ts ++ 0 :: junk) (e.frame ts).length (e.headLen ts)) g env =
        kvsFilterProtocol P ts (cli.load (front ++ 0 :: junk) (e.frame ts).length (e.headLen ts)) g env := by
  obtain ⟨mem, addresses, hsplit, hread, hdrop⟩ := kvsSplitToken_frame
    (show (cli.load (e.frame ts ++ 0 :: junk) (e.frame ts).length (e.headLen ts)).protocol = e.protocol from hp)
    rfl rfl rfl hmax hs
  have hmem : mem.take (e.frame ts).length ++ 0 :: junk = mem := by rw [← hdrop, List.take_append_drop]
  refine ⟨mem.take (e.frame ts).length, ?_, ?_⟩
  · have := congrArg List.length hdrop
    rw [List.length_drop, List.length_cons] at this
    rw [List.length_take]
    omega
  · rw [hmem]
    exact kvsProtocol_tokens hsplit hread

theorem finishFrame_done {G : Type} (c : Conn G) {cli : Client} (state : G) {n : ℕ} (slen : ℕ) {front junk : Bytes}
    (temp : UInt8) {nul : UInt8} (hb : cli.rbuf = front ++ nul :: junk) (hf : front.length = n)
    (hle : cli.rPos ≤ cli.rbuf.length) :
    ∃ rbuf, finishFrame n temp c (some ((slen : ℤ), cli, state)) = some ({ c with
        cli := { cli with rbuf := rbuf, rPos := cli.rPos - n, wPos := cli.wPos + slen },
        state := state, calls := c.calls + 1 }, none) ∧
      rbuf.length = cli.rbuf.length ∧ rbuf.take (cli.rPos - n) = (temp :: junk).take (cli.rPos - n) := by
  have hlen : (front ++ temp :: junk).length = cli.rbuf.length := by
    rw [hb, List.length_append, List.length_append]
    rfl
  have hle' : cli.rPos ≤ (front ++ temp :: junk).length := hlen ▸ hle
  let cli' : Client := { cli with rbuf := front ++ temp :: junk, wPos := cli.wPos + slen }
  obtain ⟨rbuf, hdis, hrlen, hrtake⟩ := discard_spec n (show cli'.rPos ≤ cli'.rbuf.length from hle')
  refine ⟨rbuf, ?_, hrlen.trans hlen, ?_⟩
  · simp only [finishFrame, hb, poke_at hf, bind, Option.bind, Int.toNat_natCast,
      if_neg (not_lt.mpr (Int.natCast_nonneg slen))]
    rw [hdis]
  · rw [hrtake]
    simp only [cli', ← hf, List.drop_left]

theorem Buffered.next {cli : Client} (h : Buffered e rest (ts :: todo) cli) (hfit : (e.frame ts).length ≤ cli.rPos)
    {rbuf : Bytes} (ht : rbuf.take (cli.rPos - (e.frame ts).length) =
      (cli.rbuf.drop (e.frame ts).length).take (cli.rPos - (e.frame ts).length)) :
    rbuf.take (cli.rPos - (e.frame ts).length) ++ rest = e.stream todo := by
  have hb := h.bytes
  have hblock := h.block
  have hf := h.fits
  have hsplit : cli.rbuf.take cli.rPos = (cli.rbuf.take cli.rPos).take (e.frame ts).length ++
      (cli.rbuf.drop (e.frame ts).length).take (cli.rPos - (e.frame ts).length) := by
    rw [← List.drop_take, List.take_append_drop]
  rw [hsplit, Encoding.stream_cons, List.append_assoc] at hb
  rw [ht]
  refine (List.append_inj hb ?_).2
  rw [List.length_take, List.length_take]
  omega

/-- The command `ts` at the front was executed and its reply stands behind what was to be sent. -/
structure FrameAnswered (P : Params) (env : Env) (e : Encoding) (rest : Bytes) (todo : List (List CString)) (ts : List CString)
    (c c' : Conn Global) (reply : Reply) : Prop where
  effect_eq : effect P ts c.state env = some (c'.state, reply)
  buffered : Buffered e rest todo c'.cli
  role : c'.cli.role = c.cli.role
  protocol : c'.cli.protocol = c.cli.protocol
  consumed : c'.cli.rPos + (e.frame ts).length = c.cli.rPos
  sent : c'.sent = c.sent
  calls : c'.calls = c.calls + 1
  pending : c'.cli.wbuf.take c'.cli.wPos = c.cli.wbuf.take c.cli.wPos ++ reply.text

/-- The handler returned a negative length: nothing more is sent, and the command was not executed or was executed whole. -/
structure FrameRefused (P : Params) (env : Env) (ts : List CString) (c c' : Conn Global) : Prop where
  effect_eq : c'.state = c.state ∨ ∃ reply, effect P ts c.state env = some (c'.state, reply)
  role : c'.cli.role = c.cli.role
  sent : c'.sent = c.sent

theorem handleFrame_buffered (h : Buffered e rest (ts :: todo) c.cli) (hp : c.cli.protocol = e.protocol)
    (hfit : (e.frame ts).length ≤ c.cli.rPos) (hmax : ts.length ≤ maxTokens) (hs : (e.frame ts).length ≤ intMax) :
    ∃ c' stop, handleFrame (protocolHandler P env) (e.frame ts).length (e.headLen ts) c = some (c', stop) ∧
      ((stop = some (.handler none) ∧
          ∃ rbuf total head, kvsFilterProtocol P ts (c.cli.load rbuf total head) c.state (env c.calls) = none) ∨
        (∃ slen < 0, stop = some (.handler (some slen)) ∧ FrameRefused P (env c.calls) ts c c') ∨
        (stop = none ∧ ∃ reply, FrameAnswered P (env c.calls) e rest todo ts c c' reply)) := by
  obtain ⟨temp, junk, hbuf⟩ := h.front hfit
  obtain ⟨front, hfront, hcall⟩ := kvsProtocol_frame P c.state (env c.calls) junk hp hmax hs
  have hstart : handleFrame (protocolHandler P env) (e.frame ts).length (e.headLen ts) c =
      finishFrame (e.frame ts).length temp c (kvsFilterProtocol P ts
        (c.cli.load (front ++ 0 :: junk) (e.frame ts).length (e.headLen ts)) c.state (env c.calls)) := by
    simp only [handleFrame, hbuf, byteAt_cell, poke_at rfl, bind, Option.bind, protocolHandler]
    rw [hcall]
  rw [hstart]
  have hw : (c.cli.load (front ++ 0 :: junk) (e.frame ts).length (e.headLen ts)).Fits := h.writable.congr rfl rfl rfl
  cases hf : kvsFilterProtocol P ts (c.cli.load (front ++ 0 :: junk) (e.frame ts).length (e.headLen ts)) c.state
      (env c.calls) with
  | none => exact ⟨_, _, rfl, Or.inl ⟨rfl, _, _, _, hf⟩⟩
  | some r =>
    obtain ⟨slen, cli', g'⟩ := r
    have hrbuf := filter_rbuf hf
    by_cases hneg : slen < 0
    · have hpoke : poke cli'.rbuf (e.frame ts).length temp = some (front ++ temp :: junk) := by
        rw [hrbuf]
        exact poke_at hfront junk 0 temp
      have hrole : cli'.role = c.cli.role := by
        obtain ⟨wbuf, wCap, rfl⟩ := filter_rewritten hf
        rfl
      refine ⟨{ c with cli := { cli' with rbuf := front ++ temp :: junk }, state := g', calls := c.calls + 1 },
        some (.handler (some slen)), ?_, Or.inr (Or.inl ⟨slen, hneg, rfl, filter_global hf, hrole, rfl⟩)⟩
      simp only [finishFrame, hpoke, bind, Option.bind, if_pos hneg]
    · obtain ⟨reply, heff, rfl, hext, -⟩ := filter_returns hw hf (not_lt.mp hneg)
      obtain ⟨wbuf, wCap, rfl⟩ := hext.same
      have hblock := h.block
      have hfits := h.fits
      have hblen : (front ++ 0 :: junk).length = c.cli.rbuf.length := by
        rw [hbuf, List.length_append, List.length_append, hfront]
        rfl
      obtain ⟨rbuf, hdone, hrlen, hrtake⟩ := finishFrame_done c g' reply.text.length temp hrbuf hfront
        (by simp only [Client.load, hblen]; omega)
      refine ⟨_, none, hdone, Or.inr (Or.inr ⟨rfl, reply, heff, ⟨?_, ?_, h.least, ?_, ?_⟩, rfl, rfl, ?_, rfl, rfl, ?_⟩)⟩
      · exact hrlen.trans (hblen.trans hblock)
      · simp only [Client.load]
        omega
      · refine h.next hfit (hrtake.trans ?_)
        rw [hbuf, List.drop_left]
        rfl
      · exact ⟨hext.fits.cap_pos, hext.fits.le_cap, hext.room, hext.held⟩
      · simp only [Client.load]
        omega
      · exact hext.kept.trans (by simp [Client.load])

theorem handleFrame_serves (h : Serving P env e g rest done (ts :: todo) c) (hp : c.cli.protocol = e.protocol)
    (hfit : (e.frame ts).length ≤ c.cli.rPos) (hmax : ts.length ≤ maxTokens) (hs : (e.frame ts).length ≤ intMax) :
    ∃ c' stop, handleFrame (protocolHandler P env) (e.frame ts).length (e.headLen ts) c = some (c', stop) ∧
      ((∃ slen, stop = some (.handler slen) ∧ ∀ n, slen = some n → n < 0) ∨
        (stop = none ∧ Serving P env e g rest (done ++ [ts]) todo c' ∧
        c'.cli.protocol = e.protocol ∧ c'.cli.rPos + (e.frame ts).length = c.cli.rPos)) := by
  obtain ⟨c', stop, hframe, hres⟩ := handleFrame_buffered h.toBuffered hp hfit hmax hs
  refine ⟨c', stop, hframe, ?_⟩
  rcases hres with ⟨rfl, -⟩ | ⟨slen, hneg, rfl, -⟩ | ⟨rfl, reply, ha⟩
  · exact Or.inl ⟨_, rfl, nofun⟩
  · exact Or.inl ⟨_, rfl, fun n hn => Option.some.inj hn ▸ hneg⟩
  · obtain ⟨replies, hall, htext⟩ := h.ran
    refine Or.inr ⟨rfl, ⟨ha.buffered, ha.role.trans h.role, ?_, replies ++ [reply], ?_, ?_⟩, ha.protocol.trans hp,
      ha.consumed⟩
    · rw [ha.calls, h.calls, List.length_append, List.length_singleton]
    · refine effectAll_snoc hall ?_
      rw [Nat.zero_add, ← h.calls]
      exact ha.effect_eq
    · rw [List.flatMap_append, ← htext, ha.sent, ha.pending, List.append_assoc]
      simp

def Waiting (P : Params) (env : ℕ → Env) (e : Encoding) (g : Global) (rest : Bytes) (tss : List (List CString))
    (c : Conn Global) : Prop :=
  ∃ done todo, tss = done ++ todo ∧ Serving P env e g rest done todo c ∧ ∀ ts ∈ todo.head?, c.cli.rPos < (e.frame ts).length

def Stop.Excused (senv : ServerEnv) : Stop → Prop
  | .handler slen => ∀ n, slen = some n → n < 0
  | .noMemory => ∃ i, senv.grow i = .refused
  | .send => ∃ i, senv.send i ≤ 0
  | _ => False

theorem Waiting.finished {tss : List (List CString)} (h : Waiting P env e g [] tss c) :
    Serving P env e g [] tss [] c := by
  obtain ⟨done, todo, rfl, hs, hw⟩ := h
  cases todo with
  | nil =>
    rw [List.append_nil]
    exact hs
  | cons ts todo =>
    have hlen := hs.length_eq
    have hlt := hw ts rfl
    rw [Encoding.stream_cons, List.length_append, List.length_nil] at hlen
    omega

theorem serveLoop_serves (senv : ServerEnv) {tss : List (List CString)} (hmax : ∀ ts ∈ tss, ts.length ≤ maxTokens)
    (hs : (e.stream tss).length ≤ intMax) (n : ℕ) (hn : c.cli.rPos < n) (heq : tss = done ++ todo)
    (h : Serving P env e g rest done todo c) (hp : c.cli.protocol = e.protocol) :
    ∃ c' stop, serveLoop (protocolHandler P env) senv n c = some (c', stop) ∧
      ((∃ slen, stop = some (.handler slen) ∧ ∀ n, slen = some n → n < 0) ∨
        (stop = none ∧ Waiting P env e g rest tss c' ∧ c'.cli.protocol = e.protocol)) := by
  induction n generalizing c done todo with
  | zero => exact absurd hn (Nat.not_lt_zero _)
  | succ n ih =>
    by_cases h0 : c.cli.rPos = 0
    · refine ⟨c, none, by rw [serveLoop, if_pos h0], Or.inr ⟨rfl, ⟨done, todo, heq, h, ?_⟩, hp⟩⟩
      intro ts _
      rw [h0]
      exact e.frame_pos ts
    · cases todo with
      | nil =>
        have hlen := h.length_eq
        simp only [Encoding.stream_nil, List.length_nil] at hlen
        omega
      | cons ts todo =>
        have hmem : ts ∈ tss := heq ▸ List.mem_append_right _ List.mem_cons_self
        have hlen : (e.frame ts).length ≤ intMax := by
          rw [heq] at hs
          simp only [Encoding.stream, List.flatMap_append, List.flatMap_cons, List.length_append] at hs
          omega
        have hrecv := recvProtocol_frame hp (by rw [h.bytes_eq, Encoding.stream_cons]) (Nat.pos_of_ne_zero h0) hlen
        have hknown : ¬ c.cli.protocol = .unknown := by
          rw [hp]
          exact e.protocol_ne_unknown
        by_cases hfit : (e.frame ts).length ≤ c.cli.rPos
        · obtain ⟨c', stop, hframe, hres⟩ := handleFrame_serves h hp hfit (hmax ts hmem) hlen
          simp only [serveLoop, if_neg h0, if_neg hknown, hrecv, if_pos hfit, hframe, bind, Option.bind]
          rcases hres with ⟨slen, rfl, hneg⟩ | ⟨rfl, hserv, hp', hpos⟩
          · exact ⟨c', _, rfl, Or.inl ⟨slen, rfl, hneg⟩⟩
          · have := e.frame_pos ts
            exact ih (by omega) (by rw [heq, List.append_assoc]; rfl) hserv hp'
        · simp only [serveLoop, if_neg h0, if_neg hknown, hrecv, if_neg hfit, bind, Option.bind]
          refine ⟨c, none, rfl, Or.inr ⟨rfl, ⟨done, ts :: todo, heq, h, ?_⟩, hp⟩⟩
          intro us hus
          obtain rfl := Option.some.inj hus
          omega

theorem serve_serves (senv : ServerEnv) {tss : List (List CString)} (hmax : ∀ ts ∈ tss, ts.length ≤ maxTokens)
    (hs : (e.stream tss).length ≤ intMax) (heq : tss = done ++ todo) (h : Serving P env e g rest done todo c)
    (hp : c.cli.protocol = e.protocol) :
    ∃ c' stop, serve (protocolHandler P env) senv c = some (c', stop) ∧
      ((∃ s, stop = some s ∧ s.Excused senv) ∨
        (stop = none ∧ Waiting P env e g rest tss c' ∧ c'.cli.protocol = e.protocol ∧ c'.cli.wPos = 0)) := by
  obtain ⟨c1, stop, hloop, hres⟩ := serveLoop_serves senv hmax hs _ (Nat.lt_succ_self _) heq h hp
  simp only [serve, hloop, bind, Option.bind]
  rcases hres with ⟨slen, rfl, hneg⟩ | ⟨rfl, ⟨done', todo', heq', hserv, hwait⟩, hp'⟩
  · exact ⟨c1, _, rfl, Or.inl ⟨_, rfl, hneg⟩⟩
  · dsimp only
    rw [flush, if_neg (by rw [hserv.role]; decide)]
    have hlen : (c1.cli.wbuf.take c1.cli.wPos).length ≤ c1.cli.wPos := by
      rw [List.length_take]
      exact min_le_left _ _
    rcases sendLoop_cases senv.send c1.cli.wPos c1.sends _ hlen with ⟨j, hj⟩ | ⟨hj, hex⟩
    · rw [hj]
      refine ⟨_, none, rfl, Or.inr ⟨rfl, ⟨done', todo', heq', ?_, hwait⟩, hp', rfl⟩⟩
      obtain ⟨replies, hall, htext⟩ := hserv.ran
      exact ⟨hserv.toBuffered.flushed, hserv.role, hserv.calls, replies, hall, by simpa using htext⟩
    · simp only [hj, Bool.false_eq_true, ↓reduceIte]
      exact ⟨_, _, rfl, Or.inl ⟨_, rfl, hex⟩⟩

def Known (e : Encoding) (cli : Client) : Prop := cli.protocol = e.protocol ∨ (cli.protocol = .unknown ∧ cli.rPos = 0)

theorem Buffered.grown {cli cli' : Client} {chunk : Bytes} {grant : Mempool.Grant} {fresh : ℕ → UInt8}
    (h : Buffered e (chunk ++ rest) todo cli) (hc : chunk.length ≤ bufferSize)
    (hg : growFor cli chunk grant fresh = some (some cli')) :
    ∃ rbuf rCap, receive cli' chunk = some { cli with rbuf := rbuf, rCap := rCap, rPos := cli.rPos + chunk.length } ∧
      Buffered e rest todo { cli with rbuf := rbuf, rCap := rCap, rPos := cli.rPos + chunk.length } := by
  have hfits := h.fits
  have hleast := h.least
  obtain ⟨rbuf, rCap, rfl, hblock, hle, htake, hcap⟩ := growFor_spec hg h.block h.least
  have hroom : cli.rPos + chunk.length < rCap := by
    rw [hcap]
    split_ifs <;> omega
  have hin : cli.rPos + chunk.length ≤ rbuf.length := by
    rw [hblock]
    omega
  let grown : Client := { cli with rbuf := rbuf, rCap := rCap }
  obtain ⟨rbuf', hrecv, hlen', htake'⟩ := receive_spec (show grown.rPos + chunk.length ≤ grown.rbuf.length from hin)
  refine ⟨rbuf', rCap, hrecv, hlen'.trans hblock, hroom, hleast.trans hle, ?_, h.writable.congr rfl rfl rfl⟩
  have hprev : rbuf.take cli.rPos = cli.rbuf.take cli.rPos := by
    have := congrArg (List.take cli.rPos) htake
    rwa [List.take_take, List.take_take, min_eq_left hfits.le] at this
  have hb := h.bytes
  rw [← List.append_assoc, ← hprev] at hb
  rw [← hb]
  exact congrArg (· ++ rest) htake'

theorem Serving.grown {senv : ServerEnv} {chunk : Bytes} {cli : Client} {n : ℕ}
    (h : Serving P env e g (chunk ++ rest) done todo c)
    (hc : chunk.length ≤ bufferSize) (hg : growFor c.cli chunk (senv.grow n) senv.fresh = some (some cli)) :
    ∃ rbuf, receive cli chunk = some { cli with rbuf := rbuf, rPos := cli.rPos + chunk.length } ∧
      Serving P env e g rest done todo { c with
        cli := { cli with rbuf := rbuf, rPos := cli.rPos + chunk.length }, chunks := c.chunks + 1 } ∧
      cli.protocol = c.cli.protocol := by
  obtain ⟨_, rCap, rfl, -⟩ := growFor_spec hg h.block h.least
  obtain ⟨rbuf, rCap', hrecv, hb⟩ := h.toBuffered.grown hc hg
  have hcap : rCap = rCap' := by
    rw [receive] at hrecv
    split_ifs at hrecv
    exact congrArg Client.rCap (Option.some.inj hrecv)
  subst hcap
  exact ⟨rbuf, hrecv, ⟨hb, h.role, h.calls, h.ran⟩, rfl⟩

theorem Buffered.mark {cli : Client} (h : Buffered e rest todo cli) (h0 : 0 < cli.rPos) : cli.rbuf[0]? = some e.mark := by
  have hlen := h.length_eq
  cases todo with
  | nil =>
    simp only [Encoding.stream_nil, List.length_nil] at hlen
    omega
  | cons ts todo =>
    obtain ⟨tail, htail⟩ := e.frame_eq_cons ts
    have hb := congrArg (fun l => l[0]?) h.bytes_eq
    simpa [List.getElem?_take, h0, htail] using hb

theorem readChunk_serves (senv : ServerEnv) {tss : List (List CString)} {chunk : Bytes}
    (hmax : ∀ ts ∈ tss, ts.length ≤ maxTokens)
    (hs : (e.stream tss).length < 2 ^ 30) (hc : 0 < chunk.length) (hc' : chunk.length ≤ bufferSize)
    (heq : tss = done ++ todo) (h : Serving P env e g (chunk ++ rest) done todo c) (hk : Known e c.cli) :
    ∃ c' stop, readChunk (protocolHandler P env) senv chunk c = some (c', stop) ∧
      ((∃ s, stop = some s ∧ s.Excused senv) ∨
        (stop = none ∧ Waiting P env e g rest tss c' ∧ Known e c'.cli ∧ c'.cli.wPos = 0)) := by
  have hroom : c.cli.rPos + chunk.length < 2 ^ 30 := by
    have hlen := h.length_eq
    rw [heq] at hs
    simp only [Encoding.stream, List.flatMap_append, List.length_append] at hs hlen
    omega
  have hint : (e.stream tss).length ≤ intMax := by simp only [intMax]; omega
  rcases growFor_cases (senv.grow c.chunks) senv.fresh hroom with ⟨hnone, hno⟩ | ⟨cli, hgrow⟩
  · refine ⟨c, some .noMemory, ?_, Or.inl ⟨_, rfl, c.chunks, hno⟩⟩
    simp only [readChunk, hnone, bind, Option.bind]
  · obtain ⟨rbuf, hrecv, hserv, hprot⟩ := h.grown hc' hgrow
    have hpos : 0 < cli.rPos + chunk.length := by omega
    have hdone : ∀ c1 : Conn Global, Serving P env e g rest done todo c1 → c1.cli.protocol = e.protocol →
        ∃ c' stop, serve (protocolHandler P env) senv c1 = some (c', stop) ∧
          ((∃ s, stop = some s ∧ s.Excused senv) ∨
            (stop = none ∧ Waiting P env e g rest tss c' ∧ Known e c'.cli ∧ c'.cli.wPos = 0)) := by
      intro c1 h1 hp1
      obtain ⟨c', stop, hserve, hres⟩ := serve_serves senv hmax hint heq h1 hp1
      exact ⟨c', stop, hserve, hres.imp_right (fun hr => ⟨hr.1, hr.2.1, Or.inl hr.2.2.1, hr.2.2.2⟩)⟩
    by_cases hunk : cli.protocol = .unknown
    · have hdetect := kvsDetectProtocol_mark hpos (hserv.toBuffered.mark hpos)
      simp only [readChunk, hgrow, hrecv, bind, Option.bind, if_pos hunk]
      rw [hdetect]
      exact hdone _ ⟨⟨hserv.block, hserv.fits, hserv.least, hserv.bytes, hserv.writable.congr rfl rfl rfl⟩, hserv.role,
        hserv.calls, hserv.ran⟩ rfl
    · simp only [readChunk, hgrow, hrecv, bind, Option.bind, if_neg hunk]
      refine hdone _ hserv (hprot.trans (hk.resolve_right ?_))
      rintro ⟨hu, -⟩
      exact hunk (hprot.trans hu)

theorem serverReader_serves (senv : ServerEnv) {tss : List (List CString)} (hmax : ∀ ts ∈ tss, ts.length ≤ maxTokens)
    (hs : (e.stream tss).length < 2 ^ 30) (cs : List Bytes) (hc : ∀ x ∈ cs, 0 < x.length ∧ x.length ≤ bufferSize)
    (h : Waiting P env e g (cs.flatten ++ rest) tss c) (hk : Known e c.cli) (hw : c.cli.wPos = 0) :
    ∃ c' stop, serverReader (protocolHandler P env) senv cs c = some (c', stop) ∧
      ((∃ s, stop = some s ∧ s.Excused senv) ∨
        (stop = none ∧ Waiting P env e g rest tss c' ∧ c'.cli.wPos = 0)) := by
  induction cs generalizing c with
  | nil => exact ⟨c, none, rfl, Or.inr ⟨rfl, h, hw⟩⟩
  | cons chunk cs ih =>
    obtain ⟨done, todo, heq, hserv, -⟩ := h
    obtain ⟨hpos, hle⟩ := hc chunk List.mem_cons_self
    rw [List.flatten_cons, List.append_assoc] at hserv
    obtain ⟨c1, stop, hread, hres⟩ := readChunk_serves senv hmax hs hpos hle heq hserv hk
    simp only [serverReader, hread, bind, Option.bind]
    rcases hres with ⟨s, rfl, hex⟩ | ⟨rfl, hwait, hk1, hw1⟩
    · exact ⟨c1, _, rfl, Or.inl ⟨s, rfl, hex⟩⟩
    · exact ih (fun x hx => hc x (List.mem_cons_of_mem chunk hx)) hwait hk1 hw1

theorem accept_waiting (P : Params) (env : ℕ → Env) (e : Encoding) (g : Global) (tss : List (List CString)) :
    Waiting P env e g (e.stream tss) tss (.accept g) := by
  exact ⟨[], tss, rfl, ⟨⟨List.length_replicate, show 0 < bufferSize by decide, le_rfl, rfl, clientInfoInit_writeOk.toFits⟩,
    rfl, rfl, [], rfl,
    rfl⟩, fun ts _ => e.frame_pos ts⟩

def ServerEnv.granted : ServerEnv := ⟨fun _ => .whole, .whole, fun _ => 0, fun _ => 3⟩

end

end Lidis
