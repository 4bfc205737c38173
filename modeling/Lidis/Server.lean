import Lidis.KvsFile

namespace Lidis

open Mempool (Grant)

def bufferSize : ℕ := 4 * 1024

def clientInfoInit : Client where
  rbuf := List.replicate (bufferSize + 1) 0
  rCap := bufferSize
  rPos := 0
  cmdTl := 0
  cmdHl := 0
  wbuf := List.replicate (bufferSize + 1) 0
  wCap := bufferSize
  wPos := 0
  role := 0
  protocol := .unknown

theorem clientInfoInit_writeOk : clientInfoInit.WriteOk :=
  ⟨⟨by decide, List.length_replicate.le, Nat.zero_le _, Nat.zero_le _⟩,
    (Nat.le_succ _).trans_eq List.length_replicate.symm⟩

/-- Why server_reader closes the connection. `handler` carries what the handler returned, `none` if it never did. -/
inductive Stop where
  | noMemory
  | undetected
  | noParser
  | protocol
  | handler (slen : Option ℤ)
  | send
  deriving DecidableEq

/-- What the system answers on one connection: the larger read buffer for each chunk, the larger write buffer for
the protocol error, what new memory holds, and what each call of send returns. -/
structure ServerEnv where
  grow : ℕ → Grant
  errGrow : Grant
  fresh : ℕ → UInt8
  send : ℕ → ℤ

/-- A connection with the state behind its handler, the bytes sent so far, and how many chunks, handler calls and
calls of send there were. -/
structure Conn (G : Type) where
  cli : Client
  state : G
  sent : Bytes
  chunks : ℕ
  calls : ℕ
  sends : ℕ

def Conn.accept {G : Type} (g : G) : Conn G := ⟨clientInfoInit, g, [], 0, 0, 0⟩

/-- The read buffer doubled when the chunk would fill it. The outer `none` is a signed overflow, the inner one a
failed allocation. -/
def growFor (cli : Client) (chunk : Bytes) (grant : Grant) (fresh : ℕ → UInt8) : Option (Option Client) :=
  if intMax < cli.rPos + chunk.length then none
  else if cli.rPos + chunk.length < cli.rCap then some (some cli)
  else if intMax < 2 * cli.rCap + 1 then none
  else some ((kvsRealloc fresh cli.rbuf (2 * cli.rCap + 1) grant).map fun rbuf =>
    { cli with rbuf := rbuf, rCap := cli.rCap * 2 })

def receive (cli : Client) (chunk : Bytes) : Option Client :=
  if cli.rPos + chunk.length ≤ cli.rbuf.length then
    some { cli with
      rbuf := cli.rbuf.take cli.rPos ++ (chunk ++ cli.rbuf.drop (cli.rPos + chunk.length)),
      rPos := cli.rPos + chunk.length }
  else none

def discard (cli : Client) (total : ℕ) : Option Client :=
  if cli.rPos - total = 0 then some { cli with rPos := 0 }
  else if cli.rPos ≤ cli.rbuf.length then
    some { cli with
      rbuf := (cli.rbuf.drop total).take (cli.rPos - total) ++ cli.rbuf.drop (cli.rPos - total),
      rPos := cli.rPos - total }
  else none

theorem growFor_cases {cli : Client} {chunk : Bytes} (grant : Grant) (fresh : ℕ → UInt8)
    (h : cli.rPos + chunk.length < 2 ^ 30) :
    (growFor cli chunk grant fresh = some none ∧ grant = .refused) ∨
      ∃ cli', growFor cli chunk grant fresh = some (some cli') := by
  have hmax : ¬ intMax < cli.rPos + chunk.length := by simp only [intMax]; omega
  rw [growFor, if_neg hmax]
  split_ifs with hroom hover
  · exact Or.inr ⟨_, rfl⟩
  · simp only [intMax] at hover
    omega
  · cases hb : kvsRealloc fresh cli.rbuf (2 * cli.rCap + 1) grant with
    | none => exact Or.inl ⟨rfl, kvsRealloc_refused hb⟩
    | some b => exact Or.inr ⟨_, rfl⟩

/-- A block of 4097 bytes or more is never doubled in place. -/
theorem growFor_spec {cli cli' : Client} {chunk : Bytes} {grant : Grant} {fresh : ℕ → UInt8}
    (h : growFor cli chunk grant fresh = some (some cli')) (hb : cli.rbuf.length = cli.rCap + 1)
    (hleast : bufferSize ≤ cli.rCap) :
    ∃ rbuf rCap, cli' = { cli with rbuf := rbuf, rCap := rCap } ∧ rbuf.length = rCap + 1 ∧ cli.rCap ≤ rCap ∧
      rbuf.take cli.rCap = cli.rbuf.take cli.rCap ∧
      rCap = if cli.rPos + chunk.length < cli.rCap then cli.rCap else cli.rCap * 2 := by
  rw [growFor] at h
  split_ifs at h with hover hroom hover'
  · obtain rfl := Option.some.inj (Option.some.inj h)
    exact ⟨cli.rbuf, cli.rCap, rfl, hb, le_rfl, rfl, by rw [if_pos hroom]⟩
  · obtain ⟨rbuf, hgrown, rfl⟩ := Option.map_eq_some_iff.mp (Option.some.inj h)
    obtain ⟨-, -, hfull, htake⟩ := kvsRealloc_spec hgrown (by omega) (by omega)
    have hlen : rbuf.length = 2 * cli.rCap + 1 :=
      hfull (.inr ⟨by simp only [Mempool.largeThreshold, bufferSize] at *; omega, by simp only [bufferSize] at *; omega⟩)
    exact ⟨_, _, rfl, by omega, by omega, htake _ (by omega), by rw [if_neg hroom]⟩

theorem receive_spec {cli : Client} {chunk : Bytes} (h : cli.rPos + chunk.length ≤ cli.rbuf.length) :
    ∃ rbuf, receive cli chunk = some { cli with rbuf := rbuf, rPos := cli.rPos + chunk.length } ∧
      rbuf.length = cli.rbuf.length ∧ rbuf.take (cli.rPos + chunk.length) = cli.rbuf.take cli.rPos ++ chunk := by
  have hlen : (cli.rbuf.take cli.rPos).length = cli.rPos := by rw [List.length_take]; omega
  refine ⟨_, if_pos h, ?_, ?_⟩
  · simp only [List.length_append, List.length_drop, hlen]
    omega
  · rw [← List.append_assoc, List.take_left' (by rw [List.length_append, hlen])]

theorem discard_spec {cli : Client} (total : ℕ) (h : cli.rPos ≤ cli.rbuf.length) :
    ∃ rbuf, discard cli total = some { cli with rbuf := rbuf, rPos := cli.rPos - total } ∧
      rbuf.length = cli.rbuf.length ∧
      rbuf.take (cli.rPos - total) = (cli.rbuf.drop total).take (cli.rPos - total) := by
  by_cases h0 : cli.rPos - total = 0
  · refine ⟨cli.rbuf, ?_, rfl, by simp [h0]⟩
    rw [discard, if_pos h0, h0]
  · have hlen : ((cli.rbuf.drop total).take (cli.rPos - total)).length = cli.rPos - total := by
      rw [List.length_take, List.length_drop]
      omega
    refine ⟨(cli.rbuf.drop total).take (cli.rPos - total) ++ cli.rbuf.drop (cli.rPos - total), ?_, ?_, List.take_left' hlen⟩
    · rw [discard, if_neg h0, if_pos h]
    · rw [List.length_append, hlen, List.length_drop]
      omega

def Client.load (cli : Client) (rbuf : Bytes) (total head : ℕ) : Client :=
  { cli with rbuf := rbuf, cmdTl := total, cmdHl := head }

section

variable {G : Type}

def finishFrame (total : ℕ) (temp : UInt8) (c : Conn G) : Option (ℤ × Client × G) → Option (Conn G × Option Stop)
  | none => some (c, some (.handler none))
  | some (slen, cli, g) => do
    let rbuf ← poke cli.rbuf total temp
    if slen < 0 then
      some ({ c with cli := { cli with rbuf := rbuf }, state := g, calls := c.calls + 1 }, some (.handler (some slen)))
    else do
      let cli ← discard { cli with rbuf := rbuf, wPos := cli.wPos + slen.toNat } total
      some ({ c with cli := cli, state := g, calls := c.calls + 1 }, none)

def handleFrame (handler : Handler G) (total head : ℕ) (c : Conn G) : Option (Conn G × Option Stop) := do
  let temp ← byteAt c.cli.rbuf total
  let rbuf ← poke c.cli.rbuf total 0
  finishFrame total temp c (handler c.calls (c.cli.load rbuf total head) c.state)

def errProto : Bytes := ascii "-ERR protocol error\r\n"

def errProtoLen : ℕ := 22

def growError (cli : Client) (env : ServerEnv) : Option (Option Client) :=
  if errProtoLen ≤ cli.wCap - cli.wPos then some (some cli)
  else if intMax < cli.wCap + (errProtoLen + 1) then none
  else some ((kvsRealloc env.fresh cli.wbuf (cli.wCap + (errProtoLen + 1)) env.errGrow).map fun wbuf =>
    { cli with wbuf := wbuf, wCap := cli.wCap + errProtoLen })

def protocolError (env : ServerEnv) (c : Conn G) : Option (Conn G × Option Stop) := do
  match ← growError c.cli env with
  | none => some (c, some .noMemory)
  | some cli => do
    let wbuf ← sprintf cli.wbuf cli.wPos errProto
    some ({ c with
      cli := { cli with wbuf := wbuf }, sent := c.sent ++ errProto.take (env.send c.sends).toNat,
      sends := c.sends + 1 }, some .protocol)

def serveLoop (handler : Handler G) (env : ServerEnv) : ℕ → Conn G → Option (Conn G × Option Stop)
  | 0, _ => none
  | n + 1, c =>
    if c.cli.rPos = 0 then some (c, none)
    else if c.cli.protocol = .unknown then some (c, some .noParser)
    else do
      match ← recvProtocol c.cli with
      | .more => some (c, none)
      | .error _ => protocolError env c
      | .frame total head => do
        match ← handleFrame handler total head c with
        | (c, some stop) => some (c, some stop)
        | (c, none) => serveLoop handler env n c

def sendLoop (send : ℕ → ℤ) : ℕ → ℕ → Bytes → Bytes × ℕ × Bool
  | 0, i, _ => ([], i, true)
  | n + 1, i, rest =>
    if rest = [] then ([], i, true)
    else if send i ≤ 0 then ([], i + 1, false)
    else
      let r := sendLoop send n (i + 1) (rest.drop (send i).toNat)
      (rest.take (send i).toNat ++ r.1, r.2)

def flush (env : ServerEnv) (c : Conn G) : Conn G × Option Stop :=
  if c.cli.role = 1 then ({ c with cli := { c.cli with wPos := 0 } }, none)
  else
    let r := sendLoop env.send c.cli.wPos c.sends (c.cli.wbuf.take c.cli.wPos)
    if r.2.2 then
      ({ c with cli := { c.cli with wPos := 0 }, sent := c.sent ++ r.1, sends := r.2.1 }, none)
    else ({ c with sent := c.sent ++ r.1, sends := r.2.1 }, some .send)

def serve (handler : Handler G) (env : ServerEnv) (c : Conn G) : Option (Conn G × Option Stop) := do
  match ← serveLoop handler env (c.cli.rPos + 1) c with
  | (c, some stop) => some (c, some stop)
  | (c, none) => some (flush env c)

def readChunk (handler : Handler G) (env : ServerEnv) (chunk : Bytes) (c : Conn G) :
    Option (Conn G × Option Stop) := do
  match ← growFor c.cli chunk (env.grow c.chunks) env.fresh with
  | none => some (c, some .noMemory)
  | some cli => do
    let cli ← receive cli chunk
    let c := { c with cli := cli, chunks := c.chunks + 1 }
    if cli.protocol = .unknown then
      let (cli, ret) := kvsDetectProtocol cli
      if ret < 0 then some ({ c with cli := cli }, some .undetected)
      else if 0 < ret then some ({ c with cli := cli }, none)
      else serve handler env { c with cli := cli }
    else serve handler env c

def serverReader (handler : Handler G) (env : ServerEnv) : List Bytes → Conn G → Option (Conn G × Option Stop)
  | [], c => some (c, none)
  | chunk :: chunks, c => do
    match ← readChunk handler env chunk c with
    | (c, some stop) => some (c, some stop)
    | (c, none) => serverReader handler env chunks c

theorem sendLoop_cases (send : ℕ → ℤ) (n i : ℕ) (rest : Bytes) (hn : rest.length ≤ n) :
    (∃ j, sendLoop send n i rest = (rest, j, true)) ∨ ((sendLoop send n i rest).2.2 = false ∧ ∃ j, send j ≤ 0) := by
  induction n generalizing i rest with
  | zero =>
    obtain rfl := List.eq_nil_of_length_eq_zero (Nat.le_zero.mp hn)
    exact Or.inl ⟨i, rfl⟩
  | succ n ih =>
    by_cases hr : rest = []
    · exact Or.inl ⟨i, by simp [sendLoop, hr]⟩
    by_cases hpos : send i ≤ 0
    · exact Or.inr ⟨by simp [sendLoop, hr, hpos], i, hpos⟩
    · have hlen := List.length_pos_of_ne_nil hr
      rcases ih (i + 1) (rest.drop (send i).toNat) (by rw [List.length_drop]; omega) with ⟨j, hj⟩ | ⟨hj, hex⟩
      · exact Or.inl ⟨j, by simp [sendLoop, hr, hpos, hj]⟩
      · exact Or.inr ⟨by simp [sendLoop, hr, hpos, hj], hex⟩

end

end Lidis
