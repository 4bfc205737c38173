import Lidis.AgentCache

namespace Lidis.Agent

theorem parse_agrees {w : Bytes} {r : BulkSize} (h : Kvsp.kvspParseBulkSize w = r)
    (hr : r = .more ∨ ∃ total head, r = .frame total head ∧ total ≤ intMax) : kvspParseBulkSize w = some r := by
  have herr : ∀ code, r ≠ .error code := by
    rintro code rfl
    simp at hr
  cases w with
  | nil => exact absurd h.symm (herr _)
  | cons c rest =>
    rw [kvspParseBulkSize]
    simp only [Kvsp.kvspParseBulkSize] at h
    split_ifs at h with hc
    · exact absurd h.symm (herr _)
    rw [if_neg hc]
    rcases hscan : scanDigits intMax 0 rest with _ | ⟨bodyLen, tail⟩
    · rw [hscan] at h
      exact absurd h.symm (herr _)
    obtain ⟨ds, rfl, -⟩ := scanDigits_some hscan (by decide) (Nat.zero_le _)
    simp only [hscan] at h
    dsimp only
    split_ifs at h with h1 h2 h3 h4 h5 h6
    · rw [if_pos h1, if_pos h2, h]
    · exact absurd h.symm (herr _)
    · rw [if_neg h1, if_pos h3, h]
    · exact absurd h.symm (herr _)
    · exact absurd h.symm (herr _)
    -- the head and the body are within INT_MAX, so nothing wraps around
    all_goals
      have hlen : (c :: (ds ++ tail)).length = ds.length + tail.length + 1 := by simp
      have hsum : bodyLen + ((c :: (ds ++ tail)).length - tail.length + 2) ≤ intMax := by
        rcases hr with hr | ⟨total, head, hr, ht⟩ <;> rw [hr] at h <;> simp at h
        omega
      have hroom : ¬ (intMax + 2 ^ 64 - ((c :: (ds ++ tail)).length - tail.length + 2)) % 2 ^ 64 < bodyLen := by
        simp only [intMax] at *
        omega
      rw [if_neg h1, if_neg h3, if_neg h4, if_neg hroom, toInt_of_le hsum]
    · rw [if_pos (by omega), h]
    · rw [if_neg (by omega), toInt_of_le (by omega), if_neg (by omega), Int.toNat_natCast, Int.toNat_natCast, h]

theorem parse_whole (f : Kvsp.Frame) (rest : Bytes) :
    kvspParseBulkSize (f.bytes ++ rest) = some (.frame f.bytes.length f.head.bytes.length) :=
  parse_agrees (f.parse rest) (Or.inr ⟨_, _, rfl, f.bytes_length ▸ f.fits⟩)

theorem parse_part (f : Kvsp.Frame) {p q : Bytes} (hpq : p ++ q = f.bytes) (hp : p ≠ []) (hq : q ≠ []) :
    kvspParseBulkSize p = some .more := parse_agrees (f.parse_cut hpq hp hq) (Or.inl rfl)

/-- The agent looks at the first item and at the end of the body. -/
theorem parseCommand_item (x : Kvsp.Item) (hx : x.content.length ≤ intMax) (front more rest : Bytes) (alloc : Bool) :
    kvsAgentParseCommand (front ++ (x.bytes ++ (more ++ crlf) ++ rest)) front.length
      (front.length + (x.bytes ++ (more ++ crlf)).length) alloc = if alloc then some (.prefixOf x.content) else none := by
  have hbody : front.length + (x.bytes ++ (more ++ crlf)).length - front.length = (x.bytes ++ more).length + 2 := by
    rw [Nat.add_sub_cancel_left, ← List.append_assoc, List.length_append]
    rfl
  have hdrop : (front ++ (x.bytes ++ (more ++ crlf) ++ rest)).drop front.length = (x.bytes ++ more) ++ (crlf ++ rest) := by
    rw [List.drop_left]
    simp
  have hend : (front ++ (x.bytes ++ (more ++ crlf) ++ rest)).drop (front.length + (x.bytes ++ more).length) =
      crlf ++ rest := by
    rw [← List.drop_drop, hdrop, List.drop_left]
  have hmem : x.bytes ++ more = 94 :: (x.digits ++ 38 :: (x.content ++ more)) := by
    simp [Kvsp.Item.bytes]
  have htext : (((x.bytes ++ more) ++ (crlf ++ rest)).take (x.bytes ++ more).length).drop 1 =
      x.digits ++ 38 :: (x.content ++ more) := by
    rw [List.take_left, hmem]
    rfl
  have hdig : (38 :: (x.content ++ more)).length ≠ (x.digits ++ 38 :: (x.content ++ more)).length := by
    simp [x.digits_ne_nil]
  simp only [kvsAgentParseCommand, hbody, Nat.add_sub_cancel, hend, hdrop, htext]
  rw [if_neg (by omega), if_neg (by simp [crlf]), hmem]
  simp only [List.cons_append, x.scan more hx, hdig, ↓reduceIte]
  rw [if_neg (by simp), if_neg (by simp), if_neg (by simp), List.take_left]
  cases alloc <;> rfl

theorem parse_command (f : Kvsp.Frame) (rest : Bytes) :
    kvsAgentParseCommand (f.bytes ++ rest) f.head.bytes.length f.bytes.length true = some f.command := by
  have hbody : f.body = f.first.bytes ++ (f.others.flatMap Kvsp.Item.bytes ++ crlf) := by
    rw [Kvsp.Frame.body, List.flatMap_cons, List.append_assoc]
  have hcommand := parseCommand_item f.first f.first_le f.head.bytes (f.others.flatMap Kvsp.Item.bytes) rest true
  rw [← hbody, ← List.append_assoc, ← Kvsp.Frame.bytes, ← List.length_append, ← Kvsp.Frame.bytes] at hcommand
  exact hcommand

theorem sendAll_zero {results : List SendResult} {buf out : Bytes} (h : sendAll results buf = some (out, 0)) :
    out = buf := by
  induction results generalizing buf out with
  | nil =>
    cases buf with
    | nil => simpa [sendAll] using h.symm
    | cons c buf => simp [sendAll] at h
  | cons r results ih =>
    cases buf with
    | nil => simpa [sendAll] using h.symm
    | cons c buf =>
      rcases r with (_ | n) | _ | _
      · simp [sendAll] at h
      · rw [sendAll] at h
        obtain ⟨⟨out', ret⟩, hrest, hout⟩ := Option.bind_eq_some_iff.mp h
        · obtain ⟨rfl, rfl⟩ := Prod.mk.inj (Option.some.inj hout)
          rw [ih hrest, List.take_append_drop]
        · simp
      · rw [sendAll] at h
        · exact ih h
        · simp
      · simp [sendAll] at h

structure AgentEnv.Granted (env : AgentEnv) : Prop where
  grow : env.grow = true
  command : ∀ i, env.command i = true
  record : ∀ i j, env.record i j = true

def AgentEnv.Delivers (env : AgentEnv) : Prop :=
  ∀ fd sent buf, ∃ out, sendAll (env.send fd sent buf) buf = some (out, 0)

def AgentEnv.Quiet (env : AgentEnv) : Prop := ∀ i j, env.server i j = []

def AgentEnv.granting : AgentEnv where
  grow := true
  command := fun _ => true
  record := fun _ _ => true
  server := fun _ _ => []
  send := fun _ _ buf => [.wrote buf.length]

theorem AgentEnv.granting_granted : granting.Granted := ⟨rfl, fun _ => rfl, fun _ _ => rfl⟩

theorem AgentEnv.granting_quiet : granting.Quiet := fun _ _ => rfl

theorem AgentEnv.granting_delivers : granting.Delivers := by
  intro fd sent buf
  cases buf with
  | nil => exact ⟨[], rfl⟩
  | cons c buf => exact ⟨c :: buf, by simp [granting, sendAll]⟩

def Slaves.active (s : Slaves) : List ℤ := s.table.filter (fun fd => decide (0 < fd))

def broadcast (fds : List ℤ) (out : Bytes) (sent : ℤ → Bytes) : ℤ → Bytes :=
  fun fd => if fd ∈ fds then sent fd ++ out else sent fd

theorem broadcast_nil (fds : List ℤ) (sent : ℤ → Bytes) : broadcast fds [] sent = sent := by
  funext fd
  simp [broadcast]

theorem broadcast_append (fds : List ℤ) (out more : Bytes) (sent : ℤ → Bytes) :
    broadcast fds more (broadcast fds out sent) = broadcast fds (out ++ more) sent := by
  funext fd
  by_cases h : fd ∈ fds <;> simp [broadcast, h]

theorem broadcast_cons {fd : ℤ} {fds : List ℤ} (h : fd ∉ fds) (out : Bytes) (sent : ℤ → Bytes) :
    broadcast fds out (Function.update sent fd (sent fd ++ out)) = broadcast (fd :: fds) out sent := by
  funext x
  by_cases hx : x = fd
  · subst hx
    simp [broadcast, h]
  · simp [broadcast, hx]

section Sending

variable {env : AgentEnv} (hdel : env.Delivers)

include hdel

theorem sendSlots_eq {buf : Bytes} {slots : List ℕ} {a : AgentInfo}
    (hnodup : ((slots.filterMap (a.slaves.table[·]?)).filter (fun fd => decide (0 < fd))).Nodup) :
    sendSlots env buf slots a = some { a with
      sent := broadcast ((slots.filterMap (a.slaves.table[·]?)).filter (fun fd => decide (0 < fd))) buf a.sent } := by
  induction slots generalizing a with
  | nil => rw [List.filterMap_nil, List.filter_nil, sendSlots, show broadcast [] buf a.sent = a.sent from rfl]
  | cons i slots ih =>
    rw [sendSlots]
    rcases hfd : a.slaves.table[i]? with _ | fd
    · simp only [List.filterMap_cons, hfd] at hnodup ⊢
      exact ih hnodup
    · simp only [List.filterMap_cons, hfd] at hnodup ⊢
      by_cases hpos : 0 < fd
      · obtain ⟨out, hout⟩ := hdel fd (a.sent fd) buf
        obtain rfl := sendAll_zero hout
        rw [List.filter_cons_of_pos (by simpa using hpos), List.nodup_cons] at hnodup
        have hrest := @ih { a with sent := Function.update a.sent fd (a.sent fd ++ out) } hnodup.2
        rw [if_pos hpos, hout, List.filter_cons_of_pos (by simpa using hpos), ← broadcast_cons hnodup.1]
        exact hrest
      · rw [List.filter_cons_of_neg (by simpa using hpos)] at hnodup ⊢
        rw [if_neg hpos]
        exact ih hnodup

theorem agentSend_eq {buf : Bytes} {a : AgentInfo} (hbuf : buf ≠ []) (hnodup : a.slaves.active.Nodup) :
    kvsAgentSend env buf a = some (0, { a with sent := broadcast a.slaves.active buf a.sent }) := by
  have hslots : sendSlots env buf (List.range a.slaves.table.length) a =
      some { a with sent := broadcast a.slaves.active buf a.sent } := by
    rw [sendSlots_eq hdel (by rwa [filterMap_range]), filterMap_range]
    rfl
  rw [kvsAgentSend, if_neg hbuf, hslots]
  rfl

theorem sendCache_eq (hmem : env.Granted) (hquiet : env.Quiet) {i : ℕ} {recs : List Bytes} {n j : ℕ} {a : AgentInfo}
    (hholds : a.fullsyncCache.Holds recs) (hn : recs.length < n) (hnodup : a.slaves.active.Nodup) :
    ∃ cache, kvsAgentSendCache env i n j a = some (0, { a with
        fullsyncCache := cache, sent := broadcast a.slaves.active recs.flatten a.sent }) ∧
      cache.Holds [] ∧ cache.capacity = a.fullsyncCache.capacity := by
  induction recs generalizing n j a with
  | nil =>
    obtain ⟨n, rfl⟩ := Nat.exists_eq_succ_of_ne_zero (by omega : n ≠ 0)
    refine ⟨a.fullsyncCache, ?_, hholds, rfl⟩
    rw [kvsAgentSendCache, if_pos (hholds.used_eq_zero_iff.mpr rfl), List.flatten_nil, broadcast_nil]
  | cons b recs ih =>
    obtain ⟨n, rfl⟩ := Nat.exists_eq_succ_of_ne_zero (by omega : n ≠ 0)
    obtain ⟨cache, hread, hrest, hcap⟩ := hholds.read
    have hb := (hholds.valid b List.mem_cons_self).1
    have hsend := agentSend_eq hdel (a := { a with fullsyncCache := cache }) hb hnodup
    obtain ⟨last, hrun, hlast, hcap'⟩ := @ih n (j + 1)
      { a with fullsyncCache := cache, sent := broadcast a.slaves.active b a.sent } hrest
      (by rw [List.length_cons] at hn; omega) hnodup
    refine ⟨last, ?_, hlast, hcap'.trans hcap⟩
    have hne : a.fullsyncCache.used ≠ 0 := fun h => by simpa using hholds.used_eq_zero_iff.mp h
    rw [kvsAgentSendCache, if_neg hne, hmem.record, hread]
    simp only [hquiet i j, List.foldl_nil, hsend]
    simp only [Option.bind_eq_bind, Option.bind_some, ne_eq, not_true_eq_false, ↓reduceIte, hrun, broadcast_append,
      List.flatten_cons]

end Sending

/-- What the agent is for: whole frames in, and for each frame the frames that go to the slaves. -/
structure Relay where
  state : SlaveState
  queue : List Bytes

namespace Relay

def start : Relay := ⟨.unknown, []⟩

def step (r : Relay) (f : Kvsp.Frame) : Relay × List Bytes :=
  match cmdOf f.command with
  | .sync => ({ r with state := .fullSync }, [])
  | .fullsyncFinished | .fullsyncError => if r.state = .fullSync then (⟨.incrSync, []⟩, r.queue) else (r, [])
  | .allowedSend => if r.state = .fullSync then ({ r with queue := r.queue ++ [f.bytes] }, []) else (r, [f.bytes])
  | .other => (r, [])

def run (r : Relay) : List Kvsp.Frame → Relay × List Bytes
  | [] => (r, [])
  | f :: fs =>
    let (r', out) := (r.step f).1.run fs
    (r', (r.step f).2 ++ out)

theorem run_nil (r : Relay) : r.run [] = (r, []) := rfl

theorem run_append (r : Relay) (fs gs : List Kvsp.Frame) :
    r.run (fs ++ gs) = (((r.run fs).1.run gs).1, (r.run fs).2 ++ ((r.run fs).1.run gs).2) := by
  induction fs generalizing r with
  | nil => rfl
  | cons f fs ih => simp only [List.cons_append, run, ih, List.append_assoc]

theorem run_snoc (r : Relay) (fs : List Kvsp.Frame) (f : Kvsp.Frame) :
    r.run (fs ++ [f]) = (((r.run fs).1.step f).1, (r.run fs).2 ++ ((r.run fs).1.step f).2) := by
  rw [run_append]
  simp [run]

def Settled (r : Relay) : Prop := r.state ≠ .fullSync → r.queue = []

theorem step_settled {r : Relay} (h : r.Settled) (f : Kvsp.Frame) : (r.step f).1.Settled := by
  rw [step]
  cases cmdOf f.command with
  | sync => exact fun hne => absurd rfl hne
  | fullsyncFinished | fullsyncError =>
    dsimp only
    split_ifs with hs
    · exact fun _ => rfl
    · exact h
  | allowedSend =>
    dsimp only
    split_ifs with hs
    · exact fun hne => absurd hs hne
    · exact h
  | other => exact h

theorem run_settled {r : Relay} (h : r.Settled) (fs : List Kvsp.Frame) : (r.run fs).1.Settled := by
  induction fs generalizing r with
  | nil => exact h
  | cons f fs ih => exact ih (step_settled h f)

end Relay

def isWrite (f : Kvsp.Frame) : Bool := cmdOf f.command = .allowedSend

def writes (fs : List Kvsp.Frame) : List Kvsp.Frame := fs.filter isWrite

namespace Relay

theorem step_writes {r : Relay} (h : r.Settled) (f : Kvsp.Frame) :
    (r.step f).2 ++ (r.step f).1.queue = r.queue ++ (writes [f]).map Kvsp.Frame.bytes := by
  have hw : writes [f] = if cmdOf f.command = .allowedSend then [f] else [] := by
    simp [writes, isWrite, List.filter_singleton]
  rw [hw, step]
  cases cmdOf f.command with
  | sync | other => simp
  | fullsyncFinished | fullsyncError => by_cases hs : r.state = .fullSync <;> simp [hs]
  | allowedSend =>
    by_cases hs : r.state = .fullSync
    · simp [hs]
    · simp [hs, h hs]

theorem run_writes {r : Relay} (h : r.Settled) (fs : List Kvsp.Frame) :
    (r.run fs).2 ++ (r.run fs).1.queue = r.queue ++ (writes fs).map Kvsp.Frame.bytes := by
  induction fs generalizing r with
  | nil => simp [run, writes]
  | cons f fs ih =>
    have hstep := step_writes h f
    have hcons : writes (f :: fs) = writes [f] ++ writes fs := List.filter_append [f] fs
    rw [hcons, List.map_append, ← List.append_assoc, ← hstep, run, List.append_assoc, List.append_assoc]
    exact congrArg _ (ih (step_settled h f))

end Relay

structure AgentInfo.Follows (a : AgentInfo) (r : Relay) : Prop where
  state_eq : a.state = r.state
  holds : a.fullsyncCache.Holds r.queue

section Turns

variable {env : AgentEnv} (hmem : env.Granted) (hdel : env.Delivers) (hquiet : env.Quiet)

include hmem hdel hquiet

theorem handler_frame {a : AgentInfo} {r : Relay} {f : Kvsp.Frame} {rest : Bytes} (i : ℕ) (ha : a.Follows r)
    (hnodup : a.slaves.active.Nodup) (hbuf : a.buf = f.bytes ++ rest)
    (hroom : AgentCache.weight (r.step f).1.queue ≤ a.fullsyncCache.capacity) :
    ∃ cache, kvsAgentHandler env i f.head.bytes.length f.bytes.length a = some (0, { a with
        state := (r.step f).1.state, fullsyncCache := cache,
        sent := broadcast a.slaves.active (r.step f).2.flatten a.sent }) ∧
      cache.Holds (r.step f).1.queue ∧ cache.capacity = a.fullsyncCache.capacity := by
  obtain ⟨hstate, hholds⟩ := ha
  have hne : f.bytes ≠ [] := List.ne_nil_of_length_pos f.bytes_pos
  have htake : a.buf.take f.bytes.length = f.bytes := by rw [hbuf, List.take_left]
  rw [kvsAgentHandler, hbuf, hmem.command, parse_command, ← hbuf, htake]
  dsimp only
  rw [Relay.step] at hroom ⊢
  generalize cmdOf f.command = cmd at hroom ⊢
  cases cmd with
  | sync => exact ⟨a.fullsyncCache, by simp [broadcast_nil], hholds, rfl⟩
  | other => exact ⟨a.fullsyncCache, by simp [broadcast_nil, ← hstate], hholds, rfl⟩
  | fullsyncFinished | fullsyncError =>
    by_cases hs : a.state = .fullSync
    · have hlen : r.queue.length < a.fullsyncCache.used + 1 := by
        rw [hholds.used_eq]
        exact Nat.lt_succ_of_le (AgentCache.length_le_weight r.queue)
      obtain ⟨cache, hsend, hempty, hcap⟩ := sendCache_eq (a := { a with state := .incrSync }) hdel hmem hquiet
        (i := i) (j := 0) hholds hlen hnodup
      refine ⟨cache, ?_, ?_, hcap⟩
      · simp only [hs, ← hstate, ↓reduceIte, hsend]
      · simpa [← hstate, hs] using hempty
    · exact ⟨a.fullsyncCache, by simp [hs, broadcast_nil, ← hstate], by simpa [← hstate, hs] using hholds, rfl⟩
  | allowedSend =>
    by_cases hs : a.state = .fullSync
    · simp only [← hstate, hs, ↓reduceIte] at hroom ⊢
      obtain ⟨cache, hwrite, hnew, hcap⟩ := hholds.write hne f.small hroom
      refine ⟨cache, ?_, hnew, hcap⟩
      simp [hwrite, broadcast_nil, ← hs]
    · simp only [← hstate, hs, ↓reduceIte]
      refine ⟨a.fullsyncCache, ?_, hholds, rfl⟩
      rw [agentSend_eq hdel hne hnodup]
      simp [hstate]

/-- One turn on a whole frame is one step of the relay. -/
theorem turn_frame {a : AgentInfo} {r : Relay} {f : Kvsp.Frame} {rest : Bytes} (i : ℕ) (ha : a.Follows r)
    (hnodup : a.slaves.active.Nodup) (hbuf : a.buf = f.bytes ++ rest)
    (hroom : AgentCache.weight (r.step f).1.queue ≤ a.fullsyncCache.capacity) :
    ∃ cache, agentTurn env i a = some (.next { a with
        buf := rest, state := (r.step f).1.state, fullsyncCache := cache,
        sent := broadcast a.slaves.active (r.step f).2.flatten a.sent }) ∧
      cache.Holds (r.step f).1.queue ∧ cache.capacity = a.fullsyncCache.capacity := by
  obtain ⟨cache, hhandler, hholds, hcap⟩ := handler_frame hmem hdel hquiet i ha hnodup hbuf hroom
  refine ⟨cache, ?_, hholds, hcap⟩
  have hne : a.buf ≠ [] := by
    rw [hbuf]
    exact List.append_ne_nil_of_left_ne_nil (List.ne_nil_of_length_pos f.bytes_pos) rest
  have hparse : kvspParseBulkSize a.buf = some (.frame f.bytes.length f.head.bytes.length) := by
    rw [hbuf, parse_whole]
  have hdrop : a.buf.drop f.bytes.length = rest := by rw [hbuf, List.drop_left]
  rw [agentTurn, if_neg hne, hparse]
  simp only [hhandler, Option.bind_eq_bind, Option.bind_some, ne_eq, not_true_eq_false, ↓reduceIte, hdrop]

end Turns

end Lidis.Agent
