import Lidis.KvsLog
import Lidis.KvsSave

namespace Lidis

def entryLength : ℕ := 1024

/-- An entry that io_uring_get_sqe handed out: prepared for a write, or left with what the last use of its slot put
there. -/
inductive LogEntry where
  | prepared (write : ℕ × Bytes)
  | untouched (last : Option (ℕ × Bytes))

/-- The ring under the append-only file. `slots` is the array of submission entries and `taken` the number handed out so
far; `submitted` lists the writes the kernel was given and `stray` counts the entries it was given untouched. -/
structure LogRing where
  log : LogState
  slots : ℕ → Option (ℕ × Bytes)
  taken : ℕ
  pending : List LogEntry
  submitted : List (ℕ × Bytes)
  stray : ℕ

/-- One call's surroundings: `submits` says that io_uring_submit passes the entries on, `reapsStray` that the completion
of an untouched entry is among those found, `memory` what stands in the freed buffer of the write at an offset. -/
structure RingEnv where
  grants : LogEnv
  submits : Bool
  reapsStray : Bool
  memory : ℕ → UInt8

def LogEntry.write (memory : ℕ → UInt8) : LogEntry → Option (ℕ × Bytes)
  | .prepared w => some w
  | .untouched none => none
  | .untouched (some w) => some (w.1, (List.range w.2.length).map fun k => memory (w.1 + k))

def LogEntry.isUntouched : LogEntry → Bool
  | .prepared _ => false
  | .untouched _ => true

namespace LogRing

def init (log : LogState) : LogRing := ⟨log, fun _ => none, 0, [], [], 0⟩

def flush (ring : LogRing) (memory : ℕ → UInt8) : LogRing :=
  { ring with
    pending := []
    submitted := ring.submitted ++ ring.pending.filterMap (LogEntry.write memory)
    stray := ring.stray + ring.pending.countP LogEntry.isUntouched }

def submit (ring : LogRing) (env : RingEnv) : LogRing := if env.submits then ring.flush env.memory else ring

/-- The entry that io_uring_get_sqe handed out stays as it is. -/
def leave (ring : LogRing) : LogRing :=
  { ring with
    taken := ring.taken + 1
    pending := ring.pending ++ [.untouched (ring.slots (ring.taken % entryLength))] }

def prepare (ring : LogRing) (buf : Bytes) : LogRing :=
  { ring with
    log := ring.log.enqueue buf
    slots := Function.update ring.slots (ring.taken % entryLength) (some (ring.log.globalLogOffset, buf))
    taken := ring.taken + 1
    pending := ring.pending ++ [.prepared (ring.log.globalLogOffset, buf)] }

/-- The entry of a frame that was built, or was not. -/
def queueFrame (ring : LogRing) (env : RingEnv) : Option Bytes → Option (LogRing × ℤ)
  | none => some (ring, -2)
  | some buf =>
    if buf = [] then some (ring, -2)
    else if 0 < ring.stray ∧ env.reapsStray then none
    else if ¬ env.grants.sqe then some (ring.submit env, -2)
    else if ¬ env.grants.ctx then some (ring.leave, -2)
    else some ((ring.prepare buf).submit env, 0)

/-- `none` is the signed overflow of the frame builder, or the completion of an untouched entry: its context is NULL, or
freed already. -/
def kvsLogWrite (enableLog : Bool) (tokens : List CString) (ring : LogRing) (env : RingEnv) : Option (LogRing × ℤ) :=
  if ¬ enableLog then some (ring, 0)
  else if tokens = [] then some (ring, -1)
  else if ¬ ring.log.fdLog ∨ ¬ ring.log.ringLogInited then some (ring, -1)
  else (Kvsp.kvsBuildKvspFrame tokens env.grants.frame).bind (ring.queueFrame env)

end LogRing

/-- The calls in turn, each answer with the record that was handed over. -/
def logWrites (enableLog : Bool) : List (List CString × RingEnv) → LogRing → Option (LogRing × List (Bytes × ℤ))
  | [], ring => some (ring, [])
  | call :: calls, ring => do
    let (ring, ret) ← LogRing.kvsLogWrite enableLog call.1 ring call.2
    let (ring, answers) ← logWrites enableLog calls ring
    some (ring, (if enableLog then Kvsp.frameOf call.1 else [], ret) :: answers)

def ioUringWrites (fd : ℤ) : List (Option Bytes × RecordEnv) → SaveCtx → SaveCtx × List (Bytes × ℤ)
  | [], ctx => (ctx, [])
  | call :: calls, ctx =>
    let r := kvsIoUringWrite fd call.1 call.2 ctx
    let rest := ioUringWrites fd calls r.1
    (rest.1, (call.1.getD [], r.2) :: rest.2)

def queuedRecords (answers : List (Bytes × ℤ)) : Bytes := answers.flatMap fun a => if a.2 = 0 then a.1 else []

theorem kvsIoUringWrite_cases (fd : ℤ) (buf : Option Bytes) (env : RecordEnv) (ctx : SaveCtx) :
    (∃ code, code ≠ 0 ∧ kvsIoUringWrite fd buf env ctx = ({ ctx with returns := ctx.returns ++ [code] }, code)) ∨
    ∃ record, buf = some record ∧ kvsIoUringWrite fd buf env ctx = (⟨ctx.offset + record.length,
      ctx.writes ++ [(ctx.offset, record)], ctx.returns ++ [0]⟩, 0) := by
  cases buf with
  | none => exact .inl ⟨-1, by decide, rfl⟩
  | some record =>
    by_cases harg : fd < 0 ∨ record = []
    · exact .inl ⟨-1, by decide, by simp only [kvsIoUringWrite, if_pos harg]⟩
    by_cases hctx : env.ctx = true
    · by_cases hsqe : env.sqe = true
      · refine .inr ⟨record, rfl, ?_⟩
        simp only [kvsIoUringWrite, if_neg harg, hctx, hsqe, not_true_eq_false, ↓reduceIte]
      · exact .inl ⟨-4, by decide, by simp [kvsIoUringWrite, if_neg harg, hctx, hsqe]⟩
    · exact .inl ⟨-2, by decide, by simp [kvsIoUringWrite, if_neg harg, hctx]⟩

theorem ioUringWrites_appends (fd : ℤ) (calls : List (Option Bytes × RecordEnv)) (ctx : SaveCtx) :
    ∃ ws, (ioUringWrites fd calls ctx).1.writes = ctx.writes ++ ws ∧ FileImage.Consecutive ctx.offset ws ∧
      ws.flatMap Prod.snd = queuedRecords (ioUringWrites fd calls ctx).2 := by
  induction calls generalizing ctx with
  | nil => exact ⟨[], by simp [ioUringWrites], trivial, rfl⟩
  | cons call calls ih =>
    obtain ⟨ws, hws, hcons, hqueued⟩ := ih (kvsIoUringWrite fd call.1 call.2 ctx).1
    rcases kvsIoUringWrite_cases fd call.1 call.2 ctx with ⟨code, hcode, hcall⟩ | ⟨record, hbuf, hcall⟩
    · rw [hcall] at hws hcons hqueued
      refine ⟨ws, ?_, hcons, ?_⟩
      · rw [ioUringWrites, hcall]
        exact hws
      · rw [hqueued, ioUringWrites, hcall]
        simp [queuedRecords, hcode]
    · rw [hcall] at hws hcons hqueued
      refine ⟨(ctx.offset, record) :: ws, ?_, ⟨rfl, hcons⟩, ?_⟩
      · rw [ioUringWrites, hcall]
        simpa using hws
      · rw [List.flatMap_cons, hqueued, ioUringWrites, hcall]
        simp [queuedRecords, hbuf]

theorem kvsLogWrite_log {enableLog : Bool} {tokens : List CString} {log log' : LogState} {env : LogEnv} {ret : ℤ}
    (h : kvsLogWrite enableLog tokens log env = some (log', ret)) :
    log' = if enableLog = true ∧ ret = 0 then log.enqueue (Kvsp.frameOf tokens) else log := by
  cases href : log.refusal enableLog tokens with
  | some code =>
    rw [kvsLogWrite_refused env href] at h
    obtain ⟨rfl, rfl⟩ := Prod.mk.inj (Option.some.inj h)
    rw [if_neg]
    rintro ⟨rfl, rfl⟩
    cases refusal_zero href
  | none =>
    obtain ⟨rfl, -⟩ := refusal_none_iff.mp href
    by_cases hret : ret = 0
    · subst hret
      rw [if_pos ⟨rfl, rfl⟩]
      exact (kvsLogWrite_zero h).1
    · rw [if_neg (fun hz => hret hz.2)]
      rw [kvsLogWrite_built env href] at h
      obtain ⟨frame, -, hq⟩ := Option.map_eq_some_iff.mp h
      have hcode : (log.queueFrame env frame).2 ≠ 0 := by rwa [hq]
      rw [← queueFrame_failed hcode, hq]

namespace LogRing

/-- No entry of the ring is untouched, and what was queued is what the kernel has or will get. -/
structure Clean (ring : LogRing) : Prop where
  pending : ∃ ws, ring.pending = ws.map LogEntry.prepared ∧ ring.submitted ++ ws = ring.log.queued
  stray : ring.stray = 0

variable {ring ring' : LogRing}

theorem Clean.flush (h : ring.Clean) (memory : ℕ → UInt8) :
    (ring.flush memory).Clean ∧ (ring.flush memory).submitted = ring.log.queued := by
  obtain ⟨ws, hpending, hqueued⟩ := h.pending
  have hwrites : ring.pending.filterMap (LogEntry.write memory) = ws := by
    rw [hpending, List.filterMap_map]
    exact List.filterMap_some
  have hsub : (ring.flush memory).submitted = ring.log.queued := by
    rw [LogRing.flush, hwrites, hqueued]
  refine ⟨⟨⟨[], rfl, ?_⟩, ?_⟩, hsub⟩
  · rw [List.append_nil, hsub]
    rfl
  · have hnone : ring.pending.countP LogEntry.isUntouched = 0 := by
      rw [hpending, List.countP_map]
      exact List.countP_eq_zero.mpr (by simp [LogEntry.isUntouched])
    simp only [LogRing.flush, h.stray, hnone]

theorem Clean.submit (h : ring.Clean) (env : RingEnv) : (ring.submit env).Clean := by
  rw [LogRing.submit]
  split_ifs
  · exact (h.flush env.memory).1
  · exact h

theorem Clean.prepare (h : ring.Clean) (buf : Bytes) : (ring.prepare buf).Clean := by
  obtain ⟨ws, hpending, hqueued⟩ := h.pending
  refine ⟨⟨ws ++ [(ring.log.globalLogOffset, buf)], ?_, ?_⟩, h.stray⟩
  · simp [LogRing.prepare, hpending]
  · simp [LogRing.prepare, LogState.enqueue, ← hqueued]

theorem submit_log (ring : LogRing) (env : RingEnv) : (ring.submit env).log = ring.log := by
  rw [LogRing.submit]
  split_ifs <;> rfl

section

variable {enableLog : Bool} {tokens : List CString} {env : RingEnv} {ret : ℤ}

theorem kvsLogWrite_eq (enableLog : Bool) (tokens : List CString) (ring : LogRing) (env : RingEnv) :
    LogRing.kvsLogWrite enableLog tokens ring env =
      match ring.log.refusal enableLog tokens with
      | some code => some (ring, code)
      | none => (Kvsp.kvsBuildKvspFrame tokens env.grants.frame).bind (ring.queueFrame env) := by
  rw [LogRing.kvsLogWrite, LogState.refusal]
  by_cases hen : ¬ enableLog = true
  · simp only [if_pos hen]
  by_cases htokens : tokens = []
  · simp only [if_neg hen, if_pos htokens]
  by_cases hopen : ¬ ring.log.fdLog = true ∨ ¬ ring.log.ringLogInited = true
  · simp only [if_neg hen, if_neg htokens, if_pos hopen]
  · simp only [if_neg hen, if_neg htokens, if_neg hopen]

/-- What a call returns and does to the file's state, the ring apart, is as without it. -/
theorem kvsLogWrite_refines (h : LogRing.kvsLogWrite enableLog tokens ring env = some (ring', ret)) :
    Lidis.kvsLogWrite enableLog tokens ring.log env.grants = some (ring'.log, ret) := by
  rw [kvsLogWrite_eq] at h
  cases href : ring.log.refusal enableLog tokens with
  | some code =>
    simp only [href] at h
    rw [kvsLogWrite_refused _ href]
    cases h
    rfl
  | none =>
    simp only [href] at h
    obtain ⟨frame, hframe, h⟩ := Option.bind_eq_some_iff.mp h
    rw [kvsLogWrite_built _ href, hframe, Option.map_some]
    cases frame with
    | none =>
      cases h
      rfl
    | some buf =>
      rw [queueFrame] at h
      rw [LogState.queueFrame]
      split_ifs at h ⊢
      · cases h
        rfl
      · cases h
        rw [submit_log]
        rfl
      · cases h
        rfl
      · cases h
        rw [submit_log]

theorem Clean.kvsLogWrite (h : ring.Clean) (enableLog : Bool)
    (hframe : Kvsp.kvsBuildKvspFrame tokens env.grants.frame ≠ none)
    (hctx : env.grants.sqe = true → env.grants.ctx = true) :
    ∃ ring' ret, LogRing.kvsLogWrite enableLog tokens ring env = some (ring', ret) ∧ ring'.Clean := by
  rw [kvsLogWrite_eq]
  cases ring.log.refusal enableLog tokens with
  | some code => exact ⟨ring, code, rfl, h⟩
  | none =>
    obtain ⟨frame, hbuilt⟩ := Option.ne_none_iff_exists'.mp hframe
    simp only [hbuilt, Option.bind_some]
    cases frame with
    | none => exact ⟨ring, -2, rfl, h⟩
    | some buf =>
      have hreap : ¬ (0 < ring.stray ∧ env.reapsStray = true) := by simp [h.stray]
      rw [queueFrame, if_neg hreap]
      by_cases hbuf : buf = []
      · exact ⟨ring, -2, if_pos hbuf, h⟩
      rw [if_neg hbuf]
      by_cases hsqe : env.grants.sqe = true
      · rw [if_neg (not_not.mpr hsqe), if_neg (not_not.mpr (hctx hsqe))]
        exact ⟨_, 0, rfl, (h.prepare buf).submit env⟩
      · rw [if_pos hsqe]
        exact ⟨_, -2, rfl, h.submit env⟩

end

end LogRing

/-- A call whose record has a length the frame builder can count and which, granted an entry, is granted its context. -/
def CtxGranted (call : List CString × RingEnv) : Prop :=
  Kvsp.kvsBuildKvspFrame call.1 call.2.grants.frame ≠ none ∧ (call.2.grants.sqe = true → call.2.grants.ctx = true)

theorem logWrites_appends {enableLog : Bool} {calls : List (List CString × RingEnv)} {ring : LogRing} (hclean : ring.Clean)
    (hcalls : ∀ call ∈ calls, CtxGranted call) :
    ∃ ring' answers ws, logWrites enableLog calls ring = some (ring', answers) ∧ ring'.Clean ∧
      ring'.log.queued = ring.log.queued ++ ws ∧ FileImage.Consecutive ring.log.globalLogOffset ws ∧
      ws.flatMap Prod.snd = queuedRecords answers := by
  induction calls generalizing ring with
  | nil => exact ⟨ring, [], [], rfl, hclean, by simp, trivial, rfl⟩
  | cons call calls ih =>
    have hserved := hcalls call (by simp)
    obtain ⟨mid, ret, hcall, hmid⟩ := hclean.kvsLogWrite enableLog hserved.1 hserved.2
    obtain ⟨ring', answers, ws, hrun, hclean', hqueued, hcons, hbytes⟩ :=
      ih hmid (fun c hc => hcalls c (List.mem_cons_of_mem call hc))
    have hlog := kvsLogWrite_log (LogRing.kvsLogWrite_refines hcall)
    have hall : logWrites enableLog (call :: calls) ring =
        some (ring', (if enableLog then Kvsp.frameOf call.1 else [], ret) :: answers) := by
      simp only [logWrites, hcall, hrun, bind, Option.bind_some]
    by_cases hzero : enableLog = true ∧ ret = 0
    · rw [if_pos hzero] at hlog
      rw [hlog] at hqueued hcons
      refine ⟨ring', _, (ring.log.globalLogOffset, Kvsp.frameOf call.1) :: ws, hall, hclean', ?_, ⟨rfl, hcons⟩, ?_⟩
      · simpa [LogState.enqueue] using hqueued
      · simp [queuedRecords, hzero.1, hzero.2, hbytes]
    · rw [if_neg hzero] at hlog
      rw [hlog] at hqueued hcons
      refine ⟨ring', _, ws, hall, hclean', hqueued, hcons, ?_⟩
      rw [hbytes]
      by_cases hen : enableLog = true
      · have hret : ret ≠ 0 := fun he => hzero ⟨hen, he⟩
        simp [queuedRecords, hret]
      · simp [queuedRecords, hen]

/-- The records handed to the two writers reach the file in call order whatever the order of the completions. The
snapshot's writer takes no entry before it has a context; the log's writer does, and a call that then gets no context
leaves an entry behind that the next submission executes. -/
theorem queued_records_compose (fd : ℤ) (records : List (Option Bytes × RecordEnv)) (enableLog : Bool) (file : Bytes)
    (log : LogState) (calls : List (List CString × RingEnv)) :
    (FileImage.Consecutive 0 (ioUringWrites fd records .start).1.writes ∧
      ∀ order, order.Perm (ioUringWrites fd records .start).1.writes →
        FileImage.writeAll 0 [] order = queuedRecords (ioUringWrites fd records .start).2) ∧
    (log.queued = [] → log.globalLogOffset = file.length → (∀ call ∈ calls, CtxGranted call) →
      ∃ ring answers, logWrites enableLog calls (.init log) = some (ring, answers) ∧
        FileImage.Consecutive file.length ring.log.queued ∧
        ∀ memory order, order.Perm (ring.flush memory).submitted →
          FileImage.writeAll 0 file order = file ++ queuedRecords answers) := by
  constructor
  · obtain ⟨ws, hws, hcons, hbytes⟩ := ioUringWrites_appends fd records .start
    have hwrites : (ioUringWrites fd records .start).1.writes = ws := hws
    rw [hwrites]
    refine ⟨hcons, ?_⟩
    intro order horder
    rw [FileImage.writeAll_perm 0 [] hcons horder, FileImage.writeAll_consecutive 0 [] ws hcons, List.nil_append, hbytes]
  · intro hnew hoff hcalls
    have hinit : (LogRing.init log).Clean := ⟨⟨[], rfl, hnew.symm⟩, rfl⟩
    obtain ⟨ring, answers, ws, hrun, hclean, hqueued, hcons, hbytes⟩ := logWrites_appends hinit hcalls
    have hws : ring.log.queued = ws := by
      rw [hqueued, LogRing.init, hnew, List.nil_append]
    rw [LogRing.init, hoff] at hcons
    refine ⟨ring, answers, hrun, by rwa [hws], ?_⟩
    intro memory order horder
    rw [(hclean.flush memory).2, hws] at horder
    rw [FileImage.writeAll_perm 0 file hcons horder, FileImage.writeAll_consecutive 0 file ws hcons, hbytes]

def servedEnv : RingEnv := ⟨.granted, true, false, fun _ => 0⟩

def leavingEnv : RingEnv := ⟨⟨true, true, false⟩, true, false, fun _ => 0⟩

theorem queued_records_compose_set :
    ∃ ring answers, logWrites true [([.lit "SET", .lit "k", .lit "v"], servedEnv)] (.init ⟨true, true, 3, []⟩) =
        some (ring, answers) ∧
      FileImage.Consecutive 3 ring.log.queued ∧
      ∀ memory order, order.Perm (ring.flush memory).submitted →
        FileImage.writeAll 0 [1, 2, 3] order = [1, 2, 3] ++ queuedRecords answers := by
  apply (queued_records_compose 3 [] true [1, 2, 3] ⟨true, true, 3, []⟩ _).2 rfl rfl
  intro call hcall
  rw [List.mem_singleton.mp hcall]
  exact ⟨by decide +kernel, fun _ => rfl⟩

theorem logWrites_append {enableLog : Bool} {calls more : List (List CString × RingEnv)} {ring mid ring' : LogRing}
    {answers rest : List (Bytes × ℤ)} (h : logWrites enableLog calls ring = some (mid, answers))
    (h' : logWrites enableLog more mid = some (ring', rest)) :
    logWrites enableLog (calls ++ more) ring = some (ring', answers ++ rest) := by
  induction calls generalizing ring answers with
  | nil =>
    cases h
    exact h'
  | cons call calls ih =>
    obtain ⟨⟨next, ret⟩, hcall, h⟩ := Option.bind_eq_some_iff.mp h
    obtain ⟨⟨last, tail⟩, hrun, h⟩ := Option.bind_eq_some_iff.mp h
    cases h
    simp only [List.cons_append, logWrites, hcall, ih hrun, bind, Option.bind_some]

section Lap

def lapTokens : List CString := [.lit "A"]

def lapFrame : Bytes := ascii "#6\r\n^1&A\r\n"

theorem lapTokens_built : Kvsp.kvsBuildKvspFrame lapTokens true = some (some lapFrame) := by
  decide +kernel

theorem kvsLogWrite_lap {ring : LogRing} (hfd : ring.log.fdLog = true) (hinit : ring.log.ringLogInited = true)
    (hstray : ring.stray = 0) : LogRing.kvsLogWrite true lapTokens ring servedEnv =
      some ((ring.prepare lapFrame).flush servedEnv.memory, 0) := by
  obtain ⟨htokens, hframe⟩ : lapTokens ≠ [] ∧ lapFrame ≠ [] := by decide
  simp [LogRing.kvsLogWrite, LogRing.queueFrame, LogRing.submit, servedEnv, LogEnv.granted, hfd, hinit, hstray,
    lapTokens_built, htokens, hframe]

structure Lapped (n : ℕ) (ring : LogRing) : Prop where
  fdLog : ring.log.fdLog = true
  inited : ring.log.ringLogInited = true
  stray : ring.stray = 0
  taken : ring.taken = n
  pending : ring.pending = []
  first : 0 < n → ring.slots 0 = some (0, lapFrame)
  offset : ring.log.globalLogOffset = n * lapFrame.length

theorem Lapped.prepare {n : ℕ} {ring : LogRing} (h : Lapped n ring) (hn : n < entryLength) (memory : ℕ → UInt8) :
    Lapped (n + 1) ((ring.prepare lapFrame).flush memory) where
  fdLog := h.fdLog
  inited := h.inited
  stray := by simp [LogRing.flush, LogRing.prepare, h.stray, h.pending, LogEntry.isUntouched]
  taken := by simp [LogRing.flush, LogRing.prepare, h.taken]
  pending := rfl
  first := by
    intro _
    simp only [LogRing.flush, LogRing.prepare, h.taken, Nat.mod_eq_of_lt hn, h.offset]
    by_cases hzero : n = 0
    · simp [hzero]
    · rw [Function.update_of_ne (Ne.symm hzero)]
      exact h.first (Nat.pos_of_ne_zero hzero)
  offset := by
    simp only [LogRing.flush, LogRing.prepare, LogState.enqueue, h.offset]
    ring

theorem logWrites_lap {n : ℕ} (hn : n ≤ entryLength) :
    ∃ ring, logWrites true (List.replicate n (lapTokens, servedEnv)) (.init ⟨true, true, 0, []⟩) =
      some (ring, List.replicate n (lapFrame, 0)) ∧ Lapped n ring := by
  induction n with
  | zero => exact ⟨_, rfl, rfl, rfl, rfl, rfl, rfl, by simp, rfl⟩
  | succ n ih =>
    obtain ⟨ring, hrun, hlap⟩ := ih (by omega)
    refine ⟨_, ?_, hlap.prepare (by omega) servedEnv.memory⟩
    rw [List.replicate_succ', List.replicate_succ']
    apply logWrites_append hrun
    simp only [logWrites, kvsLogWrite_lap hlap.fdLog hlap.inited hlap.stray, bind, Option.bind_some]
    rfl

theorem kvsLogWrite_leaving {ring : LogRing} (hfd : ring.log.fdLog = true) (hinit : ring.log.ringLogInited = true)
    (hstray : ring.stray = 0) : LogRing.kvsLogWrite true lapTokens ring leavingEnv = some (ring.leave, -2) := by
  obtain ⟨htokens, hframe⟩ : lapTokens ≠ [] ∧ lapFrame ≠ [] := by decide
  simp [LogRing.kvsLogWrite, LogRing.queueFrame, leavingEnv, hfd, hinit, hstray, lapTokens_built, htokens, hframe]

end Lap

/-- A lap of the ring, a call that gets an entry but no context, and a call whose submission executes that entry: the
first record is written over with what stands in its freed buffer. -/
theorem left_entry_overwrites_record : ∃ ring answers,
    logWrites true (List.replicate entryLength (lapTokens, servedEnv) ++ [(lapTokens, leavingEnv), (lapTokens, servedEnv)])
      (.init ⟨true, true, 0, []⟩) = some (ring, answers) ∧
    ∀ memory, FileImage.writeAll 0 [] (ring.flush memory).submitted ≠ queuedRecords answers := by
  obtain ⟨lapped, hrun, hlap⟩ := logWrites_lap (le_refl entryLength)
  have htail : logWrites true [(lapTokens, leavingEnv), (lapTokens, servedEnv)] lapped =
      some ((lapped.leave.prepare lapFrame).flush servedEnv.memory, [(lapFrame, -2), (lapFrame, 0)]) := by
    have hserved : LogRing.kvsLogWrite true lapTokens lapped.leave servedEnv = _ :=
      kvsLogWrite_lap hlap.fdLog hlap.inited hlap.stray
    simp only [logWrites, kvsLogWrite_leaving hlap.fdLog hlap.inited hlap.stray, hserved, bind, Option.bind_some]
    rfl
  refine ⟨_, _, logWrites_append hrun htail, ?_⟩
  intro memory heq
  -- the slot that comes round is that of the first record
  have hleft : lapped.slots (lapped.taken % entryLength) = some (0, lapFrame) := by
    rw [hlap.taken, Nat.mod_self]
    exact hlap.first (by decide)
  have hsub : (((lapped.leave.prepare lapFrame).flush servedEnv.memory).flush memory).submitted =
      lapped.submitted ++ [(0, List.replicate 10 0), (entryLength * 10, lapFrame)] := by
    have hlen : lapFrame.length = 10 := by decide
    simp [LogRing.flush, LogRing.prepare, LogRing.leave, hlap.pending, hleft, hlap.offset, LogEntry.write, servedEnv, hlen]
  have hfirst : (FileImage.writeAll (0 : UInt8) []
      (lapped.submitted ++ [(0, List.replicate 10 0), (entryLength * 10, lapFrame)]))[0]? = some 0 := by
    rw [FileImage.writeAll, List.foldl_append]
    simp [FileImage.getElem?_writeAt, entryLength]
  have hrecords : queuedRecords (List.replicate entryLength (lapFrame, 0) ++ [(lapFrame, -2), (lapFrame, 0)]) =
      lapFrame ++ queuedRecords (List.replicate 1023 (lapFrame, 0) ++ [(lapFrame, -2), (lapFrame, 0)]) := rfl
  rw [← hsub, heq, hrecords, List.getElem?_append_left (by decide)] at hfirst
  exact absurd hfirst (by decide)

end Lidis
