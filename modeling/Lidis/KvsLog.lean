import Lidis.Kvsp
import Lidis.Lib.FileImage

namespace Lidis

/-- The append-only file as kvs_log.c sees it: `fdLog` says that fd_log is not negative, `queued` lists the writes
handed to the ring, each with its offset. -/
structure LogState where
  fdLog : Bool
  ringLogInited : Bool
  globalLogOffset : ℕ
  queued : List (ℕ × Bytes)

/-- What the system grants during one kvs_log_write: the memory for the frame, a submission entry, the context. -/
structure LogEnv where
  frame : Bool
  sqe : Bool
  ctx : Bool

def LogState.enqueue (log : LogState) (buf : Bytes) : LogState :=
  { log with globalLogOffset := log.globalLogOffset + buf.length, queued := log.queued ++ [(log.globalLogOffset, buf)] }

/-- `none` is the signed overflow of the frame builder. -/
def kvsLogWrite (enableLog : Bool) (tokens : List CString) (log : LogState) (env : LogEnv) : Option (LogState × ℤ) :=
  if ¬ enableLog then some (log, 0)
  else if tokens = [] then some (log, -1)
  else if ¬ log.fdLog ∨ ¬ log.ringLogInited then some (log, -1)
  else do
    match ← Kvsp.kvsBuildKvspFrame tokens env.frame with
    | none => some (log, -2)
    | some buf =>
      if buf = [] then some (log, -2)
      else if ¬ env.sqe then some (log, -2)
      else if ¬ env.ctx then some (log, -2)
      else some (log.enqueue buf, 0)

def LogState.bytes (log : LogState) : Bytes := log.queued.flatMap Prod.snd

theorem enqueue_bytes (log : LogState) (buf : Bytes) : (log.enqueue buf).bytes = log.bytes ++ buf := by
  simp [LogState.bytes, LogState.enqueue]

/-- The code with which a call returns before it builds a frame. -/
def LogState.refusal (log : LogState) (enableLog : Bool) (tokens : List CString) : Option ℤ :=
  if ¬ enableLog then some 0
  else if tokens = [] then some (-1)
  else if ¬ log.fdLog ∨ ¬ log.ringLogInited then some (-1)
  else none

def LogState.queueFrame (log : LogState) (env : LogEnv) : Option Bytes → LogState × ℤ
  | none => (log, -2)
  | some buf =>
    if buf = [] then (log, -2)
    else if ¬ env.sqe then (log, -2)
    else if ¬ env.ctx then (log, -2)
    else (log.enqueue buf, 0)

theorem kvsLogWrite_refused {enableLog : Bool} {tokens : List CString} {log : LogState} {code : ℤ} (env : LogEnv)
    (h : log.refusal enableLog tokens = some code) : kvsLogWrite enableLog tokens log env = some (log, code) := by
  rw [LogState.refusal] at h
  rw [kvsLogWrite]
  split_ifs at h with hen htokens hopen
  · rw [if_neg (not_not.mpr hen), if_pos htokens, Option.some.inj h]
  · rw [if_neg (not_not.mpr hen), if_neg htokens, if_pos hopen, Option.some.inj h]
  · rw [if_pos hen, Option.some.inj h]

theorem kvsLogWrite_built {enableLog : Bool} {tokens : List CString} {log : LogState} (env : LogEnv)
    (h : log.refusal enableLog tokens = none) :
    kvsLogWrite enableLog tokens log env = (Kvsp.kvsBuildKvspFrame tokens env.frame).map (log.queueFrame env) := by
  rw [LogState.refusal] at h
  split_ifs at h with hen htokens hopen
  rw [kvsLogWrite, if_neg (not_not.mpr hen), if_neg htokens, if_neg hopen]
  cases Kvsp.kvsBuildKvspFrame tokens env.frame with
  | none => rfl
  | some frame =>
    cases frame with
    | none => rfl
    | some buf =>
      simp only [bind, Option.bind_some, Option.map_some, LogState.queueFrame]
      split_ifs <;> rfl

theorem refusal_none_iff {enableLog : Bool} {tokens : List CString} {log : LogState} :
    log.refusal enableLog tokens = none ↔
      enableLog = true ∧ tokens ≠ [] ∧ log.fdLog = true ∧ log.ringLogInited = true := by
  rw [LogState.refusal]
  split_ifs with hen htokens hopen
  · simp [htokens]
  · refine iff_of_false (by simp) ?_
    rintro ⟨-, -, hfd, hring⟩
    exact hopen.elim (fun h => h hfd) (fun h => h hring)
  · rw [not_or, not_not, not_not] at hopen
    exact iff_of_true rfl ⟨hen, htokens, hopen⟩
  · simp [hen]

theorem refusal_zero {enableLog : Bool} {tokens : List CString} {log : LogState}
    (h : log.refusal enableLog tokens = some 0) : enableLog = false := by
  rw [LogState.refusal] at h
  split_ifs at h with hen
  · simp at h
  · simp at h
  · simpa using hen

theorem queueFrame_zero {log : LogState} {env : LogEnv} {frame : Option Bytes} (h : (log.queueFrame env frame).2 = 0) :
    ∃ buf, frame = some buf ∧ (log.queueFrame env frame).1 = log.enqueue buf := by
  cases frame with
  | none => cases h
  | some buf =>
    refine ⟨buf, rfl, ?_⟩
    rw [LogState.queueFrame] at h ⊢
    split_ifs at h ⊢
    · cases h
    · rfl
    · cases h
    · cases h

theorem queueFrame_failed {log : LogState} {env : LogEnv} {frame : Option Bytes} (h : (log.queueFrame env frame).2 ≠ 0) :
    (log.queueFrame env frame).1 = log := by
  cases frame with
  | none => rfl
  | some buf =>
    rw [LogState.queueFrame] at h ⊢
    split_ifs at h ⊢
    · rfl
    · exact absurd rfl h
    · rfl
    · rfl

theorem kvsLogWrite_zero {tokens : List CString} {log log' : LogState} {env : LogEnv}
    (h : kvsLogWrite true tokens log env = some (log', 0)) :
    log' = log.enqueue (Kvsp.frameOf tokens) ∧ tokens ≠ [] ∧ (Kvsp.frameOf tokens).length < intMax := by
  cases href : log.refusal true tokens with
  | some code =>
    rw [kvsLogWrite_refused env href] at h
    obtain ⟨-, rfl⟩ := Prod.mk.inj (Option.some.inj h)
    cases refusal_zero href
  | none =>
    rw [kvsLogWrite_built env href] at h
    obtain ⟨frame, hbuild, hq⟩ := Option.map_eq_some_iff.mp h
    obtain ⟨buf, rfl, hlog⟩ := queueFrame_zero (congrArg Prod.snd hq)
    obtain ⟨rfl, htokens, hlen⟩ := Kvsp.buildKvspFrame_some hbuild
    exact ⟨(congrArg Prod.fst hq).symm.trans hlog, htokens, hlen⟩

def LogEnv.granted : LogEnv := ⟨true, true, true⟩

theorem kvsLogWrite_granted {tokens : List CString} {log : LogState} (ht : tokens ≠ []) (hfd : log.fdLog = true)
    (hring : log.ringLogInited = true) (hlen : (Kvsp.frameOf tokens).length < intMax) :
    kvsLogWrite true tokens log .granted = some (log.enqueue (Kvsp.frameOf tokens), 0) := by
  have hne : Kvsp.frameOf tokens ≠ [] := by simp [Kvsp.frameOf_eq, Kvsp.headOf]
  simp [kvsLogWrite, LogEnv.granted, ht, hfd, hring, Kvsp.buildKvspFrame_eq ht hlen, hne]

def logAll (env : ℕ → LogEnv) : ℕ → List (List CString) → LogState → Option LogState
  | _, [], log => some log
  | i, ts :: tss, log => do
    let (log, ret) ← kvsLogWrite true ts log (env i)
    if ret ≠ 0 then none else logAll env (i + 1) tss log

theorem logAll_queued {env : ℕ → LogEnv} {tss : List (List CString)} {i : ℕ} {log log' : LogState}
    (h : logAll env i tss log = some log') :
    ∃ ws, log'.queued = log.queued ++ ws ∧ FileImage.Consecutive log.globalLogOffset ws ∧
      ws.map Prod.snd = tss.map Kvsp.frameOf := by
  induction tss generalizing i log with
  | nil =>
    obtain rfl := Option.some.inj h
    exact ⟨[], by simp, trivial, rfl⟩
  | cons ts tss ih =>
    obtain ⟨⟨log1, ret⟩, hw, h⟩ := Option.bind_eq_some_iff.mp h
    dsimp only at h
    split_ifs at h with hret
    obtain rfl : ret = 0 := by simpa using hret
    obtain ⟨rfl, -, -⟩ := kvsLogWrite_zero hw
    obtain ⟨ws, hq, hcons, hmap⟩ := ih h
    refine ⟨(log.globalLogOffset, Kvsp.frameOf ts) :: ws, ?_, ⟨rfl, hcons⟩, by simp [hmap]⟩
    rw [hq]
    simp [LogState.enqueue]

end Lidis
