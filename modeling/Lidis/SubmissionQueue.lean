import Lidis.SaveRing
import Mathlib.Data.List.Perm.Basic
import Mathlib.Data.List.Dedup

namespace Lidis

def targetLength : ℕ := 512

def saveEntryLength : ℕ := 1024

/-- What one io_uring_get_sqe met: the entries prepared and not yet submitted, tasks_count, and the records that are
queued and not yet reaped. -/
structure SqeCall where
  unsubmitted : ℕ
  tasksCount : ℤ
  outstanding : ℕ

/-- The ring of a snapshot by where each record is; records are numbered as they are queued, and `sqeCalls` is a trace. -/
structure SubmissionRing where
  unsubmitted : List ℕ
  inFlight : List ℕ
  completed : List ℕ
  reaped : List ℕ
  queued : ℕ
  tasksCount : ℤ
  sqeCalls : List SqeCall

namespace SubmissionRing

def start : SubmissionRing := ⟨[], [], [], [], 0, 0, []⟩

def outstanding (r : SubmissionRing) : ℕ := r.queued - r.reaped.length

def submit (r : SubmissionRing) : SubmissionRing :=
  { r with unsubmitted := [], inFlight := r.inFlight ++ r.unsubmitted }

/-- The kernel completes those of the listed records that are in flight, in that order. -/
def finish (r : SubmissionRing) (records : List ℕ) : SubmissionRing :=
  { r with
    inFlight := r.inFlight.filter (fun i => i ∉ records)
    completed := r.completed ++ records.dedup.filter (fun i => i ∈ r.inFlight) }

/-- The first `n` completions are taken, and tasks_count goes down once for each. -/
def reap (r : SubmissionRing) (n : ℕ) : SubmissionRing :=
  { r with
    completed := r.completed.drop n
    reaped := r.reaped ++ r.completed.take n
    tasksCount := r.tasksCount - (r.completed.take n).length }

def getSqe (r : SubmissionRing) : SubmissionRing :=
  { r with sqeCalls := r.sqeCalls ++ [⟨r.unsubmitted.length, r.tasksCount, r.outstanding⟩] }

def prepare (r : SubmissionRing) : SubmissionRing :=
  { r with unsubmitted := r.unsubmitted ++ [r.queued], queued := r.queued + 1, tasksCount := r.tasksCount + 1 }

end SubmissionRing

/-- One call of kvs_io_uring_write: its arguments, the outcome of its allocation, what the kernel completes up to the
peek, and how many completions the peek returns if there are that many. -/
structure WriteCall where
  fd : ℤ
  buf : Option Bytes
  ctx : Bool
  finished : List ℕ
  peek : ℕ

namespace SubmissionRing

def beforeSqe (call : WriteCall) (r : SubmissionRing) : SubmissionRing :=
  let r := if targetLength ≤ r.tasksCount then r.submit else r
  let r := r.finish call.finished
  r.reap (min call.peek targetLength)

/-- `none` is the overflow of tasks_count, an int. -/
def kvsIoUringWrite (call : WriteCall) (r : SubmissionRing) : Option (SubmissionRing × ℤ) :=
  match call.buf with
  | none => some (r, -1)
  | some buf =>
    if call.fd < 0 ∨ buf = [] then some (r, -1)
    else if call.ctx = false then some (r, -2)
    else
      let r := (r.beforeSqe call).getSqe
      if saveEntryLength ≤ r.unsubmitted.length then some (r.submit, -4)
      else if intMax < r.tasksCount + 1 then none
      else some (r.prepare, 0)

def writeCalls : List WriteCall → SubmissionRing → Option (SubmissionRing × List ℤ)
  | [], r => some (r, [])
  | call :: calls, r => do
    let (r, ret) ← r.kvsIoUringWrite call
    let (r, rets) ← writeCalls calls r
    some (r, ret :: rets)

end SubmissionRing

/-- One io_uring_wait_cqe: it fails, or it brings a completion; before it does, the kernel completes the records
`finished`, and if there is no completion then, the `next`-th record in flight. -/
inductive RingWait where
  | failed
  | brings (finished : List ℕ) (next : ℕ)

namespace SubmissionRing

/-- `none` is a wait with nothing to wait for, which does not return. -/
def waitCqe (finished : List ℕ) (next : ℕ) (r : SubmissionRing) : Option SubmissionRing :=
  let r := r.finish finished
  if r.completed = [] then (r.inFlight[next % r.inFlight.length]?).map (fun i => r.finish [i]) else some r

def waitLoop (waits : ℕ → RingWait) : ℕ → ℕ → SubmissionRing → Option SubmissionRing
  | 0, _, _ => none
  | n + 1, i, r =>
    match waits i with
    | .failed => some r
    | .brings finished next => do
      let r ← r.waitCqe finished next
      if (r.reap 1).tasksCount = 0 then some (r.reap 1) else waitLoop waits n (i + 1) (r.reap 1)

def drain (waits : ℕ → RingWait) (n : ℕ) (r : SubmissionRing) : Option SubmissionRing :=
  if r.submit.tasksCount ≠ 0 then waitLoop waits n 0 r.submit else some r.submit

/-- Every record is in exactly one place, and tasks_count is the number of those not yet reaped. -/
structure Kept (r : SubmissionRing) : Prop where
  records : (r.reaped ++ (r.completed ++ (r.inFlight ++ r.unsubmitted))).Perm (List.range r.queued)
  counted : r.tasksCount = r.outstanding
  sqeCalls : ∀ q ∈ r.sqeCalls, q.unsubmitted < targetLength ∧ q.tasksCount = q.outstanding

theorem outstanding_beforeSqe (r : SubmissionRing) (call : WriteCall) :
    (r.beforeSqe call).outstanding ≤ r.outstanding := by
  rw [beforeSqe]
  split_ifs <;> simp only [outstanding, reap, finish, submit, List.length_append] <;> omega

namespace Kept

variable {r : SubmissionRing}

theorem lengths (h : r.Kept) :
    r.reaped.length + (r.completed.length + (r.inFlight.length + r.unsubmitted.length)) = r.queued := by
  have := h.records.length_eq
  simpa using this

theorem outstanding_eq (h : r.Kept) :
    r.outstanding = r.completed.length + (r.inFlight.length + r.unsubmitted.length) := by
  have := h.lengths
  rw [SubmissionRing.outstanding]
  omega

theorem start : SubmissionRing.start.Kept := ⟨List.Perm.nil, rfl, by simp [SubmissionRing.start]⟩

theorem submit (h : r.Kept) : r.submit.Kept := by
  refine ⟨?_, h.counted, h.sqeCalls⟩
  simpa [SubmissionRing.submit] using h.records

theorem inFlight_nodup (h : r.Kept) : r.inFlight.Nodup := by
  have hall := h.records.nodup_iff.mpr List.nodup_range
  exact ((hall.of_append_right).of_append_right).of_append_left

theorem finish (h : r.Kept) (records : List ℕ) : (r.finish records).Kept := by
  refine ⟨?_, h.counted, h.sqeCalls⟩
  have hmove : (records.dedup.filter (fun i => i ∈ r.inFlight) ++ r.inFlight.filter (fun i => i ∉ records)).Perm
      r.inFlight := by
    have hnodup := h.inFlight_nodup
    rw [List.perm_ext_iff_of_nodup _ hnodup]
    · intro i
      by_cases hi : i ∈ records <;> simp [hi]
    · refine ((List.nodup_dedup records).filter _).append (hnodup.filter _) ?_
      intro i hdone hleft
      simp only [List.mem_filter, List.mem_dedup, decide_eq_true_eq] at hdone hleft
      exact hleft.2 hdone.1
  simp only [SubmissionRing.finish, List.append_assoc]
  refine List.Perm.trans ?_ h.records
  apply List.Perm.append_left
  apply List.Perm.append_left
  rw [← List.append_assoc]
  exact hmove.append_right _

theorem reap (h : r.Kept) (n : ℕ) : (r.reap n).Kept := by
  refine ⟨?_, ?_, h.sqeCalls⟩
  · simp only [SubmissionRing.reap, List.append_assoc]
    rw [← List.append_assoc (r.completed.take n), List.take_append_drop]
    exact h.records
  · have hlen := h.lengths
    have hcount := h.counted
    have hle : (r.completed.take n).length ≤ r.completed.length := List.length_take_le' n _
    simp only [SubmissionRing.outstanding, SubmissionRing.reap, List.length_append] at hcount ⊢
    omega

theorem beforeSqe (h : r.Kept) (call : WriteCall) : (r.beforeSqe call).Kept := by
  rw [SubmissionRing.beforeSqe]
  split_ifs
  · exact (h.submit.finish _).reap _
  · exact (h.finish _).reap _

theorem unsubmitted_lt (h : r.Kept) (call : WriteCall) : (r.beforeSqe call).unsubmitted.length < targetLength := by
  have hout := h.outstanding_eq
  have hcount := h.counted
  rw [SubmissionRing.beforeSqe]
  by_cases hfull : (targetLength : ℤ) ≤ r.tasksCount
  · simp only [if_pos hfull, SubmissionRing.reap, SubmissionRing.finish, SubmissionRing.submit, List.length_nil]
    decide
  · -- tasks_count counts the unsubmitted entries too
    simp only [if_neg hfull, SubmissionRing.reap, SubmissionRing.finish]
    omega

theorem getSqe (h : r.Kept) (hlt : r.unsubmitted.length < targetLength) : r.getSqe.Kept := by
  refine ⟨h.records, h.counted, ?_⟩
  intro q hq
  rcases List.mem_append.mp hq with hq | hq
  · exact h.sqeCalls q hq
  · obtain rfl := List.mem_singleton.mp hq
    exact ⟨hlt, h.counted⟩

theorem prepare (h : r.Kept) : r.prepare.Kept := by
  refine ⟨?_, ?_, h.sqeCalls⟩
  · simp only [SubmissionRing.prepare, List.range_succ]
    simpa using h.records.append_right [r.queued]
  · have hlen := h.lengths
    have hcount := h.counted
    simp only [SubmissionRing.outstanding, SubmissionRing.prepare] at hcount ⊢
    omega

theorem write_eq (h : r.Kept) {call : WriteCall} {buf : Bytes} (hbuf : call.buf = some buf)
    (hargs : ¬ (call.fd < 0 ∨ buf = [])) (hctx : call.ctx = true) :
    r.kvsIoUringWrite call = if (intMax : ℤ) < (r.beforeSqe call).tasksCount + 1 then none
      else some ((r.beforeSqe call).getSqe.prepare, 0) := by
  have hlt := h.unsubmitted_lt call
  have hroom : ¬ saveEntryLength ≤ (r.beforeSqe call).getSqe.unsubmitted.length := by
    change ¬ 1024 ≤ (r.beforeSqe call).unsubmitted.length
    simp only [targetLength] at hlt
    omega
  rw [kvsIoUringWrite, hbuf]
  dsimp only
  rw [if_neg hargs, if_neg (by simp [hctx]), if_neg hroom]
  rfl

theorem write_cases (h : r.Kept) (call : WriteCall) :
    (∃ ret, r.kvsIoUringWrite call = some (r, ret) ∧ ret ≠ -4) ∨
      r.kvsIoUringWrite call = if (intMax : ℤ) < (r.beforeSqe call).tasksCount + 1 then none
        else some ((r.beforeSqe call).getSqe.prepare, 0) := by
  cases hbuf : call.buf with
  | none => exact Or.inl ⟨-1, by rw [kvsIoUringWrite, hbuf], by decide⟩
  | some buf =>
    by_cases hargs : call.fd < 0 ∨ buf = []
    · refine Or.inl ⟨-1, ?_, by decide⟩
      rw [kvsIoUringWrite, hbuf]
      exact if_pos hargs
    cases hctx : call.ctx with
    | false =>
      refine Or.inl ⟨-2, ?_, by decide⟩
      rw [kvsIoUringWrite, hbuf]
      exact (if_neg hargs).trans (if_pos hctx)
    | true => exact Or.inr (h.write_eq hbuf hargs hctx)

theorem write_kept (h : r.Kept) {call : WriteCall} {r' : SubmissionRing} {ret : ℤ}
    (hwrite : r.kvsIoUringWrite call = some (r', ret)) : r'.Kept ∧ ret ≠ -4 := by
  rcases h.write_cases call with ⟨code, heq, hcode⟩ | heq
  · rw [heq] at hwrite
    obtain ⟨rfl, rfl⟩ := Prod.mk.inj (Option.some.inj hwrite)
    exact ⟨h, hcode⟩
  · rw [heq] at hwrite
    split_ifs at hwrite
    obtain ⟨rfl, rfl⟩ := Prod.mk.inj (Option.some.inj hwrite)
    exact ⟨((h.beforeSqe call).getSqe (h.unsubmitted_lt call)).prepare, by decide⟩

theorem write_some (h : r.Kept) (call : WriteCall) (hroom : r.outstanding < intMax) :
    ∃ r' ret, r.kvsIoUringWrite call = some (r', ret) := by
  have hle := outstanding_beforeSqe r call
  have hcount := (h.beforeSqe call).counted
  rcases h.write_cases call with ⟨ret, heq, -⟩ | heq
  · exact ⟨r, ret, heq⟩
  · exact ⟨_, _, heq.trans (if_neg (by omega))⟩

end Kept

/-- Before every call fewer than INT_MAX records are queued and not yet reaped. -/
def Bounded : List WriteCall → SubmissionRing → Prop
  | [], _ => True
  | call :: calls, r =>
    r.outstanding < intMax ∧ ∀ r' ret, r.kvsIoUringWrite call = some (r', ret) → Bounded calls r'

theorem writeCalls_kept {calls : List WriteCall} {r : SubmissionRing} (h : r.Kept) (hb : Bounded calls r) :
    ∃ r' rets, writeCalls calls r = some (r', rets) ∧ r'.Kept ∧ -4 ∉ rets := by
  induction calls generalizing r with
  | nil => exact ⟨r, [], rfl, h, by simp⟩
  | cons call calls ih =>
    obtain ⟨r₁, ret, hwrite⟩ := h.write_some call hb.1
    obtain ⟨h₁, hret⟩ := h.write_kept hwrite
    obtain ⟨r₂, rets, hcalls, h₂, hrets⟩ := ih h₁ (hb.2 r₁ ret hwrite)
    refine ⟨r₂, ret :: rets, ?_, h₂, ?_⟩
    · simp only [writeCalls, hwrite, hcalls, bind, Option.bind]
    · simp only [List.mem_cons, not_or]
      exact ⟨hret.symm, hrets⟩

theorem finish_one_ne_nil {r : SubmissionRing} {i : ℕ} (hi : i ∈ r.inFlight) : (r.finish [i]).completed ≠ [] := by
  simp [finish, hi]

theorem waitCqe_some {r : SubmissionRing} (h : r.Kept) (hsub : r.unsubmitted = []) (hout : r.outstanding ≠ 0)
    (finished : List ℕ) (next : ℕ) :
    ∃ r', r.waitCqe finished next = some r' ∧ r'.Kept ∧ r'.unsubmitted = [] ∧ r'.completed ≠ [] ∧
      r'.outstanding = r.outstanding ∧ r'.queued = r.queued := by
  have hf := h.finish finished
  rw [waitCqe]
  by_cases hnone : (r.finish finished).completed = []
  · have hlen : (r.finish finished).inFlight.length ≠ 0 := by
      have heq := hf.outstanding_eq
      have hsub' : (r.finish finished).unsubmitted = [] := hsub
      have hout' : (r.finish finished).outstanding ≠ 0 := hout
      rw [hnone, hsub'] at heq
      simpa [heq] using hout'
    have hidx : next % (r.finish finished).inFlight.length < (r.finish finished).inFlight.length :=
      Nat.mod_lt _ (Nat.pos_of_ne_zero hlen)
    refine ⟨_, ?_, hf.finish [(r.finish finished).inFlight.get ⟨_, hidx⟩], hsub, ?_, rfl, rfl⟩
    · rw [if_pos hnone, List.getElem?_eq_getElem hidx]
      rfl
    · exact finish_one_ne_nil (List.get_mem _ _)
  · exact ⟨_, if_neg hnone, hf, hsub, hnone, rfl, rfl⟩

theorem reap_one {r : SubmissionRing} (h : r.Kept) (hne : r.completed ≠ []) :
    (r.reap 1).outstanding + 1 = r.outstanding := by
  have hlen := h.lengths
  have hpos := List.length_pos_iff.mpr hne
  simp only [outstanding, reap, List.length_append, List.length_take]
  omega

theorem waitLoop_step {waits : ℕ → RingWait} (hw : ∀ i, waits i ≠ .failed) {r : SubmissionRing} {k : ℕ} (n i : ℕ)
    (h : r.Kept) (hsub : r.unsubmitted = []) (hout : r.outstanding = k + 1) :
    ∃ r', waitLoop waits (n + 1) i r = (if k = 0 then some r' else waitLoop waits n (i + 1) r') ∧ r'.Kept ∧
      r'.unsubmitted = [] ∧ r'.outstanding = k ∧ r'.queued = r.queued := by
  cases hi : waits i with
  | failed => exact absurd hi (hw i)
  | brings finished next =>
    obtain ⟨r₁, hwait, h₁, hsub₁, hne, hout₁, hqueued⟩ := waitCqe_some h hsub (by omega) finished next
    have hone := reap_one h₁ hne
    have hk : (r₁.reap 1).outstanding = k := by omega
    have hcount : (r₁.reap 1).tasksCount = 0 ↔ k = 0 := by
      rw [(h₁.reap 1).counted, hk]
      exact Int.natCast_eq_zero
    refine ⟨r₁.reap 1, ?_, h₁.reap 1, hsub₁, hk, hqueued⟩
    rw [waitLoop, hi]
    dsimp only
    rw [hwait, Option.bind_eq_bind, Option.bind_some]
    simp only [hcount]

theorem waitLoop_reaps {waits : ℕ → RingWait} (hw : ∀ i, waits i ≠ .failed) {r : SubmissionRing} (n i : ℕ) (h : r.Kept)
    (hsub : r.unsubmitted = []) (hout : r.outstanding = n + 1) :
    ∃ r', waitLoop waits (n + 1) i r = some r' ∧ r'.Kept ∧ r'.outstanding = 0 ∧ r'.queued = r.queued := by
  induction n generalizing i r with
  | zero =>
    obtain ⟨r', hloop, h', -, hzero, hqueued⟩ := waitLoop_step hw 0 i h hsub hout
    exact ⟨r', hloop.trans (if_pos rfl), h', hzero, hqueued⟩
  | succ n ih =>
    obtain ⟨r₁, hloop, h₁, hsub₁, hout₁, hqueued⟩ := waitLoop_step hw (n + 1) i h hsub hout
    obtain ⟨r', hrest, h', hzero, hqueued'⟩ := ih (i + 1) h₁ hsub₁ hout₁
    refine ⟨r', ?_, h', hzero, hqueued'.trans hqueued⟩
    rw [hloop, if_neg n.succ_ne_zero, hrest]

theorem Kept.all_reaped {r : SubmissionRing} (h : r.Kept) (hzero : r.outstanding = 0) :
    r.reaped.Perm (List.range r.queued) := by
  have hout := h.outstanding_eq
  have hc : r.completed = [] := List.length_eq_zero_iff.mp (by omega)
  have hf : r.inFlight = [] := List.length_eq_zero_iff.mp (by omega)
  have hu : r.unsubmitted = [] := List.length_eq_zero_iff.mp (by omega)
  have hrecords := h.records
  rwa [hc, hf, hu, List.append_nil, List.append_nil, List.append_nil] at hrecords

theorem drain_reaps {waits : ℕ → RingWait} (hw : ∀ i, waits i ≠ .failed) {r : SubmissionRing} (h : r.Kept) :
    ∃ n r', drain waits n r = some r' ∧ r'.reaped.Perm (List.range r.queued) ∧ r'.tasksCount = 0 := by
  have hs := h.submit
  by_cases hzero : r.submit.outstanding = 0
  · refine ⟨0, r.submit, if_neg ?_, hs.all_reaped hzero, ?_⟩
    · rw [hs.counted, hzero]
      decide
    · rw [hs.counted, hzero]
      rfl
  · obtain ⟨m, hm⟩ := Nat.exists_eq_succ_of_ne_zero hzero
    obtain ⟨r', hloop, h', hzero', hqueued⟩ := waitLoop_reaps hw m 0 hs rfl hm
    refine ⟨m + 1, r', (if_pos ?_).trans hloop, ?_, ?_⟩
    · rw [hs.counted, hm]
      omega
    · have hall := h'.all_reaped hzero'
      rwa [hqueued] at hall
    · rw [h'.counted, hzero']
      rfl

theorem submission_queue_if_bounded (calls : List WriteCall) (waits : ℕ → RingWait) (hb : Bounded calls start)
    (hw : ∀ i, waits i ≠ .failed) :
    ∃ r rets, writeCalls calls start = some (r, rets) ∧
      (∀ q ∈ r.sqeCalls, q.unsubmitted ≤ 511 ∧ q.tasksCount = q.outstanding) ∧ -4 ∉ rets ∧
      ∃ n r', drain waits n r = some r' ∧ r'.reaped.Perm (List.range r.queued) ∧ r'.tasksCount = 0 := by
  obtain ⟨r, rets, hrun, hkept, hrets⟩ := writeCalls_kept Kept.start hb
  refine ⟨r, rets, hrun, ?_, hrets, drain_reaps hw hkept⟩
  intro q hq
  obtain ⟨hlt, hcount⟩ := hkept.sqeCalls q hq
  exact ⟨Nat.le_of_lt_succ hlt, hcount⟩

def idleCall : WriteCall := ⟨3, some [35], true, [], 0⟩

theorem beforeSqe_idle (r : SubmissionRing) :
    (r.beforeSqe idleCall).reaped = r.reaped ∧ (r.beforeSqe idleCall).queued = r.queued := by
  rw [beforeSqe]
  split_ifs <;> simp [reap, finish, submit, idleCall]

theorem idle_write {r : SubmissionRing} (h : r.Kept) (hreaped : r.reaped = []) :
    r.kvsIoUringWrite idleCall = if intMax ≤ r.queued then none
      else some ((r.beforeSqe idleCall).getSqe.prepare, 0) := by
  obtain ⟨hsame, hqueued⟩ := beforeSqe_idle r
  have hcount := (h.beforeSqe idleCall).counted
  have hfull : (intMax : ℤ) < (r.beforeSqe idleCall).tasksCount + 1 ↔ intMax ≤ r.queued := by
    rw [hcount, outstanding, hsame, hqueued, hreaped, List.length_nil]
    omega
  have heq : r.kvsIoUringWrite idleCall = if (intMax : ℤ) < (r.beforeSqe idleCall).tasksCount + 1 then none
      else some ((r.beforeSqe idleCall).getSqe.prepare, 0) := h.write_eq rfl (by simp [idleCall]) rfl
  simp only [hfull] at heq
  exact heq

theorem idle_overflow {r : SubmissionRing} (n : ℕ) (h : r.Kept) (hreaped : r.reaped = []) (hn : r.queued + n = intMax) :
    writeCalls (List.replicate (n + 1) idleCall) r = none := by
  induction n generalizing r with
  | zero =>
    rw [List.replicate_one, writeCalls, idle_write h hreaped, if_pos (by omega)]
    rfl
  | succ n ih =>
    have hwrite := idle_write h hreaped
    rw [if_neg (by omega)] at hwrite
    obtain ⟨hsame, hqueued⟩ := beforeSqe_idle r
    have hrest := ih (h.write_kept hwrite).1 (hsame.trans hreaped) (by
      change (r.beforeSqe idleCall).queued + 1 + n = intMax
      omega)
    rw [List.replicate_succ, writeCalls, hwrite, Option.bind_eq_bind, Option.bind_some]
    dsimp only
    rw [hrest]
    rfl

theorem submission_queue_one_record :
    ∃ r rets, writeCalls [idleCall] start = some (r, rets) ∧
      (∀ q ∈ r.sqeCalls, q.unsubmitted ≤ 511 ∧ q.tasksCount = q.outstanding) ∧ -4 ∉ rets ∧
      ∃ n r', drain (fun _ => .brings [] 0) n r = some r' ∧ r'.reaped.Perm (List.range r.queued) ∧ r'.tasksCount = 0 :=
  submission_queue_if_bounded [idleCall] (fun _ => .brings [] 0) ⟨by decide, fun _ _ _ => trivial⟩ (fun _ => by simp)

/-- 2^31 records of which none is reaped: the last ++tasks_count overflows. -/
theorem tasks_count_overflows : ¬ ∃ r rets, writeCalls (List.replicate 2147483648 idleCall) start = some (r, rets) := by
  rintro ⟨r, rets, hrun⟩
  rw [idle_overflow 2147483647 Kept.start rfl rfl] at hrun
  cases hrun

/-! The traversal of a store over this ring, and the ring's calls as those of the model that only knows what the ring
answers. -/

def saveRecord (env : ℕ → RecordEnv) (turns : ℕ → List ℕ × ℕ) (type : EngineId) (key value : Option CString) (fd : ℤ)
    (x : SubmissionRing × ℕ) : Option ((SubmissionRing × ℕ) × ℤ) := do
  let buf ← buildSaveProtocol key value type (env x.2).frame
  let (r, ret) ← x.1.kvsIoUringWrite ⟨fd, buf, (env x.2).ctx, (turns x.2).1, (turns x.2).2⟩
  some ((r, x.2 + 1), ret)

theorem writeStore_kept {env : ℕ → RecordEnv} {turns : ℕ → List ℕ × ℕ} {s : Store} {fd : ℤ} {x : SubmissionRing × ℕ}
    {ret : ℤ} (h : writeStore (saveRecord env turns) s fd (start, 0) = some (x, ret)) : x.1.Kept := by
  have hstep : ∀ type key value fd (x y : SubmissionRing × ℕ), x = y ∧ x.1.Kept →
      Traversal.Follows (fun x y => x = y ∧ x.1.Kept) (saveRecord env turns type key value fd x)
        (saveRecord env turns type key value fd y) := by
    rintro type key value fd x _ ⟨rfl, hx⟩ x' ret' hrun
    refine ⟨x', hrun, rfl, ?_⟩
    obtain ⟨buf, -, hrun⟩ := Option.bind_eq_some_iff.mp hrun
    obtain ⟨⟨r, code⟩, hwrite, hrun⟩ := Option.bind_eq_some_iff.mp hrun
    obtain ⟨rfl, -⟩ := Prod.mk.inj (Option.some.inj hrun)
    exact (hx.write_kept hwrite).1
  obtain ⟨y, -, hxy⟩ := Traversal.writeStore_follows hstep (x := (start, 0)) ⟨rfl, Kept.start⟩ x ret h
  exact hxy.2

/-- The completions that the peek of a call takes, each with the result it carries. -/
def peeked (call : WriteCall) (res : ℕ → ℤ) (r : SubmissionRing) : List Completion :=
  let r := if targetLength ≤ r.tasksCount then r.submit else r
  (((r.finish call.finished).completed).take (min call.peek targetLength)).map (fun i => ⟨i, res i⟩)

theorem beforeSqe_tasksCount (call : WriteCall) (res : ℕ → ℤ) (r : SubmissionRing) :
    (r.beforeSqe call).tasksCount = r.tasksCount - (r.peeked call res).length := by
  rw [beforeSqe, peeked]
  split_ifs <;> simp only [reap, List.length_map] <;> rfl

/-- With these completions as the answer of the ring, and with an entry granted, the call returns the same and counts the
same. -/
theorem write_answered {r r' : SubmissionRing} (h : r.Kept) {call : WriteCall} {ret : ℤ} (res : ℕ → ℤ) (frame : Bool)
    (main : SaveCtx) (answers : List RingAnswer) (hwrite : r.kvsIoUringWrite call = some (r', ret)) :
    ∃ ctx, SaveRing.kvsIoUringWrite call.fd call.buf ⟨frame, call.ctx, true⟩
        ⟨main, r.tasksCount, .peeked (r.peeked call res) :: answers⟩ = some (ctx, ret) ∧
      ctx.tasksCount = r'.tasksCount := by
  unfold SaveRing.kvsIoUringWrite
  cases hbuf : call.buf with
  | none =>
    rw [kvsIoUringWrite, hbuf] at hwrite
    obtain ⟨rfl, rfl⟩ := Prod.mk.inj (Option.some.inj hwrite)
    exact ⟨_, rfl, rfl⟩
  | some buf =>
    dsimp only
    by_cases hargs : call.fd < 0 ∨ buf = []
    · rw [kvsIoUringWrite, hbuf] at hwrite
      obtain ⟨rfl, rfl⟩ := Prod.mk.inj (Option.some.inj ((if_pos hargs).symm.trans hwrite))
      rw [if_pos hargs]
      exact ⟨_, rfl, rfl⟩
    rw [if_neg hargs]
    cases hctx : call.ctx with
    | false =>
      rw [kvsIoUringWrite, hbuf] at hwrite
      obtain ⟨rfl, rfl⟩ := Prod.mk.inj (Option.some.inj (((if_neg hargs).trans (if_pos hctx)).symm.trans hwrite))
      exact ⟨_, rfl, rfl⟩
    | true =>
      rw [h.write_eq hbuf hargs hctx] at hwrite
      split_ifs at hwrite with hint
      obtain ⟨rfl, rfl⟩ := Prod.mk.inj (Option.some.inj hwrite)
      rw [beforeSqe_tasksCount call res r] at hint
      rw [if_neg (by simp), if_neg (by simp), if_neg hint]
      refine ⟨_, rfl, ?_⟩
      change r.tasksCount - (r.peeked call res).length + 1 = (r.beforeSqe call).tasksCount + 1
      rw [beforeSqe_tasksCount call res r]

end SubmissionRing

end Lidis
