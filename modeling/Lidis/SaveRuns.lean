import Lidis.Kvstore

namespace Lidis

/-- The answer to a SAVE while saving is enabled. -/
def saveAnswer (st : SaveState) (env : ForkEnv) : SaveState × Reply :=
  let (st, ret) := kvsSaveWrite true st env
  (st, if ret = 0 ∨ ret = 1 then .ok else .error)

theorem runCommand_save (P : Params) {token : CString} (key value : Option CString) (g : Global) (env : Env)
    (h : commandOf token = some .save) (hs : g.config.enableSave = true) :
    runCommand P token key value g env =
      some ({ g with save := (saveAnswer g.save env.save).1 }, (saveAnswer g.save env.save).2, false) := by
  simp only [runCommand, h, saveAnswer, hs]

inductive SaveEvent where
  | save (env : ForkEnv)
  | done (e : ChildEnd) (env : ForkEnv)

/-- The save machine with the kvs_save_child_done coroutines still to run, the children forked so far, and for every SAVE
answered +OK the number of children forked before it. -/
structure SaveRun where
  st : SaveState
  handlers : ℕ
  forks : ℕ
  answered : List ℕ
  deriving DecidableEq

namespace SaveRun

def start : SaveRun := ⟨⟨.idle, false, false⟩, 0, 0, []⟩

/-- One kvs_fork_save_child: the child is there once fork has returned, its handler once notify_fd is allocated. -/
def forking (r : SaveRun) (env : ForkEnv) : SaveRun :=
  { r with
    forks := if env.pair ∧ env.fork then r.forks + 1 else r.forks
    handlers := if env.pair ∧ env.fork ∧ env.notify then r.handlers + 1 else r.handlers }

def step (r : SaveRun) : SaveEvent → Option SaveRun
  | .save env =>
    let (st, reply) := saveAnswer r.st env
    let next := if r.st.status = .idle then r.forking env else r
    some { next with st := st, answered := if reply = .ok then r.forks :: r.answered else r.answered }
  | .done e env =>
    if r.handlers = 0 then none
    else
      let r := { r with handlers := r.handlers - 1 }
      let next := if r.st.pending ∧ e.Saved then r.forking env else r
      some { next with st := kvsSaveChildDone r.st e env }

/-- No child has been forked at or after some SAVE that was answered +OK. -/
def Owed (r : SaveRun) : Prop := r.forks ∈ r.answered

def Remembered (r : SaveRun) : Prop :=
  r.Owed → r.st.status = .running ∧ r.st.child = true ∧ 0 < r.handlers ∧ r.st.pending = true

/-- A child that ends while a SAVE is pending has saved, and the next one can be forked. -/
def Fine (r : SaveRun) : SaveEvent → Prop
  | .save _ => True
  | .done e env => r.st.pending = true → e.Saved ∧ env.pair = true ∧ env.fork = true

inductive Reached : SaveRun → Prop where
  | start : Reached start
  | step {r r' : SaveRun} {ev : SaveEvent} (h : Reached r) (hf : r.Fine ev) (hs : r.step ev = some r') : Reached r'

structure Tracks (r : SaveRun) : Prop where
  handlers : r.handlers = if r.st.status = .running then 1 else 0
  child : r.st.status = .running → r.st.child = true
  pending : r.st.pending = true ↔ r.Owed
  running : r.st.pending = true → r.st.status = .running
  before : ∀ n ∈ r.answered, n ≤ r.forks

theorem Tracks.remembered {r : SaveRun} (h : r.Tracks) : r.Remembered := by
  intro ho
  have hp := h.pending.mpr ho
  have hr := h.running hp
  refine ⟨hr, h.child hr, ?_, hp⟩
  rw [h.handlers, if_pos hr]
  exact Nat.one_pos

theorem start_tracks : start.Tracks :=
  ⟨rfl, by simp [start], by simp [start, Owed], by simp [start], by simp [start]⟩

/-- A child forked now comes after every SAVE answered so far. -/
theorem forking_tracks {r : SaveRun} {env : ForkEnv} {answered : List ℕ} (hpair : env.pair = true) (hfork : env.fork = true)
    (hnone : r.handlers = 0) (hans : ∀ n ∈ answered, n ≤ r.forks) (child : Bool) :
    Tracks { r.forking env with st := (kvsForkSaveChild ⟨.idle, child, false⟩ env).1, answered := answered } := by
  have hnew : r.forks + 1 ∉ answered := by
    intro hm
    have := hans _ hm
    omega
  have hlater : ∀ n ∈ answered, n ≤ r.forks + 1 := fun n hn => (hans n hn).trans (Nat.le_succ _)
  have hforks : (r.forking env).forks = r.forks + 1 := if_pos ⟨hpair, hfork⟩
  cases hnotify : env.notify with
  | true =>
    have hst : kvsForkSaveChild ⟨.idle, child, false⟩ env = (⟨.running, true, false⟩, 0) := by
      simp [kvsForkSaveChild, hpair, hfork, hnotify]
    have hhandlers : (r.forking env).handlers = 1 := by simp [forking, hpair, hfork, hnotify, hnone]
    rw [hst]
    exact ⟨hhandlers, fun _ => rfl, by simp [Owed, hforks, hnew], by simp, by simpa only [hforks] using hlater⟩
  | false =>
    have hst : kvsForkSaveChild ⟨.idle, child, false⟩ env = (⟨.error, true, false⟩, -1) := by
      simp [kvsForkSaveChild, hpair, hfork, hnotify]
    have hhandlers : (r.forking env).handlers = 0 := by simp [forking, hnotify, hnone]
    rw [hst]
    exact ⟨hhandlers, by simp, by simp [Owed, hforks, hnew], by simp, by simpa only [hforks] using hlater⟩

theorem fork_fails {env : ForkEnv} (hboth : ¬ (env.pair = true ∧ env.fork = true)) (child : Bool) :
    ∃ status, status ≠ .running ∧ kvsForkSaveChild ⟨.idle, child, false⟩ env = (⟨status, child, false⟩, -1) := by
  by_cases hpair : env.pair = true
  · have hfork : ¬ env.fork = true := fun hf => hboth ⟨hpair, hf⟩
    exact ⟨.error, by simp, by simp [kvsForkSaveChild, hpair, hfork]⟩
  · exact ⟨.idle, by simp, by simp [kvsForkSaveChild, hpair]⟩

/-- Without a child nothing is owed that was not owed before. -/
theorem childless_tracks {r : SaveRun} {env : ForkEnv} (h : r.Tracks) (hboth : ¬ (env.pair = true ∧ env.fork = true))
    (hnone : r.handlers = 0) (hp : r.st.pending = false) {child : Bool} {status : SaveStatus} (hst : status ≠ .running) :
    Tracks { r.forking env with st := ⟨status, child, false⟩, answered := r.answered } := by
  have howed : r.forks ∉ r.answered := fun ho => absurd (h.pending.mpr ho) (by simp [hp])
  have hforks : (r.forking env).forks = r.forks := if_neg hboth
  have hhandlers : (r.forking env).handlers = 0 := by
    rw [forking, if_neg (fun hall => hboth ⟨hall.1, hall.2.1⟩)]
    exact hnone
  refine ⟨by simpa [hst] using hhandlers, fun hr => absurd hr hst, ?_, by simp, ?_⟩
  · simpa [Owed, hforks] using howed
  · simpa only [hforks] using h.before

theorem Tracks.save {r : SaveRun} (env : ForkEnv) (h : r.Tracks) : Tracks {
    (if r.st.status = .idle then r.forking env else r) with
    st := (saveAnswer r.st env).1
    answered := if (saveAnswer r.st env).2 = .ok then r.forks :: r.answered else r.answered } := by
  obtain ⟨⟨status, child, pending⟩, handlers, forks, answered⟩ := r
  cases status with
  | running =>
    refine ⟨h.handlers, h.child, ?_, fun _ => rfl, ?_⟩
    · simp [saveAnswer, kvsSaveWrite, Owed]
    · simpa [saveAnswer, kvsSaveWrite] using h.before
  | error => exact ⟨h.handlers, h.child, h.pending, h.running, h.before⟩
  | idle =>
    have hidle : pending = false := by
      by_contra hp
      have := h.running (by simpa using hp)
      simp at this
    subst hidle
    have hnone : handlers = 0 := h.handlers
    by_cases hboth : env.pair = true ∧ env.fork = true
    · obtain ⟨hpair, hfork⟩ := hboth
      have hans : ∀ n ∈ (if (saveAnswer ⟨.idle, child, false⟩ env).2 = .ok then forks :: answered else answered),
          n ≤ forks := by
        split_ifs
        · simpa using h.before
        · exact h.before
      exact forking_tracks (r := ⟨⟨.idle, child, false⟩, handlers, forks, answered⟩) hpair hfork hnone hans child
    · obtain ⟨status, hst, hfail⟩ := fork_fails hboth child
      have hans : saveAnswer ⟨.idle, child, false⟩ env = (⟨status, child, false⟩, .error) := by
        simp [saveAnswer, kvsSaveWrite, hfail]
      rw [hans]
      exact childless_tracks h hboth hnone rfl hst

theorem childDone_idle {st : SaveState} (e : ChildEnd) (env : ForkEnv) (hp : st.pending = false) :
    ∃ status child, status ≠ .running ∧ kvsSaveChildDone st e env = ⟨status, child, false⟩ := by
  refine ⟨if e.Saved then .idle else .error, if e.reaped then false else st.child, by split_ifs <;> simp, ?_⟩
  simp [kvsSaveChildDone, hp]

theorem childDone_saved {st : SaveState} {e : ChildEnd} (env : ForkEnv) (hp : st.pending = true) (he : e.Saved) :
    kvsSaveChildDone st e env = (kvsForkSaveChild ⟨.idle, false, false⟩ env).1 := by
  simp [kvsSaveChildDone, hp, he, he.2.1]

theorem childDone_failed {st : SaveState} {e : ChildEnd} (env : ForkEnv) (he : ¬ e.Saved) :
    (kvsSaveChildDone st e env).status = .error := by
  simp [kvsSaveChildDone, he]

theorem Tracks.done {r r' : SaveRun} {e : ChildEnd} {env : ForkEnv} (h : r.Tracks) (hf : r.Fine (.done e env))
    (hs : r.step (.done e env) = some r') : r'.Tracks := by
  rw [step] at hs
  split_ifs at hs with h0
  obtain rfl := Option.some.inj hs
  have hnone : r.handlers - 1 = 0 := by
    have := h.handlers
    split_ifs at this <;> omega
  cases hp : r.st.pending with
  | true =>
    obtain ⟨hsaved, hpair, hfork⟩ := hf hp
    simp only [hsaved, and_self, ↓reduceIte, childDone_saved env hp hsaved]
    exact forking_tracks (r := { r with handlers := r.handlers - 1 }) hpair hfork hnone h.before false
  | false =>
    obtain ⟨status, child, hst, hdone⟩ := childDone_idle e env hp
    have howed : r.forks ∉ r.answered := fun ho => absurd (h.pending.mpr ho) (by simp [hp])
    simp only [Bool.false_eq_true, false_and, ↓reduceIte, hdone]
    exact ⟨by simpa [hst] using hnone, fun hr => absurd hr hst, by simpa [Owed] using howed, by simp, h.before⟩

/-- The SAVE that was pending is still owed, and nobody is left to carry it out. -/
theorem Tracks.forgotten {r r' : SaveRun} {e : ChildEnd} {env : ForkEnv} (h : r.Tracks) (hf : ¬ r.Fine (.done e env))
    (hs : r.step (.done e env) = some r') : ¬ r'.Remembered := by
  rw [step] at hs
  split_ifs at hs with h0
  obtain rfl := Option.some.inj hs
  simp only [Fine, Classical.not_imp] at hf
  obtain ⟨hp, hf⟩ := hf
  have howed := h.pending.mp hp
  by_cases hsaved : e.Saved
  · have hboth : ¬ (env.pair = true ∧ env.fork = true) := fun hb => hf ⟨hsaved, hb⟩
    obtain ⟨status, hst, hfail⟩ := fork_fails hboth false
    intro hrem
    simp only [hp, hsaved, and_self, ↓reduceIte, childDone_saved env hp hsaved, hfail, Remembered] at hrem
    refine hst (hrem ?_).1
    simpa only [Owed, forking, if_neg hboth] using howed
  · intro hrem
    simp only [hsaved, and_false, ↓reduceIte, Remembered, childDone_failed env hsaved] at hrem
    exact absurd (hrem howed).1 (by simp)

theorem Reached.tracks {r : SaveRun} (h : r.Reached) : r.Tracks := by
  induction h with
  | start => exact start_tracks
  | @step r r' ev _ hf hs ih =>
    cases ev with
    | save env =>
      obtain rfl := Option.some.inj hs
      exact ih.save env
    | done e env => exact ih.done hf hs

/-- A SAVE answered +OK is remembered in every state reached, up to the first child that ends without having saved, or
without a next child, while it is pending. -/
theorem acknowledged_save_remembered_iff (r : SaveRun) (h : r.Reached) :
    r.Remembered ∧ ∀ ev r', r.step ev = some r' → (r'.Remembered ↔ r.Fine ev) := by
  have ht := h.tracks
  refine ⟨ht.remembered, fun ev r' hs => ?_⟩
  constructor
  · intro hrem
    by_contra hf
    cases ev with
    | save env => exact hf trivial
    | done e env => exact ht.forgotten hf hs hrem
  · intro hf
    exact (h.step hf hs).tracks.remembered

def granted : ForkEnv := ⟨true, true, true⟩

theorem acknowledged_save_remembered_iff_example :
    ∃ r, (start.step (.save granted)).bind (fun r => r.step (.save granted)) = some r ∧ r.Owed ∧ r.Remembered := by
  have hfine : ∀ r : SaveRun, r.Fine (.save granted) := fun _ => trivial
  have hfirst : Reached ⟨⟨.running, true, false⟩, 1, 1, [0]⟩ := Reached.start.step (hfine _) (by decide)
  have hsecond : Reached ⟨⟨.running, true, true⟩, 1, 1, [1, 0]⟩ := hfirst.step (hfine _) (by decide)
  exact ⟨_, by decide, List.mem_cons_self, (acknowledged_save_remembered_iff _ hsecond).1⟩

/-- The second SAVE is answered +OK and waits for the child. The child fails, or no socket pair is to be had for the next
one: no child is forked after that SAVE, and none ever will be for it. -/
theorem acknowledged_save_forgotten :
    ((start.step (.save granted)).bind (fun r => r.step (.save granted))).bind
        (fun r => r.step (.done ⟨true, true, false⟩ granted)) = some ⟨⟨.error, false, true⟩, 0, 1, [1, 0]⟩ ∧
      ((start.step (.save granted)).bind (fun r => r.step (.save granted))).bind
        (fun r => r.step (.done ⟨true, true, true⟩ ⟨false, true, true⟩)) = some ⟨⟨.idle, false, false⟩, 0, 1, [1, 0]⟩ ∧
      ¬ Remembered ⟨⟨.error, false, true⟩, 0, 1, [1, 0]⟩ ∧ ¬ Remembered ⟨⟨.idle, false, false⟩, 0, 1, [1, 0]⟩ := by
  refine ⟨by decide, by decide, ?_, ?_⟩ <;> simp [Remembered, Owed]

end SaveRun

end Lidis
