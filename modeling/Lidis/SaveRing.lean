import Lidis.SnapshotContent

namespace Lidis

/-- One completion: which of the queued writes it is for, and its result. -/
structure Completion where
  write : ℕ
  res : ℤ

/-- What the ring answers in turn: the batch that io_uring_peek_batch_cqe finds, a completion that io_uring_wait_cqe
brings, or its failure. -/
inductive RingAnswer where
  | peeked (batch : List Completion)
  | waited (c : Completion)
  | failed

def RingAnswer.completions : RingAnswer → List Completion
  | .peeked batch => batch
  | .waited c => [c]
  | .failed => []

def completions (answers : List RingAnswer) : List Completion := answers.flatMap RingAnswer.completions

/-- The context with the ring: `answers` are those still to come. -/
structure RingCtx where
  main : SaveCtx
  tasksCount : ℤ
  answers : List RingAnswer

namespace SaveRing

/-- `none` is a ring that does not answer, so that the call does not come back, or the overflow of tasks_count, an int. -/
def kvsIoUringWrite (fd : ℤ) (buf : Option Bytes) (env : RecordEnv) (ctx : RingCtx) : Option (RingCtx × ℤ) :=
  let ret (ctx : RingCtx) (code : ℤ) :=
    some ({ ctx with main := { ctx.main with returns := ctx.main.returns ++ [code] } }, code)
  match buf with
  | none => ret ctx (-1)
  | some buf =>
    if fd < 0 ∨ buf = [] then ret ctx (-1)
    else if ¬ env.ctx then ret ctx (-2)
    else
      match ctx.answers with
      | .peeked batch :: answers =>
        -- the results of the batch are not looked at
        let ctx := { ctx with tasksCount := ctx.tasksCount - batch.length, answers := answers }
        if ¬ env.sqe then ret ctx (-4)
        else if intMax < ctx.tasksCount + 1 then none
        else ret { ctx with
          tasksCount := ctx.tasksCount + 1
          main := { ctx.main with
            offset := ctx.main.offset + buf.length, writes := ctx.main.writes ++ [(ctx.main.offset, buf)] } } 0
      | _ => none

def saveRecord (env : ℕ → RecordEnv) (type : EngineId) (key value : Option CString) (fd : ℤ) (ctx : RingCtx) :
    Option (RingCtx × ℤ) := do
  let buf ← buildSaveProtocol key value type (env ctx.main.returns.length).frame
  kvsIoUringWrite fd buf (env ctx.main.returns.length) ctx

end SaveRing

namespace Traversal

/-- A run of the loops over one context that another run follows, with the same returns. -/
def Follows {σ τ : Type} (R : σ → τ → Prop) (r : Option (σ × ℤ)) (q : Option (τ × ℤ)) : Prop :=
  ∀ x ret, r = some (x, ret) → ∃ y, q = some (y, ret) ∧ R x y

section Follows

variable {σ τ : Type} {R : σ → τ → Prop}

theorem Follows.pure {x : σ} {y : τ} (h : R x y) (ret : ℤ) : Follows R (some (x, ret)) (some (y, ret)) := by
  rintro x' ret' he
  obtain ⟨rfl, rfl⟩ := Prod.mk.inj (Option.some.inj he)
  exact ⟨y, rfl, h⟩

theorem Follows.bind {r : Option (σ × ℤ)} {q : Option (τ × ℤ)} {f : σ × ℤ → Option (σ × ℤ)}
    {g : τ × ℤ → Option (τ × ℤ)} (h : Follows R r q) (hfg : ∀ x y ret, R x y → Follows R (f (x, ret)) (g (y, ret))) :
    Follows R (r.bind f) (q.bind g) := by
  intro x' ret' he
  obtain ⟨⟨x, ret⟩, hr, hf⟩ := Option.bind_eq_some_iff.mp he
  obtain ⟨y, hq, hxy⟩ := h x ret hr
  obtain ⟨y', hg, hxy'⟩ := hfg x y ret hxy x' ret' hf
  exact ⟨y', by rw [hq, Option.bind_some, hg], hxy'⟩

theorem Follows.ite {c : Prop} [Decidable c] {r r' : Option (σ × ℤ)} {q q' : Option (τ × ℤ)} (h : Follows R r q)
    (h' : Follows R r' q') : Follows R (if c then r else r') (if c then q else q') := by
  by_cases hc : c
  · rwa [if_pos hc, if_pos hc]
  · rwa [if_neg hc, if_neg hc]

variable {write : EngineId → Option CString → Option CString → ℤ → σ → Option (σ × ℤ)}
  {write' : EngineId → Option CString → Option CString → ℤ → τ → Option (τ × ℤ)}
  (hw : ∀ type key value fd x y, R x y → Follows R (write type key value fd x) (write' type key value fd y))

include hw

theorem writeRbtree_follows {T : Rbtree} {n : ℕ} {node : Ptr} {fd : ℤ} {x : σ} {y : τ} (h : R x y) :
    Follows R (kvsSaveWriteRbtree write T n node fd x) (kvsSaveWriteRbtree write' T n node fd y) := by
  induction n generalizing node fd x y with
  | zero =>
    intro x' ret he
    cases he
  | succ n ih =>
    rw [kvsSaveWriteRbtree, kvsSaveWriteRbtree]
    apply Follows.ite (.pure h fd)
    apply Follows.ite _ (.pure h 0)
    apply (hw _ _ _ _ x y h).bind
    intro x₁ y₁ ret h₁
    apply (ih h₁).bind
    intro x₂ y₂ _ h₂
    apply (ih h₂).bind
    intro x₃ y₃ _ h₃
    exact .pure h₃ ret

theorem saveChain_follows {fd : ℤ} {chain : List HashNode} {x : σ} {y : τ} (h : R x y) :
    Follows R (saveChain write fd chain x) (saveChain write' fd chain y) := by
  induction chain generalizing x y with
  | nil => exact .pure h 0
  | cons node rest ih =>
    apply (hw _ _ _ _ x y h).bind
    intro x₁ y₁ ret h₁
    exact .ite (.pure h₁ ret) (ih h₁)

theorem saveBuckets_follows {H : KvsHash} {fd : ℤ} {n i : ℕ} {count : ℤ} {x : σ} {y : τ} (h : R x y) :
    Follows R (saveBuckets write H fd n i count x) (saveBuckets write' H fd n i count y) := by
  induction n generalizing i count x y with
  | zero => exact .pure h 0
  | succ n ih =>
    apply (saveChain_follows hw h).bind
    intro x₁ y₁ ret h₁
    exact .ite (.pure h₁ ret) (.ite (.pure h₁ 0) (ih h₁))

theorem saveSlots_follows {fd : ℤ} {slots : List Slot} {count : ℤ} {x : σ} {y : τ} (h : R x y) :
    Follows R (saveSlots write fd slots count x) (saveSlots write' fd slots count y) := by
  induction slots generalizing count x y with
  | nil => exact .pure h 0
  | cons slot rest ih =>
    rw [saveSlots, saveSlots]
    cases slot.key with
    | none => exact .ite (.pure h 0) (ih h)
    | some key =>
      apply (hw _ _ _ _ x y h).bind
      intro x₁ y₁ ret h₁
      exact .ite (.pure h₁ ret) (.ite (.pure h₁ 0) (ih h₁))

theorem saveNodes_follows {S : Skiplist} {fd : ℤ} {n current : ℕ} {x : σ} {y : τ} (h : R x y) :
    Follows R (saveNodes write S fd n current x) (saveNodes write' S fd n current y) := by
  induction n generalizing current x y with
  | zero =>
    intro x' ret he
    cases he
  | succ n ih =>
    rw [saveNodes, saveNodes]
    apply Follows.ite _ (.pure h 0)
    apply (hw _ _ _ _ x y h).bind
    intro x₁ y₁ ret h₁
    apply Follows.ite (.pure h₁ ret)
    cases S.fwd current 0 with
    | none =>
      intro x' ret' he
      cases he
    | some next => exact ih h₁

theorem writeStore_follows {s : Store} {fd : ℤ} {x : σ} {y : τ} (h : R x y) :
    Follows R (writeStore write s fd x) (writeStore write' s fd y) := by
  apply (writeRbtree_follows hw h).bind
  intro x₁ y₁ ret₁ h₁
  apply Follows.ite (.pure h₁ ret₁)
  have hhash : Follows R (saveHash write s.hash fd x₁) (saveHash write' s.hash fd y₁) :=
    .ite (saveBuckets_follows hw h₁) (.pure h₁ 0)
  apply hhash.bind
  intro x₂ y₂ ret₂ h₂
  apply Follows.ite (.pure h₂ ret₂)
  have harray : Follows R (saveArray write s.array fd x₂) (saveArray write' s.array fd y₂) :=
    .ite (saveSlots_follows hw h₂) (.pure h₂ 0)
  apply harray.bind
  intro x₃ y₃ ret₃ h₃
  apply Follows.ite (.pure h₃ ret₃)
  cases s.skiplist.fwd s.skiplist.header 0 with
  | none =>
    intro x' ret' he
    cases he
  | some current => exact saveNodes_follows hw h₃

end Follows

end Traversal

namespace SaveRing

/-- The final wait: each completion is freed and counted, whatever its result, and a failing wait ends it. -/
def waitLoop (main : SaveCtx) : ℤ → List RingAnswer → Option RingCtx
  | tasks, .waited _ :: answers =>
    if tasks - 1 = 0 then some ⟨main, tasks - 1, answers⟩ else waitLoop main (tasks - 1) answers
  | tasks, .failed :: answers => some ⟨main, tasks, answers⟩
  | _, _ => none

def kvsTraversalWrite (env : ℕ → RecordEnv) (s : Store) (fd : ℤ) (ctx : RingCtx) : Option (RingCtx × ℤ) := do
  let (ctx, ret) ← writeStore (saveRecord env) s fd ctx
  if ret ≠ 0 then some (ctx, ret)
  else if ctx.tasksCount ≠ 0 then do
    let ctx ← waitLoop ctx.main ctx.tasksCount ctx.answers
    some (ctx, ret)
  else some (ctx, ret)

end SaveRing

/-- What kvs_save_start meets: io_uring_queue_init succeeds, open returns `fd`, and the outcomes of the records. -/
structure StartEnv where
  ring : Bool
  fd : ℤ
  record : ℕ → RecordEnv

structure StartRun where
  code : ℤ
  renamed : Bool
  ctx : RingCtx

def RingCtx.start (answers : List RingAnswer) : RingCtx := ⟨.start, 0, answers⟩

def kvsSaveStart (env : StartEnv) (s : Store) (answers : List RingAnswer) : Option StartRun :=
  if ¬ env.ring then some ⟨-1, false, .start answers⟩
  else if env.fd < 0 then some ⟨-2, false, .start answers⟩
  else do
    let (ctx, ret) ← SaveRing.kvsTraversalWrite env.record s env.fd (.start answers)
    if ret ≠ 0 then some ⟨-3, false, ctx⟩ else some ⟨0, true, ctx⟩

namespace SaveRing

/-- The context without the ring, what of `answers` was used up, and what tasks_count counts. -/
structure Counts (answers : List RingAnswer) (ctx : RingCtx) (main : SaveCtx) : Prop where
  same : ctx.main = main
  counted : ∃ used, answers = used ++ ctx.answers ∧ .failed ∉ used ∧
    ctx.tasksCount = main.writes.length - (completions used).length

theorem counts_start (answers : List RingAnswer) : Counts answers (.start answers) .start :=
  ⟨rfl, [], rfl, by simp, rfl⟩

theorem completions_append (xs ys : List RingAnswer) : completions (xs ++ ys) = completions xs ++ completions ys :=
  List.flatMap_append

theorem kvsIoUringWrite_follows {answers : List RingAnswer} {fd : ℤ} {buf : Option Bytes} {env : RecordEnv} {ctx : RingCtx}
    {main : SaveCtx} (h : Counts answers ctx main) :
    Traversal.Follows (Counts answers) (kvsIoUringWrite fd buf env ctx) (some (Lidis.kvsIoUringWrite fd buf env main)) := by
  obtain ⟨rfl, hcounted⟩ := h
  have hpure : ∀ code, Traversal.Follows (Counts answers)
      (some ({ ctx with main := { ctx.main with returns := ctx.main.returns ++ [code] } }, code))
      (some ({ ctx.main with returns := ctx.main.returns ++ [code] }, code)) := fun code => .pure ⟨rfl, hcounted⟩ code
  cases buf with
  | none => exact hpure (-1)
  | some buf =>
    simp only [kvsIoUringWrite, Lidis.kvsIoUringWrite]
    by_cases hbad : fd < 0 ∨ buf = []
    · simp only [if_pos hbad]
      exact hpure (-1)
    simp only [if_neg hbad]
    by_cases hctx : ¬ env.ctx = true
    · simp only [if_pos hctx]
      exact hpure (-2)
    simp only [if_neg hctx]
    obtain ⟨used, hused, hpeeks, htasks⟩ := hcounted
    rcases hanswers : ctx.answers with _ | ⟨_ | _ | _, rest⟩
    · intro x ret he
      cases he
    · next batch =>
      have hused' : answers = (used ++ [.peeked batch]) ++ rest := by
        rw [hused, hanswers, List.append_assoc]
        rfl
      have hpeeks' : RingAnswer.failed ∉ used ++ [.peeked batch] := by simp [hpeeks]
      have hbatch : (completions (used ++ [.peeked batch])).length = (completions used).length + batch.length := by
        rw [completions_append, List.length_append]
        simp [completions, RingAnswer.completions]
      by_cases hsqe : ¬ env.sqe = true
      · simp only [if_pos hsqe]
        refine .pure ⟨rfl, used ++ [.peeked batch], hused', hpeeks', ?_⟩ _
        simp only [htasks, hbatch]
        omega
      · simp only [if_neg hsqe]
        by_cases hint : intMax < ctx.tasksCount - batch.length + 1
        · rw [if_pos hint]
          intro x ret he
          cases he
        rw [if_neg hint]
        refine .pure ⟨rfl, used ++ [.peeked batch], hused', hpeeks', ?_⟩ _
        simp only [htasks, hbatch, List.length_append, List.length_singleton]
        omega
    · intro x ret he
      cases he
    · intro x ret he
      cases he

theorem saveRecord_follows {answers : List RingAnswer} (env : ℕ → RecordEnv) (type : EngineId)
    (key value : Option CString) (fd : ℤ) (ctx : RingCtx) (main : SaveCtx) (h : Counts answers ctx main) :
    Traversal.Follows (Counts answers) (saveRecord env type key value fd ctx)
      (Lidis.saveRecord env type key value fd main) := by
  rw [saveRecord, Lidis.saveRecord, h.same]
  cases buildSaveProtocol key value type (env main.returns.length).frame with
  | none =>
    intro x ret he
    cases he
  | some buf => exact kvsIoUringWrite_follows h

theorem waitLoop_spec {main : SaveCtx} {tasks : ℤ} {answers : List RingAnswer} {ctx : RingCtx} (hne : tasks ≠ 0)
    (h : waitLoop main tasks answers = some ctx) :
    ∃ used, answers = used ++ ctx.answers ∧ ctx.main = main ∧ ctx.tasksCount = tasks - (completions used).length ∧
      (.failed ∉ used ↔ ctx.tasksCount = 0) := by
  induction answers generalizing tasks with
  | nil => cases h
  | cons answer answers ih =>
    cases answer with
    | peeked batch => cases h
    | failed =>
      obtain rfl := Option.some.inj h
      exact ⟨[.failed], rfl, rfl, by simp [completions, RingAnswer.completions], by simp [hne]⟩
    | waited c =>
      rw [waitLoop] at h
      by_cases hlast : tasks - 1 = 0
      · rw [if_pos hlast] at h
        obtain rfl := Option.some.inj h
        exact ⟨[.waited c], rfl, rfl, by simp [completions, RingAnswer.completions], by simp [hlast]⟩
      · rw [if_neg hlast] at h
        obtain ⟨used, rfl, hmain, htasks, hfailed⟩ := ih hlast h
        refine ⟨.waited c :: used, rfl, hmain, ?_, by simpa using hfailed⟩
        have hlen : (completions (.waited c :: used)).length = (completions used).length + 1 := by
          simp [completions, RingAnswer.completions, Nat.add_comm]
        rw [htasks, hlen]
        omega

/-- The traversal with the ring is the traversal without it: the returns are the same, and where it ends with 0 the
completions it took make up for the writes just where no wait failed. -/
theorem kvsTraversalWrite_main {env : ℕ → RecordEnv} {s : Store} {fd : ℤ} {answers : List RingAnswer} {ctx : RingCtx}
    {ret : ℤ} (h : kvsTraversalWrite env s fd (.start answers) = some (ctx, ret)) :
    Lidis.kvsTraversalWrite env s fd .start = some (ctx.main, ret) ∧
      (ret = 0 → ∃ used, answers = used ++ ctx.answers ∧
        ctx.tasksCount = ctx.main.writes.length - (completions used).length ∧ (.failed ∉ used ↔ ctx.tasksCount = 0)) := by
  obtain ⟨⟨mid, ret'⟩, hstore, h⟩ := Option.bind_eq_some_iff.mp h
  obtain ⟨main, hmain, rfl, used, hused, hpeeks, htasks⟩ := Traversal.writeStore_follows (saveRecord_follows env)
    (counts_start answers) mid ret' hstore
  change Lidis.kvsTraversalWrite env s fd .start = some (mid.main, ret') at hmain
  dsimp only at h
  by_cases hret : ret' ≠ 0
  · rw [if_pos hret] at h
    obtain ⟨rfl, rfl⟩ := Prod.mk.inj (Option.some.inj h)
    exact ⟨hmain, fun h0 => absurd h0 hret⟩
  rw [if_neg hret] at h
  by_cases htask : mid.tasksCount ≠ 0
  · rw [if_pos htask] at h
    obtain ⟨last, hwait, h⟩ := Option.bind_eq_some_iff.mp h
    obtain ⟨rfl, rfl⟩ := Prod.mk.inj (Option.some.inj h)
    obtain ⟨waits, hwaits, hsame, hcount, hfailed⟩ := waitLoop_spec htask hwait
    refine ⟨by rw [hsame, hmain], fun _ => ⟨used ++ waits, ?_, ?_, ?_⟩⟩
    · rw [hused, hwaits, List.append_assoc]
    · rw [hcount, htasks, hsame, completions_append, List.length_append]
      omega
    · simp [hpeeks, hfailed]
  · rw [if_neg htask] at h
    obtain ⟨rfl, rfl⟩ := Prod.mk.inj (Option.some.inj h)
    exact ⟨hmain, fun _ => ⟨used, hused, htasks, by simp [hpeeks, not_not.mp htask]⟩⟩

end SaveRing

theorem kvsSaveStart_cases {env : StartEnv} {s : Store} {answers : List RingAnswer} {run : StartRun}
    (h : kvsSaveStart env s answers = some run) :
    (¬ (env.ring = true ∧ 0 ≤ env.fd) ∧ run.code ≠ 0 ∧ run.renamed = false) ∨
      (env.ring = true ∧ 0 ≤ env.fd ∧ ∃ ret, SaveRing.kvsTraversalWrite env.record s env.fd (.start answers) =
        some (run.ctx, ret) ∧ (run.code = 0 ↔ ret = 0) ∧ (run.renamed = true ↔ ret = 0)) := by
  rw [kvsSaveStart] at h
  by_cases hring : ¬ env.ring = true
  · rw [if_pos hring] at h
    obtain rfl := Option.some.inj h
    exact .inl ⟨fun hc => hring hc.1, by simp, rfl⟩
  rw [if_neg hring] at h
  by_cases hopen : env.fd < 0
  · rw [if_pos hopen] at h
    obtain rfl := Option.some.inj h
    exact .inl ⟨fun hc => absurd hc.2 (not_le.mpr hopen), by simp, rfl⟩
  rw [if_neg hopen] at h
  obtain ⟨⟨ctx, ret⟩, hwrite, h⟩ := Option.bind_eq_some_iff.mp h
  refine .inr ⟨not_not.mp hring, not_lt.mp hopen, ret, ?_⟩
  dsimp only at h
  by_cases hret : ret ≠ 0
  · rw [if_pos hret] at h
    obtain rfl := Option.some.inj h
    exact ⟨hwrite, by simp [hret], by simp [hret]⟩
  · rw [if_neg hret] at h
    obtain rfl := Option.some.inj h
    exact ⟨hwrite, by simp [not_not.mp hret], by simp [not_not.mp hret]⟩

end Lidis
