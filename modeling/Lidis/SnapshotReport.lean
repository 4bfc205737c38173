import Lidis.SaveRing

namespace Lidis

open Engine Store

/-- The k-th record to be written is `e`: a signed overflow, or whether it is queued. -/
def attempt (env : ℕ → RecordEnv) (k : ℕ) (e : Met) : Option Bool :=
  (buildSaveProtocol (some e.2.1) e.2.2 e.1 (env k).frame).map (fun buf => buf.isSome && (env k).ctx && (env k).sqe)

/-- A walk over a tree, a node before its subtrees, that counts the attempts: below an attempt that fails there are none. -/
def walk {α : Type} (ok : ℕ → α → Option Bool) : RedBlack.ColoredTree α → ℕ → Option (ℕ × Bool)
  | .leaf, k => some (k, true)
  | .node _ l x r, k => do
    if ← ok k x then
      let (k, a) ← walk ok l (k + 1)
      let (k, b) ← walk ok r k
      some (k, a && b)
    else some (k + 1, false)

section Attempts

variable {env : ℕ → RecordEnv} {fd : ℤ}

theorem built_ne_nil {key value : Option CString} {type : EngineId} {alloc : Bool} {buf : Bytes}
    (h : buildSaveProtocol key value type alloc = some (some buf)) : buf ≠ [] := by
  rcases key with _ | key
  · cases h
  rcases value with _ | value
  · cases h
  simp only [buildSaveProtocol] at h
  split_ifs at h
  · cases h
  · obtain rfl := Option.some.inj (Option.some.inj h)
    simp [Kvsp.headOf]
  · cases h

theorem saveRecord_attempt (hfd : 0 ≤ fd) (e : Met) (ctx : SaveCtx) :
    (attempt env ctx.returns.length e = none ∧ saveRecord env e.1 (some e.2.1) e.2.2 fd ctx = none) ∨
      ∃ ctx' code, saveRecord env e.1 (some e.2.1) e.2.2 fd ctx = some (ctx', code) ∧
        ctx'.returns = ctx.returns ++ [code] ∧ code ≤ 0 ∧
        attempt env ctx.returns.length e = some (decide (code = 0)) := by
  rw [attempt, saveRecord]
  rcases hbuild : buildSaveProtocol (some e.2.1) e.2.2 e.1 (env ctx.returns.length).frame with _ | _ | buf
  · exact .inl ⟨rfl, rfl⟩
  · exact .inr ⟨_, -1, rfl, rfl, by decide, rfl⟩
  · right
    have hgood : ¬ (fd < 0 ∨ buf = []) := by simp [not_lt.mpr hfd, built_ne_nil hbuild]
    simp only [bind, Option.bind_some, kvsIoUringWrite, if_neg hgood]
    cases hctx : (env ctx.returns.length).ctx with
    | false => exact ⟨_, -2, rfl, rfl, by decide, rfl⟩
    | true =>
      cases hsqe : (env ctx.returns.length).sqe with
      | false => exact ⟨_, -4, rfl, rfl, by decide, rfl⟩
      | true => exact ⟨_, 0, rfl, rfl, le_rfl, rfl⟩

/-- A run of the traversal that makes the attempts of a walk: as many returns, all 0 just where the walk says so. -/
def Tracks (ctx : SaveCtx) : Option (ℕ × Bool) → Option (SaveCtx × ℤ) → Prop
  | none, r => r = none
  | some (k, good), r => ∃ codes ctx' ret, r = some (ctx', ret) ∧ ctx'.returns = ctx.returns ++ codes ∧
      k = (ctx.returns ++ codes).length ∧ (good = true ↔ ∀ c ∈ codes, c = 0)

theorem Tracks.both {ctx : SaveCtx} {w : Option (ℕ × Bool)} {r : Option (SaveCtx × ℤ)} {v : ℕ → Option (ℕ × Bool)}
    {f : SaveCtx → Option (SaveCtx × ℤ)} (h : Tracks ctx w r) (hf : ∀ ctx', Tracks ctx' (v ctx'.returns.length) (f ctx'))
    (ret : ℤ) :
    Tracks ctx (w.bind (fun p => (v p.1).bind (fun q => some (q.1, p.2 && q.2))))
      (r.bind (fun p => (f p.1).bind (fun q => some (q.1, ret)))) := by
  rcases w with _ | ⟨k, a⟩
  · rw [show r = none from h]
    rfl
  · obtain ⟨codes, ctx₁, ret₁, rfl, hcodes, rfl, ha⟩ := h
    have hrest := hf ctx₁
    rw [hcodes] at hrest
    simp only [Option.bind_some]
    rcases hv : v (ctx.returns ++ codes).length with _ | ⟨k', b⟩ <;> rw [hv] at hrest
    · rw [show f ctx₁ = none from hrest]
      rfl
    · obtain ⟨codes', ctx₂, ret₂, hf₂, hcodes', rfl, hb⟩ := hrest
      rw [hf₂]
      refine ⟨codes ++ codes', ctx₂, ret, rfl, by rw [hcodes', hcodes, List.append_assoc], ?_, ?_⟩
      · rw [hcodes, List.append_assoc]
      · rw [Bool.and_eq_true, ha, hb]
        simp only [List.mem_append, or_imp, forall_and]

theorem Tracks.after {ctx ctx₁ : SaveCtx} {w : Option (ℕ × Bool)} {r : Option (SaveCtx × ℤ)}
    (h : Tracks ctx₁ w r) (hone : ctx₁.returns = ctx.returns ++ [0]) : Tracks ctx w r := by
  rcases w with _ | ⟨k, good⟩
  · exact h
  · obtain ⟨codes, ctx', ret, rfl, hcodes, rfl, hgood⟩ := h
    refine ⟨0 :: codes, ctx', ret, rfl, ?_, ?_, ?_⟩
    · rw [hcodes, hone, List.append_assoc]
      rfl
    · rw [hone, List.append_assoc]
      rfl
    · simpa using hgood

theorem writeRbtree_walk (hfd : 0 ≤ fd) {T : Rbtree} {t : RedBlack.ColoredTree Ptr} {q : Ptr} {n : ℕ}
    (h : Rbtree.Rep T q t) (hnil : T.nil ∉ t.items) (hn : t.items.length < n) (ctx : SaveCtx) :
    Tracks ctx (walk (fun k p => attempt env k (treeEntry T p)) t ctx.returns.length)
      (kvsSaveWriteRbtree (saveRecord env) T n (Rbtree.ptrOf T.nil t) fd ctx) := by
  induction t generalizing q n ctx with
  | leaf =>
    obtain ⟨n, rfl⟩ := Nat.exists_eq_succ_of_ne_zero (by omega : n ≠ 0)
    rw [kvsSaveWriteRbtree, if_neg (not_lt.mpr hfd), if_neg (by simp [Rbtree.ptrOf])]
    exact ⟨[], ctx, 0, rfl, by simp, by simp, by simp⟩
  | node c l x r ihl ihr =>
    obtain ⟨n, rfl⟩ := Nat.exists_eq_succ_of_ne_zero (by omega : n ≠ 0)
    obtain ⟨-, -, hl, hr, hrl, hrr⟩ := h
    simp only [RedBlack.ColoredTree.items, List.mem_append, List.mem_cons, not_or] at hnil
    simp only [RedBlack.ColoredTree.items, List.length_append, List.length_cons] at hn
    obtain ⟨n, rfl⟩ := Nat.exists_eq_succ_of_ne_zero (by omega : n ≠ 0)
    rw [Rbtree.ptrOf, kvsSaveWriteRbtree, if_neg (not_lt.mpr hfd), if_pos (Ne.symm hnil.2.1), hl, hr, walk]
    rcases saveRecord_attempt hfd (treeEntry T x) ctx with ⟨hnone, hsave⟩ | ⟨ctx₁, code, hsave, hcodes, hle, hgood⟩
    · rw [hnone, show saveRecord env .rbtree (some (T.key x)) (T.value x) fd ctx = none from hsave]
      rfl
    · rw [hgood, show saveRecord env .rbtree (some (T.key x)) (T.value x) fd ctx = some (ctx₁, code) from hsave]
      rcases hle.lt_or_eq with hneg | rfl
      · -- the subtrees get the code as their fd and turn away
        simp only [hneg, hneg.ne, ↓reduceIte, kvsSaveWriteRbtree, bind, Option.bind, decide_false, Bool.false_eq_true]
        exact ⟨[code], ctx₁, code, rfl, hcodes, by simp, by simp [hneg.ne]⟩
      · have hboth := ((ihl hrl hnil.1 (by omega : l.items.length < n + 1) ctx₁).both
          (ihr hrr hnil.2.2 (by omega : r.items.length < n + 1)) 0).after hcodes
        rw [hcodes, List.length_append, List.length_singleton] at hboth
        exact hboth

def RootQueued {α : Type} (ok : ℕ → α → Option Bool) (k : ℕ) : RedBlack.ColoredTree α → Prop
  | .leaf => True
  | .node _ _ x _ => ok k x = some true

theorem writeRbtree_ret (hfd : 0 ≤ fd) {T : Rbtree} {t : RedBlack.ColoredTree Ptr} {n : ℕ} {ctx ctx' : SaveCtx} {ret : ℤ}
    (hnil : T.nil ∉ t.items) (h : kvsSaveWriteRbtree (saveRecord env) T n (Rbtree.ptrOf T.nil t) fd ctx = some (ctx', ret)) :
    ret = 0 ↔ RootQueued (fun k p => attempt env k (treeEntry T p)) ctx.returns.length t := by
  cases n with
  | zero => cases h
  | succ n =>
    cases t with
    | leaf =>
      rw [kvsSaveWriteRbtree, if_neg (not_lt.mpr hfd), if_neg (by simp [Rbtree.ptrOf])] at h
      obtain ⟨-, rfl⟩ := Prod.mk.inj (Option.some.inj h)
      exact iff_of_true rfl trivial
    | node c l x r =>
      simp only [RedBlack.ColoredTree.items, List.mem_append, List.mem_cons, not_or] at hnil
      rw [Rbtree.ptrOf, kvsSaveWriteRbtree, if_neg (not_lt.mpr hfd), if_pos (Ne.symm hnil.2.1)] at h
      obtain ⟨⟨ctx₁, code⟩, hsave, h⟩ := Option.bind_eq_some_iff.mp h
      obtain ⟨left, -, h⟩ := Option.bind_eq_some_iff.mp h
      obtain ⟨right, -, h⟩ := Option.bind_eq_some_iff.mp h
      obtain ⟨-, rfl⟩ := Prod.mk.inj (Option.some.inj h)
      rcases saveRecord_attempt hfd (treeEntry T x) ctx with ⟨-, hnone⟩ | ⟨ctx₂, code', hsave', -, -, hgood⟩
      · cases hsave.symm.trans hnone
      · obtain ⟨-, rfl⟩ := Prod.mk.inj (Option.some.inj (hsave.symm.trans hsave'))
        rw [RootQueued, hgood]
        simp

theorem saveAll_zero_iff (hfd : 0 ≤ fd) (es : List Met) (ctx : SaveCtx) :
    (∃ ctx', saveAll env fd es ctx = some (ctx', 0)) ↔
      ∀ i e, es[i]? = some e → attempt env (ctx.returns.length + i) e = some true := by
  induction es generalizing ctx with
  | nil => exact iff_of_true ⟨ctx, rfl⟩ (by simp)
  | cons e es ih =>
    have hsplit : (∀ i e', (e :: es)[i]? = some e' → attempt env (ctx.returns.length + i) e' = some true) ↔
        attempt env ctx.returns.length e = some true ∧
          ∀ i e', es[i]? = some e' → attempt env (ctx.returns.length + 1 + i) e' = some true := by
      constructor
      · intro h
        refine ⟨h 0 e rfl, ?_⟩
        intro i e' he
        rw [Nat.add_assoc, Nat.add_comm 1]
        exact h (i + 1) e' he
      · rintro ⟨hfirst, hrest⟩ i e' he
        cases i with
        | zero =>
          obtain rfl : e = e' := by simpa using he
          exact hfirst
        | succ i =>
          rw [← Nat.add_assoc, Nat.add_right_comm]
          exact hrest i e' he
    rw [hsplit, saveAll]
    rcases saveRecord_attempt hfd e ctx with ⟨hnone, hsave⟩ | ⟨ctx₁, code, hsave, hcodes, -, hgood⟩
    · rw [hnone, hsave]
      simp
    · rw [hgood, hsave]
      simp only [bind, Option.bind_some]
      by_cases hzero : code = 0
      · have hrest := ih ctx₁
        rw [hcodes, List.length_append, List.length_singleton] at hrest
        simpa [hzero] using hrest
      · simp [hzero]

theorem saveAll_returns (hfd : 0 ≤ fd) {es : List Met} {ctx ctx' : SaveCtx} (h : saveAll env fd es ctx = some (ctx', 0)) :
    ctx'.returns = ctx.returns ++ List.replicate es.length 0 := by
  induction es generalizing ctx with
  | nil =>
    obtain ⟨rfl, -⟩ := Prod.mk.inj (Option.some.inj h)
    simp
  | cons e es ih =>
    obtain ⟨⟨ctx₁, code⟩, hsave, h⟩ := Option.bind_eq_some_iff.mp h
    rcases saveRecord_attempt hfd e ctx with ⟨-, hnone⟩ | ⟨ctx₂, code', hsave', hcodes, -, -⟩
    · cases hsave.symm.trans hnone
    · obtain ⟨rfl, rfl⟩ := Prod.mk.inj (Option.some.inj (hsave.symm.trans hsave'))
      dsimp only at h
      split_ifs at h with hzero
      · exact absurd (Prod.mk.inj (Option.some.inj h)).2 hzero
      · rw [ih h, hcodes, not_not.mp hzero, List.append_assoc, List.length_cons, List.replicate_succ]
        rfl

end Attempts

/-- The attempts by which kvs_traversal_write returns 0: the tree's root record is queued, and after the walk over the
tree, which `good` says was without a failure, every record of the other engines is. -/
def Passed (env : ℕ → RecordEnv) (T : Rbtree) (t : RedBlack.ColoredTree Ptr) (rest : List Record) (good : Bool) : Prop :=
  ∃ k, walk (fun k p => attempt env k (treeEntry T p)) t 0 = some (k, good) ∧
    RootQueued (fun k p => attempt env k (treeEntry T p)) 0 t ∧
    ∀ i e, rest[i]? = some e → attempt env (k + i) (met e) = some true

/-- Every entry of every engine was queued, once. -/
def AllQueued (P : Params) (s : Store) (ctx : SaveCtx) : Prop :=
  ∃ vs m, ctx = SaveCtx.start.emitAll vs ∧ Holds P s m ∧ Covers vs m

section Traversal

variable {P : Params} {s : Store} {env : ℕ → RecordEnv} {fd : ℤ} {t : RedBlack.ColoredTree Ptr}
  {hs ls : List (CString × CString)} {slots : List (Option (CString × CString))}

theorem attempts_map_met {k : ℕ} {rest : List Record} :
    (∀ i e, (rest.map met)[i]? = some e → attempt env (k + i) e = some true) ↔
      ∀ i e, rest[i]? = some e → attempt env (k + i) (met e) = some true := by
  constructor
  · intro h i e he
    exact h i (met e) (by rw [List.getElem?_map, he]; rfl)
  · intro h i e he
    rw [List.getElem?_map] at he
    obtain ⟨e', he', rfl⟩ := Option.map_eq_some_iff.mp he
    exact h i e' he'

theorem tree_tracks (env : ℕ → RecordEnv) (hfd : 0 ≤ fd) (ht : Traversed P s t hs slots ls) :
    Tracks .start (walk (fun k p => attempt env k (treeEntry s.rbtree p)) t 0)
      (kvsSaveWriteRbtree (saveRecord env) s.rbtree s.rbtree.next (Rbtree.ptrOf s.rbtree.nil t) fd .start) :=
  writeRbtree_walk hfd ht.tree.holds.rep ht.tree.holds.nil_not_mem ht.tree.length_lt .start

theorem traversal_passed (hfd : 0 ≤ fd) (ht : Traversed P s t hs slots ls) {ctx : SaveCtx}
    (h : (kvsSaveWriteRbtree (saveRecord env) s.rbtree s.rbtree.next (Rbtree.ptrOf s.rbtree.nil t) fd .start).bind
      (fun r => if r.2 ≠ 0 then some r else saveAll env fd ((beside hs slots ls).map met) r.1) = some (ctx, 0)) :
    ∃ good, Passed env s.rbtree t (beside hs slots ls) good ∧ (good = true ↔ ∀ c ∈ ctx.returns, c = 0) := by
  obtain ⟨⟨ctx₁, ret⟩, htree, h⟩ := Option.bind_eq_some_iff.mp h
  have hroot := writeRbtree_ret hfd ht.tree.holds.nil_not_mem htree
  have htracks := tree_tracks env hfd ht
  rw [htree] at htracks
  rcases hwalk : walk (fun k p => attempt env k (treeEntry s.rbtree p)) t 0 with _ | ⟨k, good⟩ <;> rw [hwalk] at htracks
  · cases htracks
  · obtain ⟨codes, ctx', ret', he, hcodes, rfl, hgood⟩ := htracks
    obtain ⟨rfl, rfl⟩ := Prod.mk.inj (Option.some.inj he)
    have hzero : ret = 0 := by
      by_contra hne
      rw [if_pos hne] at h
      exact hne (Prod.mk.inj (Option.some.inj h)).2
    rw [if_neg (not_not.mpr hzero)] at h
    have hrest := (saveAll_zero_iff hfd _ ctx₁).mp ⟨ctx, h⟩
    rw [attempts_map_met, hcodes] at hrest
    refine ⟨good, ⟨_, hwalk, hroot.mp hzero, hrest⟩, ?_⟩
    rw [hgood, saveAll_returns hfd h, hcodes]
    constructor
    · intro hall c hc
      rcases List.mem_append.mp hc with hc | hc
      · exact hall c hc
      · exact List.eq_of_mem_replicate hc
    · intro hall c hc
      exact hall c (List.mem_append_left _ hc)

theorem passed_traversal (hfd : 0 ≤ fd) (ht : Traversed P s t hs slots ls) {good : Bool}
    (h : Passed env s.rbtree t (beside hs slots ls) good) :
    ∃ ctx, (kvsSaveWriteRbtree (saveRecord env) s.rbtree s.rbtree.next (Rbtree.ptrOf s.rbtree.nil t) fd .start).bind
      (fun r => if r.2 ≠ 0 then some r else saveAll env fd ((beside hs slots ls).map met) r.1) = some (ctx, 0) := by
  obtain ⟨k, hwalk, hroot, hrest⟩ := h
  have htracks := tree_tracks env hfd ht
  rw [hwalk] at htracks
  obtain ⟨codes, ctx₁, ret, htree, hcodes, rfl, -⟩ := htracks
  obtain rfl := (writeRbtree_ret hfd ht.tree.holds.nil_not_mem htree).mpr hroot
  rw [htree, Option.bind_some, if_neg (by simp)]
  apply (saveAll_zero_iff hfd _ ctx₁).mpr
  rw [attempts_map_met, hcodes]
  exact hrest

theorem emitAll_returns (ctx : SaveCtx) (vs : List Record) :
    (ctx.emitAll vs).returns = ctx.returns ++ List.replicate vs.length 0 := by
  induction vs generalizing ctx with
  | nil => simp [SaveCtx.emitAll]
  | cons e vs ih =>
    rw [SaveCtx.emitAll, List.foldl_cons, ← SaveCtx.emitAll, ih]
    simp [SaveCtx.emit, List.replicate_succ]

theorem AllQueued.returns {ctx : SaveCtx} (h : AllQueued P s ctx) : ∀ c ∈ ctx.returns, c = 0 := by
  obtain ⟨vs, m, rfl, -⟩ := h
  intro c hc
  rw [emitAll_returns] at hc
  exact List.eq_of_mem_replicate hc

theorem allQueued_iff (h : Formed P s) (hint : CountFits P s) (hfd : 0 ≤ fd) {ctx : SaveCtx} {ret : ℤ}
    (hw : kvsTraversalWrite env s fd .start = some (ctx, ret)) : AllQueued P s ctx ↔ ∀ c ∈ ctx.returns, c = 0 := by
  constructor
  · exact AllQueued.returns
  · intro hall
    obtain ⟨es, hout, -, hcovers⟩ := traversal_outcome h hint env hfd .start
    rw [hw] at hout
    obtain ⟨-, -, hzero⟩ := hout
    obtain ⟨-, vs, rfl, hemit, -⟩ := hzero hall
    obtain ⟨m, hm, hcov, -⟩ := hcovers vs rfl
    exact ⟨vs, m, hemit, hm, hcov⟩

end Traversal

/-- kvs_traversal_write tells of every unwritten record except those below a root of the tree that was written, with all
the other engines written too; kvs_save_start renames on its word. -/
theorem traversal_reports_iff (P : Params) (s : Store) (h : Store.Reachable P s) (hint : Store.CountFits P s) :
    ∃ t hs slots ls, Traversed P s t hs slots ls ∧
      (∀ (env : ℕ → RecordEnv) (fd : ℤ), 0 ≤ fd →
        ((∀ ctx, kvsTraversalWrite env s fd .start = some (ctx, 0) → AllQueued P s ctx) ↔
          ¬ Passed env s.rbtree t (beside hs slots ls) false)) ∧
      ∀ (env : StartEnv) (answers : List RingAnswer) (run : StartRun), kvsSaveStart env s answers = some run →
        run.renamed = true → kvsTraversalWrite env.record s env.fd .start = some (run.ctx.main, 0) := by
  obtain ⟨t, hs, slots, ls, ht, heq⟩ := traversal_eq h.formed hint
  refine ⟨t, hs, slots, ls, ht, ?_, ?_⟩
  · intro env fd hfd
    constructor
    · intro hprop hpassed
      obtain ⟨ctx, hctx⟩ := passed_traversal hfd ht hpassed
      obtain ⟨good, ⟨k, hwalk, -⟩, hgood⟩ := traversal_passed hfd ht hctx
      rw [← heq] at hctx
      obtain ⟨k', hwalk', -⟩ := hpassed
      obtain ⟨-, rfl⟩ := Prod.mk.inj (Option.some.inj (hwalk.symm.trans hwalk'))
      exact absurd (hgood.mpr ((allQueued_iff h.formed hint hfd hctx).mp (hprop ctx hctx))) (by decide)
    · intro hnot ctx hctx
      rw [allQueued_iff h.formed hint hfd hctx]
      rw [heq] at hctx
      obtain ⟨good, hpassed, hgood⟩ := traversal_passed hfd ht hctx
      cases good with
      | false => exact absurd hpassed hnot
      | true => exact hgood.mp rfl
  · intro env answers run hrun hrenamed
    rcases kvsSaveStart_cases hrun with ⟨-, -, hnot⟩ | ⟨-, -, ret, hwrite, -, hret⟩
    · rw [hnot] at hrenamed
      cases hrenamed
    · obtain rfl := hret.mp hrenamed
      exact (SaveRing.kvsTraversalWrite_main hwrite).1

theorem Traversed.leaf {P : Params} {s : Store} {t : RedBlack.ColoredTree Ptr} {hs ls : List (CString × CString)}
    {slots : List (Option (CString × CString))} (h : Traversed P s t hs slots ls) (hroot : s.rbtree.root = s.rbtree.nil) :
    t = .leaf := by
  cases t with
  | leaf => rfl
  | node c l x r =>
    have hx : s.rbtree.nil = x := hroot.symm.trans h.tree.holds.root
    exact absurd (by rw [hx]; simp [RedBlack.ColoredTree.items]) h.tree.holds.nil_not_mem

theorem traversal_reports_iff_hash :
    ∃ ctx, kvsTraversalWrite (fun _ => ⟨true, true, true⟩) hashed 3 .start = some (ctx, 0) ∧ AllQueued .small hashed ctx := by
  obtain ⟨t, hs, slots, ls, ht, hreports, -⟩ := traversal_reports_iff .small hashed hashed_reachable hashed_countFits
  have hrun : (kvsTraversalWrite (fun _ => ⟨true, true, true⟩) hashed 3 .start).map Prod.snd = some 0 := by decide +kernel
  obtain ⟨⟨ctx, ret⟩, hctx, rfl⟩ := Option.map_eq_some_iff.mp hrun
  refine ⟨ctx, hctx, (hreports _ 3 (by decide)).mpr ?_ ctx hctx⟩
  rintro ⟨k, hwalk, -⟩
  rw [ht.leaf rfl] at hwalk
  cases hwalk

/-- The write of the second node of the tree fails: the record is missing, and the file is renamed over the last dump. -/
theorem traversal_overlooks_child :
    ∃ s ctx, Store.Reachable .small s ∧
      kvsTraversalWrite (fun k => ⟨true, true, k ≠ 1⟩) s 3 .start = some (ctx, 0) ∧ ctx.returns = [0, -4] ∧
      ctx.writes.length = 1 ∧ ¬ AllQueued .small s ctx ∧
      (kvsSaveStart ⟨true, 3, fun k => ⟨true, true, k ≠ 1⟩⟩ s [.peeked [], .peeked [], .waited ⟨0, 24⟩]).map
        (fun run => (run.code, run.renamed)) = some (0, true) := by
  have hrun : (do
      let r ← (engine .small .rbtree).call (fresh .small) (.set (.lit "a") (.lit "v"), .granted)
      let s ← (engine .small .rbtree).call r.1 (.set (.lit "b") (.lit "w"), .granted)
      let w ← kvsTraversalWrite (fun k => ⟨true, true, k ≠ 1⟩) s.1 3 .start
      let run ← kvsSaveStart ⟨true, 3, fun k => ⟨true, true, k ≠ 1⟩⟩ s.1 [.peeked [], .peeked [], .waited ⟨0, 24⟩]
      some (w.2, w.1.returns, w.1.writes.length, run.code, run.renamed)) = some (0, [0, -4], 1, 0, true) := by
    decide +kernel
  obtain ⟨r, hr, hrun⟩ := Option.bind_eq_some_iff.mp hrun
  obtain ⟨s, hs, hrun⟩ := Option.bind_eq_some_iff.mp hrun
  obtain ⟨⟨ctx, ret⟩, hw, hrun⟩ := Option.bind_eq_some_iff.mp hrun
  obtain ⟨run, hsave, hrun⟩ := Option.bind_eq_some_iff.mp hrun
  obtain ⟨rfl, hrun⟩ := Prod.mk.inj (Option.some.inj hrun)
  obtain ⟨hret, hrun⟩ := Prod.mk.inj hrun
  obtain ⟨hlen, hrenamed⟩ := Prod.mk.inj hrun
  have hreach : Store.Reachable .small s.1 := ((Reachable.empty (fresh_empty _)).call hr).call hs
  refine ⟨s.1, ctx, hreach, hw, hret, hlen, ?_, by rw [hsave, Option.map_some, hrenamed]⟩
  intro hqueued
  exact absurd (hqueued.returns (-4) (by rw [hret]; decide)) (by decide)

/-- The kernel's side: a completion is for a write that was queued, and each write completes at most once. -/
structure OneEach (answers : List RingAnswer) (writes : List (ℕ × Bytes)) : Prop where
  distinct : ((completions answers).map Completion.write).Nodup
  queued : ∀ c ∈ completions answers, c.write < writes.length

def Completion.Full (writes : List (ℕ × Bytes)) (c : Completion) : Prop :=
  ∃ w, writes[c.write]? = some w ∧ c.res = w.2.length

/-- Every record's completion reported its full length. -/
def Reported (answers : List RingAnswer) (writes : List (ℕ × Bytes)) : Prop :=
  ∀ i < writes.length, ∃ c ∈ completions answers, c.write = i ∧ c.Full writes

theorem reported_iff {answers : List RingAnswer} {writes : List (ℕ × Bytes)} (h : OneEach answers writes) :
    Reported answers writes ↔
      (∀ c ∈ completions answers, c.Full writes) ∧ (completions answers).length = writes.length := by
  have hsub : (completions answers).map Completion.write ⊆ List.range writes.length := by
    intro i hi
    obtain ⟨c, hc, rfl⟩ := List.mem_map.mp hi
    exact List.mem_range.mpr (h.queued c hc)
  have hsubperm := List.subperm_of_subset h.distinct hsub
  constructor
  · intro hall
    constructor
    · intro c hc
      obtain ⟨c', hc', hsame, hfull⟩ := hall c.write (h.queued c hc)
      rwa [List.inj_on_of_nodup_map h.distinct hc' hc hsame] at hfull
    · have hle := hsubperm.length_le
      have hcover : List.range writes.length ⊆ (completions answers).map Completion.write := by
        intro i hi
        obtain ⟨c, hc, rfl, -⟩ := hall i (List.mem_range.mp hi)
        exact List.mem_map.mpr ⟨c, hc, rfl⟩
      have hge := (List.subperm_of_subset List.nodup_range hcover).length_le
      rw [List.length_map, List.length_range] at hle hge
      exact le_antisymm hle hge
  · rintro ⟨hfull, hlen⟩ i hi
    have hperm := hsubperm.perm_of_length_le (by rw [List.length_map, List.length_range, hlen])
    obtain ⟨c, hc, rfl⟩ := List.mem_map.mp (hperm.mem_iff.mpr (List.mem_range.mpr hi))
    exact ⟨c, hc, rfl, hfull c hc⟩

/-- kvs_save_start publishes whatever the completions say: only where they all report the full length, and every one was
waited for, was the snapshot written that it publishes. -/
theorem publication_iff (P : Params) (s : Store) (h : Store.Reachable P s) (hint : Store.CountFits P s) :
    ∃ t hs slots ls, Traversed P s t hs slots ls ∧
      ∀ (env : StartEnv) (answers : List RingAnswer) (run : StartRun), kvsSaveStart env s answers = some run →
        run.ctx.answers = [] → OneEach answers run.ctx.main.writes →
        ((run.code = 0 ∧ run.renamed = true → Reported answers run.ctx.main.writes) ↔
          (env.ring = true → 0 ≤ env.fd → (∃ good, Passed env.record s.rbtree t (beside hs slots ls) good) →
            ∀ ctx, kvsTraversalWrite env.record s env.fd .start = some (ctx, 0) →
              (∀ c ∈ completions answers, c.Full ctx.writes) ∧ .failed ∉ answers)) := by
  obtain ⟨t, hs, slots, ls, ht, heq⟩ := traversal_eq h.formed hint
  refine ⟨t, hs, slots, ls, ht, ?_⟩
  intro env answers run hrun hall hone
  rcases kvsSaveStart_cases hrun with ⟨hset, hcode, -⟩ | ⟨hring, hfd, ret, hwrite, hcode, hrenamed⟩
  · exact iff_of_true (fun hc => absurd hc.1 hcode) (fun hring hfd => absurd ⟨hring, hfd⟩ hset)
  · obtain ⟨hmain, hzero⟩ := SaveRing.kvsTraversalWrite_main hwrite
    have hmain' := hmain
    rw [heq] at hmain'
    by_cases hret : ret = 0
    · obtain ⟨used, hused, htasks, hfailed⟩ := hzero hret
      rw [hall, List.append_nil] at hused
      subst hused
      subst hret
      obtain ⟨good, hpassed, -⟩ := traversal_passed hfd ht hmain'
      have hcount : .failed ∉ answers ↔ (completions answers).length = run.ctx.main.writes.length := by
        rw [hfailed, htasks]
        omega
      rw [hcode, hrenamed, reported_iff hone, ← hcount]
      constructor
      · intro hrep _ _ _ ctx hctx
        obtain ⟨rfl, -⟩ := Prod.mk.inj (Option.some.inj (hmain.symm.trans hctx))
        exact hrep ⟨rfl, rfl⟩
      · intro hcond _
        exact hcond hring hfd ⟨good, hpassed⟩ _ hmain
    · refine iff_of_true (fun hc => absurd (hcode.mp hc.1) hret) ?_
      rintro - - - ctx hctx
      rw [hmain] at hctx
      exact absurd (Prod.mk.inj (Option.some.inj hctx)).2 hret

theorem hashed_saves (res : ℤ) :
    ∃ run, kvsSaveStart ⟨true, 3, fun _ => ⟨true, true, true⟩⟩ hashed [.peeked [], .waited ⟨0, res⟩] = some run ∧
      run.code = 0 ∧ run.renamed = true ∧ run.ctx.answers = [] ∧ run.ctx.main.writes.map (fun w => w.2.length) = [22] := by
  have hrun : (kvsSaveStart ⟨true, 3, fun _ => ⟨true, true, true⟩⟩ hashed [.peeked [], .waited ⟨0, res⟩]).map (fun run =>
      (run.code, run.renamed, run.ctx.answers.length, run.ctx.main.writes.map (fun w => w.2.length))) =
      some (0, true, 0, [22]) := rfl
  obtain ⟨run, hrun, he⟩ := Option.map_eq_some_iff.mp hrun
  obtain ⟨hcode, he⟩ := Prod.mk.inj he
  obtain ⟨hrenamed, he⟩ := Prod.mk.inj he
  obtain ⟨hanswers, hwrites⟩ := Prod.mk.inj he
  exact ⟨run, hrun, hcode, hrenamed, List.length_eq_zero_iff.mp hanswers, hwrites⟩

theorem publication_iff_hash :
    ∃ run, kvsSaveStart ⟨true, 3, fun _ => ⟨true, true, true⟩⟩ hashed [.peeked [], .waited ⟨0, 22⟩] = some run ∧
      run.renamed = true ∧ Reported [.peeked [], .waited ⟨0, 22⟩] run.ctx.main.writes := by
  obtain ⟨run, hrun, hcode, hrenamed, hanswers, hwrites⟩ := hashed_saves 22
  obtain ⟨t, hs, slots, ls, ht, hpub⟩ := publication_iff .small hashed hashed_reachable hashed_countFits
  obtain ⟨w, hw, hlen⟩ := List.map_eq_singleton_iff.mp hwrites
  refine ⟨run, hrun, hrenamed, (hpub _ _ run hrun hanswers ?_).mpr ?_ ⟨hcode, hrenamed⟩⟩
  · exact ⟨by simp [completions, RingAnswer.completions], by simp [completions, RingAnswer.completions, hw]⟩
  · intro _ _ _ ctx hctx
    have hrecord : (kvsTraversalWrite (fun _ => ⟨true, true, true⟩) hashed 3 .start).map
        (fun r => r.1.writes.map (fun w => w.2.length)) = some [22] := rfl
    rw [hctx, Option.map_some] at hrecord
    obtain ⟨w, hw, hlen⟩ := List.map_eq_singleton_iff.mp (Option.some.inj hrecord)
    refine ⟨?_, by simp⟩
    intro c hc
    obtain rfl : c = ⟨0, 22⟩ := by simpa [completions, RingAnswer.completions] using hc
    exact ⟨w, by rw [hw]; rfl, by rw [hlen]; rfl⟩

/-- Of the 22 bytes of the one record 5 were written: the snapshot is published all the same. -/
theorem short_write_is_published :
    ∃ run, kvsSaveStart ⟨true, 3, fun _ => ⟨true, true, true⟩⟩ hashed [.peeked [], .waited ⟨0, 5⟩] = some run ∧
      run.code = 0 ∧ run.renamed = true ∧ run.ctx.answers = [] ∧
      OneEach [.peeked [], .waited ⟨0, 5⟩] run.ctx.main.writes ∧
      ¬ Reported [.peeked [], .waited ⟨0, 5⟩] run.ctx.main.writes := by
  obtain ⟨run, hrun, hcode, hrenamed, hanswers, hwrites⟩ := hashed_saves 5
  obtain ⟨w, hw, hlen⟩ := List.map_eq_singleton_iff.mp hwrites
  refine ⟨run, hrun, hcode, hrenamed, hanswers, ?_, ?_⟩
  · exact ⟨by simp [completions, RingAnswer.completions], by simp [completions, RingAnswer.completions, hw]⟩
  · intro hrep
    obtain ⟨c, hc, -, w', hw', hres⟩ := hrep 0 (by simp [hw])
    obtain rfl : c = ⟨0, 5⟩ := by simpa [completions, RingAnswer.completions] using hc
    obtain rfl : w = w' := by simpa [hw] using hw'
    rw [hlen] at hres
    exact absurd hres (by decide)

end Lidis
