import Lidis.KvsSave

namespace Lidis

open Engine Store

abbrev Record := EngineId × CString × CString

def recordTokens (e : Record) : List CString := [engineName e.1, e.2.1, e.2.2]

def SaveCtx.emit (ctx : SaveCtx) (e : Record) : SaveCtx where
  offset := ctx.offset + (Kvsp.frameOf (recordTokens e)).length
  writes := ctx.writes ++ [(ctx.offset, Kvsp.frameOf (recordTokens e))]
  returns := ctx.returns ++ [0]

def SaveCtx.emitAll (ctx : SaveCtx) (es : List Record) : SaveCtx := es.foldl SaveCtx.emit ctx

abbrev Met := EngineId × CString × Option CString

def met (e : Record) : Met := (e.1, e.2.1, some e.2.2)

def TooLong (e : Met) : Prop := ∃ v, e.2.2 = some v ∧ intMax ≤ (Kvsp.frameOf (recordTokens (e.1, e.2.1, v))).length

def Fits (e : Record) : Prop := (Kvsp.frameOf (recordTokens e)).length < intMax

/-- How writing the entries `es` may end: a record too long for an int, a failed write, or everything written. -/
def Outcome (es : List Met) (ctx : SaveCtx) : Option (SaveCtx × ℤ) → Prop
  | none => ∃ e ∈ es, TooLong e
  | some (ctx', ret) => ret ≤ 0 ∧ ctx.returns <+: ctx'.returns ∧
      ((∀ r ∈ ctx'.returns, r = 0) → ret = 0 ∧ ∃ vs, es = vs.map met ∧ ctx' = ctx.emitAll vs ∧ ∀ e ∈ vs, Fits e)

namespace Outcome

variable {es fs : List Met} {ctx : SaveCtx} {r : Option (SaveCtx × ℤ)}

theorem done (ctx : SaveCtx) : Outcome [] ctx (some (ctx, 0)) :=
  ⟨le_rfl, List.prefix_rfl, fun _ => ⟨rfl, [], rfl, rfl, by simp⟩⟩

theorem failed (es : List Met) (ctx : SaveCtx) {code : ℤ} (h : code < 0) :
    Outcome es ctx (some ({ ctx with returns := ctx.returns ++ [code] }, code)) := by
  refine ⟨h.le, List.prefix_append _ _, fun hz => ?_⟩
  have := hz code (by simp)
  omega

theorem written {ctx' ctx'' : SaveCtx} (h : ∃ vs, es = vs.map met ∧ ctx' = ctx.emitAll vs ∧ ∀ e ∈ vs, Fits e)
    (h' : ∃ ws, fs = ws.map met ∧ ctx'' = ctx'.emitAll ws ∧ ∀ e ∈ ws, Fits e) :
    ∃ us, es ++ fs = us.map met ∧ ctx'' = ctx.emitAll us ∧ ∀ e ∈ us, Fits e := by
  obtain ⟨vs, rfl, rfl, hvs⟩ := h
  obtain ⟨ws, rfl, rfl, hws⟩ := h'
  refine ⟨vs ++ ws, by simp, by simp [SaveCtx.emitAll], fun e he => ?_⟩
  exact (List.mem_append.mp he).elim (hvs e) (hws e)

theorem bind {g : SaveCtx × ℤ → Option (SaveCtx × ℤ)} (h : Outcome es ctx r)
    (hstop : ∀ ctx' ret, ret < 0 → g (ctx', ret) = some (ctx', ret)) (hgo : ∀ ctx', Outcome fs ctx' (g (ctx', 0))) :
    Outcome (es ++ fs) ctx (r.bind g) := by
  rcases r with _ | ⟨ctx', ret⟩
  · obtain ⟨e, he, hlong⟩ := h
    exact ⟨e, List.mem_append_left fs he, hlong⟩
  · obtain ⟨hle, hpre, hall⟩ := h
    rcases hle.lt_or_eq with hneg | rfl
    · rw [Option.bind_some, hstop ctx' ret hneg]
      refine ⟨hle, hpre, fun hz => ?_⟩
      exact absurd (hall hz).1 hneg.ne
    · rw [Option.bind_some]
      have hrest := hgo ctx'
      rcases hg : g (ctx', 0) with _ | ⟨ctx'', ret⟩ <;> rw [hg] at hrest
      · obtain ⟨e, he, hlong⟩ := hrest
        exact ⟨e, List.mem_append_right es he, hlong⟩
      · obtain ⟨hle2, hpre2, hall2⟩ := hrest
        refine ⟨hle2, hpre.trans hpre2, fun hz => ?_⟩
        obtain ⟨hret, hws⟩ := hall2 hz
        exact ⟨hret, written (hall (fun x hx => hz x (hpre2.subset hx))).2 hws⟩

theorem ignoring {f : SaveCtx → Option (SaveCtx × ℤ)} (h : Outcome es ctx r) (hgo : ∀ ctx', Outcome fs ctx' (f ctx')) :
    Outcome (es ++ fs) ctx (r.bind (fun p => (f p.1).bind (fun q => some (q.1, 0)))) := by
  rcases r with _ | ⟨ctx', ret⟩
  · obtain ⟨e, he, hlong⟩ := h
    exact ⟨e, List.mem_append_left fs he, hlong⟩
  · obtain ⟨-, hpre, hall⟩ := h
    have hrest := hgo ctx'
    rw [Option.bind_some]
    rcases hg : f ctx' with _ | ⟨ctx'', ret''⟩ <;> rw [hg] at hrest
    · obtain ⟨e, he, hlong⟩ := hrest
      exact ⟨e, List.mem_append_right es he, hlong⟩
    · obtain ⟨-, hpre2, hall2⟩ := hrest
      refine ⟨le_rfl, hpre.trans hpre2, fun hz => ⟨rfl, ?_⟩⟩
      exact written (hall (fun x hx => hz x (hpre2.subset hx))).2 (hall2 hz).2

end Outcome

theorem recordTokens_body (e : Record) :
    Kvsp.item (engineName e.1) ++ Kvsp.item e.2.1 ++ Kvsp.item e.2.2 ++ crlf = Kvsp.body (recordTokens e) := by
  simp [Kvsp.body_eq, recordTokens]

theorem buildSaveProtocol_cases (type : EngineId) (key value : CString) (alloc : Bool) :
    buildSaveProtocol (some key) (some value) type alloc = some none ∨
    (buildSaveProtocol (some key) (some value) type alloc = none ∧
      intMax ≤ (Kvsp.frameOf (recordTokens (type, key, value))).length) ∨
    (buildSaveProtocol (some key) (some value) type alloc = some (some (Kvsp.frameOf (recordTokens (type, key, value)))) ∧
      Fits (type, key, value)) := by
  have hbody := recordTokens_body (type, key, value)
  have hlen := Kvsp.frameOf_length (recordTokens (type, key, value))
  simp only [buildSaveProtocol, hbody]
  split_ifs
  · exact Or.inl rfl
  · exact Or.inr (Or.inl ⟨rfl, by omega⟩)
  · exact Or.inr (Or.inr ⟨rfl, by rw [Fits]; omega⟩)
  · exact Or.inl rfl

section

variable {env : ℕ → RecordEnv} {fd : ℤ}

theorem kvsIoUringWrite_outcome (hfd : 0 ≤ fd) {e : Record} (he : Fits e) (renv : RecordEnv) (ctx : SaveCtx) :
    Outcome [met e] ctx (some (kvsIoUringWrite fd (some (Kvsp.frameOf (recordTokens e))) renv ctx)) := by
  have hne : Kvsp.frameOf (recordTokens e) ≠ [] := List.length_pos_iff.mp (frameOf_pos _)
  simp only [kvsIoUringWrite, not_lt.mpr hfd, hne, or_self, ↓reduceIte]
  cases renv.ctx with
  | false => exact Outcome.failed _ ctx (by decide)
  | true =>
    cases renv.sqe with
    | false => exact Outcome.failed _ ctx (by decide)
    | true => exact ⟨le_rfl, List.prefix_append _ _, fun _ => ⟨rfl, [e], rfl, rfl, by simpa using he⟩⟩

theorem saveRecord_outcome (hfd : 0 ≤ fd) (type : EngineId) (key : CString) (value : Option CString) (ctx : SaveCtx) :
    Outcome [(type, key, value)] ctx (saveRecord env type (some key) value fd ctx) := by
  cases value with
  | none => exact Outcome.failed _ ctx (by decide)
  | some value =>
    rw [saveRecord]
    rcases buildSaveProtocol_cases type key value (env ctx.returns.length).frame with hb | ⟨hb, hlong⟩ | ⟨hb, hfits⟩ <;>
      rw [hb]
    · exact Outcome.failed _ ctx (by decide)
    · exact ⟨(type, key, some value), List.mem_singleton_self _, value, rfl, hlong⟩
    · exact kvsIoUringWrite_outcome hfd hfits _ ctx

theorem kvsSaveWriteRbtree_outcome (hfd : 0 ≤ fd) {T : Rbtree} {t : RedBlack.ColoredTree Ptr} {q : Ptr} {n : ℕ}
    (h : Rbtree.Rep T q t)
    (hnil : T.nil ∉ t.items) (hn : t.items.length < n) (ctx : SaveCtx) :
    Outcome (t.preorder.map (fun p => (.rbtree, T.key p, T.value p))) ctx
      (kvsSaveWriteRbtree (saveRecord env) T n (Rbtree.ptrOf T.nil t) fd ctx) := by
  induction t generalizing q n ctx with
  | leaf =>
    obtain ⟨n, rfl⟩ := Nat.exists_eq_succ_of_ne_zero (by omega : n ≠ 0)
    rw [kvsSaveWriteRbtree, if_neg (not_lt.mpr hfd), if_neg (by simp [Rbtree.ptrOf])]
    exact Outcome.done ctx
  | node c l x r ihl ihr =>
    obtain ⟨n, rfl⟩ := Nat.exists_eq_succ_of_ne_zero (by omega : n ≠ 0)
    obtain ⟨-, -, hl, hr, hrl, hrr⟩ := h
    simp only [RedBlack.ColoredTree.items, List.mem_append, List.mem_cons, not_or] at hnil
    simp only [RedBlack.ColoredTree.items, List.length_append, List.length_cons] at hn
    obtain ⟨n, rfl⟩ := Nat.exists_eq_succ_of_ne_zero (by omega : n ≠ 0)
    rw [Rbtree.ptrOf, kvsSaveWriteRbtree, if_neg (not_lt.mpr hfd), if_pos (Ne.symm hnil.2.1), hl, hr]
    refine (saveRecord_outcome hfd .rbtree (T.key x) (T.value x) ctx).bind ?_ ?_
    · intro ctx' ret hneg
      simp only [hneg, ↓reduceIte, kvsSaveWriteRbtree, bind, Option.bind]
    · intro ctx'
      rw [List.map_append]
      exact (ihl hrl hnil.1 (by omega) ctx').ignoring (ihr hrr hnil.2.2 (by omega))

/-- The three loops outside the tree do the same with their entries: they write one after the other and stop at the
first failure. -/
def saveAll (env : ℕ → RecordEnv) (fd : ℤ) : List Met → SaveCtx → Option (SaveCtx × ℤ)
  | [], ctx => some (ctx, 0)
  | e :: es, ctx => do
    let (ctx, ret) ← saveRecord env e.1 (some e.2.1) e.2.2 fd ctx
    if ret ≠ 0 then some (ctx, ret) else saveAll env fd es ctx

theorem saveAll_outcome (hfd : 0 ≤ fd) (es : List Met) (ctx : SaveCtx) : Outcome es ctx (saveAll env fd es ctx) := by
  induction es generalizing ctx with
  | nil => exact Outcome.done ctx
  | cons e es ih => exact (saveRecord_outcome hfd e.1 e.2.1 e.2.2 ctx).bind (fun _ _ h => if_pos h.ne) ih

theorem saveAll_append (es fs : List Met) (ctx : SaveCtx) :
    saveAll env fd (es ++ fs) ctx =
      (saveAll env fd es ctx).bind (fun r => if r.2 ≠ 0 then some r else saveAll env fd fs r.1) := by
  induction es generalizing ctx with
  | nil => rfl
  | cons e es ih =>
    rw [List.cons_append, saveAll, saveAll]
    cases saveRecord env e.1 (some e.2.1) e.2.2 fd ctx with
    | none => rfl
    | some r =>
      obtain ⟨ctx', ret⟩ := r
      simp only [bind, Option.bind_some]
      by_cases hret : ret ≠ 0
      · simp only [if_pos hret, Option.bind_some]
      · simp only [if_neg hret]
        exact ih ctx'

theorem saveChain_eq (chain : List HashNode) (ctx : SaveCtx) :
    saveChain (saveRecord env) fd chain ctx = saveAll env fd (chain.map (fun n => (.hash, n.key, some n.value))) ctx := by
  induction chain generalizing ctx with
  | nil => rfl
  | cons node rest ih => simp only [saveChain, List.map_cons, saveAll, ih]

theorem saveBuckets_eq (H : KvsHash) (n i : ℕ) {count : ℤ} (hc : count = ((List.range' i n).flatMap H.nodes).length)
    (ctx : SaveCtx) :
    saveBuckets (saveRecord env) H fd n i count ctx =
      saveAll env fd (((List.range' i n).flatMap H.nodes).map (fun n => (.hash, n.key, some n.value))) ctx := by
  induction n generalizing i count ctx with
  | zero => rfl
  | succ n ih =>
    rw [List.range'_succ, List.flatMap_cons] at hc ⊢
    rw [List.map_append, saveAll_append, saveBuckets, saveChain_eq]
    rw [List.length_append] at hc
    refine congrArg (Option.bind _) (funext fun r => ?_)
    by_cases hret : r.2 ≠ 0
    · simp only [if_pos hret]
    · simp only [if_neg hret]
      split_ifs with hz
      · have hnil : (List.range' (i + 1) n).flatMap H.nodes = [] := List.length_eq_zero_iff.mp (by omega)
        rw [hnil]
        rfl
      · exact ih (i + 1) (by omega) r.1

theorem saveSlots_eq (es : List (Option (CString × CString))) {count : ℤ} (hc : count = es.reduceOption.length)
    (ctx : SaveCtx) :
    saveSlots (saveRecord env) fd (es.map KvsArray.slotOf) count ctx =
      saveAll env fd (es.reduceOption.map (fun e => (.array, e.1, some e.2))) ctx := by
  induction es generalizing count ctx with
  | nil => rfl
  | cons e es ih =>
    cases e with
    | none =>
      rw [List.reduceOption_cons_of_none] at hc ⊢
      simp only [List.map_cons, KvsArray.slotOf, saveSlots]
      split_ifs with hz
      · rw [List.length_eq_zero_iff.mp (show es.reduceOption.length = 0 by omega)]
        rfl
      · exact ih hc ctx
    | some e =>
      rw [List.reduceOption_cons_of_some] at hc ⊢
      rw [List.length_cons] at hc
      simp only [List.map_cons, KvsArray.slotOf, saveSlots, saveAll]
      refine congrArg (Option.bind _) (funext fun r => ?_)
      by_cases hret : r.2 ≠ 0
      · simp only [if_pos hret]
      · simp only [if_neg hret]
        split_ifs with hz
        · rw [List.length_eq_zero_iff.mp (show es.reduceOption.length = 0 by omega)]
          rfl
        · exact ih (by omega) r.1

theorem saveNodes_eq {S : Skiplist} {l : List ℕ} {es : List (CString × CString)} {a n : ℕ}
    (hl : Chain.Linked (fun p => S.forward p 0) 0 a l) (hz : ∀ p ∈ l, p ≠ 0) (he : l.map S.entry = es.map Skiplist.both)
    (hn : l.length < n) (ctx : SaveCtx) :
    saveNodes (saveRecord env) S fd n (S.forward a 0) ctx =
      saveAll env fd (es.map (fun e => (.skiplist, e.1, some e.2))) ctx := by
  induction l generalizing a es n ctx with
  | nil =>
    obtain ⟨n, rfl⟩ := Nat.exists_eq_succ_of_ne_zero (by omega : n ≠ 0)
    obtain rfl : es = [] := List.map_eq_nil_iff.mp he.symm
    have hstop : S.forward a 0 = 0 := hl
    rw [saveNodes, hstop, if_neg (by simp)]
    rfl
  | cons b l ih =>
    obtain ⟨n, rfl⟩ := Nat.exists_eq_succ_of_ne_zero (by omega : n ≠ 0)
    obtain ⟨e, es', rfl, hb, he'⟩ := List.map_eq_cons_iff.mp he.symm
    obtain ⟨hkey, hvalue⟩ := Prod.mk.inj hb
    have hnext : S.forward a 0 = b := hl.1
    have hfwd : S.fwd b 0 = some (S.forward b 0) := by simp [Skiplist.fwd, hz b List.mem_cons_self]
    rw [saveNodes, hnext, if_pos (hz b List.mem_cons_self), ← hkey, ← hvalue]
    refine congrArg (Option.bind _) (funext fun r => ?_)
    by_cases hret : r.2 ≠ 0
    · simp only [if_pos hret]
    · simp only [if_neg hret, hfwd, bind, Option.bind_some]
      exact ih hl.2 (fun p hp => hz p (List.mem_cons_of_mem b hp)) he'.symm (by simp at hn; omega) r.1

end

end Lidis
