import Lidis.SnapshotContent

namespace Lidis

open Engine Store

def SaveCtx.file (ctx : SaveCtx) : Bytes := FileImage.writeAll 0 [] ctx.writes

def SaveCtx.Laid (ctx : SaveCtx) : Prop :=
  FileImage.Consecutive 0 ctx.writes ∧ ctx.offset = (ctx.writes.flatMap Prod.snd).length

theorem emitAll_laid {ctx : SaveCtx} (h : ctx.Laid) (es : List Record) :
    (ctx.emitAll es).Laid ∧
      (ctx.emitAll es).writes.flatMap Prod.snd = ctx.writes.flatMap Prod.snd ++ frames (es.map recordTokens) := by
  induction es generalizing ctx with
  | nil => exact ⟨h, by simp [SaveCtx.emitAll]⟩
  | cons e es ih =>
    have hlaid : (ctx.emit e).Laid := by
      refine ⟨FileImage.consecutive_append h.1 ⟨?_, trivial⟩, ?_⟩
      · rw [Nat.zero_add]
        exact h.2
      · simp [SaveCtx.emit, h.2]
    obtain ⟨hl, hw⟩ := ih hlaid
    refine ⟨hl, hw.trans ?_⟩
    simp [SaveCtx.emit]

theorem emitAll_sizes (ctx : SaveCtx) (es : List Record) :
    (ctx.emitAll es).writes.map (fun w => w.2.length) =
      ctx.writes.map (fun w => w.2.length) ++ (es.map recordTokens).map fun ts => (Kvsp.frameOf ts).length := by
  induction es generalizing ctx with
  | nil => simp [SaveCtx.emitAll]
  | cons e es ih => exact (ih (ctx.emit e)).trans (by simp [SaveCtx.emit])

theorem emitAll_file (es : List Record) : (SaveCtx.start.emitAll es).file = frames (es.map recordTokens) := by
  obtain ⟨hl, hw⟩ := emitAll_laid (show SaveCtx.start.Laid from ⟨trivial, rfl⟩) es
  rw [SaveCtx.file, FileImage.writeAll_consecutive 0 [] _ hl.1, hw]
  rfl

def Readable (ts : List CString) : Prop := ts.length ≤ maxTokens ∧ (Kvsp.frameOf ts).length < intMax

theorem save_handles (P : Params) (sys : ℕ → Sys) :
    Handles (kvsSaveHandler P sys) (fun i ts s => loadRecord P ts s (sys i)) Readable where
  accepts := by
    intro i cli s ts ret s' hload hok hap
    obtain ⟨junk, hrbuf⟩ := hload.rbuf
    obtain ⟨mem, tokens, hsplit, hread, hlen, -⟩ := Kvsp.splitToken_frame (0 :: junk) hok.1 (le_of_lt hok.2)
    have hs := hload.sized
    rw [← hrbuf, ← hload.cmdHl, ← hload.cmdTl] at hsplit
    refine ⟨{ cli with rbuf := mem }, ?_, ?_, rfl⟩
    · simp only [kvsSaveHandler, kvsSplitToken, hs.protocol, hsplit, bind, Option.bind, hread, hap]
    · exact ⟨by simp only [hlen, ← hrbuf, hs.rbuf], hs.writeOk.congr rfl rfl rfl, hs.wCap, hs.wPos, hs.protocol⟩
  refuses := by
    intro i cli s hs hlen hend
    refine ⟨-2, ?_, by decide⟩
    simp only [kvsSaveHandler, kvsSplitToken, hs.protocol, Kvsp.splitToken_no_end hend hlen, bind, Option.bind]

def setOf (e : Record) : EngineId × Op := (e.1, .set e.2.1 e.2.2)

theorem engineOf_engineName (id : EngineId) : engineOf (engineName id) = some id := by
  cases id <;> decide

theorem loadRecord_step {P : Params} {s : Store} {m : Maps} {e : Record} {sys : Sys} (h : Holds P s m)
    (ha : sys.AllocOk) :
    ∃ s' n, loadRecord P (recordTokens e) s sys = some (n, s') ∧ Holds P s' (m.step P (setOf e)) ∧
      MapAnswer.code n = ((m e.1).step (contract P e.1) (setOf e).2).2 := by
  obtain ⟨s', hc, hs'⟩ := call_granted h e.1 (setOf e).2 ha
  obtain ⟨⟨t, n⟩, hr, he⟩ := Option.map_eq_some_iff.mp hc
  obtain ⟨rfl, hn⟩ := Prod.mk.inj he
  refine ⟨t, n, ?_, hs', hn⟩
  simp only [loadRecord, recordTokens, engineOf_engineName]
  rw [hr]
  rfl

theorem loadRecord_accepted {P : Params} {s : Store} {m : Maps} {e : Record} {sys : Sys} (h : Holds P s m)
    (ha : sys.AllocOk) (hacc : FMap.Accepts (contract P e.1) (m e.1) (setOf e).2) :
    ∃ s', loadRecord P (recordTokens e) s sys = some (0, s') ∧ Holds P s' (m.step P (setOf e)) := by
  obtain ⟨s', n, hload, hs', hn⟩ := loadRecord_step h ha
  rw [hacc.2] at hn
  obtain rfl := MapAnswer.code.inj hn
  exact ⟨s', hload, hs'⟩

theorem applyAll_records {P : Params} {sys : ℕ → Sys} (hsys : ∀ i, (sys i).AllocOk) (es : List Record) (i : ℕ) {s : Store}
    {m : Maps} (h : Holds P s m) (hacc : m.AcceptsAll P (es.map setOf)) :
    ∃ s', applyAll (fun i ts s => loadRecord P ts s (sys i)) i (es.map recordTokens) s = some s' ∧
      Holds P s' (m.replay P (es.map setOf)) := by
  induction es generalizing i s m with
  | nil => exact ⟨s, rfl, h⟩
  | cons e es ih =>
    obtain ⟨s1, hload, hs1⟩ := loadRecord_accepted h (hsys i) hacc.1
    obtain ⟨s2, hall, hs2⟩ := ih (i + 1) hs1 hacc.2
    refine ⟨s2, ?_, hs2⟩
    simp only [List.map_cons, applyAll, hload, bind, Option.bind]
    exact hall

theorem opsOf_setOf (id : EngineId) (es : List Record) :
    opsOf id (es.map setOf) = (entriesOf id es).map (fun e => .set e.1 e.2) := by
  rw [opsOf, entriesOf, List.filterMap_map, List.map_filterMap]
  refine List.filterMap_congr (fun e _ => ?_)
  by_cases h : e.1 = id <;> simp [setOf, h]

theorem covers_replay {P : Params} {s : Store} {m : Maps} {es : List Record} (h : Holds P s m) (hc : Covers es m) :
    Maps.AcceptsAll P Maps.empty (es.map setOf) ∧ Maps.empty.replay P (es.map setOf) = m := by
  have hone : ∀ id, FMap.AcceptsAll (contract P id) FMap.empty (opsOf id (es.map setOf)) ∧
      FMap.empty.replay (contract P id) (opsOf id (es.map setOf)) = m id := by
    intro id
    obtain ⟨hn, hm⟩ := hc id
    have hcap : ∀ n, (contract P id).capacity = some n → (entriesOf id es).length ≤ n := by
      intro n hn'
      cases id with
      | array =>
        obtain rfl := Option.some.inj hn'
        have hsize := h.array.size_le
        rwa [hm, FMap.ofList_size _ hn] at hsize
      | rbtree => cases hn'
      | hash => cases hn'
      | skiplist => cases hn'
    have hrep := FMap.replay_sets [] (entriesOf id es) hn hcap
    rw [FMap.ofList_nil, List.nil_append, ← hm] at hrep
    rw [opsOf_setOf]
    exact hrep
  refine ⟨(Maps.acceptsAll_iff P _ _).mpr (fun id => (hone id).1), ?_⟩
  funext id
  rw [Maps.replay_at]
  exact (hone id).2

section Records

variable {P : Params} {sys : ℕ → Sys} {fe : FileEnv} {s r : Store} {m : Maps} {es : List Record}

theorem records_readable (hfits : ∀ e ∈ es, Fits e) : ∀ ts ∈ es.map recordTokens, Readable ts := by
  intro ts hts
  obtain ⟨e, he, rfl⟩ := List.mem_map.mp hts
  exact ⟨by simp [recordTokens, maxTokens], hfits e he⟩

theorem fileRead_filled (hsys : ∀ i, (sys i).AllocOk) (hw : fe.wbuf = true) (hrb : fe.rbuf = true)
    (hg : fe.Fills 0 fileBufferSize ((es.map recordTokens).map fun ts => (Kvsp.frameOf ts).length)) (h : Holds P s m)
    (hc : Covers es m) (hfits : ∀ e ∈ es, Fits e) (hlen : (frames (es.map recordTokens)).length < 2 ^ 31)
    (hr : Holds P r Maps.empty) :
    ∃ code r', kvsFileRead (kvsSaveHandler P sys) fe (frames (es.map recordTokens)) r = some (code, r') ∧ Holds P r' m := by
  obtain ⟨hacc, hrep⟩ := covers_replay h hc
  obtain ⟨r', hall, hr'⟩ := applyAll_records hsys es 0 hr hacc
  rw [hrep] at hr'
  have hok := records_readable hfits
  obtain ⟨code, hread⟩ := fileRead_all (save_handles P sys) hw hrb _ hg hok (fun ts hts => (hok ts hts).2) hlen hall
  exact ⟨code, r', hread, hr'⟩

theorem fileRead_records (hsys : ∀ i, (sys i).AllocOk) (hfe : fe.Granted) (h : Holds P s m) (hc : Covers es m)
    (hfits : ∀ e ∈ es, Fits e) (hlen : (frames (es.map recordTokens)).length < 2 ^ 31) (hr : Holds P r Maps.empty) :
    ∃ code r', kvsFileRead (kvsSaveHandler P sys) fe (frames (es.map recordTokens)) r = some (code, r') ∧ Holds P r' m :=
  fileRead_filled hsys hfe.1 hfe.2.1 (hfe.fills _ _ _) h hc hfits hlen hr

end Records

/-- The writer comes back unless a record is too long to be built. When every write succeeded, the file read into
empty engines gives each engine the map it had just where the read buffer gets the room for every record; mp_realloc
may hand back a block that is too short, and the read then ends outside it. A map that an engine holds has no key
twice. -/
theorem snapshot_round_trip_iff (P : Params) (s : Store) (h : Reachable P s) (hint : CountFits P s) (env : ℕ → RecordEnv)
    (fd : ℤ) (hfd : 0 ≤ fd) :
    (kvsTraversalWrite env s fd .start = none → ∃ id key value,
      (engine P id).get s (some key) = some (some value) ∧
        intMax ≤ (Kvsp.frameOf [engineName id, key, value]).length) ∧
    ∀ ctx ret, kvsTraversalWrite env s fd .start = some (ctx, ret) → (∀ x ∈ ctx.returns, x = 0) →
      ctx.file.length < 2 ^ 31 → ∀ r, Holds P r Maps.empty → ∀ fe : FileEnv, fe.wbuf = true → fe.rbuf = true →
      (∀ i, fe.grow i ≠ .refused) → ∀ sys : ℕ → Sys, (∀ i, (sys i).AllocOk) →
      ((∃ code r', kvsFileRead (kvsSaveHandler P sys) fe ctx.file r = some (code, r') ∧ SameMaps P s r' ∧
          ∃ m, Holds P s m ∧ Holds P r' m) ↔
        fe.Fills 0 fileBufferSize (ctx.writes.map fun w => w.2.length)) ∧
      (¬ fe.Fills 0 fileBufferSize (ctx.writes.map fun w => w.2.length) →
        kvsFileRead (kvsSaveHandler P sys) fe ctx.file r = none) := by
  obtain ⟨es, hout, hin, hcov⟩ := traversal_outcome h.formed hint env hfd .start
  constructor
  · intro hnone
    rw [hnone] at hout
    obtain ⟨e, he, v, hv, hlong⟩ := hout
    exact ⟨e.1, e.2.1, v, hin e he v hv, hlong⟩
  · intro ctx ret hwrite hok hsize r hr fe hwb hrb hgrant sys hsys
    rw [hwrite] at hout
    obtain ⟨-, vs, hvs, rfl, hfits⟩ := hout.2.2 hok
    obtain ⟨m, hm, hc, -⟩ := hcov vs hvs
    rw [emitAll_file] at hsize ⊢
    rw [emitAll_sizes, show SaveCtx.start.writes = [] from rfl, List.map_nil, List.nil_append]
    obtain ⟨hacc, -⟩ := covers_replay hm hc
    obtain ⟨r₁, hall, -⟩ := applyAll_records hsys vs 0 hr hacc
    have hread := records_readable hfits
    have hstarved := fileRead_starved (save_handles P sys) hwb hrb hgrant (vs.map recordTokens) hread
      (fun ts hts => (hread ts hts).2) hsize hall
    refine ⟨⟨?_, ?_⟩, hstarved⟩
    · rintro ⟨code, r', hsome, -⟩
      by_contra hg
      rw [hstarved hg] at hsome
      cases hsome
    · intro hg
      obtain ⟨code, r', hfile, hr'⟩ := fileRead_filled hsys hwb hrb hg hm hc hfits hsize hr
      exact ⟨code, r', hfile, sameMaps_of_holds hm hr', m, hm, hr'⟩

/-- The engines after two SETs, written and read back with the memory that mp_realloc gives. -/
theorem snapshot_round_trip_iff_example :
    ∃ s ctx ret, Reachable .small s ∧ (engine .small .rbtree).get s (some (.lit "k")) = some (some (.lit "")) ∧
      kvsTraversalWrite (fun _ => ⟨true, true, true⟩) s 3 .start = some (ctx, ret) ∧ ctx.returns = [0, 0] ∧
      ∃ code r', kvsFileRead (kvsSaveHandler .small (fun _ => .granted)) .pooled ctx.file (fresh .small) = some (code, r') ∧
        SameMaps .small s r' ∧ ∃ m, Holds .small s m ∧ Holds .small r' m := by
  have hrun : (do
      let s1 ← (engine .small .rbtree).call (fresh .small) (.set (.lit "k") (.lit ""), .granted)
      let s2 ← (engine .small .hash).call s1.1 (.set (.lit "") (.lit "v"), .granted)
      let w ← kvsTraversalWrite (fun _ => ⟨true, true, true⟩) s2.1 3 .start
      some ((engine .small .rbtree).get s2.1 (some (.lit "k")), w.1.returns, w.1.file.length,
        w.1.writes.map fun x => x.2.length, (s2.1.hash.entries .small).length)) =
      some (some (some (.lit "")), [0, 0], 44, [23, 21], 1) := by decide +kernel
  obtain ⟨s1, h1, hrun⟩ := Option.bind_eq_some_iff.mp hrun
  obtain ⟨s2, h2, hrun⟩ := Option.bind_eq_some_iff.mp hrun
  obtain ⟨⟨ctx, ret⟩, hw, hf⟩ := Option.bind_eq_some_iff.mp hrun
  obtain ⟨hget, hf⟩ := Prod.mk.inj (Option.some.inj hf)
  obtain ⟨hret, hf⟩ := Prod.mk.inj hf
  obtain ⟨hlen, hf⟩ := Prod.mk.inj hf
  obtain ⟨hsizes, hnodes⟩ := Prod.mk.inj hf
  have hreach : Reachable .small s2.1 := ((Reachable.empty (fresh_empty _)).call h1).call h2
  refine ⟨s2.1, ctx, ret, hreach, hget, hw, hret, ?_⟩
  have hiff := ((snapshot_round_trip_iff .small s2.1 hreach (by rw [CountFits, hnodes]; decide)
    _ 3 (by decide)).2 ctx ret hw (by rw [hret]; decide)
    (by rw [hlen]; decide) (fresh .small) (fresh_empty _) .pooled rfl rfl (by simp [FileEnv.pooled]) (fun _ => .granted)
    (fun _ => Sys.granted_allocOk)).1
  rw [hsizes] at hiff
  exact hiff.mpr ⟨.inl (by decide), .inl (by decide), trivial⟩

/-- One value of 1240 bytes in the array. Its record of 1267 bytes and the NUL behind it go into 1256 bytes: the block of
the read buffer was made for 1025, and mp_realloc takes it to hold 1280. -/
theorem snapshot_record_overruns_buffer :
    ∃ s ctx ret, Reachable .small s ∧ (engine .small .array).get s (some (.lit "k")) = some (some (.ofLength 1240)) ∧
      kvsTraversalWrite (fun _ => ⟨true, true, true⟩) s 3 .start = some (ctx, ret) ∧ ctx.returns = [0] ∧
      ctx.file.length = 1267 ∧
      kvsFileRead (kvsSaveHandler .small (fun _ => .granted)) .pooled ctx.file (fresh .small) = none := by
  have hrun : (do
      let s ← (engine .small .array).call (fresh .small) (.set (.lit "k") (.ofLength 1240), .granted)
      let w ← kvsTraversalWrite (fun _ => ⟨true, true, true⟩) s.1 3 .start
      some ((engine .small .array).get s.1 (some (.lit "k")), w.1.returns, w.1.file.length,
        (kvsFileRead (kvsSaveHandler .small (fun _ => .granted)) .pooled w.1.file (fresh .small)).isNone)) =
      some (some (some (.ofLength 1240)), [0], 1267, true) := by decide +kernel
  obtain ⟨s, hs, hrun⟩ := Option.bind_eq_some_iff.mp hrun
  obtain ⟨⟨ctx, ret⟩, hw, hf⟩ := Option.bind_eq_some_iff.mp hrun
  obtain ⟨hget, hf⟩ := Prod.mk.inj (Option.some.inj hf)
  obtain ⟨hret, hf⟩ := Prod.mk.inj hf
  obtain ⟨hlen, hnone⟩ := Prod.mk.inj hf
  exact ⟨s.1, ctx, ret, (Reachable.empty (fresh_empty _)).call hs, hget, hw, hret, hlen, by simpa using hnone⟩

end Lidis
