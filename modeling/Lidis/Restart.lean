import Lidis.Aof
import Lidis.KvsInit
import Lidis.SnapshotLoad

namespace Lidis

open Engine Store

/-- While the array's log is replayed over its snapshot, no SET of a key that is not deleted later finds the array
full without the key. -/
def NeverCrowded (P : Params) (first second : List Op) : Prop :=
  ∀ a x v b, first = a ++ .set x v :: b → .del x ∉ b ++ second →
    ¬ FMap.Refuses (contract P .array) ((FMap.empty.replay (contract P .array) first).replay (contract P .array) a) x

theorem contract_capacity {P : Params} {id : EngineId} (h : id ≠ .array) : (contract P id).capacity = none := by
  cases id with
  | array => exact absurd rfl h
  | rbtree => rfl
  | hash => rfl
  | skiplist => rfl

theorem replay_over_snapshot {P : Params} (first second : List (EngineId × Op))
    (h : Maps.empty.AcceptsAll P (first ++ second)) :
    (Maps.empty.replay P first).replay P (first ++ second) = Maps.empty.replay P (first ++ second) ↔
      NeverCrowded P (opsOf .array first) (opsOf .array second) := by
  have hall := (Maps.acceptsAll_iff P _ _).mp h
  simp only [opsOf_append] at hall
  have hexact := FMap.recovery_exact (contract_sound P .array) _ _ (hall .array)
  rw [NeverCrowded, ← hexact]
  constructor
  · intro heq
    have hat := congrFun heq .array
    simp only [Maps.replay_at, opsOf_append] at hat
    exact hat
  · intro heq
    funext id
    simp only [Maps.replay_at, opsOf_append]
    by_cases hid : id = .array
    · subst hid
      exact heq
    · exact FMap.recovery_unbounded (contract_sound P id) (contract_capacity hid) _ _ (hall id)

/-- Every command of the log takes bytes in it. -/
theorem Logged.countFits {P : Params} {g : Global} {tss : List (List CString)} (h : Logged P g tss)
    (hlen : (frames tss).length < 2 ^ 31) : CountFits P g.store := by
  have hops : (opsOf .hash (requests tss)).length ≤ (requests tss).length := List.length_filterMap_le _ _
  have hrequests : (requests tss).length ≤ tss.length := List.length_filterMap_le _ _
  have hframes := length_le_frames tss
  apply h.holds.countFits
  rw [Maps.replay_at]
  refine (FMap.replay_size_le _ _).trans ?_
  simp only [Maps.empty, FMap.empty_size, intMax]
  omega

/-- Commands that all succeed, a snapshot taken between `first` and `second`, and a restart from the snapshot and
the whole log: the engines come back as they were exactly when the array is never crowded. -/
theorem restart_from_snapshot_and_log (P : Params) (g g1 g2 : Global) (first second : List Call)
    (hempty : Holds P g.store Maps.empty) (hrec : g.recovering = false) (hlog : g.config.enableLog = true)
    (hnew : g.log.queued = []) (hcalls : ∀ c ∈ first ++ second, (requestOf c.tokens).isSome ∧ c.tokens.length ≤ maxTokens)
    (h1 : execAll P g first = some g1) (hok1 : g1.logReturns = g.logReturns ++ List.replicate first.length 0)
    (h2 : execAll P g1 second = some g2) (hok2 : g2.logReturns = g1.logReturns ++ List.replicate second.length 0)
    (renv : ℕ → RecordEnv) (fd : ℤ) (hfd : 0 ≤ fd) (ctx : SaveCtx) (code : ℤ)
    (hsave : kvsTraversalWrite renv g1.store fd .start = some (ctx, code)) (hwrites : ∀ x ∈ ctx.returns, x = 0)
    (hdump : ctx.file.length < 2 ^ 31) (haof : g2.log.bytes.length < 2 ^ 31)
    (r : Global) (hrrec : r.recovering = true) (hrsave : r.config.enableSave = true) (hrlog : r.config.enableLog = true)
    (memory s : Store) (sys : Sys) (hinit : initKvengine P memory sys = some s) (hs : Holds P s Maps.empty)
    (loadDump loadAof : LoadEnv) (hld : loadDump.Granted) (hla : loadAof.Granted) (dumpSys : ℕ → Sys)
    (hds : ∀ i, (dumpSys i).AllocOk) (aofEnv : ℕ → Env) (hae : ∀ i, (aofEnv i).sys.AllocOk) :
    ∃ r', kvsInit P memory sys ctx.file g2.log.bytes loadDump loadAof dumpSys aofEnv r = some r' ∧
      (SameMaps P g2.store r'.store ↔
        NeverCrowded P (opsOf .array (requests (first.map Call.tokens)))
          (opsOf .array (requests (second.map Call.tokens)))) := by
  have hstart : Logged P g [] := ⟨hrec, hlog, by simp [LogState.bytes, hnew], by simp, trivial, hempty⟩
  have hl1 := hstart.run_all first (fun c hc => hcalls c (List.mem_append_left _ hc)) h1 hok1
  have hl2 := hl1.run_all second (fun c hc => hcalls c (List.mem_append_right _ hc)) h2 hok2
  rw [List.nil_append] at hl1 hl2
  -- the snapshot brings back the maps after `first`
  have hint : CountFits P g1.store := by
    apply hl1.countFits
    rw [hl2.bytes, frames_append, List.length_append] at haof
    omega
  obtain ⟨es, hout, -, hcov⟩ := traversal_outcome hl1.holds.formed hint renv hfd .start
  rw [hsave] at hout
  obtain ⟨-, vs, hvs, rfl, hfits⟩ := hout.2.2 hwrites
  obtain ⟨m, hm, hc, -⟩ := hcov vs hvs
  obtain rfl := holds_unique hl1.holds hm
  rw [emitAll_file] at hdump ⊢
  obtain ⟨dcode, s1, hread, hs1⟩ := fileRead_records hds hld.read hm hc hfits hdump hs
  -- the log is replayed over them
  rw [hl2.bytes] at haof ⊢
  obtain ⟨acode, s2, hread2, hs2⟩ := fileRead_frames (g := { r with
    store := s1, log := r.log.opened (frames (first.map Call.tokens ++ second.map Call.tokens)) })
    hla.read hae _ hl2.loggable haof hs1 hrrec
  have hloaded := kvsLogInit_read (g := { r with store := s1 }) hrlog hla hread2
  refine ⟨{ r with
    store := s2
    log := r.log.opened (frames (first.map Call.tokens ++ second.map Call.tokens))
    executed := r.executed ++ (first.map Call.tokens ++ second.map Call.tokens) }, ?_, ?_⟩
  · rw [kvsInit, hinit, hrsave]
    simp only [bind, Option.bind, kvsSaveInit_read hld hread, hloaded]
  have hacc := hl2.accepted
  rw [requests_append] at hacc hs2
  have hfinal := hl2.holds
  rw [requests_append] at hfinal
  rw [← replay_over_snapshot _ _ hacc]
  constructor
  · intro hsame
    exact (maps_eq_of_sameMaps hfinal hs2 hsame).symm
  · intro heq
    rw [heq] at hs2
    exact sameMaps_of_holds hfinal hs2

theorem restart_from_snapshot_and_log_example :
    ∃ g1 g2 ctx r', execAll .small { Global.start .small with recovering := false }
        [.plain [.lit "SET", .lit "x", .lit "1"]] = some g1 ∧
      execAll .small g1 [.plain [.lit "MOD", .lit "x", .lit "2"]] = some g2 ∧
      kvsTraversalWrite (fun _ => ⟨true, true, true⟩) g1.store 3 .start = some (ctx, 0) ∧
      kvsInit .small (zeroed .small) .granted ctx.file g2.log.bytes .granted .granted (fun _ => .granted)
        (fun _ => .granted) (.start .small) = some r' ∧
      (SameMaps .small g2.store r'.store ↔
        NeverCrowded .small (opsOf .array (requests [[.lit "SET", .lit "x", .lit "1"]]))
          (opsOf .array (requests [[.lit "MOD", .lit "x", .lit "2"]]))) := by
  have hrun : (do
      let g1 ← execAll .small { Global.start .small with recovering := false } [.plain [.lit "SET", .lit "x", .lit "1"]]
      let g2 ← execAll .small g1 [.plain [.lit "MOD", .lit "x", .lit "2"]]
      let w ← kvsTraversalWrite (fun _ => ⟨true, true, true⟩) g1.store 3 .start
      some (g1.logReturns, g2.logReturns, w.2, w.1.returns, w.1.file.length, g2.log.bytes.length)) =
      some ([0], [0, 0], 0, [0], 23, 42) := by decide +kernel
  obtain ⟨g1, h1, hrun⟩ := Option.bind_eq_some_iff.mp hrun
  obtain ⟨g2, h2, hrun⟩ := Option.bind_eq_some_iff.mp hrun
  obtain ⟨⟨ctx, code⟩, hw, hf⟩ := Option.bind_eq_some_iff.mp hrun
  simp only [Option.some.injEq, Prod.mk.injEq] at hf
  obtain ⟨hr1, hr2, rfl, hret, hdump, haof⟩ := hf
  obtain ⟨r', hr', hiff⟩ := restart_from_snapshot_and_log .small _ g1 g2 [.plain [.lit "SET", .lit "x", .lit "1"]]
    [.plain [.lit "MOD", .lit "x", .lit "2"]] (fresh_empty _) rfl rfl rfl (by decide +kernel) h1 hr1 h2
    (by rw [hr1, hr2]; rfl) (fun _ => ⟨true, true, true⟩) 3 (by decide) ctx 0 hw (by rw [hret]; decide)
    (by rw [hdump]; decide) (by rw [haof]; decide) (.start .small) rfl rfl rfl (zeroed .small) (fresh .small) .granted
    (initKvengine_zeroed _) (fresh_empty _) .granted .granted LoadEnv.granted_granted LoadEnv.granted_granted
    (fun _ => .granted) (fun _ => Sys.granted_allocOk) (fun _ => .granted) (fun _ => Sys.granted_allocOk)
  exact ⟨g1, g2, ctx, r', h1, h2, hw, hr', hiff⟩

def crowded : List Call :=
  [.plain [.lit "SET", .lit "x", .lit "1"], .plain [.lit "DEL", .lit "x"], .plain [.lit "SET", .lit "z", .lit "2"],
    .plain [.lit "SET", .lit "x", .lit "3"], .plain [.lit "DEL", .lit "z"], .plain [.lit "SET", .lit "y", .lit "4"]]

/-- With two slots: the snapshot already holds x and y, so in the replay y takes the place that the second SET of x
needs. -/
theorem restart_loses_crowded_key :
    ∃ g ctx code r', execAll .small { Global.start .small with recovering := false } crowded = some g ∧
      g.logReturns = [0, 0, 0, 0, 0, 0] ∧
      kvsTraversalWrite (fun _ => ⟨true, true, true⟩) g.store 3 .start = some (ctx, code) ∧ ctx.returns = [0, 0] ∧
      kvsInit .small (zeroed .small) .granted ctx.file g.log.bytes .granted .granted (fun _ => .granted)
        (fun _ => .granted) (.start .small) = some r' ∧
      (engine .small .array).get g.store (some (.lit "x")) = some (some (.lit "3")) ∧
      (engine .small .array).get r'.store (some (.lit "x")) = some none ∧ ¬ SameMaps .small g.store r'.store := by
  have hrun : (do
      let g ← execAll .small { Global.start .small with recovering := false } crowded
      let w ← kvsTraversalWrite (fun _ => ⟨true, true, true⟩) g.store 3 .start
      let r ← kvsInit .small (zeroed .small) .granted w.1.file g.log.bytes .granted .granted (fun _ => .granted)
        (fun _ => .granted) (.start .small)
      some (g.logReturns, w.1.returns, (engine .small .array).get g.store (some (.lit "x")),
        (engine .small .array).get r.store (some (.lit "x")))) =
      some ([0, 0, 0, 0, 0, 0], [0, 0], some (some (.lit "3")), some none) := by decide +kernel
  obtain ⟨g, hg, hrun⟩ := Option.bind_eq_some_iff.mp hrun
  obtain ⟨⟨ctx, code⟩, hw, hrun⟩ := Option.bind_eq_some_iff.mp hrun
  obtain ⟨r', hr, hf⟩ := Option.bind_eq_some_iff.mp hrun
  simp only [Option.some.injEq, Prod.mk.injEq] at hf
  obtain ⟨hlog, hret, hold, hnew⟩ := hf
  refine ⟨g, ctx, code, r', hg, hlog, hw, hret, hr, hold, hnew, fun hsame => ?_⟩
  have := (hsame .array (.lit "x")).1
  rw [hold, hnew] at this
  simp at this

end Lidis
