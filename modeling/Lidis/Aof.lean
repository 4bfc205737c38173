import Lidis.Replay

namespace Lidis

open Engine Store

/-- A command handed to kvs_filter_protocol, on any connection and with any outcomes of the system calls. -/
structure Call where
  tokens : List CString
  cli : Client
  env : Env

def execAll (P : Params) : Global → List Call → Option Global
  | g, [] => some g
  | g, c :: cs => do
    let (_, _, g) ← kvsFilterProtocol P c.tokens c.cli g c.env
    execAll P g cs

structure Logged (P : Params) (g : Global) (tss : List (List CString)) : Prop where
  recovering : g.recovering = false
  enableLog : g.config.enableLog = true
  bytes : g.log.bytes = frames tss
  loggable : ∀ ts ∈ tss, Loggable ts
  accepted : Maps.empty.AcceptsAll P (requests tss)
  holds : Holds P g.store (Maps.empty.replay P (requests tss))

theorem filter_logReturns {P : Params} {tokens : List CString} {cli cli' : Client} {g g' : Global} {env : Env}
    {length : ℤ} {id : EngineId} {o : Op} (hr : requestOf tokens = some (id, o))
    (h : kvsFilterProtocol P tokens cli g env = some (length, cli', g')) :
    g'.logReturns = g.logReturns ∨
      ∃ ret, g'.logReturns = g.logReturns ++ [ret] ∧ callGranted id (o, env.sys) := by
  rcases filter_global h with rfl | ⟨reply, he⟩
  · exact Or.inl rfl
  · rw [effect_request P g env hr] at he
    obtain ⟨⟨s', a⟩, hcall, he⟩ := Option.bind_eq_some_iff.mp he
    obtain ⟨g1, hl, he⟩ := Option.map_eq_some_iff.mp he
    obtain ⟨rfl, -⟩ := Prod.mk.inj he
    rw [logCommand] at hl
    split_ifs at hl with hw
    · obtain ⟨w, -, hl⟩ := Option.bind_eq_some_iff.mp hl
      obtain rfl := Option.some.inj hl
      obtain ⟨-, rfl⟩ := (wrote_iff o a).mp hw.1
      exact Or.inr ⟨w.2, rfl, call_zero_granted hcall⟩
    · obtain rfl := Option.some.inj hl
      exact Or.inl rfl

theorem execAll_logReturns {P : Params} (cs : List Call) {g g' : Global} (hr : ∀ c ∈ cs, (requestOf c.tokens).isSome)
    (h : execAll P g cs = some g') :
    g.logReturns <+: g'.logReturns ∧ g'.logReturns.length ≤ g.logReturns.length + cs.length := by
  induction cs generalizing g with
  | nil =>
    obtain rfl := Option.some.inj h
    exact ⟨List.prefix_rfl, le_rfl⟩
  | cons c cs ih =>
    obtain ⟨⟨length, cli', g1⟩, hf, h⟩ := Option.bind_eq_some_iff.mp h
    obtain ⟨⟨id, o⟩, hreq⟩ := Option.isSome_iff_exists.mp (hr c List.mem_cons_self)
    obtain ⟨hpre, hlen⟩ := ih (fun d hd => hr d (List.mem_cons_of_mem c hd)) h
    rw [List.length_cons]
    rcases filter_logReturns hreq hf with he | ⟨ret, he, -⟩ <;> rw [he] at hpre hlen
    · exact ⟨hpre, by omega⟩
    · rw [List.length_append, List.length_singleton] at hlen
      exact ⟨(List.prefix_append _ _).trans hpre, by omega⟩

theorem Logged.effect {P : Params} {g g' : Global} {tss : List (List CString)} (h : Logged P g tss) {ts : List CString}
    {env : Env} {reply : Reply} {id : EngineId} {o : Op} (hr : requestOf ts = some (id, o)) (hmax : ts.length ≤ maxTokens)
    (hg : callGranted id (o, env.sys)) (he : Lidis.effect P ts g env = some (g', reply)) :
    (g'.logReturns = g.logReturns ∧ Logged P g' tss) ∨
      ∃ ret, g'.logReturns = g.logReturns ++ [ret] ∧ (ret = 0 → Logged P g' (tss ++ [ts])) := by
  obtain ⟨hrec, hconf, hcase⟩ := effect_logged he hr h.holds hg h.recovering h.enableLog
  rcases hcase with ⟨hlog, hret, hs⟩ | ⟨ret, hret, hacc, hs, hq⟩
  · exact Or.inl ⟨hret, hrec, hconf ▸ h.enableLog, by rw [hlog]; exact h.bytes, h.loggable, h.accepted, hs⟩
  · refine Or.inr ⟨ret, hret, fun hzero => ?_⟩
    obtain ⟨hlog, hlen⟩ := hq hzero
    have hone : requests [ts] = [(id, o)] := requests_cons hr []
    refine ⟨hrec, hconf ▸ h.enableLog, ?_, ?_, ?_, ?_⟩
    · rw [hlog, enqueue_bytes, h.bytes, frames_append]
      simp
    · intro us hus
      rcases List.mem_append.mp hus with hus | hus
      · exact h.loggable us hus
      · rw [List.mem_singleton.mp hus]
        exact ⟨⟨id, o, hr, hacc.1⟩, hmax, hlen⟩
    · rw [requests_append, hone, Maps.acceptsAll_append]
      exact ⟨h.accepted, hacc, trivial⟩
    · rw [requests_append, hone, Maps.replay, List.foldl_append]
      exact hs

theorem Logged.step {P : Params} {g g' : Global} {tss : List (List CString)} (h : Logged P g tss) {c : Call} {length : ℤ}
    {cli' : Client} {id : EngineId} {o : Op} (hr : requestOf c.tokens = some (id, o)) (hmax : c.tokens.length ≤ maxTokens)
    (hg : callGranted id (o, c.env.sys)) (hf : kvsFilterProtocol P c.tokens c.cli g c.env = some (length, cli', g')) :
    (g'.logReturns = g.logReturns ∧ Logged P g' tss) ∨
      ∃ ret, g'.logReturns = g.logReturns ++ [ret] ∧ (ret = 0 → Logged P g' (tss ++ [c.tokens])) := by
  rcases filter_global hf with rfl | ⟨reply, he⟩
  · exact Or.inl ⟨rfl, h⟩
  · exact h.effect hr hmax hg he

theorem Logged.run {P : Params} (cs : List Call) {g g' : Global} {tss : List (List CString)} (h : Logged P g tss)
    (hc : ∀ c ∈ cs, (requestOf c.tokens).isSome ∧ c.tokens.length ≤ maxTokens)
    (hg : ∀ c ∈ cs, ∀ id o, requestOf c.tokens = some (id, o) → callGranted id (o, c.env.sys))
    (hrun : execAll P g cs = some g') (hok : ∀ r ∈ g'.logReturns, r = 0) : ∃ tss', Logged P g' tss' := by
  induction cs generalizing g tss with
  | nil =>
    obtain rfl := Option.some.inj hrun
    exact ⟨tss, h⟩
  | cons c cs ih =>
    obtain ⟨⟨length, cli', g1⟩, hf, hrest⟩ := Option.bind_eq_some_iff.mp hrun
    obtain ⟨⟨id, o⟩, hr⟩ := Option.isSome_iff_exists.mp (hc c List.mem_cons_self).1
    have hlater := (execAll_logReturns cs (fun d hd => (hc d (List.mem_cons_of_mem c hd)).1) hrest).1
    have hnext : ∃ tss1, Logged P g1 tss1 := by
      rcases h.step hr (hc c List.mem_cons_self).2 (hg c List.mem_cons_self id o hr) hf with ⟨-, h1⟩ | ⟨ret, hret, h1⟩
      · exact ⟨_, h1⟩
      · exact ⟨_, h1 (hok ret (hlater.subset (by rw [hret]; simp)))⟩
    obtain ⟨tss1, h1⟩ := hnext
    exact ih h1 (fun d hd => hc d (List.mem_cons_of_mem c hd)) (fun d hd => hg d (List.mem_cons_of_mem c hd)) hrest

theorem Logged.run_all {P : Params} (cs : List Call) {g g' : Global} {tss : List (List CString)} (h : Logged P g tss)
    (hc : ∀ c ∈ cs, (requestOf c.tokens).isSome ∧ c.tokens.length ≤ maxTokens) (hrun : execAll P g cs = some g')
    (hall : g'.logReturns = g.logReturns ++ List.replicate cs.length 0) : Logged P g' (tss ++ cs.map Call.tokens) := by
  induction cs generalizing g tss with
  | nil =>
    obtain rfl := Option.some.inj hrun
    simpa using h
  | cons c cs ih =>
    obtain ⟨⟨length, cli', g1⟩, hf, hrest⟩ := Option.bind_eq_some_iff.mp hrun
    obtain ⟨⟨id, o⟩, hr⟩ := Option.isSome_iff_exists.mp (hc c List.mem_cons_self).1
    have hcs : ∀ d ∈ cs, (requestOf d.tokens).isSome ∧ d.tokens.length ≤ maxTokens :=
      fun d hd => hc d (List.mem_cons_of_mem c hd)
    obtain ⟨hpre, hlen⟩ := execAll_logReturns cs (fun d hd => (hcs d hd).1) hrest
    rw [hall, List.length_append, List.length_replicate, List.length_cons] at hlen
    -- there are as many return codes as commands, so each command has left one
    rcases filter_logReturns hr hf with he | ⟨ret, he, hgr⟩
    · rw [he] at hlen
      omega
    · have hzero : ret = 0 := by
        rw [he, hall, List.prefix_append_right_inj] at hpre
        exact List.eq_of_mem_replicate (hpre.subset (List.mem_singleton_self ret))
      subst hzero
      rcases h.step hr (hc c List.mem_cons_self).2 hgr hf with ⟨hsame, -⟩ | ⟨ret, hret, h1⟩
      · rw [hsame] at he
        simp at he
      · rw [he, List.append_cancel_left_eq, List.cons.injEq] at hret
        have h2 := ih (h1 hret.1.symm) hcs hrest (by rw [hall, he]; simp [List.replicate_succ])
        simpa using h2

/-- Commands run from empty engines with the log working, and no allocation failing inside kvs_rbtree_mod: reading
the log back into empty engines gives the same map in each of the four. Every other allocation may fail. -/
theorem log_replay_rebuilds_maps (P : Params) (g g' : Global) (calls : List Call) (hempty : Holds P g.store Maps.empty)
    (hrec : g.recovering = false) (hlog : g.config.enableLog = true) (hnew : g.log.queued = [])
    (hcalls : ∀ c ∈ calls, (requestOf c.tokens).isSome ∧ c.tokens.length ≤ maxTokens)
    (hrun : execAll P g calls = some g') (hok : ∀ r ∈ g'.logReturns, r = 0) (hsize : g'.log.bytes.length < 2 ^ 31)
    (hmod : ∀ c ∈ calls, ∀ k v, requestOf c.tokens = some (.rbtree, .mod k v) → c.env.sys.alloc 0 = true)
    (r : Global) (hr : Holds P r.store Maps.empty) (hrrec : r.recovering = true) (fe : FileEnv) (hfe : fe.Granted)
    (env : ℕ → Env) (henv : ∀ i, (env i).sys.AllocOk) :
    ∃ ret r', kvsFileRead (protocolHandler P env) fe g'.log.bytes r = some (ret, r') ∧ SameMaps P g'.store r'.store := by
  have hstart : Logged P g [] :=
    ⟨hrec, hlog, by simp [LogState.bytes, hnew], by simp, trivial, hempty⟩
  have hgranted : ∀ c ∈ calls, ∀ id o, requestOf c.tokens = some (id, o) → callGranted id (o, c.env.sys) := by
    intro c hc id o hreq
    cases id with
    | rbtree =>
      cases o with
      | mod k v => exact hmod c hc k v hreq
      | _ => trivial
    | _ => trivial
  obtain ⟨tss, hend⟩ := hstart.run calls hcalls hgranted hrun hok
  rw [hend.bytes] at hsize ⊢
  obtain ⟨ret, s', hread, hs'⟩ := fileRead_frames hfe henv tss hend.loggable hsize hr hrrec
  exact ⟨ret, _, hread, sameMaps_of_holds hend.holds hs'⟩

def Call.plain (tokens : List CString) : Call := ⟨tokens, fileClient (fun _ => 0), .granted⟩

def Call.starved (tokens : List CString) : Call :=
  { Call.plain tokens with env := { Env.granted with sys := ⟨fun _ => false, fun _ => false⟩ } }

theorem log_replay_rebuilds_maps_example :
    ∃ g', execAll .small { Global.start .small with recovering := false }
        [.plain [.lit "RSET", .lit "k", .lit "v"], .plain [.lit "RMOD", .lit "k", .lit "w"],
          .starved [.lit "LSET", .lit "k", .lit "v"], .plain [.lit "GET", .lit "k"]] = some g' ∧
      ∃ ret r', kvsFileRead (protocolHandler .small (fun _ => .granted)) .granted g'.log.bytes (.start .small) =
        some (ret, r') ∧ SameMaps .small g'.store r'.store := by
  have hrun : (execAll .small { Global.start .small with recovering := false }
      [.plain [.lit "RSET", .lit "k", .lit "v"], .plain [.lit "RMOD", .lit "k", .lit "w"],
        .starved [.lit "LSET", .lit "k", .lit "v"], .plain [.lit "GET", .lit "k"]]).map
      (fun g => (g.logReturns, g.log.bytes.length)) = some ([0, 0], 44) := by decide +kernel
  obtain ⟨g', hg, hf⟩ := Option.map_eq_some_iff.mp hrun
  obtain ⟨hret, hlen⟩ := Prod.mk.inj hf
  refine ⟨g', hg, log_replay_rebuilds_maps .small _ g' _ (fresh_empty _) rfl rfl rfl ?_ hg ?_ ?_ ?_ (.start .small)
    (fresh_empty _) rfl .granted FileEnv.granted_granted (fun _ => .granted) (fun _ => Sys.granted_allocOk)⟩
  · decide +kernel
  · rw [hret]
    decide
  · rw [hlen]
    decide
  · intro c hc k v hreq
    simp only [List.mem_cons, List.not_mem_nil, or_false] at hc
    rcases hc with rfl | rfl | rfl | rfl
    · rfl
    · rfl
    · have hno : requestOf [.lit "LSET", .lit "k", .lit "v"] = some (.skiplist, .set (.lit "k") (.lit "v")) := by
        decide +kernel
      rw [Call.starved, Call.plain, hno] at hreq
      cases hreq
    · rfl

/-- RSET k v, then an RMOD k w whose kvs_malloc fails: the tree has already freed v, and the log does not say so. -/
theorem log_replay_revives_freed_value :
    ∃ g' ret r', execAll .small { Global.start .small with recovering := false }
        [.plain [.lit "RSET", .lit "k", .lit "v"], .starved [.lit "RMOD", .lit "k", .lit "w"]] = some g' ∧
      g'.logReturns = [0] ∧
      kvsFileRead (protocolHandler .small (fun _ => .granted)) .granted g'.log.bytes (.start .small) = some (ret, r') ∧
      (engine .small .rbtree).get g'.store (some (.lit "k")) = some none ∧
      (engine .small .rbtree).get r'.store (some (.lit "k")) = some (some (.lit "v")) ∧
      ¬ SameMaps .small g'.store r'.store := by
  have hrun : (do
      let g ← execAll .small { Global.start .small with recovering := false }
        [.plain [.lit "RSET", .lit "k", .lit "v"], .starved [.lit "RMOD", .lit "k", .lit "w"]]
      let r ← kvsFileRead (protocolHandler .small (fun _ => .granted)) .granted g.log.bytes (.start .small)
      some (g.logReturns, (engine .small .rbtree).get g.store (some (.lit "k")),
        (engine .small .rbtree).get r.2.store (some (.lit "k")))) =
      some ([0], some none, some (some (.lit "v"))) := by decide +kernel
  obtain ⟨g', hg, hf⟩ := Option.bind_eq_some_iff.mp hrun
  obtain ⟨⟨ret, r'⟩, hr, hf⟩ := Option.bind_eq_some_iff.mp hf
  obtain ⟨hret, hf⟩ := Prod.mk.inj (Option.some.inj hf)
  obtain ⟨hold, hnew⟩ := Prod.mk.inj hf
  refine ⟨g', ret, r', hg, hret, hr, hold, hnew, fun hsame => ?_⟩
  have := (hsame .rbtree (.lit "k")).1
  rw [hold, hnew] at this
  simp at this

theorem text_ok {reply : Reply} (h : reply.text = Reply.ok.text) : reply = .ok := by
  have hhead := congrArg List.head? h
  cases reply with
  | ok => rfl
  | silent l => simp [Reply.text, ascii] at hhead
  | value v => simp [Reply.text, ascii] at hhead
  | none token => simp [Reply.text, ascii] at hhead
  | _ => exact absurd h (by decide +kernel)

theorem replyTo_ok {o : Op} {a : Answer} (h : (replyTo o a).1 = .ok) : (replyTo o a).2 = true := by
  have hof : ∀ other n, other ≠ Reply.ok → (replyOf other n).1 = .ok → (replyOf other n).2 = true := by
    intro other n hne hok
    by_cases h0 : n = 0
    · simp [replyOf, h0]
    · rw [replyOf, if_neg h0] at hok
      split_ifs at hok
      exact absurd hok hne
  cases o with
  | set k v => cases a <;> simp_all [replyTo]
  | del k => cases a <;> simp_all [replyTo]
  | mod k v => cases a <;> simp_all [replyTo]
  | get k => cases a with
    | code n => simp [replyTo] at h
    | value v => cases v <;> simp [replyTo] at h
  | exist k => cases a with
    | code n =>
      simp only [replyTo] at h
      split_ifs at h
    | value v => simp [replyTo] at h

/-- The file is open, and kvs_log_write gets its frame, its submission entry and its context. -/
structure LogState.Ready (log : LogState) (env : LogEnv) (tokens : List CString) : Prop where
  fdLog : log.fdLog = true
  ringLogInited : log.ringLogInited = true
  frame : env.frame = true
  sqe : env.sqe = true
  ctx : env.ctx = true
  fits : (Kvsp.frameOf tokens).length < intMax

theorem kvsLogWrite_enqueues_iff {tokens : List CString} {log log' : LogState} {env : LogEnv} {ret : ℤ}
    (ht : tokens ≠ []) (h : kvsLogWrite true tokens log env = some (log', ret)) :
    log' = log.enqueue (Kvsp.frameOf tokens) ↔ log.Ready env tokens := by
  constructor
  · rintro rfl
    have hkept : ∀ {n : ℤ} {buf : Bytes}, some (log, n) ≠ some (log.enqueue buf, ret) := by
      intro n buf he
      have hq := congrArg (fun x : Option (LogState × ℤ) => x.map (fun r => r.1.queued.length)) he
      simp [LogState.enqueue] at hq
    simp only [kvsLogWrite, not_true_eq_false, if_false, if_neg ht] at h
    split at h
    · exact absurd h hkept
    next hopen =>
      obtain ⟨o, hb, h⟩ := Option.bind_eq_some_iff.mp h
      cases o with
      | none => exact absurd h hkept
      | some buf =>
        have hframe : env.frame = true := by
          by_contra hno
          simp only [Kvsp.kvsBuildKvspFrame, hno, not_false_eq_true, if_true] at hb
          split_ifs at hb <;> simp at hb
        dsimp only at h
        split at h
        · exact absurd h hkept
        split at h
        · exact absurd h hkept
        next hsqe =>
          split at h
          · exact absurd h hkept
          next hctx =>
            push Not at hopen hsqe hctx
            exact ⟨hopen.1, hopen.2, hframe, hsqe, hctx, (Kvsp.buildKvspFrame_some hb).2.2⟩
  · intro hr
    obtain rfl : env = .granted := by
      obtain ⟨-, -, h1, h2, h3, -⟩ := hr
      cases env
      simp_all [LogEnv.granted]
    rw [kvsLogWrite_granted ht hr.fdLog hr.ringLogInited hr.fits] at h
    exact (Prod.mk.inj (Option.some.inj h)).1.symm

/-- A write that was acknowledged is queued for the log at the current offset just where kvs_log_write succeeds:
its result is not looked at. -/
theorem acknowledged_is_logged_iff (P : Params) (tokens : List CString) (cli cli' : Client) (g g' : Global) (env : Env)
    (length : ℤ) (id : EngineId) (o : Op) (hreq : requestOf tokens = some (id, o)) (hlog : g.config.enableLog = true)
    (hrec : g.recovering = false) (hw : cli.Fits)
    (h : kvsFilterProtocol P tokens cli g env = some (length, cli', g')) (hl : 0 ≤ length)
    (hok : (cli'.wbuf.drop cli.wPos).take length.toNat = ascii "+OK\r\n") :
    g'.log = g.log.enqueue (Kvsp.frameOf tokens) ↔ g.log.Ready env.log tokens := by
  obtain ⟨reply, heff, rfl, hext, -⟩ := filter_returns hw h hl
  rw [Int.toNat_natCast, hext.appended hw] at hok
  obtain rfl := text_ok hok
  rw [effect_request P g env hreq] at heff
  obtain ⟨⟨s', a⟩, -, heff⟩ := Option.bind_eq_some_iff.mp heff
  obtain ⟨g1, hl1, he⟩ := Option.map_eq_some_iff.mp heff
  obtain ⟨rfl, hreply⟩ := Prod.mk.inj he
  have hwrote := replyTo_ok hreply
  simp only [logCommand, hwrote, hrec, Bool.false_eq_true, not_false_eq_true, and_self, ↓reduceIte, hlog] at hl1
  obtain ⟨⟨log, ret⟩, hwrite, hl1⟩ := Option.bind_eq_some_iff.mp hl1
  obtain rfl := Option.some.inj hl1
  have ht : tokens ≠ [] := by
    rintro rfl
    simp [requestOf] at hreq
  exact kvsLogWrite_enqueues_iff ht hwrite

theorem acknowledged_is_logged_iff_example :
    ∃ cli' g', kvsFilterProtocol .small [.lit "SET", .lit "k", .lit "v"] (fileClient (fun _ => 0))
        { Global.start .small with recovering := false } .granted = some (5, cli', g') ∧
      g'.log = (Global.start .small).log.enqueue (Kvsp.frameOf [.lit "SET", .lit "k", .lit "v"]) := by
  have hrun : (kvsFilterProtocol .small [.lit "SET", .lit "k", .lit "v"] (fileClient (fun _ => 0))
      { Global.start .small with recovering := false } .granted).map
        (fun r => (r.1, (r.2.1.wbuf.drop 0).take r.1.toNat)) = some (5, ascii "+OK\r\n") := by decide +kernel
  obtain ⟨⟨length, cli', g'⟩, h, he⟩ := Option.map_eq_some_iff.mp hrun
  obtain ⟨rfl, hok⟩ := Prod.mk.inj he
  refine ⟨cli', g', h, ?_⟩
  exact (acknowledged_is_logged_iff .small _ (fileClient (fun _ => 0)) cli' { Global.start .small with recovering := false } g'
    .granted 5 .array (.set (.lit "k") (.lit "v")) (by decide +kernel) rfl rfl
    (fileClient_sized _).writeOk.toFits h (by decide) hok).mpr
    ⟨rfl, rfl, rfl, rfl, rfl, by decide +kernel⟩

/-- No submission entry is free: the client is told +OK, and nothing is queued. -/
theorem acknowledged_and_not_logged :
    (kvsFilterProtocol .small [.lit "SET", .lit "k", .lit "v"] (fileClient (fun _ => 0))
      { Global.start .small with recovering := false } { Env.granted with log := ⟨true, false, true⟩ }).map
        (fun r => ((r.2.1.wbuf.drop 0).take r.1.toNat, r.2.2.log.queued, r.2.2.log.globalLogOffset, r.2.2.logReturns)) =
      some (ascii "+OK\r\n", [], 0, [-2]) := by
  decide +kernel

end Lidis
