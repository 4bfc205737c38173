import Lidis.CrashLog

namespace Lidis

open Engine Store

theorem visible_whole {rest : Bytes} (h : rest.length < 2 ^ 31) : visible rest = rest := by
  have hmod : rest.length % 2 ^ 32 = rest.length := Nat.mod_eq_of_lt (by omega)
  rw [visible, hmod, if_pos (by simp only [intMax]; omega), List.take_length]

theorem fits_of_size {tss : List (List CString)} {rest : Bytes} (h : (frames tss ++ rest).length < 2 ^ 31) :
    (frames tss).length ≤ (frames tss ++ rest).length % 2 ^ 32 ∧ (frames tss ++ rest).length % 2 ^ 32 ≤ intMax := by
  rw [Nat.mod_eq_of_lt (by omega)]
  simp only [List.length_append, intMax] at h ⊢
  omega

section

variable {P : Params} {env : ℕ → Env} {load : LoadEnv} {g : Global} {m : Maps}

theorem logInit_torn (henv : ∀ i, (env i).sys.AllocOk) (hl : load.Granted) {tss : List (List CString)}
    (hok : ∀ ts ∈ tss, Loggable ts) {ts : List CString} (hts : Loggable ts) {p q : Bytes}
    (hpq : p ++ q = Kvsp.frameOf ts) (hq : q ≠ []) (hsize : (frames tss ++ p).length < 2 ^ 31) (hH : Holds P g.store m)
    (hrec : g.recovering = true) (hlog : g.config.enableLog = true) :
    ∃ s', kvsLogInit P (frames tss ++ p) load env g = some (0, { g with
        store := s', log := g.log.opened (frames tss ++ p), executed := g.executed ++ tss }) ∧
      Holds P s' (m.replay P (requests tss)) := by
  obtain ⟨ret, s', k, -, hread, hs', hiff⟩ := fileRead_torn (g := { g with log := g.log.opened (frames tss ++ p) }) henv
    hl.read tss hok hts.2.2 hpq hq (Or.inl rfl) hH hrec
  obtain rfl := hiff.mpr (Or.inr (fits_of_size hsize))
  rw [List.take_length] at hread hs'
  exact ⟨s', kvsLogInit_read hlog hl hread, hs'⟩

theorem logInit_frames (henv : ∀ i, (env i).sys.AllocOk) (hl : load.Granted) {tss : List (List CString)}
    (hok : ∀ ts ∈ tss, Loggable ts) (hsize : (frames tss).length < 2 ^ 31) (hH : Holds P g.store m)
    (hrec : g.recovering = true) (hlog : g.config.enableLog = true) :
    ∃ s', kvsLogInit P (frames tss) load env g = some (0, { g with
        store := s', log := g.log.opened (frames tss), executed := g.executed ++ tss }) ∧
      Holds P s' (m.replay P (requests tss)) := by
  obtain ⟨ret, s', hread, hs'⟩ := fileRead_frames (g := { g with log := g.log.opened (frames tss) }) hl.read henv tss hok
    hsize hH hrec
  exact ⟨s', kvsLogInit_read hlog hl hread, hs'⟩

end

theorem mem_of_mapM {α β : Type} {f : α → Option β} {xs : List α} {ys : List β} (h : xs.mapM f = some ys) {y : β}
    (hy : y ∈ ys) : ∃ x ∈ xs, f x = some y := by
  induction xs generalizing ys with
  | nil =>
    obtain rfl : ys = [] := by simpa using h.symm
    simp at hy
  | cons x xs ih =>
    rw [List.mapM_cons] at h
    obtain ⟨z, hz, h⟩ := Option.bind_eq_some_iff.mp h
    obtain ⟨zs, hzs, h⟩ := Option.bind_eq_some_iff.mp h
    obtain rfl := Option.some.inj h
    rcases List.mem_cons.mp hy with rfl | hy
    · exact ⟨x, List.mem_cons_self, hz⟩
    · obtain ⟨w, hw, he⟩ := ih hzs hy
      exact ⟨w, List.mem_cons_of_mem x hw, he⟩

theorem kvsProtocol_executed {P : Params} {cli cli' : Client} {g g' : Global} {env : Env} {ret : ℤ}
    (hp : cli.protocol = .kvsp) (h : kvsProtocol P cli g env = some (ret, cli', g')) :
    (g'.executed = g.executed ∧ ret < 0) ∨
      ∃ tokens, g'.executed = g.executed ++ [tokens] ∧ ∀ t ∈ tokens, t.length ≤ cli.cmdTl - 2 := by
  simp only [kvsProtocol, kvsSplitToken, hp, bind, Option.bind] at h
  cases hsplit : Kvsp.splitToken cli.rbuf cli.cmdHl cli.cmdTl with
  | none =>
    simp only [hsplit, Option.some.injEq, Prod.mk.injEq] at h
    exact Or.inl ⟨by rw [h.2.2], by rw [← h.1]; decide⟩
  | some r =>
    obtain ⟨rbuf, addresses⟩ := r
    simp only [hsplit] at h
    obtain ⟨tokens, hread, h⟩ := Option.bind_eq_some_iff.mp h
    obtain ⟨hnul, hbound⟩ := Kvsp.splitToken_bounds hsplit
    refine (filter_executed h).imp id (fun he => ⟨tokens, he, fun t ht => ?_⟩)
    obtain ⟨a, ha, hat⟩ := mem_of_mapM hread ht
    exact CString.read_length_le hat (hbound a ha) hnul

theorem readFrames_executed {P : Params} {env : ℕ → Env} {fe : FileEnv} (n : ℕ) {i : ℕ} {rest : Bytes} {cli : Client}
    {g g' : Global} (h : readFrames (protocolHandler P env) fe n i rest cli g = some g') : g.executed <+: g'.executed := by
  induction n generalizing i rest cli g with
  | zero => simp [readFrames] at h
  | succ n ih =>
    rw [readFrames] at h
    split_ifs at h
    · rw [Option.some.inj h]
    split at h
    · rw [Option.some.inj h]
    · rw [Option.some.inj h]
    · obtain ⟨mid, -, h⟩ := Option.bind_eq_some_iff.mp h
      cases mid with
      | none =>
        rw [Option.some.inj h]
      | some mid =>
        obtain ⟨cli1, -, h⟩ := Option.bind_eq_some_iff.mp h
        obtain ⟨⟨ret, cli2, g1⟩, hrun, h⟩ := Option.bind_eq_some_iff.mp h
        have hstep : g.executed <+: g1.executed := by
          simp only [protocolHandler, kvsProtocol] at hrun
          obtain ⟨r, -, hrun⟩ := Option.bind_eq_some_iff.mp hrun
          cases r with
          | none =>
            obtain ⟨-, -, rfl⟩ := by simpa using hrun
            exact List.prefix_rfl
          | some r =>
            obtain ⟨tokens, -, hrun⟩ := Option.bind_eq_some_iff.mp hrun
            rcases filter_executed hrun with ⟨he, -⟩ | he
            · rw [he]
            · rw [he]
              exact List.prefix_append _ _
        dsimp only at h
        split_ifs at h
        · rwa [← Option.some.inj h]
        · exact hstep.trans (ih h)

/-- Frames behind a torn one are read as the rest of it: nothing is executed next, or something no longer than the torn
frame. -/
theorem readFrames_swallowed {P : Params} {env : ℕ → Env} {fe : FileEnv} (hfe : fe.Granted) {n i : ℕ} {ts : List CString}
    {p q more : Bytes} {cli : Client} {g g' : Global} (hs : cli.Sized) (hts : (Kvsp.frameOf ts).length < intMax)
    (hpq : p ++ q = Kvsp.frameOf ts) (hp : p ≠ []) (hsize : (p ++ 35 :: more).length < 2 ^ 31)
    (h : readFrames (protocolHandler P env) fe (n + 1) i (p ++ 35 :: more) cli g = some g') :
    g'.executed = g.executed ∨
      ∃ tokens, g.executed ++ [tokens] <+: g'.executed ∧ ∀ t ∈ tokens, t.length ≤ (Kvsp.frameOf ts).length := by
  have hvis := visible_whole hsize
  have hsame : Kvsp.NoFrame (Kvsp.kvspParseBulkSize (p ++ 35 :: more)) → g'.executed = g.executed := by
    intro hno
    rw [readFrames_noFrame (Or.inr (by rwa [hvis]))] at h
    rw [Option.some.inj h]
  rcases Kvsp.parse_interrupted (c := 35) (t := more) hts.le hpq hp (by decide) (by decide) (by decide) with hno | hframe
  · exact Or.inl (hsame hno)
  · have hfit := (Kvsp.parse_frame_bounds hframe).2
    have htl : ((p ++ 35 :: more).take (Kvsp.frameOf ts).length).length = (Kvsp.frameOf ts).length := by
      rw [List.length_take, min_eq_left hfit]
    obtain ⟨cli1, hgrow, hs1, hcap⟩ := growRead_sized hs hts (hfe.gives i _ _)
    obtain ⟨hload, hs2⟩ := loadFrame_sized hs1 (Kvsp.headOf (Kvsp.body ts).length).length
      (htl.trans_le (hcap ▸ le_max_right _ _))
    rw [readFrames, if_neg (by simp), hvis, hframe] at h
    simp only [hgrow, hload, bind, Option.bind] at h
    obtain ⟨⟨ret, cli2, g1⟩, hrun, h⟩ := Option.bind_eq_some_iff.mp h
    dsimp only at h
    rcases kvsProtocol_executed hs2.protocol hrun with ⟨he, hneg⟩ | ⟨tokens, he, hshort⟩
    · rw [if_pos hneg] at h
      rw [← Option.some.inj h]
      exact Or.inl he
    · refine Or.inr ⟨tokens, ?_, fun t ht => (hshort t ht).trans ?_⟩
      · rw [← he]
        split_ifs at h
        · rw [Option.some.inj h]
        · exact readFrames_executed n h
      · simp only [htl]
        omega

def longSet (n : ℕ) : List CString := [.lit "SET", .lit "k", .ofLength n]

theorem longSet_length {n : ℕ} (h : n < 10 ^ 10) : (Kvsp.frameOf (longSet n)).length ≤ n + 40 := by
  have h1 : (decimal n).length ≤ 10 := decimal_length_le h (by norm_num)
  have hbody : (Kvsp.body (longSet n)).length = (decimal n).length + n + 14 := by
    have hset : (Kvsp.item (.lit "SET")).length = 6 := by decide
    have hk : (Kvsp.item (.lit "k")).length = 4 := by decide
    have hv : (Kvsp.item (.ofLength n)).length = (decimal n).length + n + 2 := by
      rw [Kvsp.item_length, CString.ofLength_length]
    rw [Kvsp.body_length, longSet]
    simp only [List.map_cons, List.map_nil, List.sum_cons, List.sum_nil, hset, hk, hv]
    omega
  have h2 : (decimal (Kvsp.body (longSet n)).length).length ≤ 11 :=
    decimal_length_le (by rw [hbody]; omega) (by norm_num)
  rw [Kvsp.frameOf_length, Kvsp.headOf_length, hbody]
  rw [hbody] at h2
  omega

theorem longSet_loggable {n : ℕ} (h : n + 40 < intMax) : Loggable (longSet n) := by
  refine ⟨⟨.array, _, rfl, rfl⟩, by simp [longSet, maxTokens], lt_of_le_of_lt (longSet_length ?_) h⟩
  simp only [intMax] at h
  omega

theorem fileRead_inv {G : Type} {handler : Handler G} {fe : FileEnv} (hfe : fe.Granted) {file : Bytes} {g g' : G}
    {code : ℤ} (hne : file ≠ []) (h : kvsFileRead handler fe file g = some (code, g')) :
    readFrames handler fe (file.length + 1) 0 file (fileClient fe.fresh) g = some g' := by
  rw [kvsFileRead, if_neg hne, if_neg (by simp [hfe.1]), if_neg (by simp [hfe.2.1])] at h
  obtain ⟨g1, hread, h⟩ := Option.bind_eq_some_iff.mp h
  rw [hread, (Prod.mk.inj (Option.some.inj h)).2]

theorem logInit_hides {P : Params} {env : ℕ → Env} {load : LoadEnv} {r r' : Global} {m : Maps} {ret : ℤ}
    (henv : ∀ i, (env i).sys.AllocOk) (hl : load.Granted) {fs : List (List CString)} (hfs : ∀ ts ∈ fs, Loggable ts)
    {ts : List CString} (hts : Loggable ts) {p q : Bytes} (hpq : p ++ q = Kvsp.frameOf ts) (hp : p ≠ []) {n : ℕ}
    (hn : (Kvsp.frameOf ts).length < n) (hsize : (frames fs ++ (p ++ frames [longSet n])).length < 2 ^ 31)
    (hR : Holds P r.store m) (hrec : r.recovering = true) (hlog : r.config.enableLog = true)
    (h : kvsLogInit P (frames fs ++ (p ++ frames [longSet n])) load env r = some (ret, r')) :
    r'.executed ≠ r.executed ++ (fs ++ [longSet n]) := by
  intro hexec
  obtain ⟨more, hmore⟩ : ∃ more, frames [longSet n] = 35 :: more := ⟨_, rfl⟩
  rw [hmore] at hsize h
  have hne : frames fs ++ (p ++ 35 :: more) ≠ [] := by simp
  have hsum : (frames fs ++ (p ++ 35 :: more)).length = (frames fs).length + (p ++ 35 :: more).length := List.length_append
  obtain ⟨code, hread⟩ := kvsLogInit_inv hlog hl hne h
  have hrun := fileRead_inv hl.read hne hread
  obtain ⟨s', hall, -⟩ := applyAll_recovering
    (g := { r with log := r.log.opened (frames fs ++ (p ++ 35 :: more)) }) henv fs hfs 0 hR hrec
  obtain ⟨hfit, hmax⟩ := fits_of_size hsize
  have hcount := length_le_frames fs
  obtain ⟨cli', hs', hskip⟩ := readFrames_frames (n := (frames fs ++ (p ++ 35 :: more)).length - fs.length + 1)
    (protocol_handles P env) fs (p ++ 35 :: more) (fileClient_sized load.read.fresh) (hl.read.fills _ _ _) hfs hmax hfit
    (fun u hu => (hfs u hu).2.2) hall
  rw [show (frames fs ++ (p ++ 35 :: more)).length - fs.length + 1 + fs.length =
    (frames fs ++ (p ++ 35 :: more)).length + 1 by omega, hrun] at hskip
  rcases readFrames_swallowed hl.read hs' hts.2.2 hpq hp (by omega) hskip.symm with he | ⟨tokens, hpre, hshort⟩
  · rw [hexec] at he
    simp at he
  · simp only [hexec, List.append_assoc, List.prefix_append_right_inj] at hpre
    obtain rfl : tokens = longSet n := by simpa using hpre
    have := hshort (.ofLength n) (by simp [longSet])
    rw [CString.ofLength_length] at this
    omega

/-- A server recovers from a log of whole frames `fs` and a strict part `p` of another one, and appends to it. That the
next start replays `fs` and whatever was appended is the case exactly when nothing was torn. -/
theorem torn_tail_hides_later_records (P : Params) (fs : List (List CString)) (hfs : ∀ ts ∈ fs, Loggable ts)
    (ts : List CString) (hts : Loggable ts) (p q : Bytes) (hpq : p ++ q = Kvsp.frameOf ts) (hq : q ≠ [])
    (hroom : (frames fs).length + 2 * (Kvsp.frameOf ts).length + 64 < 2 ^ 31)
    (g r : Global) (m n : Maps) (hH : Holds P g.store m) (hR : Holds P r.store n) (hrec : g.recovering = true)
    (hrrec : r.recovering = true) (hlog : g.config.enableLog = true) (hrlog : r.config.enableLog = true)
    (hoff : g.log.globalLogOffset = 0) (hnew : g.log.queued = []) (load : LoadEnv) (hl : load.Granted) (env : ℕ → Env)
    (henv : ∀ i, (env i).sys.AllocOk) :
    ∃ g1, kvsLogInit P (frames fs ++ p) load env g = some (0, g1) ∧ g1.executed = g.executed ++ fs ∧
      ((∀ gs lenv log, (∀ u ∈ gs, Loggable u) → (frames fs ++ (p ++ frames gs)).length < 2 ^ 31 →
        logAll lenv 0 gs g1.log = some log →
        ∃ r', kvsLogInit P (FileImage.writeAll 0 (frames fs ++ p) log.queued) load env r = some (0, r') ∧
          r'.executed = r.executed ++ (fs ++ gs)) ↔ p = []) := by
  have hlen : p.length + q.length = (Kvsp.frameOf ts).length := by rw [← List.length_append, hpq]
  have hpart : (frames fs ++ p).length = (frames fs).length + p.length := List.length_append
  obtain ⟨s1, hinit, -⟩ := logInit_torn henv hl hfs hts hpq hq (by omega) hH hrec hlog
  refine ⟨_, hinit, rfl, ?_⟩
  -- the next frame goes to the end of the file, torn or not
  have himage : ∀ gs lenv log, logAll lenv 0 gs (g.log.opened (frames fs ++ p)) = some log →
      FileImage.writeAll 0 (frames fs ++ p) log.queued = frames fs ++ (p ++ frames gs) := by
    intro gs lenv log hall
    obtain ⟨ws, hqueued, hcons, hmap⟩ := logAll_queued hall
    have hstart : (g.log.opened (frames fs ++ p)).globalLogOffset = (frames fs ++ p).length := by
      rw [LogState.opened, hoff]
      split_ifs with hnil
      · simp [hnil]
      · rfl
    rw [hstart] at hcons
    rw [LogState.opened, hnew, List.nil_append] at hqueued
    rw [hqueued, FileImage.writeAll_consecutive 0 _ ws hcons, flatMap_queued hmap, List.append_assoc]
  constructor
  · intro hall
    by_contra hp
    have hu := longSet_length (n := (Kvsp.frameOf ts).length + 1) (by omega)
    have hok : Loggable (longSet ((Kvsp.frameOf ts).length + 1)) := longSet_loggable (by simp only [intMax]; omega)
    have hsize : (frames fs ++ (p ++ frames [longSet ((Kvsp.frameOf ts).length + 1)])).length < 2 ^ 31 := by
      rw [frames_cons, frames_nil, List.append_nil, ← List.append_assoc, List.length_append]
      omega
    have hfd : (g.log.opened (frames fs ++ p)).fdLog = true := rfl
    have hwrite := kvsLogWrite_granted (show longSet ((Kvsp.frameOf ts).length + 1) ≠ [] by simp [longSet]) hfd rfl hok.2.2
    have hlogged : logAll (fun _ => .granted) 0 [longSet ((Kvsp.frameOf ts).length + 1)] (g.log.opened (frames fs ++ p)) =
        some ((g.log.opened (frames fs ++ p)).enqueue (Kvsp.frameOf (longSet ((Kvsp.frameOf ts).length + 1)))) := by
      simp [logAll, hwrite]
    obtain ⟨r', hinit2, hexec⟩ := hall [longSet ((Kvsp.frameOf ts).length + 1)] _ _ (by simpa using hok) hsize hlogged
    rw [himage _ _ _ hlogged] at hinit2
    exact logInit_hides henv hl hfs hts hpq hp (Nat.lt_succ_self _) hsize hR hrrec hrlog hinit2 hexec
  · rintro rfl gs lenv log hgs hsize hall
    rw [himage gs lenv log hall]
    rw [List.nil_append, ← frames_append] at hsize ⊢
    obtain ⟨s2, hinit2, -⟩ := logInit_frames henv hl
      (fun ts hts => (List.mem_append.mp hts).elim (hfs ts) (hgs ts)) hsize hR hrrec hrlog
    exact ⟨_, hinit2, rfl⟩

theorem torn_tail_hides_later_records_example :
    ∃ g1, kvsLogInit .small (frames [[.lit "SET", .lit "k", .lit "v"]] ++ ascii "#12\r\n^3&DE") .granted
        (fun _ => .granted) (.start .small) = some (0, g1) ∧
      ¬ ∀ gs lenv log, (∀ u ∈ gs, Loggable u) →
        (frames [[.lit "SET", .lit "k", .lit "v"]] ++ (ascii "#12\r\n^3&DE" ++ frames gs)).length < 2 ^ 31 →
        logAll lenv 0 gs g1.log = some log →
        ∃ r', kvsLogInit .small (FileImage.writeAll 0 (frames [[.lit "SET", .lit "k", .lit "v"]] ++ ascii "#12\r\n^3&DE")
            log.queued) .granted (fun _ => .granted) (.start .small) = some (0, r') ∧
          r'.executed = [] ++ ([[.lit "SET", .lit "k", .lit "v"]] ++ gs) := by
  obtain ⟨g1, hinit, -, hiff⟩ := torn_tail_hides_later_records .small [[.lit "SET", .lit "k", .lit "v"]]
    (by simp [loggable_set]) [.lit "DEL", .lit "k"] loggable_del (ascii "#12\r\n^3&DE") (ascii "L^1&k\r\n")
    (by decide +kernel) (by decide) (by decide +kernel) (.start .small) (.start .small) Maps.empty Maps.empty
    (fresh_empty _) (fresh_empty _) rfl rfl rfl rfl rfl rfl .granted LoadEnv.granted_granted (fun _ => .granted)
    (fun _ => Sys.granted_allocOk)
  exact ⟨g1, hinit, fun hall => absurd (hiff.mp hall) (by decide)⟩

/-- A lone `#` is left of the first record. The server starts, logs a SET, and after the next start the SET is gone. -/
theorem torn_tail_hides_set :
    ∃ g1 log r', (∃ q, q ≠ [] ∧ ascii "#" ++ q = Kvsp.frameOf [.lit "DEL", .lit "k"]) ∧
      kvsLogInit .small (ascii "#") .granted (fun _ => .granted) (.start .small) = some (0, g1) ∧
      logAll (fun _ => .granted) 0 [[.lit "SET", .lit "k", .lit "v"]] g1.log = some log ∧
      kvsLogInit .small (FileImage.writeAll 0 (ascii "#") log.queued) .granted (fun _ => .granted) (.start .small) =
        some (0, r') ∧
      r'.executed = [] := by
  have hrun : (do
      let i ← kvsLogInit .small (ascii "#") .granted (fun _ => .granted) (.start .small)
      let log ← logAll (fun _ => .granted) 0 [[.lit "SET", .lit "k", .lit "v"]] i.2.log
      let r ← kvsLogInit .small (FileImage.writeAll 0 (ascii "#") log.queued) .granted (fun _ => .granted) (.start .small)
      some (i.1, r.1, r.2.executed)) = some (0, 0, []) := by decide +kernel
  obtain ⟨⟨code, g1⟩, hg, hrun⟩ := Option.bind_eq_some_iff.mp hrun
  obtain ⟨log, hlog, hrun⟩ := Option.bind_eq_some_iff.mp hrun
  obtain ⟨⟨code', r'⟩, hr, hf⟩ := Option.bind_eq_some_iff.mp hrun
  simp only [Option.some.injEq, Prod.mk.injEq] at hf
  obtain ⟨rfl, rfl, hexec⟩ := hf
  exact ⟨g1, log, r', ⟨(Kvsp.frameOf [.lit "DEL", .lit "k"]).drop 1, by decide +kernel, by decide +kernel⟩, hg, hlog, hr,
    hexec⟩

end Lidis
