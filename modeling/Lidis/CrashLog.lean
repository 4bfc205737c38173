import Lidis.KvsInit
import Lidis.TornLog

namespace Lidis

open Engine Store

theorem flatMap_queued {cs : List (List CString)} {ws : List (ℕ × Bytes)} (h : ws.map Prod.snd = cs.map Kvsp.frameOf) :
    ws.flatMap Prod.snd = frames cs := by
  rw [List.flatMap_def, h, frames, List.flatMap_def]

theorem logAll_nth {env : ℕ → LogEnv} {cs : List (List CString)} {log log' : LogState} {k off : ℕ} {buf : Bytes}
    (hoff : log.globalLogOffset = 0) (hnew : log.queued = []) (h : logAll env 0 cs log = some log')
    (hk : log'.queued[k]? = some (off, buf)) :
    ∃ ts, cs[k]? = some ts ∧ buf = Kvsp.frameOf ts ∧ off = (frames (cs.take k)).length ∧
      FileImage.writeAll 0 [] (log'.queued.take k) = frames (cs.take k) := by
  obtain ⟨ws, hq, hcons, hmap⟩ := logAll_queued h
  rw [hnew, List.nil_append] at hq
  subst hq
  rw [hoff] at hcons
  have hbuf : (cs.map Kvsp.frameOf)[k]? = some buf := by
    rw [← hmap, List.getElem?_map, hk]
    rfl
  obtain ⟨ts, hts, rfl⟩ := Option.map_eq_some_iff.mp ((List.getElem?_map ..).symm.trans hbuf)
  have htake : (log'.queued.take k).flatMap Prod.snd = frames (cs.take k) := by
    refine flatMap_queued ?_
    rw [List.map_take, hmap, List.map_take]
  refine ⟨ts, hts, rfl, ?_, ?_⟩
  · have hplace := hcons.offset_eq hk
    rwa [htake, Nat.zero_add] at hplace
  · rw [FileImage.writeAll_consecutive 0 [] _ (hcons.take k), htake, List.nil_append]

section

variable {P : Params} {env : ℕ → Env} {fe : FileEnv}

theorem fileRead_torn (henv : ∀ i, (env i).sys.AllocOk) (hfe : fe.Granted) (tss : List (List CString))
    (hok : ∀ ts ∈ tss, Loggable ts) {ts : List CString} (hts : (Kvsp.frameOf ts).length < intMax) {p q rest : Bytes}
    (hpq : p ++ q = Kvsp.frameOf ts) (hq : q ≠ []) (ht : TornAt p q rest) {g : Global} {m : Maps}
    (hH : Holds P g.store m) (hrec : g.recovering = true) :
    ∃ ret s' k, k ≤ tss.length ∧ kvsFileRead (protocolHandler P env) fe (frames tss ++ rest) g =
        some (ret, { g with store := s', executed := g.executed ++ tss.take k }) ∧
      Holds P s' (m.replay P (requests (tss.take k))) ∧
      (k = tss.length ↔ tss = [] ∨ ((frames tss).length ≤ (frames tss ++ rest).length % 2 ^ 32 ∧
        (frames tss ++ rest).length % 2 ^ 32 ≤ intMax)) := by
  have hstop : ∀ n i (cli : Client) (g : Global), cli.Sized →
      readFrames (protocolHandler P env) fe (n + 1) i rest cli g = some g :=
    fun n i cli g hs => readFrames_torn (protocol_handles P env) hfe hs hts hpq hq ht
  have hlen : ∀ u ∈ tss, (Kvsp.frameOf u).length < intMax := fun u hu => (hok u hu).2.2
  obtain ⟨s', hall, hs'⟩ := applyAll_recovering henv tss hok 0 hH hrec
  by_cases hfit : (frames tss).length ≤ (frames tss ++ rest).length % 2 ^ 32 ∧
      (frames tss ++ rest).length % 2 ^ 32 ≤ intMax
  · obtain ⟨ret, hread⟩ := fileRead_frames_then (protocol_handles P env) hfe.1 hfe.2.1 tss rest (hfe.fills _ _ _) hok hlen
      hfit.2 hfit.1 hall (fun n i cli hs => hstop n i cli _ hs)
    exact ⟨ret, s', tss.length, le_rfl, by rw [List.take_length]; exact hread, by rwa [List.take_length],
      iff_of_true rfl (Or.inr hfit)⟩
  · by_cases hnil : tss = []
    · subst hnil
      by_cases hrest : rest = []
      · subst hrest
        exact ⟨-1, g.store, 0, le_rfl, by simp [kvsFileRead], hH, by simp⟩
      · refine ⟨0, g.store, 0, le_rfl, ?_, hH, by simp⟩
        rw [frames_nil, List.nil_append, kvsFileRead, if_neg hrest, if_neg (by simp [hfe.1]), if_neg (by simp [hfe.2.1]),
          hstop _ 0 _ g (fileClient_sized fe.fresh)]
        simp
    · have hshort : intMax < (frames tss ++ rest).length % 2 ^ 32 ∨
          (frames tss ++ rest).length % 2 ^ 32 < (frames tss).length := by omega
      have hcount := length_le_frames tss
      have hsum : (frames tss ++ rest).length = (frames tss).length + rest.length := List.length_append
      have hpos := List.length_pos_of_ne_nil hnil
      obtain ⟨k, hk, g1, hg1, hread⟩ := readFrames_short (n := (frames tss ++ rest).length + 1 - tss.length)
        (protocol_handles P env) hfe tss rest (fileClient_sized fe.fresh) hok hnil hshort hlen hall
      obtain ⟨s1, hall1, hs1⟩ := applyAll_recovering henv (tss.take k) (fun u hu => hok u (List.mem_of_mem_take hu)) 0 hH hrec
      rw [hall1] at hg1
      obtain rfl := Option.some.inj hg1
      rw [Nat.sub_add_cancel (by omega)] at hread
      refine ⟨0, s1, k, hk.le, ?_, hs1, iff_of_false hk.ne (by rintro (he | he); exacts [hnil he, hfit he])⟩
      rw [kvsFileRead, if_neg (by intro he; rw [he] at hsum; simp at hsum; omega), if_neg (by simp [hfe.1]),
        if_neg (by simp [hfe.2.1]), hread]
      rfl

end

/-- A log of commands c1..cn, and the file a crash leaves of it: up to the k-th write it is as written, from there on
torn. The reader applies a part of c1..ck and nothing else, and it applies all of c1..ck exactly when there are none
or the file's size as an int reaches over them. -/
theorem crash_applies_complete_frames (P : Params) (cs : List (List CString)) (hcs : ∀ ts ∈ cs, Loggable ts)
    (lenv : ℕ → LogEnv) (log log' : LogState) (hoff : log.globalLogOffset = 0) (hnew : log.queued = [])
    (hlog : logAll lenv 0 cs log = some log') (k off : ℕ) (buf p q file : Bytes)
    (hk : log'.queued[k]? = some (off, buf)) (hpq : p ++ q = buf) (hq : q ≠ [])
    (hkept : file.take off = FileImage.writeAll 0 [] (log'.queued.take k)) (htorn : TornAt p q (file.drop off))
    (g : Global) (m : Maps) (hH : Holds P g.store m) (hrec : g.recovering = true) (fe : FileEnv) (hfe : fe.Granted)
    (env : ℕ → Env) (henv : ∀ i, (env i).sys.AllocOk) :
    ∃ ret g' j, j ≤ k ∧ kvsFileRead (protocolHandler P env) fe file g = some (ret, g') ∧
      g'.executed = g.executed ++ cs.take j ∧ Holds P g'.store (m.replay P (requests (cs.take j))) ∧
      (g'.executed = g.executed ++ cs.take k ↔
        k = 0 ∨ (off ≤ file.length % 2 ^ 32 ∧ file.length % 2 ^ 32 ≤ intMax)) := by
  obtain ⟨ts, hts, rfl, hoffset, himage⟩ := logAll_nth hoff hnew hlog hk
  obtain ⟨hkl, hget⟩ := List.getElem?_eq_some_iff.mp hts
  have hfile : frames (cs.take k) ++ file.drop off = file := by
    rw [← himage, ← hkept, List.take_append_drop]
  have hmem : ts ∈ cs := List.mem_of_getElem? hts
  obtain ⟨ret, s', j, hj, hread, hs', hiff⟩ := fileRead_torn henv hfe (cs.take k)
    (fun u hu => hcs u (List.mem_of_mem_take hu)) (hcs ts hmem).2.2 hpq hq htorn hH hrec
  rw [hfile] at hread hiff
  have hlen : (cs.take k).length = k := by rw [List.length_take]; omega
  rw [hlen] at hj hiff
  rw [List.take_take, min_eq_left hj] at hread hs'
  refine ⟨ret, _, j, hj, hread, rfl, hs', ?_⟩
  have hnil : cs.take k = [] ↔ k = 0 := by
    rw [← List.length_eq_zero_iff, hlen]
  rw [hnil, ← hoffset] at hiff
  rw [← hiff, List.append_right_inj]
  constructor
  · intro he
    have := congrArg List.length he
    rw [List.length_take, List.length_take] at this
    omega
  · rintro rfl
    rfl

theorem loggable_set : Loggable [.lit "SET", .lit "k", .lit "v"] :=
  ⟨⟨.array, .set (.lit "k") (.lit "v"), by decide, rfl⟩, by decide, by decide +kernel⟩

theorem loggable_del : Loggable [.lit "DEL", .lit "k"] :=
  ⟨⟨.array, .del (.lit "k"), by decide, rfl⟩, by decide, by decide +kernel⟩

theorem logAll_set_del :
    ∃ log', logAll (fun _ => .granted) 0 [[.lit "SET", .lit "k", .lit "v"], [.lit "DEL", .lit "k"]]
        ⟨true, true, 0, []⟩ = some log' ∧
      log'.queued = [(0, Kvsp.frameOf [.lit "SET", .lit "k", .lit "v"]), (21, Kvsp.frameOf [.lit "DEL", .lit "k"])] := by
  have hlog : (logAll (fun _ => .granted) 0 [[.lit "SET", .lit "k", .lit "v"], [.lit "DEL", .lit "k"]]
      ⟨true, true, 0, []⟩).map LogState.queued =
      some [(0, Kvsp.frameOf [.lit "SET", .lit "k", .lit "v"]), (21, Kvsp.frameOf [.lit "DEL", .lit "k"])] := by
    decide +kernel
  exact Option.map_eq_some_iff.mp hlog

theorem crash_applies_complete_frames_example :
    ∃ ret g', kvsFileRead (protocolHandler .small (fun _ => .granted)) .granted
        (Kvsp.frameOf [.lit "SET", .lit "k", .lit "v"] ++ ascii "#12\r\n^3&DE") (.start .small) = some (ret, g') ∧
      g'.executed = [[.lit "SET", .lit "k", .lit "v"]] := by
  obtain ⟨log', hlog, hq⟩ := logAll_set_del
  obtain ⟨ret, g', j, -, hread, -, -, hiff⟩ := crash_applies_complete_frames .small
    [[.lit "SET", .lit "k", .lit "v"], [.lit "DEL", .lit "k"]] (by simp [loggable_set, loggable_del])
    (fun _ => .granted) ⟨true, true, 0, []⟩ log' rfl rfl hlog 1 21 (Kvsp.frameOf [.lit "DEL", .lit "k"])
    (ascii "#12\r\n^3&DE") (ascii "L^1&k\r\n")
    (Kvsp.frameOf [.lit "SET", .lit "k", .lit "v"] ++ ascii "#12\r\n^3&DE") (by rw [hq]; rfl) (by decide +kernel)
    (by decide) (by rw [hq]; decide +kernel) (Or.inl (by decide +kernel)) (.start .small) Maps.empty (fresh_empty _) rfl
    .granted FileEnv.granted_granted (fun _ => .granted) (fun _ => Sys.granted_allocOk)
  exact ⟨ret, g', hread, hiff.mpr (Or.inr (by decide +kernel))⟩

/-- The first of two commands is whole in the file, the second one is a hole, and 2 GiB were written after it: the
size is a negative int, and the reader gives up before the first frame. -/
theorem crash_of_large_log_applies_nothing :
    ∃ log' file, logAll (fun _ => .granted) 0 [[.lit "SET", .lit "k", .lit "v"], [.lit "DEL", .lit "k"]]
        ⟨true, true, 0, []⟩ = some log' ∧
      log'.queued[1]? = some (21, Kvsp.frameOf [.lit "DEL", .lit "k"]) ∧
      file.take 21 = FileImage.writeAll 0 [] (log'.queued.take 1) ∧
      TornAt [] (Kvsp.frameOf [.lit "DEL", .lit "k"]) (file.drop 21) ∧
      kvsFileRead (protocolHandler .small (fun _ => .granted)) .granted file (.start .small) =
        some (0, .start .small) ∧
      (Global.start .small).executed ≠ [[.lit "SET", .lit "k", .lit "v"]] := by
  obtain ⟨log', hlog, hq⟩ := logAll_set_del
  have hset : (Kvsp.frameOf [.lit "SET", .lit "k", .lit "v"]).length = 21 := by decide +kernel
  have hdel : (Kvsp.frameOf [.lit "DEL", .lit "k"]).length = 17 := by decide +kernel
  refine ⟨log', Kvsp.frameOf [.lit "SET", .lit "k", .lit "v"] ++
    (List.replicate (Kvsp.frameOf [.lit "DEL", .lit "k"]).length 0 ++ List.replicate (2 ^ 31) 0), hlog, by rw [hq]; rfl,
    ?_, ?_, fileRead_oversized _ FileEnv.granted_granted ?_ _, by decide⟩
  · rw [List.take_left' hset, hq]
    decide +kernel
  · exact Or.inr ⟨List.replicate (2 ^ 31) 0, by rw [List.drop_left' hset, List.nil_append]⟩
  · rw [List.length_append, List.length_append, List.length_replicate, List.length_replicate, hset, hdel]
    decide

end Lidis
