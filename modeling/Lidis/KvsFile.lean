import Lidis.Client

namespace Lidis

open Mempool (Grant)

/-- A message handler over a state `G`; the number is that of the call. `none` is a crash. -/
abbrev Handler (G : Type) := ℕ → Client → G → Option (ℤ × Client × G)

structure FileEnv where
  wbuf : Bool
  rbuf : Bool
  grow : ℕ → Grant
  fresh : ℕ → UInt8

def fileBufferSize : ℕ := 1024

/-- The bytes kvsp_parse_bulk_size may look at: size - pos is converted to int on the way. -/
def visible (rest : Bytes) : Bytes :=
  if rest.length % 2 ^ 32 ≤ intMax then rest.take (rest.length % 2 ^ 32) else []

/-- The read buffer made large enough for a frame. The outer `none` is a signed overflow, the inner one a failed
allocation. -/
def growRead (cli : Client) (total : ℕ) (grant : Grant) (fresh : ℕ → UInt8) : Option (Option Client) :=
  if total ≤ cli.rCap then some (some cli)
  else if intMax < total + 1 then none
  else some ((kvsRealloc fresh cli.rbuf (total + 1) grant).map fun rbuf => { cli with rbuf := rbuf, rCap := total })

def loadFrame (cli : Client) (frame : Bytes) (head : ℕ) : Option Client :=
  if frame.length + 1 ≤ cli.rbuf.length then
    some { cli with
      rbuf := frame ++ 0 :: cli.rbuf.drop (frame.length + 1), cmdTl := frame.length, cmdHl := head }
  else none

section

variable {G : Type}

def readFrames (handler : Handler G) (env : FileEnv) : ℕ → ℕ → Bytes → Client → G → Option G
  | 0, _, _, _, _ => none
  | n + 1, i, rest, cli, g =>
    if rest = [] then some g
    else
      match Kvsp.kvspParseBulkSize (visible rest) with
      | .error _ => some g
      | .more => some g
      | .frame total head => do
        match ← growRead cli total (env.grow i) env.fresh with
        | none => some g
        | some cli => do
          let cli ← loadFrame cli (rest.take total) head
          let (ret, cli, g) ← handler i cli g
          if ret < 0 then some g else readFrames handler env n (i + 1) (rest.drop total) cli g

def fileClient (fresh : ℕ → UInt8) : Client where
  rbuf := (List.range (fileBufferSize + 1)).map fresh
  rCap := fileBufferSize
  rPos := 0
  cmdTl := 0
  cmdHl := 0
  wbuf := (List.range (fileBufferSize + 1)).map fresh
  wCap := fileBufferSize
  wPos := 0
  role := 0
  protocol := .kvsp

def kvsFileRead (handler : Handler G) (env : FileEnv) (file : Bytes) (g : G) : Option (ℤ × G) :=
  if file = [] then some (-1, g)
  else if ¬ env.wbuf then some (-2, g)
  else if ¬ env.rbuf then some (-2, g)
  else do
    let g ← readFrames handler env (file.length + 1) 0 file (fileClient env.fresh) g
    some (0, g)

def FileEnv.granted : FileEnv := ⟨true, true, fun _ => .whole, fun _ => 0⟩

/-- Memory is there whenever mp_realloc asks the system for it. -/
def FileEnv.pooled : FileEnv := ⟨true, true, fun _ => .granted, fun _ => 0⟩

def FileEnv.Granted (env : FileEnv) : Prop := env.wbuf = true ∧ env.rbuf = true ∧ ∀ i, env.grow i = .whole

theorem FileEnv.granted_granted : FileEnv.granted.Granted := ⟨rfl, rfl, fun _ => rfl⟩

/-- A read buffer of `cap` bytes takes a frame of `n` bytes: as it is, or once it was given all the bytes asked for. -/
def FileEnv.Gives (env : FileEnv) (i cap n : ℕ) : Prop :=
  n ≤ cap ∨ (env.grow i).room (cap + 1) (n + 1) = some (n + 1)

def FileEnv.Fills (env : FileEnv) : ℕ → ℕ → List ℕ → Prop
  | _, _, [] => True
  | i, cap, n :: ns => env.Gives i cap n ∧ env.Fills (i + 1) (max cap n) ns

theorem FileEnv.Granted.gives {env : FileEnv} (h : env.Granted) (i cap n : ℕ) : env.Gives i cap n :=
  .inr (by rw [h.2.2 i]; rfl)

theorem FileEnv.Granted.fills {env : FileEnv} (h : env.Granted) (i cap : ℕ) (ns : List ℕ) : env.Fills i cap ns := by
  induction ns generalizing i cap with
  | nil => trivial
  | cons n ns ih => exact ⟨h.gives i cap n, ih (i + 1) (max cap n)⟩

structure Client.Sized (cli : Client) : Prop where
  rbuf : cli.rbuf.length = cli.rCap + 1
  writeOk : cli.WriteOk
  wCap : fileBufferSize ≤ cli.wCap
  wPos : cli.wPos = 0
  protocol : cli.protocol = .kvsp

theorem fileClient_sized (fresh : ℕ → UInt8) : (fileClient fresh).Sized :=
  ⟨by simp [fileClient], ⟨⟨by simp [fileClient, fileBufferSize], by simp [fileClient], Nat.zero_le _, Nat.zero_le _⟩,
    by simp [fileClient]⟩, le_rfl, rfl, rfl⟩

structure Client.Loaded (cli : Client) (ts : List CString) : Prop where
  sized : cli.Sized
  rbuf : ∃ junk, cli.rbuf = Kvsp.frameOf ts ++ 0 :: junk
  cmdTl : cli.cmdTl = (Kvsp.frameOf ts).length
  cmdHl : cli.cmdHl = (Kvsp.headOf (Kvsp.body ts).length).length

theorem growRead_sized {cli : Client} (h : cli.Sized) {env : FileEnv} {i total : ℕ} (ht : total < intMax)
    (hg : env.Gives i cli.rCap total) :
    ∃ cli', growRead cli total (env.grow i) env.fresh = some (some cli') ∧ cli'.Sized ∧ cli'.rCap = max cli.rCap total := by
  by_cases hc : total ≤ cli.rCap
  · exact ⟨cli, by simp [growRead, hc], h, (max_eq_left hc).symm⟩
  · have hroom : (env.grow i).room cli.rbuf.length (total + 1) = some (total + 1) := h.rbuf ▸ hg.resolve_left hc
    refine ⟨{ cli with rbuf := stretch env.fresh cli.rbuf (total + 1), rCap := total }, ?_,
      ⟨stretch_length env.fresh (by rw [h.rbuf]; omega), h.writeOk.congr rfl rfl rfl, h.wCap, h.wPos, h.protocol⟩,
      (max_eq_right (Nat.le_of_not_le hc)).symm⟩
    simp [growRead, hc, Nat.not_lt.mpr (show total + 1 ≤ intMax by omega), kvsRealloc, hroom]

/-- mp_realloc takes the block as large enough and it is not. -/
theorem growRead_short {cli : Client} (h : cli.Sized) {env : FileEnv} {i total : ℕ} (ht : total < intMax)
    (hg : ¬ env.Gives i cli.rCap total) (hgrant : env.grow i ≠ .refused) :
    ∃ cli', growRead cli total (env.grow i) env.fresh = some (some cli') ∧ cli'.rbuf.length < total + 1 := by
  obtain ⟨hc, hroom⟩ := not_or.mp hg
  have hblock : cli.rbuf.length ≤ total + 1 := by rw [h.rbuf]; omega
  cases hb : kvsRealloc env.fresh cli.rbuf (total + 1) (env.grow i) with
  | none => exact absurd (kvsRealloc_refused hb) hgrant
  | some b =>
    have hgiven := kvsRealloc_room hb hblock ht
    have hle := (kvsRealloc_spec hb hblock ht).2.1
    refine ⟨{ cli with rbuf := b, rCap := total }, ?_, lt_of_le_of_ne hle ?_⟩
    · simp [growRead, hc, Nat.not_lt.mpr (show total + 1 ≤ intMax by omega), hb]
    · intro heq
      rw [h.rbuf, show b.length = total + 1 from heq] at hgiven
      exact hroom hgiven

theorem loadFrame_sized {cli : Client} (h : cli.Sized) {frame : Bytes} (head : ℕ) (hf : frame.length ≤ cli.rCap) :
    loadFrame cli frame head = some { cli with
      rbuf := frame ++ 0 :: cli.rbuf.drop (frame.length + 1), cmdTl := frame.length, cmdHl := head } ∧
    Client.Sized { cli with
      rbuf := frame ++ 0 :: cli.rbuf.drop (frame.length + 1), cmdTl := frame.length, cmdHl := head } := by
  refine ⟨if_pos (by rw [h.rbuf]; omega), ?_, h.writeOk.congr rfl rfl rfl, h.wCap, h.wPos, h.protocol⟩
  have hr := h.rbuf
  simp only [List.length_append, List.length_cons, List.length_drop]
  omega

/-- `apply` is what the handler does to the state with the tokens of a frame. -/
structure Handles (handler : Handler G) (apply : ℕ → List CString → G → Option (ℤ × G)) (ok : List CString → Prop) :
    Prop where
  accepts : ∀ {i cli g ts ret g'}, Client.Loaded cli ts → ok ts → apply i ts g = some (ret, g') →
    ∃ cli', handler i cli g = some (ret, cli', g') ∧ cli'.Sized ∧ cli'.rCap = cli.rCap
  refuses : ∀ {i cli g}, cli.Sized → cli.cmdHl + 2 ≤ cli.cmdTl → cli.rbuf[cli.cmdTl - 1]? ≠ some 10 →
    ∃ ret, handler i cli g = some (ret, cli, g) ∧ ret < 0

def applyAll (apply : ℕ → List CString → G → Option (ℤ × G)) : ℕ → List (List CString) → G → Option G
  | _, [], g => some g
  | i, ts :: tss, g => do
    let (ret, g) ← apply i ts g
    if ret < 0 then none else applyAll apply (i + 1) tss g

def applyUntil (apply : ℕ → List CString → G → Option (ℤ × G)) : ℕ → List (List CString) → G → Option G
  | _, [], g => some g
  | i, ts :: tss, g => do
    let (ret, g) ← apply i ts g
    if ret < 0 then some g else applyUntil apply (i + 1) tss g

theorem applyUntil_cons {apply : ℕ → List CString → G → Option (ℤ × G)} {i : ℕ} {ts : List CString} {g g' : G} {ret : ℤ}
    (h : apply i ts g = some (ret, g')) (tss : List (List CString)) :
    applyUntil apply i (ts :: tss) g = if ret < 0 then some g' else applyUntil apply (i + 1) tss g' := by
  simp only [applyUntil, h, bind, Option.bind]

def frames (tss : List (List CString)) : Bytes := tss.flatMap Kvsp.frameOf

@[simp] theorem frames_nil : frames [] = [] := rfl

@[simp] theorem frames_cons (ts : List CString) (tss : List (List CString)) :
    frames (ts :: tss) = Kvsp.frameOf ts ++ frames tss := by simp [frames]

theorem frames_append (tss uss : List (List CString)) : frames (tss ++ uss) = frames tss ++ frames uss := by
  simp [frames]

theorem frameOf_pos (ts : List CString) : 0 < (Kvsp.frameOf ts).length := by
  rw [Kvsp.frameOf_length, Kvsp.headOf_length]
  omega

theorem visible_append {a b : Bytes} (hmax : (a ++ b).length % 2 ^ 32 ≤ intMax)
    (ha : a.length ≤ (a ++ b).length % 2 ^ 32) :
    visible (a ++ b) = a ++ b.take ((a ++ b).length % 2 ^ 32 - a.length) := by
  rw [visible, if_pos hmax, List.take_append, List.take_of_length_le ha]

theorem mod_drop {a b : Bytes} (ha : a.length ≤ (a ++ b).length % 2 ^ 32) :
    b.length % 2 ^ 32 = (a ++ b).length % 2 ^ 32 - a.length := by
  rw [List.length_append] at ha ⊢
  omega

section Reading

variable {handler : Handler G} {apply : ℕ → List CString → G → Option (ℤ × G)} {ok : List CString → Prop}
  {env : FileEnv}

theorem readFrames_parsed {n i : ℕ} {ts : List CString} {rest : Bytes} {cli : Client} {g : G}
    (hmax : (Kvsp.frameOf ts ++ rest).length % 2 ^ 32 ≤ intMax)
    (hfit : (Kvsp.frameOf ts).length ≤ (Kvsp.frameOf ts ++ rest).length % 2 ^ 32)
    (hlen : (Kvsp.frameOf ts).length < intMax) :
    readFrames handler env (n + 1) i (Kvsp.frameOf ts ++ rest) cli g =
      (growRead cli (Kvsp.frameOf ts).length (env.grow i) env.fresh).bind fun
        | none => some g
        | some cli => (loadFrame cli (Kvsp.frameOf ts) (Kvsp.headOf (Kvsp.body ts).length).length).bind fun cli =>
          (handler i cli g).bind fun r =>
            if r.1 < 0 then some r.2.2 else readFrames handler env n (i + 1) rest r.2.1 r.2.2 := by
  have hne : Kvsp.frameOf ts ++ rest ≠ [] :=
    List.append_ne_nil_of_left_ne_nil (List.ne_nil_of_length_pos (frameOf_pos ts)) rest
  rw [readFrames, if_neg hne, visible_append hmax hfit, Kvsp.parse_frame _ (le_of_lt hlen)]
  simp only [List.take_left, List.drop_left]
  rfl

theorem readFrames_step (h : Handles handler apply ok) {n i : ℕ} {ts : List CString} {rest : Bytes}
    {cli : Client} {g g' : G} {ret : ℤ} (hs : cli.Sized) (hg : env.Gives i cli.rCap (Kvsp.frameOf ts).length) (hok : ok ts)
    (hmax : (Kvsp.frameOf ts ++ rest).length % 2 ^ 32 ≤ intMax)
    (hfit : (Kvsp.frameOf ts).length ≤ (Kvsp.frameOf ts ++ rest).length % 2 ^ 32)
    (hlen : (Kvsp.frameOf ts).length < intMax) (ha : apply i ts g = some (ret, g')) :
    ∃ cli', cli'.Sized ∧ cli'.rCap = max cli.rCap (Kvsp.frameOf ts).length ∧
      readFrames handler env (n + 1) i (Kvsp.frameOf ts ++ rest) cli g =
        if ret < 0 then some g' else readFrames handler env n (i + 1) rest cli' g' := by
  obtain ⟨cli1, hgrow, hs1, hcap⟩ := growRead_sized hs hlen hg
  obtain ⟨hload, hs2⟩ := loadFrame_sized hs1 (Kvsp.headOf (Kvsp.body ts).length).length (hcap ▸ le_max_right _ _)
  obtain ⟨cli2, hrun, hs3, hcap'⟩ := h.accepts ⟨hs2, ⟨_, rfl⟩, rfl, rfl⟩ hok ha
  refine ⟨cli2, hs3, hcap'.trans hcap, ?_⟩
  rw [readFrames_parsed hmax hfit hlen]
  simp only [hgrow, hload, hrun, Option.bind]

theorem readFrames_frame (h : Handles handler apply ok) {n i : ℕ} {ts : List CString} {rest : Bytes}
    {cli : Client} {g g' : G} {ret : ℤ} (hs : cli.Sized) (hg : env.Gives i cli.rCap (Kvsp.frameOf ts).length) (hok : ok ts)
    (hmax : (Kvsp.frameOf ts ++ rest).length % 2 ^ 32 ≤ intMax)
    (hfit : (Kvsp.frameOf ts).length ≤ (Kvsp.frameOf ts ++ rest).length % 2 ^ 32)
    (hlen : (Kvsp.frameOf ts).length < intMax) (ha : apply i ts g = some (ret, g')) (hret : 0 ≤ ret) :
    ∃ cli', cli'.Sized ∧ cli'.rCap = max cli.rCap (Kvsp.frameOf ts).length ∧
      readFrames handler env (n + 1) i (Kvsp.frameOf ts ++ rest) cli g = readFrames handler env n (i + 1) rest cli' g' := by
  obtain ⟨cli', hs', hcap, hstep⟩ := readFrames_step (n := n) h hs hg hok hmax hfit hlen ha
  rw [if_neg (not_lt.mpr hret)] at hstep
  exact ⟨cli', hs', hcap, hstep⟩

theorem applyAll_cons {i : ℕ} {ts : List CString} {tss : List (List CString)} {g g' : G}
    (h : applyAll apply i (ts :: tss) g = some g') :
    ∃ ret g₁, apply i ts g = some (ret, g₁) ∧ 0 ≤ ret ∧ applyAll apply (i + 1) tss g₁ = some g' := by
  obtain ⟨⟨ret, g₁⟩, hap, h⟩ := Option.bind_eq_some_iff.mp h
  dsimp only at h
  split_ifs at h with hneg
  exact ⟨ret, g₁, hap, not_lt.mp hneg, h⟩

theorem readFrames_frames (h : Handles handler apply ok) (tss : List (List CString)) (rest : Bytes)
    {n i : ℕ} {cli : Client} {g g' : G} (hs : cli.Sized)
    (hg : env.Fills i cli.rCap (tss.map fun ts => (Kvsp.frameOf ts).length)) (hok : ∀ ts ∈ tss, ok ts)
    (hmax : (frames tss ++ rest).length % 2 ^ 32 ≤ intMax)
    (hfit : (frames tss).length ≤ (frames tss ++ rest).length % 2 ^ 32)
    (hlen : ∀ ts ∈ tss, (Kvsp.frameOf ts).length < intMax) (ha : applyAll apply i tss g = some g') :
    ∃ cli', cli'.Sized ∧ readFrames handler env (n + tss.length) i (frames tss ++ rest) cli g =
      readFrames handler env n (i + tss.length) rest cli' g' := by
  induction tss generalizing i cli g with
  | nil =>
    cases ha
    exact ⟨cli, hs, rfl⟩
  | cons ts tss ih =>
    obtain ⟨ret, g1, hap, hret, ha⟩ := applyAll_cons ha
    simp only [frames_cons, List.append_assoc] at hmax hfit ⊢
    have hsum : (Kvsp.frameOf ts ++ frames tss).length = (Kvsp.frameOf ts).length + (frames tss).length :=
      List.length_append
    have hfit1 : (Kvsp.frameOf ts).length ≤ (Kvsp.frameOf ts ++ (frames tss ++ rest)).length % 2 ^ 32 := by omega
    have hmod := mod_drop hfit1
    obtain ⟨cli1, hs1, hcap, hstep⟩ := readFrames_frame (n := n + tss.length) h hs hg.1 (hok ts List.mem_cons_self) hmax
      hfit1 (hlen ts List.mem_cons_self) hap hret
    obtain ⟨cli2, hs2, hrest⟩ := ih hs1 (hcap ▸ hg.2) (fun u hu => hok u (List.mem_cons_of_mem ts hu))
      (by rw [hmod]; omega) (by rw [hmod]; omega) (fun u hu => hlen u (List.mem_cons_of_mem ts hu)) ha
    refine ⟨cli2, hs2, ?_⟩
    rw [show n + (ts :: tss).length = (n + tss.length) + 1 by simp [Nat.add_assoc], hstep, hrest]
    congr 1
    simp only [List.length_cons]
    omega

theorem length_le_frames (tss : List (List CString)) : tss.length ≤ (frames tss).length := by
  induction tss with
  | nil => exact le_rfl
  | cons ts tss ih =>
    have := frameOf_pos ts
    simp only [List.length_cons, frames_cons, List.length_append]
    omega

theorem fileRead_frames_then (h : Handles handler apply ok) (hw : env.wbuf = true) (hr : env.rbuf = true)
    (tss : List (List CString)) (rest : Bytes)
    (hg : env.Fills 0 fileBufferSize (tss.map fun ts => (Kvsp.frameOf ts).length))
    (hok : ∀ ts ∈ tss, ok ts) (hlen : ∀ ts ∈ tss, (Kvsp.frameOf ts).length < intMax)
    (hmax : (frames tss ++ rest).length % 2 ^ 32 ≤ intMax)
    (hfit : (frames tss).length ≤ (frames tss ++ rest).length % 2 ^ 32) {g g' : G}
    (ha : applyAll apply 0 tss g = some g')
    (hstop : ∀ n i (cli : Client), cli.Sized → readFrames handler env (n + 1) i rest cli g' = some g') :
    ∃ code, kvsFileRead handler env (frames tss ++ rest) g = some (code, g') := by
  have hcount := length_le_frames tss
  have hsum : (frames tss ++ rest).length = (frames tss).length + rest.length := List.length_append
  by_cases hnil : frames tss ++ rest = []
  · obtain ⟨hf, rfl⟩ := List.append_eq_nil_iff.mp hnil
    have htss : tss = [] := List.length_eq_zero_iff.mp (by
      rw [hf] at hcount
      simpa using hcount)
    subst htss
    obtain rfl := Option.some.inj ha
    exact ⟨-1, by simp [kvsFileRead]⟩
  · obtain ⟨cli', hs', hread⟩ := readFrames_frames (n := (frames tss ++ rest).length - tss.length + 1) h tss rest
      (fileClient_sized env.fresh) hg hok hmax hfit hlen ha
    rw [show (frames tss ++ rest).length - tss.length + 1 + tss.length = (frames tss ++ rest).length + 1 by omega,
      hstop _ _ cli' hs'] at hread
    refine ⟨0, ?_⟩
    rw [kvsFileRead, if_neg hnil, if_neg (by simp [hw]), if_neg (by simp [hr]), hread]
    rfl

theorem fileRead_all (h : Handles handler apply ok) (hw : env.wbuf = true) (hr : env.rbuf = true)
    (tss : List (List CString))
    (hg : env.Fills 0 fileBufferSize (tss.map fun ts => (Kvsp.frameOf ts).length))
    (hok : ∀ ts ∈ tss, ok ts) (hlen : ∀ ts ∈ tss, (Kvsp.frameOf ts).length < intMax)
    (hsize : (frames tss).length < 2 ^ 31) {g g' : G} (ha : applyAll apply 0 tss g = some g') :
    ∃ code, kvsFileRead handler env (frames tss) g = some (code, g') := by
  have hmod : (frames tss ++ []).length % 2 ^ 32 = (frames tss).length := by
    rw [List.append_nil, Nat.mod_eq_of_lt (by omega)]
  obtain ⟨code, hread⟩ := fileRead_frames_then h hw hr tss [] hg hok hlen (by rw [hmod]; simp only [intMax]; omega)
    (by rw [hmod]) ha (fun n i cli _ => by simp [readFrames])
  rw [List.append_nil] at hread
  exact ⟨code, hread⟩

theorem readFrames_starved (h : Handles handler apply ok) (hgrant : ∀ i, env.grow i ≠ .refused)
    (tss : List (List CString)) {n i : ℕ} {cli : Client} {g g' : G} (hs : cli.Sized)
    (hg : ¬ env.Fills i cli.rCap (tss.map fun ts => (Kvsp.frameOf ts).length)) (hok : ∀ ts ∈ tss, ok ts)
    (hlen : ∀ ts ∈ tss, (Kvsp.frameOf ts).length < intMax) (hsize : (frames tss).length < 2 ^ 31)
    (hn : tss.length < n) (ha : applyAll apply i tss g = some g') :
    readFrames handler env n i (frames tss) cli g = none := by
  obtain ⟨n, rfl⟩ := Nat.exists_eq_succ_of_ne_zero (by omega : n ≠ 0)
  induction tss generalizing n i cli g with
  | nil => exact absurd trivial hg
  | cons ts tss ih =>
    obtain ⟨ret, g1, hap, hret, ha⟩ := applyAll_cons ha
    rw [frames_cons] at hsize ⊢
    rw [List.length_cons] at hn
    have hts := hlen ts List.mem_cons_self
    have hmod : (Kvsp.frameOf ts ++ frames tss).length % 2 ^ 32 = (Kvsp.frameOf ts).length + (frames tss).length := by
      rw [Nat.mod_eq_of_lt (by omega), List.length_append]
    rw [List.length_append] at hsize
    have hmax : (Kvsp.frameOf ts ++ frames tss).length % 2 ^ 32 ≤ intMax := by simp only [hmod, intMax]; omega
    by_cases hgive : env.Gives i cli.rCap (Kvsp.frameOf ts).length
    · obtain ⟨cli', hs', hcap, hstep⟩ := readFrames_frame (n := n) h hs hgive (hok ts List.mem_cons_self) hmax
        (by omega) hts hap hret
      obtain ⟨n, rfl⟩ := Nat.exists_eq_succ_of_ne_zero (by omega : n ≠ 0)
      rw [hstep]
      exact ih hs' (fun hf => hg ⟨hgive, hcap ▸ hf⟩) (fun u hu => hok u (List.mem_cons_of_mem ts hu))
        (fun u hu => hlen u (List.mem_cons_of_mem ts hu)) (by omega) ha n (by omega)
    · obtain ⟨cli', hgrow, hshort⟩ := growRead_short hs hts hgive (hgrant i)
      rw [readFrames_parsed hmax (by omega) hts, hgrow]
      simp only [Option.bind, loadFrame, if_neg (Nat.not_le.mpr hshort)]

theorem fileRead_starved (h : Handles handler apply ok) (hw : env.wbuf = true) (hr : env.rbuf = true)
    (hgrant : ∀ i, env.grow i ≠ .refused) (tss : List (List CString)) (hok : ∀ ts ∈ tss, ok ts)
    (hlen : ∀ ts ∈ tss, (Kvsp.frameOf ts).length < intMax) (hsize : (frames tss).length < 2 ^ 31) {g g' : G}
    (ha : applyAll apply 0 tss g = some g')
    (hg : ¬ env.Fills 0 fileBufferSize (tss.map fun ts => (Kvsp.frameOf ts).length)) :
    kvsFileRead handler env (frames tss) g = none := by
  have hne : frames tss ≠ [] := by
    intro hnil
    have hzero : tss.length = 0 := Nat.le_zero.mp (by simpa [hnil] using length_le_frames tss)
    rw [List.length_eq_zero_iff.mp hzero] at hg
    exact hg trivial
  rw [kvsFileRead, if_neg hne, if_neg (by simp [hw]), if_neg (by simp [hr]),
    readFrames_starved h hgrant tss (fileClient_sized env.fresh) hg hok hlen hsize
      (Nat.lt_succ_of_le (length_le_frames tss)) ha]
  rfl

theorem readFrames_until (h : Handles handler apply ok) (he : env.Granted) (tss : List (List CString)) {n i : ℕ}
    {cli : Client} {g g' : G} (hs : cli.Sized) (hok : ∀ ts ∈ tss, ok ts)
    (hlen : ∀ ts ∈ tss, (Kvsp.frameOf ts).length < intMax) (hsize : (frames tss).length < 2 ^ 31)
    (hn : tss.length < n) (ha : applyUntil apply i tss g = some g') :
    readFrames handler env n i (frames tss) cli g = some g' := by
  obtain ⟨n, rfl⟩ := Nat.exists_eq_succ_of_ne_zero (by omega : n ≠ 0)
  induction tss generalizing n i cli g with
  | nil => simpa [readFrames, applyUntil] using ha
  | cons ts tss ih =>
    obtain ⟨⟨ret, g1⟩, hap, ha⟩ := Option.bind_eq_some_iff.mp ha
    rw [frames_cons] at hsize ⊢
    have hsum : (Kvsp.frameOf ts ++ frames tss).length = (Kvsp.frameOf ts).length + (frames tss).length :=
      List.length_append
    have hmod : (Kvsp.frameOf ts ++ frames tss).length % 2 ^ 32 = (Kvsp.frameOf ts ++ frames tss).length :=
      Nat.mod_eq_of_lt (by omega)
    rw [List.length_cons] at hn
    obtain ⟨cli', hs', -, hstep⟩ := readFrames_step (n := n) h hs (he.gives i _ _) (hok ts List.mem_cons_self)
      (by rw [hmod]; simp only [intMax]; omega) (by rw [hmod]; omega) (hlen ts List.mem_cons_self) hap
    rw [hstep]
    dsimp only at ha
    split_ifs at ha ⊢ with hneg
    · exact ha
    · obtain ⟨n, rfl⟩ := Nat.exists_eq_succ_of_ne_zero (by omega : n ≠ 0)
      exact ih hs' (fun u hu => hok u (List.mem_cons_of_mem ts hu)) (fun u hu => hlen u (List.mem_cons_of_mem ts hu))
        (by omega) ha n (by omega)

theorem fileRead_until (h : Handles handler apply ok) (he : env.Granted) (tss : List (List CString))
    (hok : ∀ ts ∈ tss, ok ts) (hlen : ∀ ts ∈ tss, (Kvsp.frameOf ts).length < intMax)
    (hsize : (frames tss).length < 2 ^ 31) (hne : frames tss ≠ []) {g g' : G} (ha : applyUntil apply 0 tss g = some g') :
    kvsFileRead handler env (frames tss) g = some (0, g') := by
  have hread := readFrames_until h he tss (n := (frames tss).length + 1) (fileClient_sized env.fresh) hok hlen hsize
    (Nat.lt_succ_of_le (length_le_frames tss)) ha
  rw [kvsFileRead, if_neg hne, if_neg (by simp [he.1]), if_neg (by simp [he.2.1]), hread]
  rfl

end Reading

end

end Lidis
