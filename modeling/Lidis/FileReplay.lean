import Lidis.Incremental
import Lidis.KvsSync
import Lidis.TornLog

namespace Lidis

/-- One call of the handler: what it was given, and what it returned. -/
structure HandlerCall where
  cmdHl : ℕ
  cmdTl : ℕ
  frame : Bytes
  ret : ℤ

def HandlerCall.shown (c : HandlerCall) : ℕ × ℕ × Bytes := (c.cmdHl, c.cmdTl, c.frame)

section Frames

def headLen (f : Bytes) : ℕ :=
  match Kvsp.kvspParseBulkSize f with
  | .frame _ head => head
  | _ => 0

structure IsFrame (f : Bytes) : Prop where
  parse : Kvsp.kvspParseBulkSize f = .frame f.length (headLen f)
  small : f.length ≤ intMax

theorem IsFrame.ne_nil {f : Bytes} (h : IsFrame f) : f ≠ [] := by
  rintro rfl
  have hparse := h.parse
  cases hparse

theorem IsFrame.head_le {f : Bytes} (h : IsFrame f) : headLen f ≤ f.length := (Kvsp.parse_frame_bounds h.parse).1

theorem IsFrame.append {f : Bytes} (h : IsFrame f) (rest : Bytes) :
    Kvsp.kvspParseBulkSize (f ++ rest) = .frame f.length (headLen f) := by
  rcases Kvsp.parse_append h.ne_nil rest with hmore | hsame
  · rw [h.parse] at hmore
    cases hmore
  · rw [hsame, h.parse]

theorem isFrame_of_parse {f : Bytes} {head : ℕ} (h : Kvsp.kvspParseBulkSize f = .frame f.length head)
    (hsmall : f.length ≤ intMax) : IsFrame f ∧ headLen f = head := by
  have hhead : headLen f = head := by rw [headLen, h]
  exact ⟨⟨by rw [h, hhead], hsmall⟩, hhead⟩

theorem visible_frame {f rest : Bytes} (h : IsFrame f) (hmax : (f ++ rest).length % 2 ^ 32 ≤ intMax)
    (hfit : f.length ≤ (f ++ rest).length % 2 ^ 32) :
    Kvsp.kvspParseBulkSize (visible (f ++ rest)) = .frame f.length (headLen f) := by
  rw [visible_append hmax hfit, h.append]

theorem visible_length_le (rest : Bytes) : (visible rest).length ≤ intMax := by
  rw [visible]
  split_ifs with hmax
  · rw [List.length_take]
    omega
  · exact Nat.zero_le _

theorem frame_of_visible {rest : Bytes} {total head : ℕ}
    (h : Kvsp.kvspParseBulkSize (visible rest) = .frame total head) :
    rest.length % 2 ^ 32 ≤ intMax ∧ total ≤ rest.length % 2 ^ 32 ∧ IsFrame (rest.take total) ∧
      (rest.take total).length = total ∧ headLen (rest.take total) = head := by
  have hlen := visible_length_le rest
  have htotal := (Kvsp.parse_frame_bounds h).2
  have htake := Kvsp.parse_take hlen h
  rw [visible] at h htotal htake
  split_ifs at h htotal htake with hmax
  · have hmod : rest.length % 2 ^ 32 ≤ rest.length := Nat.mod_le _ _
    rw [List.length_take] at htotal
    rw [List.take_take, min_eq_left (by omega)] at htake
    have hsize : (rest.take total).length = total := by
      rw [List.length_take]
      omega
    obtain ⟨hframe, hhead⟩ := isFrame_of_parse (by rw [htake, hsize]) (by omega)
    exact ⟨hmax, by omega, hframe, hsize, hhead⟩
  · cases h

theorem visible_frame_eq {f rest : Bytes} {total head : ℕ} (hf : IsFrame f)
    (h : Kvsp.kvspParseBulkSize (visible (f ++ rest)) = .frame total head) : total = f.length ∧ head = headLen f := by
  obtain ⟨-, -, hframe, hsize, hhead⟩ := frame_of_visible h
  have happend := hframe.append ((f ++ rest).drop total)
  rw [List.take_append_drop, hf.append, hsize, hhead] at happend
  obtain ⟨rfl, rfl⟩ := BulkSize.frame.inj happend
  exact ⟨rfl, rfl⟩

end Frames

/-- The read buffer as kvs_file_read keeps it: r_cap bytes and one for the NUL. -/
structure Client.Block (cli : Client) : Prop where
  size : cli.rbuf.length = cli.rCap + 1
  small : cli.rCap < intMax
  protocol : cli.protocol = .kvsp

theorem fileClient_block (fresh : ℕ → UInt8) : (fileClient fresh).Block :=
  ⟨(fileClient_sized fresh).rbuf, (by decide : fileBufferSize < intMax), rfl⟩

/-- The client as the handler finds it: the buffer large enough, the frame in front and a NUL behind it. -/
def present (fresh : ℕ → UInt8) (cli : Client) (f : Bytes) : Client :=
  let mid := if f.length ≤ cli.rCap then cli
    else { cli with rbuf := stretch fresh cli.rbuf (f.length + 1), rCap := f.length }
  { mid with rbuf := f ++ 0 :: mid.rbuf.drop (f.length + 1), cmdTl := f.length, cmdHl := headLen f }

theorem present_block {cli : Client} {f : Bytes} (fresh : ℕ → UInt8) (h : cli.Block) (hf : f.length < intMax) :
    (present fresh cli f).Block ∧ f.length ≤ (present fresh cli f).rCap := by
  have hsize := h.size
  by_cases hfit : f.length ≤ cli.rCap
  · simp only [present, if_pos hfit]
    refine ⟨⟨?_, h.small, h.protocol⟩, hfit⟩
    simp only [List.length_append, List.length_cons, List.length_drop]
    omega
  · have hblock : (stretch fresh cli.rbuf (f.length + 1)).length = f.length + 1 := stretch_length fresh (by omega)
    simp only [present, if_neg hfit]
    refine ⟨⟨?_, hf, h.protocol⟩, le_rfl⟩
    simp only [List.length_append, List.length_cons, List.length_drop, hblock]
    omega

theorem present_take (fresh : ℕ → UInt8) (cli : Client) (f : Bytes) :
    (present fresh cli f).rbuf.take (present fresh cli f).cmdTl = f := List.take_left

section Step

variable {S : Type} {H : Handler S} {env : FileEnv} {cli : Client} {f rest : Bytes} {n i : ℕ} {s : S}

theorem readFrames_presents (hb : cli.Block) (hf : f.length < intMax) (hne : f ≠ [])
    (hparse : Kvsp.kvspParseBulkSize (visible (f ++ rest)) = .frame f.length (headLen f))
    (hgrow : env.Gives i cli.rCap f.length) :
    readFrames H env (n + 1) i (f ++ rest) cli s = (H i (present env.fresh cli f) s).bind
      (fun r => if r.1 < 0 then some r.2.2 else readFrames H env n (i + 1) rest r.2.1 r.2.2) := by
  have hload : ∃ mid, growRead cli f.length (env.grow i) env.fresh = some (some mid) ∧
      loadFrame mid f (headLen f) = some (present env.fresh cli f) := by
    have hsize := hb.size
    by_cases hfit : f.length ≤ cli.rCap
    · refine ⟨cli, if_pos hfit, ?_⟩
      rw [loadFrame, if_pos (by omega), present, if_pos hfit]
    · have hroom : (env.grow i).room cli.rbuf.length (f.length + 1) = some (f.length + 1) :=
        hsize ▸ hgrow.resolve_left hfit
      refine ⟨_, by rw [growRead, if_neg hfit, if_neg (by omega), kvsRealloc, hroom, Option.map_some, Option.map_some], ?_⟩
      rw [loadFrame, if_pos (stretch_length env.fresh (by omega)).ge, present, if_neg hfit]
  obtain ⟨mid, hmid, hload⟩ := hload
  rw [readFrames, if_neg (by simp [hne])]
  simp only [hparse, hmid, List.take_left, List.drop_left, hload, bind, Option.bind]

/-- A frame whose size plus the NUL is no int, or for which there is no memory or too little, is the end. -/
theorem readFrames_stuck (hb : cli.Block) (hne : f ≠ [])
    (hparse : Kvsp.kvspParseBulkSize (visible (f ++ rest)) = .frame f.length (headLen f))
    (h : ¬ (f.length < intMax ∧ env.Gives i cli.rCap f.length)) :
    readFrames H env (n + 1) i (f ++ rest) cli s = some s ∨ readFrames H env (n + 1) i (f ++ rest) cli s = none := by
  have hsmall := hb.small
  have hfit : ¬ f.length ≤ cli.rCap := fun hle => h ⟨by omega, .inl hle⟩
  rw [readFrames, if_neg (by simp [hne])]
  simp only [hparse, growRead, if_neg hfit, List.take_left]
  by_cases hint : intMax < f.length + 1
  · right
    rw [if_pos hint]
    rfl
  rw [if_neg hint]
  cases hgrown : kvsRealloc env.fresh cli.rbuf (f.length + 1) (env.grow i) with
  | none => exact Or.inl rfl
  | some b =>
    have hblock : cli.rbuf.length ≤ f.length + 1 := by rw [hb.size]; omega
    have hroom := kvsRealloc_room hgrown hblock (by omega)
    have hle := (kvsRealloc_spec hgrown hblock (by omega)).2.1
    have hshort : ¬ f.length + 1 ≤ b.length := by
      intro hge
      rw [hb.size, le_antisymm hle hge] at hroom
      exact h ⟨by omega, .inr hroom⟩
    right
    simp only [Option.map_some, loadFrame, if_neg hshort, bind, Option.bind]

end Step

section Replay

variable {G : Type}

def recording (handler : Handler G) : Handler (G × List HandlerCall) := fun i cli g => do
  let (ret, cli', g') ← handler i cli g.1
  some (ret, cli', g', g.2 ++ [⟨cli.cmdHl, cli.cmdTl, cli.rbuf.take cli.cmdTl, ret⟩])

/-- A handler may do what it likes with the client, but leaves it a read buffer of r_cap bytes and a NUL. -/
def Keeps (handler : Handler G) : Prop :=
  ∀ i (cli : Client) g ret cli' g', cli.Block → cli.cmdHl ≤ cli.cmdTl → cli.cmdTl ≤ cli.rCap →
    handler i cli g = some (ret, cli', g') → cli'.Block

/-- Given the frames one after the other, the handler accepts each, and there is memory for it. -/
def AcceptsAll (handler : Handler G) (env : FileEnv) : ℕ → List Bytes → Client → G → Prop
  | _, [], _, _ => True
  | i, f :: fs, cli, g => env.Gives i cli.rCap f.length ∧
    ∃ ret cli' g', handler i (present env.fresh cli f) g = some (ret, cli', g') ∧ 0 ≤ ret ∧
      AcceptsAll handler env (i + 1) fs cli' g'

/-- What the loop's int arithmetic can take: the bytes left, and each frame with its NUL. -/
structure FitsInt (fs : List Bytes) : Prop where
  total : fs.flatten.length ≤ intMax
  each : ∀ f ∈ fs, f.length < intMax

theorem FitsInt.tail {f : Bytes} {fs : List Bytes} (h : FitsInt (f :: fs)) : FitsInt fs := by
  have htotal := h.total
  rw [List.flatten_cons, List.length_append] at htotal
  exact ⟨by omega, fun f' hf' => h.each f' (List.mem_cons_of_mem f hf')⟩

/-- Sizes shrink by less than 2^31 a frame, so that the last one not an int cannot be jumped over. -/
theorem FitsInt.cons {f : Bytes} {fs : List Bytes} (h : FitsInt fs) (hf : f.length < intMax)
    (hmax : (f ++ fs.flatten).length % 2 ^ 32 ≤ intMax) : FitsInt (f :: fs) := by
  have htotal := h.total
  constructor
  · rw [List.flatten_cons]
    rw [List.length_append] at hmax ⊢
    simp only [intMax] at *
    omega
  · intro f' hf'
    rcases List.mem_cons.mp hf' with rfl | hf'
    · exact hf
    · exact h.each f' hf'

variable {handler : Handler G} {env : FileEnv}

theorem recording_some {i : ℕ} {cli cli' : Client} {g g' : G} {calls : List HandlerCall} {ret : ℤ}
    (h : handler i cli g = some (ret, cli', g')) :
    recording handler i cli (g, calls) =
      some (ret, cli', g', calls ++ [⟨cli.cmdHl, cli.cmdTl, cli.rbuf.take cli.cmdTl, ret⟩]) := by
  simp only [recording, h, bind, Option.bind]

theorem Keeps.present (hk : Keeps handler) {i : ℕ} {cli cli' : Client} {f : Bytes} {g g' : G} {ret : ℤ}
    (hb : cli.Block) (hf : IsFrame f) (hlt : f.length < intMax)
    (h : handler i (present env.fresh cli f) g = some (ret, cli', g')) : cli'.Block := by
  obtain ⟨hblock, hcap⟩ := present_block env.fresh hb hlt
  exact hk i _ g ret cli' g' hblock hf.head_le hcap h

theorem readFrames_accepted (hk : Keeps handler) {fs : List Bytes} {n i : ℕ} {cli : Client} {g : G}
    (calls : List HandlerCall) (hfs : ∀ f ∈ fs, IsFrame f) (hfit : FitsInt fs) (hb : cli.Block) (hn : fs.length < n)
    (ha : AcceptsAll handler env i fs cli g) :
    ∃ g' new, readFrames (recording handler) env n i fs.flatten cli (g, calls) = some (g', calls ++ new) ∧
      (∀ c ∈ new, 0 ≤ c.ret) ∧ new.map HandlerCall.shown = fs.map (fun f => (headLen f, f.length, f)) := by
  obtain ⟨n, rfl⟩ := Nat.exists_eq_succ_of_ne_zero (by omega : n ≠ 0)
  induction fs generalizing n i cli g calls with
  | nil => exact ⟨g, [], by simp [readFrames], by simp, rfl⟩
  | cons f fs ih =>
    have hf := hfs f List.mem_cons_self
    have hlt := hfit.each f List.mem_cons_self
    have htotal := hfit.total
    rw [List.flatten_cons] at htotal ⊢
    have hmod : (f ++ fs.flatten).length % 2 ^ 32 = (f ++ fs.flatten).length :=
      Nat.mod_eq_of_lt (lt_of_le_of_lt htotal (by decide))
    have hparse := visible_frame hf (by rw [hmod]; exact htotal) (by rw [hmod, List.length_append]; omega)
    obtain ⟨hgrow, ret, cli', g₁, hrun, hret, hrest⟩ := ha
    rw [List.length_cons] at hn
    obtain ⟨n, rfl⟩ := Nat.exists_eq_succ_of_ne_zero (by omega : n ≠ 0)
    obtain ⟨g', new, hread, hrets, hshown⟩ := ih (calls ++ [⟨headLen f, f.length, f, ret⟩])
      (fun f' hf' => hfs f' (List.mem_cons_of_mem f hf')) hfit.tail (hk.present hb hf hlt hrun) hrest n (by omega)
    refine ⟨g', ⟨headLen f, f.length, f, ret⟩ :: new, ?_, ?_, ?_⟩
    · rw [readFrames_presents hb hlt hf.ne_nil hparse hgrow, recording_some hrun, present_take]
      rw [List.append_assoc] at hread
      simp only [Option.bind_some, if_neg (not_lt.mpr hret)]
      exact hread
    · intro c hc
      rcases List.mem_cons.mp hc with rfl | hc
      · exact hret
      · exact hrets c hc
    · rw [List.map_cons, hshown]
      rfl

theorem fitsInt_of_calls (hk : Keeps handler) {fs : List Bytes} {n i : ℕ} {cli : Client} {g g' : G}
    {calls calls' : List HandlerCall} (hfs : ∀ f ∈ fs, IsFrame f) (hb : cli.Block)
    (ha : AcceptsAll handler env i fs cli g)
    (h : readFrames (recording handler) env n i fs.flatten cli (g, calls) = some (g', calls'))
    (hcalls : calls'.length = calls.length + fs.length) : FitsInt fs := by
  induction fs generalizing n i cli g calls with
  | nil => exact ⟨Nat.zero_le _, by simp⟩
  | cons f fs ih =>
    have hf := hfs f List.mem_cons_self
    obtain ⟨hgrow, ret, cli', g₁, hrun, hret, hrest⟩ := ha
    rw [List.flatten_cons] at h
    rw [List.length_cons] at hcalls
    cases n with
    | zero => cases h
    | succ n =>
      have hstop : readFrames (recording handler) env (n + 1) i (f ++ fs.flatten) cli (g, calls) ≠ some (g, calls) := by
        intro hsame
        rw [hsame] at h
        obtain ⟨rfl, rfl⟩ := Prod.mk.inj (Option.some.inj h)
        omega
      cases hparse : Kvsp.kvspParseBulkSize (visible (f ++ fs.flatten)) with
      | error code => exact absurd (readFrames_noFrame (.inr (.inr ⟨code, hparse⟩))) hstop
      | more => exact absurd (readFrames_noFrame (.inr (.inl hparse))) hstop
      | frame total head =>
        obtain ⟨hmax, -⟩ := frame_of_visible hparse
        obtain ⟨rfl, rfl⟩ := visible_frame_eq hf hparse
        by_cases hlt : f.length < intMax
        · rw [readFrames_presents hb hlt hf.ne_nil hparse hgrow, recording_some hrun] at h
          simp only [Option.bind_some, if_neg (not_lt.mpr hret)] at h
          refine FitsInt.cons (ih (fun f' hf' => hfs f' (List.mem_cons_of_mem f hf')) (hk.present hb hf hlt hrun) hrest h ?_)
            hlt hmax
          rw [List.length_append, List.length_singleton]
          omega
        · rcases readFrames_stuck hb hf.ne_nil hparse (fun hc => hlt hc.1) with hsame | hnone
          · exact absurd hsame hstop
          · rw [hnone] at h
            cases h

theorem accepted_of_covered (hk : Keeps handler) {n i : ℕ} {rest : Bytes} {cli : Client} {g g' : G}
    {calls calls' : List HandlerCall} (hb : cli.Block)
    (h : readFrames (recording handler) env n i rest cli (g, calls) = some (g', calls'))
    (hrets : ∀ c ∈ calls', 0 ≤ c.ret)
    (hcover : calls'.flatMap HandlerCall.frame = calls.flatMap HandlerCall.frame ++ rest) :
    ∃ fs, rest = fs.flatten ∧ (∀ f ∈ fs, IsFrame f) ∧ FitsInt fs ∧ AcceptsAll handler env i fs cli g := by
  induction n generalizing i rest cli g calls with
  | zero => cases h
  | succ n ih =>
    by_cases hnil : rest = []
    · exact ⟨[], hnil, by simp, ⟨Nat.zero_le _, by simp⟩, trivial⟩
    have hstop : readFrames (recording handler) env (n + 1) i rest cli (g, calls) ≠ some (g, calls) := by
      intro hsame
      rw [hsame] at h
      obtain ⟨rfl, rfl⟩ := Prod.mk.inj (Option.some.inj h)
      exact hnil (List.append_right_eq_self.mp hcover.symm)
    cases hparse : Kvsp.kvspParseBulkSize (visible rest) with
    | error code => exact absurd (readFrames_noFrame (.inr (.inr ⟨code, hparse⟩))) hstop
    | more => exact absurd (readFrames_noFrame (.inr (.inl hparse))) hstop
    | frame total head =>
      obtain ⟨hmax, -, hf, hsize, rfl⟩ := frame_of_visible hparse
      obtain ⟨f, r, rfl, hfr⟩ : ∃ f r, rest = f ++ r ∧ rest.take total = f :=
        ⟨_, _, (List.take_append_drop total rest).symm, rfl⟩
      rw [hfr] at hf hsize hparse
      subst hsize
      by_cases hgo : f.length < intMax ∧ env.Gives i cli.rCap f.length
      · obtain ⟨hlt, hgrow⟩ := hgo
        rw [readFrames_presents hb hlt hf.ne_nil hparse hgrow] at h
        obtain ⟨⟨ret, cli', g₁, calls₁⟩, hrec, h⟩ := Option.bind_eq_some_iff.mp h
        obtain ⟨⟨ret', cli₁, g₂⟩, hrun, he⟩ := Option.bind_eq_some_iff.mp hrec
        rw [recording_some hrun, present_take] at hrec
        cases hrec
        by_cases hneg : ret < 0
        · rw [if_pos hneg] at h
          cases h
          exact absurd (hrets _ (List.mem_append_right _ (List.mem_singleton.mpr rfl))) (not_le.mpr hneg)
        · rw [if_neg hneg] at h
          have hcover' : calls'.flatMap HandlerCall.frame =
              (calls ++ [HandlerCall.mk (headLen f) f.length f ret]).flatMap HandlerCall.frame ++ r := by
            rw [hcover, List.flatMap_append, List.flatMap_singleton, List.append_assoc]
          obtain ⟨fs, rfl, hfs, hfit, hacc⟩ := ih (hk.present hb hf hlt hrun) h hcover'
          refine ⟨f :: fs, rfl, ?_, hfit.cons hlt hmax, hgrow, ret, cli', g₁, hrun, not_lt.mp hneg, hacc⟩
          intro f' hf'
          rcases List.mem_cons.mp hf' with rfl | hf'
          · exact hf
          · exact hfs f' hf'
      · rcases readFrames_stuck hb hf.ne_nil hparse hgo with hsame | hnone
        · exact absurd hsame hstop
        · rw [hnone] at h
          cases h

theorem kvsFileRead_reads {S : Type} {H : Handler S} {file : Bytes} {s : S} (henv : env.wbuf = true ∧ env.rbuf = true)
    (hne : file ≠ []) : kvsFileRead H env file s =
      (readFrames H env (file.length + 1) 0 file (fileClient env.fresh) s).map (fun s => (0, s)) := by
  rw [kvsFileRead, if_neg hne, if_neg (not_not.mpr henv.1), if_neg (not_not.mpr henv.2), Option.map_eq_bind]
  rfl

theorem length_le_flatten {fs : List Bytes} (h : ∀ f ∈ fs, IsFrame f) : fs.length ≤ fs.flatten.length := by
  induction fs with
  | nil => exact le_rfl
  | cons f fs ih =>
    have hpos := List.length_pos_of_ne_nil (h f List.mem_cons_self).ne_nil
    have hrest := ih (fun f' hf' => h f' (List.mem_cons_of_mem f hf'))
    rw [List.length_cons, List.flatten_cons, List.length_append]
    omega

theorem flatten_eq_nil {fs : List Bytes} (h : ∀ f ∈ fs, IsFrame f) (hnil : fs.flatten = []) : fs = [] := by
  have hle := length_le_flatten h
  rw [hnil] at hle
  exact List.length_eq_zero_iff.mp (Nat.le_zero.mp hle)

def ReplaysEach (handler : Handler G) (env : FileEnv) (fs : List Bytes) (g : G) : Prop :=
  ∃ code g' calls, kvsFileRead (recording handler) env fs.flatten (g, []) = some (code, g', calls) ∧
    calls.map HandlerCall.shown = fs.map (fun f => (headLen f, f.length, f))

/-- Every frame is handled just where the whole file and each frame with its NUL have sizes that are ints. -/
theorem file_replay_iff (handler : Handler G) (env : FileEnv) (fs : List Bytes) (g : G) (hfs : ∀ f ∈ fs, IsFrame f)
    (hk : Keeps handler) (henv : env.wbuf = true ∧ env.rbuf = true)
    (ha : AcceptsAll handler env 0 fs (fileClient env.fresh) g) :
    ReplaysEach handler env fs g ↔ fs.flatten.length ≤ intMax ∧ ∀ f ∈ fs, f.length < intMax := by
  have hb := fileClient_block env.fresh
  by_cases hnil : fs.flatten = []
  · obtain rfl := flatten_eq_nil hfs hnil
    exact iff_of_true ⟨-1, g, [], by simp [kvsFileRead], rfl⟩ ⟨Nat.zero_le _, by simp⟩
  · rw [ReplaysEach, kvsFileRead_reads henv hnil]
    constructor
    · rintro ⟨code, g', calls, hread, hcalls⟩
      obtain ⟨r, hread, he⟩ := Option.map_eq_some_iff.mp hread
      obtain ⟨-, rfl⟩ := Prod.mk.inj he
      have hlen := congrArg List.length hcalls
      rw [List.length_map, List.length_map] at hlen
      have hfit := fitsInt_of_calls hk hfs hb ha hread (by rw [hlen, List.length_nil, Nat.zero_add])
      exact ⟨hfit.total, hfit.each⟩
    · rintro ⟨htotal, heach⟩
      obtain ⟨g', new, hread, -, hshown⟩ := readFrames_accepted hk [] hfs ⟨htotal, heach⟩ hb
        (Nat.lt_succ_of_le (length_le_flatten hfs)) ha
      exact ⟨0, g', new, by rw [hread]; rfl, hshown⟩

theorem acceptsAll_of_accepting {fs : List Bytes} (henv : env.Granted)
    (h : ∀ i cli g, ∃ ret cli' g', handler i cli g = some (ret, cli', g') ∧ 0 ≤ ret) (i : ℕ) (cli : Client) (g : G) :
    AcceptsAll handler env i fs cli g := by
  induction fs generalizing i cli g with
  | nil => trivial
  | cons f fs ih =>
    obtain ⟨ret, cli', g', hrun, hret⟩ := h i (present env.fresh cli f) g
    exact ⟨henv.gives i _ _, ret, cli', g', hrun, hret, ih (i + 1) cli' g'⟩

end Replay

def accepting : Handler Unit := fun _ cli g => some (0, cli, g)

theorem accepting_keeps : Keeps accepting := by
  intro i cli g ret cli' g' hb _ _ h
  obtain rfl : cli = cli' := congrArg (fun r => r.2.1) (Option.some.inj h)
  exact hb

theorem accepting_accepts (fs : List Bytes) :
    AcceptsAll accepting .granted 0 fs (fileClient FileEnv.granted.fresh) () :=
  acceptsAll_of_accepting FileEnv.granted_granted (fun _ cli g => ⟨0, cli, g, rfl, le_rfl⟩) _ _ _

theorem frameOf_isFrame {ts : List CString} (h : (Kvsp.frameOf ts).length ≤ intMax) : IsFrame (Kvsp.frameOf ts) := by
  have hparse := Kvsp.parse_frame [] h
  rw [List.append_nil] at hparse
  exact (isFrame_of_parse hparse h).1

def logFrame : Bytes := Kvsp.frameOf [.lit "SET", .lit "k", .lit "v"]

theorem logFrame_length : logFrame.length = 21 := by decide +kernel

theorem logFrame_isFrame : IsFrame logFrame :=
  frameOf_isFrame (by
    change logFrame.length ≤ intMax
    rw [logFrame_length]
    decide)

theorem file_replay_iff_sets : ReplaysEach accepting .granted [logFrame, logFrame] () := by
  apply (file_replay_iff accepting .granted [logFrame, logFrame] () (by simp [logFrame_isFrame]) accepting_keeps ⟨rfl, rfl⟩
    (accepting_accepts _)).mpr
  constructor
  · simp [logFrame_length, intMax]
  · simp [logFrame_length, intMax]

theorem many_frames (n : ℕ) : (List.replicate n logFrame).flatten.length = 21 * n := by
  rw [List.length_flatten, List.map_replicate, List.sum_replicate_nat, logFrame_length, Nat.mul_comm]

/-- A log of 102261127 commands of 21 bytes is 20 bytes longer than INT_MAX: its size is a negative int, and no frame is
handled. -/
theorem large_file_replays_nothing :
    (∀ f ∈ List.replicate 102261127 logFrame, IsFrame f) ∧
      AcceptsAll accepting .granted 0 (List.replicate 102261127 logFrame) (fileClient FileEnv.granted.fresh) () ∧
      kvsFileRead (recording accepting) .granted (List.replicate 102261127 logFrame).flatten ((), []) =
        some (0, (), []) ∧
      ¬ ReplaysEach accepting .granted (List.replicate 102261127 logFrame) () := by
  have hread : kvsFileRead (recording accepting) .granted (List.replicate 102261127 logFrame).flatten ((), []) =
      some (0, (), []) := by
    apply fileRead_oversized _ FileEnv.granted_granted
    rw [many_frames]
    decide
  refine ⟨?_, accepting_accepts _, hread, ?_⟩
  · intro f hf
    rw [List.eq_of_mem_replicate hf]
    exact logFrame_isFrame
  · rintro ⟨code, g', calls, hread', hcalls⟩
    rw [hread] at hread'
    obtain ⟨-, he⟩ := Prod.mk.inj (Option.some.inj hread')
    obtain ⟨-, rfl⟩ := Prod.mk.inj he
    have hlen := congrArg List.length hcalls
    rw [List.length_map, List.length_map, List.length_replicate, List.length_nil] at hlen
    exact absurd hlen (by decide)

section Reports

variable {G : Type} {handler : Handler G} {env : FileEnv}

def Covered (file : Bytes) (calls : List HandlerCall) : Prop :=
  (∀ c ∈ calls, 0 ≤ c.ret) ∧ calls.flatMap HandlerCall.frame = file

/-- A return of 0 means that the handler accepted frames that cover the file. -/
def Reports (handler : Handler G) (env : FileEnv) (file : Bytes) (g : G) : Prop :=
  ∃ code g' calls, kvsFileRead (recording handler) env file (g, []) = some (code, g', calls) ∧
    (code = 0 → Covered file calls)

/-- The file is a sequence of frames, none too large, which the handler accepts one after the other. -/
def Whole (handler : Handler G) (env : FileEnv) (file : Bytes) (g : G) : Prop :=
  ∃ fs, file = fs.flatten ∧ (∀ f ∈ fs, IsFrame f) ∧ FitsInt fs ∧
    AcceptsAll handler env 0 fs (fileClient env.fresh) g

theorem frame_of_shown {calls : List HandlerCall} {fs : List Bytes}
    (h : calls.map HandlerCall.shown = fs.map (fun f => (headLen f, f.length, f))) :
    calls.flatMap HandlerCall.frame = fs.flatten := by
  have hframes := congrArg (List.map (fun x : ℕ × ℕ × Bytes => x.2.2)) h
  rw [List.map_map, List.map_map] at hframes
  rw [List.flatMap_def, show calls.map HandlerCall.frame = fs.map id from hframes, List.map_id]

theorem whole_covers (hk : Keeps handler) {file : Bytes} {g : G} (hne : file ≠ []) (henv : env.wbuf = true ∧ env.rbuf = true)
    (h : Whole handler env file g) :
    ∃ g' calls, kvsFileRead (recording handler) env file (g, []) = some (0, g', calls) ∧ Covered file calls := by
  obtain ⟨fs, rfl, hfs, hfit, hacc⟩ := h
  obtain ⟨g', new, hread, hrets, hshown⟩ := readFrames_accepted hk [] hfs hfit (fileClient_block env.fresh)
    (Nat.lt_succ_of_le (length_le_flatten hfs)) hacc
  refine ⟨g', new, ?_, hrets, frame_of_shown hshown⟩
  rw [kvsFileRead_reads henv hne, hread]
  rfl

theorem whole_of_covered (hk : Keeps handler) {file : Bytes} {g g' : G} {code : ℤ} {calls : List HandlerCall}
    (hne : file ≠ []) (henv : env.wbuf = true ∧ env.rbuf = true)
    (h : kvsFileRead (recording handler) env file (g, []) = some (code, g', calls))
    (hcover : code = 0 → Covered file calls) : Whole handler env file g := by
  rw [kvsFileRead_reads henv hne] at h
  obtain ⟨r, hread, he⟩ := Option.map_eq_some_iff.mp h
  obtain ⟨rfl, rfl⟩ := Prod.mk.inj he
  obtain ⟨hrets, hbytes⟩ := hcover rfl
  obtain ⟨fs, hfile, hfs, hfit, hacc⟩ := accepted_of_covered hk (fileClient_block env.fresh) hread hrets hbytes
  exact ⟨fs, hfile, hfs, hfit, hacc⟩

theorem reports_iff (hk : Keeps handler) (file : Bytes) (g : G) :
    Reports handler env file g ↔ file = [] ∨ env.wbuf = false ∨ env.rbuf = false ∨ Whole handler env file g := by
  by_cases hne : file = []
  · exact iff_of_true ⟨-1, g, [], by simp [kvsFileRead, hne], by simp⟩ (.inl hne)
  by_cases hw : env.wbuf = true
  · by_cases hr : env.rbuf = true
    · constructor
      · rintro ⟨code, g', calls, hread, hcover⟩
        exact .inr (.inr (.inr (whole_of_covered hk hne ⟨hw, hr⟩ hread hcover)))
      · intro h
        have hwhole : Whole handler env file g := by simpa [hne, hw, hr] using h
        obtain ⟨g', calls, hread, hcover⟩ := whole_covers hk hne ⟨hw, hr⟩ hwhole
        exact ⟨0, g', calls, hread, fun _ => hcover⟩
    · have hfail : env.rbuf = false := by simpa using hr
      exact iff_of_true ⟨-2, g, [], by simp [kvsFileRead, hne, hw, hfail], by simp⟩ (.inr (.inr (.inl hfail)))
  · have hfail : env.wbuf = false := by simpa using hw
    exact iff_of_true ⟨-2, g, [], by simp [kvsFileRead, hne, hfail], by simp⟩ (.inr (.inl hfail))

theorem readFrames_recording {n i : ℕ} {rest : Bytes} {cli : Client} {g : G} (calls : List HandlerCall) :
    readFrames handler env n i rest cli g =
      (readFrames (recording handler) env n i rest cli (g, calls)).map Prod.fst := by
  induction n generalizing i rest cli g calls with
  | zero => rfl
  | succ n ih =>
    rw [readFrames, readFrames]
    by_cases hnil : rest = []
    · rw [if_pos hnil, if_pos hnil]
      rfl
    rw [if_neg hnil, if_neg hnil]
    cases Kvsp.kvspParseBulkSize (visible rest) with
    | error code => rfl
    | more => rfl
    | frame total head =>
      dsimp only
      rcases growRead cli total (env.grow i) env.fresh with _ | _ | mid
      · rfl
      · rfl
      simp only [bind, Option.bind]
      cases loadFrame mid (rest.take total) head with
      | none => rfl
      | some loaded =>
        simp only
        cases hrun : handler i loaded g with
        | none => simp only [recording, hrun, bind, Option.bind, Option.map_none]
        | some r =>
          obtain ⟨ret, cli', g'⟩ := r
          rw [recording_some hrun]
          simp only
          by_cases hneg : ret < 0
          · rw [if_pos hneg, if_pos hneg]
            rfl
          · rw [if_neg hneg, if_neg hneg]
            exact ih _

theorem kvsFileRead_recording {file : Bytes} {g : G} :
    kvsFileRead handler env file g =
      (kvsFileRead (recording handler) env file (g, [])).map (fun r => (r.1, r.2.1)) := by
  by_cases hne : file = []
  · simp [kvsFileRead, hne]
  by_cases henv : env.wbuf = true ∧ env.rbuf = true
  · rw [kvsFileRead_reads henv hne, kvsFileRead_reads henv hne, Option.map_map, readFrames_recording [],
      Option.map_map]
    rfl
  · by_cases hw : env.wbuf = true
    · have hr : ¬ env.rbuf = true := fun hr => henv ⟨hw, hr⟩
      simp [kvsFileRead, hne, hw, hr]
    · simp [kvsFileRead, hne, hw]

end Reports

section Sync

variable {P : Params} {env : SyncEnv} {s : Store}

theorem splitToken_length {mem : Bytes} {head total : ℕ} {r : Bytes × List ℕ}
    (h : Kvsp.splitToken mem head total = some r) : r.1.length = mem.length := by
  obtain ⟨hh, ht, xs, hbody⟩ := Kvsp.splitToken_some h
  rw [Kvsp.splitToken_isBody hh ht hbody] at h
  obtain rfl := Option.some.inj h
  have htext := congrArg List.length hbody.text_eq
  simp only [List.length_append, List.length_take, List.length_drop, crlf, List.length_cons, List.length_nil] at htext
  simp only [List.length_append, List.length_take, List.length_cons, List.length_drop, Kvsp.Item.marked_length]
  omega

theorem saveHandler_keeps (P : Params) (sys : ℕ → Sys) : Keeps (kvsSaveHandler P sys) := by
  intro i cli s ret cli' s' hb _ _ h
  simp only [kvsSaveHandler, kvsSplitToken, hb.protocol] at h
  cases hsplit : Kvsp.splitToken cli.rbuf cli.cmdHl cli.cmdTl with
  | none =>
    rw [hsplit] at h
    obtain rfl : cli = cli' := congrArg (fun r => r.2.1) (Option.some.inj h)
    exact hb
  | some r =>
    obtain ⟨rbuf, addresses⟩ := r
    rw [hsplit] at h
    simp only [bind, Option.bind_some] at h
    obtain ⟨tokens, -, h⟩ := Option.bind_eq_some_iff.mp h
    obtain ⟨q, -, h⟩ := Option.bind_eq_some_iff.mp h
    cases h
    exact ⟨(splitToken_length hsplit).trans hb.size, hb.small, rfl⟩

/-- A return of 0 means that the bytes of the snapshot arrived and kvs_save_handler accepted records that cover them. -/
def SyncReports (P : Params) (env : SyncEnv) (s : Store) : Prop :=
  ∃ code s', kvsSlaveFullSync P env s = some (code, s') ∧
    (code = 0 → ∃ size buf calls, kvsSlaveObtainFileSize env = some size ∧
      kvsSlaveObtainFile env size.toNat = some buf ∧
      kvsFileRead (recording (kvsSaveHandler P env.sys)) env.load buf (s, []) = some (0, s', calls) ∧ Covered buf calls)

theorem obtainFile_ne_nil {fileSize : ℕ} {buf : Bytes} (hpos : 0 < fileSize)
    (h : kvsSlaveObtainFile env fileSize = some buf) : buf ≠ [] := by
  rintro rfl
  simp only [kvsSlaveObtainFile] at h
  split_ifs at h with h1 h2 h3
  have hnil := Option.some.inj h
  rw [hnil, List.length_nil] at h3
  exact h3 hpos

theorem fullSync_loads {size : ℤ} {buf : Bytes} (hsize : kvsSlaveObtainFileSize env = some size) (hpos : 0 < size)
    (hbuf : kvsSlaveObtainFile env size.toNat = some buf) :
    kvsSlaveFullSync P env s = (kvsFileRead (kvsSaveHandler P env.sys) env.load buf s).map
      (fun r => if r.1 ≠ 0 then (-3, r.2) else (0, r.2)) := by
  have hbusy : size ≠ kvsSyncRetBusy := by
    rintro rfl
    exact absurd hpos (by decide)
  have herror : size ≠ kvsSyncRetError := by
    rintro rfl
    exact absurd hpos (by decide)
  simp only [kvsSlaveFullSync, hsize, if_neg hbusy, if_neg herror, if_neg hpos.ne', if_neg (not_lt.mpr hpos.le), hbuf,
    bind, Option.bind]
  cases kvsFileRead (kvsSaveHandler P env.sys) env.load buf s with
  | none => rfl
  | some r =>
    simp only [Option.map_some]
    split_ifs <;> rfl

theorem syncReports_iff {size : ℤ} (hsize : kvsSlaveObtainFileSize env = some size) (hne : size ≠ 0) :
    SyncReports P env s ↔ ∀ buf, 0 < size → kvsSlaveObtainFile env size.toNat = some buf →
      env.load.wbuf = false ∨ env.load.rbuf = false ∨ Whole (kvsSaveHandler P env.sys) env.load buf s := by
  by_cases hload : 0 < size ∧ ∃ buf, kvsSlaveObtainFile env size.toNat = some buf
  · obtain ⟨hpos, buf, hbuf⟩ := hload
    have hnil := obtainFile_ne_nil (by omega) hbuf
    have hiff : Reports (kvsSaveHandler P env.sys) env.load buf s ↔ _ := reports_iff (saveHandler_keeps P env.sys) buf s
    rw [or_iff_right hnil] at hiff
    have hall : (∀ buf', 0 < size → kvsSlaveObtainFile env size.toNat = some buf' →
        env.load.wbuf = false ∨ env.load.rbuf = false ∨ Whole (kvsSaveHandler P env.sys) env.load buf' s) ↔
        env.load.wbuf = false ∨ env.load.rbuf = false ∨ Whole (kvsSaveHandler P env.sys) env.load buf s := by
      constructor
      · intro h
        exact h buf hpos hbuf
      · intro h buf' _ hbuf'
        obtain rfl := Option.some.inj (hbuf.symm.trans hbuf')
        exact h
    rw [hall, ← hiff]
    constructor
    · rintro ⟨code, s', hsync, hcover⟩
      rw [fullSync_loads hsize hpos hbuf, kvsFileRead_recording, Option.map_map] at hsync
      obtain ⟨⟨c, s₁, calls⟩, hread, he⟩ := Option.map_eq_some_iff.mp hsync
      refine ⟨c, s₁, calls, hread, ?_⟩
      rintro rfl
      obtain ⟨rfl, rfl⟩ := Prod.mk.inj he
      obtain ⟨size', buf', calls', hsize', hbuf', hread', hcovered⟩ := hcover rfl
      obtain rfl := Option.some.inj (hsize.symm.trans hsize')
      obtain rfl := Option.some.inj (hbuf.symm.trans hbuf')
      rw [hread] at hread'
      cases hread'
      exact hcovered
    · rintro ⟨c, s₁, calls, hread, hcover⟩
      rw [SyncReports, fullSync_loads hsize hpos hbuf, kvsFileRead_recording, hread]
      by_cases hc : c = 0
      · subst hc
        exact ⟨0, s₁, rfl, fun _ => ⟨size, buf, calls, hsize, hbuf, hread, hcover rfl⟩⟩
      · exact ⟨-3, s₁, by simp [hc], by simp⟩
  · have hcode : ∃ code, kvsSlaveFullSync P env s = some (code, s) ∧ code ≠ 0 := by
      simp only [kvsSlaveFullSync, hsize, bind, Option.bind]
      split_ifs with hbusy herror hneg
      · exact ⟨_, rfl, by decide⟩
      · exact ⟨_, rfl, by decide⟩
      · exact ⟨_, rfl, by decide⟩
      · cases hbuf : kvsSlaveObtainFile env size.toNat with
        | none => exact ⟨_, rfl, by decide⟩
        | some buf => exact absurd ⟨by omega, buf, hbuf⟩ hload
    obtain ⟨code, hsync, hne⟩ := hcode
    refine iff_of_true ⟨code, s, hsync, fun h => absurd h hne⟩ ?_
    intro buf hpos hbuf
    exact absurd ⟨hpos, buf, hbuf⟩ hload

/-- What kvs_file_read returns says whether the whole input was applied just where the input leaves it no choice, and
kvs_slave_full_sync knows no more than that. -/
theorem incomplete_replay_reported_iff {G : Type} (handler : Handler G) (env : FileEnv) (file : Bytes) (g : G)
    (P : Params) (sync : SyncEnv) (s : Store) (size : ℤ) :
    (Keeps handler → (Reports handler env file g ↔
      file = [] ∨ env.wbuf = false ∨ env.rbuf = false ∨ Whole handler env file g)) ∧
    (kvsSlaveObtainFileSize sync = some size → size ≠ 0 →
      (SyncReports P sync s ↔ ∀ buf, 0 < size → kvsSlaveObtainFile sync size.toNat = some buf →
        sync.load.wbuf = false ∨ sync.load.rbuf = false ∨ Whole (kvsSaveHandler P sync.sys) sync.load buf s)) := by
  constructor
  · intro hk
    exact reports_iff hk file g
  · intro hsize hne
    exact syncReports_iff hsize hne

end Sync

def recordFrame : Bytes := Kvsp.frameOf [.lit "HASH", .lit "k", .lit "v"]

theorem recordFrame_isFrame : IsFrame recordFrame := by
  have hlen : recordFrame.length = 22 := by decide +kernel
  apply frameOf_isFrame
  change recordFrame.length ≤ intMax
  rw [hlen]
  decide

theorem incomplete_replay_reported_iff_record :
    Reports accepting .granted logFrame () ∧ SyncReports .small (.delivering recordFrame) (Store.fresh .small) := by
  obtain ⟨hfile, hsync⟩ := incomplete_replay_reported_iff accepting .granted logFrame () .small (.delivering recordFrame)
    (Store.fresh .small) 22
  have hlen : recordFrame.length = 22 := by decide +kernel
  constructor
  · apply (hfile accepting_keeps).mpr
    refine .inr (.inr (.inr ⟨[logFrame], by simp, by simp [logFrame_isFrame], ⟨?_, ?_⟩, accepting_accepts _⟩))
    · simp [logFrame_length, intMax]
    · simp [logFrame_length, intMax]
  · have hsize : kvsSlaveObtainFileSize (.delivering recordFrame) = some 22 := by decide +kernel
    have hobtain : kvsSlaveObtainFile (.delivering recordFrame) 22 = some recordFrame := by decide +kernel
    apply (hsync hsize (by decide)).mpr
    intro buf _ hbuf
    obtain rfl := Option.some.inj (hobtain.symm.trans hbuf)
    have hrun : (kvsSaveHandler .small (fun _ => .granted) 0 (present (fun _ => 0) (fileClient (fun _ => 0)) recordFrame)
        (Store.fresh .small)).map Prod.fst = some 0 := by decide +kernel
    obtain ⟨⟨ret, cli', s'⟩, hrun, rfl⟩ := Option.map_eq_some_iff.mp hrun
    refine .inr (.inr ⟨[recordFrame], by simp, by simp [recordFrame_isFrame], ⟨?_, ?_⟩, .inr rfl, 0, cli', s', hrun, le_rfl,
      trivial⟩)
    · simp [hlen, intMax]
    · simp [hlen, intMax]

theorem not_whole_junk {G : Type} (handler : Handler G) (env : FileEnv) (g : G) : ¬ Whole handler env [120] g := by
  rintro ⟨fs, hfile, hfs, -, -⟩
  rcases fs with _ | ⟨f, fs⟩
  · cases hfile
  · have hf := hfs f List.mem_cons_self
    rcases f with _ | ⟨c, f⟩
    · exact hf.ne_nil rfl
    · rw [List.flatten_cons, List.cons_append] at hfile
      obtain ⟨rfl, -⟩ := List.cons.inj hfile
      have hparse := hf.parse
      simp [Kvsp.kvspParseBulkSize] at hparse

/-- A snapshot of one byte that starts no frame: nothing is applied, and both functions return 0. -/
theorem junk_replays_as_success :
    kvsFileRead (recording accepting) .granted [120] ((), []) = some (0, (), []) ∧ ¬ Reports accepting .granted [120] () ∧
      (kvsSlaveFullSync .small (.delivering [120]) (Store.fresh .small)).map Prod.fst = some 0 ∧
      ¬ SyncReports .small (.delivering [120]) (Store.fresh .small) := by
  have hsize : kvsSlaveObtainFileSize (.delivering [120]) = some 1 := by decide +kernel
  have hobtain : kvsSlaveObtainFile (.delivering [120]) 1 = some [120] := by decide +kernel
  refine ⟨rfl, ?_, by decide +kernel, ?_⟩
  · rw [reports_iff accepting_keeps]
    rintro (h | h | h | h)
    · cases h
    · cases h
    · cases h
    · exact not_whole_junk _ _ _ h
  · rw [syncReports_iff hsize (by decide)]
    intro h
    rcases h [120] (by decide) hobtain with h | h | h
    · cases h
    · cases h
    · exact not_whole_junk _ _ _ h

end Lidis
