import Lidis.Delivery

namespace Lidis

/-- What w_cap is once there is room for a short reply. -/
def Client.reservedCap (cli : Client) : ℕ := if cli.wCap - cli.wPos < 32 then cli.wCap * 2 else cli.wCap

/-- The replies whose text is not bounded, in a buffer of `cap` bytes and a block of `block` bytes filled up to `pos`:
a value must leave the new size an `int`, or fit with its NUL where the buffer is not enlarged; the name of an unknown
command must fit. -/
def Reply.Needs (cap block pos : ℕ) : Reply → Prop
  | .value result =>
    if cap - pos < result.length + 15 then cap + (result.length + 15) + 1 ≤ intMax
    else pos + (Reply.value result).text.length + 1 ≤ block
  | .none token => pos + token.length + 26 ≤ block
  | _ => True

def Client.Takes (cli : Client) (reply : Reply) : Prop :=
  (cli.wCap - cli.wPos < 32 → cli.wCap * 2 ≤ intMax) ∧ reply.Needs cli.reservedCap cli.replyRoom cli.wPos

section Write

variable {cli mid : Client} {env : Env} {reply : Reply}

theorem printReply_iff (cli : Client) (text : Bytes) :
    (∃ r, (printReply cli text).map some = some (some r)) ↔ cli.wPos + text.length + 1 ≤ cli.wbuf.length := by
  constructor
  · rintro ⟨r, hr⟩
    obtain ⟨r', hr', -⟩ := Option.map_eq_some_iff.mp hr
    obtain ⟨wbuf, hs, -⟩ := Option.bind_eq_some_iff.mp hr'
    exact (sprintf_spec hs).1
  · intro hfit
    obtain ⟨wbuf, hwbuf⟩ := sprintf_fits cli.wbuf cli.wPos text hfit
    exact ⟨_, by rw [printReply, hwbuf]; rfl⟩

theorem writeReply_value_iff {result : CString} (hw : mid.WriteOk) (hgrow : env.grow = .whole)
    (hlen : result.length + 15 ≤ intMax ∨ mid.wCap ≤ intMax) :
    (∃ r, writeReply mid (.value result) env = some (some r)) ↔
      (Reply.value result).Needs mid.wCap mid.wbuf.length mid.wPos := by
  rw [Reply.Needs]
  by_cases hroom : mid.wCap - mid.wPos < result.length + 15
  · rw [if_pos hroom]
    constructor
    · rintro ⟨r, hr⟩
      by_contra hover
      have hgrown : growReply mid result env = none := by
        rw [growReply, if_pos hroom, if_pos (by omega : intMax < mid.wCap + (result.length + 15) + 1), ite_self]
      simp only [writeReply, hgrown, bind, Option.bind] at hr
      cases hr
    · intro hfit
      exact writeReply_value hw hfit hgrow (.inr hroom)
  · have hgrown : growReply mid result env = some (some mid) := by
      rw [growReply, if_neg (by omega), if_neg hroom]
    rw [if_neg hroom, ← printReply_iff]
    simp only [writeReply, hgrown, bind, Option.bind]

theorem writeReply_iff (hw : mid.WriteOk) (hroom : mid.wPos + 32 ≤ mid.wCap) (hgrow : env.grow = .whole)
    (hlen : ∀ result, reply = .value result → result.length + 15 ≤ intMax ∨ mid.wCap ≤ intMax) :
    (∃ r, writeReply mid reply env = some (some r)) ↔ reply.Needs mid.wCap mid.wbuf.length mid.wPos := by
  have hcap := hw.cap_le
  -- the fixed texts are at most 14 bytes long
  have hshort : ∀ text : Bytes, text.length ≤ 31 →
      ((∃ r, (printReply mid text).map some = some (some r)) ↔ True) := by
    intro text ht
    rw [printReply_iff]
    exact iff_true_intro (by omega)
  cases reply with
  | silent l => exact iff_true_intro ⟨_, rfl⟩
  | value result => exact writeReply_value_iff hw hgrow (hlen result rfl)
  | none token =>
    have htext := none_text_length token
    refine (printReply_iff mid _).trans ?_
    rw [Reply.Needs, htext]
    omega
  | ok => exact hshort _ (by decide)
  | error => exact hshort _ (by decide)
  | exist => exact hshort _ (by decide)
  | noExist => exact hshort _ (by decide)
  | command => exact hshort _ (by decide)

theorem reserveReply_room_iff (hw : cli.WriteOk) (hcap : 32 ≤ cli.wCap) (hres : env.reserve = .whole) :
    (cli.wCap - cli.wPos < 32 → cli.wCap * 2 ≤ intMax) ∧
        (∃ mid, reserveReply cli env = some (some mid) ∧ mid.WriteOk ∧ mid.wPos = cli.wPos ∧
          mid.wCap = cli.reservedCap ∧ mid.wbuf.length = cli.replyRoom ∧ mid.wPos + 32 ≤ mid.wCap) ∨
      ¬ (cli.wCap - cli.wPos < 32 → cli.wCap * 2 ≤ intMax) ∧ reserveReply cli env = none := by
  have hpos := hw.pos_le
  by_cases hroom : cli.wCap - cli.wPos < 32
  · by_cases hint : cli.wCap * 2 ≤ intMax
    · obtain ⟨mid, hmid, -, hafter⟩ := reserveReply_runs hw hcap hint hres
      obtain ⟨hext, hok⟩ := reserveReply_spec hw.toFits hmid
      refine .inl ⟨fun _ => hint, mid, hmid, hok hw hres, hext.wPos, ?_, (reserveReply_room hw hres hmid).1, hafter⟩
      rw [reserveReply, if_pos hroom, if_neg (Nat.not_lt.mpr hint)] at hmid
      obtain ⟨wbuf, -, rfl⟩ := Option.map_eq_some_iff.mp (Option.some.inj hmid)
      rw [Client.reservedCap, if_pos hroom]
    · refine .inr ⟨fun h => hint (h hroom), ?_⟩
      rw [reserveReply, if_pos hroom, if_pos (by omega)]
  · refine .inl ⟨fun h => absurd h hroom, cli, ?_, hw, rfl, ?_, ?_, by omega⟩
    · rw [reserveReply, if_neg hroom]
    · rw [Client.reservedCap, if_neg hroom]
    · rw [Client.replyRoom, if_neg hroom]

theorem writeReply_within {length : ℤ} {cli' : Client} (hw : mid.Fits) (hs : ∀ l, reply = .silent l → l ≤ 0)
    (h : writeReply mid reply env = some (some (length, cli'))) : (mid.wPos : ℤ) + length ≤ cli'.wCap := by
  rcases writeReply_cases h with ⟨l, rfl, rfl, rfl⟩ | ⟨big, -, hp⟩
  · have hneg := hs length rfl
    have hpos := hw.pos_le
    omega
  · obtain ⟨hlen, hext, -⟩ := writeReply_spec hw hs h (printReply_nonneg hp)
    have hroom := hext.room
    omega

end Write

/-- The call of sprintf ends inside the block, w_pos stays within w_cap, and this is what kvs_filter_protocol returns. -/
def Writes (P : Params) (ts : List CString) (cli : Client) (g : Global) (env : Env) (ran : Global × Reply × Bool) :
    Prop :=
  ∃ mid length cli', reserveReply cli env = some (some mid) ∧ writeReply mid ran.2.1 env = some (some (length, cli')) ∧
    (cli.wPos : ℤ) + length ≤ cli'.wCap ∧
    ∀ g', logCommand ts ran.2.2 ran.1 env = some g' → kvsFilterProtocol P ts cli g env = some (length, cli', g')

theorem takes_iff {cli : Client} {env : Env} {reply : Reply} (hw : cli.WriteOk) (hcap : 32 ≤ cli.wCap)
    (hres : env.reserve = .whole) (hgrow : env.grow = .whole)
    (hlen : ∀ result, reply = .value result → result.length + 15 ≤ intMax ∨ cli.wCap ≤ intMax) :
    (∃ mid r, reserveReply cli env = some (some mid) ∧ writeReply mid reply env = some (some r)) ↔ cli.Takes reply := by
  rcases reserveReply_room_iff hw hcap hres with ⟨hint, mid, hmid, hmw, hpos, hmcap, hmblock, hroom⟩ | ⟨hint, hnone⟩
  · have hsmall : cli.wCap ≤ intMax → mid.wCap ≤ intMax := by
      intro hle
      rw [hmcap, Client.reservedCap]
      split_ifs with hshort
      · exact hint hshort
      · exact hle
    have hiff := writeReply_iff hmw hroom hgrow (fun result hr => (hlen result hr).imp_right hsmall)
    rw [hmcap, hmblock, hpos] at hiff
    constructor
    · rintro ⟨mid', r, hmid', hwrite⟩
      obtain rfl := Option.some.inj (Option.some.inj (hmid.symm.trans hmid'))
      exact ⟨hint, hiff.mp ⟨_, hwrite⟩⟩
    · rintro ⟨-, hneeds⟩
      obtain ⟨r, hwrite⟩ := hiff.mpr hneeds
      exact ⟨mid, r, hmid, hwrite⟩
  · constructor
    · rintro ⟨mid, r, hmid, -⟩
      rw [hnone] at hmid
      cases hmid
    · rintro ⟨hint', -⟩
      exact absurd hint' hint

theorem writes_iff {P : Params} {token : CString} {args : List CString} {cli : Client} {g g₁ : Global} {env : Env}
    {reply : Reply} {wrote : Bool} (hw : cli.WriteOk) (hcap : 32 ≤ cli.wCap) (hres : env.reserve = .whole)
    (hgrow : env.grow = .whole) (hlen : ∀ result, reply = .value result → result.length + 15 ≤ intMax ∨ cli.wCap ≤ intMax)
    (hrun : runCommand P token args[0]? args[1]? { g with executed := g.executed ++ [token :: args] } env =
      some (g₁, reply, wrote)) :
    Writes P (token :: args) cli g env (g₁, reply, wrote) ↔ cli.Takes reply := by
  rw [← takes_iff hw hcap hres hgrow hlen]
  constructor
  · rintro ⟨mid, length, cli', hmid, hwrite, -⟩
    exact ⟨mid, (length, cli'), hmid, hwrite⟩
  · rintro ⟨mid, ⟨length, cli'⟩, hmid, hwrite⟩
    obtain ⟨hext, -⟩ := reserveReply_spec hw.toFits hmid
    have hwithin := writeReply_within hext.fits (fun l hl => runCommand_silent (hl ▸ hrun)) hwrite
    refine ⟨mid, length, cli', hmid, hwrite, by rwa [hext.wPos] at hwithin, ?_⟩
    intro g' hlog
    apply filter_written hmid _ hwrite
    simp [effect, hrun, hlog]

section Run

variable {P : Params} {env : ℕ → Env} {senv : ServerEnv} {c c' : Conn Global}

/-- The connections server_reader gets to: a chunk arrives, a command is handled with all the memory it asked for, the
replies are flushed, and other connections change what they share. -/
inductive Served (P : Params) (env : ℕ → Env) (senv : ServerEnv) : Conn Global → Prop where
  | accept (g : Global) : Served P env senv (.accept g)
  | arrives {chunk : Bytes} {c c' : Conn Global} (h : Served P env senv c) (ha : Arrives senv chunk c c') :
    Served P env senv c'
  | handles {c c' : Conn Global} (h : Served P env senv c) (hc : Continues (protocolHandler P env) c c')
    (hfull : c'.cli.wCap ≤ c'.cli.wbuf.length) : Served P env senv c'
  | flushes {c c' : Conn Global} (h : Served P env senv c) (hf : flush senv c = (c', none)) : Served P env senv c'
  | others {c : Conn Global} (h : Served P env senv c) (g : Global) : Served P env senv { c with state := g }

/-- w_cap and the block agree up to one byte, and w_cap never shrinks. -/
structure Writable (cli : Client) : Prop where
  writeOk : cli.WriteOk
  large : bufferSize ≤ cli.wCap

theorem flush_writable (h : Writable c.cli) (hf : flush senv c = (c', none)) : Writable c'.cli := by
  have hzero : Writable { c.cli with wPos := 0 } :=
    ⟨⟨h.writeOk.toFits.flushed, h.writeOk.cap_le⟩, h.large⟩
  simp only [flush] at hf
  split at hf
  · cases hf
    exact hzero
  · split at hf
    · cases hf
      exact hzero
    · cases hf

theorem clientInfoInit_writable : Writable clientInfoInit := ⟨clientInfoInit_writeOk, le_rfl⟩

theorem Served.writable (h : Served P env senv c) : Writable c.cli := by
  induction h with
  | accept g => exact clientInfoInit_writable
  | arrives _ ha ih =>
    obtain ⟨rbuf, rCap, rPos, protocol, chunks, rfl⟩ := ha.readSide
    exact ⟨ih.writeOk.congr rfl rfl rfl, ih.large⟩
  | handles _ hc hfull ih =>
    obtain ⟨-, -, total, head, -, hf⟩ := hc
    obtain ⟨_, _, -, -, -, -, hw, hgrown, -⟩ := handleFrame_answered ih.writeOk.toFits hf
    exact ⟨⟨hw, hfull⟩, ih.large.trans hgrown⟩
  | flushes _ hf ih => exact flush_writable ih hf
  | others _ _ ih => exact ih

end Run

theorem protocolError_iff {senv : ServerEnv} {c : Conn Global} (hw : c.cli.WriteOk) (hgrow : senv.errGrow = .whole) :
    (∃ c', protocolError senv c = some (c', some .protocol) ∧ c.cli.wPos + errProto.length ≤ c'.cli.wCap) ↔
      errProtoLen ≤ c.cli.wCap - c.cli.wPos ∨ c.cli.wCap + (errProtoLen + 1) ≤ intMax := by
  have hlen : errProto.length = 21 := by decide +kernel
  have hpos := hw.pos_le
  have hcap := hw.cap_le
  simp only [protocolError, growError, errProtoLen, hgrow]
  by_cases hroom : 22 ≤ c.cli.wCap - c.cli.wPos
  · obtain ⟨wbuf, hwbuf⟩ := sprintf_fits c.cli.wbuf c.cli.wPos errProto (by omega)
    simp only [hroom, if_true, hwbuf, bind, Option.bind, true_or, iff_true]
    exact ⟨_, rfl, by simp only; omega⟩
  · by_cases hint : c.cli.wCap + (22 + 1) ≤ intMax
    · obtain ⟨block, hblock, hsize⟩ := kvsRealloc_whole senv.fresh
        (show c.cli.wbuf.length ≤ c.cli.wCap + (22 + 1) by have := hw.le_cap; omega)
      obtain ⟨wbuf, hwbuf⟩ := sprintf_fits block c.cli.wPos errProto (by omega)
      simp only [hroom, Nat.not_lt.mpr hint, if_false, hblock, Option.map_some, hwbuf, bind, Option.bind, hint, or_true,
        iff_true]
      exact ⟨_, rfl, by simp only; omega⟩
    · have hover : intMax < c.cli.wCap + (22 + 1) := by omega
      simp [hroom, hover, hint]

/-- Every reply ends inside the write buffer, at every fill level server_reader gets to, just where it has room. -/
theorem replies_within_buffer_iff (P : Params) (env : ℕ → Env) (senv : ServerEnv) (c : Conn Global)
    (h : Served P env senv c) :
    (∀ rbuf total head token args g e g₁ reply wrote, e.reserve = .whole → e.grow = .whole →
      (∀ result, reply = .value result → result.length < 2 ^ 30) →
      runCommand P token args[0]? args[1]? { g with executed := g.executed ++ [token :: args] } e =
        some (g₁, reply, wrote) →
      (Writes P (token :: args) (c.cli.load rbuf total head) g e (g₁, reply, wrote) ↔ c.cli.Takes reply)) ∧
    ∀ senv' : ServerEnv, senv'.errGrow = .whole →
      ((∃ c', protocolError senv' c = some (c', some .protocol) ∧ c.cli.wPos + errProto.length ≤ c'.cli.wCap) ↔
        errProtoLen ≤ c.cli.wCap - c.cli.wPos ∨ c.cli.wCap + (errProtoLen + 1) ≤ intMax) := by
  obtain ⟨hw, hlarge⟩ := h.writable
  constructor
  · intro rbuf total head token args g e g₁ reply wrote hres hgrow hlen hrun
    have hload : (c.cli.load rbuf total head).WriteOk := hw.congr rfl rfl rfl
    have hlen' : ∀ result, reply = .value result → result.length + 15 ≤ intMax ∨ c.cli.wCap ≤ intMax := by
      intro result hr
      have hshort := hlen result hr
      exact .inl (by simp only [intMax]; omega)
    exact writes_iff hload (show 32 ≤ c.cli.wCap from le_trans (by decide) hlarge) hres hgrow hlen' hrun
  · intro senv' hgrow
    exact protocolError_iff hw hgrow

theorem runCommand_unknown {P : Params} {token : CString} (key value : Option CString) (g : Global) (env : Env)
    (h : commandOf token = none) : runCommand P token key value g env = some (g, .none token, false) := by
  simp only [runCommand, h]

theorem replies_within_buffer_iff_ping :
    Writes .small [.lit "PING"] (clientInfoInit.load [] 0 0) (.start .small) .granted
      ({ Global.start .small with executed := [[.lit "PING"]] }, .none (.lit "PING"), false) := by
  obtain ⟨hcommands, -⟩ := replies_within_buffer_iff .small (fun _ => .granted) .sending (.accept (.start .small)) (.accept _)
  have hname : commandOf (.lit "PING") = none := by decide +kernel
  apply (hcommands [] 0 0 (.lit "PING") [] (.start .small) .granted _ _ false rfl rfl (by simp)
    (runCommand_unknown _ _ _ _ hname)).mpr
  constructor
  · intro hshort
    exact absurd hshort (by decide)
  · change 0 + CString.length (.lit "PING") + 26 ≤ clientInfoInit.replyRoom
    rw [Client.replyRoom, if_neg (by decide)]
    exact le_trans (by decide +kernel) List.length_replicate.ge

theorem longName_nul_free : (0 : UInt8) ∉ List.replicate 4096 120 := by
  rw [List.mem_replicate]
  rintro ⟨-, h⟩
  exact absurd h (by decide)

def longName : CString := ⟨List.replicate 4096 120, longName_nul_free⟩

/-- The first command on a connection, with a name of 4096 bytes: its reply of 4121 bytes is printed into 4097. -/
theorem unknown_command_overruns :
    Served .small (fun _ => .granted) .sending (.accept (.start .small)) ∧ longName.length = 4096 ∧
      kvsFilterProtocol .small [longName] clientInfoInit (.start .small) .granted = none ∧
      ¬ Writes .small [longName] clientInfoInit (.start .small) .granted
        ({ Global.start .small with executed := [[longName]] }, .none longName, false) := by
  have hserved : Served .small (fun _ => .granted) .sending (.accept (.start .small)) := .accept _
  have hlength : longName.length = 4096 := List.length_replicate
  have hname : commandOf longName = none := by decide +kernel
  have hrun : runCommand .small longName ([] : List CString)[0]? ([] : List CString)[1]?
      { Global.start .small with executed := (Global.start .small).executed ++ [longName :: []] } .granted =
        some ({ Global.start .small with executed := [[longName]] }, .none longName, false) :=
    runCommand_unknown _ _ _ _ hname
  have heffect : effect .small [longName] (.start .small) .granted =
      some ({ Global.start .small with executed := [[longName]] }, .none longName) := by
    simp only [effect, hrun, bind, Option.bind]
    rfl
  have hw : clientInfoInit.WriteOk := hserved.writable.writeOk
  have hfits : ¬ clientInfoInit.wPos + longName.length + 26 ≤ clientInfoInit.replyRoom := by
    rw [Client.replyRoom, if_neg (by decide), hlength, show clientInfoInit.wbuf.length = 4097 from List.length_replicate]
    decide
  refine ⟨hserved, hlength, filter_overflows hw (by decide) rfl (by decide) heffect hfits, ?_⟩
  intro hwrites
  obtain ⟨-, hneeds⟩ := (writes_iff hw (by decide) rfl rfl (by simp) hrun).mp hwrites
  exact hfits hneeds

end Lidis
