import Lidis.Fragmentation
import Lidis.Lib.ReplyStream

namespace Lidis

theorem crlf_infix_quoted (front text : Bytes) (hf : 13 ∉ front) :
    crlf <:+: front ++ (text ++ [39]) ↔ crlf <:+: text := by
  induction front with
  | cons c front ih =>
    have hc : ¬ crlf <+: c :: (front ++ (text ++ [39])) := by
      rintro ⟨t, ht⟩
      obtain ⟨rfl, -⟩ := List.cons.inj ht
      exact hf List.mem_cons_self
    rw [List.cons_append, List.infix_cons_iff, or_iff_right hc]
    exact ih (fun h => hf (List.mem_cons_of_mem c h))
  | nil =>
    rw [List.nil_append, List.infix_concat_iff, or_iff_right]
    rintro ⟨t, ht⟩
    have hlast := congrArg List.getLast? ht
    simp [crlf] at hlast

theorem single_iff {reply : Reply} (hs : ∀ l, reply ≠ .silent l) :
    replyLen reply.text = some reply.text.length ↔ ∀ token, reply = .none token → ¬ crlf <:+: token.bytes := by
  cases reply with
  | silent l => exact absurd rfl (hs l)
  | ok => simp; decide +kernel
  | error => simp; decide +kernel
  | exist => simp; decide +kernel
  | noExist => simp; decide +kernel
  | command => simp; decide +kernel
  | value v =>
    have htext : (Reply.value v).text = 36 :: (decimal v.bytes.length ++ (13 :: 10 :: (v.bytes ++ [13, 10]))) := rfl
    rw [htext]
    simp [replyLen_bulk]
  | none token =>
    have htext : (Reply.none token).text =
        45 :: ((ascii "ERR no such command '" ++ (token.bytes ++ [39])) ++ [13, 10]) := by
      have h1 : ascii "-ERR no such command '" = 45 :: ascii "ERR no such command '" := by decide +kernel
      have h2 : ascii "'\r\n" = [39, 13, 10] := by decide +kernel
      simp [Reply.text, h1, h2]
    rw [htext, replyLen_line (by decide)]
    have hquote := crlf_infix_quoted (ascii "ERR no such command '") token.bytes (by decide +kernel)
    simp only [Reply.none.injEq, forall_eq']
    exact not_congr hquote

def Client.advance (cli : Client) (n : ℕ) : Client := { cli with wPos := cli.wPos + n }

theorem Client.Extends.advance {cli cli' : Client} {text : Bytes} (h : cli.Extends cli' text) :
    (cli'.advance text.length).Fits ∧
      (cli'.advance text.length).wbuf.take (cli'.advance text.length).wPos = cli.wbuf.take cli.wPos ++ text := by
  have hpos := h.wPos
  refine ⟨⟨h.fits.cap_pos, h.fits.le_cap, ?_, ?_⟩, ?_⟩
  · rw [Client.advance, hpos]
    exact h.room
  · rw [Client.advance, hpos]
    exact h.held
  · rw [← h.kept, Client.advance, hpos]

/-- Commands executed one after another on one connection, their replies left in the write buffer. The outer `none`
is undefined behaviour, the inner one a call that closes the connection. -/
def executeAll (P : Params) (env : ℕ → Env) :
    ℕ → List (List CString) → Client → Global → Option (Option (Client × Global))
  | _, [], cli, g => some (some (cli, g))
  | i, ts :: tss, cli, g => do
    let (length, cli, g) ← kvsFilterProtocol P ts cli g (env i)
    if length < 0 then some none
    else executeAll P env (i + 1) tss (cli.advance length.toNat) g

/-- The block that the reply is printed into. -/
def Client.replyRoom (cli : Client) : ℕ := if cli.wCap - cli.wPos < 32 then cli.wCap * 2 else cli.wbuf.length

def Quotable (cli : Client) (ts : List CString) : Prop :=
  ∀ token ∈ ts.head?, commandOf token = none →
    ¬ crlf <:+: token.bytes ∧ cli.wPos + token.length + 26 ≤ cli.replyRoom

def AllQuotable (P : Params) (env : ℕ → Env) : ℕ → List (List CString) → Client → Global → Prop
  | _, [], _, _ => True
  | i, ts :: tss, cli, g => Quotable cli ts ∧
      ∀ length cli' g', kvsFilterProtocol P ts cli g (env i) = some (length, cli', g') →
        AllQuotable P env (i + 1) tss (cli'.advance length.toNat) g'

theorem reserveReply_room {cli mid : Client} {env : Env} (hw : cli.WriteOk) (hres : env.reserve = .whole)
    (h : reserveReply cli env = some (some mid)) :
    mid.wbuf.length = cli.replyRoom ∧ mid.wCap ≤ max cli.wCap (2 * cli.wPos + 64) := by
  have hcap := hw.le_cap
  have hpos := hw.cap_pos
  rw [reserveReply] at h
  rw [Client.replyRoom]
  split_ifs at h ⊢ with hroom hint
  · obtain ⟨wbuf, hb, rfl⟩ := Option.map_eq_some_iff.mp (Option.some.inj h)
    exact ⟨(kvsRealloc_spec hb (by omega) (by omega)).2.2.1 (.inl hres), by simp only; omega⟩
  · obtain rfl := Option.some.inj (Option.some.inj h)
    exact ⟨rfl, le_max_left _ _⟩

theorem growReply_cap {mid cli : Client} {result : CString} {env : Env} (h : growReply mid result env = some (some cli)) :
    cli.wCap ≤ max mid.wCap (2 * (mid.wPos + result.length) + 64) := by
  rw [growReply] at h
  split_ifs at h with hint hroom hint'
  · obtain ⟨wbuf, -, rfl⟩ := Option.map_eq_some_iff.mp (Option.some.inj h)
    simp only
    omega
  · obtain rfl := Option.some.inj (Option.some.inj h)
    exact le_max_left _ _

theorem writeReply_cap {mid cli : Client} {reply : Reply} {env : Env} {length : ℤ}
    (h : writeReply mid reply env = some (some (length, cli))) :
    cli.wCap ≤ max mid.wCap (2 * (mid.wPos + reply.text.length) + 64) := by
  have hprint : ∀ big text, printReply big text = some (length, cli) → cli.wCap = big.wCap := by
    intro big text ht
    obtain ⟨wbuf, -, he⟩ := Option.bind_eq_some_iff.mp ht
    rw [← (Prod.mk.inj (Option.some.inj he)).2]
  rcases writeReply_cases h with ⟨l, -, -, rfl⟩ | ⟨big, rfl | ⟨result, rfl, hgrow⟩, hp⟩
  · exact le_max_left _ _
  · rw [hprint _ _ hp]
    exact le_max_left _ _
  · have hcap := growReply_cap hgrow
    have hlen := value_text_length result
    rw [hprint _ _ hp]
    omega

theorem none_text_length (token : CString) : (Reply.none token).text.length = token.length + 25 := by
  have h1 : (ascii "-ERR no such command '").length = 22 := by decide +kernel
  have h2 : (ascii "'\r\n").length = 3 := by decide +kernel
  simp only [Reply.text, List.length_append, h1, h2, CString.length]
  omega

def Reply.Fits (cli : Client) : Reply → Prop
  | .none token => cli.wPos + token.length + 26 ≤ cli.replyRoom
  | _ => True

section Step

variable {P : Params} {ts : List CString} {cli : Client} {g g' : Global} {env : Env} {reply : Reply}

theorem writeReply_fits {mid : Client} (hw : cli.WriteOk) (hres : env.reserve = .whole)
    (hmid : reserveReply cli env = some (some mid))
    (hroom : mid.wPos + 32 ≤ mid.wCap) (hgrow : env.grow = .whole) (hint : mid.wCap + reply.text.length + 16 ≤ intMax)
    (hlen : reply.text.length < 10 ^ 9) (hf : reply.Fits cli) : ∃ r, writeReply mid reply env = some (some r) := by
  obtain ⟨hext, hok⟩ := reserveReply_spec hw.toFits hmid
  cases reply with
  | none token =>
    have hblock := (reserveReply_room hw hres hmid).1
    have htext := none_text_length token
    have hpos := hext.wPos
    simp only [Reply.Fits] at hf
    obtain ⟨wbuf, hwbuf⟩ := sprintf_fits mid.wbuf mid.wPos (Reply.none token).text (by omega)
    refine ⟨((Reply.none token).text.length, { mid with wbuf := wbuf }), ?_⟩
    simp only [writeReply, printReply, hwbuf, bind, Option.bind, Option.map_some]
  | value result =>
    have htext := value_text_length result
    exact writeReply_runs (hok hw hres) hroom (show result.length < 10 ^ 9 by omega) hint hgrow
  | _ => exact writeReply_runs (hok hw hres) hroom trivial hint hgrow

theorem filter_prints (hw : cli.WriteOk) (hcap : 32 ≤ cli.wCap) (hres : env.reserve = .whole) (hgrow : env.grow = .whole)
    (hint : cli.wCap * 2 + reply.text.length + 16 ≤ intMax) (hlen : reply.text.length < 10 ^ 9)
    (hs : ∀ l, reply ≠ .silent l) (he : effect P ts g env = some (g', reply)) (hf : reply.Fits cli) :
    ∃ cli', kvsFilterProtocol P ts cli g env = some ((reply.text.length : ℤ), cli', g') ∧ cli.Extends cli' reply.text ∧
      cli'.WriteOk ∧ cli'.wCap ≤ max cli.wCap (2 * (cli.wPos + reply.text.length) + 64) := by
  obtain ⟨mid, hmid, hle, hroom⟩ := reserveReply_runs hw hcap (by omega) hres
  obtain ⟨hext, hok⟩ := reserveReply_spec hw.toFits hmid
  obtain ⟨⟨length, cli'⟩, hwrite⟩ := writeReply_fits hw hres hmid hroom hgrow (by omega) hlen hf
  have hpos : 0 ≤ length := by
    rcases writeReply_cases hwrite with ⟨l, rfl, -, -⟩ | ⟨big, -, hp⟩
    · exact absurd rfl (hs l)
    · obtain ⟨wbuf, -, he⟩ := Option.bind_eq_some_iff.mp hp
      rw [← (Prod.mk.inj (Option.some.inj he)).1]
      exact Int.natCast_nonneg _
  obtain ⟨rfl, hlast, hok'⟩ := writeReply_spec hext.fits (fun l h => absurd h (hs l)) hwrite hpos
  refine ⟨cli', filter_written hmid he hwrite, hext.trans hlast, hok' (hok hw hres) hgrow, ?_⟩
  have h1 := (reserveReply_room hw hres hmid).2
  have h2 := writeReply_cap hwrite
  rw [hext.wPos] at h2
  omega

theorem filter_overflows {token : CString} (hw : cli.WriteOk) (hcap : 32 ≤ cli.wCap) (hres : env.reserve = .whole)
    (hint : cli.wCap * 2 ≤ intMax) (he : effect P ts g env = some (g', .none token))
    (hf : ¬ (Reply.none token).Fits cli) : kvsFilterProtocol P ts cli g env = none := by
  obtain ⟨mid, hmid, -, -⟩ := reserveReply_runs hw hcap hint hres
  have hblock := (reserveReply_room hw hres hmid).1
  have hpos := (reserveReply_spec hw.toFits hmid).1.wPos
  have htext := none_text_length token
  simp only [Reply.Fits] at hf
  refine filter_unwritten hmid he ?_
  have hsprintf : sprintf mid.wbuf mid.wPos (Reply.none token).text = none := if_neg (by omega)
  simp only [writeReply, printReply, hsprintf, bind, Option.bind, Option.map_none]

end Step

theorem effect_reply {P : Params} {ts : List CString} {g g' : Global} {env : Env} {reply : Reply}
    (he : effect P ts g env = some (g', reply))
    (hts : ∀ t ∈ ts.head?, commandOf t ≠ some .sync ∧ commandOf t ≠ some .fullsyncFinished) :
    (∀ l, reply ≠ .silent l) ∧ ∀ cli, Quotable cli ts ↔
      reply.Fits cli ∧ replyLen reply.text = some reply.text.length := by
  obtain ⟨token, args, g1, wrote, rfl, hrun, -⟩ := effect_cases he
  obtain ⟨hsync, hfin⟩ := hts token rfl
  rcases runCommand_reply hrun with ⟨hcmd, rfl⟩ | ⟨hcmd, -⟩ | ⟨hcmd, -⟩ | ⟨hcmd, -, -, hns, hnn⟩
  · refine ⟨by simp, fun cli => ?_⟩
    rw [single_iff (by simp)]
    simp [Quotable, hcmd, Reply.Fits, and_comm]
  · exact absurd hcmd hsync
  · exact absurd hcmd hfin
  · refine ⟨hns, fun cli => ?_⟩
    rw [single_iff hns]
    have hfits : reply.Fits cli := by
      cases reply with
      | none t => exact absurd rfl (hnn t)
      | _ => trivial
    constructor
    · intro _
      exact ⟨hfits, fun t ht => absurd ht (hnn t)⟩
    · rintro - t ht hnone
      obtain rfl := Option.some.inj ht
      exact absurd hnone hcmd

def replyBytes (replies : List Reply) : Bytes := (replies.map Reply.text).flatten

theorem replyBytes_cons (reply : Reply) (replies : List Reply) :
    replyBytes (reply :: replies) = reply.text ++ replyBytes replies := rfl

section Run

variable {P : Params} {env : ℕ → Env} {cmds : List (List CString)} {i : ℕ} {cli : Client} {g g' : Global}
  {replies : List Reply}

theorem executeAll_bytes {cli' : Client} (hw : cli.Fits)
    (h : executeAll P env i cmds cli g = some (some (cli', g'))) :
    ∃ replies, effectAll P env i cmds g = some (g', replies) ∧
      cli'.wbuf.take cli'.wPos = cli.wbuf.take cli.wPos ++ replyBytes replies := by
  induction cmds generalizing i cli g with
  | nil =>
    obtain ⟨rfl, rfl⟩ := Prod.mk.inj (Option.some.inj (Option.some.inj h))
    exact ⟨[], rfl, (List.append_nil _).symm⟩
  | cons ts cmds ih =>
    simp only [executeAll] at h
    obtain ⟨⟨length, cli1, g1⟩, hfilter, h⟩ := Option.bind_eq_some_iff.mp h
    dsimp only at h
    split_ifs at h with hneg
    · simp at h
    obtain ⟨reply, heff, rfl, hext, -⟩ := filter_returns hw hfilter (not_lt.mp hneg)
    rw [Int.toNat_natCast] at h
    obtain ⟨hw1, hbytes⟩ := hext.advance
    obtain ⟨replies, hall, hrest⟩ := ih hw1 h
    refine ⟨reply :: replies, ?_, ?_⟩
    · simp [effectAll, heff, hall]
    · rw [hrest, hbytes, List.append_assoc, replyBytes_cons]

theorem allQuotable_cons {ts : List CString} {length : ℕ} {cli1 : Client} {g1 : Global}
    (h : kvsFilterProtocol P ts cli g (env i) = some ((length : ℤ), cli1, g1)) :
    AllQuotable P env i (ts :: cmds) cli g ↔
      Quotable cli ts ∧ AllQuotable P env (i + 1) cmds (cli1.advance length) g1 := by
  apply and_congr_right
  intro _
  constructor
  · intro hall
    exact hall length cli1 g1 h
  · rintro hrest l cli' g' h'
    obtain ⟨rfl, rfl, rfl⟩ := by simpa using h.symm.trans h'
    exact hrest

theorem executeAll_cons {ts : List CString} {length : ℕ} {cli1 : Client} {g1 : Global}
    (h : kvsFilterProtocol P ts cli g (env i) = some ((length : ℤ), cli1, g1)) :
    executeAll P env i (ts :: cmds) cli g = executeAll P env (i + 1) cmds (cli1.advance length) g1 := by
  simp only [executeAll, h, bind, Option.bind_some, Int.toNat_natCast, if_neg (not_lt.mpr (Int.natCast_nonneg _))]

theorem executeAll_iff {B N : ℕ} (hw : cli.WriteOk) (hcap : 32 ≤ cli.wCap) (hB : cli.wCap ≤ B)
    (hN : cli.wPos + (replyBytes replies).length ≤ N) (hNB : 2 * N + 64 ≤ B) (hint : 2 * B + N + 16 ≤ intMax)
    (hlen : N < 10 ^ 9) (hres : ∀ j, (env j).reserve = .whole) (hgrow : ∀ j, (env j).grow = .whole)
    (hcmds : ∀ ts ∈ cmds, ∀ t ∈ ts.head?, commandOf t ≠ some .sync ∧ commandOf t ≠ some .fullsyncFinished)
    (he : effectAll P env i cmds g = some (g', replies)) :
    AllQuotable P env i cmds cli g ↔ (∃ cli', executeAll P env i cmds cli g = some (some (cli', g'))) ∧
      ∀ r ∈ replies, replyLen r.text = some r.text.length := by
  induction cmds generalizing i cli g replies with
  | nil =>
    obtain ⟨rfl, rfl⟩ := Prod.mk.inj (Option.some.inj he)
    simp [AllQuotable, executeAll]
  | cons ts cmds ih =>
    simp only [effectAll] at he
    obtain ⟨⟨g1, reply⟩, heff, he⟩ := Option.bind_eq_some_iff.mp he
    obtain ⟨⟨g2, rest⟩, hall, he⟩ := Option.bind_eq_some_iff.mp he
    obtain ⟨rfl, rfl⟩ := Prod.mk.inj (Option.some.inj he)
    simp only [replyBytes_cons, List.length_append] at hN
    obtain ⟨hns, hquote⟩ := effect_reply heff (hcmds ts List.mem_cons_self)
    rw [List.forall_mem_cons]
    by_cases hf : reply.Fits cli
    · obtain ⟨cli1, hfilter, hext, hok1, hcap1⟩ := filter_prints hw hcap (hres i) (hgrow i) (by omega) (by omega) hns heff hf
      have hw1 : (cli1.advance reply.text.length).WriteOk := ⟨hext.advance.1, hok1.cap_le⟩
      have hpos := hext.wPos
      have hgrown := hext.grown
      have hnext := ih hw1 (hcap.trans hgrown) (show cli1.wCap ≤ B by omega)
        (by simp only [Client.advance]; omega) (fun us hus => hcmds us (List.mem_cons_of_mem ts hus)) hall
      rw [allQuotable_cons hfilter, executeAll_cons hfilter, hquote, and_iff_right hf, hnext]
      exact and_left_comm
    · cases reply with
      | none token =>
        have hnone := filter_overflows hw hcap (hres i) (by omega) heff hf
        simp [AllQuotable, executeAll, hquote, hf, hnone]
      | _ => exact absurd trivial hf

end Run

theorem one_reply_per_command_iff (P : Params) (env : ℕ → Env) (cmds : List (List CString)) (cli : Client) (g g' : Global)
    (replies : List Reply) (hw : cli.WriteOk) (hcap : 32 ≤ cli.wCap) (hpos : cli.wPos = 0)
    (hres : ∀ j, (env j).reserve = .whole) (hgrow : ∀ j, (env j).grow = .whole)
    (hcmds : ∀ ts ∈ cmds, ∀ t ∈ ts.head?, commandOf t ≠ some .sync ∧ commandOf t ≠ some .fullsyncFinished)
    (he : effectAll P env 0 cmds g = some (g', replies))
    (hsize : cli.wCap + (replyBytes replies).length ≤ 2 ^ 28) :
    (∃ cli', executeAll P env 0 cmds cli g = some (some (cli', g')) ∧
      cutAll replyLen (cli'.wbuf.take cli'.wPos) = some (replies.map Reply.text)) ↔ AllQuotable P env 0 cmds cli g := by
  have hcut : ∀ cli', executeAll P env 0 cmds cli g = some (some (cli', g')) →
      (cutAll replyLen (cli'.wbuf.take cli'.wPos) = some (replies.map Reply.text) ↔
        ∀ r ∈ replies, replyLen r.text = some r.text.length) := by
    intro cli' hrun
    obtain ⟨rs, hrs, hbytes⟩ := executeAll_bytes hw.toFits hrun
    obtain ⟨-, rfl⟩ := Prod.mk.inj (Option.some.inj (he.symm.trans hrs))
    rw [hbytes, hpos, List.take_zero, List.nil_append, replyBytes, cutAll_flatten replyLen_readsUnits, List.forall_mem_map]
  rw [executeAll_iff (B := 2 ^ 29 + 64) (N := 2 ^ 28) hw hcap (by omega) (by omega) le_rfl (by decide) (by decide)
    hres hgrow hcmds he]
  constructor
  · rintro ⟨cli', hrun, hparse⟩
    exact ⟨⟨cli', hrun⟩, (hcut cli' hrun).mp hparse⟩
  · rintro ⟨⟨cli', hrun⟩, hsingle⟩
    exact ⟨cli', hrun, (hcut cli' hrun).mpr hsingle⟩

theorem one_reply_per_command_iff_example :
    ∃ g' cli', executeAll .small (fun _ => .granted) 0 [[.lit "PING"], [.lit "HSET", .lit "k", .lit "v"]] clientInfoInit
        (.start .small) = some (some (cli', g')) ∧
      cutAll replyLen (cli'.wbuf.take cli'.wPos) = some [ascii "-ERR no such command 'PING'\r\n", ascii "+OK\r\n"] := by
  have heff : (effectAll .small (fun _ => .granted) 0 [[.lit "PING"], [.lit "HSET", .lit "k", .lit "v"]]
      (.start .small)).map Prod.snd = some [.none (.lit "PING"), .ok] := by decide +kernel
  obtain ⟨⟨g', replies⟩, he, hr⟩ := Option.map_eq_some_iff.mp heff
  obtain rfl : replies = [.none (.lit "PING"), .ok] := hr
  have hquot : AllQuotable .small (fun _ => .granted) 0 [[.lit "PING"], [.lit "HSET", .lit "k", .lit "v"]] clientInfoInit
      (.start .small) := by
    refine ⟨?_, fun _ _ _ _ => ⟨?_, fun _ _ _ _ => trivial⟩⟩
    · rintro token ht -
      obtain rfl := Option.some.inj ht
      decide +kernel
    · rintro token ht hnone
      obtain rfl := Option.some.inj ht
      exact absurd hnone (by decide +kernel)
  obtain ⟨cli', hrun, hcut⟩ := (one_reply_per_command_iff .small (fun _ => .granted) _ clientInfoInit (.start .small) g' _
    clientInfoInit_writeOk (by decide) rfl (fun _ => rfl) (fun _ => rfl)
    (by decide +kernel) he (by decide +kernel)).mpr hquot
  exact ⟨g', cli', hrun, hcut.trans (by decide +kernel)⟩

/-- One command whose token holds CR LF is answered with two replies. -/
theorem unknown_token_gives_two_replies :
    (executeAll .small (fun _ => .granted) 0 [[.lit "x\r\n+OK"]] clientInfoInit (.start .small)).map
        (Option.map (fun r => cutAll replyLen (r.1.wbuf.take r.1.wPos))) =
      some (some (some [ascii "-ERR no such command 'x\r\n", ascii "+OK'\r\n"])) := by
  decide +kernel

end Lidis
