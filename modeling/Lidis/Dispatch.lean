import Lidis.Kvstore

namespace Lidis

/-- What a command does to the globals and the reply it gets, wherever the reply is written. -/
def effect (P : Params) (tokens : List CString) (g : Global) (env : Env) : Option (Global × Reply) :=
  match tokens with
  | [] => none
  | token :: args => do
    let (g, reply, wrote) ← runCommand P token args[0]? args[1]? { g with executed := g.executed ++ [tokens] } env
    let g ← logCommand tokens wrote g env
    some (g, reply)

theorem effect_cases {P : Params} {tokens : List CString} {g g' : Global} {env : Env} {reply : Reply}
    (h : effect P tokens g env = some (g', reply)) :
    ∃ token args g1 wrote, tokens = token :: args ∧
      runCommand P token args[0]? args[1]? { g with executed := g.executed ++ [tokens] } env = some (g1, reply, wrote) ∧
      logCommand tokens wrote g1 env = some g' := by
  cases tokens with
  | nil => simp [effect] at h
  | cons token args =>
    simp only [effect] at h
    obtain ⟨⟨g1, reply', wrote⟩, hrun, h⟩ := Option.bind_eq_some_iff.mp h
    obtain ⟨g2, hlog, h⟩ := Option.bind_eq_some_iff.mp h
    obtain ⟨rfl, rfl⟩ := Prod.mk.inj (Option.some.inj h)
    exact ⟨token, args, g1, wrote, rfl, hrun, hlog⟩

theorem runCommand_executed {P : Params} {token : CString} {key value : Option CString} {g g' : Global} {env : Env}
    {r : Reply × Bool} (h : runCommand P token key value g env = some (g', r)) : g'.executed = g.executed := by
  rw [runCommand] at h
  split at h
  · obtain ⟨q, -, he⟩ := Option.map_eq_some_iff.mp h
    rw [← (Prod.mk.inj he).1]
  all_goals rw [← (Prod.mk.inj (Option.some.inj h)).1]

theorem logCommand_executed {tokens : List CString} {wrote : Bool} {g g' : Global} {env : Env}
    (h : logCommand tokens wrote g env = some g') : g'.executed = g.executed := by
  rw [logCommand] at h
  split_ifs at h
  · obtain ⟨w, -, h⟩ := Option.bind_eq_some_iff.mp h
    rw [← Option.some.inj h]
  · rw [← Option.some.inj h]

theorem logCommand_store {tokens : List CString} {wrote : Bool} {g g' : Global} {env : Env}
    (h : logCommand tokens wrote g env = some g') : g'.store = g.store := by
  rw [logCommand] at h
  split_ifs at h
  · obtain ⟨w, -, h⟩ := Option.bind_eq_some_iff.mp h
    rw [← Option.some.inj h]
  · rw [← Option.some.inj h]

theorem filter_executed {P : Params} {tokens : List CString} {cli cli' : Client} {g g' : Global} {env : Env} {length : ℤ}
    (h : kvsFilterProtocol P tokens cli g env = some (length, cli', g')) :
    (g'.executed = g.executed ∧ length < 0) ∨ g'.executed = g.executed ++ [tokens] := by
  cases tokens with
  | nil =>
    obtain ⟨rfl, -, rfl⟩ := by simpa [kvsFilterProtocol] using h
    exact Or.inl ⟨rfl, by decide⟩
  | cons token args =>
    simp only [kvsFilterProtocol] at h
    obtain ⟨mid, -, h⟩ := Option.bind_eq_some_iff.mp h
    cases mid with
    | none =>
      obtain ⟨rfl, -, rfl⟩ := by simpa using h
      exact Or.inl ⟨rfl, by decide⟩
    | some mid =>
      obtain ⟨⟨g1, reply, wrote⟩, hrun, h⟩ := Option.bind_eq_some_iff.mp h
      have hexec := runCommand_executed hrun
      dsimp only at h
      obtain ⟨r, -, h⟩ := Option.bind_eq_some_iff.mp h
      refine Or.inr ?_
      cases r with
      | none =>
        obtain rfl : g1 = g' := congrArg (fun x => x.2.2) (Option.some.inj h)
        exact hexec
      | some r =>
        obtain ⟨g2, hlog, h⟩ := Option.bind_eq_some_iff.mp h
        have hg : g2 = g' := by
          split_ifs at h <;> exact congrArg (fun x => x.2.2) (Option.some.inj h)
        rw [← hg, logCommand_executed hlog]
        exact hexec

section Buffers

variable {cli cli' : Client} {env : Env}

theorem reserveReply_spec (hw : cli.Fits) (h : reserveReply cli env = some (some cli')) :
    cli.Extends cli' [] ∧ (cli.WriteOk → env.reserve = .whole → cli'.WriteOk) := by
  rw [reserveReply] at h
  split_ifs at h with hroom hint
  · obtain ⟨wbuf, hb, rfl⟩ := Option.map_eq_some_iff.mp (Option.some.inj h)
    obtain ⟨hext, hwhole⟩ := hw.realloc hb (by omega) (by have := hw.cap_pos; omega) (Or.inl rfl)
    exact ⟨hext, fun _ hres => ⟨hext.fits, hwhole hres⟩⟩
  · obtain rfl := Option.some.inj (Option.some.inj h)
    exact ⟨hw.extends_self, fun hok _ => hok⟩

theorem growReply_spec (hw : cli.Fits) {result : CString} (h : growReply cli result env = some (some cli')) :
    cli.Extends cli' [] ∧ (cli.WriteOk → env.grow = .whole → cli'.WriteOk) := by
  rw [growReply] at h
  split_ifs at h with hint hroom hint'
  · obtain ⟨wbuf, hb, rfl⟩ := Option.map_eq_some_iff.mp (Option.some.inj h)
    obtain ⟨hext, hwhole⟩ := hw.realloc hb (by omega) (by omega) (Or.inr rfl)
    exact ⟨hext, fun _ hgrow => ⟨hext.fits, hwhole hgrow⟩⟩
  · obtain rfl := Option.some.inj (Option.some.inj h)
    exact ⟨hw.extends_self, fun hok _ => hok⟩

theorem printReply_spec (hw : cli.Fits) {text : Bytes} {length : ℤ} (h : printReply cli text = some (length, cli')) :
    length = text.length ∧ cli.Extends cli' text ∧ (cli.WriteOk → cli'.WriteOk) := by
  obtain ⟨wbuf, hs, he⟩ := Option.bind_eq_some_iff.mp h
  obtain ⟨rfl, rfl⟩ := Prod.mk.inj (Option.some.inj he)
  obtain ⟨hfit, hlen, htake⟩ := sprintf_spec hs
  have hcap := hw.le_cap
  exact ⟨rfl, ⟨⟨_, _, rfl⟩, htake, hw.congr hlen rfl rfl, by simp only; omega, by simp only [hlen]; omega, le_rfl⟩,
    fun hok => hok.congr hlen rfl rfl⟩

/-- A reply that was written: nothing at all, or the text, a value after the buffer was made large enough. -/
theorem writeReply_cases {reply : Reply} {length : ℤ} (h : writeReply cli reply env = some (some (length, cli'))) :
    (∃ l, reply = .silent l ∧ length = l ∧ cli' = cli) ∨
      ∃ mid, (mid = cli ∨ ∃ result, reply = .value result ∧ growReply cli result env = some (some mid)) ∧
        printReply mid reply.text = some (length, cli') := by
  have hprint : ∀ mid text, (printReply mid text).map some = some (some (length, cli')) →
      printReply mid text = some (length, cli') := by
    intro mid text ht
    obtain ⟨r, hr, he⟩ := Option.map_eq_some_iff.mp ht
    rw [hr, he]
  cases reply with
  | silent l =>
    obtain ⟨rfl, rfl⟩ := Prod.mk.inj (Option.some.inj (Option.some.inj h))
    exact Or.inl ⟨_, rfl, rfl, rfl⟩
  | value result =>
    simp only [writeReply] at h
    obtain ⟨o, ho, hp⟩ := Option.bind_eq_some_iff.mp h
    cases o with
    | none => simp at hp
    | some mid => exact Or.inr ⟨mid, Or.inr ⟨result, rfl, ho⟩, hprint _ _ hp⟩
  | ok => exact Or.inr ⟨cli, Or.inl rfl, hprint _ _ h⟩
  | error => exact Or.inr ⟨cli, Or.inl rfl, hprint _ _ h⟩
  | exist => exact Or.inr ⟨cli, Or.inl rfl, hprint _ _ h⟩
  | noExist => exact Or.inr ⟨cli, Or.inl rfl, hprint _ _ h⟩
  | none token => exact Or.inr ⟨cli, Or.inl rfl, hprint _ _ h⟩
  | command => exact Or.inr ⟨cli, Or.inl rfl, hprint _ _ h⟩

theorem printReply_nonneg {text : Bytes} {length : ℤ} (h : printReply cli text = some (length, cli')) : 0 ≤ length := by
  obtain ⟨wbuf, -, he⟩ := Option.bind_eq_some_iff.mp h
  rw [← (Prod.mk.inj (Option.some.inj he)).1]
  exact Int.natCast_nonneg _

theorem writeReply_nonneg {reply : Reply} {length : ℤ} (hs : ∀ l, reply = .silent l → 0 ≤ l)
    (h : writeReply cli reply env = some (some (length, cli'))) : 0 ≤ length := by
  rcases writeReply_cases h with ⟨l, hl, rfl, -⟩ | ⟨mid, -, hp⟩
  · exact hs length hl
  · exact printReply_nonneg hp

theorem writeReply_spec (hw : cli.Fits) {reply : Reply} {length : ℤ}
    (hs : ∀ l, reply = .silent l → l ≤ 0) (h : writeReply cli reply env = some (some (length, cli'))) (hl : 0 ≤ length) :
    length = reply.text.length ∧ cli.Extends cli' reply.text ∧ (cli.WriteOk → env.grow = .whole → cli'.WriteOk) := by
  rcases writeReply_cases h with ⟨l, rfl, rfl, rfl⟩ | ⟨mid, rfl | ⟨result, rfl, hgrow⟩, hp⟩
  · obtain rfl : length = 0 := le_antisymm (hs length rfl) hl
    exact ⟨rfl, hw.extends_self, fun hok _ => hok⟩
  · obtain ⟨hlen, hext, hok⟩ := printReply_spec hw hp
    exact ⟨hlen, hext, fun hcli _ => hok hcli⟩
  · obtain ⟨hmid, hwhole⟩ := growReply_spec hw hgrow
    obtain ⟨hlen, hext, hok⟩ := printReply_spec hmid.fits hp
    exact ⟨hlen, hmid.trans hext, fun hcli hg => hok (hwhole hcli hg)⟩

end Buffers

theorem replyOf_cases (other : Reply) (ret : ℤ) :
    (replyOf other ret).1 = .error ∨ (replyOf other ret).1 = .ok ∨ (replyOf other ret).1 = other := by
  rw [replyOf]
  split_ifs <;> simp

theorem runVerb_reply {e : Engine Store} {verb : Verb} {key value : Option CString} {s s' : Store} {sys : Sys}
    {reply : Reply} {wrote : Bool} (h : runVerb e verb key value s sys = some (s', reply, wrote)) :
    reply = .ok ∨ reply = .error ∨ reply = .exist ∨ reply = .noExist ∨ ∃ result, reply = .value result := by
  cases verb with
  | set =>
    obtain ⟨r, -, he⟩ := Option.map_eq_some_iff.mp h
    have hr : (replyOf .exist r.2).1 = reply := congrArg (fun x => x.2.1) he
    rcases replyOf_cases .exist r.2 with h1 | h1 | h1 <;> simp [← hr, h1]
  | get =>
    obtain ⟨r, -, he⟩ := Option.map_eq_some_iff.mp h
    have hr := congrArg (fun x => x.2.1) he
    cases r with
    | none => exact Or.inr (Or.inr (Or.inr (Or.inl hr.symm)))
    | some result => exact Or.inr (Or.inr (Or.inr (Or.inr ⟨result, hr.symm⟩)))
  | del =>
    obtain ⟨r, -, he⟩ := Option.map_eq_some_iff.mp h
    have hr : (replyOf .noExist r.2).1 = reply := congrArg (fun x => x.2.1) he
    rcases replyOf_cases .noExist r.2 with h1 | h1 | h1 <;> simp [← hr, h1]
  | mod =>
    obtain ⟨r, -, he⟩ := Option.map_eq_some_iff.mp h
    have hr : (replyOf .noExist r.2).1 = reply := congrArg (fun x => x.2.1) he
    rcases replyOf_cases .noExist r.2 with h1 | h1 | h1 <;> simp [← hr, h1]
  | exist =>
    obtain ⟨r, -, he⟩ := Option.map_eq_some_iff.mp h
    have hr := congrArg (fun x => x.2.1) he
    dsimp only at hr
    split_ifs at hr <;> simp [← hr]

/-- An unknown command is quoted, SYNC and FULLSYNC FINISHED write nothing, and no other reply does either. -/
theorem runCommand_reply {P : Params} {token : CString} {key value : Option CString} {g g' : Global} {env : Env}
    {reply : Reply} {wrote : Bool} (h : runCommand P token key value g env = some (g', reply, wrote)) :
    (commandOf token = none ∧ reply = .none token) ∨
      (commandOf token = some .sync ∧ reply = .silent (if env.fullSync < 0 then env.fullSync else 0)) ∨
      (commandOf token = some .fullsyncFinished ∧ reply = .silent 0) ∨
      (commandOf token ≠ none ∧ commandOf token ≠ some .sync ∧ commandOf token ≠ some .fullsyncFinished ∧
        (∀ l, reply ≠ .silent l) ∧ ∀ t, reply ≠ .none t) := by
  rw [runCommand] at h
  split at h
  · next hcmd =>
    obtain ⟨r, hr, he⟩ := Option.map_eq_some_iff.mp h
    obtain ⟨s, reply', w⟩ := r
    obtain ⟨-, he⟩ := Prod.mk.inj he
    obtain ⟨rfl, rfl⟩ := Prod.mk.inj he
    refine Or.inr (Or.inr (Or.inr ⟨by simp [hcmd], by simp [hcmd], by simp [hcmd], ?_⟩))
    rcases runVerb_reply hr with rfl | rfl | rfl | rfl | ⟨result, rfl⟩ <;> simp
  · next hcmd =>
    have hr := congrArg (fun x => x.2.1) (Option.some.inj h)
    dsimp only at hr
    refine Or.inr (Or.inr (Or.inr ⟨by simp [hcmd], by simp [hcmd], by simp [hcmd], ?_⟩))
    split_ifs at hr <;> simp [← hr]
  · next hcmd => exact Or.inr (Or.inl ⟨hcmd, (congrArg (fun x => x.2.1) (Option.some.inj h)).symm⟩)
  · next hcmd => exact Or.inr (Or.inr (Or.inl ⟨hcmd, (congrArg (fun x => x.2.1) (Option.some.inj h)).symm⟩))
  · next hcmd =>
    have hr : Reply.command = reply := congrArg (fun x => x.2.1) (Option.some.inj h)
    exact Or.inr (Or.inr (Or.inr ⟨by simp [hcmd], by simp [hcmd], by simp [hcmd], by simp [← hr]⟩))
  · next hcmd => exact Or.inl ⟨hcmd, (congrArg (fun x => x.2.1) (Option.some.inj h)).symm⟩

theorem runCommand_silent {P : Params} {token : CString} {key value : Option CString} {g g' : Global} {env : Env} {l : ℤ}
    {wrote : Bool} (h : runCommand P token key value g env = some (g', .silent l, wrote)) : l ≤ 0 := by
  rcases runCommand_reply h with ⟨-, hr⟩ | ⟨-, hr⟩ | ⟨-, hr⟩ | ⟨-, -, -, hr, -⟩
  · simp at hr
  · obtain rfl := Reply.silent.inj hr
    split_ifs with hneg
    · exact hneg.le
    · exact le_rfl
  · exact (Reply.silent.inj hr).le
  · exact absurd rfl (hr l)

theorem incrSync_zero (enableSync : Bool) {tokens : List CString} (h : tokens ≠ []) :
    kvsMasterIncrSync enableSync tokens = 0 := by
  rw [kvsMasterIncrSync, if_neg h]
  exact ite_self 0

/-- A length that is not negative was returned at the end, with the reply written and the command logged. -/
theorem filter_cases {P : Params} {tokens : List CString} {cli cli' : Client} {g g' : Global} {env : Env} {length : ℤ}
    (h : kvsFilterProtocol P tokens cli g env = some (length, cli', g')) (hl : 0 ≤ length) :
    ∃ token args mid g1 reply wrote, tokens = token :: args ∧ reserveReply cli env = some (some mid) ∧
      runCommand P token args[0]? args[1]? { g with executed := g.executed ++ [tokens] } env = some (g1, reply, wrote) ∧
      writeReply mid reply env = some (some (length, cli')) ∧ logCommand tokens wrote g1 env = some g' := by
  cases tokens with
  | nil =>
    obtain ⟨rfl, -⟩ := Prod.mk.inj (Option.some.inj h)
    exact absurd hl (by decide)
  | cons token args =>
    simp only [kvsFilterProtocol] at h
    obtain ⟨o, ho, h⟩ := Option.bind_eq_some_iff.mp h
    cases o with
    | none =>
      obtain ⟨rfl, -⟩ := Prod.mk.inj (Option.some.inj h)
      exact absurd hl (by decide)
    | some mid =>
      obtain ⟨⟨g1, reply, wrote⟩, hrun, h⟩ := Option.bind_eq_some_iff.mp h
      dsimp only at h
      obtain ⟨o', ho', h⟩ := Option.bind_eq_some_iff.mp h
      cases o' with
      | none =>
        obtain ⟨rfl, -⟩ := Prod.mk.inj (Option.some.inj h)
        exact absurd hl (by decide)
      | some r =>
        obtain ⟨g2, hlog, h⟩ := Option.bind_eq_some_iff.mp h
        rw [if_neg (fun hc => hc.2.2 (incrSync_zero _ (by simp)))] at h
        obtain ⟨rfl, h'⟩ := Prod.mk.inj (Option.some.inj h)
        obtain ⟨rfl, rfl⟩ := Prod.mk.inj h'
        exact ⟨token, args, mid, g1, reply, wrote, rfl, ho, hrun, ho', hlog⟩

theorem filter_returns {P : Params} {tokens : List CString} {cli cli' : Client} {g g' : Global} {env : Env} {length : ℤ}
    (hw : cli.Fits) (h : kvsFilterProtocol P tokens cli g env = some (length, cli', g')) (hl : 0 ≤ length) :
    ∃ reply, effect P tokens g env = some (g', reply) ∧ length = reply.text.length ∧ cli.Extends cli' reply.text ∧
      (cli.WriteOk → env.reserve = .whole → env.grow = .whole → cli'.WriteOk) := by
  obtain ⟨token, args, mid, g1, reply, wrote, rfl, hres, hrun, hwrite, hlog⟩ := filter_cases h hl
  obtain ⟨hmid, hroom⟩ := reserveReply_spec hw hres
  obtain ⟨hlen, hext, hok⟩ := writeReply_spec hmid.fits (fun l hl => runCommand_silent (hl ▸ hrun)) hwrite hl
  exact ⟨reply, by simp [effect, hrun, hlog], hlen, hmid.trans hext, fun hcli h1 h2 => hok (hroom hcli h1) h2⟩

theorem replyOf_value {other : Reply} {ret : ℤ} {result : CString} (h : (replyOf other ret).1 = .value result) :
    (replyOf other ret).2 = false := by
  rw [replyOf] at h ⊢
  split_ifs at h ⊢
  rfl

theorem runCommand_value {P : Params} {token : CString} {key value : Option CString} {g g' : Global} {env : Env}
    {result : CString} {wrote : Bool} (h : runCommand P token key value g env = some (g', .value result, wrote)) :
    wrote = false := by
  rw [runCommand] at h
  split at h
  · next id verb hcmd =>
    obtain ⟨⟨s, q⟩, hr, he⟩ := Option.map_eq_some_iff.mp h
    obtain ⟨-, rfl⟩ := Prod.mk.inj he
    cases verb with
    | get | exist =>
      obtain ⟨r, -, he⟩ := Option.map_eq_some_iff.mp hr
      have hw := congrArg (fun x => x.2.2) he
      cases r <;> exact hw.symm
    | set | del | mod =>
      obtain ⟨r, -, he⟩ := Option.map_eq_some_iff.mp hr
      obtain ⟨-, hq⟩ := Prod.mk.inj he
      have hv := replyOf_value (congrArg Prod.fst hq)
      rwa [hq] at hv
  all_goals exact (congrArg (fun x => x.2.2) (Option.some.inj h)).symm

theorem writeReply_none {cli : Client} {env : Env} {reply : Reply} (h : writeReply cli reply env = some none) :
    ∃ result, reply = .value result := by
  cases reply with
  | value result => exact ⟨result, rfl⟩
  | silent l => simp [writeReply] at h
  | _ =>
    obtain ⟨r, -, hr⟩ := Option.map_eq_some_iff.mp h
    simp at hr

/-- A call that comes back has done nothing to the globals, or all its command does. -/
theorem filter_global {P : Params} {tokens : List CString} {cli cli' : Client} {g g' : Global} {env : Env} {length : ℤ}
    (h : kvsFilterProtocol P tokens cli g env = some (length, cli', g')) :
    g' = g ∨ ∃ reply, effect P tokens g env = some (g', reply) := by
  cases tokens with
  | nil => exact Or.inl (congrArg (fun x => x.2.2) (Option.some.inj h)).symm
  | cons token args =>
    simp only [kvsFilterProtocol] at h
    obtain ⟨mid, -, h⟩ := Option.bind_eq_some_iff.mp h
    cases mid with
    | none => exact Or.inl (congrArg (fun x => x.2.2) (Option.some.inj h)).symm
    | some mid =>
      obtain ⟨⟨g1, reply, wrote⟩, hrun, h⟩ := Option.bind_eq_some_iff.mp h
      dsimp only at h
      obtain ⟨r, hwrite, h⟩ := Option.bind_eq_some_iff.mp h
      refine Or.inr ⟨reply, ?_⟩
      cases r with
      | none =>
        -- only a value can fail to be written, and a command that returns one is no write
        obtain rfl : g1 = g' := congrArg (fun x => x.2.2) (Option.some.inj h)
        obtain ⟨result, rfl⟩ := writeReply_none hwrite
        have hnw := runCommand_value hrun
        simp [effect, hrun, logCommand, hnw]
      | some r =>
        obtain ⟨g2, hlog, h⟩ := Option.bind_eq_some_iff.mp h
        have hg : g2 = g' := by
          split_ifs at h <;> exact congrArg (fun x => x.2.2) (Option.some.inj h)
        subst hg
        simp [effect, hrun, hlog]

/-- Only the write buffer may be another one. -/
def Client.Rewritten (cli cli' : Client) : Prop := ∃ wbuf wCap, cli' = { cli with wbuf := wbuf, wCap := wCap }

theorem Client.Rewritten.refl (cli : Client) : cli.Rewritten cli := ⟨cli.wbuf, cli.wCap, rfl⟩

theorem Client.Rewritten.trans {a b c : Client} (h : a.Rewritten b) (h' : b.Rewritten c) : a.Rewritten c := by
  obtain ⟨x, y, rfl⟩ := h
  obtain ⟨x', y', rfl⟩ := h'
  exact ⟨x', y', rfl⟩

theorem reserveReply_rewritten {cli cli' : Client} {env : Env} (h : reserveReply cli env = some (some cli')) :
    cli.Rewritten cli' := by
  rw [reserveReply] at h
  split_ifs at h
  · obtain ⟨wbuf, -, he⟩ := Option.map_eq_some_iff.mp (Option.some.inj h)
    exact ⟨_, _, he.symm⟩
  · exact Option.some.inj (Option.some.inj h) ▸ .refl cli

theorem printReply_rewritten {cli cli' : Client} {text : Bytes} {length : ℤ}
    (h : printReply cli text = some (length, cli')) : cli.Rewritten cli' := by
  obtain ⟨wbuf, -, he⟩ := Option.bind_eq_some_iff.mp h
  exact ⟨wbuf, cli.wCap, (Prod.mk.inj (Option.some.inj he)).2.symm⟩

theorem growReply_rewritten {cli cli' : Client} {env : Env} {result : CString}
    (h : growReply cli result env = some (some cli')) : cli.Rewritten cli' := by
  rw [growReply] at h
  split_ifs at h
  · obtain ⟨wbuf, -, he⟩ := Option.map_eq_some_iff.mp (Option.some.inj h)
    exact ⟨_, _, he.symm⟩
  · exact Option.some.inj (Option.some.inj h) ▸ .refl cli

theorem writeReply_rewritten {cli cli' : Client} {env : Env} {reply : Reply} {length : ℤ}
    (h : writeReply cli reply env = some (some (length, cli'))) : cli.Rewritten cli' := by
  rcases writeReply_cases h with ⟨l, -, -, rfl⟩ | ⟨mid, rfl | ⟨result, rfl, hgrow⟩, hp⟩
  · exact .refl cli'
  · exact printReply_rewritten hp
  · exact (growReply_rewritten hgrow).trans (printReply_rewritten hp)

theorem filter_rewritten {P : Params} {tokens : List CString} {cli cli' : Client} {g g' : Global} {env : Env} {length : ℤ}
    (h : kvsFilterProtocol P tokens cli g env = some (length, cli', g')) : cli.Rewritten cli' := by
  have hsame : ∀ {mid : Client} {n : ℤ} {g : Global}, some (n, mid, g) = some (length, cli', g') → mid = cli' :=
    fun he => congrArg (fun x => x.2.1) (Option.some.inj he)
  cases tokens with
  | nil => exact hsame h ▸ .refl cli
  | cons token args =>
    simp only [kvsFilterProtocol] at h
    obtain ⟨mid, hmid, h⟩ := Option.bind_eq_some_iff.mp h
    cases mid with
    | none => exact hsame h ▸ .refl cli
    | some mid =>
      obtain ⟨⟨g1, reply, wrote⟩, -, h⟩ := Option.bind_eq_some_iff.mp h
      dsimp only at h
      obtain ⟨r, hwrite, h⟩ := Option.bind_eq_some_iff.mp h
      refine (reserveReply_rewritten hmid).trans ?_
      cases r with
      | none => exact hsame h ▸ .refl mid
      | some r =>
        obtain ⟨g2, -, h⟩ := Option.bind_eq_some_iff.mp h
        have hr := writeReply_rewritten hwrite
        split_ifs at h <;> exact hsame h ▸ hr

theorem filter_rbuf {P : Params} {tokens : List CString} {cli cli' : Client} {g g' : Global} {env : Env} {length : ℤ}
    (h : kvsFilterProtocol P tokens cli g env = some (length, cli', g')) : cli'.rbuf = cli.rbuf := by
  obtain ⟨wbuf, wCap, rfl⟩ := filter_rewritten h
  rfl

theorem sprintf_fits (mem : Bytes) (pos : ℕ) (text : Bytes) (h : pos + text.length + 1 ≤ mem.length) :
    ∃ mem', sprintf mem pos text = some mem' := ⟨_, if_pos h⟩

def Reply.Moderate : Reply → Prop
  | .value result => result.length < 10 ^ 9
  | .none token => token.length ≤ 6
  | _ => True

theorem value_text_length (result : CString) :
    (Reply.value result).text.length = (decimal result.length).length + result.length + 5 := by
  have h1 : (ascii "$").length = 1 := by decide
  have h2 : (ascii "\r\n").length = 2 := by decide
  simp only [Reply.text, List.length_append, h1, h2, CString.length]
  omega

theorem plain_text_length {reply : Reply} (h : reply.Moderate) (hv : ∀ result, reply ≠ .value result) :
    reply.text.length ≤ 31 := by
  cases reply with
  | value result => exact absurd rfl (hv result)
  | none token =>
    have h1 : (ascii "-ERR no such command '").length = 22 := by decide
    have h2 : (ascii "'\r\n").length = 3 := by decide
    simp only [Reply.Moderate, CString.length] at h
    simp only [Reply.text, List.length_append, h1, h2]
    omega
  | silent l => exact Nat.zero_le _
  | ok => decide
  | error => decide
  | exist => decide
  | noExist => decide
  | command => decide

theorem reserveReply_runs {cli : Client} {env : Env} (hw : cli.WriteOk) (hcap : 32 ≤ cli.wCap)
    (hint : cli.wCap * 2 ≤ intMax) (hres : env.reserve = .whole) :
    ∃ cli', reserveReply cli env = some (some cli') ∧ cli'.wCap ≤ cli.wCap * 2 ∧ cli'.wPos + 32 ≤ cli'.wCap := by
  have hpos := hw.pos_le
  by_cases hroom : cli.wCap - cli.wPos < 32
  · obtain ⟨wbuf, hb, -⟩ := kvsRealloc_whole env.fresh (show cli.wbuf.length ≤ cli.wCap * 2 by have := hw.le_cap; omega)
    refine ⟨{ cli with wbuf := wbuf, wCap := cli.wCap * 2 }, ?_, le_rfl, ?_⟩
    · simp [reserveReply, hroom, hres, not_lt.mpr hint, hb]
    · simp only
      omega
  · exact ⟨cli, by simp [reserveReply, hroom], by omega, by omega⟩

theorem printReply_runs {cli : Client} (hw : cli.WriteOk) {text : Bytes} (h : cli.wPos + text.length + 1 ≤ cli.wCap) :
    ∃ r, printReply cli text = some r := by
  obtain ⟨mem, hmem⟩ := sprintf_fits cli.wbuf cli.wPos text (h.trans hw.cap_le)
  exact ⟨_, by rw [printReply, hmem]; rfl⟩

/-- Fifteen bytes beside the value are enough for a length of nine digits; one of ten needs the byte the larger
buffer has to spare. -/
theorem writeReply_value {cli : Client} {env : Env} {result : CString} (hw : cli.WriteOk)
    (hint : cli.wCap + (result.length + 15) + 1 ≤ intMax) (hgrow : env.grow = .whole)
    (hd : result.length < 10 ^ 9 ∨ cli.wCap - cli.wPos < result.length + 15) :
    ∃ r, writeReply cli (.value result) env = some (some r) := by
  have hpos := hw.pos_le
  have hcap := hw.cap_le
  have hlen := value_text_length result
  have hint' : ¬ intMax < result.length + 15 := by omega
  by_cases hroom : cli.wCap - cli.wPos < result.length + 15
  · have hdig : (decimal result.length).length ≤ 10 := by
      apply decimal_length_le _ (by norm_num)
      simp only [intMax] at hint
      omega
    obtain ⟨block, hblock, hsize⟩ := kvsRealloc_whole env.fresh
      (show cli.wbuf.length ≤ cli.wCap + (result.length + 15) + 1 by have := hw.le_cap; omega)
    obtain ⟨wbuf, hwbuf⟩ := sprintf_fits block cli.wPos (Reply.value result).text (by omega)
    simp [writeReply, growReply, hint', hroom, not_lt.mpr hint, hgrow, hblock, printReply, hwbuf]
  · have hdig : (decimal result.length).length ≤ 9 := decimal_length_le (hd.resolve_right hroom) (by norm_num)
    obtain ⟨wbuf, hwbuf⟩ := sprintf_fits cli.wbuf cli.wPos (Reply.value result).text (by omega)
    simp [writeReply, growReply, hint', hroom, printReply, hwbuf]

theorem writeReply_runs {cli : Client} {env : Env} {reply : Reply} (hw : cli.WriteOk) (hroom : cli.wPos + 32 ≤ cli.wCap)
    (hm : reply.Moderate) (hint : cli.wCap + reply.text.length + 16 ≤ intMax) (hgrow : env.grow = .whole) :
    ∃ r, writeReply cli reply env = some (some r) := by
  have hplain : (∀ result, reply ≠ .value result) → ∃ r, (printReply cli reply.text).map some = some (some r) := by
    intro hv
    have hlen := plain_text_length hm hv
    obtain ⟨r, hr⟩ := printReply_runs hw (show cli.wPos + reply.text.length + 1 ≤ cli.wCap by omega)
    exact ⟨r, by rw [hr]; rfl⟩
  cases reply with
  | silent l => exact ⟨_, rfl⟩
  | value result =>
    have hlen := value_text_length result
    have hdig := List.length_pos_of_ne_nil (decimal_ne_nil result.length)
    exact writeReply_value hw (by omega) hgrow (Or.inl hm)
  | ok => exact hplain (by simp)
  | error => exact hplain (by simp)
  | exist => exact hplain (by simp)
  | noExist => exact hplain (by simp)
  | none token => exact hplain (by simp)
  | command => exact hplain (by simp)

theorem filter_written {P : Params} {tokens : List CString} {cli mid cli' : Client} {g g' : Global} {env : Env}
    {reply : Reply} {length : ℤ} (hmid : reserveReply cli env = some (some mid))
    (he : effect P tokens g env = some (g', reply)) (hwrite : writeReply mid reply env = some (some (length, cli'))) :
    kvsFilterProtocol P tokens cli g env = some (length, cli', g') := by
  obtain ⟨token, args, g1, wrote, rfl, hrun, hlog⟩ := effect_cases he
  simp only [kvsFilterProtocol, hmid, bind, Option.bind, hrun, hwrite, hlog]
  rw [if_neg (fun hc => hc.2.2 (incrSync_zero _ (by simp)))]

theorem filter_unwritten {P : Params} {tokens : List CString} {cli mid : Client} {g g' : Global} {env : Env}
    {reply : Reply} (hmid : reserveReply cli env = some (some mid)) (he : effect P tokens g env = some (g', reply))
    (hwrite : writeReply mid reply env = none) : kvsFilterProtocol P tokens cli g env = none := by
  obtain ⟨token, args, g1, wrote, rfl, hrun, -⟩ := effect_cases he
  simp only [kvsFilterProtocol, hmid, bind, Option.bind, hrun, hwrite]

theorem filter_short {P : Params} {tokens : List CString} {cli : Client} {g g' : Global} {env : Env} {reply : Reply}
    (hw : cli.WriteOk) (hroom : cli.wPos + 32 ≤ cli.wCap) (he : effect P tokens g env = some (g', reply))
    (hv : ∀ result, reply ≠ .value result) (hs : ∀ l, reply ≠ .silent l) (hm : reply.Moderate) :
    ∃ wbuf, kvsFilterProtocol P tokens cli g env =
        some ((reply.text.length : ℤ), { cli with wbuf := wbuf }, g') ∧ wbuf.length = cli.wbuf.length := by
  have hreserve : reserveReply cli env = some (some cli) := by
    rw [reserveReply, if_neg (by omega)]
  have hlen := plain_text_length hm hv
  have hcap := hw.cap_le
  obtain ⟨wbuf, hwbuf⟩ := sprintf_fits cli.wbuf cli.wPos reply.text (by omega)
  have hwrite : writeReply cli reply env = some (some ((reply.text.length : ℤ), { cli with wbuf := wbuf })) := by
    cases reply with
    | silent l => exact absurd rfl (hs l)
    | value result => exact absurd rfl (hv result)
    | _ => simp [writeReply, printReply, hwbuf]
  exact ⟨wbuf, filter_written hreserve he hwrite, (sprintf_spec hwbuf).2.1⟩

end Lidis
