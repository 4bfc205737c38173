import Lidis.Requests

namespace Lidis

open Engine Store

def Verb.name : Verb → String
  | .set => "SET"
  | .get => "GET"
  | .del => "DEL"
  | .mod => "MOD"
  | .exist => "EXIST"

def EngineId.letter : EngineId → String
  | .array => ""
  | .rbtree => "R"
  | .hash => "H"
  | .skiplist => "L"

def commandName (id : EngineId) (verb : Verb) : CString := .lit (id.letter ++ verb.name)

def commandFor (id : EngineId) : Op → List CString
  | .set k v => [commandName id .set, k, v]
  | .get k => [commandName id .get, k]
  | .del k => [commandName id .del, k]
  | .mod k v => [commandName id .mod, k, v]
  | .exist k => [commandName id .exist, k]

theorem commandOf_name (id : EngineId) (verb : Verb) : commandOf (commandName id verb) = some (.data id verb) := by
  cases id <;> cases verb <;> decide +kernel

theorem requestOf_commandFor (id : EngineId) (o : Op) : requestOf (commandFor id o) = some (id, o) := by
  cases o <;> simp [requestOf, commandFor, commandOf_name]

theorem commandFor_ne_nil (id : EngineId) (o : Op) : commandFor id o ≠ [] := by
  cases o <;> simp [commandFor]

structure Setting where
  cli : Client
  env : Env

def repliesFrom (P : Params) (id : EngineId) (conn : ℕ → Setting) : ℕ → List Op → Global → Option (List Bytes)
  | _, [], _ => some []
  | i, o :: os, g => do
    let (length, cli, g) ← kvsFilterProtocol P (commandFor id o) (conn i).cli g (conn i).env
    let rest ← repliesFrom P id conn (i + 1) os g
    some ((cli.wbuf.drop (conn i).cli.wPos).take length.toNat :: rest)

def mapReplies (c : FMap.Contract) : Map → List Op → List Reply
  | _, [] => []
  | m, o :: os => (replyTo o (m.step c o).2).1 :: mapReplies c (m.apply c o) os

def Setting.Takes (s : Setting) (reply : Reply) : Prop :=
  ∃ mid r, reserveReply s.cli s.env = some (some mid) ∧ writeReply mid reply s.env = some (some r)

def TakesAll (conn : ℕ → Setting) : ℕ → List Reply → Prop
  | _, [] => True
  | i, r :: rs => (conn i).Takes r ∧ TakesAll conn (i + 1) rs

structure Setting.Granted (s : Setting) : Prop where
  writeOk : s.cli.WriteOk
  env : s.env.Granted

theorem kvsLogWrite_defined (enableLog : Bool) {tokens : List CString} (log : LogState) (env : LogEnv)
    (h : (Kvsp.frameOf tokens).length < intMax) : ∃ r, kvsLogWrite enableLog tokens log env = some r := by
  obtain ⟨o, ho⟩ := Kvsp.buildKvspFrame_defined env.frame h
  cases o with
  | none =>
    simp only [kvsLogWrite, ho, bind, Option.bind]
    split_ifs <;> exact ⟨_, rfl⟩
  | some buf =>
    simp only [kvsLogWrite, ho, bind, Option.bind]
    split_ifs <;> exact ⟨_, rfl⟩

theorem logCommand_defined {tokens : List CString} (wrote : Bool) (g : Global) (env : Env)
    (h : (Kvsp.frameOf tokens).length < intMax) : ∃ g', logCommand tokens wrote g env = some g' ∧ g'.store = g.store := by
  rw [logCommand]
  split_ifs
  · obtain ⟨r, hr⟩ := kvsLogWrite_defined g.config.enableLog g.log env.log h
    refine ⟨{ g with log := r.1, logReturns := g.logReturns ++ [r.2] }, ?_, rfl⟩
    rw [hr]
    rfl
  · exact ⟨g, rfl, rfl⟩

theorem takes_or_undefined {s : Setting} (hs : s.Granted) (reply : Reply) :
    s.Takes reply ∨ reserveReply s.cli s.env = none ∨
      ∃ mid, reserveReply s.cli s.env = some (some mid) ∧ writeReply mid reply s.env = none := by
  have hres := hs.env.reserve
  have hgrow := hs.env.grow
  rcases hr : reserveReply s.cli s.env with _ | _ | mid
  · exact Or.inr (Or.inl rfl)
  · rw [reserveReply] at hr
    split_ifs at hr <;> simp_all
  · rcases hw : writeReply mid reply s.env with _ | _ | r
    · exact Or.inr (Or.inr ⟨mid, rfl, hw⟩)
    · exfalso
      have hprint : ∀ cli text, (printReply cli text).map some ≠ some (none : Option (ℤ × Client)) := by
        intro cli text ht
        obtain ⟨q, -, hq⟩ := Option.map_eq_some_iff.mp ht
        simp at hq
      cases reply with
      | silent l => simp [writeReply] at hw
      | value result =>
        simp only [writeReply] at hw
        obtain ⟨o, ho, hp⟩ := Option.bind_eq_some_iff.mp hw
        cases o with
        | none =>
          rw [growReply] at ho
          split_ifs at ho <;> simp_all
        | some cli => exact hprint _ _ hp
      | _ => exact hprint _ _ hw
    · exact Or.inl ⟨mid, r, hr, hw⟩

section

variable {P : Params} {id : EngineId} {o : Op} {g : Global} {s : Setting} {m : Maps}

theorem replyTo_not_silent (o : Op) (a : Answer) (l : ℤ) : (replyTo o a).1 ≠ .silent l := by
  have hof : ∀ other n, other ≠ Reply.silent l → (replyOf other n).1 ≠ .silent l := by
    intro other n h
    rw [replyOf]
    split_ifs <;> simp [h]
  cases o <;> cases a <;> simp only [replyTo, ne_eq, reduceCtorEq, not_false_eq_true]
  · exact hof _ _ (by simp)
  · next v => cases v <;> simp
  · exact hof _ _ (by simp)
  · exact hof _ _ (by simp)
  · split_ifs <;> simp

theorem filter_takes (hH : Holds P g.store m) (hs : s.Granted)
    (hlen : (Kvsp.frameOf (commandFor id o)).length < intMax)
    (ht : s.Takes (replyTo o ((m id).step (contract P id) o).2).1) :
    ∃ length cli g', kvsFilterProtocol P (commandFor id o) s.cli g s.env = some (length, cli, g') ∧
      Holds P g'.store (m.step P (id, o)) ∧
      (cli.wbuf.drop s.cli.wPos).take length.toNat = (replyTo o ((m id).step (contract P id) o).2).1.text := by
  obtain ⟨mid, ⟨length, cli⟩, hreserve, hwrite⟩ := ht
  obtain ⟨st, hcall, hst⟩ := call_granted hH id o hs.env.sys
  obtain ⟨token, args, hcmd⟩ := List.exists_cons_of_ne_nil (commandFor_ne_nil id o)
  have hreq := requestOf_commandFor id o
  rw [hcmd] at hreq hlen ⊢
  have hrun := runCommand_request P { g with executed := g.executed ++ [token :: args] } s.env hreq
  rw [hcall] at hrun
  obtain ⟨g', hlog, hstore⟩ := logCommand_defined (replyTo o ((m id).step (contract P id) o).2).2
    { g with executed := g.executed ++ [token :: args], store := st } s.env hlen
  have hfilter : kvsFilterProtocol P (token :: args) s.cli g s.env = some (length, cli, g') := by
    simp only [kvsFilterProtocol, hreserve, bind, Option.bind, hrun, Option.map_some, hwrite, hlog]
    rw [if_neg (fun hc => hc.2.2 (incrSync_zero _ (by simp)))]
  have hpos := writeReply_nonneg (fun l h => absurd h (replyTo_not_silent o _ l)) hwrite
  refine ⟨length, cli, g', hfilter, hstore ▸ hst, ?_⟩
  obtain ⟨hmid, -⟩ := reserveReply_spec hs.writeOk.toFits hreserve
  obtain ⟨hl, hext, -⟩ := writeReply_spec hmid.fits (fun l h => absurd h (replyTo_not_silent o _ l)) hwrite hpos
  rw [hl, Int.toNat_natCast]
  exact (hmid.trans hext).appended hs.writeOk.toFits

theorem filter_undefined (hH : Holds P g.store m) (hs : s.Granted)
    (ht : ¬ s.Takes (replyTo o ((m id).step (contract P id) o).2).1) :
    kvsFilterProtocol P (commandFor id o) s.cli g s.env = none := by
  obtain ⟨st, hcall, -⟩ := call_granted hH id o hs.env.sys
  obtain ⟨token, args, hcmd⟩ := List.exists_cons_of_ne_nil (commandFor_ne_nil id o)
  have hreq := requestOf_commandFor id o
  rw [hcmd] at hreq ⊢
  have hrun := runCommand_request P { g with executed := g.executed ++ [token :: args] } s.env hreq
  rw [hcall] at hrun
  rcases (takes_or_undefined hs _).resolve_left ht with hnone | ⟨mid, hmid, hnone⟩
  · simp only [kvsFilterProtocol, hnone, bind, Option.bind]
  · simp only [kvsFilterProtocol, hmid, bind, Option.bind, hrun, Option.map_some, hnone]

end

theorem repliesFrom_eq {P : Params} {id : EngineId} {conn : ℕ → Setting} (hconn : ∀ i, (conn i).Granted) (os : List Op)
    (hlen : ∀ o ∈ os, (Kvsp.frameOf (commandFor id o)).length < intMax) (i : ℕ) {g : Global} {m : Maps}
    (hH : Holds P g.store m) :
    (TakesAll conn i (mapReplies (contract P id) (m id) os) ∧
        repliesFrom P id conn i os g = some ((mapReplies (contract P id) (m id) os).map Reply.text)) ∨
      (¬ TakesAll conn i (mapReplies (contract P id) (m id) os) ∧ repliesFrom P id conn i os g = none) := by
  induction os generalizing i g m with
  | nil => exact Or.inl ⟨trivial, rfl⟩
  | cons o os ih =>
    have hrest : ∀ p ∈ os, (Kvsp.frameOf (commandFor id p)).length < intMax :=
      fun p hp => hlen p (List.mem_cons_of_mem o hp)
    by_cases ht : (conn i).Takes (replyTo o ((m id).step (contract P id) o).2).1
    · obtain ⟨length, cli, g', hfilter, hH', htext⟩ := filter_takes hH (hconn i) (hlen o List.mem_cons_self) ht
      have hm : m.step P (id, o) id = (m id).apply (contract P id) o := by simp [Maps.step]
      rcases ih hrest (i + 1) hH' with ⟨hall, hrep⟩ | ⟨hall, hrep⟩
      · rw [hm] at hall hrep
        refine Or.inl ⟨⟨ht, hall⟩, ?_⟩
        simp only [repliesFrom, hfilter, bind, Option.bind, hrep, htext, mapReplies, List.map_cons]
      · rw [hm] at hall
        refine Or.inr ⟨fun h => hall h.2, ?_⟩
        simp only [repliesFrom, hfilter, bind, Option.bind, hrep]
    · refine Or.inr ⟨fun h => ht h.1, ?_⟩
      simp only [repliesFrom, filter_undefined hH (hconn i) ht, bind, Option.bind]

def LiveBelow (n : ℕ) : Map → List Op → Prop
  | m, [] => m.size < n
  | m, o :: os => m.size < n ∧ LiveBelow n (m.apply .plain o) os

instance decidableLiveBelow (n : ℕ) : (m : Map) → (os : List Op) → Decidable (LiveBelow n m os)
  | m, [] => inferInstanceAs (Decidable (m.size < n))
  | m, o :: os =>
    have := decidableLiveBelow n (m.apply .plain o) os
    inferInstanceAs (Decidable (m.size < n ∧ LiveBelow n (m.apply .plain o) os))

def DelsPresent : Map → List Op → Prop
  | _, [] => True
  | m, o :: os => (∀ k, o = .del k → (m.get k).isSome = true) ∧ DelsPresent (m.apply .plain o) os

theorem apply_plain {P : Params} (id : EngineId) {m : Map} (h : m.size < P.arraySize) (o : Op) :
    m.apply (contract P id) o = m.apply .plain o := by
  have hcap : (contract P id).capacity ≠ some m.size := by
    cases id with
    | array => exact fun he => h.ne' (Option.some.inj he)
    | _ => simp [contract, KvsHash.contract, FMap.Contract.plain]
  have hcap' : FMap.Contract.plain.capacity ≠ some m.size := by simp [FMap.Contract.plain]
  cases o with
  | set k v => simp only [FMap.apply, FMap.step, if_neg hcap, if_neg hcap']
  | get k => rfl
  | del k => simp only [FMap.apply, FMap.step]; split_ifs <;> rfl
  | mod k v => simp only [FMap.apply, FMap.step]; split_ifs <;> rfl
  | exist k => rfl

theorem reply_plain {P : Params} {id : EngineId} {m : Map} (h : m.size < P.arraySize) (o : Op)
    (ho : id ≠ .hash ∨ ∀ k, o = .del k → (m.get k).isSome = true) :
    (replyTo o (m.step (contract P id) o).2).1 = (replyTo o (m.step .plain o).2).1 := by
  have hN := P.arraySize_pos.ne'
  have hneg : ¬ (P.arraySize : ℤ) < 0 := by omega
  cases o with
  | set k v =>
    have hne : m.size ≠ P.arraySize := h.ne
    cases id <;>
      simp [FMap.step, contract, KvsArray.contract, KvsHash.contract, FMap.Contract.plain, hne.symm]
  | get k => rfl
  | del k =>
    by_cases hk : (m.get k).isSome = true
    · simp [FMap.step, hk]
    · cases id with
      | hash => exact absurd (ho.resolve_left (fun hne => hne rfl) k rfl) hk
      | array => simp [FMap.step, hk, contract, KvsArray.contract, FMap.Contract.plain, replyTo, replyOf, hN, hneg]
      | rbtree => rfl
      | skiplist => rfl
  | mod k v =>
    by_cases hk : (m.get k).isSome = true
    · simp [FMap.step, hk]
    · cases id with
      | array => simp [FMap.step, hk, contract, KvsArray.contract, FMap.Contract.plain, replyTo, replyOf, hN, hneg]
      | _ => rfl
  | exist k => rfl

theorem LiveBelow.now {n : ℕ} {m : Map} {os : List Op} (h : LiveBelow n m os) : m.size < n := by
  cases os with
  | nil => exact h
  | cons o os => exact h.1

theorem mapReplies_plain {P : Params} {id : EngineId} {m : Map} {os : List Op} (h : LiveBelow P.arraySize m os)
    (hid : id ≠ .hash ∨ DelsPresent m os) : mapReplies (contract P id) m os = mapReplies .plain m os := by
  induction os generalizing m with
  | nil => rfl
  | cons o os ih =>
    rw [mapReplies, mapReplies, reply_plain h.now o (hid.imp_right And.left), apply_plain id h.now,
      ih h.2 (hid.imp_right And.right)]

theorem delsPresent_of_texts {P : Params} {m : Map} {os : List Op} (h : LiveBelow P.arraySize m os)
    (ht : (mapReplies (contract P .hash) m os).map Reply.text = (mapReplies .plain m os).map Reply.text) :
    DelsPresent m os := by
  induction os generalizing m with
  | nil => trivial
  | cons o os ih =>
    simp only [mapReplies, List.map_cons, List.cons.injEq, apply_plain .hash h.now] at ht
    refine ⟨?_, ih h.2 ht.2⟩
    rintro k rfl
    by_contra hk
    have htext := ht.1
    simp only [FMap.step, hk, ↓reduceIte] at htext
    exact absurd (show Reply.error.text = Reply.noExist.text from htext) (by decide)

/-- Sent the same operations, with fewer keys live than the array has slots, the four engines reply alike exactly
when no absent key is deleted. -/
theorem engines_reply_alike_iff (P : Params) (os : List Op) (hlive : LiveBelow P.arraySize FMap.empty os)
    (hlen : ∀ o ∈ os, ∀ id, (Kvsp.frameOf (commandFor id o)).length < intMax) (conn : ℕ → Setting)
    (hconn : ∀ i, (conn i).Granted) (g : EngineId → Global) (hg : ∀ id, Holds P (g id).store Maps.empty)
    (hrun : (repliesFrom P .array conn 0 os (g .array)).isSome = true) :
    (∀ id, repliesFrom P id conn 0 os (g id) = repliesFrom P .array conn 0 os (g .array)) ↔
      DelsPresent FMap.empty os := by
  have heq := fun id => repliesFrom_eq hconn os (fun o ho => hlen o ho id) 0 (hg id)
  have harray : mapReplies (contract P .array) FMap.empty os = mapReplies .plain FMap.empty os :=
    mapReplies_plain hlive (Or.inl (by decide))
  constructor
  · intro hall
    rcases heq .hash with ⟨-, hhash⟩ | ⟨-, hhash⟩
    · rcases heq .array with ⟨-, ha⟩ | ⟨-, ha⟩
      · have := hall .hash
        rw [hhash, ha] at this
        exact delsPresent_of_texts hlive ((Option.some.inj this).trans (congrArg (List.map Reply.text) harray))
      · rw [ha] at hrun
        exact absurd hrun (by decide)
    · rw [← hall .hash, hhash] at hrun
      exact absurd hrun (by decide)
  · intro hdel id
    have hsame : mapReplies (contract P id) (Maps.empty id) os = mapReplies (contract P .array) (Maps.empty .array) os :=
      (mapReplies_plain hlive (Or.inr hdel)).trans harray.symm
    rcases heq id with ⟨ht, hid⟩ | ⟨ht, hid⟩
    · rcases heq .array with ⟨-, ha⟩ | ⟨ht', -⟩
      · rw [hid, ha, hsame]
      · exact absurd (hsame ▸ ht) ht'
    · rcases heq .array with ⟨ht', -⟩ | ⟨-, ha⟩
      · exact absurd (hsame.symm ▸ ht') ht
      · rw [hid, ha]

def Setting.plain : Setting := ⟨fileClient (fun _ => 0), .granted⟩

theorem Setting.plain_granted : Setting.plain.Granted :=
  ⟨(fileClient_sized _).writeOk, Sys.granted_allocOk, rfl, rfl⟩

theorem engines_reply_alike_example :
    repliesFrom .small .hash (fun _ => .plain) 0 [.set (.lit "k") (.lit "v"), .del (.lit "k"), .get (.lit "k")]
        (.start .small) = some [ascii "+OK\r\n", ascii "+OK\r\n", ascii "$-1\r\n"] ∧
      repliesFrom .small .skiplist (fun _ => .plain) 0 [.set (.lit "k") (.lit "v"), .del (.lit "k"), .get (.lit "k")]
        (.start .small) = some [ascii "+OK\r\n", ascii "+OK\r\n", ascii "$-1\r\n"] := by
  have harray : repliesFrom .small .array (fun _ => .plain) 0
      [.set (.lit "k") (.lit "v"), .del (.lit "k"), .get (.lit "k")] (.start .small) =
        some [ascii "+OK\r\n", ascii "+OK\r\n", ascii "$-1\r\n"] := by decide +kernel
  rw [← harray]
  suffices hall : ∀ id, repliesFrom .small id (fun _ => .plain) 0
      [.set (.lit "k") (.lit "v"), .del (.lit "k"), .get (.lit "k")] (.start .small) =
        repliesFrom .small .array (fun _ => .plain) 0
          [.set (.lit "k") (.lit "v"), .del (.lit "k"), .get (.lit "k")] (.start .small) from
    ⟨hall .hash, hall .skiplist⟩
  refine (engines_reply_alike_iff .small _ ?_ ?_ (fun _ => .plain) (fun _ => Setting.plain_granted)
    (fun _ => .start .small) (fun _ => fresh_empty .small) ?_).mpr ?_
  · decide +kernel
  · intro o ho id
    simp only [List.mem_cons, List.not_mem_nil, or_false] at ho
    rcases ho with rfl | rfl | rfl <;> cases id <;> decide +kernel
  · rw [harray]
    rfl
  · refine ⟨by simp, ?_, by simp, trivial⟩
    rintro k h
    obtain rfl := MapOp.del.inj h
    decide +kernel

/-- One DEL of an absent key, and the hash table reports an error where the others say that there is none. -/
theorem hash_del_absent_replies_error :
    LiveBelow Params.small.arraySize FMap.empty [.del (.lit "k")] ∧
      repliesFrom .small .hash (fun _ => .plain) 0 [.del (.lit "k")] (.start .small) = some [ascii "-ERR message\r\n"] ∧
      ∀ id, id ≠ .hash →
        repliesFrom .small id (fun _ => .plain) 0 [.del (.lit "k")] (.start .small) = some [ascii "$-1\r\n"] := by
  refine ⟨by decide +kernel, by decide +kernel, ?_⟩
  intro id hid
  cases id with
  | hash => exact absurd rfl hid
  | array => decide +kernel
  | rbtree => decide +kernel
  | skiplist => decide +kernel

end Lidis
