import Lidis.ReplyRoom
import Lidis.SnapshotContent

namespace Lidis

open Engine Store

/-- The command reads a key or a value that the token list does not have: tokens[1] or tokens[2] is NULL. -/
def Lacks (ts : List CString) : Prop :=
  ∃ token args id verb, ts = token :: args ∧ commandOf token = some (.data id verb) ∧
    (args[0]? = none ∨ (verb = .set ∨ verb = .mod) ∧ args[1]? = none)

namespace Store

/-- The calls that change the engine and return 0, by what its own get and exist say before. -/
def ChangesBy (e : Engine Store) (s : Store) (full : Prop) : Op → Prop
  | .set k _ => e.get s (some k) = some none ∧ ¬ full
  | .del k => e.exist s (some k) = some 0
  | .mod k _ => e.exist s (some k) = some 0
  | .get _ => False
  | .exist _ => False

def Changes (P : Params) (s : Store) (id : EngineId) (o : Op) : Prop :=
  ChangesBy (engine P id) s (id = .array ∧ s.array.total = P.arraySize) o

section Refines

variable {e : Engine Store} {c : FMap.Contract} {R : Store → Map → Prop} {s : Store} {m : Map} {sys : Sys}

theorem call_of_refines (h : e.Refines c R) (hc : c.Sound) (hR : R s m) (ha : sys.AllocOk) {full : Prop}
    (hfull : c.capacity = some m.size ↔ full) (o : Op) :
    ∃ s' a, e.call s (o, sys) = some (s', a) ∧ (o.mutates = true ∧ a = .code 0 ↔ ChangesBy e s full o) := by
  obtain ⟨s', hs, -⟩ := h s m (o, sys) hR ha
  refine ⟨s', _, hs, ?_⟩
  cases o with
  | set k v =>
    simp only [ChangesBy, get_of_refines h hR, ← hfull, model, FMap.step, MapOp.mutates, true_and]
    split_ifs with hcap hsome
    · simp [hcap]
    · simp [Option.isSome_iff_ne_none.mp hsome]
    · simpa [hcap] using hsome
  | get k => simp [ChangesBy, MapOp.mutates]
  | del k =>
    simp only [ChangesBy, exist_of_refines h hR, model, FMap.step, MapOp.mutates, true_and]
    split_ifs
    · simp
    · simpa using hc.1
  | mod k v =>
    simp only [ChangesBy, exist_of_refines h hR, model, FMap.step, MapOp.mutates, true_and]
    split_ifs
    · simp
    · simpa using hc.2
  | exist k => simp [ChangesBy, MapOp.mutates]

end Refines

section Formed

variable {P : Params} {s : Store} {sys : Sys}

theorem tree_answers {l : List (CString × Option CString)} (h : Rbtree.Lists s.rbtree l) (ha : sys.AllocOk) (o : Op)
    {full : Prop} (hfull : ¬ full) :
    ∃ s' a, (engine P .rbtree).call s (o, sys) = some (s', a) ∧
      (o.mutates = true ∧ a = .code 0 ↔ ChangesBy (engine P .rbtree) s full o) := by
  rw [engine, within_call (fun _ => rfl)]
  cases o with
  | set k v =>
    have hget := Rbtree.get_lookup h k
    obtain ⟨T', n, -, hset, -⟩ := Rbtree.set_lists h ha k v
    have hcode : n = if (FMap.lookup k l).join = none then 0 else 1 := by
      simp only [Rbtree.kvsRbtreeSet, hget, bind, Option.bind] at hset
      cases hjoin : (FMap.lookup k l).join with
      | none =>
        rw [hjoin] at hset
        simp only [ha 0, ha 1, ha 2, not_true_eq_false, if_false] at hset
        split at hset
        · cases hset
        · exact (Prod.mk.inj (Option.some.inj hset)).2.symm
      | some w =>
        rw [hjoin] at hset
        exact (Prod.mk.inj (Option.some.inj hset)).2.symm
    refine ⟨{ s with rbtree := T' }, .code n, by simp only [call, Rbtree.engine, hset]; rfl, ?_⟩
    simp [ChangesBy, within, Rbtree.engine, hget, hcode, hfull, MapOp.mutates]
  | get k =>
    exact ⟨s, _, by simp only [call, Rbtree.engine, Rbtree.get_lookup h k]; rfl, by simp [ChangesBy, MapOp.mutates]⟩
  | del k =>
    rcases Rbtree.search_lists h k with ⟨hs, hk⟩ | ⟨z, l1, l2, hs, hz, he, ⟨T', y, hdel, -⟩, -⟩
    · refine ⟨s, .code 1, by simp [call, Rbtree.engine, Rbtree.kvsRbtreeDel, hs, codeOf], ?_⟩
      simp [ChangesBy, within, Rbtree.engine, Rbtree.kvsRbtreeExist, hs]
    · refine ⟨{ s with rbtree := T' }, .code 0, by simp [call, Rbtree.engine, Rbtree.kvsRbtreeDel, hs, hz, hdel, codeOf], ?_⟩
      simp [ChangesBy, within, Rbtree.engine, Rbtree.kvsRbtreeExist, hs, hz, MapOp.mutates]
  | mod k v =>
    rcases Rbtree.search_lists h k with ⟨hs, hk⟩ | ⟨z, l1, l2, hs, hz, he, -, -⟩
    · refine ⟨s, .code 1, by simp [call, Rbtree.engine, Rbtree.kvsRbtreeMod, hs, codeOf], ?_⟩
      simp [ChangesBy, within, Rbtree.engine, Rbtree.kvsRbtreeExist, hs]
    · refine ⟨{ s with rbtree := s.rbtree.setValue z (some v) }, .code 0,
        by simp [call, Rbtree.engine, Rbtree.kvsRbtreeMod, hs, hz, ha 0, codeOf], ?_⟩
      simp [ChangesBy, within, Rbtree.engine, Rbtree.kvsRbtreeExist, hs, hz, MapOp.mutates]
  | exist k =>
    exact ⟨s, _, by simp only [call, Rbtree.engine, Rbtree.exist_keys h k]; rfl, by simp [ChangesBy, MapOp.mutates]⟩

theorem Formed.answers (h : Formed P s) (ha : sys.AllocOk) (id : EngineId) (o : Op) :
    ∃ s' a, (engine P id).call s (o, sys) = some (s', a) ∧ (o.mutates = true ∧ a = .code 0 ↔ Changes P s id o) := by
  have hc := contract_sound P id
  cases id with
  | array =>
    obtain ⟨m, hm⟩ := h.array
    have hr : (engine P .array).Refines (KvsArray.contract P) (fun s m => KvsArray.Stands P s.array m) :=
      Refines.within Store.array (fun s a => { s with array := a }) (KvsArray.engine_refines P) (fun _ => rfl)
        (fun _ _ h => h) (fun _ _ _ _ _ h => h)
    apply call_of_refines hr hc hm ha
    have hsize := (KvsArray.size_stands hm).1
    simp [KvsArray.contract, hsize, eq_comm]
  | rbtree =>
    obtain ⟨l, hl⟩ := h.rbtree
    exact tree_answers hl ha o (by simp)
  | hash =>
    obtain ⟨m, hm⟩ := h.hash
    have hr : (engine P .hash).Refines KvsHash.contract (fun s m => KvsHash.Stands P s.hash m) :=
      Refines.within Store.hash (fun s t => { s with hash := t }) (KvsHash.engine_refines P) (fun _ => rfl)
        (fun _ _ h => h) (fun _ _ _ _ _ h => h)
    apply call_of_refines hr hc hm ha
    simp [KvsHash.contract]
  | skiplist =>
    obtain ⟨m, hm⟩ := h.skiplist
    have hr : (engine P .skiplist).Refines .plain (fun s m => Skiplist.Stands s.skiplist m) :=
      Refines.within Store.skiplist (fun s t => { s with skiplist := t }) Skiplist.engine_refines (fun _ => rfl)
        (fun _ _ h => h) (fun _ _ _ _ _ h => h)
    apply call_of_refines hr hc hm ha
    simp [FMap.Contract.plain]

end Formed

end Store

/-- kvs_hash_mod alone looks for the key before it looks at the value. -/
def NullValue (P : Params) (s : Store) (ts : List CString) : Prop :=
  ∃ token key, ts = [token, key] ∧ commandOf token = some (.data .hash .mod) ∧ (engine P .hash).exist s (some key) = some 0

theorem hash_exist_iff (P : Params) (H : KvsHash) (key : CString) :
    KvsHash.kvsHashExist P H (some key) = some 0 ↔ (H.nodes (KvsHash.hash P key)).any (KvsHash.isNode key) = true := by
  simp only [KvsHash.kvsHashExist, KvsHash.kvsHashGet, bind, Option.bind]
  rw [List.any_eq_true, ← List.find?_isSome]
  cases (H.nodes (KvsHash.hash P key)).find? (KvsHash.isNode key) <;> simp

section Missing

variable {P : Params} {s : Store} {sys : Sys}

theorem runVerb_no_key (id : EngineId) (verb : Verb) (value : Option CString) :
    ∃ reply, runVerb (engine P id) verb none value s sys = some (s, reply, false) ∧ (reply = .error ∨ reply = .noExist) := by
  cases id <;> cases verb <;> exact ⟨_, rfl, by simp⟩

theorem runVerb_no_value {id : EngineId} {verb : Verb} (hverb : verb = .set ∨ verb = .mod) (key : CString)
    (h : id = .hash → verb = .mod → (engine P .hash).exist s (some key) ≠ some 0) :
    ∃ reply, runVerb (engine P id) verb (some key) none s sys = some (s, reply, false) ∧
      (reply = .error ∨ reply = .noExist) := by
  rcases hverb with rfl | rfl
  · cases id <;> exact ⟨_, rfl, by simp⟩
  · cases id with
    | hash =>
      have habsent : ¬ (s.hash.nodes (KvsHash.hash P key)).any (KvsHash.isNode key) = true :=
        fun hany => h rfl rfl ((hash_exist_iff P s.hash key).mpr hany)
      refine ⟨.noExist, ?_, .inr rfl⟩
      simp only [runVerb, engine, within, KvsHash.engine, KvsHash.kvsHashMod]
      rw [if_neg habsent]
      rfl
    | _ => exact ⟨_, rfl, by simp⟩

theorem hash_mod_null {key : CString} (h : (engine P .hash).exist s (some key) = some 0) :
    runVerb (engine P .hash) .mod (some key) none s sys = none := by
  have hany := (hash_exist_iff P s.hash key).mp h
  simp only [runVerb, engine, within, KvsHash.engine, KvsHash.kvsHashMod]
  rw [if_pos hany]
  rfl

end Missing

section Run

variable {P : Params} {token : CString} {args : List CString} {g : Global} {env : Env}

theorem requestOf_data {id : EngineId} {verb : Verb} (args : List CString) (h : commandOf token = some (.data id verb)) :
    (∃ o, requestOf (token :: args) = some (id, o)) ∧
        ¬ (args[0]? = none ∨ (verb = .set ∨ verb = .mod) ∧ args[1]? = none) ∨
      requestOf (token :: args) = none ∧ (args[0]? = none ∨ (verb = .set ∨ verb = .mod) ∧ args[1]? = none) := by
  rcases args with _ | ⟨key, _ | ⟨value, rest⟩⟩
  · right
    simp [requestOf, h]
  · cases verb <;> simp [requestOf, h]
  · left
    cases verb <;> simp [requestOf, h]

theorem requestOf_other (h : ∀ id verb, commandOf token ≠ some (.data id verb)) : requestOf (token :: args) = none := by
  simp only [requestOf]
  split <;> first | rfl | exact absurd ‹_› (h _ _)

theorem lacks_iff {id : EngineId} {verb : Verb} (h : commandOf token = some (.data id verb)) :
    Lacks (token :: args) ↔ args[0]? = none ∨ (verb = .set ∨ verb = .mod) ∧ args[1]? = none := by
  constructor
  · rintro ⟨token', args', id', verb', he, hcmd, hmiss⟩
    obtain ⟨rfl, rfl⟩ := List.cons.inj he
    obtain ⟨rfl, rfl⟩ := Command.data.inj (Option.some.inj (h.symm.trans hcmd))
    exact hmiss
  · intro hmiss
    exact ⟨token, args, id, verb, rfl, h, hmiss⟩

def Logs (g : Global) : Prop :=
  g.recovering = false ∧ g.config.enableLog = true ∧ g.log.fdLog = true ∧ g.log.ringLogInited = true

theorem kvsLogWrite_iff {ts : List CString} (hts : ts ≠ []) (enableLog : Bool) (log : LogState) (lenv : LogEnv) :
    (∃ r, kvsLogWrite enableLog ts log lenv = some r) ↔
      (enableLog = true → log.fdLog = true → log.ringLogInited = true → Kvsp.kvsBuildKvspFrame ts lenv.frame ≠ none) := by
  cases href : log.refusal enableLog ts with
  | some code =>
    refine iff_of_true ⟨_, kvsLogWrite_refused lenv href⟩ ?_
    intro hlog hfd hring
    rw [refusal_none_iff.mpr ⟨hlog, hts, hfd, hring⟩] at href
    cases href
  | none =>
    obtain ⟨hlog, -, hfd, hring⟩ := refusal_none_iff.mp href
    rw [kvsLogWrite_built lenv href]
    cases Kvsp.kvsBuildKvspFrame ts lenv.frame <;> simp [hlog, hfd, hring]

theorem logCommand_iff {ts : List CString} (hts : ts ≠ []) (wrote : Bool) (g : Global) (env : Env) :
    (∃ g', logCommand ts wrote g env = some g') ↔
      (wrote = true → Logs g → Kvsp.kvsBuildKvspFrame ts env.log.frame ≠ none) := by
  rw [logCommand]
  by_cases hwrote : wrote = true ∧ ¬ g.recovering = true
  · have hrec : g.recovering = false := by simpa using hwrote.2
    have hlog := kvsLogWrite_iff hts g.config.enableLog g.log env.log
    rw [if_pos hwrote]
    simp only [Logs, hrec, hwrote.1, true_and, forall_const, and_imp]
    rw [← hlog]
    constructor
    · rintro ⟨g', hg⟩
      obtain ⟨r, hr, -⟩ := Option.bind_eq_some_iff.mp hg
      exact ⟨r, hr⟩
    · rintro ⟨r, hr⟩
      exact ⟨_, by rw [hr]; rfl⟩
  · rw [if_neg hwrote]
    refine iff_of_true ⟨g, rfl⟩ ?_
    rintro hw ⟨hrec, -⟩
    exact absurd ⟨hw, by simp [hrec]⟩ hwrote

theorem runCommand_globals {token : CString} {key value : Option CString} {g₁ : Global} {r : Reply × Bool}
    (h : runCommand P token key value g env = some (g₁, r)) :
    g₁.config = g.config ∧ g₁.log = g.log ∧ g₁.recovering = g.recovering := by
  rw [runCommand] at h
  split at h
  · obtain ⟨q, -, he⟩ := Option.map_eq_some_iff.mp h
    rw [← (Prod.mk.inj he).1]
    exact ⟨rfl, rfl, rfl⟩
  all_goals
    rw [← (Prod.mk.inj (Option.some.inj h)).1]
    exact ⟨rfl, rfl, rfl⟩

/-- What is asked of the reply before the command runs: an unknown name is quoted, a value found is sent. -/
structure Room (P : Params) (ts : List CString) (s : Store) (cap block pos : ℕ) : Prop where
  unknown : ∀ token args, ts = token :: args → commandOf token = none → (Reply.none token).Needs cap block pos
  found : ∀ id key result, requestOf ts = some (id, .get key) → (engine P id).get s (some key) = some (some result) →
    (Reply.value result).Needs cap block pos

/-- A command that runs to its end: its reply, whether it is to be logged, and nothing done where an argument is missing. -/
structure Ran (P : Params) (ts : List CString) (s : Store) (g₁ : Global) (reply : Reply) (wrote : Bool) : Prop where
  needs : ∀ cap block pos, reply.Needs cap block pos ↔ Room P ts s cap block pos
  wrote : wrote = true ↔ ∃ id o, requestOf ts = some (id, o) ∧ Changes P s id o
  lacking : Lacks ts → g₁.store = s ∧ (reply = .error ∨ reply = .noExist)

theorem request_data {id : EngineId} {o : Op} (h : requestOf (token :: args) = some (id, o)) :
    ∃ verb, commandOf token = some (.data id verb) := by
  by_cases hdata : ∃ id' verb, commandOf token = some (.data id' verb)
  · obtain ⟨id', verb, hcmd⟩ := hdata
    rcases requestOf_data args hcmd with ⟨⟨o', ho⟩, -⟩ | ⟨hnone, -⟩
    · obtain ⟨rfl, -⟩ := Prod.mk.inj (Option.some.inj (ho.symm.trans h))
      exact ⟨verb, hcmd⟩
    · rw [hnone] at h
      cases h
  · push Not at hdata
    rw [requestOf_other hdata] at h
    cases h

theorem request_not_lacks {r : EngineId × Op} (h : requestOf (token :: args) = some r) : ¬ Lacks (token :: args) := by
  obtain ⟨verb, hcmd⟩ := request_data h
  rw [lacks_iff hcmd]
  rcases requestOf_data args hcmd with ⟨-, hfull⟩ | ⟨hnone, -⟩
  · exact hfull
  · rw [hnone] at h
    cases h

theorem replyTo_short {o : Op} {a : Answer} (h : ∀ k v, o = .get k → a ≠ .value (some v)) (cap block pos : ℕ) :
    (replyTo o a).1.Needs cap block pos := by
  have hof : ∀ other n, (other = .exist ∨ other = .noExist) → (replyOf other n).1.Needs cap block pos := by
    intro other n hother
    rcases replyOf_cases other n with he | he | he
    · rw [he]; trivial
    · rw [he]; trivial
    · rw [he]
      rcases hother with rfl | rfl <;> trivial
  cases o with
  | get k =>
    cases a with
    | code n => trivial
    | value v =>
      cases v with
      | none => trivial
      | some v => exact absurd rfl (h k v rfl)
  | set k v => cases a <;> first | trivial | exact hof _ _ (.inl rfl)
  | del k => cases a <;> first | trivial | exact hof _ _ (.inr rfl)
  | mod k v => cases a <;> first | trivial | exact hof _ _ (.inr rfl)
  | exist k =>
    cases a with
    | value v => trivial
    | code n =>
      simp only [replyTo]
      split_ifs <;> trivial

theorem room_request {id : EngineId} {o : Op} {s : Store} {cap block pos : ℕ}
    (hreq : requestOf (token :: args) = some (id, o)) :
    Room P (token :: args) s cap block pos ↔ ∀ key result, o = .get key →
      (engine P id).get s (some key) = some (some result) → (Reply.value result).Needs cap block pos := by
  obtain ⟨verb, hcmd⟩ := request_data hreq
  constructor
  · rintro hroom key result rfl hget
    exact hroom.found id key result hreq hget
  · intro h
    refine ⟨?_, ?_⟩
    · intro token' args' he hnone
      obtain ⟨rfl, rfl⟩ := List.cons.inj he
      rw [hcmd] at hnone
      cases hnone
    · intro id' key result hreq' hget
      obtain ⟨rfl, rfl⟩ := Prod.mk.inj (Option.some.inj (hreq.symm.trans hreq'))
      exact h key result rfl hget

theorem ran_request {id : EngineId} {o : Op} (hreq : requestOf (token :: args) = some (id, o)) (hs : Formed P g.store)
    (ha : env.sys.AllocOk) :
    ∃ g₁ reply wrote, runCommand P token args[0]? args[1]? g env = some (g₁, reply, wrote) ∧
      Ran P (token :: args) g.store g₁ reply wrote := by
  obtain ⟨s', a, hcall, hchanges⟩ := hs.answers ha id o
  have hvalue : ∀ key, o = .get key → ∀ v, (engine P id).get g.store (some key) = some v → a = .value v := by
    rintro key rfl v hget
    obtain ⟨v', hv', he⟩ := Option.map_eq_some_iff.mp hcall
    rw [← (Prod.mk.inj he).2, Option.some.inj (hv'.symm.trans hget)]
  refine ⟨{ g with store := s' }, (replyTo o a).1, (replyTo o a).2, ?_, ?_, ?_, ?_⟩
  · rw [runCommand_request P g env hreq, hcall]
    rfl
  · intro cap block pos
    rw [room_request hreq]
    constructor
    · rintro hneeds key result rfl hget
      rw [hvalue key rfl _ hget] at hneeds
      exact hneeds
    · intro h
      by_cases hval : ∃ key v, o = .get key ∧ a = .value (some v)
      · obtain ⟨key, v, rfl, rfl⟩ := hval
        obtain ⟨v', hget, he⟩ := Option.map_eq_some_iff.mp hcall
        rw [MapAnswer.value.inj (Prod.mk.inj he).2] at hget
        exact h key v rfl hget
      · push Not at hval
        exact replyTo_short hval cap block pos
  · rw [wrote_iff, hchanges]
    constructor
    · intro hc
      exact ⟨id, o, hreq, hc⟩
    · rintro ⟨id', o', hreq', hc⟩
      obtain ⟨rfl, rfl⟩ := Prod.mk.inj (Option.some.inj (hreq.symm.trans hreq'))
      exact hc
  · intro hlacks
    exact absurd hlacks (request_not_lacks hreq)

theorem room_none {s : Store} {cap block pos : ℕ} (hreq : requestOf (token :: args) = none) :
    Room P (token :: args) s cap block pos ↔ (commandOf token = none → (Reply.none token).Needs cap block pos) := by
  constructor
  · intro hroom
    exact hroom.unknown token args rfl
  · intro h
    refine ⟨?_, ?_⟩
    · intro token' args' he hnone
      obtain ⟨rfl, rfl⟩ := List.cons.inj he
      exact h hnone
    · intro id key result hreq'
      rw [hreq] at hreq'
      cases hreq'

theorem ran_none {g₁ : Global} {reply : Reply} (hreq : requestOf (token :: args) = none)
    (hneeds : ∀ cap block pos, reply.Needs cap block pos ↔
      (commandOf token = none → (Reply.none token).Needs cap block pos))
    (hlacking : Lacks (token :: args) → g₁.store = g.store ∧ (reply = .error ∨ reply = .noExist)) :
    Ran P (token :: args) g.store g₁ reply false := by
  refine ⟨?_, ?_, hlacking⟩
  · intro cap block pos
    rw [room_none hreq]
    exact hneeds cap block pos
  · simp [hreq]

theorem ran_lacking {id : EngineId} {verb : Verb} (hcmd : commandOf token = some (.data id verb))
    (hreq : requestOf (token :: args) = none)
    (hmiss : args[0]? = none ∨ (verb = .set ∨ verb = .mod) ∧ args[1]? = none)
    (hnull : ¬ NullValue P g.store (token :: args)) :
    ∃ g₁ reply wrote, runCommand P token args[0]? args[1]? g env = some (g₁, reply, wrote) ∧
      Ran P (token :: args) g.store g₁ reply wrote := by
  have hverb : ∃ reply, runVerb (engine P id) verb args[0]? args[1]? g.store env.sys = some (g.store, reply, false) ∧
      (reply = .error ∨ reply = .noExist) := by
    rcases args with _ | ⟨key, _ | ⟨value, rest⟩⟩
    · exact runVerb_no_key id verb _
    · have hverb : verb = .set ∨ verb = .mod := by simpa using hmiss
      apply runVerb_no_value hverb key
      rintro rfl rfl hkey
      exact hnull ⟨token, key, rfl, hcmd, hkey⟩
    · simp at hmiss
  obtain ⟨reply, hrun, hreply⟩ := hverb
  refine ⟨g, reply, false, by simp only [runCommand, hcmd, hrun]; rfl, ran_none hreq ?_ (fun _ => ⟨rfl, hreply⟩)⟩
  intro cap block pos
  refine iff_of_true ?_ (by simp [hcmd])
  rcases hreply with rfl | rfl <;> trivial

theorem ran_other (hdata : ∀ id verb, commandOf token ≠ some (.data id verb)) (hsync : commandOf token ≠ some .sync) :
    ∃ g₁ reply wrote, runCommand P token args[0]? args[1]? g env = some (g₁, reply, wrote) ∧
      Ran P (token :: args) g.store g₁ reply wrote := by
  have hreq : requestOf (token :: args) = none := requestOf_other hdata
  have hlacks : ¬ Lacks (token :: args) := by
    rintro ⟨token', args', id, verb, he, hcmd, -⟩
    obtain ⟨rfl, rfl⟩ := List.cons.inj he
    exact hdata id verb hcmd
  cases hcmd : commandOf token with
  | none =>
    exact ⟨g, .none token, false, by simp only [runCommand, hcmd], ran_none hreq (by simp [hcmd]) (fun h => absurd h hlacks)⟩
  | some cmd =>
    have hshort : ∀ reply : Reply, (∀ cap block pos, reply.Needs cap block pos) → ∀ cap block pos,
        (reply.Needs cap block pos ↔ (commandOf token = none → (Reply.none token).Needs cap block pos)) := by
      intro reply h cap block pos
      exact iff_of_true (h cap block pos) (by simp [hcmd])
    cases cmd with
    | data id verb => exact absurd hcmd (hdata id verb)
    | sync => exact absurd hcmd hsync
    | save =>
      refine ⟨_, _, false, by simp only [runCommand, hcmd]; rfl, ran_none hreq (hshort _ ?_) (fun h => absurd h hlacks)⟩
      intro cap block pos
      split_ifs <;> trivial
    | fullsyncFinished =>
      exact ⟨g, .silent 0, false, by simp only [runCommand, hcmd],
        ran_none hreq (hshort _ (fun _ _ _ => trivial)) (fun h => absurd h hlacks)⟩
    | command =>
      exact ⟨g, .command, false, by simp only [runCommand, hcmd],
        ran_none hreq (hshort _ (fun _ _ _ => trivial)) (fun h => absurd h hlacks)⟩

theorem runCommand_ran (hs : Formed P g.store) (ha : env.sys.AllocOk) (hsync : commandOf token ≠ some .sync)
    (hnull : ¬ NullValue P g.store (token :: args)) :
    ∃ g₁ reply wrote, runCommand P token args[0]? args[1]? g env = some (g₁, reply, wrote) ∧
      Ran P (token :: args) g.store g₁ reply wrote := by
  by_cases hdata : ∃ id verb, commandOf token = some (.data id verb)
  · obtain ⟨id, verb, hcmd⟩ := hdata
    rcases requestOf_data args hcmd with ⟨⟨o, hreq⟩, -⟩ | ⟨hreq, hmiss⟩
    · exact ran_request hreq hs ha
    · exact ran_lacking hcmd hreq hmiss hnull
  · push Not at hdata
    exact ran_other hdata hsync

theorem runCommand_silent_zero {key value : Option CString} {g₁ : Global} {l : ℤ} {wrote : Bool}
    (hsync : commandOf token ≠ some .sync) (h : runCommand P token key value g env = some (g₁, .silent l, wrote)) :
    l = 0 := by
  rcases runCommand_reply h with ⟨-, hr⟩ | ⟨hcmd, -⟩ | ⟨-, hr⟩ | ⟨-, -, -, hr, -⟩
  · cases hr
  · exact absurd hcmd hsync
  · exact Reply.silent.inj hr
  · exact absurd rfl (hr l)

theorem runCommand_null (hnull : NullValue P g.store (token :: args)) :
    runCommand P token args[0]? args[1]? g env = none := by
  obtain ⟨token', key, he, hcmd, hkey⟩ := hnull
  obtain ⟨rfl, rfl⟩ := List.cons.inj he
  simp only [runCommand, hcmd, List.getElem?_cons_zero]
  rw [show ([key] : List CString)[1]? = none from rfl, hash_mod_null hkey]
  rfl

theorem filter_null {cli mid : Client} (hres : reserveReply cli env = some (some mid))
    (hnull : NullValue P g.store (token :: args)) : kvsFilterProtocol P (token :: args) cli g env = none := by
  have hrun : runCommand P token args[0]? args[1]? { g with executed := g.executed ++ [token :: args] } env = none :=
    runCommand_null hnull
  simp only [kvsFilterProtocol, hres, hrun, bind, Option.bind]

end Run

/-- No string function gets a NULL, a reply length comes back, and where an argument is missing nothing is stored and the
reply is an error or "not found". -/
def Harmless (P : Params) (ts : List CString) (cli : Client) (g : Global) (env : Env) : Prop :=
  ∃ length cli' g', kvsFilterProtocol P ts cli g env = some (length, cli', g') ∧ 0 ≤ length ∧
    (Lacks ts → g'.store = g.store ∧ ∃ reply : Reply, (reply = .error ∨ reply = .noExist) ∧
      length = reply.text.length ∧ cli.Extends cli' reply.text ∧ cli'.WriteOk)

/-- What the command finds before it runs: HMOD without a value does not meet its key, the reply has room, and a change
that is to be logged makes a frame whose size is an `int`. -/
structure Answerable (P : Params) (ts : List CString) (cli : Client) (g : Global) (env : Env) : Prop where
  value : ¬ NullValue P g.store ts
  doubles : cli.wCap - cli.wPos < 32 → cli.wCap * 2 ≤ intMax
  room : Room P ts g.store cli.reservedCap cli.replyRoom cli.wPos
  framed : ∀ id o, requestOf ts = some (id, o) → Changes P g.store id o → Logs g →
    Kvsp.kvsBuildKvspFrame ts env.log.frame ≠ none

/-- Any command but SYNC, on engines that any calls made and a client whose write buffer server_reader keeps. -/
theorem short_arguments_iff (P : Params) (ts : List CString) (cli : Client) (g : Global) (env : Env)
    (hs : Store.Reachable P g.store) (hts : 1 ≤ ts.length ∧ ts.length ≤ maxTokens)
    (hsync : ∀ token ∈ ts.head?, commandOf token ≠ some .sync) (henv : env.Granted) (hw : cli.WriteOk)
    (hcap : 32 ≤ cli.wCap ∧ cli.wCap ≤ intMax) :
    Harmless P ts cli g env ↔ Answerable P ts cli g env := by
  rcases ts with _ | ⟨token, args⟩
  · simp at hts
  have hsync' : commandOf token ≠ some .sync := hsync token rfl
  by_cases hnull : NullValue P g.store (token :: args)
  · constructor
    · rintro ⟨length, cli', g', hf, hl, -⟩
      obtain ⟨token', args', -, g₁, reply, wrote, he, -, hrun, -⟩ := filter_cases hf hl
      obtain ⟨rfl, rfl⟩ := List.cons.inj he
      rw [runCommand_null (g := { g with executed := g.executed ++ [token :: args] }) hnull] at hrun
      cases hrun
    · intro h
      exact absurd hnull h.value
  obtain ⟨g₁, reply, wrote, hrun, hran⟩ := runCommand_ran (g := { g with executed := g.executed ++ [token :: args] })
    hs.formed henv.sys hsync' hnull
  have htakes : _ ↔ cli.Takes reply := takes_iff hw hcap.1 henv.reserve henv.grow (fun _ _ => .inr hcap.2)
  obtain ⟨hconfig, hlogState, hrec⟩ := runCommand_globals hrun
  have hlogs : Logs g₁ ↔ Logs g := by rw [Logs, Logs, hconfig, hlogState, hrec]
  have hlog := logCommand_iff (List.cons_ne_nil token args) wrote g₁ env
  rw [hran.wrote, hlogs] at hlog
  constructor
  · rintro ⟨length, cli', g', hf, hl, -⟩
    obtain ⟨token', args', mid, g₂, reply', wrote', he, hmid, hrun', hwrite, hlog'⟩ := filter_cases hf hl
    obtain ⟨rfl, rfl⟩ := List.cons.inj he
    obtain ⟨rfl, he⟩ := Prod.mk.inj (Option.some.inj (hrun.symm.trans hrun'))
    obtain ⟨rfl, rfl⟩ := Prod.mk.inj he
    obtain ⟨hdoubles, hneeds⟩ := htakes.mp ⟨mid, _, hmid, hwrite⟩
    exact ⟨hnull, hdoubles, (hran.needs _ _ _).mp hneeds, fun id o hreq hc => hlog.mp ⟨g', hlog'⟩ ⟨id, o, hreq, hc⟩⟩
  · intro h
    obtain ⟨mid, ⟨length, cli'⟩, hmid, hwrite⟩ := htakes.mpr ⟨h.doubles, (hran.needs _ _ _).mpr h.room⟩
    obtain ⟨g', hlog'⟩ := hlog.mpr (by
      rintro ⟨id, o, hreq, hc⟩
      exact h.framed id o hreq hc)
    have heffect : effect P (token :: args) g env = some (g', reply) := by simp [effect, hrun, hlog']
    have hf := filter_written hmid heffect hwrite
    have hl : 0 ≤ length := writeReply_nonneg (fun l hl => (runCommand_silent_zero hsync' (hl ▸ hrun)).ge) hwrite
    refine ⟨length, cli', g', hf, hl, ?_⟩
    intro hlacks
    obtain ⟨hstore, hreply⟩ := hran.lacking hlacks
    obtain ⟨reply', heffect', hlen, hext, hok⟩ := filter_returns hw.toFits hf hl
    obtain ⟨-, rfl⟩ := Prod.mk.inj (Option.some.inj (heffect.symm.trans heffect'))
    exact ⟨(logCommand_store hlog').trans hstore, reply, hreply, hlen, hext, hok hw henv.reserve henv.grow⟩

theorem short_arguments_iff_set :
    Harmless .small [.lit "SET", .lit "k"] clientInfoInit (.start .small) .granted := by
  have hreq : requestOf [.lit "SET", .lit "k"] = none := by decide +kernel
  have hset : commandOf (.lit "SET") = some (.data .array .set) := by decide +kernel
  apply (short_arguments_iff .small [.lit "SET", .lit "k"] clientInfoInit (.start .small) .granted (.empty (fresh_empty _))
    (by decide) (by simp [hset]) ⟨Sys.granted_allocOk, rfl, rfl⟩ clientInfoInit_writeOk (by decide)).mpr
  refine ⟨?_, ?_, ?_, ?_⟩
  · rintro ⟨token, key, he, hcmd, -⟩
    obtain ⟨rfl, -⟩ := List.cons.inj he
    rw [hset] at hcmd
    cases hcmd
  · intro hshort
    exact absurd hshort (by decide)
  · rw [room_none hreq, hset]
    simp
  · intro id o hreq'
    rw [hreq] at hreq'
    cases hreq'

/-- HSET k v and then HMOD k: kvs_hash_mod finds the key and takes the length of a value that is NULL. -/
theorem hmod_without_value_crashes :
    (engine .small .hash).call (fresh .small) (.set (.lit "k") (.lit "v"), .granted) = some (hashed, .code 0) ∧
      Store.Reachable .small hashed ∧ Lacks [.lit "HMOD", .lit "k"] ∧
      kvsFilterProtocol .small [.lit "HMOD", .lit "k"] clientInfoInit { Global.start .small with store := hashed }
        .granted = none ∧
      ¬ Harmless .small [.lit "HMOD", .lit "k"] clientInfoInit { Global.start .small with store := hashed } .granted := by
  have hcmd : commandOf (.lit "HMOD") = some (.data .hash .mod) := by decide +kernel
  have hnull : NullValue .small hashed [.lit "HMOD", .lit "k"] := ⟨_, _, rfl, hcmd, by decide +kernel⟩
  have hnone : kvsFilterProtocol .small [.lit "HMOD", .lit "k"] clientInfoInit
      { Global.start .small with store := hashed } .granted = none :=
    filter_null (if_neg (by decide)) hnull
  refine ⟨hashed_call, hashed_reachable, ⟨_, _, _, _, rfl, hcmd, by simp⟩, hnone, ?_⟩
  rintro ⟨length, cli', g', hf, -⟩
  rw [hnone] at hf
  cases hf

end Lidis
