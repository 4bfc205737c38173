import Lidis.Dispatch

namespace Lidis

open Engine Store

def requestOf (tokens : List CString) : Option (EngineId × Op) :=
  match tokens with
  | [] => none
  | token :: args =>
    match commandOf token, args with
    | some (.data id .set), key :: value :: _ => some (id, .set key value)
    | some (.data id .get), key :: _ => some (id, .get key)
    | some (.data id .del), key :: _ => some (id, .del key)
    | some (.data id .mod), key :: value :: _ => some (id, .mod key value)
    | some (.data id .exist), key :: _ => some (id, .exist key)
    | _, _ => none

def replyTo (o : Op) (a : Answer) : Reply × Bool :=
  match o, a with
  | .set _ _, .code n => replyOf .exist n
  | .del _, .code n => replyOf .noExist n
  | .mod _ _, .code n => replyOf .noExist n
  | .exist _, .code n => (if n = 0 then .exist else .noExist, false)
  | .get _, .value (some v) => (.value v, false)
  | _, _ => (.noExist, false)

theorem runCommand_request (P : Params) {token : CString} {args : List CString} {id : EngineId} {o : Op} (g : Global)
    (env : Env) (h : requestOf (token :: args) = some (id, o)) :
    runCommand P token args[0]? args[1]? g env =
      ((engine P id).call g.store (o, env.sys)).map (fun r => ({ g with store := r.1 }, replyTo o r.2)) := by
  simp only [requestOf] at h
  split at h
  · next hcmd =>
    obtain ⟨rfl, rfl⟩ := Prod.mk.inj (Option.some.inj h)
    simp only [runCommand, hcmd, runVerb, call, List.getElem?_cons_zero, List.getElem?_cons_succ, Option.map_map]
    rfl
  · next hcmd =>
    obtain ⟨rfl, rfl⟩ := Prod.mk.inj (Option.some.inj h)
    simp only [runCommand, hcmd, runVerb, call, List.getElem?_cons_zero, Option.map_map]
    congr 1
    funext v
    cases v <;> rfl
  · next hcmd =>
    obtain ⟨rfl, rfl⟩ := Prod.mk.inj (Option.some.inj h)
    simp only [runCommand, hcmd, runVerb, call, List.getElem?_cons_zero, Option.map_map]
    rfl
  · next hcmd =>
    obtain ⟨rfl, rfl⟩ := Prod.mk.inj (Option.some.inj h)
    simp only [runCommand, hcmd, runVerb, call, List.getElem?_cons_zero, List.getElem?_cons_succ, Option.map_map]
    rfl
  · next hcmd =>
    obtain ⟨rfl, rfl⟩ := Prod.mk.inj (Option.some.inj h)
    simp only [runCommand, hcmd, runVerb, call, List.getElem?_cons_zero, Option.map_map]
    rfl
  · simp at h

theorem mutates_reply {o : Op} (h : o.mutates = true) (a : Answer) :
    (replyTo o a).1 = .ok ∨ (replyTo o a).1 = .error ∨ (replyTo o a).1 = .exist ∨ (replyTo o a).1 = .noExist := by
  have hof : ∀ other n, (replyOf other n).1 = .ok ∨ (replyOf other n).1 = .error ∨ (replyOf other n).1 = other := by
    intro other n
    rw [replyOf]
    split_ifs <;> simp
  cases o with
  | set k v =>
    cases a with
    | code n => have := hof .exist n; simp only [replyTo]; tauto
    | value v => simp [replyTo]
  | get k => cases h
  | del k =>
    cases a with
    | code n => have := hof .noExist n; simp only [replyTo]; tauto
    | value v => simp [replyTo]
  | mod k v =>
    cases a with
    | code n => have := hof .noExist n; simp only [replyTo]; tauto
    | value v => simp [replyTo]
  | exist k => cases h

theorem wrote_iff (o : Op) (a : Answer) : (replyTo o a).2 = true ↔ o.mutates = true ∧ a = .code 0 := by
  have hof : ∀ other n, (replyOf other n).2 = true ↔ n = 0 := by
    intro other n
    rw [replyOf]
    split_ifs with h1 h2
    · simp; omega
    · simpa using h2
    · simpa using h2
  cases o <;> cases a <;> simp [replyTo, MapOp.mutates, hof]
  next v => cases v <;> simp

namespace Store

def Maps.step (P : Params) (m : Maps) (r : EngineId × Op) : Maps :=
  Function.update m r.1 ((m r.1).apply (contract P r.1) r.2)

def Maps.replay (P : Params) (m : Maps) (rs : List (EngineId × Op)) : Maps := rs.foldl (Maps.step P) m

def opsOf (id : EngineId) (rs : List (EngineId × Op)) : List Op :=
  rs.filterMap (fun r => if r.1 = id then some r.2 else none)

theorem opsOf_append (id : EngineId) (rs qs : List (EngineId × Op)) : opsOf id (rs ++ qs) = opsOf id rs ++ opsOf id qs :=
  List.filterMap_append

theorem Maps.replay_at (P : Params) (m : Maps) (rs : List (EngineId × Op)) (id : EngineId) :
    m.replay P rs id = (m id).replay (contract P id) (opsOf id rs) := by
  induction rs generalizing m with
  | nil => rfl
  | cons r rs ih =>
    rw [Maps.replay, List.foldl_cons, ← Maps.replay, ih]
    by_cases h : r.1 = id
    · subst h
      simp [opsOf, Maps.step]
    · simp [opsOf, Maps.step, h, Ne.symm h]

def Maps.AcceptsAll (P : Params) : Maps → List (EngineId × Op) → Prop
  | _, [] => True
  | m, r :: rs => FMap.Accepts (contract P r.1) (m r.1) r.2 ∧ Maps.AcceptsAll P (m.step P r) rs

theorem Maps.acceptsAll_iff (P : Params) (m : Maps) (rs : List (EngineId × Op)) :
    m.AcceptsAll P rs ↔ ∀ id, FMap.AcceptsAll (contract P id) (m id) (opsOf id rs) := by
  induction rs generalizing m with
  | nil => simp [Maps.AcceptsAll, opsOf, FMap.AcceptsAll]
  | cons r rs ih =>
    have hself : opsOf r.1 (r :: rs) = r.2 :: opsOf r.1 rs := by simp [opsOf]
    have hother : ∀ id, id ≠ r.1 → opsOf id (r :: rs) = opsOf id rs := fun id h => by simp [opsOf, Ne.symm h]
    have hstep : m.step P r r.1 = (m r.1).apply (contract P r.1) r.2 := by simp [Maps.step]
    rw [Maps.AcceptsAll, ih]
    constructor
    · rintro ⟨hr, hrest⟩ id
      by_cases h : id = r.1
      · subst h
        rw [hself]
        exact ⟨hr, hstep ▸ hrest r.1⟩
      · rw [hother id h]
        have := hrest id
        rwa [Maps.step, Function.update_of_ne h] at this
    · intro h
      have hr := h r.1
      rw [hself] at hr
      refine ⟨hr.1, fun id => ?_⟩
      by_cases hid : id = r.1
      · subst hid
        rw [hstep]
        exact hr.2
      · have := h id
        rw [hother id hid] at this
        rwa [Maps.step, Function.update_of_ne hid]

theorem Maps.acceptsAll_append (P : Params) (m : Maps) (rs qs : List (EngineId × Op)) :
    m.AcceptsAll P (rs ++ qs) ↔ m.AcceptsAll P rs ∧ (m.replay P rs).AcceptsAll P qs := by
  induction rs generalizing m with
  | nil => simp [Maps.AcceptsAll, Maps.replay]
  | cons r rs ih => simp [Maps.AcceptsAll, Maps.replay, ih, and_assoc]

theorem Holds.at_self {P : Params} {s : Store} {m : Maps} (h : Holds P s m) (id : EngineId) : HoldsAt P m id s (m id) := by
  rw [HoldsAt, Function.update_eq_self]
  exact h

theorem call_granted {P : Params} {s : Store} {m : Maps} (h : Holds P s m) (id : EngineId) (o : Op) {sys : Sys}
    (ha : sys.AllocOk) :
    ∃ s', (engine P id).call s (o, sys) = some (s', ((m id).step (contract P id) o).2) ∧ Holds P s' (m.step P (id, o)) :=
  engine_refines P m id s (m id) (o, sys) (h.at_self id) ha

theorem call_tolerated {P : Params} {s s' : Store} {m : Maps} (h : Holds P s m) {id : EngineId} {o : Op} {sys : Sys}
    {a : Answer} (hg : callGranted id (o, sys)) (hc : (engine P id).call s (o, sys) = some (s', a)) :
    (a = ((m id).step (contract P id) o).2 ∧ Holds P s' (m.step P (id, o))) ∨ (a = .code (-2) ∧ Holds P s' m) := by
  rcases engine_tolerates P m id s (m id) (o, sys) s' a (h.at_self id) hg hc with ⟨ha, hs⟩ | ⟨ha, hs⟩
  · exact Or.inl ⟨ha, hs⟩
  · rw [HoldsAt, Function.update_eq_self] at hs
    exact Or.inr ⟨ha, hs⟩

theorem call_zero_granted {P : Params} {s s' : Store} {id : EngineId} {o : Op} {sys : Sys}
    (h : (engine P id).call s (o, sys) = some (s', .code 0)) : callGranted id (o, sys) := by
  cases id with
  | rbtree =>
    cases o with
    | mod k v =>
      rw [engine, within_call (fun _ => rfl)] at h
      obtain ⟨r, hr, he⟩ := Option.map_eq_some_iff.mp h
      obtain ⟨-, hcode⟩ := Prod.mk.inj he
      exact Rbtree.mod_zero_granted hr hcode
    | _ => trivial
  | _ => trivial

end Store

theorem effect_request (P : Params) {tokens : List CString} {id : EngineId} {o : Op} (g : Global) (env : Env)
    (h : requestOf tokens = some (id, o)) :
    effect P tokens g env = ((engine P id).call g.store (o, env.sys)).bind (fun r =>
      (logCommand tokens (replyTo o r.2).2 { g with store := r.1, executed := g.executed ++ [tokens] } env).map
        (fun g => (g, (replyTo o r.2).1))) := by
  cases tokens with
  | nil => simp [requestOf] at h
  | cons token args =>
    simp only [effect, runCommand_request P _ env h, bind, Option.bind_map]
    congr 1
    funext r
    simp only [Function.comp_apply]
    cases logCommand (token :: args) (replyTo o r.2).2 { g with store := r.1, executed := g.executed ++ [token :: args] } env
    <;> rfl

theorem effect_recovering {P : Params} {tokens : List CString} {id : EngineId} {o : Op} {g : Global} {env : Env} {m : Maps}
    (hr : requestOf tokens = some (id, o)) (hH : Holds P g.store m) (ha : env.sys.AllocOk) (hrec : g.recovering = true) :
    ∃ s', effect P tokens g env = some ({ g with store := s', executed := g.executed ++ [tokens] },
        (replyTo o ((m id).step (contract P id) o).2).1) ∧ Holds P s' (m.step P (id, o)) := by
  obtain ⟨s', hcall, hs'⟩ := call_granted hH id o ha
  refine ⟨s', ?_, hs'⟩
  rw [effect_request P g env hr, hcall]
  simp [logCommand, hrec]

theorem effect_logged {P : Params} {tokens : List CString} {id : EngineId} {o : Op} {g g' : Global} {env : Env} {m : Maps}
    {reply : Reply} (h : effect P tokens g env = some (g', reply)) (hr : requestOf tokens = some (id, o))
    (hH : Holds P g.store m) (hg : callGranted id (o, env.sys)) (hrec : g.recovering = false)
    (hlog : g.config.enableLog = true) :
    g'.recovering = false ∧ g'.config = g.config ∧
      ((g'.log = g.log ∧ g'.logReturns = g.logReturns ∧ Holds P g'.store m) ∨
        ∃ ret, g'.logReturns = g.logReturns ++ [ret] ∧ FMap.Accepts (contract P id) (m id) o ∧
          Holds P g'.store (m.step P (id, o)) ∧
          (ret = 0 → g'.log = g.log.enqueue (Kvsp.frameOf tokens) ∧ (Kvsp.frameOf tokens).length < intMax)) := by
  rw [effect_request P g env hr] at h
  obtain ⟨⟨s', a⟩, hcall, h⟩ := Option.bind_eq_some_iff.mp h
  obtain ⟨g1, hl, he⟩ := Option.map_eq_some_iff.mp h
  obtain ⟨rfl, -⟩ := Prod.mk.inj he
  have hstep := call_tolerated hH hg hcall
  by_cases hw : (replyTo o a).2 = true
  · obtain ⟨hmut, rfl⟩ := (wrote_iff o a).mp hw
    simp only [logCommand, hw, hrec, Bool.false_eq_true, not_false_eq_true, and_self, ↓reduceIte] at hl
    obtain ⟨⟨log, ret⟩, hwrite, hl⟩ := Option.bind_eq_some_iff.mp hl
    obtain rfl := Option.some.inj hl
    rcases hstep with ⟨ha, hs⟩ | ⟨ha, -⟩
    · refine ⟨rfl, rfl, Or.inr ⟨ret, rfl, ⟨hmut, ha.symm⟩, hs, ?_⟩⟩
      rintro rfl
      rw [hlog] at hwrite
      obtain ⟨hq, -, hlen⟩ := kvsLogWrite_zero hwrite
      exact ⟨hq, hlen⟩
    · simp at ha
  · simp only [logCommand, hw, Bool.false_eq_true, false_and, ↓reduceIte, Option.some.injEq] at hl
    subst hl
    refine ⟨hrec, rfl, Or.inl ⟨rfl, rfl, ?_⟩⟩
    rcases hstep with ⟨ha, hs⟩ | ⟨-, hs⟩
    · have hsame : (m id).apply (contract P id) o = m id := by
        refine FMap.apply_of_not_accepts (fun hacc => hw ((wrote_iff o a).mpr ⟨hacc.1, ?_⟩))
        rw [ha]
        exact hacc.2
      rw [Maps.step, hsame, Function.update_eq_self] at hs
      exact hs
    · exact hs

end Lidis
