import Lidis.Aof
import Lidis.Serialization

namespace Lidis

open Engine Store

/-- A data command with its arguments, or no data command at all. -/
def Complete (ts : List CString) : Prop :=
  (requestOf ts).isSome ∨ ∀ t ∈ ts.head?, ∀ id verb, commandOf t ≠ some (.data id verb)

/-- What a command that writes nothing leaves as it was. -/
structure SameData (g g' : Global) : Prop where
  store : g'.store = g.store
  log : g'.log = g.log
  logReturns : g'.logReturns = g.logReturns
  recovering : g'.recovering = g.recovering
  config : g'.config = g.config

theorem effect_other {P : Params} {ts : List CString} {g g' : Global} {env : Env} {reply : Reply}
    (h : effect P ts g env = some (g', reply)) (hd : ∀ t ∈ ts.head?, ∀ id verb, commandOf t ≠ some (.data id verb)) :
    SameData g g' := by
  obtain ⟨token, args, g1, wrote, rfl, hrun, hlog⟩ := effect_cases h
  have hsame : wrote = false ∧ SameData g g1 := by
    rw [runCommand] at hrun
    split at hrun
    · next id verb hcmd => exact absurd hcmd (hd token rfl id verb)
    all_goals
      obtain ⟨rfl, hr⟩ := Prod.mk.inj (Option.some.inj hrun)
      exact ⟨(Prod.mk.inj hr).2.symm, rfl, rfl, rfl, rfl, rfl⟩
  obtain ⟨rfl, hsame⟩ := hsame
  rw [logCommand, if_neg (by simp)] at hlog
  exact Option.some.inj hlog ▸ hsame

theorem effect_logReturns {P : Params} {ts : List CString} {g g' : Global} {env : Env} {reply : Reply}
    (h : effect P ts g env = some (g', reply)) : g.logReturns <+: g'.logReturns := by
  obtain ⟨token, args, g1, wrote, rfl, hrun, hlog⟩ := effect_cases h
  have hsame : g1.logReturns = g.logReturns := by
    rw [runCommand] at hrun
    split at hrun
    · obtain ⟨r, -, he⟩ := Option.map_eq_some_iff.mp hrun
      rw [← (Prod.mk.inj he).1]
    all_goals rw [← (Prod.mk.inj (Option.some.inj hrun)).1]
  rw [logCommand] at hlog
  split_ifs at hlog
  · obtain ⟨⟨log, ret⟩, -, he⟩ := Option.bind_eq_some_iff.mp hlog
    rw [← Option.some.inj he, hsame]
    exact List.prefix_append _ _
  · rw [← Option.some.inj hlog, hsame]

/-- With memory for the engines a data command is answered as its map answers it. -/
theorem effect_answer {P : Params} {ts : List CString} {r : EngineId × Op} {g g' : Global} {env : Env} {reply : Reply}
    {m : Maps} (h : effect P ts g env = some (g', reply)) (hr : requestOf ts = some r) (hH : Holds P g.store m)
    (ha : env.sys.AllocOk) :
    reply = (replyTo r.2 ((m r.1).step (contract P r.1) r.2).2).1 ∧ Holds P g'.store (m.step P r) := by
  obtain ⟨id, o⟩ := r
  obtain ⟨s', hcall, hs'⟩ := call_granted hH id o ha
  rw [effect_request P g env hr, hcall] at h
  obtain ⟨g1, hlog, he⟩ := Option.map_eq_some_iff.mp h
  obtain ⟨rfl, rfl⟩ := Prod.mk.inj he
  refine ⟨rfl, ?_⟩
  rw [logCommand_store hlog]
  exact hs'

/-- The replies are those of four maps, from `m` to `m'`, that answer the data commands one after the other. -/
def FromMaps (P : Params) : Maps → List Exchange → Maps → Prop
  | m, [], m' => m' = m
  | m, x :: h, m' =>
    match requestOf x.tokens with
    | some r => x.reply = (replyTo r.2 ((m r.1).step (contract P r.1) r.2).2).1 ∧ FromMaps P (m.step P r) h m'
    | none => FromMaps P m h m'

theorem Sequential.fromMaps {P : Params} {h : List Exchange} {g g' : Global} {m : Maps} (hs : Sequential P g h g')
    (hH : Holds P g.store m) (hc : ∀ x ∈ h, Complete x.tokens) (ha : ∀ x ∈ h, x.env.sys.AllocOk) :
    ∃ m', FromMaps P m h m' ∧ Holds P g'.store m' := by
  induction h generalizing g m with
  | nil =>
    obtain ⟨ends, rfl⟩ := hs
    exact ⟨m, rfl, hH⟩
  | cons x h ih =>
    obtain ⟨ends, mid, hx, hs⟩ := hs
    have hc' : ∀ y ∈ h, Complete y.tokens := fun y hy => hc y (List.mem_cons_of_mem x hy)
    have ha' : ∀ y ∈ h, y.env.sys.AllocOk := fun y hy => ha y (List.mem_cons_of_mem x hy)
    cases hr : requestOf x.tokens with
    | some r =>
      obtain ⟨hreply, hmid⟩ := effect_answer hx hr hH (ha x List.mem_cons_self)
      obtain ⟨m', hm', hH'⟩ := ih hs hmid hc' ha'
      exact ⟨m', by simpa only [FromMaps, hr] using ⟨hreply, hm'⟩, hH'⟩
    | none =>
      have hother := (hc x List.mem_cons_self).resolve_left (by simp [hr])
      obtain ⟨m', hm', hH'⟩ := ih hs ((effect_other hx hother).store ▸ hH) hc' ha'
      exact ⟨m', by simpa only [FromMaps, hr] using hm', hH'⟩

theorem Sequential.logReturns {P : Params} {h : List Exchange} {g g' : Global} (hs : Sequential P g h g') :
    g.logReturns <+: g'.logReturns := by
  induction h generalizing g with
  | nil =>
    obtain ⟨ends, rfl⟩ := hs
    exact List.prefix_refl _
  | cons x h ih =>
    obtain ⟨ends, mid, hx, hs⟩ := hs
    exact (effect_logReturns hx).trans (ih hs)

theorem Logged.other {P : Params} {g g' : Global} {tss : List (List CString)} (h : Logged P g tss) (hs : SameData g g') :
    Logged P g' tss :=
  ⟨hs.recovering.trans h.recovering, by rw [hs.config]; exact h.enableLog, by rw [hs.log]; exact h.bytes, h.loggable,
    h.accepted, by rw [hs.store]; exact h.holds⟩

theorem Logged.sequential {P : Params} {h : List Exchange} {g g' : Global} {tss : List (List CString)} (hl : Logged P g tss)
    (hs : Sequential P g h g') (hc : ∀ x ∈ h, Complete x.tokens ∧ x.tokens.length ≤ maxTokens)
    (hg : ∀ x ∈ h, ∀ id o, requestOf x.tokens = some (id, o) → callGranted id (o, x.env.sys))
    (hok : ∀ r ∈ g'.logReturns, r = 0) : ∃ tss', Logged P g' tss' := by
  induction h generalizing g tss with
  | nil =>
    obtain ⟨ends, rfl⟩ := hs
    exact ⟨tss, hl.other ⟨rfl, rfl, rfl, rfl, rfl⟩⟩
  | cons x h ih =>
    obtain ⟨ends, mid, hx, hs⟩ := hs
    have hl : Logged P (g.childEnds ends) tss := hl.other ⟨rfl, rfl, rfl, rfl, rfl⟩
    obtain ⟨hcx, hmax⟩ := hc x List.mem_cons_self
    have hnext : ∃ tss', Logged P mid tss' := by
      cases hr : requestOf x.tokens with
      | some r =>
        rcases hl.effect hr hmax (hg x List.mem_cons_self r.1 r.2 hr) hx with ⟨-, hl'⟩ | ⟨ret, hret, hl'⟩
        · exact ⟨_, hl'⟩
        · exact ⟨_, hl' (hok ret (hs.logReturns.subset (by rw [hret]; simp)))⟩
      | none => exact ⟨_, hl.other (effect_other hx (hcx.resolve_left (by simp [hr])))⟩
    obtain ⟨tss', hl'⟩ := hnext
    exact ih hl' hs (fun y hy => hc y (List.mem_cons_of_mem x hy)) (fun y hy => hg y (List.mem_cons_of_mem x hy))

namespace Ntyco

variable {P : Params} {e : ℕ → Encoding} {cmds : ℕ → List (List CString)} {g : Global} {Q : ℕ → Env → Prop} {s : Ntyco}
  {h : List Exchange}

theorem Explained.tokens_mem (hx : Explained P e cmds g Q s h) {x : Exchange} (hmem : x ∈ h) : x.tokens ∈ cmds x.conn := by
  obtain ⟨co, hco⟩ : ∃ co, s.conns[x.conn]? = some co := ⟨_, List.getElem?_eq_getElem (hx.conns x hmem)⟩
  refine (hx.commands x.conn co hco).subset ?_
  exact List.mem_map_of_mem (List.mem_filter.mpr ⟨hmem, by simp⟩)

/-- With memory for the engines, what the clients see is four maps that answer their data commands one after the other,
in an order in which every client's commands stand as it sent them. -/
theorem clients_share_four_maps (P : Params) (e : ℕ → Encoding) (cmds : ℕ → List (List CString))
    (hcmds : ∀ i, ∀ ts ∈ cmds i, Complete ts ∧ Sendable ts)
    (htotal : ∀ i, ((e i).stream (cmds i)).length < 2 ^ 30) (g : Global) (m : Maps) (hm : Holds P g.store m)
    (evs : List Event) (hevs : ∀ ev ∈ evs, ev.Within ∧ ev.Asks (fun _ env => env.sys.AllocOk)) (s : Ntyco)
    (hrun : run P evs (start g) = some s) (hf : Fed e cmds s) :
    ∃ h m', Explained P e cmds g (fun _ env => env.sys.AllocOk) s h ∧ FromMaps P m h m' ∧ Holds P s.state.store m' := by
  obtain ⟨h, ht⟩ := (start_traced P e cmds g _).run hrun hevs hf (fun i ts hts => (hcmds i ts hts).2.max) htotal
  have hx := ht.explained
  obtain ⟨m', hmaps, hH⟩ := hx.state.fromMaps hm (fun x hmem => (hcmds x.conn x.tokens (hx.tokens_mem hmem)).1) hx.asked
  exact ⟨_, m', hx, hmaps, hH⟩

/-- The globals after the start, with nothing recovered. -/
def serving : Global := { Global.start .small with recovering := false }

theorem crossingCommands_complete (i : ℕ) : ∀ ts ∈ crossingCommands i, Complete ts ∧ Sendable ts := by
  intro ts hts
  match i with
  | 0 | 1 =>
    obtain rfl := List.mem_singleton.mp hts
    exact ⟨Or.inl (by decide +kernel), by decide, by decide, by decide +kernel⟩
  | n + 2 => simp [crossingCommands] at hts

theorem crossingCommands_total (i : ℕ) : (Encoding.resp.stream (crossingCommands i)).length < 2 ^ 30 := by
  match i with
  | 0 | 1 => decide +kernel
  | n + 2 => exact Nat.two_pow_pos 30

theorem crossing_asks : ∀ ev ∈ crossing ++ finishing, ev.Within ∧ ev.Asks (fun _ env => env.sys.AllocOk) := by
  intro ev hev
  obtain ⟨hw, ha⟩ := crossing_events ev hev
  refine ⟨hw, ?_⟩
  cases ev with
  | frame i sys env =>
    obtain rfl : env = .granted := ha
    exact Sys.granted_allocOk
  | _ => trivial

theorem clients_share_four_maps_example :
    ∃ s h m', run .small (crossing ++ finishing) (start serving) = some s ∧
      s.conns.map Coroutine.sent = [ascii "+OK\r\n", ascii "$-1\r\n"] ∧
      FromMaps .small Maps.empty h m' ∧ Holds .small s.state.store m' := by
  have heval : (run .small (crossing ++ finishing) (start serving)).map
      (fun s => (s.conns.map Coroutine.sent, s.conns.map Coroutine.received)) =
      some ([ascii "+OK\r\n", ascii "$-1\r\n"],
        [Encoding.resp.stream (crossingCommands 0), Encoding.resp.stream (crossingCommands 1)]) := by
    decide +kernel
  obtain ⟨s, hs, hparts⟩ := Option.map_eq_some_iff.mp heval
  obtain ⟨hsent, hreceived⟩ := Prod.mk.inj hparts
  obtain ⟨h, m', -, hmaps, hH⟩ := clients_share_four_maps .small (fun _ => .resp) crossingCommands
    crossingCommands_complete crossingCommands_total serving Maps.empty (fresh_empty _) (crossing ++ finishing)
    crossing_asks s hs (crossing_fed hreceived)
  exact ⟨s, h, m', hs, hsent, hmaps, hH⟩

/-- Any number of clients on empty engines with the log working: unless an RMOD met a failing kvs_malloc, the log that
their commands left, read back into empty engines, gives the maps that the server holds. -/
theorem clients_survive_restart (P : Params) (e : ℕ → Encoding) (cmds : ℕ → List (List CString))
    (hcmds : ∀ i, ∀ ts ∈ cmds i, Complete ts ∧ Sendable ts)
    (htotal : ∀ i, ((e i).stream (cmds i)).length < 2 ^ 30) (g : Global) (hempty : Holds P g.store Maps.empty)
    (hrec : g.recovering = false) (hlog : g.config.enableLog = true) (hnew : g.log.queued = []) (Q : ℕ → Env → Prop)
    (evs : List Event) (hevs : ∀ ev ∈ evs, ev.Within ∧ ev.Asks Q) (s : Ntyco) (hrun : run P evs (start g) = some s)
    (hf : Fed e cmds s) (hok : ∀ r ∈ s.state.logReturns, r = 0) (hsize : s.state.log.bytes.length < 2 ^ 31) :
    ∃ h, Explained P e cmds g Q s h ∧
      ((∀ x ∈ h, ∀ k v, requestOf x.tokens = some (.rbtree, .mod k v) → x.env.sys.alloc 0 = true) →
        ∀ r : Global, Holds P r.store Maps.empty → r.recovering = true → ∀ fe : FileEnv, fe.Granted →
          ∀ env : ℕ → Env, (∀ i, (env i).sys.AllocOk) →
            ∃ ret r', kvsFileRead (protocolHandler P env) fe s.state.log.bytes r = some (ret, r') ∧
              SameMaps P s.state.store r'.store) := by
  obtain ⟨h, ht⟩ := (start_traced P e cmds g Q).run hrun hevs hf (fun i ts hts => (hcmds i ts hts).2.max) htotal
  have hx := ht.explained
  refine ⟨_, hx, fun hmod r hr hrrec fe hfe env henv => ?_⟩
  have hstart : Logged P g [] := ⟨hrec, hlog, by simp [LogState.bytes, hnew], by simp, trivial, hempty⟩
  have hgranted : ∀ x ∈ [] ++ h, ∀ id o, requestOf x.tokens = some (id, o) → callGranted id (o, x.env.sys) := by
    intro x hmem id o hreq
    cases id with
    | rbtree =>
      cases o with
      | mod k v => exact hmod x hmem k v hreq
      | _ => trivial
    | _ => trivial
  obtain ⟨tss, hend⟩ := hstart.sequential hx.state
    (fun x hmem => (hcmds x.conn x.tokens (hx.tokens_mem hmem)).imp_right Sendable.max)
    hgranted hok
  rw [hend.bytes] at hsize ⊢
  obtain ⟨ret, s', hread, hs'⟩ := fileRead_frames hfe henv tss hend.loggable hsize hr hrrec
  exact ⟨ret, _, hread, sameMaps_of_holds hend.holds hs'⟩

theorem clients_survive_restart_example :
    ∃ s ret r', run .small (crossing ++ finishing) (start serving) = some s ∧ s.state.logReturns = [0] ∧
      kvsFileRead (protocolHandler .small (fun _ => .granted)) .granted s.state.log.bytes (.start .small) = some (ret, r') ∧
      SameMaps .small s.state.store r'.store := by
  have heval : (run .small (crossing ++ finishing) (start serving)).map
      (fun s => (s.conns.map Coroutine.received, s.state.logReturns, decide (s.state.log.bytes.length < 2 ^ 31))) =
      some ([Encoding.resp.stream (crossingCommands 0), Encoding.resp.stream (crossingCommands 1)], [0], true) := by
    decide +kernel
  obtain ⟨s, hs, hparts⟩ := Option.map_eq_some_iff.mp heval
  obtain ⟨hreceived, hparts⟩ := Prod.mk.inj hparts
  obtain ⟨hret, hsize⟩ := Prod.mk.inj hparts
  obtain ⟨h, hx, hread⟩ := clients_survive_restart .small (fun _ => .resp) crossingCommands crossingCommands_complete
    crossingCommands_total serving (fresh_empty _) rfl rfl rfl _ (crossing ++ finishing) crossing_asks s hs
    (crossing_fed hreceived) (by rw [hret]; decide) (of_decide_eq_true hsize)
  obtain ⟨ret, r', hfile, hsame⟩ := hread (fun x hmem k v _ => hx.asked x hmem 0) (.start .small) (fresh_empty _) rfl
    .granted FileEnv.granted_granted (fun _ => .granted) (fun _ => Sys.granted_allocOk)
  exact ⟨s, ret, r', hs, hret, hfile, hsame⟩

end Ntyco

end Lidis
