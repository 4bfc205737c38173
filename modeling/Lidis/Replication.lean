import Lidis.AgentStream

namespace Lidis

open Agent

def maxSlaveCount : ℕ := 4

def agentBufferSize : ℕ := 1024

/-- How far a slave has got. `refused` is a slave that was told the master is busy. -/
inductive Phase where
  | idle
  | refused
  | synced
  | loaded
  | connected
  | finished
  deriving DecidableEq

def Phase.busy : Phase → Bool
  | .synced | .loaded | .connected => true
  | _ => false

/-- The master, the agent and the slaves. A slave is named by the descriptor that its connection to the agent gets.
`log` is what the master has received, of which the agent has taken `handled` frames; `syncing` is the slave that
is_full_sync is set for; a slave's snapshot holds what came before `snapshot`, its last frame is at `finishAt`. -/
structure Cluster where
  log : List Kvsp.Frame
  handled : ℕ
  agent : AgentInfo
  failed : Bool
  syncing : Option ℤ
  phase : ℤ → Phase
  snapshot : ℤ → ℕ
  finishAt : ℤ → ℕ
  accepted : ℤ → Bool

/-- `client` is any frame but those of the synchronisation. With `load` the whole snapshot has gone to the slave. -/
inductive Act where
  | client (f : Kvsp.Frame)
  | sync (s : ℤ)
  | load (s : ℤ)
  | connect (s : ℤ)
  | accept (s : ℤ)
  | finish (s : ℤ)
  | agent (env : AgentEnv)

theorem syncFrame_fits : (Kvsp.frameOf [.lit "SYNC"]).length ≤ intMax := by decide +kernel

def syncFrame : Kvsp.Frame := .ofTokens (.lit "SYNC") [] syncFrame_fits

theorem finishedFrame_fits : (Kvsp.frameOf [.lit "FULLSYNC FINISHED"]).length ≤ intMax := by decide +kernel

def finishedFrame : Kvsp.Frame := .ofTokens (.lit "FULLSYNC FINISHED") [] finishedFrame_fits

def isPlain (f : Kvsp.Frame) : Bool := cmdOf f.command = .allowedSend ∨ cmdOf f.command = .other

namespace Cluster

def start (memory : Bytes) : Cluster where
  log := []
  handled := 0
  agent := kvsAgentInfoInit agentBufferSize memory (kvsSlavesCreate maxSlaveCount)
  failed := false
  syncing := none
  phase := fun _ => .idle
  snapshot := fun _ => 0
  finishAt := fun _ => 0
  accepted := fun _ => false

def step (k : Cluster) : Act → Option Cluster
  | .client f => if isPlain f then some { k with log := k.log ++ [f] } else none
  | .sync s =>
    if ¬ (0 < s ∧ k.phase s = .idle) then none
    else if k.syncing = none then
      some { k with
        log := k.log ++ [syncFrame], syncing := some s, phase := Function.update k.phase s .synced,
        snapshot := Function.update k.snapshot s k.log.length }
    else some { k with log := k.log ++ [syncFrame], phase := Function.update k.phase s .refused }
  | .load s =>
    if k.phase s = .synced then some { k with syncing := none, phase := Function.update k.phase s .loaded } else none
  | .connect s =>
    if k.phase s = .loaded then some { k with phase := Function.update k.phase s .connected } else none
  | .accept s =>
    if (k.phase s = .connected ∨ k.phase s = .finished) ∧ k.accepted s = false then
      some { k with
        agent := { k.agent with slaves := server k.agent.slaves (.accept s) },
        accepted := Function.update k.accepted s true }
    else none
  | .finish s =>
    if k.phase s = .connected then
      some { k with
        log := k.log ++ [finishedFrame], phase := Function.update k.phase s .finished,
        finishAt := Function.update k.finishAt s k.log.length }
    else none
  | .agent env =>
    match k.log[k.handled]? with
    | none => none
    | some f => do
      let (ret, agent) ← kvsAgentSendToSlave env k.agent f.bytes
      some { k with agent := agent, handled := k.handled + 1, failed := k.failed || decide (ret ≠ 0) }

def run : List Act → Cluster → Option Cluster
  | [], k => some k
  | act :: acts, k => do
    let k ← k.step act
    run acts k

end Cluster

structure Agent.Slaves.Valid (t : Slaves) : Prop where
  total_eq : t.total = (t.table.filter (fun fd => decide (0 ≤ fd))).length
  nodup : t.active.Nodup

theorem slaves_create_active (size : ℕ) : (kvsSlavesCreate size).active = [] := by
  rw [Slaves.active, List.filter_eq_nil_iff]
  intro fd hfd
  rw [List.eq_of_mem_replicate hfd]
  decide

theorem slaves_create_valid (size : ℕ) : (kvsSlavesCreate size).Valid := by
  refine ⟨?_, slaves_create_active size ▸ List.nodup_nil⟩
  rw [List.filter_eq_nil_iff.mpr]
  · rfl
  · intro fd hfd
    rw [List.eq_of_mem_replicate hfd]
    decide

theorem Agent.Slaves.Valid.accept {t : Slaves} {fd : ℤ} (h : t.Valid) (hroom : t.total < t.table.length) (hfd : 0 < fd)
    (hnew : fd ∉ t.active) :
    (server t (.accept fd)).Valid ∧ ∀ x, x ∈ (server t (.accept fd)).active ↔ x = fd ∨ x ∈ t.active := by
  rcases first_split (fun x : ℤ => decide (x < 0)) t.table with hnone | ⟨front, x, back, hsplit, hfront, hx⟩
  · have hall : t.table.filter (fun fd => decide (0 ≤ fd)) = t.table := by
      rw [List.filter_eq_self]
      intro y hy
      have := hnone y hy
      simp only [decide_eq_false_iff_not, not_lt] at this
      exact decide_eq_true this
    have htotal := h.total_eq
    rw [hall] at htotal
    omega
  · have hneg : ¬ 0 ≤ x := by simpa using hx
    have hinsert : server t (.accept fd) = ⟨front ++ [fd] ++ back, t.total + 1⟩ := by
      rw [server, kvsSlavesInsert, if_neg hroom.ne, hsplit, editFirst_split _ hfront hx]
    have hold : t.active = front.filter (fun y => decide (0 < y)) ++ back.filter (fun y => decide (0 < y)) := by
      rw [Slaves.active, hsplit, List.filter_append, List.filter_cons_of_neg]
      simp only [decide_eq_true_eq]
      omega
    have hactive : (server t (.accept fd)).active =
        front.filter (fun y => decide (0 < y)) ++ fd :: back.filter (fun y => decide (0 < y)) := by
      rw [hinsert, Slaves.active, List.append_assoc, List.filter_append, List.singleton_append, List.filter_cons_of_pos]
      exact decide_eq_true hfd
    refine ⟨⟨?_, ?_⟩, ?_⟩
    · rw [hinsert]
      change t.total + 1 = _
      rw [h.total_eq, hsplit]
      simp only [List.filter_append, List.filter_cons, List.filter_nil, List.length_append, hneg, hfd.le, decide_true,
        decide_false, ↓reduceIte, Bool.false_eq_true, List.length_cons, List.length_nil]
      omega
    · rw [hactive, List.nodup_middle, List.nodup_cons, ← hold]
      exact ⟨hnew, h.nodup⟩
    · intro y
      rw [hactive, hold]
      simp only [List.mem_append, List.mem_cons]
      tauto

theorem sendToSlave_frame {env : AgentEnv} (hmem : env.Granted) (hdel : env.Delivers) (hquiet : env.Quiet)
    {a : AgentInfo} {r : Relay} {f : Kvsp.Frame} (hbuf : a.buf = []) (ha : a.Follows r) (hnodup : a.slaves.active.Nodup)
    (hroom : AgentCache.weight r.queue ≤ a.fullsyncCache.capacity)
    (hroom' : AgentCache.weight (r.step f).1.queue ≤ a.fullsyncCache.capacity) :
    ∃ a', kvsAgentSendToSlave env a f.bytes = some (0, a') ∧ a'.buf = [] ∧ a'.Follows (r.step f).1 ∧
      a'.slaves = a.slaves ∧ a'.fullsyncCache.capacity = a.fullsyncCache.capacity ∧
      a'.sent = broadcast a.slaves.active (r.step f).2.flatten a.sent := by
  have hne : f.bytes ≠ [] := List.ne_nil_of_length_pos f.bytes_pos
  have hsnoc := Relay.run_snoc r [] f
  rw [List.nil_append, Relay.run_nil] at hsnoc
  obtain ⟨⟨seen, a', hcall, hpassed, hinc, todo, hfs⟩, -⟩ := (Passed.start ha hbuf).call hmem hdel hquiet hnodup hne
    (show [] ++ f.bytes ++ [] = Kvsp.stream [f] by simp) ⟨[f], rfl⟩ (by
      intro seen todo hfs _
      cases seen with
      | nil => exact hroom
      | cons g seen =>
        obtain ⟨rfl, hnil⟩ := List.cons.inj hfs
        obtain ⟨rfl, rfl⟩ := List.append_eq_nil_iff.mp hnil.symm
        rw [hsnoc]
        exact hroom')
  cases seen with
  | nil =>
    have hrec := hpassed.received_eq
    rw [List.nil_append, Kvsp.stream_nil, List.nil_append] at hrec
    rw [← hrec, ← List.append_nil f.bytes] at hinc
    exact hinc.not_whole.elim
  | cons g seen =>
    obtain ⟨rfl, hnil⟩ := List.cons.inj hfs
    obtain ⟨rfl, rfl⟩ := List.append_eq_nil_iff.mp hnil.symm
    have hrec := hpassed.received_eq
    rw [List.nil_append, Kvsp.stream_cons, Kvsp.stream_nil, List.append_nil] at hrec
    have hfollows := hpassed.follows
    have hsent := hpassed.sent_eq
    rw [hsnoc] at hfollows hsent
    exact ⟨a', hcall, List.self_eq_append_right.mp hrec, hfollows, hpassed.slaves_eq, hpassed.capacity_eq, hsent⟩

def relayAt (log : List Kvsp.Frame) (n : ℕ) : Relay := (Relay.start.run (log.take n)).1

theorem relayAt_settled (log : List Kvsp.Frame) (n : ℕ) : (relayAt log n).Settled :=
  Relay.run_settled (fun _ => rfl) _

theorem relayAt_succ {log : List Kvsp.Frame} {n : ℕ} {f : Kvsp.Frame} (h : log[n]? = some f) :
    relayAt log (n + 1) = ((relayAt log n).step f).1 := by
  rw [relayAt, List.take_add_one, h, Option.toList_some, Relay.run_snoc]
  rfl

theorem relayAt_append {log : List Kvsp.Frame} {n : ℕ} (f : Kvsp.Frame) (h : n ≤ log.length) :
    relayAt (log ++ [f]) n = relayAt log n := by
  rw [relayAt, List.take_append_of_le_length h]
  rfl

theorem relayAt_snoc (log : List Kvsp.Frame) (f : Kvsp.Frame) :
    relayAt (log ++ [f]) (log.length + 1) = ((relayAt log log.length).step f).1 := by
  rw [relayAt_succ List.getElem?_concat_length, relayAt_append f le_rfl]

theorem step_sync (r : Relay) : r.step syncFrame = (⟨.fullSync, r.queue⟩, []) := by
  have hcmd : cmdOf syncFrame.command = .sync := by decide +kernel
  rw [Relay.step, hcmd]

theorem step_finished (r : Relay) : (r.step finishedFrame).1.state ≠ .fullSync := by
  have hcmd : cmdOf finishedFrame.command = .fullsyncFinished := by decide +kernel
  rw [Relay.step, hcmd]
  dsimp only
  split_ifs with hs
  · simp
  · exact hs

theorem step_plain (r : Relay) {f : Kvsp.Frame} (hf : isPlain f = true) : (r.step f).1.state = r.state := by
  rw [Relay.step]
  rcases of_decide_eq_true hf with hcmd | hcmd
  · rw [hcmd]
    dsimp only
    split_ifs <;> rfl
  · rw [hcmd]

structure OpenSince (log : List Kvsp.Frame) (m n : ℕ) : Prop where
  state_eq : (relayAt log n).state = .fullSync
  queue_eq : (relayAt log n).queue = (writes ((log.take n).drop m)).map Kvsp.Frame.bytes

theorem OpenSince.append {log : List Kvsp.Frame} {m n : ℕ} (h : OpenSince log m n) (f : Kvsp.Frame)
    (hn : n ≤ log.length) : OpenSince (log ++ [f]) m n := by
  refine ⟨(relayAt_append f hn).symm ▸ h.state_eq, ?_⟩
  rw [relayAt_append f hn, h.queue_eq, List.take_append_of_le_length hn]

theorem OpenSince.plain {log : List Kvsp.Frame} {m : ℕ} (h : OpenSince log m log.length) (hm : m ≤ log.length)
    {f : Kvsp.Frame} (hf : isPlain f = true) : OpenSince (log ++ [f]) m (log.length + 1) := by
  have hstate : (relayAt (log ++ [f]) (log.length + 1)).state = .fullSync := by
    rw [relayAt_snoc, step_plain _ hf, h.state_eq]
  refine ⟨hstate, ?_⟩
  have hstep := Relay.step_writes (relayAt_settled log log.length) f
  have hout : ((relayAt log log.length).step f).2 = [] := by
    rw [Relay.step]
    rcases of_decide_eq_true hf with hcmd | hcmd
    · simp [hcmd, h.state_eq]
    · simp [hcmd]
  rw [hout, List.nil_append, h.queue_eq, List.take_length, ← List.map_append] at hstep
  have hdrop : ((log ++ [f]).take (log.length + 1)).drop m = log.drop m ++ [f] := by
    rw [List.take_of_length_le (by simp), List.drop_append_of_le_length hm]
  rw [relayAt_snoc, hstep, hdrop, writes, writes, writes, List.filter_append]

theorem OpenSince.start {log : List Kvsp.Frame} (h : (relayAt log log.length).state ≠ .fullSync) :
    OpenSince (log ++ [syncFrame]) log.length (log.length + 1) := by
  have hnone : writes [syncFrame] = [] := by decide +kernel
  have hdrop : ((log ++ [syncFrame]).take (log.length + 1)).drop log.length = [syncFrame] := by
    rw [List.take_of_length_le (by simp), List.drop_left]
  constructor
  · rw [relayAt_snoc, step_sync]
  · rw [relayAt_snoc, step_sync, hdrop, hnone]
    exact relayAt_settled log log.length h

namespace Cluster

def endOf (k : Cluster) (s : ℤ) : ℕ := if k.phase s = .finished then k.finishAt s else k.log.length

def Joined (k : Cluster) (s : ℤ) : Prop := k.phase s ≠ .idle ∧ k.phase s ≠ .refused

structure Sound (k : Cluster) : Prop where
  handled_le : k.handled ≤ k.log.length
  buf_eq : k.agent.buf = []
  follows : k.agent.Follows (relayAt k.log k.handled)
  healthy : k.failed = false
  table : k.agent.slaves.Valid
  syncing : ∀ s, k.syncing = some s → k.phase s = .synced
  unique : ∀ s t, (k.phase s).busy = true → (k.phase t).busy = true → s = t
  calm : (∀ s, (k.phase s).busy = false) → (relayAt k.log k.log.length).state ≠ .fullSync
  positive : ∀ s, k.Joined s → 0 < s
  bounds : ∀ s, k.Joined s → k.snapshot s < k.endOf s ∧ k.endOf s ≤ k.log.length
  openSince : ∀ s, k.Joined s → ∀ n, k.snapshot s < n → n ≤ k.endOf s → OpenSince k.log (k.snapshot s) n
  active : ∀ s, s ∈ k.agent.slaves.active ↔ k.accepted s = true
  accepted : ∀ s, k.accepted s = true → k.Joined s ∧ k.snapshot s < k.handled
  unsent : ∀ s, k.accepted s = false → k.agent.sent s = []
  sent_eq : ∀ s, k.accepted s = true → k.agent.sent s ++ (relayAt k.log k.handled).queue.flatten =
    Kvsp.stream (writes ((k.log.take k.handled).drop (k.snapshot s)))
  registered : ∀ s, k.phase s = .finished → k.finishAt s < k.handled → k.accepted s = true
  finished : ∀ s, k.phase s = .finished → k.finishAt s < k.log.length

theorem start_sound {memory : Bytes} (h : memory ≠ []) : (start memory).Sound where
  handled_le := le_rfl
  buf_eq := rfl
  follows := agentInit_follows _ _ h
  healthy := rfl
  table := slaves_create_valid _
  syncing := by simp [start]
  unique := by simp [start, Phase.busy]
  calm := by simp [start, relayAt, Relay.run, Relay.start]
  positive := by simp [start, Joined]
  bounds := by simp [start, Joined]
  openSince := by simp [start, Joined]
  active := by
    intro s
    change s ∈ (kvsSlavesCreate maxSlaveCount).active ↔ false = true
    rw [slaves_create_active]
    simp
  accepted := by simp [start]
  unsent := fun _ _ => rfl
  sent_eq := by simp [start]
  registered := by simp [start]
  finished := by simp [start]

section Acts

variable {k : Cluster} {s : ℤ}

theorem Sound.taken (h : k.Sound) (f : Kvsp.Frame) : relayAt (k.log ++ [f]) k.handled = relayAt k.log k.handled ∧
    (k.log ++ [f]).take k.handled = k.log.take k.handled :=
  ⟨relayAt_append f h.handled_le, List.take_append_of_le_length h.handled_le⟩

theorem Sound.client (h : k.Sound) {f : Kvsp.Frame} (hf : isPlain f = true) : Sound { k with log := k.log ++ [f] } := by
  obtain ⟨hrelay, htake⟩ := h.taken f
  have hlen : (k.log ++ [f]).length = k.log.length + 1 := List.length_append
  have hend : ∀ s, endOf { k with log := k.log ++ [f] } s =
      if k.phase s = .finished then k.endOf s else k.log.length + 1 := by
    intro s
    by_cases hfin : k.phase s = .finished <;> simp [endOf, hfin]
  refine { h with
    handled_le := by rw [hlen]; exact h.handled_le.trans (Nat.le_succ _)
    follows := by rw [hrelay]; exact h.follows
    sent_eq := by rw [hrelay, htake]; exact h.sent_eq
    finished := fun s hs => by rw [hlen]; exact (h.finished s hs).trans (Nat.lt_succ_self _)
    calm := ?_
    bounds := ?_
    openSince := ?_ }
  · intro hcalm
    rw [hlen, relayAt_snoc, step_plain _ hf]
    exact h.calm hcalm
  · intro s hs
    obtain ⟨hlo, hhi⟩ := h.bounds s hs
    rw [hend, hlen]
    split_ifs
    · exact ⟨hlo, hhi.trans (Nat.le_succ _)⟩
    · exact ⟨hlo.trans_le (hhi.trans (Nat.le_succ _)), le_rfl⟩
  · intro s hs n hlo hhi
    obtain ⟨hlo', hhi'⟩ := h.bounds s hs
    by_cases hn : n ≤ k.endOf s
    · exact (h.openSince s hs n hlo hn).append f (hn.trans hhi')
    · rw [hend] at hhi
      split_ifs at hhi with hfin
      · exact absurd hhi hn
      · have hall : k.endOf s = k.log.length := if_neg hfin
        obtain rfl : n = k.log.length + 1 := by omega
        rw [hall] at hlo'
        exact (h.openSince s hs k.log.length hlo' hall.ge).plain hlo'.le hf

theorem joined_congr {k k' : Cluster} {t : ℤ} (h : k'.phase t = k.phase t) : k'.Joined t ↔ k.Joined t := by
  rw [Joined, Joined, h]

theorem joined_of_busy {t : ℤ} (h : (k.phase t).busy = true) : k.Joined t := by
  constructor
  · intro hi
    simp [hi, Phase.busy] at h
  · intro hr
    simp [hr, Phase.busy] at h

theorem finished_of_joined {t : ℤ} (hj : k.Joined t) (hb : (k.phase t).busy = false) : k.phase t = .finished := by
  obtain ⟨hi, hr⟩ := hj
  cases hp : k.phase t with
  | idle => exact absurd hp hi
  | refused => exact absurd hp hr
  | finished => rfl
  | _ => simp [hp, Phase.busy] at hb

theorem Sound.not_accepted (h : k.Sound) (hidle : k.phase s = .idle) : k.accepted s = false := by
  by_contra hacc
  exact (h.accepted s (Bool.not_eq_false _ ▸ hacc)).1.1 hidle

theorem Sound.sync (h : k.Sound) (hcalm : ∀ t, (k.phase t).busy = false) (hpos : 0 < s) (hidle : k.phase s = .idle) :
    Sound { k with
      log := k.log ++ [syncFrame], syncing := some s, phase := Function.update k.phase s .synced,
      snapshot := Function.update k.snapshot s k.log.length } := by
  obtain ⟨hrelay, htake⟩ := h.taken syncFrame
  have hlen : (k.log ++ [syncFrame]).length = k.log.length + 1 := List.length_append
  have hnew := h.not_accepted hidle
  have hbusy : ∀ t, (Function.update k.phase s .synced t).busy = true → t = s := by
    intro t ht
    by_contra hne
    rw [Function.update_of_ne hne, hcalm t] at ht
    simp at ht
  -- the other slaves that have joined have finished
  have hother : ∀ {t}, t ≠ s → Joined { k with
      log := k.log ++ [syncFrame], syncing := some s, phase := Function.update k.phase s .synced,
      snapshot := Function.update k.snapshot s k.log.length } t → k.Joined t ∧ k.phase t = .finished := by
    intro t hne ht
    have ht' := (joined_congr (Function.update_of_ne hne Phase.synced k.phase)).mp ht
    exact ⟨ht', finished_of_joined ht' (hcalm t)⟩
  have hne_of_accepted : ∀ {t}, k.accepted t = true → t ≠ s := by
    rintro t ht rfl
    simp [hnew] at ht
  have hne_of_finished : ∀ {t}, Function.update k.phase s .synced t = .finished → t ≠ s := by
    rintro t ht rfl
    simp at ht
  refine { h with
    handled_le := by rw [hlen]; exact h.handled_le.trans (Nat.le_succ _)
    follows := by rw [hrelay]; exact h.follows
    syncing := ?_
    unique := fun t u ht hu => (hbusy t ht).trans (hbusy u hu).symm
    calm := ?_
    positive := ?_
    bounds := ?_
    openSince := ?_
    accepted := ?_
    sent_eq := ?_
    registered := ?_
    finished := ?_ }
  · rintro t ⟨⟩
    exact Function.update_self ..
  · intro hnone
    have := hnone s
    simp [Phase.busy] at this
  · intro t ht
    rcases eq_or_ne t s with rfl | hne
    · exact hpos
    · exact h.positive t (hother hne ht).1
  · intro t ht
    rcases eq_or_ne t s with rfl | hne
    · simp [endOf]
    · obtain ⟨ht', hfin⟩ := hother hne ht
      have hb := h.bounds t ht'
      simp only [endOf, hfin, ↓reduceIte, Function.update_of_ne hne, hlen] at hb ⊢
      omega
  · intro t ht n hlo hhi
    rcases eq_or_ne t s with rfl | hne
    · simp only [Function.update_self] at hlo
      simp only [endOf, Function.update_self, reduceCtorEq, ↓reduceIte, hlen] at hhi ⊢
      obtain rfl : n = k.log.length + 1 := by omega
      exact .start (h.calm hcalm)
    · obtain ⟨ht', hfin⟩ := hother hne ht
      have hb := h.bounds t ht'
      simp only [endOf, hfin, ↓reduceIte, Function.update_of_ne hne] at hb hlo hhi ⊢
      exact (h.openSince t ht' n hlo (by simpa [endOf, hfin] using hhi)).append _ (hhi.trans hb.2)
  · intro t ht
    have hne := hne_of_accepted ht
    simpa [Joined, Function.update_of_ne hne] using h.accepted t ht
  · intro t ht
    have hne := hne_of_accepted ht
    rw [hrelay, htake]
    simpa [Function.update_of_ne hne] using h.sent_eq t ht
  · intro t ht hlt
    have hne := hne_of_finished ht
    exact h.registered t (by simpa [Function.update_of_ne hne] using ht) hlt
  · intro t ht
    have hne := hne_of_finished ht
    rw [hlen]
    exact (h.finished t (by simpa [Function.update_of_ne hne] using ht)).trans (Nat.lt_succ_self _)

theorem Sound.advance (h : k.Sound) (hbusy : (k.phase s).busy = true) {p : Phase} (hp : p.busy = true)
    {syncing : Option ℤ} (hsync : ∀ t, syncing = some t → t ≠ s ∧ k.phase t = .synced) :
    Sound { k with syncing := syncing, phase := Function.update k.phase s p } := by
  have hsame : ∀ t, (Function.update k.phase s p t).busy = (k.phase t).busy := by
    intro t
    rcases eq_or_ne t s with rfl | hne
    · rw [Function.update_self, hp, hbusy]
    · rw [Function.update_of_ne hne]
  have hjoined : ∀ t, Joined { k with syncing := syncing, phase := Function.update k.phase s p } t ↔ k.Joined t := by
    intro t
    rcases eq_or_ne t s with rfl | hne
    · exact iff_of_true (joined_of_busy ((hsame t).trans hbusy)) (joined_of_busy hbusy)
    · exact joined_congr (Function.update_of_ne hne p k.phase)
  have hfin : ∀ t, Function.update k.phase s p t = .finished ↔ k.phase t = .finished := by
    intro t
    rcases eq_or_ne t s with rfl | hne
    · refine iff_of_false ?_ ?_
      · intro hf
        rw [Function.update_self] at hf
        simp [hf, Phase.busy] at hp
      · intro hf
        simp [hf, Phase.busy] at hbusy
    · rw [Function.update_of_ne hne]
  have hend : ∀ t, endOf { k with syncing := syncing, phase := Function.update k.phase s p } t = k.endOf t := by
    intro t
    simp only [endOf, hfin]
  refine { h with
    syncing := ?_
    unique := fun t u ht hu => h.unique t u (hsame t ▸ ht) (hsame u ▸ hu)
    calm := fun hc => h.calm (fun t => hsame t ▸ hc t)
    positive := fun t ht => h.positive t ((hjoined t).mp ht)
    bounds := fun t ht => hend t ▸ h.bounds t ((hjoined t).mp ht)
    openSince := fun t ht n hlo hhi => h.openSince t ((hjoined t).mp ht) n hlo (hend t ▸ hhi)
    accepted := fun t ht => ⟨(hjoined t).mpr (h.accepted t ht).1, (h.accepted t ht).2⟩
    registered := fun t ht => h.registered t ((hfin t).mp ht)
    finished := fun t ht => h.finished t ((hfin t).mp ht) }
  intro t ht
  obtain ⟨hne, hsynced⟩ := hsync t ht
  simpa [Function.update_of_ne hne] using hsynced

theorem Sound.finish (h : k.Sound) (hcon : k.phase s = .connected) :
    Sound { k with
      log := k.log ++ [finishedFrame], phase := Function.update k.phase s .finished,
      finishAt := Function.update k.finishAt s k.log.length } := by
  obtain ⟨hrelay, htake⟩ := h.taken finishedFrame
  have hlen : (k.log ++ [finishedFrame]).length = k.log.length + 1 := List.length_append
  have hbusy : (k.phase s).busy = true := by rw [hcon]; rfl
  have hidle : ∀ t, t ≠ s → (k.phase t).busy = false := by
    intro t hne
    by_contra hb
    exact hne (h.unique t s (Bool.not_eq_false _ ▸ hb) hbusy)
  have hjoined : ∀ t, Joined { k with
      log := k.log ++ [finishedFrame], phase := Function.update k.phase s .finished,
      finishAt := Function.update k.finishAt s k.log.length } t ↔ k.Joined t := by
    intro t
    rcases eq_or_ne t s with rfl | hne
    · simp [Joined, hcon]
    · simp [Joined, Function.update_of_ne hne]
  -- the slave's full sync ends where the log ended
  have hend : ∀ t, k.Joined t → endOf { k with
      log := k.log ++ [finishedFrame], phase := Function.update k.phase s .finished,
      finishAt := Function.update k.finishAt s k.log.length } t = k.endOf t := by
    intro t ht
    rcases eq_or_ne t s with rfl | hne
    · simp [endOf, hcon]
    · have hfin := finished_of_joined ht (hidle t hne)
      simp [endOf, hfin, Function.update_of_ne hne]
  refine { h with
    handled_le := by rw [hlen]; exact h.handled_le.trans (Nat.le_succ _)
    follows := by rw [hrelay]; exact h.follows
    syncing := ?_
    unique := ?_
    calm := ?_
    positive := fun t ht => h.positive t ((hjoined t).mp ht)
    bounds := ?_
    openSince := ?_
    accepted := fun t ht => ⟨(hjoined t).mpr (h.accepted t ht).1, (h.accepted t ht).2⟩
    sent_eq := by rw [hrelay, htake]; exact h.sent_eq
    registered := ?_
    finished := ?_ }
  · intro t ht
    have hsynced := h.syncing t ht
    have hne : t ≠ s := by
      rintro rfl
      simp [hcon] at hsynced
    simpa [Function.update_of_ne hne] using hsynced
  · intro t u ht hu
    have hno : ∀ t, (Function.update k.phase s .finished t).busy = false := by
      intro t
      rcases eq_or_ne t s with rfl | hne
      · rw [Function.update_self]; rfl
      · rw [Function.update_of_ne hne]; exact hidle t hne
    simp [hno t] at ht
  · intro _
    rw [hlen, relayAt_snoc]
    exact step_finished _
  · intro t ht
    obtain ⟨hlo, hhi⟩ := h.bounds t ((hjoined t).mp ht)
    rw [hend t ((hjoined t).mp ht), hlen]
    exact ⟨hlo, hhi.trans (Nat.le_succ _)⟩
  · intro t ht n hlo hhi
    have ht' := (hjoined t).mp ht
    rw [hend t ht'] at hhi
    exact (h.openSince t ht' n hlo hhi).append _ (hhi.trans (h.bounds t ht').2)
  · intro t ht hlt
    rcases eq_or_ne t s with rfl | hne
    · simp only [Function.update_self] at hlt
      exact absurd h.handled_le (by omega)
    · simp only [Function.update_of_ne hne] at ht hlt
      exact h.registered t ht hlt
  · intro t ht
    rw [hlen]
    rcases eq_or_ne t s with rfl | hne
    · simp
    · simp only [Function.update_of_ne hne] at ht ⊢
      exact (h.finished t ht).trans (Nat.lt_succ_self _)

theorem Sound.accept (h : k.Sound) (hs : k.phase s = .connected ∨ k.phase s = .finished) (hnew : k.accepted s = false)
    (htaken : k.snapshot s < k.handled) (hroom : k.agent.slaves.total < k.agent.slaves.table.length) :
    Sound { k with
      agent := { k.agent with slaves := server k.agent.slaves (.accept s) },
      accepted := Function.update k.accepted s true } := by
  have hjoined : k.Joined s := by
    rcases hs with hs | hs <;> simp [Joined, hs]
  have hnot : s ∉ k.agent.slaves.active := by
    rw [h.active s, hnew]
    simp
  obtain ⟨hvalid, hactive⟩ := h.table.accept hroom (h.positive s hjoined) hnot
  -- the agent has not come to the end of the slave's full sync
  have hbefore : k.handled ≤ k.endOf s := by
    by_cases hfin : k.phase s = .finished
    · rw [endOf, if_pos hfin]
      by_contra hlt
      have := h.registered s hfin (by omega)
      simp [hnew] at this
    · rw [endOf, if_neg hfin]
      exact h.handled_le
  have hopen := h.openSince s hjoined k.handled htaken hbefore
  refine { h with
    follows := ⟨h.follows.state_eq, h.follows.holds⟩
    table := hvalid
    active := ?_
    accepted := ?_
    unsent := ?_
    sent_eq := ?_
    registered := ?_ }
  · intro t
    rw [hactive t, h.active t]
    rcases eq_or_ne t s with rfl | hne
    · simp
    · simp [hne]
  · intro t ht
    rcases eq_or_ne t s with rfl | hne
    · exact ⟨hjoined, htaken⟩
    · exact h.accepted t (by simpa [Function.update_of_ne hne] using ht)
  · intro t ht
    have hne : t ≠ s := by
      rintro rfl
      simp at ht
    exact h.unsent t (by simpa [Function.update_of_ne hne] using ht)
  · intro t ht
    rcases eq_or_ne t s with rfl | hne
    · change k.agent.sent t ++ (relayAt k.log k.handled).queue.flatten = _
      rw [h.unsent t hnew, hopen.queue_eq, List.nil_append, Kvsp.stream, List.flatMap_def]
    · exact h.sent_eq t (by simpa [Function.update_of_ne hne] using ht)
  · intro t ht hlt
    rcases eq_or_ne t s with rfl | hne
    · simp
    · simpa [Function.update_of_ne hne] using h.registered t ht hlt

theorem Sound.agent (h : k.Sound) {env : AgentEnv} (hmem : env.Granted) (hdel : env.Delivers) (hquiet : env.Quiet)
    {f : Kvsp.Frame} (hf : k.log[k.handled]? = some f)
    (hroom : isWrite f = true → k.agent.state = .fullSync →
      k.agent.fullsyncCache.used + (8 + f.bytes.length) ≤ k.agent.fullsyncCache.capacity)
    (hreg : ∀ s, k.phase s = .finished → k.finishAt s = k.handled → k.accepted s = true) :
    ∃ k', k.step (.agent env) = some k' ∧ k'.Sound := by
  obtain ⟨hlt, -⟩ := List.getElem?_eq_some_iff.mp hf
  have hused := h.follows.holds.used_eq
  have hcap : AgentCache.weight (relayAt k.log k.handled).queue ≤ k.agent.fullsyncCache.capacity :=
    hused ▸ h.follows.holds.contains.used_le
  have hcap' : AgentCache.weight ((relayAt k.log k.handled).step f).1.queue ≤ k.agent.fullsyncCache.capacity := by
    rw [h.follows.state_eq] at hroom
    rw [Relay.step]
    cases hcmd : cmdOf f.command with
    | sync | other => exact hcap
    | fullsyncFinished | fullsyncError =>
      dsimp only
      split_ifs
      · exact Nat.zero_le _
      · exact hcap
    | allowedSend =>
      dsimp only
      split_ifs with hs
      · rw [AgentCache.weight_append, AgentCache.weight_singleton, ← hused]
        exact hroom (decide_eq_true hcmd) hs
      · exact hcap
  obtain ⟨a, hcall, hbuf, hfollows, hslaves, -, hsent⟩ :=
    sendToSlave_frame hmem hdel hquiet h.buf_eq h.follows h.table.nodup hcap hcap'
  have hnext := relayAt_succ hf
  have hwrites := Relay.step_writes (relayAt_settled k.log k.handled) f
  refine ⟨{ k with agent := a, handled := k.handled + 1, failed := k.failed || decide ((0 : ℤ) ≠ 0) },
    by simp [step, hf, hcall], ?_⟩
  refine { h with
    handled_le := hlt
    buf_eq := hbuf
    follows := hnext ▸ hfollows
    healthy := by simp [h.healthy]
    table := hslaves ▸ h.table
    active := fun s => hslaves ▸ h.active s
    accepted := fun s hs => ⟨(h.accepted s hs).1, (h.accepted s hs).2.trans (Nat.lt_succ_self _)⟩
    unsent := ?_
    sent_eq := ?_
    registered := ?_ }
  · intro s hs
    have hout : s ∉ k.agent.slaves.active := by
      rw [h.active s, hs]
      simp
    change a.sent s = []
    rw [hsent, broadcast, if_neg hout]
    exact h.unsent s hs
  · intro s hs
    have hin : s ∈ k.agent.slaves.active := (h.active s).mpr hs
    have hsnap := (h.accepted s hs).2
    have hdrop : (k.log.take (k.handled + 1)).drop (k.snapshot s) =
        (k.log.take k.handled).drop (k.snapshot s) ++ [f] := by
      rw [List.take_add_one, hf, Option.toList_some, List.drop_append_of_le_length]
      rw [List.length_take]
      omega
    have hall : writes ((k.log.take k.handled).drop (k.snapshot s) ++ [f]) =
        writes ((k.log.take k.handled).drop (k.snapshot s)) ++ writes [f] := List.filter_append _ _
    change a.sent s ++ (relayAt k.log (k.handled + 1)).queue.flatten = _
    rw [hnext, hsent, broadcast, if_pos hin, hdrop, hall, Kvsp.stream_append, ← h.sent_eq s hs, List.append_assoc,
      List.append_assoc, ← List.flatten_append, hwrites, List.flatten_append, Kvsp.stream, List.flatMap_def]
  · intro s hs hlast
    rcases Nat.lt_succ_iff_lt_or_eq.mp hlast with hlast | hlast
    · exact h.registered s hs hlast
    · exact hreg s hs hlast

end Acts

/-- When an act keeps the slaves apart: a slave asks for a full sync only while no other one is open, it is accepted
after the agent has taken its SYNC and while a slot is free, and the agent takes its FULLSYNC FINISHED after that. The
cache has room for each write. -/
def Admits (k : Cluster) : Act → Prop
  | .sync _ => ∀ t, (k.phase t).busy = false
  | .accept s => k.snapshot s < k.handled ∧ k.agent.slaves.total < k.agent.slaves.table.length
  | .agent _ => (∀ s, k.phase s = .finished → k.finishAt s = k.handled → k.accepted s = true) ∧
      ∀ f, k.log[k.handled]? = some f → isWrite f = true → k.agent.state = .fullSync →
        k.agent.fullsyncCache.used + (8 + f.bytes.length) ≤ k.agent.fullsyncCache.capacity
  | _ => True

def Orderly : Cluster → List Act → Prop
  | _, [] => True
  | k, act :: acts => k.Admits act ∧ ∀ k', k.step act = some k' → Orderly k' acts

theorem Sound.step {k k' : Cluster} {act : Act} (h : k.Sound) (hadmits : k.Admits act)
    (henv : ∀ env, act = .agent env → env.Granted ∧ env.Delivers ∧ env.Quiet) (hstep : k.step act = some k') :
    k'.Sound := by
  cases act with
  | client f =>
    rw [Cluster.step] at hstep
    split_ifs at hstep with hf
    exact Option.some.inj hstep ▸ h.client hf
  | sync s =>
    rw [Cluster.step] at hstep
    split_ifs at hstep with hs hnone
    · exact Option.some.inj hstep ▸ h.sync hadmits hs.1 hs.2
    · obtain ⟨t, ht⟩ := Option.ne_none_iff_exists'.mp hnone
      have hbusy := hadmits t
      rw [h.syncing t ht] at hbusy
      simp [Phase.busy] at hbusy
  | load s =>
    rw [Cluster.step] at hstep
    split_ifs at hstep with hs
    exact Option.some.inj hstep ▸ h.advance (by rw [hs]; rfl) rfl (by simp)
  | connect s =>
    rw [Cluster.step] at hstep
    split_ifs at hstep with hs
    refine Option.some.inj hstep ▸ h.advance (by rw [hs]; rfl) rfl ?_
    intro t ht
    have hsynced := h.syncing t ht
    refine ⟨?_, hsynced⟩
    rintro rfl
    simp [hs] at hsynced
  | accept s =>
    rw [Cluster.step] at hstep
    split_ifs at hstep with hs
    exact Option.some.inj hstep ▸ h.accept hs.1 hs.2 hadmits.1 hadmits.2
  | finish s =>
    rw [Cluster.step] at hstep
    split_ifs at hstep with hs
    exact Option.some.inj hstep ▸ h.finish hs
  | agent env =>
    obtain ⟨hmem, hdel, hquiet⟩ := henv env rfl
    rcases hf : k.log[k.handled]? with _ | f
    · simp [Cluster.step, hf] at hstep
    · obtain ⟨k₁, hk₁, hsound⟩ := h.agent hmem hdel hquiet hf (hadmits.2 f hf) hadmits.1
      exact Option.some.inj (hk₁.symm.trans hstep) ▸ hsound

theorem Sound.run {k k' : Cluster} {acts : List Act} (h : k.Sound) (horderly : k.Orderly acts)
    (henv : ∀ env, .agent env ∈ acts → env.Granted ∧ env.Delivers ∧ env.Quiet) (hrun : k.run acts = some k') :
    k'.Sound := by
  induction acts generalizing k with
  | nil => exact Option.some.inj hrun ▸ h
  | cons act acts ih =>
    obtain ⟨k₁, hstep, hrun⟩ := Option.bind_eq_some_iff.mp hrun
    have hnext := h.step horderly.1 (fun env he => henv env (he ▸ List.mem_cons_self)) hstep
    exact ih hnext (horderly.2 k₁ hstep) (fun env he => henv env (List.mem_cons_of_mem act he)) hrun

end Cluster

/-- While the full syncs are kept apart, a slave that has finished gets every write since its snapshot, in order and
once. The agent never fails and can always take the next frame. -/
theorem no_update_lost_if_orderly (memory : Bytes) (hmemory : memory ≠ []) (acts : List Act)
    (henv : ∀ env, .agent env ∈ acts → env.Granted ∧ env.Delivers ∧ env.Quiet)
    (horderly : (Cluster.start memory).Orderly acts) (k : Cluster) (hrun : (Cluster.start memory).run acts = some k) :
    k.failed = false ∧
      (∀ env, env.Granted → env.Delivers → env.Quiet → k.Admits (.agent env) → k.handled < k.log.length →
        ∃ k', k.step (.agent env) = some k') ∧
      (k.handled = k.log.length → (∀ s, (k.phase s).busy = false) → ∀ s, k.phase s = .finished →
        k.agent.sent s = Kvsp.stream (writes (k.log.drop (k.snapshot s)))) := by
  have h := (Cluster.start_sound hmemory).run horderly henv hrun
  refine ⟨h.healthy, ?_, ?_⟩
  · intro env hmem hdel hquiet hadmits hlt
    obtain ⟨k', hstep, -⟩ := h.agent hmem hdel hquiet (List.getElem?_eq_getElem hlt)
      (hadmits.2 _ (List.getElem?_eq_getElem hlt)) hadmits.1
    exact ⟨k', hstep⟩
  · intro hall hcalm s hs
    have hsent := h.sent_eq s (h.registered s hs (hall ▸ h.finished s hs))
    have hempty : (relayAt k.log k.handled).queue = [] := by
      rw [hall]
      exact relayAt_settled k.log k.log.length (h.calm hcalm)
    rwa [hempty, List.flatten_nil, List.append_nil, hall, List.take_length] at hsent

def Act.slave : Act → Option ℤ
  | .sync s | .load s | .connect s | .accept s | .finish s => some s
  | _ => none

namespace Cluster

theorem step_phase {k k' : Cluster} {act : Act} {t : ℤ} (ht : act.slave ≠ some t) (h : k.step act = some k') :
    k'.phase t = k.phase t := by
  cases act with
  | client f =>
    rw [step] at h
    split_ifs at h
    rw [← Option.some.inj h]
  | sync s =>
    have hne : t ≠ s := fun he => ht (congrArg some he.symm)
    rw [step] at h
    split_ifs at h
    all_goals
      rw [← Option.some.inj h]
      exact Function.update_of_ne hne _ _
  | load s | connect s | finish s =>
    have hne : t ≠ s := fun he => ht (congrArg some he.symm)
    rw [step] at h
    split_ifs at h
    rw [← Option.some.inj h]
    exact Function.update_of_ne hne _ _
  | accept s =>
    rw [step] at h
    split_ifs at h
    rw [← Option.some.inj h]
  | agent env =>
    rw [step] at h
    split at h
    · simp at h
    · obtain ⟨⟨ret, a⟩, -, h⟩ := Option.bind_eq_some_iff.mp h
      rw [← Option.some.inj h]

theorem run_phase {k k' : Cluster} {acts : List Act} {t : ℤ} (ht : ∀ act ∈ acts, act.slave ≠ some t)
    (h : k.run acts = some k') : k'.phase t = k.phase t := by
  induction acts generalizing k with
  | nil => rw [← Option.some.inj h]
  | cons act acts ih =>
    obtain ⟨k₁, hstep, hrun⟩ := Option.bind_eq_some_iff.mp h
    rw [ih (fun a ha => ht a (List.mem_cons_of_mem act ha)) hrun, step_phase (ht act List.mem_cons_self) hstep]

def admitsFor (ids : List ℤ) (k : Cluster) : Act → Bool
  | .sync _ => ids.all (fun t => !(k.phase t).busy)
  | .accept s => decide (k.snapshot s < k.handled ∧ k.agent.slaves.total < k.agent.slaves.table.length)
  | .agent _ => ids.all (fun s => !decide (k.phase s = .finished ∧ k.finishAt s = k.handled) || k.accepted s) &&
      (k.log[k.handled]?).all (fun f => !(isWrite f && decide (k.agent.state = .fullSync)) ||
        decide (k.agent.fullsyncCache.used + (8 + f.bytes.length) ≤ k.agent.fullsyncCache.capacity))
  | _ => true

def orderlyFor (ids : List ℤ) : Cluster → List Act → Bool
  | _, [] => true
  | k, act :: acts => k.admitsFor ids act && act.slave.all (· ∈ ids) && (k.step act).all (fun k => orderlyFor ids k acts)

theorem admits_of_for {ids : List ℤ} {k : Cluster} {act : Act} (hidle : ∀ t, t ∉ ids → k.phase t = .idle)
    (h : k.admitsFor ids act = true) : k.Admits act := by
  cases act with
  | sync s =>
    intro t
    by_cases ht : t ∈ ids
    · simpa using List.all_eq_true.mp h t ht
    · rw [hidle t ht]
      rfl
  | accept s => simpa [admitsFor, Admits] using h
  | agent env =>
    obtain ⟨hreg, hroom⟩ := (Bool.and_eq_true _ _).mp h
    constructor
    · intro s hs hat
      by_cases ht : s ∈ ids
      · simpa [hs, hat] using List.all_eq_true.mp hreg s ht
      · rw [hidle s ht] at hs
        simp at hs
    · intro f hf hw hstate
      simpa [hf, hw, hstate] using hroom
  | client f => trivial
  | load s => trivial
  | connect s => trivial
  | finish s => trivial

theorem orderly_of_for {ids : List ℤ} {k : Cluster} {acts : List Act} (hidle : ∀ t, t ∉ ids → k.phase t = .idle)
    (h : k.orderlyFor ids acts = true) : k.Orderly acts := by
  induction acts generalizing k with
  | nil => trivial
  | cons act acts ih =>
    rw [orderlyFor, Bool.and_eq_true, Bool.and_eq_true] at h
    obtain ⟨⟨hadmits, hslave⟩, hrest⟩ := h
    refine ⟨admits_of_for hidle hadmits, ?_⟩
    intro k' hstep
    rw [hstep, Option.all_some] at hrest
    refine ih ?_ hrest
    intro t ht
    rw [step_phase _ hstep, hidle t ht]
    intro hact
    rw [hact, Option.all_some] at hslave
    exact ht (of_decide_eq_true hslave)

end Cluster

theorem firstWrite_fits : (Kvsp.frameOf [.lit "SET", .lit "a", .lit "1"]).length ≤ intMax := by decide +kernel

def firstWrite : Kvsp.Frame := .ofTokens (.lit "SET") [.lit "a", .lit "1"] firstWrite_fits

def secondWrite : Kvsp.Frame := .ofTokens (.lit "SET") [.lit "b", .lit "2"] (by decide +kernel)

def timelyAccept : List Act :=
  [.client firstWrite, .sync 5, .agent .granting, .client firstWrite, .agent .granting, .load 5, .connect 5, .accept 5,
    .agent .granting, .finish 5, .agent .granting, .client secondWrite, .agent .granting]

theorem no_update_lost_if_orderly_example :
    ∃ k, (Cluster.start (List.replicate 100 0)).run timelyAccept = some k ∧ k.phase 5 = .finished ∧
      k.agent.sent 5 = firstWrite.bytes ++ secondWrite.bytes := by
  have heval : ((Cluster.start (List.replicate 100 0)).run timelyAccept).map (fun k =>
      (decide (k.handled = k.log.length), k.phase 5, Kvsp.stream (writes (k.log.drop (k.snapshot 5))))) =
        some (true, Phase.finished, firstWrite.bytes ++ secondWrite.bytes) := by decide +kernel
  obtain ⟨k, hrun, hk⟩ := Option.map_eq_some_iff.mp heval
  obtain ⟨hall, hk⟩ := Prod.mk.inj hk
  obtain ⟨hphase, hwrites⟩ := Prod.mk.inj hk
  have hcalm : ∀ s, (k.phase s).busy = false := by
    intro s
    rcases eq_or_ne s 5 with rfl | hne
    · rw [hphase]
      rfl
    · rw [Cluster.run_phase _ hrun]
      · rfl
      · simp [timelyAccept, Act.slave, hne.symm]
  have hgood : ∀ env, .agent env ∈ timelyAccept → env = .granting := by simp [timelyAccept]
  obtain ⟨-, -, hsent⟩ := no_update_lost_if_orderly (List.replicate 100 0) (by decide) timelyAccept
    (fun env he => hgood env he ▸
      ⟨AgentEnv.granting_granted, AgentEnv.granting_delivers, AgentEnv.granting_quiet⟩)
    (Cluster.orderly_of_for (fun t (_ : t ∉ [5]) => rfl) (by decide +kernel)) k hrun
  exact ⟨k, hrun, hphase, (hsent (of_decide_eq_true hall) hcalm 5 hphase).trans hwrites⟩

def lateAccept : List Act :=
  [.sync 5, .client firstWrite, .load 5, .connect 5, .finish 5, .agent .granting, .agent .granting, .agent .granting,
    .accept 5]

def overlapping : List Act :=
  [.sync 5, .load 5, .connect 5, .agent .granting, .accept 5, .sync 6, .client firstWrite, .finish 5, .agent .granting,
    .agent .granting, .agent .granting, .load 6, .connect 6, .accept 6, .finish 6, .agent .granting]

/-- A slave misses the write that came after its snapshot, because it is accepted too late or because the full sync
of another slave ends first. -/
theorem finished_slave_misses_update :
    (∃ k, (Cluster.start (List.replicate 100 0)).run lateAccept = some k ∧ k.failed = false ∧
      k.handled = k.log.length ∧ (∀ s, (k.phase s).busy = false) ∧ k.phase 5 = .finished ∧ k.agent.sent 5 = [] ∧
      Kvsp.stream (writes (k.log.drop (k.snapshot 5))) = firstWrite.bytes) ∧
    ∃ k, (Cluster.start (List.replicate 100 0)).run overlapping = some k ∧ k.failed = false ∧
      k.handled = k.log.length ∧ (∀ s, (k.phase s).busy = false) ∧ k.phase 6 = .finished ∧ k.agent.sent 6 = [] ∧
      Kvsp.stream (writes (k.log.drop (k.snapshot 6))) = firstWrite.bytes := by
  have hlate : ((Cluster.start (List.replicate 100 0)).run lateAccept).map (fun k =>
      ((k.failed, decide (k.handled = k.log.length)), k.phase 5,
        (k.agent.sent 5, Kvsp.stream (writes (k.log.drop (k.snapshot 5)))))) =
        some ((false, true), Phase.finished, ([], firstWrite.bytes)) := by decide +kernel
  have hover : ((Cluster.start (List.replicate 100 0)).run overlapping).map (fun k =>
      ((k.failed, decide (k.handled = k.log.length)), (k.phase 5, k.phase 6),
        (k.agent.sent 6, Kvsp.stream (writes (k.log.drop (k.snapshot 6)))))) =
        some ((false, true), (Phase.finished, Phase.finished), ([], firstWrite.bytes)) := by decide +kernel
  obtain ⟨k, hrun, hk⟩ := Option.map_eq_some_iff.mp hlate
  obtain ⟨k', hrun', hk'⟩ := Option.map_eq_some_iff.mp hover
  simp only [Prod.mk.injEq, decide_eq_true_eq] at hk hk'
  obtain ⟨⟨hok, hall⟩, hphase, hsent, hwrites⟩ := hk
  obtain ⟨⟨hok', hall'⟩, ⟨hphase₅, hphase₆⟩, hsent', hwrites'⟩ := hk'
  refine ⟨⟨k, hrun, hok, hall, ?_, hphase, hsent, hwrites⟩, k', hrun', hok', hall', ?_, hphase₆, hsent', hwrites'⟩
  · intro s
    rcases eq_or_ne s 5 with rfl | hne
    · rw [hphase]
      rfl
    · rw [Cluster.run_phase _ hrun]
      · rfl
      · simp [lateAccept, Act.slave, hne.symm]
  · intro s
    rcases eq_or_ne s 5 with rfl | hne
    · rw [hphase₅]
      rfl
    rcases eq_or_ne s 6 with rfl | hne'
    · rw [hphase₆]
      rfl
    · rw [Cluster.run_phase _ hrun']
      · rfl
      · simp [overlapping, Act.slave, hne.symm, hne'.symm]

end Lidis
