import Lidis.AgentRelay

namespace Lidis.Agent

def agentMoments (env : AgentEnv) : ℕ → ℕ → AgentInfo → List AgentInfo
  | 0, _, _ => []
  | n + 1, i, a =>
    a :: match agentTurn env i a with
      | some (.next a) => agentMoments env n (i + 1) a
      | _ => []

/-- The chunks handed over one after another, each with the outcomes of its call; `none` after the first call that
fails, when the thread stops. -/
def handOver : List (AgentEnv × Bytes) → AgentInfo → Option AgentInfo
  | [], a => some a
  | (env, buf) :: calls, a =>
    match kvsAgentSendToSlave env a buf with
    | some (0, a) => handOver calls a
    | _ => none

def moments : Bytes → List (AgentEnv × Bytes) → AgentInfo → List (Bytes × AgentInfo)
  | received, [], a => [(received, a)]
  | received, (env, buf) :: calls, a =>
    (agentMoments env ((a.receive buf).buf.length + 1) 0 (a.receive buf)).map (fun m => (received ++ buf, m)) ++
      match kvsAgentSendToSlave env a buf with
      | some (0, a) => moments (received ++ buf) calls a
      | _ => []

def AgentCache.records : ℕ → AgentCache → Option (List Bytes)
  | 0, _ => none
  | n + 1, ac =>
    if ac.used = 0 then some []
    else
      match kvsAgentCacheRead ac true with
      | (ac, some b) => (records n ac).map (b :: ·)
      | (_, none) => none

def AgentCache.contents (ac : AgentCache) : Option Bytes := (ac.records (ac.used + 1)).map List.flatten

theorem AgentCache.records_of_holds {ac : AgentCache} {recs : List Bytes} {n : ℕ} (h : ac.Holds recs)
    (hn : recs.length < n) : ac.records n = some recs := by
  induction recs generalizing ac n with
  | nil =>
    obtain ⟨n, rfl⟩ := Nat.exists_eq_succ_of_ne_zero (by omega : n ≠ 0)
    rw [records, if_pos (h.used_eq_zero_iff.mpr rfl)]
  | cons b recs ih =>
    obtain ⟨n, rfl⟩ := Nat.exists_eq_succ_of_ne_zero (by omega : n ≠ 0)
    obtain ⟨ac', hread, hrest, -⟩ := h.read
    have hne : ac.used ≠ 0 := fun h0 => by simpa using h.used_eq_zero_iff.mp h0
    rw [List.length_cons] at hn
    rw [records, if_neg hne, hread]
    simp only [ih hrest (by omega : recs.length < n), Option.map_some]

theorem AgentCache.contents_of_holds {ac : AgentCache} {recs : List Bytes} (h : ac.Holds recs) :
    ac.contents = some recs.flatten := by
  rw [contents, records_of_holds h, Option.map_some]
  rw [h.used_eq]
  exact Nat.lt_succ_of_le (length_le_weight recs)

/-- Since `a`, where the relay was at `r`, the agent has received some bytes and has handled the frames `done`. -/
structure Passed (a : AgentInfo) (r : Relay) (received : Bytes) (done : List Kvsp.Frame) (m : AgentInfo) : Prop where
  received_eq : received = Kvsp.stream done ++ m.buf
  follows : m.Follows (r.run done).1
  slaves_eq : m.slaves = a.slaves
  capacity_eq : m.fullsyncCache.capacity = a.fullsyncCache.capacity
  sent_eq : m.sent = broadcast a.slaves.active (r.run done).2.flatten a.sent

def Relay.Fits (r : Relay) (fs : List Kvsp.Frame) (capacity : ℕ) : Prop :=
  ∀ done todo, fs = done ++ todo → AgentCache.weight (r.run done).1.queue ≤ capacity

theorem Passed.start {a : AgentInfo} {r : Relay} (h : a.Follows r) (hbuf : a.buf = []) : Passed a r [] [] a where
  received_eq := hbuf.symm
  follows := h
  slaves_eq := rfl
  capacity_eq := rfl
  sent_eq := (broadcast_nil _ _).symm

theorem Passed.receive {a m : AgentInfo} {r : Relay} {received : Bytes} {done : List Kvsp.Frame}
    (h : Passed a r received done m) (buf : Bytes) : Passed a r (received ++ buf) done (m.receive buf) where
  received_eq := by
    rw [h.received_eq, List.append_assoc]
    rfl
  follows := ⟨h.follows.state_eq, h.follows.holds⟩
  slaves_eq := h.slaves_eq
  capacity_eq := h.capacity_eq
  sent_eq := h.sent_eq

def Incomplete (part : Bytes) : Prop := part = [] ∨ ∃ (f : Kvsp.Frame) (after : Bytes), part ++ after = f.bytes ∧ after ≠ []

theorem turn_incomplete (env : AgentEnv) (i : ℕ) {a : AgentInfo} (h : Incomplete a.buf) :
    agentTurn env i a = some (.stop 0 a) := by
  rw [agentTurn]
  by_cases hbuf : a.buf = []
  · rw [if_pos hbuf]
  · obtain ⟨f, after, hf, hafter⟩ := h.resolve_left hbuf
    rw [if_neg hbuf, parse_part f hf hbuf hafter]

section Runs

variable {env : AgentEnv} (hmem : env.Granted) (hdel : env.Delivers) (hquiet : env.Quiet)
variable {a m : AgentInfo} {r : Relay} {received : Bytes} {done : List Kvsp.Frame}
variable (hnodup : a.slaves.active.Nodup)

include hmem hdel hquiet hnodup

theorem Passed.turn {f : Kvsp.Frame} {rest : Bytes} (i : ℕ) (h : Passed a r received done m)
    (hbuf : m.buf = f.bytes ++ rest)
    (hroom : AgentCache.weight (r.run (done ++ [f])).1.queue ≤ a.fullsyncCache.capacity) :
    ∃ m', agentTurn env i m = some (.next m') ∧ Passed a r received (done ++ [f]) m' ∧ m'.buf = rest := by
  rw [Relay.run_snoc, ← h.capacity_eq] at hroom
  obtain ⟨cache, hturn, hholds, hcap⟩ :=
    turn_frame hmem hdel hquiet i h.follows (by rwa [h.slaves_eq]) hbuf hroom
  refine ⟨_, hturn, ⟨?_, ?_, h.slaves_eq, hcap.trans h.capacity_eq, ?_⟩, rfl⟩
  · rw [h.received_eq, hbuf, Kvsp.stream_append, List.append_assoc, Kvsp.stream_cons, Kvsp.stream_nil, List.append_nil]
  · rw [Relay.run_snoc]
    exact ⟨rfl, hholds⟩
  · rw [Relay.run_snoc, List.flatten_append, ← broadcast_append, ← h.sent_eq, ← h.slaves_eq]

theorem Passed.loop {todo : List Kvsp.Frame} {part : Bytes} {n : ℕ} (i : ℕ) (h : Passed a r received done m)
    (hbuf : m.buf = Kvsp.stream todo ++ part) (hpart : Incomplete part) (hn : m.buf.length < n)
    (hfits : r.Fits (done ++ todo) a.fullsyncCache.capacity) :
    (∃ last, agentLoop env n i m = some (0, last) ∧ Passed a r received (done ++ todo) last ∧ last.buf = part) ∧
      ∀ x ∈ agentMoments env n i m, ∃ seen unseen, done ++ todo = seen ++ unseen ∧ Passed a r received seen x := by
  induction todo generalizing done m n i with
  | nil =>
    obtain ⟨n, rfl⟩ := Nat.exists_eq_succ_of_ne_zero (by omega : n ≠ 0)
    have hturn := turn_incomplete env i (a := m) (by rwa [hbuf])
    refine ⟨⟨m, by rw [agentLoop, hturn], by rwa [List.append_nil], hbuf⟩, ?_⟩
    intro x hx
    rw [agentMoments, hturn, List.mem_singleton] at hx
    subst hx
    exact ⟨done, [], rfl, h⟩
  | cons f todo ih =>
    obtain ⟨n, rfl⟩ := Nat.exists_eq_succ_of_ne_zero (by omega : n ≠ 0)
    rw [Kvsp.stream_cons, List.append_assoc] at hbuf
    have hassoc : done ++ f :: todo = (done ++ [f]) ++ todo := by simp
    rw [hassoc] at hfits ⊢
    obtain ⟨m', hturn, hpassed, hbuf'⟩ := h.turn hmem hdel hquiet hnodup i hbuf (hfits _ _ rfl)
    have hshort : m'.buf.length < n := by
      have := f.bytes_pos
      rw [hbuf, List.length_append, ← hbuf'] at hn
      omega
    obtain ⟨⟨last, hloop, hlast, hrest⟩, hmoments⟩ := ih (i + 1) hpassed hbuf' hshort hfits
    refine ⟨⟨last, by rw [agentLoop, hturn]; exact hloop, hlast, hrest⟩, ?_⟩
    intro x hx
    rw [agentMoments, hturn] at hx
    rcases List.mem_cons.mp hx with rfl | hx
    · exact ⟨done, f :: todo, hassoc.symm, h⟩
    · exact hmoments x hx

theorem Passed.call {fs : List Kvsp.Frame} {buf later : Bytes} (h : Passed a r received done m)
    (hne : buf ≠ []) (hstream : received ++ buf ++ later = Kvsp.stream fs) (hpre : ∃ todo, fs = done ++ todo)
    (hfits : ∀ seen todo, fs = seen ++ todo → (Kvsp.stream seen).length ≤ (received ++ buf).length →
      AgentCache.weight (r.run seen).1.queue ≤ a.fullsyncCache.capacity) :
    (∃ seen last, kvsAgentSendToSlave env m buf = some (0, last) ∧ Passed a r (received ++ buf) seen last ∧
        Incomplete last.buf ∧ ∃ todo, fs = seen ++ todo) ∧
      ∀ x ∈ agentMoments env ((m.receive buf).buf.length + 1) 0 (m.receive buf),
        ∃ seen todo, fs = seen ++ todo ∧ Passed a r (received ++ buf) seen x := by
  obtain ⟨todo, rfl⟩ := hpre
  have hnow := h.receive buf
  have hcut : (m.receive buf).buf ++ later = Kvsp.stream todo := by
    rw [hnow.received_eq, Kvsp.stream_append, List.append_assoc] at hstream
    exact List.append_cancel_left hstream
  obtain ⟨next, left, part, rfl, hbuf, -, hpart⟩ := Kvsp.stream_cut hcut
  have hinc : Incomplete part := by
    rcases hpart with hpart | ⟨f, -, after, -, hf, hafter⟩
    · exact Or.inl hpart
    · exact Or.inr ⟨f, after, hf, hafter⟩
  have hroom : r.Fits (done ++ next) a.fullsyncCache.capacity := by
    intro seen todo hseen
    refine hfits seen (todo ++ left) (by rw [← List.append_assoc, hseen, List.append_assoc]) ?_
    have hlen := congrArg (fun fs => (Kvsp.stream fs).length) hseen
    simp only [Kvsp.stream_append, List.length_append] at hlen
    rw [hnow.received_eq, hbuf, ← List.append_assoc, ← Kvsp.stream_append, List.length_append, Kvsp.stream_append,
      List.length_append]
    omega
  obtain ⟨⟨last, hloop, hlast, hrest⟩, hmoments⟩ :=
    hnow.loop hmem hdel hquiet hnodup 0 hbuf hinc (Nat.lt_succ_self _) hroom
  refine ⟨⟨done ++ next, last, ?_, hlast, hrest ▸ hinc, left, by rw [List.append_assoc]⟩, ?_⟩
  · rw [kvsAgentSendToSlave, if_neg hne, if_neg (by simp [hmem.grow]), hloop]
  · intro x hx
    obtain ⟨seen, unseen, hseen, hx⟩ := hmoments x hx
    exact ⟨seen, unseen ++ left, by rw [← List.append_assoc, hseen, List.append_assoc], hx⟩

end Runs

theorem Passed.calls {a m : AgentInfo} {r : Relay} {received later : Bytes} {done fs : List Kvsp.Frame}
    {calls : List (AgentEnv × Bytes)} (hmem : ∀ c ∈ calls, c.1.Granted) (hdel : ∀ c ∈ calls, c.1.Delivers)
    (hquiet : ∀ c ∈ calls, c.1.Quiet) (hnodup : a.slaves.active.Nodup) (hne : ∀ c ∈ calls, c.2 ≠ [])
    (h : Passed a r received done m) (hinc : Incomplete m.buf)
    (hstream : received ++ calls.flatMap Prod.snd ++ later = Kvsp.stream fs) (hpre : ∃ todo, fs = done ++ todo)
    (hfits : r.Fits fs a.fullsyncCache.capacity) :
    (∃ seen last, handOver calls m = some last ∧ Passed a r (received ++ calls.flatMap Prod.snd) seen last ∧
        Incomplete last.buf ∧ ∃ todo, fs = seen ++ todo) ∧
      ∀ x ∈ moments received calls m, ∃ seen todo, fs = seen ++ todo ∧ Passed a r x.1 seen x.2 := by
  induction calls generalizing received done m with
  | nil =>
    obtain ⟨todo, hfs⟩ := hpre
    refine ⟨⟨done, m, rfl, by simpa using h, hinc, todo, hfs⟩, ?_⟩
    intro x hx
    rw [moments, List.mem_singleton] at hx
    subst hx
    exact ⟨done, todo, hfs, h⟩
  | cons c calls ih =>
    obtain ⟨env, buf⟩ := c
    rw [List.flatMap_cons, ← List.append_assoc] at hstream ⊢
    obtain ⟨⟨seen, next, hcall, hnext, hincn, hpren⟩, hmoments⟩ := h.call (hmem _ List.mem_cons_self)
      (hdel _ List.mem_cons_self) (hquiet _ List.mem_cons_self) hnodup (hne _ List.mem_cons_self)
      (by rwa [List.append_assoc] at hstream) hpre (fun seen todo hseen _ => hfits seen todo hseen)
    obtain ⟨hlast, hrest⟩ := ih (fun c hc => hmem c (List.mem_cons_of_mem _ hc))
      (fun c hc => hdel c (List.mem_cons_of_mem _ hc)) (fun c hc => hquiet c (List.mem_cons_of_mem _ hc))
      (fun c hc => hne c (List.mem_cons_of_mem _ hc)) hnext hincn hstream hpren
    refine ⟨by rw [handOver, hcall]; exact hlast, ?_⟩
    intro x hx
    rw [moments, hcall] at hx
    rcases List.mem_append.mp hx with hx | hx
    · obtain ⟨y, hy, rfl⟩ := List.mem_map.mp hx
      exact hmoments y hy
    · exact hrest x hx

theorem Relay.fits_of_writes {fs : List Kvsp.Frame} {capacity : ℕ}
    (h : AgentCache.weight ((writes fs).map Kvsp.Frame.bytes) ≤ capacity) : start.Fits fs capacity := by
  rintro done todo rfl
  have hdone := congrArg AgentCache.weight (run_writes (show start.Settled from fun _ => rfl) done)
  have hall : writes (done ++ todo) = writes done ++ writes todo := List.filter_append done todo
  rw [hall, List.map_append, AgentCache.weight_append] at h
  rw [AgentCache.weight_append] at hdone
  change _ = AgentCache.weight ((writes done).map Kvsp.Frame.bytes) at hdone
  omega

theorem Relay.weight_run {r : Relay} (h : r.Settled) (fs : List Kvsp.Frame) :
    AgentCache.weight (r.run fs).1.queue ≤ AgentCache.weight r.queue + 2 * (Kvsp.stream fs).length := by
  have hwrites : AgentCache.weight ((writes fs).map Kvsp.Frame.bytes) ≤ 2 * (Kvsp.stream fs).length := by
    induction fs with
    | nil => exact le_rfl
    | cons f fs ih =>
      have hf : AgentCache.weight [f.bytes] ≤ 2 * f.bytes.length := by
        rw [AgentCache.weight_singleton]
        have := f.bytes_ge
        omega
      rw [Kvsp.stream_cons, List.length_append, writes, List.filter_cons]
      split_ifs
      · rw [List.map_cons, ← List.singleton_append, AgentCache.weight_append]
        change _ + AgentCache.weight ((writes fs).map Kvsp.Frame.bytes) ≤ _
        omega
      · change AgentCache.weight ((writes fs).map Kvsp.Frame.bytes) ≤ _
        omega
  have hall := congrArg AgentCache.weight (run_writes h fs)
  rw [AgentCache.weight_append, AgentCache.weight_append] at hall
  omega

theorem Incomplete.not_whole {f : Kvsp.Frame} {rest : Bytes} (h : Incomplete (f.bytes ++ rest)) : False := by
  have hne : f.bytes ++ rest ≠ [] := List.append_ne_nil_of_left_ne_nil (List.ne_nil_of_length_pos f.bytes_pos) rest
  obtain ⟨g, after, hg, hafter⟩ := h.resolve_left hne
  have hparse := (parse_whole f rest).symm.trans (parse_part g hg hne hafter)
  simp at hparse

theorem agentInit_follows (bufSize : ℕ) {memory : Bytes} (slaves : Slaves) (h : memory ≠ []) :
    (kvsAgentInfoInit bufSize memory slaves).Follows .start :=
  ⟨rfl, .create h, by simp [Relay.start]⟩

/-- At every moment each slave has been sent, and the cache holds, just the write frames of the stream so far, in
order; outside a full sync the cache is empty. -/
theorem agent_forwards_one_stream (frames : List Kvsp.Frame) (calls : List (AgentEnv × Bytes)) (later : Bytes)
    (hstream : calls.flatMap Prod.snd ++ later = Kvsp.stream frames) (hchunks : ∀ c ∈ calls, c.2 ≠ [])
    (bufSize : ℕ) (memory : Bytes) (slaves : Slaves) (hset : slaves.active.Nodup) (hfixed : ∀ c ∈ calls, c.1.Quiet)
    (hmem : ∀ c ∈ calls, c.1.Granted) (hsends : ∀ c ∈ calls, c.1.Delivers) (hcache : memory ≠ [])
    (hlarge : Relay.start.Fits frames memory.length) :
    (∃ done todo last, handOver calls (kvsAgentInfoInit bufSize memory slaves) = some last ∧ frames = done ++ todo ∧
        calls.flatMap Prod.snd = Kvsp.stream done ++ last.buf ∧ Incomplete last.buf) ∧
      ∀ x ∈ moments [] calls (kvsAgentInfoInit bufSize memory slaves), ∃ done todo cached, frames = done ++ todo ∧
        x.1 = Kvsp.stream done ++ x.2.buf ∧ x.2.fullsyncCache.contents = some cached ∧
        (∀ fd ∈ slaves.active, x.2.sent fd ++ cached = Kvsp.stream (writes done)) ∧
        (x.2.state ≠ .fullSync → x.2.fullsyncCache.used = 0) := by
  have hsettled : Relay.start.Settled := fun _ => rfl
  obtain ⟨⟨seen, last, hrun, hlast, hinc, todo, hfs⟩, hmoments⟩ :=
    (Passed.start (agentInit_follows bufSize slaves hcache) rfl).calls hmem hsends hfixed hset hchunks (Or.inl rfl)
      hstream ⟨frames, rfl⟩ hlarge
  refine ⟨⟨seen, todo, last, hrun, hfs, hlast.received_eq, hinc⟩, ?_⟩
  intro x hx
  obtain ⟨done, todo, hfs, hp⟩ := hmoments x hx
  have hwrites := Relay.run_writes hsettled done
  refine ⟨done, todo, _, hfs, hp.received_eq, AgentCache.contents_of_holds hp.follows.holds, ?_, ?_⟩
  · intro fd hfd
    have hsent : x.2.sent fd = (Relay.start.run done).2.flatten := by
      rw [hp.sent_eq]
      exact (if_pos hfd).trans (List.nil_append _)
    rw [hsent, ← List.flatten_append, hwrites]
    simp [Relay.start, Kvsp.stream, List.flatMap_def]
  · intro hne
    apply hp.follows.holds.used_eq_zero_iff.mpr
    exact Relay.run_settled hsettled done (hp.follows.state_eq ▸ hne)

def syncStream : List Kvsp.Frame :=
  [.ofTokens (.lit "SYNC") [] (by decide +kernel),
    .ofTokens (.lit "SET") [.lit "a", .lit "1"] (by decide +kernel),
    .ofTokens (.lit "FULLSYNC FINISHED") [] (by decide +kernel),
    .ofTokens (.lit "HSET") [.lit "b", .lit "2"] (by decide +kernel)]

def syncCalls : List (AgentEnv × Bytes) :=
  [(.granting, (Kvsp.stream syncStream).take 20), (.granting, (Kvsp.stream syncStream).drop 20)]

theorem agent_forwards_one_stream_example :
    ∃ x ∈ moments [] syncCalls (kvsAgentInfoInit 16 (List.replicate 80 0) ⟨[5, -1], 1⟩),
      x.2.state = .fullSync ∧ x.2.fullsyncCache.used = 29 ∧
      ∃ done todo cached, syncStream = done ++ todo ∧ x.1 = Kvsp.stream done ++ x.2.buf ∧
        x.2.fullsyncCache.contents = some cached ∧ x.2.sent 5 ++ cached = Kvsp.stream (writes done) := by
  have hgood : ∀ c ∈ syncCalls, c.1 = .granting := by simp [syncCalls]
  have hrun : ((moments [] syncCalls (kvsAgentInfoInit 16 (List.replicate 80 0) ⟨[5, -1], 1⟩))[3]?).map
      (fun x => (x.2.state, x.2.fullsyncCache.used)) = some (.fullSync, 29) := by decide +kernel
  obtain ⟨x, hx, hstate⟩ := Option.map_eq_some_iff.mp hrun
  obtain ⟨hstate, hused⟩ := Prod.mk.inj hstate
  have hmem := List.mem_of_getElem? hx
  obtain ⟨done, todo, cached, hfs, hrec, hcached, hsent, -⟩ := (agent_forwards_one_stream syncStream syncCalls []
    (by simp [syncCalls]) (by decide +kernel) 16 (List.replicate 80 0) ⟨[5, -1], 1⟩ (by decide +kernel)
    (fun c hc => hgood c hc ▸ AgentEnv.granting_quiet) (fun c hc => hgood c hc ▸ AgentEnv.granting_granted)
    (fun c hc => hgood c hc ▸ AgentEnv.granting_delivers) (by decide)
    (Relay.fits_of_writes (by decide +kernel))).2 x hmem
  exact ⟨x, hmem, hstate, hused, done, todo, cached, hfs, hrec, hcached, hsent 5 (by decide +kernel)⟩

end Lidis.Agent
