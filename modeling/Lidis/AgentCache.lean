import Lidis.KvsAgent

namespace Lidis.Agent

theorem leBytes_length (k n : ℕ) : (leBytes k n).length = k := by
  induction k generalizing n with
  | zero => rfl
  | succ k ih => rw [leBytes, List.length_cons, ih]

theorem leValue_leBytes {k n : ℕ} (h : n < 256 ^ k) : leValue (leBytes k n) = n := by
  induction k generalizing n with
  | zero =>
    rw [Nat.pow_zero] at h
    exact (Nat.lt_one_iff.mp h).symm
  | succ k ih =>
    have hdiv : n / 256 < 256 ^ k := Nat.div_lt_of_lt_mul (by rwa [Nat.pow_succ, Nat.mul_comm] at h)
    rw [leBytes, leValue, ih hdiv, UInt8.toNat_ofNat', Nat.mod_mod]
    omega

namespace AgentCache

structure Contains (ac : AgentCache) (bytes : Bytes) : Prop where
  read_lt : ac.readPos < ac.capacity
  used_le : ac.used ≤ ac.capacity
  write_eq : ac.writePos = (ac.readPos + ac.used) % ac.capacity
  window_eq : Ring.window ac.cache ac.readPos ac.used = bytes

namespace Contains

variable {ac : AgentCache} {bytes bs rest : Bytes}

theorem used_eq (h : ac.Contains bytes) : ac.used = bytes.length := by
  rw [← h.window_eq, Ring.window_length h.used_le]

theorem create {memory : Bytes} (hm : memory ≠ []) : (kvsAgentCacheCreate memory).Contains [] where
  read_lt := List.length_pos_of_ne_nil hm
  used_le := Nat.zero_le _
  write_eq := (Nat.zero_mod _).symm
  window_eq := Ring.window_zero memory 0

theorem write (h : ac.Contains bytes) (hbs : bs ≠ []) (hroom : bytes.length + bs.length ≤ ac.capacity) :
    ∃ ac', cacheWriteBytes ac bs = (ac', 0) ∧ ac'.Contains (bytes ++ bs) ∧ ac'.capacity = ac.capacity := by
  have hused := h.used_eq
  have hpos : ac.writePos < ac.cache.length := h.write_eq ▸ Nat.mod_lt _ (Nat.zero_lt_of_lt h.read_lt)
  have hlen : (Ring.write ac.cache ac.writePos bs).1.length = ac.cache.length :=
    Ring.write_length hpos (by change bs.length ≤ ac.capacity; omega)
  have hcap : ¬ ac.capacity - ac.used < bs.length := by omega
  refine ⟨{ ac with cache := (Ring.write ac.cache ac.writePos bs).1,
                    writePos := (Ring.write ac.cache ac.writePos bs).2, used := ac.used + bs.length },
    by rw [cacheWriteBytes, if_neg hbs, if_neg hcap], ⟨?_, ?_, ?_, ?_⟩, hlen⟩
  · rw [capacity, hlen]
    exact h.read_lt
  · rw [capacity, hlen]
    change ac.used + bs.length ≤ ac.capacity
    omega
  · rw [capacity, hlen, Ring.write_pos]
    change (ac.writePos + bs.length) % ac.capacity = (ac.readPos + (ac.used + bs.length)) % ac.capacity
    rw [h.write_eq, Nat.mod_add_mod, Nat.add_assoc]
  · change Ring.window (Ring.write ac.cache ac.writePos bs).1 ac.readPos (ac.used + bs.length) = bytes ++ bs
    rw [← h.window_eq, h.write_eq]
    exact Ring.write_window h.read_lt (by change _ ≤ ac.capacity; omega)

theorem skip (h : ac.Contains (bs ++ rest)) :
    ({ ac with readPos := (ac.readPos + bs.length) % ac.capacity, used := ac.used - bs.length } : AgentCache).Contains
      rest := by
  have hused := h.used_eq
  rw [List.length_append] at hused
  have hcap := h.used_le
  have hsum : ac.used = bs.length + rest.length := hused
  refine ⟨Nat.mod_lt _ (Nat.zero_lt_of_lt h.read_lt), (Nat.sub_le _ _).trans hcap, ?_, ?_⟩
  · change ac.writePos = ((ac.readPos + bs.length) % ac.capacity + (ac.used - bs.length)) % ac.capacity
    rw [h.write_eq, Nat.mod_add_mod]
    congr 1
    omega
  · change Ring.window ac.cache ((ac.readPos + bs.length) % ac.capacity) (ac.used - bs.length) = rest
    have hw := h.window_eq
    rw [hsum, Ring.window_add (by change _ ≤ ac.capacity; omega)] at hw
    rw [hsum, Nat.add_sub_cancel_left]
    exact (List.append_inj hw (Ring.window_length (by change _ ≤ ac.capacity; omega))).2

theorem front (h : ac.Contains (bs ++ rest)) :
    Ring.read ac.cache ac.readPos bs.length = (bs, (ac.readPos + bs.length) % ac.capacity) := by
  have hused := h.used_eq
  rw [List.length_append] at hused
  have hcap := h.used_le
  rw [Ring.read_eq h.read_lt (by change _ ≤ ac.capacity; omega)]
  have hw := h.window_eq
  rw [hused, Ring.window_add (by change _ ≤ ac.capacity; omega)] at hw
  rw [(List.append_inj hw (Ring.window_length (by change _ ≤ ac.capacity; omega))).1]
  rfl

theorem read (h : ac.Contains (bs ++ rest)) (hbs : bs ≠ []) :
    ∃ ac', cacheReadBytes ac bs.length = (ac', some bs) ∧ ac'.Contains rest ∧ ac'.capacity = ac.capacity := by
  have hused := h.used_eq
  rw [List.length_append] at hused
  refine ⟨_, ?_, h.skip, rfl⟩
  rw [cacheReadBytes, if_neg (fun h0 => hbs (List.length_eq_zero_iff.mp h0)), if_neg (by omega), h.front]

end Contains

def record (b : Bytes) : Bytes := sizeBytes b.length ++ b

def weight (recs : List Bytes) : ℕ := (recs.flatMap record).length

structure Holds (ac : AgentCache) (recs : List Bytes) : Prop where
  contains : ac.Contains (recs.flatMap record)
  valid : ∀ b ∈ recs, b ≠ [] ∧ b.length ≤ 2 ^ 64 - 1 - 8

theorem record_length (b : Bytes) : (record b).length = 8 + b.length := by
  rw [record, List.length_append, sizeBytes, leBytes_length]

theorem weight_append (xs ys : List Bytes) : weight (xs ++ ys) = weight xs + weight ys := by
  rw [weight, List.flatMap_append, List.length_append]
  rfl

theorem weight_singleton (b : Bytes) : weight [b] = 8 + b.length := by
  rw [weight, List.flatMap_singleton, record_length]

theorem length_le_weight (recs : List Bytes) : recs.length ≤ weight recs := by
  induction recs with
  | nil => exact le_rfl
  | cons b recs ih =>
    rw [← List.singleton_append, List.length_append, weight_append, weight_singleton, List.length_singleton]
    omega

namespace Holds

variable {ac : AgentCache} {recs : List Bytes} {b : Bytes}

theorem used_eq (h : ac.Holds recs) : ac.used = weight recs := h.contains.used_eq

theorem used_eq_zero_iff (h : ac.Holds recs) : ac.used = 0 ↔ recs = [] := by
  rw [h.used_eq]
  constructor
  · intro h0
    exact List.length_eq_zero_iff.mp (Nat.le_zero.mp (h0 ▸ length_le_weight recs))
  · rintro rfl
    rfl

theorem write (h : ac.Holds recs) (hb : b ≠ []) (hlen : b.length ≤ 2 ^ 64 - 1 - 8)
    (hroom : weight (recs ++ [b]) ≤ ac.capacity) :
    ∃ ac', kvsAgentCacheWrite ac b = (ac', 0) ∧ ac'.Holds (recs ++ [b]) ∧ ac'.capacity = ac.capacity := by
  have hused := h.used_eq
  rw [weight_append, weight_singleton] at hroom
  have hsize : (sizeBytes b.length).length = 8 := leBytes_length 8 b.length
  have hne : sizeBytes b.length ≠ [] := List.ne_nil_of_length_pos (by omega)
  obtain ⟨ac₁, hw₁, hc₁, hcap₁⟩ := h.contains.write hne (by rw [hsize]; change weight recs + 8 ≤ _; omega)
  obtain ⟨ac₂, hw₂, hc₂, hcap₂⟩ := hc₁.write hb
    (by rw [hcap₁, List.length_append, hsize]; change weight recs + 8 + _ ≤ _; omega)
  refine ⟨ac₂, ?_, ⟨?_, ?_⟩, hcap₂.trans hcap₁⟩
  · rw [kvsAgentCacheWrite, if_neg hb, if_neg (by omega), if_neg (by omega), hw₁]
    simp only [hw₂]
  · rwa [List.flatMap_append, List.flatMap_singleton, record, ← List.append_assoc]
  · intro c hc
    rcases List.mem_append.mp hc with hc | hc
    · exact h.valid c hc
    · rw [List.mem_singleton.mp hc]
      exact ⟨hb, hlen⟩

theorem read (h : ac.Holds (b :: recs)) :
    ∃ ac', kvsAgentCacheRead ac true = (ac', some b) ∧ ac'.Holds recs ∧ ac'.capacity = ac.capacity := by
  obtain ⟨hb, hlen⟩ := h.valid b List.mem_cons_self
  have hcont := h.contains
  have hsize : (sizeBytes b.length).length = 8 := leBytes_length 8 b.length
  rw [List.flatMap_cons, record, List.append_assoc] at hcont
  have hused := hcont.used_eq
  rw [List.length_append, List.length_append, hsize] at hused
  have hpeek : cachePeekLen ac = some b.length := by
    have hfront := hcont.front
    rw [hsize] at hfront
    rw [cachePeekLen, if_neg (by omega), hfront]
    exact congrArg some (leValue_leBytes (by omega))
  have hskip := hcont.skip
  rw [hsize] at hskip
  obtain ⟨ac', hr, hc, hcap⟩ := hskip.read hb
  refine ⟨ac', ?_, ⟨hc, fun c hc => h.valid c (List.mem_cons_of_mem b hc)⟩, hcap⟩
  have hpos := List.length_pos_of_ne_nil hb
  rw [kvsAgentCacheRead, hpeek]
  dsimp only
  rw [if_neg (by omega), if_neg (by simp), hr]

theorem write_cases (h : ac.Holds recs) (b : Bytes) :
    (∃ ac', kvsAgentCacheWrite ac b = (ac', 0) ∧ ac'.Holds (recs ++ [b]) ∧ ac'.capacity = ac.capacity) ∨
      ∃ ret, ret ≠ 0 ∧ kvsAgentCacheWrite ac b = (ac, ret) := by
  by_cases hb : b = []
  · exact Or.inr ⟨-1, by decide, by rw [kvsAgentCacheWrite, if_pos hb]⟩
  by_cases hlen : 2 ^ 64 - 1 - 8 < b.length
  · exact Or.inr ⟨-2, by decide, by rw [kvsAgentCacheWrite, if_neg hb, if_pos hlen]⟩
  by_cases hroom : ac.capacity - ac.used < 8 + b.length
  · exact Or.inr ⟨-2, by decide, by rw [kvsAgentCacheWrite, if_neg hb, if_neg hlen, if_pos hroom]⟩
  · refine Or.inl (h.write hb (not_lt.mp hlen) ?_)
    have hused := h.used_eq
    have hle := h.contains.used_le
    rw [weight_append, weight_singleton]
    omega

theorem read_empty (h : ac.Holds []) (alloc : Bool) : kvsAgentCacheRead ac alloc = (ac, none) := by
  have hused := h.used_eq_zero_iff.mpr rfl
  rw [kvsAgentCacheRead, cachePeekLen, if_pos (by omega)]

theorem read_starved (ac : AgentCache) : kvsAgentCacheRead ac false = (ac, none) := by
  rw [kvsAgentCacheRead]
  split
  · rfl
  · split_ifs <;> first | rfl | contradiction

theorem read_cases (h : ac.Holds recs) (alloc : Bool) :
    (∃ b rest ac', recs = b :: rest ∧ kvsAgentCacheRead ac alloc = (ac', some b) ∧ ac'.Holds rest ∧
      ac'.capacity = ac.capacity) ∨ ((alloc = true → recs = []) ∧ kvsAgentCacheRead ac alloc = (ac, none)) := by
  cases alloc with
  | false => exact Or.inr ⟨by simp, read_starved ac⟩
  | true =>
    cases recs with
    | nil => exact Or.inr ⟨fun _ => rfl, h.read_empty true⟩
    | cons b rest =>
      obtain ⟨ac', hr, hH, hcap⟩ := h.read
      exact Or.inl ⟨b, rest, ac', rfl, hr, hH, hcap⟩

end Holds

inductive CacheCall where
  | write (buf : Bytes)
  | read (alloc : Bool)

/-- A cache with the messages whose writes returned 0 and the buffers that the reads returned. kvs_sync.c has the
same functions once more, word for word. -/
structure CacheRun where
  ac : AgentCache
  written : List Bytes
  got : List Bytes

namespace CacheRun

def created (memory : Bytes) : CacheRun := ⟨kvsAgentCacheCreate memory, [], []⟩

def step (r : CacheRun) : CacheCall → CacheRun
  | .write buf =>
    let (ac, ret) := kvsAgentCacheWrite r.ac buf
    { r with ac := ac, written := if ret = 0 then r.written ++ [buf] else r.written }
  | .read alloc =>
    let (ac, buf) := kvsAgentCacheRead r.ac alloc
    { r with ac := ac, got := r.got ++ buf.toList }

def run (r : CacheRun) (calls : List CacheCall) : CacheRun := calls.foldl step r

structure Queues (n : ℕ) (r : CacheRun) (queue : List Bytes) : Prop where
  holds : r.ac.Holds queue
  capacity : r.ac.capacity = n
  order : r.written = r.got ++ queue

theorem Queues.step {n : ℕ} {r : CacheRun} {queue : List Bytes} (h : r.Queues n queue) (call : CacheCall) :
    ∃ queue', (r.step call).Queues n queue' := by
  cases call with
  | write buf =>
    rcases h.holds.write_cases buf with ⟨ac', hw, hH, hcap⟩ | ⟨ret, hret, hw⟩
    · refine ⟨queue ++ [buf], ?_⟩
      simp only [CacheRun.step, hw, ↓reduceIte]
      exact ⟨hH, hcap.trans h.capacity, by rw [h.order, List.append_assoc]⟩
    · refine ⟨queue, ?_⟩
      simp only [CacheRun.step, hw, if_neg hret]
      exact h
  | read alloc =>
    rcases h.holds.read_cases alloc with ⟨b, rest, ac', rfl, hr, hH, hcap⟩ | ⟨-, hr⟩
    · refine ⟨rest, ?_⟩
      simp only [CacheRun.step, hr]
      exact ⟨hH, hcap.trans h.capacity, by rw [h.order, List.append_assoc]; rfl⟩
    · refine ⟨queue, ?_⟩
      simp only [CacheRun.step, hr]
      exact ⟨h.holds, h.capacity, by rw [h.order]; simp⟩

theorem Queues.run {n : ℕ} {r : CacheRun} {queue : List Bytes} (h : r.Queues n queue) (calls : List CacheCall) :
    ∃ queue', (r.run calls).Queues n queue' := by
  induction calls generalizing r queue with
  | nil => exact ⟨queue, h⟩
  | cons call calls ih =>
    obtain ⟨queue', h'⟩ := h.step call
    exact ih h'

theorem created_queues {memory : Bytes} (hm : memory ≠ []) : (created memory).Queues memory.length [] :=
  ⟨⟨Contains.create hm, by simp⟩, rfl, rfl⟩

/-- The positions are in order, the reads have returned the messages written, whole and in order, the next read returns
the oldest message left, a write with room for the message and its length succeeds, and a call that fails changes
nothing. -/
structure IsFifo (n : ℕ) (r : CacheRun) : Prop where
  capacity : r.ac.capacity = n
  used_le : r.ac.used ≤ n
  read_lt : r.ac.readPos < n
  write_lt : r.ac.writePos < n
  write_eq : r.ac.writePos = (r.ac.readPos + r.ac.used) % n
  order : ∃ queue, r.written = r.got ++ queue ∧ (r.ac.used = 0 ↔ queue = []) ∧
    ∀ b rest, queue = b :: rest → (kvsAgentCacheRead r.ac true).2 = some b
  write_room : ∀ buf, buf ≠ [] → 8 + buf.length < 2 ^ 64 → r.ac.used + (8 + buf.length) ≤ n →
    (kvsAgentCacheWrite r.ac buf).2 = 0
  write_fails : ∀ buf, (kvsAgentCacheWrite r.ac buf).2 ≠ 0 → (kvsAgentCacheWrite r.ac buf).1 = r.ac
  read_fails : ∀ alloc, (kvsAgentCacheRead r.ac alloc).2 = none → (kvsAgentCacheRead r.ac alloc).1 = r.ac

theorem agent_cache_is_fifo (memory : Bytes) (hm : memory ≠ []) (calls : List CacheCall) :
    ((created memory).run calls).IsFifo memory.length := by
  obtain ⟨queue, hq⟩ := (created_queues hm).run calls
  have hc := hq.holds.contains
  have hcap := hq.capacity
  have hpos : 0 < memory.length := List.length_pos_of_ne_nil hm
  refine ⟨hcap, hcap ▸ hc.used_le, hcap ▸ hc.read_lt, ?_, hcap ▸ hc.write_eq,
    ⟨queue, hq.order, hq.holds.used_eq_zero_iff, ?_⟩, ?_, ?_, ?_⟩
  · rw [hc.write_eq, hcap]
    exact Nat.mod_lt _ hpos
  · rintro b rest rfl
    obtain ⟨ac', hread, -, -⟩ := hq.holds.read
    rw [hread]
  · intro buf hbuf hlen hroom
    have hused := hq.holds.used_eq
    obtain ⟨ac', hw, -, -⟩ := hq.holds.write hbuf (by omega) (by rw [weight_append, weight_singleton, hcap]; omega)
    rw [hw]
  · intro buf hne
    rcases hq.holds.write_cases buf with ⟨ac', hw, -, -⟩ | ⟨ret, -, hw⟩
    · exact absurd (by rw [hw]) hne
    · rw [hw]
  · intro alloc hnone
    rcases hq.holds.read_cases alloc with ⟨b, rest, ac', -, hread, -, -⟩ | ⟨-, hread⟩
    · simp [hread] at hnone
    · rw [hread]

theorem agent_cache_is_fifo_example :
    ((created (List.replicate 21 0)).run
      [.write [1, 2, 3], .read true, .write [4, 5], .write [6, 7, 8], .read false, .read true]).IsFifo 21 ∧
    ((created (List.replicate 21 0)).run
      [.write [1, 2, 3], .read true, .write [4, 5], .write [6, 7, 8], .read false, .read true]).got = [[1, 2, 3], [4, 5]] :=
  ⟨agent_cache_is_fifo (List.replicate 21 0) (by decide) _, by decide⟩

end CacheRun

end AgentCache

end Lidis.Agent
