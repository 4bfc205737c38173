import Lidis.AgentThreads

namespace Lidis.Agent

structure Slaves.Sound (s : Slaves) : Prop where
  total : s.total = s.table.countP (fun x => decide (0 ≤ x))
  distinct : ∀ (i j : ℕ) (x : ℤ), 0 ≤ x → s.table[i]? = some x → s.table[j]? = some x → i = j

theorem Slaves.create_sound (size : ℕ) : (kvsSlavesCreate size).Sound where
  total := by simp [kvsSlavesCreate, List.countP_replicate]
  distinct := by
    intro i j x hx hi _
    rw [kvsSlavesCreate, List.getElem?_replicate] at hi
    split at hi
    · injection hi with hi
      omega
    · cases hi

namespace Slaves.Sound

variable {s : Slaves} {fd : ℤ}

theorem delete (h : s.Sound) (hfd : 0 ≤ fd) :
    (kvsSlavesDelete s fd).1.Sound ∧ (kvsSlavesDelete s fd).1.table.length = s.table.length ∧
      ∀ (i : ℕ) (x : ℤ), 0 ≤ x → ((kvsSlavesDelete s fd).1.table[i]? = some x ↔ s.table[i]? = some x ∧ x ≠ fd) := by
  have hmissing : fd ∉ s.table →
      ∀ (i : ℕ) (x : ℤ), 0 ≤ x → (s.table[i]? = some x ↔ s.table[i]? = some x ∧ x ≠ fd) := by
    intro hfd i x _
    refine ⟨fun hx => ⟨hx, ?_⟩, And.left⟩
    rintro rfl
    exact hfd (List.mem_of_getElem? hx)
  rw [kvsSlavesDelete]
  split_ifs with htotal
  · refine ⟨h, rfl, hmissing (fun hmem => ?_)⟩
    have hzero := List.countP_eq_zero.mp (h.total.symm.trans htotal) fd hmem
    exact hzero (by simpa using hfd)
  split
  next table hedit =>
    obtain ⟨k, x, hk, hx, rfl⟩ := editFirst_set hedit
    obtain rfl : x = fd := by simpa using hx
    obtain ⟨hlt, hget⟩ := List.getElem?_eq_some_iff.mp hk
    have hslot : ∀ (i : ℕ) (y : ℤ), 0 ≤ y → ((s.table.set k (-1))[i]? = some y ↔ s.table[i]? = some y ∧ y ≠ x) := by
      intro i y hy
      rw [List.getElem?_set]
      split_ifs with hki
      · subst hki
        rw [hk]
        constructor
        · intro he
          injection he with he
          omega
        · rintro ⟨he, hne⟩
          exact absurd (Option.some.inj he).symm hne
      · refine ⟨fun hi => ⟨hi, ?_⟩, And.left⟩
        rintro rfl
        exact hki (h.distinct k i y hfd hk hi)
    refine ⟨⟨?_, fun i j y hy hi hj => ?_⟩, List.length_set, hslot⟩
    · simp only [List.countP_set hlt, hget, h.total, hfd]
      simp
    · exact h.distinct i j y hy ((hslot i y hy).mp hi).1 ((hslot j y hy).mp hj).1
  next hedit =>
    refine ⟨h, rfl, hmissing (fun hmem => ?_)⟩
    simpa using mem_of_editFirst_none hedit hmem

theorem insert (h : s.Sound) (hfd : 0 ≤ fd) (hnew : fd ∉ s.table) :
    (kvsSlavesInsert s fd).1.Sound ∧ (kvsSlavesInsert s fd).1.table.length = s.table.length ∧
      ∀ x, 0 ≤ x → (x ∈ (kvsSlavesInsert s fd).1.table ↔ x ∈ s.table ∨ x = fd ∧ s.total < s.table.length) := by
  rw [kvsSlavesInsert]
  split_ifs with hfull
  · exact ⟨h, rfl, fun x _ => by simp [hfull]⟩
  have hlt : s.total < s.table.length := by
    have := h.total ▸ List.countP_le_length
    omega
  split
  next table hedit =>
    obtain ⟨k, x, hk, hx, rfl⟩ := editFirst_set hedit
    obtain ⟨hk', hget⟩ := List.getElem?_eq_some_iff.mp hk
    have hneg : x < 0 := by simpa using hx
    have hslot : ∀ (i : ℕ) (y : ℤ), 0 ≤ y → ((s.table.set k fd)[i]? = some y ↔ s.table[i]? = some y ∨ i = k ∧ y = fd) := by
      intro i y hy
      rw [List.getElem?_set]
      split_ifs with hki
      · subst hki
        rw [hk]
        simp only [Option.some.injEq, true_and]
        omega
      · simp only [Ne.symm hki, false_and, or_false]
    refine ⟨⟨?_, fun i j y hy hi hj => ?_⟩, List.length_set, fun y hy => ?_⟩
    · simp only [List.countP_set hk', hget, h.total, hfd, not_le.mpr hneg]
      simp
    · rcases (hslot i y hy).mp hi with hold | ⟨hik, hyfd⟩ <;> rcases (hslot j y hy).mp hj with hold' | ⟨hjk, hyfd'⟩
      · exact h.distinct i j y hy hold hold'
      · exact absurd (hyfd' ▸ List.mem_of_getElem? hold) hnew
      · exact absurd (hyfd ▸ List.mem_of_getElem? hold') hnew
      · exact hik.trans hjk.symm
    · simp only [List.mem_iff_getElem?, hslot _ y hy, hlt, and_true]
      constructor
      · rintro ⟨i, hi | ⟨-, hi⟩⟩
        · exact Or.inl ⟨i, hi⟩
        · exact Or.inr hi
      · rintro (⟨i, hi⟩ | hy)
        · exact ⟨i, Or.inl hi⟩
        · exact ⟨k, Or.inr ⟨rfl, hy⟩⟩
  next hedit =>
    have hall : s.table.countP (fun x => decide (0 ≤ x)) = s.table.length := by
      rw [List.countP_eq_length]
      intro x hx
      simpa using mem_of_editFirst_none hedit hx
    exact absurd (h.total.trans hall) hfull

end Slaves.Sound

theorem sendAll_prefix {results : List SendResult} {buf out : Bytes} {ret : ℤ} (h : sendAll results buf = some (out, ret)) :
    out <+: buf ∧ (ret ≠ 0 → out ≠ buf) := by
  induction results generalizing buf out with
  | nil =>
    cases buf with
    | nil =>
      obtain ⟨rfl, rfl⟩ := Prod.mk.inj (Option.some.inj h)
      exact ⟨List.nil_prefix, fun hne => absurd rfl hne⟩
    | cons c buf => cases h
  | cons r results ih =>
    cases buf with
    | nil =>
      obtain ⟨rfl, rfl⟩ : out = [] ∧ ret = 0 := by simpa [sendAll, eq_comm] using h
      exact ⟨List.nil_prefix, fun hne => absurd rfl hne⟩
    | cons c buf =>
      rcases r with (_ | n) | _ | _
      · obtain ⟨rfl, rfl⟩ := Prod.mk.inj (Option.some.inj h)
        exact ⟨List.nil_prefix, fun _ => (List.cons_ne_nil c buf).symm⟩
      · obtain ⟨⟨out', ret'⟩, hrest, hout⟩ := Option.bind_eq_some_iff.mp h
        obtain ⟨rfl, rfl⟩ := Prod.mk.inj (Option.some.inj hout)
        obtain ⟨hpre, hne⟩ := ih hrest
        have hsplit : (c :: buf).take (n + 1) ++ (c :: buf).drop (n + 1) = c :: buf := List.take_append_drop _ _
        refine ⟨?_, fun hret he => hne hret ?_⟩
        · obtain ⟨after, hafter⟩ := hpre
          exact ⟨after, by rw [List.append_assoc, hafter, hsplit]⟩
        · exact List.append_cancel_left (he.trans hsplit.symm)
      · exact ih h
      · obtain ⟨rfl, rfl⟩ := Prod.mk.inj (Option.some.inj h)
        exact ⟨List.nil_prefix, fun _ => (List.cons_ne_nil c buf).symm⟩

/-- What a pass over the table does to the slaves it comes to: each of them has got the whole buffer, or is out of the
table with a part of it. -/
structure Delivered (visited : ℤ → Prop) (buf : Bytes) (a a' : AgentInfo) : Prop where
  rest : a' = { a with slaves := a'.slaves, sent := a'.sent }
  sound : a'.slaves.Sound
  length : a'.slaves.table.length = a.slaves.table.length
  reached : ∀ fd, 0 < fd → visited fd → (fd ∈ a'.slaves.table ∧ a'.sent fd = a.sent fd ++ buf) ∨
    (fd ∉ a'.slaves.table ∧ ∃ p, p <+: buf ∧ p ≠ buf ∧ a'.sent fd = a.sent fd ++ p)
  spared : ∀ fd, 0 ≤ fd → ¬ (0 < fd ∧ visited fd) →
    (fd ∈ a'.slaves.table ↔ fd ∈ a.slaves.table) ∧ a'.sent fd = a.sent fd

theorem Delivered.congr {v w : ℤ → Prop} {buf : Bytes} {a a' : AgentInfo} (h : Delivered v buf a a')
    (hvw : ∀ fd, 0 < fd → (v fd ↔ w fd)) : Delivered w buf a a' where
  rest := h.rest
  sound := h.sound
  length := h.length
  reached := fun fd hpos hw => h.reached fd hpos ((hvw fd hpos).mpr hw)
  spared := fun fd hfd hw => h.spared fd hfd (fun hv => hw ⟨hv.1, (hvw fd hv.1).mp hv.2⟩)

theorem sendSlots_delivered {env : AgentEnv} {buf : Bytes} {slots : List ℕ} {a a' : AgentInfo} (hs : a.slaves.Sound)
    (hslots : slots.Nodup) (h : sendSlots env buf slots a = some a') :
    Delivered (fun fd => ∃ i ∈ slots, a.slaves.table[i]? = some fd) buf a a' := by
  induction slots generalizing a with
  | nil =>
    obtain rfl := Option.some.inj h
    exact ⟨rfl, hs, rfl, by simp, by simp⟩
  | cons i slots ih =>
    obtain ⟨hi, hslots⟩ := List.nodup_cons.mp hslots
    rw [sendSlots] at h
    split at h
    next hnone =>
      exact (ih hs hslots h).congr (by simp [hnone])
    next fd hfd =>
      split_ifs at h with hpos
      · obtain ⟨⟨out, ret⟩, hsend, h⟩ := Option.bind_eq_some_iff.mp h
        obtain ⟨hpre, hpart⟩ := sendAll_prefix hsend
        -- the table after this slot: as before, or without the slave that failed
        obtain ⟨a₁, hrun, hsent, hsound, hlen, hrest, htable⟩ : ∃ a₁ : AgentInfo, sendSlots env buf slots a₁ = some a' ∧
            a₁.sent = Function.update a.sent fd (a.sent fd ++ out) ∧ a₁.slaves.Sound ∧
            a₁.slaves.table.length = a.slaves.table.length ∧ a₁ = { a with slaves := a₁.slaves, sent := a₁.sent } ∧
            ∀ (j : ℕ) (x : ℤ), 0 ≤ x → (a₁.slaves.table[j]? = some x ↔ a.slaves.table[j]? = some x ∧ (ret ≠ 0 → x ≠ fd)) := by
          by_cases hret : ret = 0
          · subst hret
            exact ⟨_, h, rfl, hs, rfl, rfl, by simp⟩
          · simp only [ne_eq, hret, not_false_eq_true, ↓reduceIte] at h
            obtain ⟨hdel, hdellen, hdelslot⟩ := hs.delete hpos.le
            exact ⟨_, h, rfl, hdel, hdellen, rfl, by simpa [hret] using hdelslot⟩
        have hmem : ∀ x, 0 ≤ x → (x ∈ a₁.slaves.table ↔ x ∈ a.slaves.table ∧ (ret ≠ 0 → x ≠ fd)) := by
          intro x hx
          simp only [List.mem_iff_getElem?, htable _ x hx, exists_and_right]
        have hnext := ih hsound hslots hrun
        have hself : ¬ (0 < fd ∧ ∃ j ∈ slots, a₁.slaves.table[j]? = some fd) := by
          rintro ⟨-, j, hj, hjfd⟩
          have := hs.distinct i j fd hpos.le hfd ((htable j fd hpos.le).mp hjfd).1
          exact hi (this ▸ hj)
        have hother : ∀ x, x ≠ fd → a₁.sent x = a.sent x := fun x hx => by rw [hsent, Function.update_of_ne hx]
        refine ⟨?_, hnext.sound, hnext.length.trans hlen, fun x hx hv => ?_, fun x hx hv => ?_⟩
        · rw [hnext.rest, hrest]
        · by_cases hxfd : x = fd
          · subst hxfd
            obtain ⟨hin, hgot⟩ := hnext.spared x hx.le hself
            rw [hsent, Function.update_self] at hgot
            rw [hin, hmem x hx.le, hgot]
            by_cases hret : ret = 0
            · subst hret
              exact Or.inl ⟨⟨List.mem_of_getElem? hfd, fun hne => absurd rfl hne⟩, by rw [sendAll_zero hsend]⟩
            · exact Or.inr ⟨fun hin => hin.2 hret rfl, out, hpre, hpart hret, rfl⟩
          · rw [← hother x hxfd]
            refine hnext.reached x hx ?_
            obtain ⟨j, hj, hjx⟩ := hv
            have hji : j ≠ i := by
              rintro rfl
              exact hxfd (Option.some.inj (hjx.symm.trans hfd))
            exact ⟨j, (List.mem_cons.mp hj).resolve_left hji, (htable j x hx.le).mpr ⟨hjx, fun _ => hxfd⟩⟩
        · have hxfd : x ≠ fd := by
            rintro rfl
            exact hv ⟨hpos, i, List.mem_cons_self, hfd⟩
          have hmiss : ¬ (0 < x ∧ ∃ j ∈ slots, a₁.slaves.table[j]? = some x) := by
            rintro ⟨hx', j, hj, hjx⟩
            exact hv ⟨hx', j, List.mem_cons_of_mem i hj, ((htable j x hx).mp hjx).1⟩
          obtain ⟨hin, hgot⟩ := hnext.spared x hx hmiss
          refine ⟨?_, hgot.trans (hother x hxfd)⟩
          rw [hin, hmem x hx]
          exact and_iff_left (fun _ => hxfd)
      · refine (ih hs hslots h).congr (fun x hx => ?_)
        have hne : x ≠ fd := fun he => hpos (he ▸ hx)
        simp [hfd, hne.symm]

theorem agentSend_delivered {env : AgentEnv} {buf : Bytes} {a a' : AgentInfo} {ret : ℤ} (hs : a.slaves.Sound)
    (h : kvsAgentSend env buf a = some (ret, a')) :
    (buf ≠ [] → ret = 0) ∧ Delivered (· ∈ a.slaves.table) buf a a' := by
  rw [kvsAgentSend] at h
  split_ifs at h with hbuf
  · obtain ⟨rfl, rfl⟩ := Prod.mk.inj (Option.some.inj h)
    refine ⟨fun hne => absurd hbuf hne, rfl, hs, rfl, fun fd _ hfd => Or.inl ⟨hfd, ?_⟩, fun fd _ _ => ⟨Iff.rfl, rfl⟩⟩
    rw [hbuf, List.append_nil]
  obtain ⟨mid, hrun, hmid⟩ := Option.bind_eq_some_iff.mp h
  obtain ⟨rfl, rfl⟩ := Prod.mk.inj (Option.some.inj hmid)
  refine ⟨fun _ => rfl, (sendSlots_delivered hs List.nodup_range hrun).congr (fun fd _ => ?_)⟩
  constructor
  · rintro ⟨i, -, hi⟩
    exact List.mem_of_getElem? hi
  · intro hfd
    obtain ⟨i, hi⟩ := List.mem_iff_getElem?.mp hfd
    exact ⟨i, List.mem_range.mpr (List.getElem?_eq_some_iff.mp hi).1, hi⟩

namespace Threads

def carried (s : Threads) (p : Peer) : Bytes := if p.isOpen then s.agent.sent p.fd else p.carried

def Slotted (s : Threads) (p : Peer) : Prop := p.isOpen = true ∧ 0 < p.fd ∧ p.fd ∈ s.agent.slaves.table

/-- The records from the `n`th on up to some point, the one after it perhaps in part. -/
def Portion (records : List Bytes) (n : ℕ) (out : Bytes) : Prop :=
  ∃ m q, n ≤ m ∧ m ≤ records.length ∧ q <+: (records[m]?).getD [] ∧ out = ((records.take m).drop n).flatten ++ q

theorem Portion.whole {records : List Bytes} {n : ℕ} (hn : n ≤ records.length) : Portion records n (records.drop n).flatten :=
  ⟨records.length, [], hn, le_rfl, List.nil_prefix, by simp⟩

theorem Portion.append {records : List Bytes} {n : ℕ} {out : Bytes} (h : Portion records n out) (buf : Bytes) :
    Portion (records ++ [buf]) n out := by
  obtain ⟨m, q, hnm, hm, hq, rfl⟩ := h
  refine ⟨m, q, hnm, by simp; omega, ?_, by rw [List.take_append_of_le_length hm]⟩
  rcases Nat.lt_or_ge m records.length with hlt | hge
  · rwa [List.getElem?_append_left hlt]
  · rw [List.getElem?_eq_none hge] at hq
    rw [List.prefix_nil.mp hq]
    exact List.nil_prefix

theorem Portion.part {records : List Bytes} {n : ℕ} (hn : n ≤ records.length) {buf q : Bytes} (hq : q <+: buf) :
    Portion (records ++ [buf]) n ((records.drop n).flatten ++ q) :=
  ⟨records.length, q, hn, by simp, by simpa using hq, by simp⟩

/-- What a connection has been sent, by the number of records before it joined. -/
def Share (records : List Bytes) (slotted : Prop) (out : Bytes) : Option ℕ → Prop
  | none => ¬ slotted ∧ out = []
  | some n => n ≤ records.length ∧ Portion records n out ∧ (slotted → out = (records.drop n).flatten)

structure Inv (s : Threads) : Prop where
  sound : s.agent.slaves.Sound
  nonneg : ∀ p ∈ s.peers, 0 ≤ p.fd
  tabled : ∀ fd ∈ s.agent.slaves.table, 0 ≤ fd → s.isOpen fd = true
  share : ∀ p ∈ s.peers, Share s.records (s.Slotted p) (s.carried p) p.joined

theorem isOpen_iff {s : Threads} {fd : ℤ} : s.isOpen fd = true ↔ ∃ p ∈ s.peers, p.isOpen = true ∧ p.fd = fd := by
  simp [isOpen]

theorem start_inv (size bufSize : ℕ) (memory : Bytes) : (start size bufSize memory).Inv where
  sound := Slaves.create_sound size
  nonneg := by simp [start]
  tabled := by
    intro fd hfd hpos
    have := (List.mem_replicate.mp hfd).2
    omega
  share := by simp [start]

structure Untouched (s s' : Threads) : Prop where
  slaves : s'.agent.slaves = s.agent.slaves
  sent : s'.agent.sent = s.agent.sent
  peers : s'.peers = s.peers
  records : s'.records = s.records
  received : s.received <+: s'.received

section

variable {s s' : Threads}

theorem Inv.untouched (h : s.Inv) (hsame : Untouched s s') : s'.Inv where
  sound := hsame.slaves ▸ h.sound
  nonneg := hsame.peers ▸ h.nonneg
  tabled := by
    intro fd hfd hpos
    rw [isOpen, hsame.peers]
    exact h.tabled fd (hsame.slaves ▸ hfd) hpos
  share := by
    intro p hp
    have hcarried : s'.carried p = s.carried p := by rw [carried, carried, hsame.sent]
    have hslotted : s'.Slotted p = s.Slotted p := by rw [Slotted, Slotted, hsame.slaves]
    rw [hsame.records, hcarried, hslotted]
    exact h.share p (hsame.peers ▸ hp)

def sent (s : Threads) (buf : Bytes) (a : AgentInfo) : Threads := { s with agent := a, records := s.records ++ [buf] }

/-- The records grow by one that the slotted connections get, whole or as their last. -/
theorem Inv.sent {a : AgentInfo} {buf : Bytes} (h : s.Inv) (hdel : Delivered (· ∈ s.agent.slaves.table) buf s.agent a) :
    (s.sent buf a).Inv := by
  have hkept : ∀ fd, 0 ≤ fd → fd ∈ a.slaves.table → fd ∈ s.agent.slaves.table := by
    intro fd hfd hin
    by_contra hout
    exact hout ((hdel.spared fd hfd (fun hv => hout hv.2)).1.mp hin)
  refine ⟨hdel.sound, h.nonneg, fun fd hfd hpos => h.tabled fd (hkept fd hpos hfd) hpos, fun p hp => ?_⟩
  have hshare := h.share p hp
  have hnonneg := h.nonneg p hp
  have hslotted : (s.sent buf a).Slotted p → s.Slotted p := fun hs => ⟨hs.1, hs.2.1, hkept p.fd hnonneg hs.2.2⟩
  -- a connection without a slot is passed over
  have hpassed : ¬ s.Slotted p → (s.sent buf a).carried p = s.carried p := by
    intro hns
    rw [carried, carried]
    split_ifs with hopen
    · refine (hdel.spared p.fd hnonneg ?_).2
      rintro ⟨hpos, hin⟩
      exact hns ⟨hopen, hpos, hin⟩
    · rfl
  cases hj : p.joined with
  | none =>
    rw [hj] at hshare
    exact ⟨fun hs => hshare.1 (hslotted hs), (hpassed hshare.1).trans hshare.2⟩
  | some n =>
    rw [hj] at hshare
    obtain ⟨hn, hportion, hall⟩ := hshare
    have hlen : n ≤ (s.records ++ [buf]).length := by
      rw [List.length_append]
      omega
    by_cases hs : s.Slotted p
    · have hout : s.agent.sent p.fd = (s.records.drop n).flatten := by
        rw [← hall hs, carried, if_pos hs.1]
      have hcarried : (s.sent buf a).carried p = a.sent p.fd := if_pos hs.1
      rcases hdel.reached p.fd hs.2.1 hs.2.2 with ⟨-, hgot⟩ | ⟨hlost, q, hq, -, hgot⟩
      · have hwhole : (s.sent buf a).carried p = ((s.records ++ [buf]).drop n).flatten := by
          rw [hcarried, hgot, hout, List.drop_append_of_le_length hn, List.flatten_append]
          simp
        exact ⟨hlen, hwhole ▸ Portion.whole hlen, fun _ => hwhole⟩
      · refine ⟨hlen, ?_, fun hs' => absurd hs'.2.2 hlost⟩
        rw [hcarried, hgot, hout]
        exact Portion.part hn hq
    · rw [hpassed hs]
      exact ⟨hlen, hportion.append buf, fun hs' => absurd (hslotted hs') hs⟩

theorem Inv.accept {fd : ℤ} (h : s.Inv) (hfd : 0 ≤ fd) (hopen : s.isOpen fd = false) : (s.accept fd).Inv := by
  have hnew : fd ∉ s.agent.slaves.table := by
    intro hin
    rw [h.tabled fd hin hfd] at hopen
    cases hopen
  have hother : ∀ p ∈ s.peers, p.isOpen = true → p.fd ≠ fd := by
    intro p hp ho he
    rw [isOpen_iff.mpr ⟨p, hp, ho, he⟩] at hopen
    cases hopen
  obtain ⟨hsound, -, htable⟩ := h.sound.insert hfd hnew
  rw [Threads.accept, if_neg (not_lt.mpr hfd)]
  refine ⟨hsound, ?_, ?_, ?_⟩
  · intro p hp
    rcases List.mem_append.mp hp with hp | hp
    · exact h.nonneg p hp
    · exact List.mem_singleton.mp hp ▸ hfd
  · intro x hx hpos
    rw [isOpen_iff]
    rcases (htable x hpos).mp hx with hx | ⟨rfl, -⟩
    · obtain ⟨p, hp, hp'⟩ := isOpen_iff.mp (h.tabled x hx hpos)
      exact ⟨p, List.mem_append_left _ hp, hp'⟩
    · exact ⟨_, List.mem_append_right _ (List.mem_singleton.mpr rfl), rfl, rfl⟩
  · intro p hp
    rcases List.mem_append.mp hp with hp | hp
    · have hshare := h.share p hp
      cases ho : p.isOpen with
      | false =>
        simp only [Slotted, carried, ho, Bool.false_eq_true, ↓reduceIte, false_and] at hshare ⊢
        exact hshare
      | true =>
        have hne := hother p hp ho
        simp only [Slotted, carried, ho, ↓reduceIte, true_and, Function.update_of_ne hne] at hshare ⊢
        rwa [htable p.fd (h.nonneg p hp), or_iff_left (fun he => hne he.1)]
    · obtain rfl := List.mem_singleton.mp hp
      simp only [Slotted, carried, ↓reduceIte, true_and, Function.update_self]
      split_ifs with hin
      · refine ⟨le_rfl, ?_, fun _ => by simp⟩
        simpa using Portion.whole (le_refl s.records.length)
      · exact ⟨fun hs => hin hs.2, rfl⟩

theorem Inv.hangUp {fd : ℤ} (h : s.Inv) (hopen : s.isOpen fd = true) : (s.hangUp fd).Inv := by
  obtain ⟨gone, hgone, -, rfl⟩ := isOpen_iff.mp hopen
  obtain ⟨hsound, -, hslot⟩ := h.sound.delete (h.nonneg gone hgone)
  have htable : ∀ x, 0 ≤ x →
      (x ∈ (kvsSlavesDelete s.agent.slaves gone.fd).1.table ↔ x ∈ s.agent.slaves.table ∧ x ≠ gone.fd) := by
    intro x hx
    simp only [List.mem_iff_getElem?, hslot _ x hx, exists_and_right]
  refine ⟨hsound, fun q hq => ?_, fun x hx hpos => ?_, fun q hq => ?_⟩
  · obtain ⟨p, hp, rfl⟩ := List.mem_map.mp hq
    split_ifs <;> exact h.nonneg p hp
  · obtain ⟨hin, hne⟩ := (htable x hpos).mp hx
    obtain ⟨p, hp, ho, rfl⟩ := isOpen_iff.mp (h.tabled x hin hpos)
    refine isOpen_iff.mpr ⟨p, List.mem_map.mpr ⟨p, hp, if_neg (fun hc => hne hc.2)⟩, ho, rfl⟩
  · obtain ⟨p, hp, rfl⟩ := List.mem_map.mp hq
    have hshare := h.share p hp
    split_ifs with hc
    · -- closed here: it keeps what it had been sent
      simp only [carried, hc.1, ↓reduceIte, hc.2] at hshare
      simp only [Slotted, carried, Bool.false_eq_true, ↓reduceIte, false_and]
      cases hj : p.joined with
      | none =>
        rw [hj] at hshare
        exact ⟨not_false, hshare.2⟩
      | some n =>
        rw [hj] at hshare
        exact ⟨hshare.1, hshare.2.1, False.elim⟩
    · have hslotted : (s.hangUp gone.fd).Slotted p ↔ s.Slotted p := by
        simp only [Slotted]
        refine and_congr_right (fun ho => and_congr_right (fun _ => ?_))
        exact (htable p.fd (h.nonneg p hp)).trans (and_iff_left (fun he => hc ⟨ho, he⟩))
      rw [propext hslotted]
      exact hshare

/-- What an event can do to the slaves. -/
inductive Moved (s : Threads) : Threads → Prop where
  | quiet {s' : Threads} (h : Untouched s s') : Moved s s'
  | accept (fd : ℤ) (hfd : 0 ≤ fd) (hopen : s.isOpen fd = false) : Moved s (s.accept fd)
  | hangUp (fd : ℤ) (hopen : s.isOpen fd = true) : Moved s (s.hangUp fd)
  | send {t s' : Threads} {buf : Bytes} {a : AgentInfo} (hbefore : Untouched s t)
    (hdel : Delivered (· ∈ t.agent.slaves.table) buf t.agent a) (hafter : Untouched (t.sent buf a) s') : Moved s s'

theorem Inv.moved (h : s.Inv) (hmove : Moved s s') : s'.Inv := by
  cases hmove with
  | quiet hsame => exact h.untouched hsame
  | accept fd hfd hopen => exact h.accept hfd hopen
  | hangUp fd hopen => exact h.hangUp hopen
  | send hbefore hdel hafter => exact ((h.untouched hbefore).sent hdel).untouched hafter

theorem Moved.received (h : Moved s s') : s.received <+: s'.received := by
  cases h with
  | quiet hsame => exact hsame.received
  | accept fd hfd hopen =>
    rw [Threads.accept, if_neg (not_lt.mpr hfd)]
  | hangUp fd hopen => exact List.prefix_rfl
  | send hbefore hdel hafter => exact hbefore.received.trans hafter.received

theorem sendRecord_cases {t : Threads} {send : ℤ → Bytes → Bytes → List SendResult} {buf : Bytes} {after : Threads → Threads}
    (h : t.sendRecord send buf after = some s') (hs : t.agent.slaves.Sound) :
    ∃ a, Delivered (· ∈ t.agent.slaves.table) buf t.agent a ∧
      (s' = after (t.sent buf a) ∨ buf = [] ∧ s' = { t.sent buf a with stage := .stopped }) := by
  obtain ⟨⟨ret, a⟩, hsend, h⟩ := Option.bind_eq_some_iff.mp h
  obtain ⟨hret, hdel⟩ := agentSend_delivered hs hsend
  refine ⟨a, hdel, ?_⟩
  dsimp only at h
  split_ifs at h with hne
  · exact Or.inr ⟨by_contra (fun hbuf => hne (hret hbuf)), (Option.some.inj h).symm⟩
  · exact Or.inl (Option.some.inj h).symm

theorem sendRecord_moved {t : Threads} {send : ℤ → Bytes → Bytes → List SendResult} {buf : Bytes} {after : Threads → Threads}
    (h : t.sendRecord send buf after = some s') (hs : t.agent.slaves.Sound) (hbefore : Untouched s t)
    (hafter : ∀ u, Untouched u (after u)) : Moved s s' := by
  obtain ⟨a, hdel, rfl | ⟨-, rfl⟩⟩ := sendRecord_cases h hs
  · exact .send hbefore hdel (hafter _)
  · exact .send hbefore hdel ⟨rfl, rfl, rfl, rfl, List.prefix_rfl⟩

theorem turn_moved {command : Bool} {send : ℤ → Bytes → Bytes → List SendResult} (hs : s.agent.slaves.Sound)
    (h : s.turn command send = some s') : Moved s s' := by
  have hquiet : ∀ {t}, some t = some s' → Untouched s t → Moved s s' := fun he ht => Option.some.inj he ▸ .quiet ht
  rw [turn] at h
  split at h
  · exact hquiet h ⟨rfl, rfl, rfl, rfl, List.prefix_rfl⟩
  split at h
  · cases h
  · exact hquiet h ⟨rfl, rfl, rfl, rfl, List.prefix_rfl⟩
  · exact hquiet h ⟨rfl, rfl, rfl, rfl, List.prefix_rfl⟩
  split at h
  · exact hquiet h ⟨rfl, rfl, rfl, rfl, List.prefix_rfl⟩
  split at h
  · exact hquiet h ⟨rfl, rfl, rfl, rfl, List.prefix_rfl⟩
  · split_ifs at h <;> exact hquiet h ⟨rfl, rfl, rfl, rfl, List.prefix_rfl⟩
  · split_ifs at h <;> exact hquiet h ⟨rfl, rfl, rfl, rfl, List.prefix_rfl⟩
  · split_ifs at h
    · dsimp only at h
      split_ifs at h <;> exact hquiet h ⟨rfl, rfl, rfl, rfl, List.prefix_rfl⟩
    · exact sendRecord_moved h hs ⟨rfl, rfl, rfl, rfl, List.prefix_rfl⟩ (fun _ => ⟨rfl, rfl, rfl, rfl, List.prefix_rfl⟩)
  · exact hquiet h ⟨rfl, rfl, rfl, rfl, List.prefix_rfl⟩

theorem drain_moved {total : ℕ} {record : Bool} {send : ℤ → Bytes → Bytes → List SendResult} (hs : s.agent.slaves.Sound)
    (h : s.drain total record send = some s') : Moved s s' := by
  rw [drain] at h
  split_ifs at h
  · exact Option.some.inj h ▸ .quiet ⟨rfl, rfl, rfl, rfl, List.prefix_rfl⟩
  split at h
  · exact Option.some.inj h ▸ .quiet ⟨rfl, rfl, rfl, rfl, List.prefix_rfl⟩
  · exact sendRecord_moved h hs ⟨rfl, rfl, rfl, rfl, List.prefix_rfl⟩ (fun _ => ⟨rfl, rfl, rfl, rfl, List.prefix_rfl⟩)

theorem step_moved {ev : ThreadEvent} (hs : s.agent.slaves.Sound) (h : s.step ev = some s') : Moved s s' := by
  have hidle : some s = some s' → Moved s s' := fun he => Option.some.inj he ▸ .quiet ⟨rfl, rfl, rfl, rfl, List.prefix_rfl⟩
  cases ev with
  | accept fd =>
    obtain rfl := Option.some.inj h
    split_ifs with hc
    · by_cases hfd : fd < 0
      · rw [Threads.accept, if_pos hfd]
        exact .quiet ⟨rfl, rfl, rfl, rfl, List.prefix_rfl⟩
      · exact .accept fd (not_lt.mp hfd) hc.2
    · exact .quiet ⟨rfl, rfl, rfl, rfl, List.prefix_rfl⟩
  | input fd events ret =>
    obtain rfl := Option.some.inj h
    split_ifs with hc
    · exact .hangUp fd hc.2.1
    · exact .quiet ⟨rfl, rfl, rfl, rfl, List.prefix_rfl⟩
  | waitError => exact Option.some.inj h ▸ .quiet ⟨rfl, rfl, rfl, rfl, List.prefix_rfl⟩
  | hand buf grow =>
    rw [step] at h
    split_ifs at h
    · exact Option.some.inj h ▸ .quiet ⟨rfl, rfl, rfl, rfl, List.prefix_rfl⟩
    · exact Option.some.inj h ▸ .quiet ⟨rfl, rfl, rfl, rfl, List.prefix_append _ _⟩
    · exact hidle h
  | turn command send =>
    rw [step] at h
    split_ifs at h
    · exact turn_moved hs h
    · exact hidle h
  | drain record send =>
    rw [step] at h
    split at h
    · exact drain_moved hs h
    · exact hidle h

end

theorem parseCommand_starved (buf : Bytes) (cmdHl cmdTl : ℕ) : kvsAgentParseCommand buf cmdHl cmdTl false = none := by
  simp only [kvsAgentParseCommand, Bool.false_eq_true, not_false_eq_true, ↓reduceIte]
  repeat' split
  all_goals rfl

section

variable {frames done todo : List Kvsp.Frame} {queue : List Bytes} {s s' : Threads}

def StageOk (s : Threads) (queue : List Bytes) (todo : List Kvsp.Frame) : Prop :=
  match s.stage with
  | .idle | .parsing => s.agent.state ≠ .fullSync → queue = []
  | .draining total => ∃ f rest, todo = f :: rest ∧ total = f.bytes.length ∧ isWrite f = false ∧ f.bytes <+: s.agent.buf
  | .stopped => True

theorem StageOk.draining {f : Kvsp.Frame} {rest : List Kvsp.Frame} (hstage : s.stage = .draining f.bytes.length)
    (hf : isWrite f = false) (hbuf : f.bytes <+: s.agent.buf) : StageOk s queue (f :: rest) := by
  rw [StageOk, hstage]
  exact ⟨f, rest, rfl, rfl, hf, hbuf⟩

/-- The agent has handled the frames `done`; of their write commands all that are not among the records are in the
cache, which holds nothing outside a full sync. -/
structure Fed (frames : List Kvsp.Frame) (s : Threads) (done todo : List Kvsp.Frame) (queue : List Bytes) : Prop where
  frames_eq : frames = done ++ todo
  received_eq : s.received = Kvsp.stream done ++ s.agent.buf
  holds : s.agent.fullsyncCache.Holds queue
  records_eq : s.records ++ queue = (writes done).map Kvsp.Frame.bytes
  stage : StageOk s queue todo

theorem start_fed (size bufSize : ℕ) {memory : Bytes} (hmem : memory ≠ []) (frames : List Kvsp.Frame) :
    Fed frames (start size bufSize memory) [] frames [] where
  frames_eq := rfl
  received_eq := rfl
  holds := ⟨.create hmem, by simp⟩
  records_eq := rfl
  stage := fun _ => rfl

theorem Fed.buf_prefix (h : Fed frames s done todo queue) (hpre : s.received <+: Kvsp.stream frames) :
    s.agent.buf <+: Kvsp.stream todo := by
  rw [h.received_eq, h.frames_eq, Kvsp.stream_append] at hpre
  exact (List.prefix_append_right_inj _).mp hpre

/-- The frame at the front is done with. -/
theorem Fed.next {f : Kvsp.Frame} {t : Threads} {queue' : List Bytes} (h : Fed frames s done (f :: todo) queue)
    (hbuf : f.bytes <+: s.agent.buf) (hreceived : t.received = s.received) (htbuf : t.agent.buf = s.agent.buf)
    (hholds : t.agent.fullsyncCache.Holds queue') (hrecords : t.records ++ queue' = (writes (done ++ [f])).map Kvsp.Frame.bytes)
    (hstate : t.agent.state ≠ .fullSync → queue' = []) :
    Fed frames (t.next f.bytes.length) (done ++ [f]) todo queue' where
  frames_eq := by rw [h.frames_eq, List.append_assoc, List.singleton_append]
  received_eq := by
    obtain ⟨rest, hrest⟩ := hbuf
    change t.received = _ ++ t.agent.buf.drop f.bytes.length
    rw [hreceived, htbuf, h.received_eq, ← hrest, List.drop_left, Kvsp.stream_append, List.append_assoc, Kvsp.stream_cons]
    simp
  holds := hholds
  records_eq := hrecords
  stage := hstate

theorem writes_snoc (done : List Kvsp.Frame) (f : Kvsp.Frame) :
    (writes (done ++ [f])).map Kvsp.Frame.bytes =
      (writes done).map Kvsp.Frame.bytes ++ if isWrite f then [f.bytes] else [] := by
  rw [writes, writes, List.filter_append, List.map_append, List.filter_singleton]
  cases isWrite f <;> rfl

/-- A frame at the front that is no write command. -/
theorem Fed.skip {f : Kvsp.Frame} {t : Threads} (h : Fed frames s done (f :: todo) queue)
    (hbuf : f.bytes <+: s.agent.buf) (hf : isWrite f = false) (hreceived : t.received = s.received)
    (htbuf : t.agent.buf = s.agent.buf) (hcache : t.agent.fullsyncCache = s.agent.fullsyncCache)
    (hrecords : t.records = s.records) (hstate : t.agent.state ≠ .fullSync → queue = []) :
    Fed frames (t.next f.bytes.length) (done ++ [f]) todo queue := by
  refine h.next hbuf hreceived htbuf (hcache ▸ h.holds) ?_ hstate
  rw [writes_snoc, hf, hrecords, h.records_eq]
  simp

theorem Fed.rest (h : Fed frames s done todo queue) {t : Threads} (hreceived : t.received = s.received)
    (hbuf : t.agent.buf = s.agent.buf) (hcache : t.agent.fullsyncCache.Holds queue) (hrecords : t.records = s.records)
    (hstage : StageOk t queue todo) : Fed frames t done todo queue where
  frames_eq := h.frames_eq
  received_eq := by rw [hreceived, hbuf, h.received_eq]
  holds := hcache
  records_eq := by rw [hrecords, h.records_eq]
  stage := hstage

def Relayed (frames : List Kvsp.Frame) (s : Threads) : Prop := ∃ done todo queue, Fed frames s done todo queue

theorem Fed.turn {command : Bool} {send : ℤ → Bytes → Bytes → List SendResult} (h : Fed frames s done todo queue)
    (hs : s.agent.slaves.Sound) (hstage : s.stage = .parsing) (hpre : s.received <+: Kvsp.stream frames)
    (hturn : s.turn command send = some s') : Relayed frames s' := by
  obtain ⟨later, hlater⟩ := h.buf_prefix hpre
  obtain ⟨whole, left, part, htodo, hbuf, -, hpart⟩ := Kvsp.stream_cut hlater
  have hqueue : s.agent.state ≠ .fullSync → queue = [] := by
    have hok := h.stage
    rwa [StageOk, hstage] at hok
  rw [Threads.turn] at hturn
  cases whole with
  | nil =>
    -- nothing whole: the thread goes back for the next chunk
    have hidle : Relayed frames { s with stage := .idle } :=
      ⟨done, todo, queue, h.rest rfl rfl h.holds rfl hqueue⟩
    rw [Kvsp.stream_nil, List.nil_append] at hbuf
    by_cases hnil : s.agent.buf = []
    · rw [if_pos hnil] at hturn
      exact Option.some.inj hturn ▸ hidle
    · rcases hpart with hpart | ⟨f, -, after, -, hf, hafter⟩
      · exact absurd (hbuf.trans hpart) hnil
      · have hmore : kvspParseBulkSize s.agent.buf = some .more := parse_part f (hbuf ▸ hf) hnil hafter
        rw [if_neg hnil, hmore] at hturn
        exact Option.some.inj hturn ▸ hidle
  | cons f whole =>
    rw [Kvsp.stream_cons, List.append_assoc] at hbuf
    have hfront : f.bytes <+: s.agent.buf := ⟨_, hbuf.symm⟩
    have hne : f.bytes ≠ [] := List.ne_nil_of_length_pos f.bytes_pos
    have htake : s.agent.buf.take f.bytes.length = f.bytes := by rw [hbuf, List.take_left]
    have hnil : s.agent.buf ≠ [] := by
      rw [hbuf]
      exact List.append_ne_nil_of_left_ne_nil hne _
    have hparse : kvspParseBulkSize s.agent.buf = some (.frame f.bytes.length f.head.bytes.length) := by
      rw [hbuf, parse_whole]
    subst htodo
    rw [if_neg hnil, hparse] at hturn
    dsimp only at hturn
    cases command with
    | false =>
      rw [parseCommand_starved] at hturn
      exact Option.some.inj hturn ▸ ⟨done, _, queue, h.rest rfl rfl h.holds rfl trivial⟩
    | true =>
      have hcommand : kvsAgentParseCommand s.agent.buf f.head.bytes.length f.bytes.length true = some f.command := by
        rw [hbuf, parse_command]
      rw [hcommand, htake] at hturn
      dsimp only at hturn
      have hwrite : isWrite f = decide (cmdOf f.command = .allowedSend) := rfl
      cases hcmd : cmdOf f.command with
      | sync =>
        rw [hcmd] at hturn hwrite
        exact Option.some.inj hturn ▸ ⟨_, _, _, h.skip hfront hwrite rfl rfl rfl rfl (fun hfull => absurd rfl hfull)⟩
      | other =>
        rw [hcmd] at hturn hwrite
        exact Option.some.inj hturn ▸ ⟨_, _, _, h.skip hfront hwrite rfl rfl rfl rfl hqueue⟩
      | fullsyncFinished | fullsyncError =>
        rw [hcmd] at hturn hwrite
        dsimp only at hturn
        split_ifs at hturn with hfull
        · exact Option.some.inj hturn ▸ ⟨_, _, _, h.rest rfl rfl h.holds rfl ⟨f, _, rfl, rfl, hwrite, hfront⟩⟩
        · exact Option.some.inj hturn ▸ ⟨_, _, _, h.skip hfront hwrite rfl rfl rfl rfl hqueue⟩
      | allowedSend =>
        rw [hcmd] at hturn hwrite
        dsimp only at hturn
        by_cases hfull : s.agent.state = .fullSync
        · rw [if_pos hfull] at hturn
          rcases h.holds.write_cases f.bytes with ⟨cache, hcache, hholds, -⟩ | ⟨ret, hret, hcache⟩
          · simp only [hcache, ne_eq, not_true_eq_false, ↓reduceIte] at hturn
            obtain rfl := Option.some.inj hturn
            refine ⟨_, _, _, h.next hfront rfl rfl hholds ?_ (fun hne => absurd hfull hne)⟩
            rw [writes_snoc, hwrite, ← h.records_eq, List.append_assoc]
            rfl
          · simp only [hcache, ne_eq, hret, not_false_eq_true, ↓reduceIte] at hturn
            exact Option.some.inj hturn ▸ ⟨done, _, queue, h.rest rfl rfl h.holds rfl trivial⟩
        · rw [if_neg hfull] at hturn
          obtain ⟨a, hdel, rfl | ⟨hempty, -⟩⟩ := sendRecord_cases hturn hs
          · obtain rfl := hqueue hfull
            have hcache : a.fullsyncCache = s.agent.fullsyncCache := by rw [hdel.rest]
            have habuf : a.buf = s.agent.buf := by rw [hdel.rest]
            refine ⟨_, _, [], h.next hfront rfl habuf (hcache ▸ h.holds) ?_ (fun _ => rfl)⟩
            rw [writes_snoc, hwrite, ← h.records_eq]
            simp [Threads.sent]
          · exact absurd hempty hne

theorem Fed.drain {total : ℕ} {record : Bool} {send : ℤ → Bytes → Bytes → List SendResult}
    (h : Fed frames s done todo queue) (hs : s.agent.slaves.Sound) (hstage : s.stage = .draining total)
    (hdrain : s.drain total record send = some s') : Relayed frames s' := by
  have hok := h.stage
  rw [StageOk, hstage] at hok
  obtain ⟨f, rest, rfl, rfl, hf, hfront⟩ := hok
  rw [Threads.drain] at hdrain
  split_ifs at hdrain with hused
  · have hempty := h.holds.used_eq_zero_iff.mp hused
    exact Option.some.inj hdrain ▸ ⟨_, _, _, h.skip hfront hf rfl rfl rfl rfl (fun _ => hempty)⟩
  · rcases h.holds.read_cases record with ⟨b, queue', cache, rfl, hread, hholds, -⟩ | ⟨-, hread⟩
    · rw [hread] at hdrain
      have hb := (h.holds.valid b List.mem_cons_self).1
      obtain ⟨a, hdel, rfl | ⟨hempty, -⟩⟩ := sendRecord_cases hdrain hs
      · have hcache : a.fullsyncCache = cache := by rw [hdel.rest]
        have habuf : a.buf = s.agent.buf := by rw [hdel.rest]
        refine ⟨done, f :: rest, queue', h.frames_eq, ?_, ?_, ?_, ?_⟩
        · exact h.received_eq.trans (by rw [← habuf]; rfl)
        · change a.fullsyncCache.Holds queue'
          rwa [hcache]
        · rw [← h.records_eq]
          change s.records ++ [b] ++ queue' = _
          simp
        · refine StageOk.draining hstage hf ?_
          change f.bytes <+: a.buf
          rwa [habuf]
      · exact absurd hempty hb
    · rw [hread] at hdrain
      exact Option.some.inj hdrain ▸ ⟨done, _, queue, h.rest rfl rfl h.holds rfl trivial⟩

theorem Relayed.step {ev : ThreadEvent} (h : Relayed frames s) (hs : s.agent.slaves.Sound)
    (hpre : s'.received <+: Kvsp.stream frames) (hstep : s.step ev = some s') : Relayed frames s' := by
  have hbefore := (step_moved hs hstep).received.trans hpre
  obtain ⟨done, todo, queue, h⟩ := h
  have hidle : some s = some s' → Relayed frames s' := fun he => Option.some.inj he ▸ ⟨done, todo, queue, h⟩
  cases ev with
  | accept fd =>
    obtain rfl := Option.some.inj hstep
    rw [Threads.accept]
    split_ifs <;> exact ⟨done, todo, queue, h.rest rfl rfl h.holds rfl h.stage⟩
  | input fd events ret =>
    obtain rfl := Option.some.inj hstep
    split_ifs <;> exact ⟨done, todo, queue, h.rest rfl rfl h.holds rfl h.stage⟩
  | waitError => exact Option.some.inj hstep ▸ ⟨done, todo, queue, h.rest rfl rfl h.holds rfl h.stage⟩
  | hand buf grow =>
    rw [Threads.step] at hstep
    split_ifs at hstep with hidle' hgrow
    · exact Option.some.inj hstep ▸ ⟨done, todo, queue, h.rest rfl rfl h.holds rfl trivial⟩
    · have hok := h.stage
      rw [StageOk, hidle'.1] at hok
      refine Option.some.inj hstep ▸ ⟨done, todo, queue, h.frames_eq, ?_, h.holds, h.records_eq, hok⟩
      change s.received ++ buf = Kvsp.stream done ++ (s.agent.buf ++ buf)
      rw [h.received_eq, List.append_assoc]
    · exact hidle hstep
  | turn command send =>
    rw [Threads.step] at hstep
    split_ifs at hstep with hparsing
    · exact h.turn hs hparsing hbefore hstep
    · exact hidle hstep
  | drain record send =>
    rw [Threads.step] at hstep
    split at hstep
    next total hdraining => exact h.drain hs hdraining hstep
    · exact hidle hstep

theorem run_received {events : List ThreadEvent} (h : s.Inv) (hrun : run events s = some s') :
    s'.Inv ∧ s.received <+: s'.received := by
  induction events generalizing s with
  | nil => exact Option.some.inj hrun ▸ ⟨h, List.prefix_rfl⟩
  | cons ev events ih =>
    obtain ⟨mid, hstep, hrest⟩ := Option.bind_eq_some_iff.mp hrun
    have hmove := step_moved h.sound hstep
    obtain ⟨hinv, hpre⟩ := ih (h.moved hmove) hrest
    exact ⟨hinv, hmove.received.trans hpre⟩

theorem Relayed.run {events : List ThreadEvent} (h : Relayed frames s) (hinv : s.Inv)
    (hpre : s'.received <+: Kvsp.stream frames) (hrun : Threads.run events s = some s') : Relayed frames s' := by
  induction events generalizing s with
  | nil => exact Option.some.inj hrun ▸ h
  | cons ev events ih =>
    obtain ⟨mid, hstep, hrest⟩ := Option.bind_eq_some_iff.mp hrun
    have hmid := hinv.moved (step_moved hinv.sound hstep)
    exact ih (h.step hinv.sound ((run_received hmid hrest).2.trans hpre) hstep) hmid hrest

/-- However the slaves come and go and whichever sends to them fail: the agent sends out the write commands of the
stream in order, those in its cache apart, and each slave gets them without a gap from the moment it has a slot until
it leaves or a send to it fails. A slave that finds the table full gets nothing, ever. -/
theorem slaves_get_gapless_streams (size bufSize : ℕ) (memory : Bytes) (hmem : memory ≠ []) (frames : List Kvsp.Frame)
    (events : List ThreadEvent) (hrun : run events (start size bufSize memory) = some s)
    (hstream : s.received <+: Kvsp.stream frames) :
    (∃ done todo queue, frames = done ++ todo ∧ s.received = Kvsp.stream done ++ s.agent.buf ∧
        s.agent.fullsyncCache.records (s.agent.fullsyncCache.used + 1) = some queue ∧
        s.records ++ queue = (writes done).map Kvsp.Frame.bytes) ∧
      s.agent.slaves.total = s.agent.slaves.table.countP (fun fd => decide (0 ≤ fd)) ∧
      (∀ fd ∈ s.agent.slaves.table, 0 ≤ fd → s.isOpen fd = true) ∧
      ∀ p ∈ s.peers, (p.joined = none → s.carried p = []) ∧
        ∀ n, p.joined = some n → Portion s.records n (s.carried p) ∧
          (s.Slotted p → s.carried p = (s.records.drop n).flatten) := by
  have hinv := (run_received (start_inv size bufSize memory) hrun).1
  obtain ⟨done, todo, queue, hfed⟩ :=
    Relayed.run ⟨[], frames, [], start_fed size bufSize hmem frames⟩ (start_inv size bufSize memory) hstream hrun
  refine ⟨⟨done, todo, queue, hfed.frames_eq, hfed.received_eq, ?_, hfed.records_eq⟩, hinv.sound.total, hinv.tabled,
    fun p hp => ⟨fun hj => ?_, fun n hj => ?_⟩⟩
  · refine AgentCache.records_of_holds hfed.holds ?_
    rw [hfed.holds.used_eq]
    exact Nat.lt_succ_of_le (AgentCache.length_le_weight queue)
  · have hshare := hinv.share p hp
    rw [hj] at hshare
    exact hshare.2
  · have hshare := hinv.share p hp
    rw [hj] at hshare
    exact hshare.2

def failingOnFive : ℤ → Bytes → Bytes → List SendResult :=
  fun fd _ buf => if fd = 5 then [.wrote 3, .error] else [.wrote buf.length]

/-- One slot: slave 6 finds it taken, slave 5 loses it by a failed send, slave 7 gets it. -/
def comingAndGoing : List ThreadEvent :=
  [.accept 5, .accept 6, .hand (Kvsp.stream syncStream) true, .turn true failingOnFive, .turn true failingOnFive,
    .turn true failingOnFive, .drain true failingOnFive, .accept 7, .drain true failingOnFive, .turn true failingOnFive]

theorem slaves_get_gapless_streams_example :
    ∃ s, run comingAndGoing (start 1 16 (List.replicate 80 0)) = some s ∧
      s.peers.map (fun p => (p.fd, p.joined)) = [(5, some 0), (6, none), (7, some 1)] ∧ s.records.length = 2 ∧
      ∀ p ∈ s.peers, (p.joined = none → s.carried p = []) ∧ ∀ n, p.joined = some n → Portion s.records n (s.carried p) := by
  have heval : (run comingAndGoing (start 1 16 (List.replicate 80 0))).map (fun s =>
      (s.received, s.peers.map (fun p => (p.fd, p.joined)), s.records.length)) =
        some (Kvsp.stream syncStream, [(5, some 0), (6, none), (7, some 1)], 2) := by decide +kernel
  obtain ⟨s, hs, he⟩ := Option.map_eq_some_iff.mp heval
  obtain ⟨hreceived, he⟩ := Prod.mk.inj he
  obtain ⟨hpeers, hrecords⟩ := Prod.mk.inj he
  obtain ⟨-, -, -, hshare⟩ := slaves_get_gapless_streams 1 16 (List.replicate 80 0) (by decide) syncStream comingAndGoing hs
    (hreceived ▸ List.prefix_rfl)
  exact ⟨s, hs, hpeers, hrecords, fun p hp => ⟨(hshare p hp).1, fun n hn => ((hshare p hp).2 n hn).1⟩⟩

end

end Threads

end Lidis.Agent
