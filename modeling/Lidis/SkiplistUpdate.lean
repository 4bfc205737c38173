import Lidis.SkiplistShape

namespace Lidis.Skiplist

open Chain

structure SameNodes (S S' : Skiplist) : Prop where
  header : S'.header = S.header
  height : S'.height = S.height
  key : S'.key = S.key
  value : S'.value = S.value
  next : S'.next = S.next
  level : S'.level = S.level

theorem SameNodes.refl (S : Skiplist) : SameNodes S S := ⟨rfl, rfl, rfl, rfl, rfl, rfl⟩

theorem SameNodes.trans {S T U : Skiplist} (h : SameNodes S T) (g : SameNodes T U) : SameNodes S U :=
  ⟨g.header.trans h.header, g.height.trans h.height, g.key.trans h.key, g.value.trans h.value,
    g.next.trans h.next, g.level.trans h.level⟩

theorem setForward_spec {S : Skiplist} {p i q : ℕ} (hp : p ≠ 0) (hi : i ≤ S.height p) :
    ∃ S', S.setForward p i q = some S' ∧ SameNodes S S' ∧
      ∀ x j, S'.forward x j = if x = p ∧ j = i then q else S.forward x j := by
  refine ⟨_, if_pos ⟨hp, hi⟩, ⟨rfl, rfl, rfl, rfl, rfl, rfl⟩, ?_⟩
  intro x j
  by_cases hx : x = p
  · subst hx
    by_cases hj : j = i
    · subst hj; simp
    · simp [hj]
  · simp [hx]

section Link

variable {update : ℕ → Option ℕ} {pred : ℕ → ℕ} {node : ℕ}

theorem linkAt_spec {S : Skiplist} {i : ℕ} (hu : update i = some (pred i)) (hn : node ≠ 0) (hp : pred i ≠ 0)
    (hne : pred i ≠ node) (hhn : i ≤ S.height node) (hhp : i ≤ S.height (pred i)) :
    ∃ S', S.linkAt update node i = some S' ∧ SameNodes S S' ∧
      ∀ x j, S'.forward x j = if j = i then
        (if x = pred i then node else if x = node then S.forward (pred i) i else S.forward x i) else S.forward x j := by
  obtain ⟨S1, h1, s1, f1⟩ := setForward_spec (q := S.forward (pred i) i) hn hhn
  obtain ⟨S2, h2, s2, f2⟩ := setForward_spec (q := node) hp (s1.height ▸ hhp)
  refine ⟨S2, ?_, s1.trans s2, ?_⟩
  · simp [linkAt, hu, fwd, hp, hhp, h1, h2]
  · intro x j
    rw [f2, f1]
    by_cases hj : j = i
    · subst hj; simp
    · simp [hj]

theorem link_spec (i : ℕ) (S : Skiplist) (hu : ∀ j ≤ i, update j = some (pred j)) (hn : node ≠ 0)
    (hp : ∀ j ≤ i, pred j ≠ 0 ∧ pred j ≠ node ∧ j ≤ S.height (pred j)) (hh : i ≤ S.height node) :
    ∃ S', link update node i S = some S' ∧ SameNodes S S' ∧
      ∀ x j, S'.forward x j = if j ≤ i then
        (if x = pred j then node else if x = node then S.forward (pred j) j else S.forward x j) else S.forward x j := by
  induction i generalizing S with
  | zero =>
    obtain ⟨hp0, hpn, hph⟩ := hp 0 le_rfl
    obtain ⟨S', h1, s1, f1⟩ := linkAt_spec (hu 0 le_rfl) hn hp0 hpn (Nat.zero_le _) hph
    refine ⟨S', h1, s1, fun x j => ?_⟩
    rw [f1]
    by_cases hj : j = 0
    · subst hj; simp
    · simp [hj]
  | succ i ih =>
    obtain ⟨hp0, hpn, hph⟩ := hp (i + 1) le_rfl
    obtain ⟨S1, h1, s1, f1⟩ := linkAt_spec (hu (i + 1) le_rfl) hn hp0 hpn hh hph
    obtain ⟨S2, h2, s2, f2⟩ := ih S1 (fun j hj => hu j (by omega))
      (fun j hj => by rw [s1.height]; exact hp j (by omega)) (by rw [s1.height]; omega)
    refine ⟨S2, by simp [link, h1, h2], s1.trans s2, fun x j => ?_⟩
    rw [f2, f1, f1]
    rcases Nat.lt_trichotomy j (i + 1) with hj | rfl | hj
    · simp [Nat.lt_succ_iff.mp hj, hj.le, hj.ne]
    · simp
    · simp [show ¬ j ≤ i by omega, show ¬ j ≤ i + 1 by omega, hj.ne']

end Link

theorem unlink_spec {update : ℕ → Option ℕ} {pred : ℕ → ℕ} {x level : ℕ} (n i : ℕ) (S : Skiplist)
    (hn : n + i = level + 1) (hu : ∀ j ≤ level, update j = some (pred j)) (hx : x ≠ 0)
    (hp : ∀ j ≤ level, pred j ≠ 0 ∧ j ≤ S.height (pred j)) (hxl : S.height x ≤ level) (hi : i ≤ S.height x + 1)
    (hf : ∀ j, i ≤ j → j ≤ S.height x → S.forward (pred j) j = x)
    (hb : ∀ j, S.height x < j → j ≤ level → S.forward (pred j) j ≠ x) :
    ∃ S', unlink update x n i S = some S' ∧ SameNodes S S' ∧
      ∀ y j, S'.forward y j = if i ≤ j ∧ j ≤ S.height x ∧ y = pred j then S.forward x j else S.forward y j := by
  induction n generalizing i S with
  | zero =>
    refine ⟨S, rfl, SameNodes.refl S, fun y j => ?_⟩
    rw [if_neg (by omega)]
  | succ n ih =>
    obtain ⟨hp0, hph⟩ := hp i (by omega)
    by_cases hix : i ≤ S.height x
    · have hfi := hf i le_rfl hix
      obtain ⟨S1, h1, s1, f1⟩ := setForward_spec (q := S.forward x i) hp0 hph
      have hother : ∀ y j, i < j → S1.forward y j = S.forward y j := fun y j hj => by
        rw [f1, if_neg (by omega)]
      obtain ⟨S2, h2, s2, f2⟩ := ih (i + 1) S1 (by omega) (by rw [s1.height]; exact hp)
        (by rw [s1.height]; exact hxl) (by rw [s1.height]; omega)
        (fun j hj hjx => by rw [hother _ j (by omega)]; exact hf j (by omega) (s1.height ▸ hjx))
        (fun j hj hjl => by
          rw [s1.height] at hj
          rw [hother _ j (by omega)]
          exact hb j hj hjl)
      refine ⟨S2, ?_, s1.trans s2, fun y j => ?_⟩
      · simp [unlink, hu i (by omega), fwd, hp0, hph, hfi, hx, hix, h1, h2]
      · rw [f2, s1.height, f1, f1]
        rcases Nat.lt_trichotomy j i with hj | rfl | hj
        · simp [show ¬ i ≤ j by omega, show ¬ i + 1 ≤ j by omega, hj.ne]
        · simp [hix]
        · simp [show i ≤ j by omega, show i + 1 ≤ j by omega, hj.ne']
    · have hbi := hb i (by omega) (by omega)
      refine ⟨S, ?_, SameNodes.refl S, fun y j => ?_⟩
      · simp [unlink, hu i (by omega), fwd, hp0, hph, hbi]
      · rw [if_neg (by omega)]

theorem lower_spec {S : Skiplist} (h0 : S.header ≠ 0) (i : ℕ) (hi : i ≤ S.height S.header) :
    ∃ j, S.lower i = some j ∧ j ≤ i ∧ (∀ k, j < k → k ≤ i → S.forward S.header k = 0) ∧
      (j = 0 ∨ S.forward S.header j ≠ 0) := by
  induction i with
  | zero => exact ⟨0, rfl, le_rfl, by omega, Or.inl rfl⟩
  | succ i ih =>
    by_cases hf : S.forward S.header (i + 1) = 0
    · obtain ⟨j, hj, hji, hz, ht⟩ := ih (by omega)
      refine ⟨j, by simp [lower, fwd, h0, hi, hf, hj], by omega, fun k hjk hki => ?_, ht⟩
      rcases Nat.lt_or_ge k (i + 1) with hk | hk
      · exact hz k hjk (by omega)
      · rw [show k = i + 1 by omega, hf]
    · exact ⟨i + 1, by simp [lower, fwd, h0, hi, hf], le_rfl, by omega, Or.inr hf⟩

end Lidis.Skiplist
