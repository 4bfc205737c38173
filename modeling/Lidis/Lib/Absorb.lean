import Lidis.Lib.Recovery

namespace Lidis

namespace FMap

variable {K V : Type} [DecidableEq K] {c : Contract}

omit [DecidableEq K] in
theorem Below.refl (m : FMap K V) : Below m m := fun _ => Or.inr rfl

omit [DecidableEq K] in
theorem Below.get {r o : FMap K V} (h : Below r o) {k : K} {v : V} (hr : r.get k = some v) : o.get k = some v := by
  rcases h k with hn | he
  · rw [hr] at hn
    cases hn
  · rw [← he, hr]

omit [DecidableEq K] in
theorem Below.eq_of_size {r o : FMap K V} (h : Below r o) (hs : o.size ≤ r.size) : r = o := by
  have hdom : r.dom = o.dom := by
    apply Finset.eq_of_subset_of_card_le _ hs
    intro k hk
    obtain ⟨v, hv⟩ := Option.isSome_iff_exists.mp ((r.mem_dom k).mp hk)
    rw [o.mem_dom, h.get hv]
    rfl
  apply ext_get
  intro k
  rcases h k with hn | he
  · rw [hn]
    symm
    rw [← not_mem_dom, ← hdom, not_mem_dom]
    exact hn
  · exact he

def absorb (c : Contract) (m : FMap K V) (l : List (K × V)) : FMap K V := m.replay c (l.map (fun e => .set e.1 e.2))

@[simp] theorem absorb_nil (m : FMap K V) : m.absorb c [] = m := rfl

@[simp] theorem absorb_cons (m : FMap K V) (e : K × V) (l : List (K × V)) :
    m.absorb c (e :: l) = (m.apply c (.set e.1 e.2)).absorb c l := rfl

theorem apply_set_full {m : FMap K V} (k : K) (v : V) (h : c.capacity = some m.size) : m.apply c (.set k v) = m := by
  simp [apply, step, h]

theorem apply_set_keeps {m : FMap K V} {j : K} {w : V} (k : K) (v : V) (h : m.get j = some w) :
    (m.apply c (.set k v)).get j = some w := by
  by_cases hj : j = k
  · subst hj
    exact apply_set_of_some v h
  · rw [apply_get_of_ne m hj, h]

theorem absorb_full {m : FMap K V} (l : List (K × V)) (h : c.capacity = some m.size) : m.absorb c l = m := by
  induction l with
  | nil => rfl
  | cons e l ih => rw [absorb_cons, apply_set_full _ _ h, ih]

theorem absorb_keeps {m : FMap K V} {k : K} {v : V} (l : List (K × V)) (h : m.get k = some v) :
    (m.absorb c l).get k = some v := by
  induction l generalizing m with
  | nil => exact h
  | cons e l ih => exact ih (apply_set_keeps e.1 e.2 h)

theorem absorb_source {m : FMap K V} {k : K} {v : V} {l : List (K × V)} (h : (m.absorb c l).get k = some v) :
    m.get k = some v ∨ (k, v) ∈ l := by
  induction l generalizing m with
  | nil => exact Or.inl h
  | cons e l ih =>
    rcases ih h with h | h
    · by_cases hk : k = e.1
      · subst hk
        cases hm : m.get e.1 with
        | some w =>
          rw [apply_set_of_some e.2 hm] at h
          exact Or.inl h
        | none =>
          rcases apply_set_of_none (c := c) e.2 hm with he | he
          · rw [he] at h
            obtain rfl := Option.some.inj h
            exact Or.inr List.mem_cons_self
          · rw [he] at h
            cases h
      · rw [apply_get_of_ne m hk] at h
        exact Or.inl h
    · exact Or.inr (List.mem_cons_of_mem e h)

theorem absorb_takes {m : FMap K V} {e : K × V} {l : List (K × V)} (h : e ∈ l) :
    ((m.absorb c l).get e.1).isSome ∨ c.capacity = some (m.absorb c l).size := by
  induction l generalizing m with
  | nil => simp at h
  | cons d l ih =>
    rcases List.mem_cons.mp h with rfl | h
    · by_cases hfull : c.capacity = some m.size
      · rw [absorb_full _ hfull]
        exact Or.inr hfull
      · left
        have hkey : ∃ v, (m.apply c (.set e.1 e.2)).get e.1 = some v := by
          cases hm : m.get e.1 with
          | some w => exact ⟨w, apply_set_of_some e.2 hm⟩
          | none => exact ⟨e.2, apply_set_of_room e.2 hm hfull⟩
        obtain ⟨v, hv⟩ := hkey
        rw [absorb_cons, absorb_keeps l hv]
        rfl
    · exact ih h

section Copies

variable {m : FMap K V} {l : List (K × V)}

theorem absorb_below (hn : (keys l).Nodup) (hb : Below m (ofList l)) {l' : List (K × V)} (hl : ∀ e ∈ l', e ∈ l) :
    Below (m.absorb c l') (ofList l) := by
  intro k
  cases hk : (m.absorb c l').get k with
  | none => exact Or.inl rfl
  | some v =>
    right
    rcases absorb_source hk with h | h
    · exact (hb.get h).symm
    · exact (lookup_of_mem l hn (hl _ h)).symm

/-- Absorbing the entries of a map gives that map exactly when nothing else was there before. -/
theorem absorb_eq_iff (hn : (keys l).Nodup) (hcap : ∀ n, c.capacity = some n → l.length ≤ n) :
    m.absorb c l = ofList l ↔ Below m (ofList l) := by
  constructor
  · intro h k
    cases hk : m.get k with
    | none => exact Or.inl rfl
    | some v => rw [← h, absorb_keeps l hk]; exact Or.inr rfl
  · intro hb
    have hbelow := absorb_below (c := c) hn hb (fun e he => he)
    apply hbelow.eq_of_size
    by_cases hfull : c.capacity = some (m.absorb c l).size
    · rw [ofList_size l hn]
      exact hcap _ hfull
    · apply Finset.card_le_card
      intro k hk
      rw [mem_dom] at hk ⊢
      obtain ⟨v, hv⟩ := Option.isSome_iff_exists.mp hk
      exact (absorb_takes (mem_of_lookup l hv)).resolve_right hfull

theorem absorb_full_iff {n : ℕ} {e : K × V} (hn : (keys (l ++ [e])).Nodup) (hcap : c.capacity = some n)
    (hlen : (l ++ [e]).length ≤ n) (hb : Below m (ofList (l ++ [e]))) :
    (m.absorb c l).size = n ↔ (l ++ [e]).length = n ∧ (m.get e.1).isSome := by
  have hbelow : Below (m.absorb c l) (ofList (l ++ [e])) :=
    absorb_below hn hb (fun d hd => List.mem_append_left [e] hd)
  have hlast : e.1 ∉ keys l := by
    simp only [keys, List.map_append, List.map_cons, List.map_nil] at hn
    exact fun hm => (List.nodup_append.mp hn).2.2 _ hm _ (List.mem_singleton_self _) rfl
  constructor
  · intro hsize
    have hfill : (l ++ [e]).length = n := by
      have hle := hbelow.size_le
      rw [ofList_size _ hn] at hle
      omega
    refine ⟨hfill, ?_⟩
    have heq : m.absorb c l = ofList (l ++ [e]) := hbelow.eq_of_size (by rw [ofList_size _ hn]; omega)
    have hget : (m.absorb c l).get e.1 = some e.2 := by
      rw [heq]
      exact lookup_of_mem _ hn (by simp)
    rcases absorb_source hget with h | h
    · rw [h]
      rfl
    · exact absurd (List.mem_map.mpr ⟨_, h, rfl⟩) hlast
  · rintro ⟨hfill, hhas⟩
    by_cases hfull : c.capacity = some (m.absorb c l).size
    · rw [hcap] at hfull
      exact (Option.some.inj hfull).symm
    · obtain ⟨v, hv⟩ := Option.isSome_iff_exists.mp hhas
      have hall : ∀ d ∈ l ++ [e], ((m.absorb c l).get d.1).isSome := by
        intro d hd
        rcases List.mem_append.mp hd with hd | hd
        · exact (absorb_takes hd).resolve_right hfull
        · obtain rfl := List.mem_singleton.mp hd
          rw [absorb_keeps l hv]
          rfl
      have hge : (ofList (l ++ [e])).size ≤ (m.absorb c l).size := by
        apply Finset.card_le_card
        intro k hk
        rw [mem_dom] at hk ⊢
        obtain ⟨w, hw⟩ := Option.isSome_iff_exists.mp hk
        exact hall _ (mem_of_lookup _ hw)
      have hle := hbelow.size_le
      rw [ofList_size _ hn] at hge hle
      omega

end Copies

end FMap

end Lidis
