import Mathlib.Data.List.Basic

namespace Lidis.Machine

variable {S A I J O : Type}

/-- Feed the inputs one by one; `none` as soon as a step has no result. -/
def run (step : S → I → Option (S × O)) : S → List I → Option (S × List O)
  | s, [] => some (s, [])
  | s, i :: is => do
    let (s, o) ← step s i
    let (s, os) ← run step s is
    some (s, o :: os)

def track (spec : A → I → A × O) : A → List I → A × List O
  | a, [] => (a, [])
  | a, i :: is => ((track spec (spec a i).1 is).1, (spec a i).2 :: (track spec (spec a i).1 is).2)

theorem track_map (spec : A → J → A × O) (input : I → J) (a : A) (is : List I) :
    track spec a (is.map input) = track (fun a i => spec a (input i)) a is := by
  induction is generalizing a with
  | nil => rfl
  | cons i is ih => simp only [List.map_cons, track, ih]

theorem track_congr {spec spec' : A → I → A × O} {is : List I} (h : ∀ i ∈ is, ∀ a, spec a i = spec' a i) (a : A) :
    track spec a is = track spec' a is := by
  induction is generalizing a with
  | nil => rfl
  | cons i is ih =>
    have hi := h i List.mem_cons_self a
    have hrest := ih (fun j hj => h j (List.mem_cons_of_mem i hj))
    simp only [track, hi, hrest]

def Simulates (step : S → I → Option (S × O)) (spec : A → I → A × O) (R : S → A → Prop)
    (P : I → Prop) : Prop :=
  ∀ s a i, R s a → P i → ∃ s', step s i = some (s', (spec a i).2) ∧ R s' (spec a i).1

theorem Simulates.run {step : S → I → Option (S × O)} {spec : A → I → A × O} {R : S → A → Prop}
    {P : I → Prop} (h : Simulates step spec R P) (is : List I) (s : S) (a : A) (hR : R s a)
    (hP : ∀ i ∈ is, P i) :
    ∃ s', Machine.run step s is = some (s', (track spec a is).2) ∧ R s' (track spec a is).1 := by
  induction is generalizing s a with
  | nil => exact ⟨s, rfl, hR⟩
  | cons i is ih =>
    obtain ⟨s1, hs1, hR1⟩ := h s a i hR (hP i List.mem_cons_self)
    obtain ⟨s2, hs2, hR2⟩ := ih s1 (spec a i).1 hR1 (fun j hj => hP j (List.mem_cons_of_mem i hj))
    exact ⟨s2, by simp [Machine.run, track, hs1, hs2], hR2⟩

/-- As `Simulates`, with a specification that may have no result either and sees `input` of what the steps are fed. -/
def Mirrors (step : S → I → Option (S × O)) (spec : A → J → Option (A × O)) (input : I → J) (R : S → A → Prop) : Prop :=
  ∀ s a i, R s a → Option.Rel (fun p q => p.2 = q.2 ∧ R p.1 q.1) (step s i) (spec a (input i))

theorem Mirrors.run {step : S → I → Option (S × O)} {spec : A → J → Option (A × O)} {input : I → J} {R : S → A → Prop}
    (h : Mirrors step spec input R) (is : List I) (s : S) (a : A) (hR : R s a) :
    Option.Rel (fun p q => p.2 = q.2 ∧ R p.1 q.1) (Machine.run step s is) (Machine.run spec a (is.map input)) := by
  induction is generalizing s a with
  | nil => exact .some ⟨rfl, hR⟩
  | cons i is ih =>
    have hi := h s a i hR
    simp only [List.map_cons, Machine.run]
    generalize step s i = r at hi ⊢
    generalize spec a (input i) = q at hi ⊢
    cases hi with
    | none => exact .none
    | @some p q hpq =>
      have his := ih p.1 q.1 hpq.2
      simp only [Option.bind_eq_bind, Option.bind_some]
      generalize Machine.run step p.1 is = r at his ⊢
      generalize Machine.run spec q.1 (is.map input) = w at his ⊢
      cases his with
      | none => exact .none
      | some hrw => exact .some ⟨by rw [hpq.1, hrw.1], hrw.2⟩

theorem Mirrors.run_forth {step : S → I → Option (S × O)} {spec : A → J → Option (A × O)} {input : I → J} {R : S → A → Prop}
    (h : Mirrors step spec input R) {is : List I} {s s' : S} {a : A} {os : List O} (hR : R s a)
    (hrun : Machine.run step s is = some (s', os)) :
    ∃ a', Machine.run spec a (is.map input) = some (a', os) ∧ R s' a' := by
  have hrel := h.run is s a hR
  rw [hrun] at hrel
  generalize Machine.run spec a (is.map input) = q at hrel
  cases hrel with
  | @some _ q hq => exact ⟨q.1, congrArg some (Prod.ext rfl hq.1.symm), hq.2⟩

theorem Mirrors.run_back {step : S → I → Option (S × O)} {spec : A → J → Option (A × O)} {input : I → J} {R : S → A → Prop}
    (h : Mirrors step spec input R) {is : List I} {s : S} {a a' : A} {os : List O} (hR : R s a)
    (hrun : Machine.run spec a (is.map input) = some (a', os)) :
    ∃ s', Machine.run step s is = some (s', os) ∧ R s' a' := by
  have hrel := h.run is s a hR
  rw [hrun] at hrel
  generalize Machine.run step s is = r at hrel
  cases hrel with
  | @some r _ hr => exact ⟨r.1, congrArg some (Prod.ext rfl hr.1), hr.2⟩

theorem Mirrors.outputs {step : S → I → Option (S × O)} {spec : A → J → Option (A × O)} {input : I → J}
    {R : S → A → Prop} (h : Mirrors step spec input R) (is : List I) (s : S) (a : A) (hR : R s a) :
    (Machine.run step s is).map Prod.snd = (Machine.run spec a (is.map input)).map Prod.snd := by
  have hrun := h.run is s a hR
  generalize Machine.run step s is = r at hrun ⊢
  generalize Machine.run spec a (is.map input) = q at hrun ⊢
  cases hrun with
  | none => rfl
  | some hpq => exact congrArg some hpq.1

end Lidis.Machine
