import Lidis.Lib.CString
import Lidis.Lib.FiniteMap
import Lidis.Lib.Simulation

namespace Lidis

structure Params where
  arraySize : ℕ
  arraySize_pos : 0 < arraySize
  tableSize : ℕ
  tableSize_pos : 0 < tableSize
  xxh3 : CString → ℕ

def Params.small : Params := ⟨2, by decide, 1, by decide, fun _ => 0⟩

/-- What the system answers during one engine call: the outcome of each kvs_malloc in turn,
and whether each random() in turn is below RAND_MAX / 2. -/
structure Sys where
  alloc : ℕ → Bool
  low : ℕ → Bool

def Sys.AllocOk (sys : Sys) : Prop := ∀ i, sys.alloc i = true

def Sys.granted : Sys := ⟨fun _ => true, fun _ => false⟩

theorem Sys.granted_allocOk : Sys.granted.AllocOk := fun _ => rfl

def Sys.grant (sys : Sys) : Sys := { sys with alloc := fun _ => true }

theorem Sys.grant_allocOk (sys : Sys) : sys.grant.AllocOk := fun _ => rfl

/-- The five functions every engine offers. A missing argument is a NULL pointer, and a missing
result is undefined behaviour. -/
structure Engine (S : Type) where
  set : S → Option CString → Option CString → Sys → Option (S × ℤ)
  get : S → Option CString → Option (Option CString)
  del : S → Option CString → Option (S × ℤ)
  mod : S → Option CString → Option CString → Sys → Option (S × ℤ)
  exist : S → Option CString → Option ℤ

namespace Engine

variable {S : Type}

abbrev Op := MapOp CString CString

abbrev Answer := MapAnswer CString

abbrev Map := FMap CString CString

def codeOf (r : S × ℤ) : S × Answer := (r.1, .code r.2)

def call (e : Engine S) (s : S) (c : Op × Sys) : Option (S × Answer) :=
  match c.1 with
  | .set k v => (e.set s (some k) (some v) c.2).map codeOf
  | .get k => (e.get s (some k)).map fun v => (s, .value v)
  | .del k => (e.del s (some k)).map codeOf
  | .mod k v => (e.mod s (some k) (some v) c.2).map codeOf
  | .exist k => (e.exist s (some k)).map fun n => (s, .code n)

def run (e : Engine S) (s : S) (cs : List (Op × Sys)) : Option (S × List Answer) := Machine.run e.call s cs

def model (c : FMap.Contract) (m : Map) (i : Op × Sys) : Map × Answer := m.step c i.1

def Refines (e : Engine S) (c : FMap.Contract) (R : S → Map → Prop) : Prop :=
  Machine.Simulates e.call (model c) R (fun i => i.2.AllocOk)

theorem refines_of_calls {e : Engine S} {c : FMap.Contract} {R : S → Map → Prop}
    (hfull : ∀ s m sys k v, R s m → c.capacity = some m.size → e.set s (some k) (some v) sys = some (s, -1))
    (hset : ∀ s m sys k v, R s m → sys.AllocOk → c.capacity ≠ some m.size →
      ∃ s', e.set s (some k) (some v) sys = some (s', if (m.get k).isSome then 1 else 0) ∧
        R s' (if (m.get k).isSome then m else m.insert k v))
    (hget : ∀ s m k, R s m → e.get s (some k) = some (m.get k))
    (hdel : ∀ s m k, R s m → ∃ s', e.del s (some k) = some (s', if (m.get k).isSome then 0 else c.delAbsent) ∧
      R s' (if (m.get k).isSome then m.erase k else m))
    (hmod : ∀ s m sys k v, R s m → sys.AllocOk →
      ∃ s', e.mod s (some k) (some v) sys = some (s', if (m.get k).isSome then 0 else c.modAbsent) ∧
        R s' (if (m.get k).isSome then m.insert k v else m))
    (hexist : ∀ s m k, R s m → e.exist s (some k) = some (if (m.get k).isSome then 0 else 1)) :
    e.Refines c R := by
  rintro s m ⟨o, sys⟩ h ha
  cases o with
  | set k v =>
    by_cases hc : c.capacity = some m.size
    · refine ⟨s, ?_⟩
      simp only [call, hfull s m sys k v h hc, model, FMap.step, if_pos hc]
      exact ⟨rfl, h⟩
    · obtain ⟨s', hs, hR⟩ := hset s m sys k v h ha hc
      refine ⟨s', ?_⟩
      simp only [call, hs, model, FMap.step, if_neg hc]
      split_ifs at hR ⊢ <;> exact ⟨rfl, hR⟩
  | get k => exact ⟨s, by simp [call, model, FMap.step, hget s m k h], h⟩
  | del k =>
    obtain ⟨s', hs, hR⟩ := hdel s m k h
    refine ⟨s', ?_⟩
    simp only [call, hs, model, FMap.step]
    split_ifs at hR ⊢ <;> exact ⟨rfl, hR⟩
  | mod k v =>
    obtain ⟨s', hs, hR⟩ := hmod s m sys k v h ha
    refine ⟨s', ?_⟩
    simp only [call, hs, model, FMap.step]
    split_ifs at hR ⊢ <;> exact ⟨rfl, hR⟩
  | exist k => exact ⟨s, by simp [call, model, FMap.step, hexist s m k h], h⟩

section Refines

variable {e : Engine S} {c : FMap.Contract} {R : S → Map → Prop} {s : S} {m : Map}

theorem get_of_refines (h : e.Refines c R) (hR : R s m) (k : CString) : e.get s (some k) = some (m.get k) := by
  obtain ⟨s', hs, -⟩ := h s m (.get k, .granted) hR Sys.granted_allocOk
  obtain ⟨v, hv, he⟩ := Option.map_eq_some_iff.mp hs
  rw [hv, MapAnswer.value.inj (Prod.mk.inj he).2]

theorem exist_of_refines (h : e.Refines c R) (hR : R s m) (k : CString) :
    e.exist s (some k) = some (if (m.get k).isSome then 0 else 1) := by
  obtain ⟨s', hs, -⟩ := h s m (.exist k, .granted) hR Sys.granted_allocOk
  obtain ⟨n, hn, he⟩ := Option.map_eq_some_iff.mp hs
  rw [hn, MapAnswer.code.inj (Prod.mk.inj he).2]

end Refines

/-- Under any allocation outcomes that `ok` admits, a call that comes back answered as the map does, or answered
-2 and left the map alone. -/
def Tolerates (e : Engine S) (c : FMap.Contract) (R : S → Map → Prop) (ok : Op × Sys → Prop) : Prop :=
  ∀ s m i s' a, R s m → ok i → e.call s i = some (s', a) →
    (a = (m.step c i.1).2 ∧ R s' (m.step c i.1).1) ∨ (a = .code (-2) ∧ R s' m)

def AsGranted (s : S) (r granted : Option (S × ℤ)) : Prop := r = granted ∨ r = some (s, -2) ∨ r = none

theorem Refines.tolerates {e : Engine S} {c : FMap.Contract} {R : S → Map → Prop} {ok : Op × Sys → Prop}
    (h : e.Refines c R)
    (hset : ∀ s k v sys, AsGranted s (e.set s (some k) (some v) sys) (e.set s (some k) (some v) sys.grant))
    (hmod : ∀ s k v sys, ok (.mod k v, sys) →
      AsGranted s (e.mod s (some k) (some v) sys) (e.mod s (some k) (some v) sys.grant)) :
    e.Tolerates c R ok := by
  rintro s m ⟨o, sys⟩ s' a hR hok hcall
  obtain ⟨g, hg, hRg⟩ := h s m (o, sys.grant) hR sys.grant_allocOk
  have hsame : ∀ i, e.call s (o, sys) = e.call s i → i = (o, sys.grant) →
      (a = (m.step c o).2 ∧ R s' (m.step c o).1) ∨ (a = .code (-2) ∧ R s' m) := by
    rintro i he rfl
    rw [he, hg] at hcall
    obtain ⟨rfl, rfl⟩ := Prod.mk.inj (Option.some.inj hcall)
    exact Or.inl ⟨rfl, hRg⟩
  cases o with
  | set k v =>
    rcases hset s k v sys with he | he | he
    · exact hsame (.set k v, sys.grant) (by simp only [call, he]) rfl
    · simp only [call, he, Option.map_some, codeOf, Option.some.injEq, Prod.mk.injEq] at hcall
      exact Or.inr ⟨hcall.2.symm, hcall.1 ▸ hR⟩
    · simp [call, he] at hcall
  | get k => exact hsame (.get k, sys.grant) rfl rfl
  | del k => exact hsame (.del k, sys.grant) rfl rfl
  | mod k v =>
    rcases hmod s k v sys hok with he | he | he
    · exact hsame (.mod k v, sys.grant) (by simp only [call, he]) rfl
    · simp only [call, he, Option.map_some, codeOf, Option.some.injEq, Prod.mk.injEq] at hcall
      exact Or.inr ⟨hcall.2.symm, hcall.1 ▸ hR⟩
    · simp [call, he] at hcall
  | exist k => exact hsame (.exist k, sys.grant) rfl rfl

def asksMemory : Op → Bool
  | .set _ _ | .mod _ _ => true
  | .get _ | .del _ | .exist _ => false

def Answered (c : FMap.Contract) : Map → List (Op × Sys) → List Answer → Map → Prop
  | m, [], [], m' => m' = m
  | m, i :: is, a :: as, m' =>
    (a = (m.step c i.1).2 ∧ Answered c (m.step c i.1).1 is as m') ∨
      (asksMemory i.1 = true ∧ ¬ i.2.AllocOk ∧ a = .code (-2) ∧ Answered c m is as m')
  | _, _, _, _ => False

theorem Refines.call_cases {e : Engine S} {c : FMap.Contract} {R : S → Map → Prop} {ok : Op × Sys → Prop}
    (h : e.Refines c R) (ht : e.Tolerates c R ok) {s s' : S} {m : Map} {i : Op × Sys} {a : Answer} (hR : R s m)
    (hok : ok i) (hcall : e.call s i = some (s', a)) :
    (a = (m.step c i.1).2 ∧ R s' (m.step c i.1).1) ∨
      (asksMemory i.1 = true ∧ ¬ i.2.AllocOk ∧ a = .code (-2) ∧ R s' m) := by
  have hgrant : ∀ sys : Sys, sys.AllocOk → e.call s i = e.call s (i.1, sys) →
      a = (m.step c i.1).2 ∧ R s' (m.step c i.1).1 := by
    intro sys hsys he
    obtain ⟨g, hg, hRg⟩ := h s m (i.1, sys) hR hsys
    rw [he, hg] at hcall
    obtain ⟨rfl, rfl⟩ := Prod.mk.inj (Option.some.inj hcall)
    exact ⟨rfl, hRg⟩
  by_cases ha : i.2.AllocOk
  · exact Or.inl (hgrant i.2 ha rfl)
  · obtain ⟨o, sys⟩ := i
    cases o with
    | set k v => exact (ht s m _ s' a hR hok hcall).imp_right (fun h => ⟨rfl, ha, h.1, h.2⟩)
    | mod k v => exact (ht s m _ s' a hR hok hcall).imp_right (fun h => ⟨rfl, ha, h.1, h.2⟩)
    | get k => exact Or.inl (hgrant sys.grant sys.grant_allocOk rfl)
    | del k => exact Or.inl (hgrant sys.grant sys.grant_allocOk rfl)
    | exist k => exact Or.inl (hgrant sys.grant sys.grant_allocOk rfl)

theorem run_cons {e : Engine S} {s s1 s' : S} {i : Op × Sys} {is : List (Op × Sys)} {a : Answer} {as : List Answer}
    (hcall : e.call s i = some (s1, a)) (hrun : e.run s1 is = some (s', as)) :
    e.run s (i :: is) = some (s', a :: as) := by
  simp only [run] at hrun ⊢
  simp [Machine.run, hcall, hrun]

theorem Refines.run_answered {e : Engine S} {c : FMap.Contract} {R : S → Map → Prop} (h : e.Refines c R)
    (ht : e.Tolerates c R (fun _ => True)) (hdef : ∀ s m i, R s m → ∃ r, e.call s i = some r)
    (is : List (Op × Sys)) {s : S} {m : Map} (hR : R s m) :
    ∃ s' as m', e.run s is = some (s', as) ∧ Answered c m is as m' ∧ R s' m' := by
  induction is generalizing s m with
  | nil => exact ⟨s, [], m, rfl, rfl, hR⟩
  | cons i is ih =>
    obtain ⟨⟨s1, a⟩, hcall⟩ := hdef s m i hR
    rcases h.call_cases ht hR trivial hcall with ⟨ha, hR1⟩ | ⟨hasks, halloc, ha, hR1⟩
    · obtain ⟨s', as, m', hrun, hans, hR'⟩ := ih hR1
      exact ⟨s', a :: as, m', run_cons hcall hrun, Or.inl ⟨ha, hans⟩, hR'⟩
    · obtain ⟨s', as, m', hrun, hans, hR'⟩ := ih hR1
      exact ⟨s', a :: as, m', run_cons hcall hrun, Or.inr ⟨hasks, halloc, ha, hans⟩, hR'⟩

end Engine

end Lidis
