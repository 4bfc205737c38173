import Lidis.Engine
import Lidis.Lib.Entries
import Lidis.Lib.ListScan
import Mathlib.Data.List.ReduceOption

namespace Lidis

structure Slot where
  key : Option CString
  value : Option CString
  deriving DecidableEq

structure KvsArray where
  table : List Slot
  total : ℤ

namespace KvsArray

open Engine

def holdsKey (key : CString) (s : Slot) : Bool :=
  match s.key with
  | none => false
  | some k => CString.strcmp k key = 0

def kvsArrayCreate (memory : List Slot) : KvsArray := ⟨memory, 0⟩

def kvsArrayGet (A : KvsArray) (key : Option CString) : Option (Option CString) :=
  match key with
  | none => some none
  | some key =>
    match A.table.find? (holdsKey key) with
    | none => some none
    | some s => some s.value

def kvsArraySet (P : Params) (A : KvsArray) (key value : Option CString) (sys : Sys) : Option (KvsArray × ℤ) :=
  match key, value with
  | some key, some value =>
    if A.total = P.arraySize then some (A, -1)
    else do
      match ← kvsArrayGet A key with
      | some _ => some (A, 1)
      | none =>
        if ¬ sys.alloc 0 then some (A, -2)
        else if ¬ sys.alloc 1 then some (A, -2)
        else
          match editFirst (fun s => s.key.isNone) (fun _ => [⟨some key, some value⟩]) A.table with
          | some table => some (⟨table, A.total + 1⟩, 0)
          | none => some (A, 0)
  | _, _ => some (A, -1)

def kvsArrayDel (P : Params) (A : KvsArray) (key : Option CString) : Option (KvsArray × ℤ) :=
  match key with
  | none => some (A, -1)
  | some key =>
    match editFirst (holdsKey key) (fun _ => [⟨none, none⟩]) A.table with
    | some table => some (⟨table, A.total - 1⟩, 0)
    | none => some (A, P.arraySize)

def kvsArrayMod (P : Params) (A : KvsArray) (key value : Option CString) (sys : Sys) : Option (KvsArray × ℤ) :=
  match key, value with
  | some key, some value =>
    if A.total = 0 then some (A, P.arraySize)
    else
      match editFirst (holdsKey key) (fun s => [{ s with value := some value }]) A.table with
      | some table => if ¬ sys.alloc 0 then some (A, -2) else some (⟨table, A.total⟩, 0)
      | none => some (A, P.arraySize)
  | _, _ => some (A, -1)

def kvsArrayExist (A : KvsArray) (key : Option CString) : Option ℤ :=
  match key with
  | none => some (-1)
  | some key => do
    match ← kvsArrayGet A key with
    | none => some 1
    | some _ => some 0

def engine (P : Params) : Engine KvsArray :=
  ⟨kvsArraySet P, kvsArrayGet, kvsArrayDel P, kvsArrayMod P, kvsArrayExist⟩

def slotOf : Option (CString × CString) → Slot
  | none => ⟨none, none⟩
  | some e => ⟨some e.1, some e.2⟩

theorem slotOf_injective : Function.Injective slotOf := by
  rintro (_ | ⟨k, v⟩) (_ | ⟨k', v'⟩) h
  · rfl
  · simp [slotOf] at h
  · simp [slotOf] at h
  · simpa [slotOf] using h

def Stands (P : Params) (A : KvsArray) (m : Map) : Prop :=
  ∃ es : List (Option (CString × CString)), A.table = es.map slotOf ∧ es.length = P.arraySize ∧ A.total = es.reduceOption.length ∧
    (FMap.keys es.reduceOption).Nodup ∧ m = FMap.ofList es.reduceOption

theorem Stands.size_le {P : Params} {A : KvsArray} {m : Map} (h : Stands P A m) : m.size ≤ P.arraySize := by
  obtain ⟨es, -, hlen, -, hn, rfl⟩ := h
  rw [FMap.ofList_size _ hn, ← hlen]
  exact List.reduceOption_length_le es

def contract (P : Params) : FMap.Contract := ⟨some P.arraySize, P.arraySize, P.arraySize⟩

theorem holdsKey_slotOf (a : CString) (e : Option (CString × CString)) :
    holdsKey a (slotOf e) = true ↔ ∃ v, e = some (a, v) := by
  rcases e with _ | ⟨k, v⟩
  · simp [holdsKey, slotOf]
  · simp [holdsKey, slotOf]

theorem not_mem_keys {a : CString} {es : List (Option (CString × CString))}
    (h : ∀ e ∈ es, holdsKey a (slotOf e) = false) : a ∉ FMap.keys es.reduceOption := by
  intro hm
  obtain ⟨⟨k, v⟩, he, rfl⟩ := List.mem_map.mp hm
  have hf := h _ (List.reduceOption_mem_iff.mp he)
  rw [(holdsKey_slotOf k _).mpr ⟨v, rfl⟩] at hf
  simp at hf

theorem reduce_some {α : Type} (l r : List (Option α)) (e : α) :
    (l ++ some e :: r).reduceOption = l.reduceOption ++ e :: r.reduceOption := by
  rw [List.reduceOption_append, List.reduceOption_cons_of_some]

theorem reduce_none {α : Type} (l r : List (Option α)) :
    (l ++ none :: r).reduceOption = l.reduceOption ++ r.reduceOption := by
  rw [List.reduceOption_append, List.reduceOption_cons_of_none]

theorem scan (a : CString) (es : List (Option (CString × CString))) (hn : (FMap.keys es.reduceOption).Nodup) :
    ((∀ s ∈ es.map slotOf, holdsKey a s = false) ∧ (FMap.ofList es.reduceOption).get a = none) ∨
      ∃ l v r, es = l ++ some (a, v) :: r ∧ (∀ s ∈ l.map slotOf, holdsKey a s = false) ∧
        a ∉ FMap.keys l.reduceOption ∧ a ∉ FMap.keys r.reduceOption ∧
        (FMap.ofList es.reduceOption).get a = some v := by
  rcases first_split (fun e => holdsKey a (slotOf e)) es with h | ⟨l, x, r, rfl, hl, hx⟩
  · exact Or.inl ⟨by simpa using h, (FMap.lookup_eq_none _ _).mpr (not_mem_keys h)⟩
  · obtain ⟨v, rfl⟩ := (holdsKey_slotOf a x).mp hx
    have hla := not_mem_keys hl
    rw [reduce_some] at hn ⊢
    simp only [FMap.keys, List.map_append, List.map_cons] at hn
    refine Or.inr ⟨l, v, r, rfl, by simpa using hl, hla, ?_, FMap.lookup_middle _ _ a v hla⟩
    exact (List.nodup_cons.mp (List.nodup_append.mp hn).2.1).1

theorem holds_slotOf (a v : CString) : holdsKey a (slotOf (some (a, v))) = true :=
  (holdsKey_slotOf a _).mpr ⟨v, rfl⟩

theorem get_stands {P : Params} {A : KvsArray} {m : Map} (h : Stands P A m) (a : CString) :
    kvsArrayGet A a = some (m.get a) := by
  obtain ⟨es, ht, -, -, hn, rfl⟩ := h
  rcases scan a es hn with ⟨hs, hm⟩ | ⟨l, v, r, rfl, hl, -, -, hm⟩
  · have hf : A.table.find? (holdsKey a) = none := by
      rw [ht, List.find?_eq_none]
      intro s hs'
      simp [hs s hs']
    simp [kvsArrayGet, hf, hm]
  · have hf : A.table.find? (holdsKey a) = some (slotOf (some (a, v))) := by
      rw [ht, List.map_append, List.map_cons]
      exact find_split hl (holds_slotOf a v)
    simp [kvsArrayGet, hf, hm, slotOf]

theorem size_stands {P : Params} {A : KvsArray} {m : Map} (h : Stands P A m) :
    A.total = m.size ∧ m.size ≤ P.arraySize := by
  obtain ⟨es, -, hlen, htot, hn, rfl⟩ := h
  rw [FMap.ofList_size _ hn]
  exact ⟨htot, (List.reduceOption_length_le es).trans hlen.le⟩

theorem set_stands {P : Params} {A : KvsArray} {m : Map} {sys : Sys} (h : Stands P A m) (ha : sys.AllocOk)
    (a v : CString) (hroom : m.size ≠ P.arraySize) :
    ∃ A', kvsArraySet P A a v sys = some (A', if (m.get a).isSome then 1 else 0) ∧
      Stands P A' (if (m.get a).isSome then m else m.insert a v) := by
  have hget := get_stands h a
  have htot : A.total ≠ P.arraySize := by
    rw [(size_stands h).1]; exact_mod_cast hroom
  cases hm : m.get a with
  | some w =>
    refine ⟨A, ?_, by simpa [hm] using h⟩
    simp [kvsArraySet, htot, hget, hm]
  | none =>
    obtain ⟨es, ht, hlen, hsum, hn, rfl⟩ := h
    rw [FMap.ofList_size _ hn, ← hlen] at hroom
    have hfree : none ∈ es := List.reduceOption_length_lt_iff.mp
      (lt_of_le_of_ne (List.reduceOption_length_le es) hroom)
    rcases first_split (fun e => (slotOf e).key.isNone) es with hall | ⟨l, x, r, rfl, hl, hx⟩
    · exact absurd (hall none hfree) (by simp [slotOf])
    obtain rfl : x = none := by
      rcases x with _ | e
      · rfl
      · simp [slotOf] at hx
    have habs := (FMap.lookup_eq_none a _).mp hm
    rw [reduce_none] at habs hn hsum
    have hedit : editFirst (fun s => s.key.isNone) (fun _ => [⟨some a, some v⟩]) A.table =
        some ((l ++ some (a, v) :: r).map slotOf) := by
      rw [ht, List.map_append, List.map_cons, editFirst_split _ (by simpa using hl) (by simp [slotOf])]
      simp [slotOf]
    simp only [FMap.keys, List.map_append, List.mem_append, not_or] at habs hn
    refine ⟨⟨_, A.total + 1⟩, by simp [kvsArraySet, htot, hget, hm, ha 0, ha 1, hedit], l ++ some (a, v) :: r, rfl, ?_, ?_, ?_, ?_⟩
    · simpa using hlen
    · rw [reduce_some]
      simp only [List.length_append, List.length_cons] at hsum ⊢
      omega
    · rw [reduce_some, FMap.keys, List.map_append, List.map_cons,
        List.nodup_middle, List.nodup_cons, List.mem_append, not_or]
      exact ⟨habs, hn⟩
    · rw [reduce_some, reduce_none, FMap.ofList_insert _ _ a v habs.1]
      simp

theorem del_stands {P : Params} {A : KvsArray} {m : Map} (h : Stands P A m) (a : CString) :
    ∃ A', kvsArrayDel P A a = some (A', if (m.get a).isSome then 0 else (P.arraySize : ℤ)) ∧
      Stands P A' (if (m.get a).isSome then m.erase a else m) := by
  obtain ⟨es, ht, hlen, hsum, hn, rfl⟩ := h
  rcases scan a es hn with ⟨hs, hm⟩ | ⟨l, v, r, rfl, hl, hla, hra, hm⟩
  · refine ⟨A, ?_, by simpa [hm] using ⟨es, ht, hlen, hsum, hn, rfl⟩⟩
    simp [kvsArrayDel, editFirst_none _ (ht ▸ hs), hm]
  · have hedit : editFirst (holdsKey a) (fun _ => [⟨none, none⟩]) A.table = some ((l ++ none :: r).map slotOf) := by
      rw [ht, List.map_append, List.map_cons, editFirst_split _ hl (holds_slotOf a v)]
      simp [slotOf]
    refine ⟨⟨_, A.total - 1⟩, by simp [kvsArrayDel, hedit, hm], l ++ none :: r, rfl, ?_, ?_, ?_, ?_⟩
    · simpa using hlen
    · rw [reduce_some] at hsum
      rw [reduce_none]
      simp only [List.length_append, List.length_cons] at hsum ⊢
      omega
    · rw [reduce_some, FMap.keys, List.map_append, List.map_cons,
        List.nodup_middle, List.nodup_cons] at hn
      rw [reduce_none, FMap.keys, List.map_append]
      exact hn.2
    · simp only [hm, Option.isSome_some, ↓reduceIte]
      rw [reduce_some, reduce_none, FMap.ofList_erase _ _ a v hla hra]

theorem mod_stands {P : Params} {A : KvsArray} {m : Map} {sys : Sys} (h : Stands P A m) (ha : sys.AllocOk)
    (a v : CString) :
    ∃ A', kvsArrayMod P A a v sys = some (A', if (m.get a).isSome then 0 else (P.arraySize : ℤ)) ∧
      Stands P A' (if (m.get a).isSome then m.insert a v else m) := by
  obtain ⟨es, ht, hlen, hsum, hn, rfl⟩ := h
  rcases scan a es hn with ⟨hs, hm⟩ | ⟨l, w, r, rfl, hl, hla, hra, hm⟩
  · refine ⟨A, ?_, by simpa [hm] using ⟨es, ht, hlen, hsum, hn, rfl⟩⟩
    simp [kvsArrayMod, editFirst_none _ (ht ▸ hs), hm]
  · have hedit : editFirst (holdsKey a) (fun s => [{ s with value := some v }]) A.table =
        some ((l ++ some (a, v) :: r).map slotOf) := by
      rw [ht, List.map_append, List.map_cons, editFirst_split _ hl (holds_slotOf a w)]
      simp [slotOf]
    rw [reduce_some] at hn hsum
    have hne : A.total ≠ 0 := by
      simp only [List.length_append, List.length_cons] at hsum
      omega
    refine ⟨⟨_, A.total⟩, by simp [kvsArrayMod, hne, hedit, hm, ha 0], l ++ some (a, v) :: r, rfl, ?_, ?_, ?_, ?_⟩
    · simpa using hlen
    · rw [reduce_some]
      simpa using hsum
    · rw [reduce_some]
      simpa [FMap.keys] using hn
    · simp only [hm, Option.isSome_some, ↓reduceIte]
      rw [reduce_some, reduce_some, FMap.ofList_modify _ _ a w v hla]

theorem exist_stands {P : Params} {A : KvsArray} {m : Map} (h : Stands P A m) (a : CString) :
    kvsArrayExist A a = some (if (m.get a).isSome then 0 else 1) := by
  cases hm : m.get a <;> simp [kvsArrayExist, get_stands h a, hm]

theorem set_full {P : Params} {A : KvsArray} {m : Map} (h : Stands P A m) (a v : CString) (sys : Sys)
    (hfull : m.size = P.arraySize) : kvsArraySet P A a v sys = some (A, -1) := by
  simp [kvsArraySet, (size_stands h).1, hfull]

theorem engine_refines (P : Params) : (engine P).Refines (contract P) (Stands P) :=
  refines_of_calls (fun _ _ sys k v h hc => set_full h k v sys (Option.some.inj hc).symm)
    (fun _ _ _ k v h ha hc => set_stands h ha k v (fun he => hc (congrArg some he.symm)))
    (fun _ _ k h => get_stands h k) (fun _ _ k h => del_stands h k) (fun _ _ _ k v h ha => mod_stands h ha k v)
    (fun _ _ k h => exist_stands h k)

theorem set_asGranted (P : Params) (A : KvsArray) (k v : CString) (sys : Sys) :
    AsGranted A (kvsArraySet P A k v sys) (kvsArraySet P A k v sys.grant) := by
  by_cases h0 : sys.alloc 0 <;> by_cases h1 : sys.alloc 1
  · exact Or.inl (by simp [kvsArraySet, h0, h1, Sys.grant])
  all_goals
    by_cases hfull : A.total = P.arraySize
    · exact Or.inl (by simp [kvsArraySet, hfull])
    · cases hg : kvsArrayGet A k with
      | none => exact Or.inl (by simp [kvsArraySet, hfull, hg])
      | some o =>
        cases o with
        | none => exact Or.inr (Or.inl (by simp [kvsArraySet, hfull, hg, h0, h1]))
        | some w => exact Or.inl (by simp [kvsArraySet, hfull, hg])

theorem mod_asGranted (P : Params) (A : KvsArray) (k v : CString) (sys : Sys) :
    AsGranted A (kvsArrayMod P A k v sys) (kvsArrayMod P A k v sys.grant) := by
  by_cases h0 : sys.alloc 0
  · exact Or.inl (by simp [kvsArrayMod, h0, Sys.grant])
  · by_cases htot : A.total = 0
    · exact Or.inl (by simp [kvsArrayMod, htot])
    · cases he : editFirst (holdsKey k) (fun s => [{ s with value := some v }]) A.table with
      | none => exact Or.inl (by simp [kvsArrayMod, htot, he])
      | some table => exact Or.inr (Or.inl (by simp [kvsArrayMod, htot, he, h0]))

theorem engine_tolerates (P : Params) : (engine P).Tolerates (contract P) (Stands P) (fun _ => True) :=
  (engine_refines P).tolerates (set_asGranted P) (fun A k v sys _ => mod_asGranted P A k v sys)

theorem create_stands (P : Params) : Stands P (kvsArrayCreate (List.replicate P.arraySize ⟨none, none⟩)) FMap.empty := by
  refine ⟨List.replicate P.arraySize none, ?_, by simp, ?_, ?_, ?_⟩
  · simp [kvsArrayCreate, slotOf]
  · simp [kvsArrayCreate]
  · simp [FMap.keys]
  · simp

/-- A map of at most `n` keys, as the comments over the functions have it: a key that is there is reported before
a table that is full. -/
def boundedStep (n : ℕ) (m : Map) (i : Op × Sys) : Map × Answer :=
  match i.1 with
  | .set k v =>
    if (m.get k).isSome then (m, .code 1) else if m.size = n then (m, .code (-1)) else (m.insert k v, .code 0)
  | o => m.step ⟨none, n, n⟩ o

def RoomForPresent (n : ℕ) : Map → List (Op × Sys) → Prop
  | _, [] => True
  | m, i :: is => (∀ k v, i.1 = .set k v → (m.get k).isSome = true → m.size ≠ n) ∧ RoomForPresent n (boundedStep n m i).1 is

theorem boundedStep_map (P : Params) (m : Map) (i : Op × Sys) :
    (model (contract P) m i).1 = (boundedStep P.arraySize m i).1 := by
  obtain ⟨o, sys⟩ := i
  cases o with
  | set k v =>
    simp only [model, FMap.step, boundedStep, contract, Option.some.injEq, eq_comm (a := P.arraySize)]
    split_ifs <;> rfl
  | get k => rfl
  | del k =>
    simp only [model, FMap.step, boundedStep]
    split_ifs <;> rfl
  | mod k v =>
    simp only [model, FMap.step, boundedStep]
    split_ifs <;> rfl
  | exist k => rfl

theorem boundedStep_answer (P : Params) (m : Map) (i : Op × Sys) :
    (model (contract P) m i).2 = (boundedStep P.arraySize m i).2 ↔
      ∀ k v, i.1 = .set k v → (m.get k).isSome = true → m.size ≠ P.arraySize := by
  obtain ⟨o, sys⟩ := i
  cases o with
  | set k v =>
    by_cases hboth : (m.get k).isSome = true ∧ m.size = P.arraySize
    · refine iff_of_false ?_ (fun h => h k v rfl hboth.1 hboth.2)
      simp [model, FMap.step, boundedStep, contract, hboth.1, hboth.2]
    · refine iff_of_true ?_ ?_
      · simp only [model, FMap.step, boundedStep, contract, Option.some.injEq, eq_comm (a := P.arraySize)]
        split_ifs with hm hk
        · exact absurd ⟨hk, hm⟩ hboth
        all_goals rfl
      · intro k' v' he hk hm
        obtain ⟨rfl, rfl⟩ := MapOp.set.inj he
        exact hboth ⟨hk, hm⟩
  | get k => simp [model, FMap.step, boundedStep]
  | del k => simp [model, FMap.step, boundedStep, contract]
  | mod k v => simp [model, FMap.step, boundedStep, contract]
  | exist k => simp [model, FMap.step, boundedStep]

theorem track_bounded (P : Params) (cs : List (Op × Sys)) (m : Map) :
    (Machine.track (model (contract P)) m cs).1 = (Machine.track (boundedStep P.arraySize) m cs).1 ∧
      ((Machine.track (model (contract P)) m cs).2 = (Machine.track (boundedStep P.arraySize) m cs).2 ↔
        RoomForPresent P.arraySize m cs) := by
  induction cs generalizing m with
  | nil => exact ⟨rfl, iff_of_true rfl trivial⟩
  | cons i cs ih =>
    obtain ⟨hmap, hans⟩ := ih (boundedStep P.arraySize m i).1
    simp only [Machine.track, RoomForPresent, List.cons.injEq, boundedStep_map]
    exact ⟨hmap, and_congr (boundedStep_answer P m i) hans⟩

theorem filterMap_slotOf (es : List (Option (CString × CString))) :
    (es.map slotOf).filterMap Slot.key = FMap.keys es.reduceOption := by
  induction es with
  | nil => rfl
  | cons e es ih =>
    cases e with
    | none => simpa [slotOf] using ih
    | some e => simpa [slotOf, FMap.keys] using ih

theorem filter_slotOf (es : List (Option (CString × CString))) :
    ((es.map slotOf).filter (fun s => s.key.isSome)).length = es.reduceOption.length := by
  induction es with
  | nil => rfl
  | cons e es ih =>
    cases e with
    | none => simpa [slotOf] using ih
    | some e => simpa [slotOf] using ih

/-- After any calls the table is as it should be and holds the bounded map. Its answers were those of the bounded map
exactly when no key was set that was there already while the table was full. -/
theorem array_answers_as_bounded_map_iff (P : Params) (cs : List (Op × Sys)) (hcs : ∀ c ∈ cs, c.2.AllocOk) :
    ∃ A as, (engine P).run (kvsArrayCreate (List.replicate P.arraySize ⟨none, none⟩)) cs = some (A, as) ∧
      A.table.length = P.arraySize ∧ (A.table.filterMap Slot.key).Nodup ∧
      (∀ s ∈ A.table, s.key = none ↔ s.value = none) ∧
      A.total = (A.table.filter (fun s => s.key.isSome)).length ∧
      (∀ k, kvsArrayGet A (some k) = some ((Machine.track (boundedStep P.arraySize) FMap.empty cs).1.get k)) ∧
      (as = (Machine.track (boundedStep P.arraySize) FMap.empty cs).2 ↔ RoomForPresent P.arraySize FMap.empty cs) := by
  obtain ⟨A, hrun, h⟩ := (engine_refines P).run cs _ FMap.empty (create_stands P) hcs
  obtain ⟨hmap, hans⟩ := track_bounded P cs FMap.empty
  refine ⟨A, _, hrun, ?_, ?_, ?_, ?_, ?_, hans⟩
  · obtain ⟨es, ht, hlen, -⟩ := h
    rw [ht, List.length_map, hlen]
  · obtain ⟨es, ht, -, -, hn, -⟩ := h
    rw [ht, filterMap_slotOf]
    exact hn
  · obtain ⟨es, ht, -⟩ := h
    intro s hs
    rw [ht] at hs
    obtain ⟨e, -, rfl⟩ := List.mem_map.mp hs
    cases e <;> simp [slotOf]
  · obtain ⟨es, ht, -, htot, -⟩ := h
    rw [ht, filter_slotOf, htot]
  · intro k
    rw [get_stands h k, hmap]

theorem array_answers_as_bounded_map_example :
    ∃ A as, (engine .small).run (kvsArrayCreate (List.replicate 2 ⟨none, none⟩))
        [(.set (.lit "a") (.lit "1"), .granted), (.set (.lit "a") (.lit "2"), .granted),
          (.set (.lit "b") (.lit "3"), .granted), (.set (.lit "c") (.lit "4"), .granted)] = some (A, as) ∧
      (as = [.code 0, .code 1, .code 0, .code (-1)] ↔ RoomForPresent 2 FMap.empty
        [(.set (.lit "a") (.lit "1"), .granted), (.set (.lit "a") (.lit "2"), .granted),
          (.set (.lit "b") (.lit "3"), .granted), (.set (.lit "c") (.lit "4"), .granted)]) := by
  obtain ⟨A, as, hrun, -, -, -, -, -, hiff⟩ := array_answers_as_bounded_map_iff .small
    [(.set (.lit "a") (.lit "1"), .granted), (.set (.lit "a") (.lit "2"), .granted),
      (.set (.lit "b") (.lit "3"), .granted), (.set (.lit "c") (.lit "4"), .granted)] (by simp [Sys.granted_allocOk])
  refine ⟨A, as, hrun, ?_⟩
  rw [show (Machine.track (boundedStep Params.small.arraySize) FMap.empty _).2 =
    [.code 0, .code 1, .code 0, .code (-1)] by decide +kernel] at hiff
  exact hiff

/-- A full table of two slots: setting the key a again is answered with an error and not with 1. -/
theorem full_array_denies_present_key :
    ((engine .small).run (kvsArrayCreate (List.replicate 2 ⟨none, none⟩))
        [(.set (.lit "a") (.lit "1"), .granted), (.set (.lit "b") (.lit "2"), .granted),
          (.set (.lit "a") (.lit "3"), .granted), (.exist (.lit "a"), .granted)]).map Prod.snd =
        some [.code 0, .code 0, .code (-1), .code 0] ∧
      (Machine.track (boundedStep 2) FMap.empty
        [(.set (.lit "a") (.lit "1"), .granted), (.set (.lit "b") (.lit "2"), .granted),
          (.set (.lit "a") (.lit "3"), .granted), (.exist (.lit "a"), .granted)]).2 =
        [.code 0, .code 0, .code 1, .code 0] := by
  constructor
  · decide +kernel
  · decide +kernel

end KvsArray

end Lidis
