import Lidis.Lib.FiniteMap
import Mathlib.Data.List.Perm.Basic
import Mathlib.Data.List.Nodup

namespace Lidis

namespace FMap

variable {K V : Type} [DecidableEq K]

def lookup (k : K) (l : List (K × V)) : Option V := (l.find? (fun e => e.1 = k)).map Prod.snd

def keys (l : List (K × V)) : List K := l.map Prod.fst

theorem lookup_cons (k : K) (e : K × V) (l : List (K × V)) :
    lookup k (e :: l) = if e.1 = k then some e.2 else lookup k l := by
  by_cases h : e.1 = k <;> simp [lookup, h]

theorem lookup_append (k : K) (l m : List (K × V)) : lookup k (l ++ m) = (lookup k l).or (lookup k m) := by
  induction l with
  | nil => simp [lookup]
  | cons e l ih =>
    rw [List.cons_append, lookup_cons, lookup_cons, ih]
    split_ifs <;> rfl

theorem lookup_eq_none (k : K) (l : List (K × V)) : lookup k l = none ↔ k ∉ keys l := by
  induction l with
  | nil => simp [lookup, keys]
  | cons e l ih =>
    rw [lookup_cons]
    by_cases h : e.1 = k
    · simp [h, keys]
    · simp only [h, ↓reduceIte, ih, keys, List.map_cons, List.mem_cons, not_or, iff_and_self]
      exact fun _ he => h he.symm

def ofList (l : List (K × V)) : FMap K V where
  get k := lookup k l
  dom := (keys l).toFinset
  mem_dom := by
    intro k
    rw [List.mem_toFinset, ← not_iff_not, ← lookup_eq_none, Bool.not_eq_true,
      Option.isSome_eq_false_iff, Option.isNone_iff_eq_none]

theorem ofList_get (l : List (K × V)) (k : K) : (ofList l).get k = lookup k l := rfl

@[simp] theorem ofList_nil : ofList ([] : List (K × V)) = empty := ext_get (fun _ => rfl)

theorem ofList_size (l : List (K × V)) (h : (keys l).Nodup) : (ofList l).size = l.length := by
  have hc : (keys l).toFinset.card = (keys l).length := List.toFinset_card_of_nodup h
  simpa [size, ofList, keys] using hc

theorem lookup_of_mem (l : List (K × V)) (h : (keys l).Nodup) {k : K} {v : V} (hm : (k, v) ∈ l) :
    lookup k l = some v := by
  induction l with
  | nil => simp at hm
  | cons e l ih =>
    obtain ⟨he, hl⟩ := List.nodup_cons.mp h
    rw [lookup_cons]
    rcases List.mem_cons.mp hm with rfl | hm
    · simp
    · have hk : k ∈ keys l := List.mem_map.mpr ⟨(k, v), hm, rfl⟩
      have hek : e.1 ≠ k := fun hek => he (hek ▸ hk)
      rw [if_neg hek, ih hl hm]

theorem mem_of_lookup (l : List (K × V)) {k : K} {v : V} (h : lookup k l = some v) : (k, v) ∈ l := by
  obtain ⟨e, he, rfl⟩ := Option.map_eq_some_iff.mp h
  have hk : e.1 = k := by simpa using List.find?_some he
  rw [← hk]
  exact List.mem_of_find?_eq_some he

theorem ofList_perm {l m : List (K × V)} (h : l.Perm m) (hn : (keys l).Nodup) : ofList l = ofList m := by
  have hm : (keys m).Nodup := (h.map Prod.fst).nodup_iff.mp hn
  apply ext_get
  intro k
  simp only [ofList_get]
  cases hl : lookup k l with
  | none =>
    rw [lookup_eq_none] at hl
    exact ((lookup_eq_none k m).mpr (fun hk => hl ((h.map Prod.fst).mem_iff.mpr hk))).symm
  | some v => exact (lookup_of_mem m hm (h.mem_iff.mp (mem_of_lookup l hl))).symm

theorem ofList_insert (l m : List (K × V)) (k : K) (v : V) (h : k ∉ keys l) :
    ofList (l ++ (k, v) :: m) = (ofList (l ++ m)).insert k v := by
  apply ext_get
  intro j
  rw [insert_get]
  simp only [ofList_get, lookup_append, lookup_cons]
  by_cases hj : j = k
  · subst j
    simp [(lookup_eq_none k l).mpr h]
  · rw [if_neg (Ne.symm hj), if_neg hj]

theorem ofList_modify (l m : List (K × V)) (k : K) (v w : V) (h : k ∉ keys l) :
    ofList (l ++ (k, w) :: m) = (ofList (l ++ (k, v) :: m)).insert k w := by
  apply ext_get
  intro j
  rw [insert_get]
  simp only [ofList_get, lookup_append, lookup_cons]
  by_cases hj : j = k
  · subst j
    simp [(lookup_eq_none k l).mpr h]
  · rw [if_neg (Ne.symm hj), if_neg (Ne.symm hj), if_neg hj]

theorem ofList_erase (l m : List (K × V)) (k : K) (v : V) (hl : k ∉ keys l) (hm : k ∉ keys m) :
    ofList (l ++ m) = (ofList (l ++ (k, v) :: m)).erase k := by
  apply ext_get
  intro j
  rw [erase_get]
  simp only [ofList_get, lookup_append, lookup_cons]
  by_cases hj : j = k
  · subst j
    simp [(lookup_eq_none k l).mpr hl, (lookup_eq_none k m).mpr hm]
  · rw [if_neg (Ne.symm hj), if_neg hj]

theorem lookup_middle (l m : List (K × V)) (k : K) (v : V) (h : k ∉ keys l) :
    lookup k (l ++ (k, v) :: m) = some v := by
  rw [lookup_append, (lookup_eq_none k l).mpr h, lookup_cons]
  simp

end FMap

end Lidis
