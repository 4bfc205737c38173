import Lidis.KvsArray
import Lidis.KvsHash
import Lidis.KvsRbtree
import Lidis.KvsSkiplist
import Lidis.Lib.Recovery

namespace Lidis

namespace Engine

variable {S T : Type}

/-- An engine whose state is one field of a larger state. -/
def within (view : T → S) (put : T → S → T) (e : Engine S) : Engine T where
  set t k v sys := (e.set (view t) k v sys).map (fun r => (put t r.1, r.2))
  get t k := e.get (view t) k
  del t k := (e.del (view t) k).map (fun r => (put t r.1, r.2))
  mod t k v sys := (e.mod (view t) k v sys).map (fun r => (put t r.1, r.2))
  exist t k := e.exist (view t) k

section Within

variable {view : T → S} {put : T → S → T} {e : Engine S}

theorem within_call (hput : ∀ t, put t (view t) = t) (t : T) (i : Op × Sys) :
    (e.within view put).call t i = (e.call (view t) i).map (fun r => (put t r.1, r.2)) := by
  obtain ⟨o, sys⟩ := i
  cases o with
  | set k v => simp only [call, within, Option.map_map]; rfl
  | get k => simp only [call, within, Option.map_map]; congr 1; funext v; simp [hput]
  | del k => simp only [call, within, Option.map_map]; rfl
  | mod k v => simp only [call, within, Option.map_map]; rfl
  | exist k => simp only [call, within, Option.map_map]; congr 1; funext n; simp [hput]

variable {c : FMap.Contract} {R : S → Map → Prop} {Q : T → Map → Prop} (view put)

theorem Refines.within (h : e.Refines c R) (hput : ∀ t, put t (view t) = t) (hview : ∀ t m, Q t m → R (view t) m)
    (hQ : ∀ t m s n, Q t m → R s n → Q (put t s) n) : (e.within view put).Refines c Q := by
  intro t m i hq ha
  obtain ⟨s, hs, hR⟩ := h (view t) m i (hview t m hq) ha
  exact ⟨put t s, by rw [within_call hput, hs]; rfl, hQ t m s _ hq hR⟩

theorem Tolerates.within {ok : Op × Sys → Prop} (h : e.Tolerates c R ok) (hput : ∀ t, put t (view t) = t)
    (hview : ∀ t m, Q t m → R (view t) m) (hQ : ∀ t m s n, Q t m → R s n → Q (put t s) n) :
    (e.within view put).Tolerates c Q ok := by
  intro t m i t' a hq hok hcall
  rw [within_call hput] at hcall
  obtain ⟨⟨s, b⟩, hs, he⟩ := Option.map_eq_some_iff.mp hcall
  obtain ⟨rfl, rfl⟩ := Prod.mk.inj he
  rcases h (view t) m i s b (hview t m hq) hok hs with ⟨ha, hR⟩ | ⟨ha, hR⟩
  · exact Or.inl ⟨ha, hQ t m s _ hq hR⟩
  · exact Or.inr ⟨ha, hQ t m s _ hq hR⟩

end Within

end Engine

inductive EngineId where
  | array
  | rbtree
  | hash
  | skiplist
  deriving DecidableEq

structure Store where
  array : KvsArray
  rbtree : Rbtree
  hash : KvsHash
  skiplist : Skiplist

namespace Store

open Engine

def engine (P : Params) : EngineId → Engine Store
  | .array => (KvsArray.engine P).within Store.array (fun s a => { s with array := a })
  | .rbtree => Rbtree.engine.within Store.rbtree (fun s t => { s with rbtree := t })
  | .hash => (KvsHash.engine P).within Store.hash (fun s h => { s with hash := h })
  | .skiplist => Skiplist.engine.within Store.skiplist (fun s l => { s with skiplist := l })

def contract (P : Params) : EngineId → FMap.Contract
  | .array => KvsArray.contract P
  | .rbtree => .plain
  | .hash => KvsHash.contract
  | .skiplist => .plain

theorem contract_sound (P : Params) (id : EngineId) : (contract P id).Sound := by
  have hN := P.arraySize_pos
  cases id with
  | array =>
    have hne : (P.arraySize : ℤ) ≠ 0 := by exact_mod_cast hN.ne'
    exact ⟨hne, hne⟩
  | rbtree => exact ⟨one_ne_zero, one_ne_zero⟩
  | hash => exact ⟨by simp [contract, KvsHash.contract], one_ne_zero⟩
  | skiplist => exact ⟨one_ne_zero, one_ne_zero⟩

abbrev Maps := EngineId → Engine.Map

def Maps.empty : Maps := fun _ => FMap.empty

structure Holds (P : Params) (s : Store) (m : Maps) : Prop where
  array : KvsArray.Stands P s.array (m .array)
  rbtree : Rbtree.Stands s.rbtree (m .rbtree)
  hash : KvsHash.Stands P s.hash (m .hash)
  skiplist : Skiplist.Stands s.skiplist (m .skiplist)

def HoldsAt (P : Params) (m : Maps) (id : EngineId) (s : Store) (n : Map) : Prop := Holds P s (Function.update m id n)

section Fields

variable {P : Params} {m : Maps} {s : Store} {n n' : Map}

theorem HoldsAt.array (h : HoldsAt P m .array s n) : KvsArray.Stands P s.array n := by simpa using Holds.array h

theorem HoldsAt.putArray (h : HoldsAt P m .array s n) {a : KvsArray} (ha : KvsArray.Stands P a n') :
    HoldsAt P m .array { s with array := a } n' :=
  ⟨by simpa using ha, by simpa using Holds.rbtree h, by simpa using Holds.hash h, by simpa using Holds.skiplist h⟩

theorem HoldsAt.rbtree (h : HoldsAt P m .rbtree s n) : Rbtree.Stands s.rbtree n := by simpa using Holds.rbtree h

theorem HoldsAt.putRbtree (h : HoldsAt P m .rbtree s n) {t : Rbtree} (ht : Rbtree.Stands t n') :
    HoldsAt P m .rbtree { s with rbtree := t } n' :=
  ⟨by simpa using Holds.array h, by simpa using ht, by simpa using Holds.hash h, by simpa using Holds.skiplist h⟩

theorem HoldsAt.hash (h : HoldsAt P m .hash s n) : KvsHash.Stands P s.hash n := by simpa using Holds.hash h

theorem HoldsAt.putHash (h : HoldsAt P m .hash s n) {t : KvsHash} (ht : KvsHash.Stands P t n') :
    HoldsAt P m .hash { s with hash := t } n' :=
  ⟨by simpa using Holds.array h, by simpa using Holds.rbtree h, by simpa using ht, by simpa using Holds.skiplist h⟩

theorem HoldsAt.skiplist (h : HoldsAt P m .skiplist s n) : Skiplist.Stands s.skiplist n := by
  simpa using Holds.skiplist h

theorem HoldsAt.putSkiplist (h : HoldsAt P m .skiplist s n) {t : Skiplist} (ht : Skiplist.Stands t n') :
    HoldsAt P m .skiplist { s with skiplist := t } n' :=
  ⟨by simpa using Holds.array h, by simpa using Holds.rbtree h, by simpa using Holds.hash h, by simpa using ht⟩

end Fields

theorem engine_refines (P : Params) (m : Maps) (id : EngineId) :
    (engine P id).Refines (contract P id) (HoldsAt P m id) := by
  cases id with
  | array =>
    exact Refines.within Store.array (fun s a => { s with array := a }) (KvsArray.engine_refines P) (fun _ => rfl)
      (fun _ _ h => HoldsAt.array h) (fun _ _ _ _ h => HoldsAt.putArray h)
  | rbtree =>
    exact Refines.within Store.rbtree (fun s t => { s with rbtree := t }) Rbtree.engine_refines (fun _ => rfl)
      (fun _ _ h => HoldsAt.rbtree h) (fun _ _ _ _ h => HoldsAt.putRbtree h)
  | hash =>
    exact Refines.within Store.hash (fun s h => { s with hash := h }) (KvsHash.engine_refines P) (fun _ => rfl)
      (fun _ _ h => HoldsAt.hash h) (fun _ _ _ _ h => HoldsAt.putHash h)
  | skiplist =>
    exact Refines.within Store.skiplist (fun s l => { s with skiplist := l }) Skiplist.engine_refines (fun _ => rfl)
      (fun _ _ h => HoldsAt.skiplist h) (fun _ _ _ _ h => HoldsAt.putSkiplist h)

/-- Only kvs_rbtree_mod needs its allocation. -/
def callGranted : EngineId → Op × Sys → Prop
  | .rbtree => Rbtree.modGranted
  | _ => fun _ => True

theorem engine_tolerates (P : Params) (m : Maps) (id : EngineId) :
    (engine P id).Tolerates (contract P id) (HoldsAt P m id) (callGranted id) := by
  cases id with
  | array =>
    exact Tolerates.within Store.array (fun s a => { s with array := a }) (KvsArray.engine_tolerates P) (fun _ => rfl)
      (fun _ _ h => HoldsAt.array h) (fun _ _ _ _ h => HoldsAt.putArray h)
  | rbtree =>
    exact Tolerates.within Store.rbtree (fun s t => { s with rbtree := t }) Rbtree.engine_tolerates (fun _ => rfl)
      (fun _ _ h => HoldsAt.rbtree h) (fun _ _ _ _ h => HoldsAt.putRbtree h)
  | hash =>
    exact Tolerates.within Store.hash (fun s h => { s with hash := h }) (KvsHash.engine_tolerates P) (fun _ => rfl)
      (fun _ _ h => HoldsAt.hash h) (fun _ _ _ _ h => HoldsAt.putHash h)
  | skiplist =>
    exact Tolerates.within Store.skiplist (fun s l => { s with skiplist := l }) Skiplist.engine_tolerates (fun _ => rfl)
      (fun _ _ h => HoldsAt.skiplist h) (fun _ _ _ _ h => HoldsAt.putSkiplist h)

def SameMaps (P : Params) (s s' : Store) : Prop :=
  ∀ id key, (engine P id).get s (some key) = (engine P id).get s' (some key) ∧
    (engine P id).exist s (some key) = (engine P id).exist s' (some key)

theorem holds_get {P : Params} {s : Store} {m : Maps} (h : Holds P s m) (id : EngineId) (key : CString) :
    (engine P id).get s (some key) = some ((m id).get key) := by
  cases id with
  | array => exact KvsArray.get_stands h.array key
  | rbtree => exact Rbtree.get_stands h.rbtree key
  | hash => exact KvsHash.get_stands h.hash key
  | skiplist => exact Skiplist.get_stands h.skiplist key

theorem holds_exist {P : Params} {s : Store} {m : Maps} (h : Holds P s m) (id : EngineId) (key : CString) :
    (engine P id).exist s (some key) = some (if ((m id).get key).isSome then 0 else 1) := by
  cases id with
  | array => exact KvsArray.exist_stands h.array key
  | rbtree => exact Rbtree.exist_stands h.rbtree key
  | hash => exact KvsHash.exist_stands h.hash key
  | skiplist => exact Skiplist.exist_stands h.skiplist key

theorem sameMaps_of_holds {P : Params} {s s' : Store} {m : Maps} (h : Holds P s m) (h' : Holds P s' m) :
    SameMaps P s s' := fun id key =>
  ⟨by rw [holds_get h, holds_get h'], by rw [holds_exist h, holds_exist h']⟩

theorem maps_eq_of_sameMaps {P : Params} {s s' : Store} {m m' : Maps} (h : Holds P s m) (h' : Holds P s' m')
    (hs : SameMaps P s s') : m = m' := by
  funext id
  apply FMap.ext_get
  intro key
  have hg := (hs id key).1
  rw [holds_get h, holds_get h'] at hg
  exact Option.some.inj hg

theorem holds_unique {P : Params} {s : Store} {m m' : Maps} (h : Holds P s m) (h' : Holds P s m') : m = m' :=
  maps_eq_of_sameMaps h h' (fun _ _ => ⟨rfl, rfl⟩)

def initKvengine (P : Params) (memory : Store) (sys : Sys) : Option Store := do
  let rbtree ← Rbtree.kvsRbtreeCreate memory.rbtree sys
  some {
    array := KvsArray.kvsArrayCreate memory.array.table
    rbtree := rbtree
    hash := KvsHash.kvsHashCreate P memory.hash.nodes
    skiplist := (Skiplist.kvsSkiplistCreate memory.skiplist sys).1 }

def zeroed (P : Params) : Store where
  array := ⟨List.replicate P.arraySize ⟨none, none⟩, 0⟩
  rbtree := Rbtree.blank
  hash := ⟨fun _ => [], P.tableSize, 0⟩
  skiplist := Skiplist.blank

def fresh (P : Params) : Store where
  array := ⟨List.replicate P.arraySize ⟨none, none⟩, 0⟩
  rbtree := { Rbtree.blank with nil := 1, color := Function.update Rbtree.blank.color 1 .black, root := 1, next := 2 }
  hash := ⟨fun _ => [], P.tableSize, 0⟩
  skiplist := (Skiplist.kvsSkiplistCreate Skiplist.blank .granted).1

theorem initKvengine_zeroed (P : Params) : initKvengine P (zeroed P) .granted = some (fresh P) := rfl

theorem fresh_empty (P : Params) : Holds P (fresh P) Maps.empty where
  array := KvsArray.create_stands P
  rbtree := by
    obtain ⟨T, hT, hs⟩ := Rbtree.create_stands Rbtree.blank .granted Sys.granted_allocOk
    obtain rfl := Option.some.inj hT
    exact hs
  hash := KvsHash.create_stands P
  skiplist := (Skiplist.create_stands Skiplist.blank .granted ⟨rfl, rfl⟩ Nat.one_pos).2

end Store

end Lidis
