import Lidis.Lib.FileImage
import Lidis.Requests
import Lidis.SnapshotWrite

namespace Lidis

open Engine Store

namespace Store

def Maps.ofEngines (array rbtree hash skiplist : Map) : Maps
  | .array => array
  | .rbtree => rbtree
  | .hash => hash
  | .skiplist => skiplist

/-- What the engines' own calls keep up under any allocation outcomes: the tree may have lost values. -/
structure Formed (P : Params) (s : Store) : Prop where
  array : ∃ m, KvsArray.Stands P s.array m
  rbtree : ∃ l, Rbtree.Lists s.rbtree l
  hash : ∃ m, KvsHash.Stands P s.hash m
  skiplist : ∃ m, Skiplist.Stands s.skiplist m

/-- The states that any calls, with any outcomes of their allocations, lead to from empty engines. -/
inductive Reachable (P : Params) : Store → Prop where
  | empty {s : Store} (h : Holds P s Maps.empty) : Reachable P s
  | call {s s' : Store} {id : EngineId} {i : Op × Sys} {a : Answer} (h : Reachable P s)
    (hc : (engine P id).call s i = some (s', a)) : Reachable P s'

theorem Holds.formed {P : Params} {s : Store} {m : Maps} (h : Holds P s m) : Formed P s :=
  ⟨⟨_, h.array⟩, by
    obtain ⟨l, hl, -⟩ := (Rbtree.stands_iff _ _).mp h.rbtree
    exact ⟨_, hl⟩, ⟨_, h.hash⟩, ⟨_, h.skiplist⟩⟩

theorem Formed.call {P : Params} {s s' : Store} {id : EngineId} {i : Op × Sys} {a : Answer} (h : Formed P s)
    (hc : (engine P id).call s i = some (s', a)) : Formed P s' := by
  have hkeep : ∀ {S : Type} {e : Engine S} {c : FMap.Contract} {R : S → Map → Prop} {x y : S} {b : Answer},
      e.Tolerates c R (fun _ => True) → (∃ m, R x m) → e.call x i = some (y, b) → ∃ m, R y m := by
    rintro S e c R x y b ht ⟨m, hm⟩ hcall
    rcases ht x m i y b hm trivial hcall with ⟨-, h1⟩ | ⟨-, h1⟩
    · exact ⟨_, h1⟩
    · exact ⟨_, h1⟩
  cases id with
  | array =>
    rw [engine, within_call (fun _ => rfl)] at hc
    obtain ⟨r, hr, he⟩ := Option.map_eq_some_iff.mp hc
    obtain ⟨rfl, -⟩ := Prod.mk.inj he
    exact ⟨hkeep (KvsArray.engine_tolerates P) h.array hr, h.rbtree, h.hash, h.skiplist⟩
  | rbtree =>
    rw [engine, within_call (fun _ => rfl)] at hc
    obtain ⟨r, hr, he⟩ := Option.map_eq_some_iff.mp hc
    obtain ⟨rfl, -⟩ := Prod.mk.inj he
    obtain ⟨l, hl⟩ := h.rbtree
    exact ⟨h.array, Rbtree.call_lists hl hr, h.hash, h.skiplist⟩
  | hash =>
    rw [engine, within_call (fun _ => rfl)] at hc
    obtain ⟨r, hr, he⟩ := Option.map_eq_some_iff.mp hc
    obtain ⟨rfl, -⟩ := Prod.mk.inj he
    exact ⟨h.array, h.rbtree, hkeep (KvsHash.engine_tolerates P) h.hash hr, h.skiplist⟩
  | skiplist =>
    rw [engine, within_call (fun _ => rfl)] at hc
    obtain ⟨r, hr, he⟩ := Option.map_eq_some_iff.mp hc
    obtain ⟨rfl, -⟩ := Prod.mk.inj he
    exact ⟨h.array, h.rbtree, h.hash, hkeep Skiplist.engine_tolerates h.skiplist hr⟩

/-- The nodes of the hash are no more than its count can say. -/
def CountFits (P : Params) (s : Store) : Prop := (s.hash.entries P).length ≤ intMax

theorem Holds.countFits {P : Params} {s : Store} {m : Maps} (h : Holds P s m) (hm : (m .hash).size ≤ intMax) :
    CountFits P s := by
  rw [CountFits, h.hash.size]
  exact hm

theorem Reachable.formed {P : Params} {s : Store} (h : Reachable P s) : Formed P s := by
  induction h with
  | empty h => exact h.formed
  | call _ hc ih => exact ih.call hc

end Store

def entriesOf (id : EngineId) (es : List Record) : List (CString × CString) :=
  es.filterMap (fun e => if e.1 = id then some e.2 else none)

def tagged (id : EngineId) (l : List (CString × CString)) : List Record := l.map (fun e => (id, e))

theorem entriesOf_append (id : EngineId) (es fs : List Record) : entriesOf id (es ++ fs) = entriesOf id es ++ entriesOf id fs :=
  List.filterMap_append

theorem entriesOf_tagged (id : EngineId) (l : List (CString × CString)) : entriesOf id (tagged id l) = l := by
  simp [entriesOf, tagged, List.filterMap_map]

theorem entriesOf_tagged_ne {id id' : EngineId} (h : id' ≠ id) (l : List (CString × CString)) :
    entriesOf id (tagged id' l) = [] := by
  simp [entriesOf, tagged, h]

theorem met_injective : Function.Injective met := by
  rintro ⟨i, k, v⟩ ⟨j, k', v'⟩ h
  simpa [met] using h

theorem tagged_of_met {id : EngineId} {l : List (CString × CString)} {vs : List Record}
    (h : l.map (fun e => (id, e.1, some e.2)) = vs.map met) : vs = tagged id l := by
  refine List.map_injective_iff.mpr met_injective ?_
  rw [← h, tagged, List.map_map]
  rfl

def Covers (es : List Record) (m : Maps) : Prop :=
  ∀ id, (FMap.keys (entriesOf id es)).Nodup ∧ m id = FMap.ofList (entriesOf id es)

theorem covers_of_parts {rs hs as ls : List (CString × CString)} {m : Maps}
    (hr : (FMap.keys rs).Nodup ∧ m .rbtree = FMap.ofList rs) (hh : (FMap.keys hs).Nodup ∧ m .hash = FMap.ofList hs)
    (ha : (FMap.keys as).Nodup ∧ m .array = FMap.ofList as) (hl : (FMap.keys ls).Nodup ∧ m .skiplist = FMap.ofList ls) :
    Covers (tagged .rbtree rs ++ (tagged .hash hs ++ (tagged .array as ++ tagged .skiplist ls))) m := by
  intro id
  simp only [entriesOf_append]
  cases id <;> simpa [entriesOf_tagged, entriesOf_tagged_ne] using by assumption

theorem rbtree_covered {T : Rbtree} {t : RedBlack.ColoredTree Ptr} (h : Rbtree.Valid T t) {vs : List Record}
    (hvs : t.preorder.map (fun p => (EngineId.rbtree, T.key p, T.value p)) = vs.map met) :
    ∃ rs, vs = tagged .rbtree rs ∧ (FMap.keys rs).Nodup ∧ Rbtree.Stands T (FMap.ofList rs) := by
  have hfull : ∀ p ∈ t.preorder, ∃ v, T.value p = some v := by
    intro p hp
    have hm : (EngineId.rbtree, T.key p, T.value p) ∈ vs.map met := hvs ▸ List.mem_map.mpr ⟨p, hp, rfl⟩
    obtain ⟨e, -, he⟩ := List.mem_map.mp hm
    exact ⟨e.2.2, (congrArg (fun x : Met => x.2.2) he).symm⟩
  let filled : Ptr → CString × CString := fun p => (T.key p, (T.value p).getD (T.key p))
  have hentry : ∀ xs : List Ptr, (∀ p ∈ xs, p ∈ t.preorder) → xs.map T.entry = (xs.map filled).map Rbtree.present := by
    intro xs hxs
    rw [List.map_map]
    refine List.map_congr_left (fun p hp => ?_)
    obtain ⟨v, hv⟩ := hfull p (hxs p hp)
    simp [Rbtree.entry, Rbtree.present, filled, hv]
  have hperm : (t.preorder.map filled).Perm (t.items.map filled) := t.preorder_perm.map filled
  have hitems : T.entries t = (t.items.map filled).map Rbtree.present :=
    hentry t.items (fun p hp => t.preorder_perm.mem_iff.mpr hp)
  have hlists : Rbtree.Lists T ((t.items.map filled).map Rbtree.present) := ⟨t, h, hitems⟩
  have hnodup : (FMap.keys (t.items.map filled)).Nodup := by
    have hs := hlists.sorted
    rw [Rbtree.keys_present] at hs
    exact hs.imp (fun hlt => hlt.ne)
  refine ⟨t.preorder.map filled, tagged_of_met ?_, (hperm.map Prod.fst).nodup_iff.mpr hnodup, ?_⟩
  · rw [← hvs, List.map_map]
    refine List.map_congr_left (fun p hp => ?_)
    obtain ⟨v, hv⟩ := hfull p hp
    simp [filled, hv]
  · exact (Rbtree.stands_iff T _).mpr ⟨_, hlists, (FMap.ofList_perm hperm.symm hnodup).symm⟩

theorem hash_nodes (P : Params) (H : KvsHash) :
    ((List.range' 0 P.tableSize).flatMap H.nodes).map (fun n => (EngineId.hash, n.key, some n.value)) =
      (H.entries P).map (fun e => (EngineId.hash, e.1, some e.2)) := by
  rw [KvsHash.entries, List.range_eq_range', List.map_flatMap, List.map_flatMap]
  simp [KvsHash.entry, Function.comp_def]

/-- The order of the records: the array's follow those of the tree and the hash, slot by slot, the skiplist's come
last. -/
def LaidOut (s : Store) (vs : List Record) : Prop :=
  ∃ (first : List Record) (slots : List (Option (CString × CString))) (ls : List (CString × CString)),
    vs = first ++ (tagged .array slots.reduceOption ++ tagged .skiplist ls) ∧
    (∀ e ∈ first, e.1 ≠ .array ∧ e.1 ≠ .skiplist) ∧ s.array.table = slots.map KvsArray.slotOf

theorem laidOut_parts {s : Store} {rs hs ls : List (CString × CString)} {slots : List (Option (CString × CString))}
    (h : s.array.table = slots.map KvsArray.slotOf) :
    LaidOut s (tagged .rbtree rs ++ (tagged .hash hs ++ (tagged .array slots.reduceOption ++ tagged .skiplist ls))) := by
  refine ⟨tagged .rbtree rs ++ tagged .hash hs, slots, ls, by simp, ?_, h⟩
  intro e he
  rcases List.mem_append.mp he with he | he
  · obtain ⟨x, -, rfl⟩ := List.mem_map.mp he
    simp
  · obtain ⟨x, -, rfl⟩ := List.mem_map.mp he
    simp

/-- The entries of the engines as kvs_traversal_write meets them: the tree, the hash, the slots of the array and the
skiplist. -/
structure Traversed (P : Params) (s : Store) (t : RedBlack.ColoredTree Ptr) (hs : List (CString × CString))
    (slots : List (Option (CString × CString))) (ls : List (CString × CString)) : Prop where
  tree : Rbtree.Valid s.rbtree t
  hash : KvsHash.Stands P s.hash (FMap.ofList hs)
  array : KvsArray.Stands P s.array (FMap.ofList slots.reduceOption)
  table : s.array.table = slots.map KvsArray.slotOf
  skiplist : Skiplist.Stands s.skiplist (FMap.ofList ls)
  hash_nodup : (FMap.keys hs).Nodup
  array_nodup : (FMap.keys slots.reduceOption).Nodup
  skiplist_nodup : (FMap.keys ls).Nodup

def beside (hs : List (CString × CString)) (slots : List (Option (CString × CString))) (ls : List (CString × CString)) :
    List Record :=
  tagged .hash hs ++ (tagged .array slots.reduceOption ++ tagged .skiplist ls)

def treeEntry (T : Rbtree) (p : Ptr) : Met := (.rbtree, T.key p, T.value p)

theorem map_met_tagged (id : EngineId) (l : List (CString × CString)) :
    (tagged id l).map met = l.map (fun e => (id, e.1, some e.2)) := by
  rw [tagged, List.map_map]
  rfl

theorem traversal_eq {P : Params} {s : Store} (h : Formed P s) (hint : CountFits P s) :
    ∃ t hs slots ls, Traversed P s t hs slots ls ∧ ∀ (env : ℕ → RecordEnv) (fd : ℤ) (ctx : SaveCtx),
      kvsTraversalWrite env s fd ctx =
        (kvsSaveWriteRbtree (saveRecord env) s.rbtree s.rbtree.next (Rbtree.ptrOf s.rbtree.nil t) fd ctx).bind
          (fun r => if r.2 ≠ 0 then some r else saveAll env fd ((beside hs slots ls).map met) r.1) := by
  obtain ⟨ma, ha⟩ := h.array
  obtain ⟨l, hl⟩ := h.rbtree
  obtain ⟨mh, hh⟩ := h.hash
  obtain ⟨ms, hs⟩ := h.skiplist
  obtain ⟨slots, htable, hlen, htotal, hna, rfl⟩ := id ha
  obtain ⟨t, hv, -⟩ := id hl
  obtain ⟨ps, ls, hshape, hls, rfl⟩ := id hs
  have hcount : s.hash.count = ((List.range' 0 P.tableSize).flatMap s.hash.nodes).length := by
    have hsame := congrArg List.length (hash_nodes P s.hash)
    rw [List.length_map, List.length_map] at hsame
    rw [hh.count, hsame, toInt_of_le hint]
  have hnl : (FMap.keys ls).Nodup := by
    rw [← Skiplist.keyOf_both hls]
    exact (List.pairwise_map.mpr hshape.sorted).imp (fun hlt => hlt.ne)
  refine ⟨t, s.hash.entries P, slots, ls, ⟨hv, hh.map ▸ hh, ha, htable, hs, hh.nodup, hna, hnl⟩, ?_⟩
  intro env fd ctx
  have hhash : ∀ ctx, saveHash (saveRecord env) s.hash fd ctx =
      saveAll env fd ((tagged .hash (s.hash.entries P)).map met) ctx := by
    intro ctx
    rw [map_met_tagged, ← hash_nodes, saveHash]
    split_ifs with hpos
    · rw [hh.slots]
      exact saveBuckets_eq s.hash P.tableSize 0 hcount ctx
    · rw [List.length_eq_zero_iff.mp (show ((List.range' 0 P.tableSize).flatMap s.hash.nodes).length = 0 by omega)]
      rfl
  have harray : ∀ ctx, saveArray (saveRecord env) s.array fd ctx =
      saveAll env fd ((tagged .array slots.reduceOption).map met) ctx := by
    intro ctx
    rw [map_met_tagged, saveArray]
    split_ifs with hpos
    · rw [htable]
      exact saveSlots_eq slots htotal ctx
    · rw [List.length_eq_zero_iff.mp (show slots.reduceOption.length = 0 by omega)]
      rfl
  have hfwd : s.skiplist.fwd s.skiplist.header 0 = some (s.skiplist.forward s.skiplist.header 0) := by
    simp [Skiplist.fwd, hshape.header_ne]
  have hlink := hshape.linked 0 (Nat.zero_le _)
  rw [Skiplist.tower_zero] at hlink
  have hskip : ∀ ctx, saveNodes (saveRecord env) s.skiplist fd s.skiplist.next (s.skiplist.forward s.skiplist.header 0) ctx =
      saveAll env fd ((tagged .skiplist ls).map met) ctx := by
    intro ctx
    rw [map_met_tagged]
    exact saveNodes_eq hlink hshape.nonzero hls hshape.length_lt ctx
  rw [beside, List.map_append, List.map_append, kvsTraversalWrite, writeStore, hv.holds.root]
  refine congrArg (Option.bind _) (funext fun r => ?_)
  simp only [hhash, harray, hfwd, hskip, saveAll_append, bind, Option.bind_some]

theorem Traversed.laidOut {P : Params} {s : Store} {t : RedBlack.ColoredTree Ptr} {hs ls : List (CString × CString)}
    {slots : List (Option (CString × CString))} (h : Traversed P s t hs slots ls) {vs : List Record}
    (hvs : t.preorder.map (treeEntry s.rbtree) ++ (beside hs slots ls).map met = vs.map met) :
    ∃ m, Holds P s m ∧ Covers vs m ∧ LaidOut s vs := by
  obtain ⟨vr, vs1, rfl, hr, hvs1⟩ := List.map_eq_append_iff.mp hvs.symm
  obtain ⟨rs, rfl, hnr, hstands⟩ := rbtree_covered h.tree hr.symm
  obtain rfl := List.map_injective_iff.mpr met_injective hvs1
  refine ⟨Maps.ofEngines (FMap.ofList slots.reduceOption) (FMap.ofList rs) (FMap.ofList hs) (FMap.ofList ls),
    ⟨h.array, hstands, h.hash, h.skiplist⟩, ?_, laidOut_parts h.table⟩
  exact covers_of_parts ⟨hnr, rfl⟩ ⟨h.hash_nodup, rfl⟩ ⟨h.array_nodup, rfl⟩ ⟨h.skiplist_nodup, rfl⟩

theorem Traversed.stored {P : Params} {s : Store} {t : RedBlack.ColoredTree Ptr} {hs ls : List (CString × CString)}
    {slots : List (Option (CString × CString))} (h : Traversed P s t hs slots ls) {e : Met} {v : CString}
    (he : e ∈ t.preorder.map (treeEntry s.rbtree) ++ (beside hs slots ls).map met) (hval : e.2.2 = some v) :
    (engine P e.1).get s (some e.2.1) = some (some v) := by
  rw [beside, List.map_append, List.map_append, map_met_tagged, map_met_tagged, map_met_tagged] at he
  simp only [List.mem_append, List.mem_map] at he
  rcases he with ⟨p, hp, rfl⟩ | ⟨e, he, rfl⟩ | ⟨e, he, rfl⟩ | ⟨e, he, rfl⟩
  · refine Rbtree.get_lists ⟨t, h.tree, rfl⟩ (List.mem_map.mpr ⟨p, t.preorder_perm.mem_iff.mp hp, ?_⟩)
    rw [← hval]
    rfl
  · obtain rfl := Option.some.inj hval
    exact (KvsHash.get_stands h.hash e.1).trans (congrArg some (FMap.lookup_of_mem _ h.hash_nodup he))
  · obtain rfl := Option.some.inj hval
    exact (KvsArray.get_stands h.array e.1).trans (congrArg some (FMap.lookup_of_mem _ h.array_nodup he))
  · obtain rfl := Option.some.inj hval
    exact (Skiplist.get_stands h.skiplist e.1).trans (congrArg some (FMap.lookup_of_mem _ h.skiplist_nodup he))

theorem traversal_outcome {P : Params} {s : Store} (h : Formed P s) (hint : CountFits P s)
    (env : ℕ → RecordEnv) {fd : ℤ} (hfd : 0 ≤ fd)
    (ctx : SaveCtx) :
    ∃ es : List Met, Outcome es ctx (kvsTraversalWrite env s fd ctx) ∧
      (∀ e ∈ es, ∀ v, e.2.2 = some v → (engine P e.1).get s (some e.2.1) = some (some v)) ∧
      ∀ vs, es = vs.map met → ∃ m, Holds P s m ∧ Covers vs m ∧ LaidOut s vs := by
  obtain ⟨t, hs, slots, ls, ht, heq⟩ := traversal_eq h hint
  refine ⟨t.preorder.map (treeEntry s.rbtree) ++ (beside hs slots ls).map met, ?_, ?_, ?_⟩
  · have hv := ht.tree
    rw [heq]
    exact (kvsSaveWriteRbtree_outcome hfd hv.holds.rep hv.holds.nil_not_mem hv.length_lt ctx).bind
      (fun _ _ hneg => if_pos hneg.ne) (saveAll_outcome hfd _)
  · intro e he v hval
    exact ht.stored he hval
  · intro vs hvs
    exact ht.laidOut hvs

/-- The store after HSET k v. -/
def hashed : Store := { fresh .small with hash := (fresh .small).hash.setBucket 0 [⟨.lit "k", .lit "v"⟩] 1 }

theorem hashed_call : (engine .small .hash).call (fresh .small) (.set (.lit "k") (.lit "v"), .granted) =
    some (hashed, .code 0) := rfl

theorem hashed_reachable : Store.Reachable .small hashed := (Reachable.empty (fresh_empty _)).call hashed_call

theorem hashed_countFits : Store.CountFits .small hashed :=
  show (hashed.hash.entries .small).length ≤ intMax by decide

end Lidis
