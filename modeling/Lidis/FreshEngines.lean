import Lidis.RawEngines

namespace Lidis

open Engine

structure PointerEngine.StartsEmpty {S : Type} (e : PointerEngine S) (s : S) : Prop where
  get : ∀ k, ∃ n, e.get n s (some k) = some .null
  exist : ∀ k, ∃ n, e.exist n s (some k) = some 1
  set : ∀ k v sys, sys.AllocOk →
    ∃ n s', e.set n s (some k) (some v) sys = some (s', 0) ∧ ∃ n, e.get n s' (some k) = some (.addr v)

theorem startsEmpty_of_refines {S : Type} {e : Engine S} {c : FMap.Contract} {R : S → Map → Prop} {s : S}
    (h : e.Refines c R) (hc : c.capacity ≠ some 0) (hR : R s FMap.empty) : e.pointers.StartsEmpty s where
  get k := ⟨0, by simp [Engine.pointers, get_of_refines h hR, Pointer.ofOption]⟩
  exist k := ⟨0, by simp [Engine.pointers, exist_of_refines h hR]⟩
  set k v sys ha := by
    obtain ⟨s', hs, hR'⟩ := h s FMap.empty (.set k v, sys) hR ha
    have hstep : model c FMap.empty (.set k v, sys) = (FMap.empty.insert k v, .code 0) := by
      have hsize : (FMap.empty : Map).size = 0 := rfl
      simp [model, FMap.step, hsize, hc]
    rw [hstep] at hs hR'
    obtain ⟨⟨t, n⟩, ht, he⟩ := Option.map_eq_some_iff.mp hs
    obtain ⟨rfl, hn⟩ := Prod.mk.inj he
    refine ⟨0, t, by rw [← MapAnswer.code.inj hn]; exact ht, 0, ?_⟩
    simp [Engine.pointers, get_of_refines h hR', FMap.insert_get, Pointer.ofOption]

namespace Raw

/-- The context that the records are written to is as it was, whatever writing one would do to it. -/
def WritesNothing (s : Engines) : Prop :=
  ∀ (σ : Type) (write : EngineId → Option CString → Option CString → ℤ → σ → Option (σ × ℤ)) (fd : ℤ) (ctx : σ),
    ∃ steps ret, writeEngines write s steps fd ctx = some (ctx, ret)

def StartsEmpty {P : Params} (memory : Memory P) (sys : Sys) : Prop :=
  ∃ s, initKvengine memory sys = some s ∧ (arrayEngine P).StartsEmpty s.array ∧
    Rbtree.engine.pointers.StartsEmpty s.rbtree ∧ (hashEngine P).StartsEmpty s.hash ∧
    Skiplist.engine.pointers.StartsEmpty s.skiplist ∧ WritesNothing s

section ArrayTable

def holdsKey (key : CString) (item : Item) : Bool := item.key = .addr key

/-- The words that leave the table empty to look at: no slot before the first free one, no key that cannot be read,
and NULL for the value of each key that a search comes to. -/
structure ClearTable (items : List Item) : Prop where
  first : ∀ item ∈ items.head?, item.key = .null
  readable : ∀ item ∈ items, item.key ≠ .wild
  unvalued : ∀ k item, items.find? (holdsKey k) = some item → item.value = .null

theorem searchTable_readable {items : List Item} (h : ∀ item ∈ items, item.key ≠ .wild) (key : CString) :
    searchTable key items = some ((items.find? (holdsKey key)).elim .null Item.value) := by
  induction items with
  | nil => rfl
  | cons item rest ih =>
    have ih := ih (fun x hx => h x (List.mem_cons_of_mem item hx))
    cases hk : item.key with
    | null => simp [searchTable, holdsKey, hk, ih]
    | wild => exact absurd hk (h item List.mem_cons_self)
    | addr k =>
      by_cases he : k = key
      · simp [searchTable, holdsKey, hk, he]
      · simp [searchTable, holdsKey, hk, he, ih]

theorem searchTable_wild {items : List Item} {key : CString} (hkey : ∀ item ∈ items, item.key ≠ .addr key)
    {item : Item} (hmem : item ∈ items) (hwild : item.key = .wild) : searchTable key items = none := by
  induction items with
  | nil => cases hmem
  | cons first rest ih =>
    rcases List.mem_cons.mp hmem with rfl | hrest
    · simp [searchTable, hwild]
    have ih := ih (fun x hx => hkey x (List.mem_cons_of_mem first hx)) hrest
    cases hk : first.key with
    | null => simp [searchTable, hk, ih]
    | wild => simp [searchTable, hk]
    | addr k =>
      have hne : k ≠ key := fun he => hkey first List.mem_cons_self (he ▸ hk)
      simp [searchTable, hk, hne, ih]

theorem exists_key_not_held (items : List Item) : ∃ key : CString, ∀ item ∈ items, item.key ≠ .addr key := by
  have hbound : ∃ n, ∀ item ∈ items, ∀ k, item.key = .addr k → k.length < n := by
    induction items with
    | nil => exact ⟨0, by simp⟩
    | cons first rest ih =>
      obtain ⟨n, hn⟩ := ih
      have hfirst : ∃ m, ∀ k, first.key = .addr k → k.length < m := by
        cases first.key with
        | null => exact ⟨0, by simp⟩
        | wild => exact ⟨0, by simp⟩
        | addr k => exact ⟨k.length + 1, by simp⟩
      obtain ⟨m, hm⟩ := hfirst
      refine ⟨max m n, fun item hmem k hk => lt_max_iff.mpr ?_⟩
      rcases List.mem_cons.mp hmem with rfl | hrest
      · exact Or.inl (hm k hk)
      · exact Or.inr (hn item hrest k hk)
  -- a key longer than all of them
  obtain ⟨n, hn⟩ := hbound
  refine ⟨.ofLength n, fun item hmem hk => ?_⟩
  have hlt := hn item hmem _ hk
  rw [CString.ofLength_length] at hlt
  exact lt_irrefl n hlt

def placed (key value : CString) (items : List Item) : List Item :=
  (editFirst (fun item => item.key = .null) (fun _ => [⟨.addr key, .addr value⟩]) items).getD items

theorem placed_behind {first : Item} (h : first.key ≠ .null) (key value : CString) (rest : List Item) :
    placed key value (first :: rest) = first :: placed key value rest := by
  simp only [placed, editFirst, h, decide_false, Bool.false_eq_true, if_false]
  cases editFirst (fun item => decide (item.key = .null)) (fun _ => [⟨.addr key, .addr value⟩]) rest <;> rfl

theorem placed_first {first : Item} (h : first.key = .null) (key value : CString) (rest : List Item) :
    placed key value (first :: rest) = ⟨.addr key, .addr value⟩ :: rest := by
  simp [placed, editFirst, h]

theorem kvsArraySet_absent (P : Params) {items : List Item} {k : CString} (hget : searchTable k items = some .null)
    (v : CString) {sys : Sys} (ha : sys.AllocOk) :
    ∃ total, kvsArraySet P (kvsArrayCreate items) (some k) (some v) sys = some (⟨placed k v items, total⟩, 0) := by
  have hroom : (0 : ℤ) ≠ P.arraySize := by
    have := P.arraySize_pos
    omega
  simp only [kvsArraySet, kvsArrayCreate, kvsArrayGet, hroom, hget, ha 0, ha 1, placed]
  cases editFirst (fun item => decide (item.key = .null)) (fun _ => [⟨.addr k, .addr v⟩]) items with
  | none => exact ⟨0, rfl⟩ -- no slot is free: 0 is returned, and nothing is stored
  | some table => exact ⟨0 + 1, rfl⟩

theorem array_startsEmpty_iff {P : Params} {items : List Item} (hlen : items.length = P.arraySize) :
    (arrayEngine P).StartsEmpty (kvsArrayCreate items) ↔ ClearTable items := by
  constructor
  · intro h
    have hget : ∀ k, searchTable k items = some .null := fun k => (h.get k).choose_spec
    have hread : ∀ item ∈ items, item.key ≠ .wild := by
      intro item hmem hwild
      obtain ⟨key, hkey⟩ := exists_key_not_held items
      have hnone := searchTable_wild hkey hmem hwild
      rw [hget key] at hnone
      cases hnone
    refine ⟨?_, hread, ?_⟩
    · intro first hfirst
      obtain ⟨rest, rfl⟩ := List.head?_eq_some_iff.mp hfirst
      cases hk : first.key with
      | null => rfl
      | wild => exact absurd hk (hread first List.mem_cons_self)
      | addr k =>
        -- a set of that very key goes to a later slot, behind this one
        obtain ⟨total, hplaced⟩ := kvsArraySet_absent P (hget k) k Sys.granted_allocOk
        obtain ⟨_, A, hset, _, hafter⟩ := h.set k k .granted Sys.granted_allocOk
        obtain ⟨rfl, -⟩ := Prod.mk.inj (Option.some.inj (hplaced.symm.trans hset))
        have hbefore := hget k
        rw [searchTable, hk] at hbefore
        change searchTable k (placed k k (first :: rest)) = _ at hafter
        rw [placed_behind (by simp [hk]), searchTable, hk] at hafter
        simp only [CString.strcmp_eq_zero, if_true] at hbefore hafter
        rw [hbefore] at hafter
        cases hafter
    · intro k item hfind
      have hk := hget k
      rw [searchTable_readable hread, hfind] at hk
      exact Option.some.inj hk
  · rintro ⟨hfirst, hread, hvalue⟩
    have hget : ∀ k, searchTable k items = some .null := by
      intro k
      rw [searchTable_readable hread]
      cases hfind : items.find? (holdsKey k) with
      | none => rfl
      | some item => exact congrArg some (hvalue k item hfind)
    obtain ⟨first, rest, rfl⟩ : ∃ first rest, items = first :: rest :=
      List.exists_cons_of_length_pos (hlen ▸ P.arraySize_pos)
    have hnull : first.key = .null := hfirst first rfl
    refine ⟨fun k => ⟨0, hget k⟩, fun k => ⟨0, ?_⟩, fun k v sys ha => ?_⟩
    · simp [arrayEngine, kvsArrayExist, kvsArrayGet, kvsArrayCreate, hget k]
    · obtain ⟨total, hset⟩ := kvsArraySet_absent P (hget k) v ha
      refine ⟨0, _, hset, 0, ?_⟩
      change searchTable k (placed k v (first :: rest)) = _
      rw [placed_first hnull]
      simp [searchTable]

end ArrayTable

section HashBuckets

/-- From the `i`-th word on the chain leads over nodes with readable keys other than `key` to NULL at the `m`-th. -/
def Passes (key : CString) (chain : ℕ → Pointer Item) (i m : ℕ) : Prop :=
  chain m = .null ∧ ∀ j, i ≤ j → j < m → ∃ node k, chain j = .addr node ∧ node.key = .addr k ∧ k ≠ key

theorem passes_of_findNode {key : CString} {chain : ℕ → Pointer Item} {n i : ℕ}
    (h : findNode key chain n i = some none) : ∃ m, i ≤ m ∧ Passes key chain i m := by
  induction n generalizing i with
  | zero => cases h
  | succ n ih =>
    rw [findNode] at h
    cases hc : chain i with
    | null => exact ⟨i, le_rfl, hc, fun j hij hji => absurd hij (by omega)⟩
    | wild => simp [hc] at h
    | addr node =>
      cases hk : node.key with
      | null => simp [hc, hk] at h
      | wild => simp [hc, hk] at h
      | addr k =>
        by_cases he : k = key
        · simp [hc, hk, he] at h
        · simp only [hc, hk, CString.strcmp_eq_zero, if_neg he] at h
          obtain ⟨m, him, hm, hpass⟩ := ih h
          refine ⟨m, by omega, hm, fun j hij hjm => ?_⟩
          rcases Nat.eq_or_lt_of_le hij with rfl | hlt
          · exact ⟨node, k, hc, hk, he⟩
          · exact hpass j hlt hjm

theorem findNode_of_passes {key : CString} {chain : ℕ → Pointer Item} {d i : ℕ} (h : Passes key chain i (i + d)) :
    findNode key chain (d + 1) i = some none := by
  induction d generalizing i with
  | zero => simp [findNode, show chain i = .null from h.1]
  | succ d ih =>
    obtain ⟨hnull, hpass⟩ := h
    obtain ⟨node, k, hc, hk, he⟩ := hpass i le_rfl (by omega)
    have hrest : Passes key chain (i + 1) (i + 1 + d) :=
      ⟨by rw [← hnull]; congr 1; omega, fun j hij hjm => hpass j (by omega) (by omega)⟩
    rw [findNode]
    simp [hc, hk, he, ih hrest]

/-- In each bucket that a key falls into the words lead over nodes with readable keys, all of other buckets, to NULL. -/
def ClearBuckets (P : Params) (chains : ℕ → ℕ → Pointer Item) : Prop :=
  ∀ k, ∃ n, chains (KvsHash.hash P k) n = .null ∧ ∀ j < n, ∃ node s, chains (KvsHash.hash P k) j = .addr node ∧
    node.key = .addr s ∧ KvsHash.hash P s ≠ KvsHash.hash P k

theorem clearBuckets_iff {P : Params} {chains : ℕ → ℕ → Pointer Item} :
    ClearBuckets P chains ↔ ∀ k, ∃ n, Passes k (chains (KvsHash.hash P k)) 0 n := by
  constructor
  · intro h k
    obtain ⟨n, hn, hpass⟩ := h k
    refine ⟨n, hn, fun j _ hj => ?_⟩
    obtain ⟨node, s, hc, hk, hs⟩ := hpass j hj
    exact ⟨node, s, hc, hk, fun he => hs (by rw [he])⟩
  · intro h k
    obtain ⟨n, hn, hpass⟩ := h k
    refine ⟨n, hn, fun j hj => ?_⟩
    obtain ⟨node, s, hc, hk, -⟩ := hpass j j.zero_le hj
    refine ⟨node, s, hc, hk, fun he => ?_⟩
    -- the walk for `s` itself passes this node on the same chain
    obtain ⟨m, hm, hpass'⟩ := h s
    rw [he] at hm hpass'
    have hnm : n ≤ m := by
      by_contra hlt
      obtain ⟨_, _, hc', -⟩ := hpass m m.zero_le (by omega)
      rw [hm] at hc'
      cases hc'
    obtain ⟨node', s', hc', hk', hne⟩ := hpass' j j.zero_le (by omega)
    rw [hc] at hc'
    rw [← Pointer.addr.inj hc', hk] at hk'
    exact hne (Pointer.addr.inj hk').symm

theorem kvsHashSet_passed {P : Params} {H : HashInst} {k v : CString} {sys : Sys} (ha : sys.AllocOk) {n : ℕ}
    (h : findNode k (H.nodes (KvsHash.hash P k)) n 0 = some none) :
    kvsHashSet P n H (some k) (some v) sys = some ({ H with
      nodes := Function.update H.nodes (KvsHash.hash P k) (link ⟨.addr k, .addr v⟩ (H.nodes (KvsHash.hash P k)))
      count := toInt (H.count + 1) }, 0) := by
  simp [kvsHashSet, h, ha 0, ha 1, ha 2]

theorem hash_startsEmpty_iff {P : Params} {chains : ℕ → ℕ → Pointer Item} :
    (hashEngine P).StartsEmpty (kvsHashCreate P chains) ↔ ClearBuckets P chains := by
  rw [clearBuckets_iff]
  constructor
  · intro h k
    obtain ⟨n, H, hset, -⟩ := h.set k k .granted Sys.granted_allocOk
    have hfind : findNode k (chains (KvsHash.hash P k)) n 0 = some none := by
      simp only [hashEngine, kvsHashSet, kvsHashCreate] at hset
      cases hf : findNode k (chains (KvsHash.hash P k)) n 0 with
      | none => simp [hf] at hset
      | some found =>
        cases found with
        | none => rfl
        | some node => simp [hf] at hset
    obtain ⟨m, -, hm⟩ := passes_of_findNode hfind
    exact ⟨m, hm⟩
  · intro h
    have hfind : ∀ k, ∃ n, findNode k (chains (KvsHash.hash P k)) n 0 = some none := by
      intro k
      obtain ⟨m, hm⟩ := h k
      exact ⟨m + 1, findNode_of_passes (by rwa [Nat.zero_add])⟩
    refine ⟨fun k => ?_, fun k => ?_, fun k v sys ha => ?_⟩
    · obtain ⟨n, hn⟩ := hfind k
      exact ⟨n, by simp [hashEngine, kvsHashGet, kvsHashCreate, hn]⟩
    · obtain ⟨n, hn⟩ := hfind k
      exact ⟨n, by simp [hashEngine, kvsHashExist, kvsHashGet, kvsHashCreate, hn]⟩
    · obtain ⟨n, hn⟩ := hfind k
      refine ⟨n, _, kvsHashSet_passed ha hn, 1, ?_⟩
      simp [hashEngine, kvsHashGet, findNode, link]

end HashBuckets

section Start

theorem kvsRbtreeCreate_root {T T' : Rbtree} {sys : Sys} (h : Rbtree.kvsRbtreeCreate T sys = some T') :
    T'.root = T'.nil ∧ T'.next = T.next + 1 := by
  rw [Rbtree.kvsRbtreeCreate] at h
  split_ifs at h
  cases h
  exact ⟨rfl, rfl⟩

theorem kvsSkiplistCreate_header {S : Skiplist} (hn : 0 < S.next) {sys : Sys} (h : sys.AllocOk) :
    (S.kvsSkiplistCreate sys).1.fwd (S.kvsSkiplistCreate sys).1.header 0 = some 0 ∧
      (S.kvsSkiplistCreate sys).1.next = S.next + 1 := by
  simp [Skiplist.kvsSkiplistCreate, Skiplist.createNode, Skiplist.fwd, h 0, h 1, hn.ne']

theorem writesNothing {s : Engines} (hroot : s.rbtree.root = s.rbtree.nil) (hrb : 0 < s.rbtree.next)
    (hhash : s.hash.count = 0) (harray : s.array.total = 0) (hheader : s.skiplist.fwd s.skiplist.header 0 = some 0)
    (hsl : 0 < s.skiplist.next) : WritesNothing s := by
  intro σ write fd ctx
  obtain ⟨n, hn⟩ := Nat.exists_eq_succ_of_ne_zero hrb.ne'
  obtain ⟨m, hm⟩ := Nat.exists_eq_succ_of_ne_zero hsl.ne'
  have htree : kvsSaveWriteRbtree write s.rbtree s.rbtree.next s.rbtree.root fd ctx =
      some (ctx, if fd < 0 then fd else 0) := by
    rw [hn, hroot, kvsSaveWriteRbtree]
    split_ifs <;> simp_all
  refine ⟨0, if fd < 0 then fd else 0, ?_⟩
  rw [writeEngines, htree]
  by_cases hfd : fd < 0
  · simp [hfd, hfd.ne]
  · -- both counts are 0, so neither table is looked at
    simp [hfd, saveHash, hhash, saveArray, harray, hheader, hm, saveNodes]

/-- Of the four constructors two clear what is read of their memory. The other two leave theirs as the allocator
returned it, and the engines then start empty exactly if that content happens to be harmless. -/
theorem fresh_engines_empty_iff {P : Params} (memory : Memory P) (sys : Sys) (h : sys.AllocOk) :
    StartsEmpty memory sys ↔ ClearTable memory.items ∧ ClearBuckets P memory.chains := by
  obtain ⟨T, hT, hstands⟩ := Rbtree.create_stands memory.rbtree sys h
  obtain ⟨hroot, hnext⟩ := kvsRbtreeCreate_root hT
  obtain ⟨hheader, hnext'⟩ := kvsSkiplistCreate_header memory.next_pos h
  have hrb : 0 < T.next := hnext ▸ Nat.succ_pos _
  have hsl : 0 < (memory.skiplist.kvsSkiplistCreate sys).1.next := by omega
  have hinit : initKvengine memory sys = some ⟨kvsArrayCreate memory.items, T, kvsHashCreate P memory.chains,
      (memory.skiplist.kvsSkiplistCreate sys).1⟩ := by
    rw [initKvengine, hT]
    rfl
  constructor
  · rintro ⟨s, hs, harray, -, hhash, -⟩
    rw [hinit] at hs
    cases hs
    exact ⟨(array_startsEmpty_iff memory.items_length).mp harray, hash_startsEmpty_iff.mp hhash⟩
  · rintro ⟨htable, hbuckets⟩
    refine ⟨_, hinit, (array_startsEmpty_iff memory.items_length).mpr htable, ?_, hash_startsEmpty_iff.mpr hbuckets, ?_, ?_⟩
    · exact startsEmpty_of_refines Rbtree.engine_refines (by simp [FMap.Contract.plain]) hstands
    · exact startsEmpty_of_refines Skiplist.engine_refines (by simp [FMap.Contract.plain])
        (Skiplist.create_stands memory.skiplist sys ⟨h 0, h 1⟩ memory.next_pos).2
    · exact writesNothing hroot hrb rfl rfl hheader hsl

def zeroedMemory : Memory .small where
  items := List.replicate 2 ⟨.null, .null⟩
  items_length := rfl
  chains _ _ := .null
  rbtree := Rbtree.blank
  skiplist := Skiplist.blank
  next_pos := Nat.one_pos

theorem fresh_engines_empty_zeroed : StartsEmpty zeroedMemory .granted := by
  refine (fresh_engines_empty_iff zeroedMemory .granted Sys.granted_allocOk).mpr ⟨⟨?_, ?_, ?_⟩, ?_⟩
  · intro item hitem
    exact List.eq_of_mem_replicate (List.mem_of_mem_head? hitem) ▸ rfl
  · intro item hitem
    rw [List.eq_of_mem_replicate hitem]
    simp
  · intro k item hfind
    rw [List.eq_of_mem_replicate (List.mem_of_find?_eq_some hfind)]
  · exact fun k => ⟨0, rfl, fun j hj => absurd hj j.not_lt_zero⟩

/-- Blocks that have been in use: the table still holds an entry, and the first word of the buckets is no address. -/
def usedMemory : Memory .small where
  items := [⟨.addr (CString.lit "k"), .addr (CString.lit "v")⟩, ⟨.null, .null⟩]
  items_length := rfl
  chains _ _ := .wild
  rbtree := Rbtree.blank
  skiplist := Skiplist.blank
  next_pos := Nat.one_pos

theorem used_memory_is_read :
    ¬ StartsEmpty usedMemory .granted ∧ ∃ s, initKvengine usedMemory .granted = some s ∧
      kvsArrayGet s.array (some (CString.lit "k")) = some (.addr (CString.lit "v")) ∧
      kvsArrayExist s.array (some (CString.lit "k")) = some 0 ∧
      (kvsArraySet .small s.array (some (CString.lit "k")) (some (CString.lit "w")) .granted).map Prod.snd = some 1 ∧
      ∀ n key, kvsHashGet .small n s.hash (some key) = none := by
  have hget : kvsArrayGet (kvsArrayCreate usedMemory.items) (some (CString.lit "k")) =
      some (.addr (CString.lit "v")) := by decide +kernel
  refine ⟨?_, _, rfl, hget, by decide +kernel, by decide +kernel, ?_⟩
  · rintro ⟨s, hs, harray, -⟩
    cases hs
    obtain ⟨_, hnull⟩ := harray.get (CString.lit "k")
    cases hget.symm.trans hnull
  · intro n key
    cases n with
    | zero => rfl
    | succ n => rfl

end Start

end Raw

end Lidis
