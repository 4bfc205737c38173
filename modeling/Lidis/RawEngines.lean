import Lidis.SaveRing

namespace Lidis

/-- A word of memory taken for the address of an `α`: NULL, the address of one, or neither. -/
inductive Pointer (α : Type) where
  | null
  | wild
  | addr (a : α)
  deriving DecidableEq

def Pointer.ofOption {α : Type} : Option α → Pointer α
  | none => .null
  | some a => .addr a

/-- What an engine offers when its get answers with whatever word it finds. The number bounds the steps along a
chain, which need not end. -/
structure PointerEngine (S : Type) where
  set : ℕ → S → Option CString → Option CString → Sys → Option (S × ℤ)
  get : ℕ → S → Option CString → Option (Pointer CString)
  exist : ℕ → S → Option CString → Option ℤ

def Engine.pointers {S : Type} (e : Engine S) : PointerEngine S where
  set _ := e.set
  get _ s key := (e.get s key).map Pointer.ofOption
  exist _ := e.exist

namespace Raw

/-- The two words of an item of the array, or of a node of the hash. -/
structure Item where
  key : Pointer CString
  value : Pointer CString
  deriving DecidableEq

structure ArrayInst where
  table : List Item
  total : ℤ

/-- `nodes i j` is the word that `j` steps along `next` from bucket `i` lead to, if all before it are nodes. -/
structure HashInst where
  nodes : ℕ → ℕ → Pointer Item
  maxSlots : ℕ
  count : ℤ

section Array

def kvsArrayCreate (memory : List Item) : ArrayInst := ⟨memory, 0⟩

def searchTable (key : CString) : List Item → Option (Pointer CString)
  | [] => some .null
  | item :: rest =>
    match item.key with
    | .null => searchTable key rest
    | .wild => none
    | .addr k => if CString.strcmp k key = 0 then some item.value else searchTable key rest

def kvsArrayGet (A : ArrayInst) (key : Option CString) : Option (Pointer CString) :=
  match key with
  | none => some .null
  | some key => searchTable key A.table

def kvsArraySet (P : Params) (A : ArrayInst) (key value : Option CString) (sys : Sys) : Option (ArrayInst × ℤ) :=
  match key, value with
  | some key, some value =>
    if A.total = P.arraySize then some (A, -1)
    else do
      let str ← kvsArrayGet A (some key)
      if str ≠ .null then some (A, 1)
      else if ¬ sys.alloc 0 then some (A, -2)
      else if ¬ sys.alloc 1 then some (A, -2)
      else
        match editFirst (fun item => item.key = .null) (fun _ => [⟨.addr key, .addr value⟩]) A.table with
        | some table => some (⟨table, A.total + 1⟩, 0)
        | none => some (A, 0)
  | _, _ => some (A, -1)

def kvsArrayExist (A : ArrayInst) (key : Option CString) : Option ℤ :=
  match key with
  | none => some (-1)
  | some key => do
    let str ← kvsArrayGet A (some key)
    if str = .null then some 1 else some 0

def arrayEngine (P : Params) : PointerEngine ArrayInst :=
  ⟨fun _ => kvsArraySet P, fun _ => kvsArrayGet, fun _ => kvsArrayExist⟩

end Array

section Hash

def kvsHashCreate (P : Params) (memory : ℕ → ℕ → Pointer Item) : HashInst := ⟨memory, P.tableSize, 0⟩

/-- The walk of get and set: the node with the key, or NULL reached. -/
def findNode (key : CString) (chain : ℕ → Pointer Item) : ℕ → ℕ → Option (Option Item)
  | 0, _ => none
  | n + 1, j =>
    match chain j with
    | .null => some none
    | .wild => none
    | .addr node =>
      match node.key with
      | .addr k => if CString.strcmp k key = 0 then some (some node) else findNode key chain n (j + 1)
      | _ => none

def link (node : Item) (chain : ℕ → Pointer Item) : ℕ → Pointer Item
  | 0 => .addr node
  | j + 1 => chain j

def kvsHashSet (P : Params) (n : ℕ) (H : HashInst) (key value : Option CString) (sys : Sys) : Option (HashInst × ℤ) :=
  match key, value with
  | some key, some value => do
    let idx := KvsHash.hash P key
    match ← findNode key (H.nodes idx) n 0 with
    | some _ => some (H, 1)
    | none =>
      if ¬ sys.alloc 0 ∨ ¬ sys.alloc 1 ∨ ¬ sys.alloc 2 then some (H, -2)
      else some ({ H with
        nodes := Function.update H.nodes idx (link ⟨.addr key, .addr value⟩ (H.nodes idx)), count := toInt (H.count + 1) }, 0)
  | _, _ => some (H, -1)

def kvsHashGet (P : Params) (n : ℕ) (H : HashInst) (key : Option CString) : Option (Pointer CString) :=
  match key with
  | none => some .null
  | some key => do
    match ← findNode key (H.nodes (KvsHash.hash P key)) n 0 with
    | some node => some node.value
    | none => some .null

def kvsHashExist (P : Params) (n : ℕ) (H : HashInst) (key : Option CString) : Option ℤ := do
  let value ← kvsHashGet P n H key
  if value = .null then some 1 else some 0

def hashEngine (P : Params) : PointerEngine HashInst := ⟨kvsHashSet P, kvsHashGet P, kvsHashExist P⟩

end Hash

/-- The memory that the constructors are given, as it is: the words of the array's table and of the buckets of the
hash table, with what they lead to. The tree and the list take theirs from their own heaps, where 0 is NULL. -/
structure Memory (P : Params) where
  items : List Item
  items_length : items.length = P.arraySize
  chains : ℕ → ℕ → Pointer Item
  rbtree : Rbtree
  skiplist : Skiplist
  next_pos : 0 < skiplist.next

structure Engines where
  array : ArrayInst
  rbtree : Rbtree
  hash : HashInst
  skiplist : Skiplist

def initKvengine {P : Params} (memory : Memory P) (sys : Sys) : Option Engines := do
  let rbtree ← Rbtree.kvsRbtreeCreate memory.rbtree sys
  some {
    array := kvsArrayCreate memory.items
    rbtree := rbtree
    hash := kvsHashCreate P memory.chains
    skiplist := (Skiplist.kvsSkiplistCreate memory.skiplist sys).1 }

section Traversal

variable {σ : Type} (write : EngineId → Option CString → Option CString → ℤ → σ → Option (σ × ℤ))

def saveRecord (type : EngineId) (key value : Pointer CString) (fd : ℤ) (ctx : σ) : Option (σ × ℤ) :=
  match key, value with
  | .addr key, .addr value => write type (some key) (some value) fd ctx
  | .addr key, .null => write type (some key) none fd ctx
  | .null, _ => write type none none fd ctx
  -- build_save_protocol looks for a NULL before it reads either string
  | .wild, .null => write type none none fd ctx
  | _, _ => none

def saveChain (fd : ℤ) (chain : ℕ → Pointer Item) : ℕ → ℕ → ℤ → σ → Option (σ × ℤ × ℤ)
  | 0, _, _, _ => none
  | n + 1, j, count, ctx =>
    match chain j with
    | .null => some (ctx, 0, count)
    | .wild => none
    | .addr node => do
      let (ctx, ret) ← saveRecord write .hash node.key node.value fd ctx
      if ret ≠ 0 then some (ctx, ret, count) else saveChain fd chain n (j + 1) (count - 1) ctx

def saveBuckets (H : HashInst) (steps : ℕ) (fd : ℤ) : ℕ → ℕ → ℤ → σ → Option (σ × ℤ)
  | 0, _, _, ctx => some (ctx, 0)
  | n + 1, i, count, ctx => do
    let (ctx, ret, count) ← saveChain write fd (H.nodes i) steps 0 count ctx
    if ret ≠ 0 then some (ctx, ret)
    else if count ≤ 0 then some (ctx, 0)
    else saveBuckets H steps fd n (i + 1) count ctx

def saveHash (H : HashInst) (steps : ℕ) (fd : ℤ) (ctx : σ) : Option (σ × ℤ) :=
  if 0 < H.count then saveBuckets write H steps fd H.maxSlots 0 H.count ctx else some (ctx, 0)

def saveItems (fd : ℤ) : List Item → ℤ → σ → Option (σ × ℤ)
  | [], _, ctx => some (ctx, 0)
  | item :: rest, count, ctx =>
    if item.key = .null then
      if count ≤ 0 then some (ctx, 0) else saveItems fd rest count ctx
    else do
      let (ctx, ret) ← saveRecord write .array item.key item.value fd ctx
      if ret ≠ 0 then some (ctx, ret)
      else if count - 1 ≤ 0 then some (ctx, 0)
      else saveItems fd rest (count - 1) ctx

def saveArray (A : ArrayInst) (fd : ℤ) (ctx : σ) : Option (σ × ℤ) :=
  if 0 < A.total then saveItems write fd A.table A.total ctx else some (ctx, 0)

/-- The four loops of kvs_traversal_write. -/
def writeEngines (s : Engines) (steps : ℕ) (fd : ℤ) (ctx : σ) : Option (σ × ℤ) := do
  let (ctx, ret) ← kvsSaveWriteRbtree write s.rbtree s.rbtree.next s.rbtree.root fd ctx
  if ret ≠ 0 then some (ctx, ret)
  else do
    let (ctx, ret) ← saveHash write s.hash steps fd ctx
    if ret ≠ 0 then some (ctx, ret)
    else do
      let (ctx, ret) ← saveArray write s.array fd ctx
      if ret ≠ 0 then some (ctx, ret)
      else do
        let current ← s.skiplist.fwd s.skiplist.header 0
        saveNodes write s.skiplist fd s.skiplist.next current ctx

end Traversal

section Typed

def ofSlot (s : Slot) : Item := ⟨.ofOption s.key, .ofOption s.value⟩

def ofArray (A : KvsArray) : ArrayInst := ⟨A.table.map ofSlot, A.total⟩

def ofNode (node : HashNode) : Item := ⟨.addr node.key, .addr node.value⟩

def ofChain (chain : List HashNode) (j : ℕ) : Pointer Item := .ofOption (chain[j]?.map ofNode)

def ofHash (H : KvsHash) : HashInst := ⟨fun i => ofChain (H.nodes i), H.maxSlots, H.count⟩

def ofStore (s : Store) : Engines := ⟨ofArray s.array, s.rbtree, ofHash s.hash, s.skiplist⟩

def ofMemory {P : Params} (s : Store) (hlen : s.array.table.length = P.arraySize) (hn : 0 < s.skiplist.next) : Memory P :=
  ⟨s.array.table.map ofSlot, (List.length_map ofSlot).trans hlen, fun i => ofChain (s.hash.nodes i), s.rbtree, s.skiplist, hn⟩

theorem initKvengine_ofMemory {P : Params} (s : Store) (hlen : s.array.table.length = P.arraySize)
    (hn : 0 < s.skiplist.next) (sys : Sys) :
    initKvengine (ofMemory s hlen hn) sys = (Store.initKvengine P s sys).map ofStore := by
  rw [initKvengine, Store.initKvengine]
  change (Rbtree.kvsRbtreeCreate s.rbtree sys >>= _) = _
  cases Rbtree.kvsRbtreeCreate s.rbtree sys <;> rfl

theorem searchTable_ofSlot (key : CString) (table : List Slot) :
    searchTable key (table.map ofSlot) = some (.ofOption ((table.find? (KvsArray.holdsKey key)).bind Slot.value)) := by
  induction table with
  | nil => rfl
  | cons s rest ih =>
    cases hk : s.key with
    | none => simp [searchTable, ofSlot, Pointer.ofOption, KvsArray.holdsKey, hk, ih]
    | some k =>
      by_cases he : k = key
      · simp [searchTable, ofSlot, Pointer.ofOption, KvsArray.holdsKey, hk, he]
      · simp [searchTable, ofSlot, Pointer.ofOption, KvsArray.holdsKey, hk, he, ih]

theorem kvsArrayGet_ofArray (A : KvsArray) (key : Option CString) :
    kvsArrayGet (ofArray A) key = (A.kvsArrayGet key).map Pointer.ofOption := by
  cases key with
  | none => rfl
  | some key =>
    change searchTable key (A.table.map ofSlot) = _
    rw [searchTable_ofSlot, KvsArray.kvsArrayGet]
    cases A.table.find? (KvsArray.holdsKey key) <;> rfl

theorem kvsArraySet_ofArray (P : Params) (A : KvsArray) (key value : Option CString) (sys : Sys) :
    kvsArraySet P (ofArray A) key value sys = (A.kvsArraySet P key value sys).map (fun r => (ofArray r.1, r.2)) := by
  cases key with
  | none => rfl
  | some key =>
    cases value with
    | none => rfl
    | some value =>
      have hedit : editFirst (fun item => decide (item.key = .null)) (fun _ => [⟨.addr key, .addr value⟩])
          (A.table.map ofSlot) = (editFirst (fun s => s.key.isNone) (fun _ => [⟨some key, some value⟩]) A.table).map
            (List.map ofSlot) := by
        refine editFirst_map (fun s => ?_) ?_ A.table
        · cases hk : s.key <;> simp [ofSlot, Pointer.ofOption, hk]
        · intro s
          rfl
      rw [kvsArraySet, KvsArray.kvsArraySet, kvsArrayGet_ofArray]
      by_cases hfull : A.total = P.arraySize
      · simp [ofArray, hfull]
      cases A.kvsArrayGet (some key) with
      | none => simp [ofArray, hfull]
      | some str =>
        cases str with
        | some v => simp [ofArray, hfull, Pointer.ofOption]
        | none =>
          by_cases h0 : sys.alloc 0
          · by_cases h1 : sys.alloc 1
            · cases hplace : editFirst (fun s => s.key.isNone) (fun _ => [⟨some key, some value⟩]) A.table <;>
                simp [ofArray, hfull, Pointer.ofOption, h0, h1, hedit, hplace]
            · simp [ofArray, hfull, Pointer.ofOption, h0, h1]
          · simp [ofArray, hfull, Pointer.ofOption, h0]

theorem findNode_shift (key : CString) (chain : ℕ → Pointer Item) (n j : ℕ) :
    findNode key chain n (j + 1) = findNode key (fun j => chain (j + 1)) n j := by
  induction n generalizing j with
  | zero => rfl
  | succ n ih =>
    rw [findNode, findNode, ih]

theorem findNode_ofChain (key : CString) (chain : List HashNode) {n : ℕ} (hn : chain.length < n) :
    findNode key (ofChain chain) n 0 = some ((chain.find? (KvsHash.isNode key)).map ofNode) := by
  induction chain generalizing n with
  | nil =>
    obtain ⟨n, rfl⟩ := Nat.exists_eq_succ_of_ne_zero (Nat.ne_of_gt hn)
    rfl
  | cons node rest ih =>
    obtain ⟨n, rfl⟩ := Nat.exists_eq_succ_of_ne_zero (Nat.ne_of_gt (Nat.zero_lt_of_lt hn))
    have hrest := ih (Nat.lt_of_succ_lt_succ hn)
    have hshift : (fun j => ofChain (node :: rest) (j + 1)) = ofChain rest := rfl
    rw [findNode, findNode_shift, hshift, hrest]
    by_cases he : node.key = key
    · simp [ofChain, ofNode, Pointer.ofOption, KvsHash.isNode, he]
    · simp [ofChain, ofNode, Pointer.ofOption, KvsHash.isNode, he]

theorem kvsHashGet_ofHash (P : Params) (H : KvsHash) (key : CString) {n : ℕ}
    (hn : (H.nodes (KvsHash.hash P key)).length < n) :
    kvsHashGet P n (ofHash H) (some key) = (H.kvsHashGet P (some key)).map Pointer.ofOption := by
  rw [kvsHashGet, KvsHash.kvsHashGet]
  simp only [ofHash, findNode_ofChain key _ hn]
  cases (H.nodes (KvsHash.hash P key)).find? (KvsHash.isNode key) <;> rfl

theorem link_ofChain (node : HashNode) (chain : List HashNode) :
    link (ofNode node) (ofChain chain) = ofChain (node :: chain) := by
  funext j
  cases j <;> rfl

theorem kvsHashSet_ofHash (P : Params) (H : KvsHash) (key value : CString) (sys : Sys) {n : ℕ}
    (hn : (H.nodes (KvsHash.hash P key)).length < n) :
    kvsHashSet P n (ofHash H) (some key) (some value) sys =
      (H.kvsHashSet P (some key) (some value) sys).map (fun r => (ofHash r.1, r.2)) := by
  have hnodes : ∀ chain, (fun i => ofChain (Function.update H.nodes (KvsHash.hash P key) chain i)) =
      Function.update (fun i => ofChain (H.nodes i)) (KvsHash.hash P key) (ofChain chain) := by
    intro chain
    funext i
    exact Function.apply_update (fun _ => ofChain) H.nodes (KvsHash.hash P key) chain i
  have hlink : link ⟨.addr key, .addr value⟩ (ofChain (H.nodes (KvsHash.hash P key))) =
      ofChain (⟨key, value⟩ :: H.nodes (KvsHash.hash P key)) := link_ofChain ⟨key, value⟩ _
  rw [kvsHashSet, KvsHash.kvsHashSet]
  simp only [ofHash, findNode_ofChain key _ hn, ← List.isSome_find?]
  cases hfind : (H.nodes (KvsHash.hash P key)).find? (KvsHash.isNode key) with
  | some node => rfl
  | none =>
    simp only [Option.map_none, Option.isSome_none, Bool.false_eq_true, if_false, Option.bind_eq_bind, Option.bind_some]
    by_cases halloc : ¬ sys.alloc 0 ∨ ¬ sys.alloc 1 ∨ ¬ sys.alloc 2
    · rw [if_pos halloc, if_pos halloc, Option.map_some]
    · rw [if_neg halloc, if_neg halloc, Option.map_some, hlink, ← hnodes]
      rfl

theorem kvsArrayExist_ofArray (A : KvsArray) (key : Option CString) :
    kvsArrayExist (ofArray A) key = A.kvsArrayExist key := by
  cases key with
  | none => rfl
  | some key =>
    rw [kvsArrayExist, KvsArray.kvsArrayExist, kvsArrayGet_ofArray]
    rcases A.kvsArrayGet (some key) with _ | _ | v <;> rfl

theorem kvsHashExist_ofHash (P : Params) (H : KvsHash) (key : CString) {n : ℕ}
    (hn : (H.nodes (KvsHash.hash P key)).length < n) :
    kvsHashExist P n (ofHash H) (some key) = H.kvsHashExist P (some key) := by
  rw [kvsHashExist, KvsHash.kvsHashExist, kvsHashGet_ofHash P H key hn]
  rcases H.kvsHashGet P (some key) with _ | _ | v <;> rfl

section Traversal

variable {σ : Type} (write : EngineId → Option CString → Option CString → ℤ → σ → Option (σ × ℤ))

theorem saveItems_ofSlot (fd : ℤ) (table : List Slot) (count : ℤ) (ctx : σ) :
    saveItems write fd (table.map ofSlot) count ctx = Lidis.saveSlots write fd table count ctx := by
  induction table generalizing count ctx with
  | nil => rfl
  | cons s rest ih =>
    rw [List.map_cons, saveItems, Lidis.saveSlots]
    cases hk : s.key with
    | none => simp [ofSlot, hk, Pointer.ofOption, ih]
    | some key =>
      cases hv : s.value with
      | none => simp [ofSlot, hk, hv, Pointer.ofOption, saveRecord, ih]
      | some value => simp [ofSlot, hk, hv, Pointer.ofOption, saveRecord, ih]

theorem saveChain_shift (fd : ℤ) (chain : ℕ → Pointer Item) (n j : ℕ) (count : ℤ) (ctx : σ) :
    saveChain write fd chain n (j + 1) count ctx = saveChain write fd (fun j => chain (j + 1)) n j count ctx := by
  induction n generalizing j count ctx with
  | zero => rfl
  | succ n ih =>
    rw [saveChain, saveChain]
    simp only [ih]

theorem saveChain_ofChain (fd : ℤ) (chain : List HashNode) {n : ℕ} (hn : chain.length < n) (count : ℤ) (ctx : σ) :
    (saveChain write fd (ofChain chain) n 0 count ctx).map (fun r => (r.1, r.2.1)) = Lidis.saveChain write fd chain ctx ∧
      ∀ ctx' count', saveChain write fd (ofChain chain) n 0 count ctx = some (ctx', 0, count') →
        count' = count - chain.length := by
  induction chain generalizing n count ctx with
  | nil =>
    obtain ⟨n, rfl⟩ := Nat.exists_eq_succ_of_ne_zero (Nat.ne_of_gt hn)
    refine ⟨rfl, fun ctx' count' h => ?_⟩
    cases h
    simp
  | cons node rest ih =>
    obtain ⟨n, rfl⟩ := Nat.exists_eq_succ_of_ne_zero (Nat.ne_of_gt (Nat.zero_lt_of_lt hn))
    have hstep : saveChain write fd (ofChain (node :: rest)) (n + 1) 0 count ctx =
        (write .hash (some node.key) (some node.value) fd ctx).bind (fun r =>
          if r.2 ≠ 0 then some (r.1, r.2, count) else saveChain write fd (ofChain rest) n 0 (count - 1) r.1) := by
      rw [saveChain]
      simp only [saveChain_shift]
      rfl
    rw [hstep, Lidis.saveChain]
    cases hw : write .hash (some node.key) (some node.value) fd ctx with
    | none => exact ⟨rfl, fun _ _ h => by cases h⟩
    | some r =>
      obtain ⟨ctx₁, ret⟩ := r
      simp only [Option.bind_eq_bind, Option.bind_some]
      by_cases hret : ret ≠ 0
      · simp [hret]
      · rw [if_neg hret, if_neg hret]
        obtain ⟨hchain, hcount⟩ := ih (Nat.lt_of_succ_lt_succ hn) (count - 1) ctx₁
        refine ⟨hchain, fun ctx' count' h => ?_⟩
        rw [hcount ctx' count' h, List.length_cons]
        push_cast
        ring

theorem saveBuckets_ofHash (H : KvsHash) (fd : ℤ) {steps : ℕ} (hsteps : ∀ i, (H.nodes i).length < steps) (n i : ℕ)
    (count : ℤ) (ctx : σ) :
    saveBuckets write (ofHash H) steps fd n i count ctx = Lidis.saveBuckets write H fd n i count ctx := by
  induction n generalizing i count ctx with
  | zero => rfl
  | succ n ih =>
    obtain ⟨hchain, hcount⟩ := saveChain_ofChain write fd (H.nodes i) (hsteps i) count ctx
    rw [saveBuckets, Lidis.saveBuckets, ← hchain]
    change (saveChain write fd (ofChain (H.nodes i)) steps 0 count ctx >>= _) = _
    cases hr : saveChain write fd (ofChain (H.nodes i)) steps 0 count ctx with
    | none => rfl
    | some r =>
      obtain ⟨ctx', ret, count'⟩ := r
      by_cases hret : ret = 0
      · subst hret
        rw [hcount ctx' count' hr]
        simp [ih]
      · simp [hret]

/-- Where every word is NULL or an address the loops are those over the typed engines. -/
theorem writeEngines_ofStore (s : Store) (fd : ℤ) {steps : ℕ} (hsteps : ∀ i, (s.hash.nodes i).length < steps) (ctx : σ) :
    writeEngines write (ofStore s) steps fd ctx = writeStore write s fd ctx := by
  have hhash : ∀ ctx, saveHash write (ofStore s).hash steps fd ctx = Lidis.saveHash write s.hash fd ctx := by
    intro ctx
    simp only [saveHash, Lidis.saveHash, ofStore, saveBuckets_ofHash write s.hash fd hsteps]
    rfl
  have harray : ∀ ctx, saveArray write (ofStore s).array fd ctx = Lidis.saveArray write s.array fd ctx := by
    intro ctx
    simp only [saveArray, Lidis.saveArray, ofStore, ofArray, saveItems_ofSlot]
  simp only [writeEngines, writeStore, hhash, harray]
  rfl

end Traversal

end Typed

end Raw

end Lidis
