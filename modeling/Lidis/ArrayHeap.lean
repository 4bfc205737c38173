import Lidis.KvsArray
import Lidis.Lib.Ledger

namespace Lidis

/-- kvs_array_item_t: the addresses of its two texts, or NULL. -/
structure ArrayItem where
  key : Option ℕ
  value : Option ℕ
  deriving DecidableEq

inductive ArrayBlock where
  | table
  | text (n : ℕ)
  deriving DecidableEq

/-- In the order in which kvs_array_del and kvs_array_destory free them. -/
def ArrayItem.blocks (item : ArrayItem) : List ArrayBlock :=
  item.key.toList.map ArrayBlock.text ++ item.value.toList.map ArrayBlock.text

/-- The table as it lies in memory. `live` are the blocks that kvs_malloc has given out and that have not been freed,
`texts` the address of the next text. -/
structure ArrayHeap where
  table : List ArrayItem
  total : ℤ
  text : ℕ → CString
  texts : ℕ
  live : List ArrayBlock

namespace ArrayHeap

open Engine Ledger

/-- On an instance that has no table yet. The table is not cleared: `memory` is what kvs_malloc hands over. -/
def kvsArrayCreate (memory : List ArrayItem) (sys : Sys) : ArrayHeap × ℤ :=
  let array : ArrayHeap := ⟨memory, 0, fun _ => .lit "", 0, []⟩
  if ¬ sys.alloc 0 then (array, -1) else ({ array with live := [.table] }, 0)

def items (h : ArrayHeap) : Option (List ArrayItem) := if .table ∈ h.live then some h.table else none

def read (h : ArrayHeap) (n : ℕ) : Option CString := if .text n ∈ h.live then some (h.text n) else none

/-- The loop of kvs_array_get, kvs_array_del and kvs_array_mod: the index of the slot with the key. -/
def find (h : ArrayHeap) (key : CString) : ℕ → List ArrayItem → Option (Option ℕ)
  | _, [] => some none
  | i, item :: rest =>
    match item.key with
    | none => find h key (i + 1) rest
    | some n => do
      let k ← h.read n
      if CString.strcmp k key = 0 then some (some i) else find h key (i + 1) rest

def kvsArrayGet (h : ArrayHeap) (key : Option CString) : Option (Option CString) :=
  match key with
  | none => some none
  | some key => do
    let items ← h.items
    match ← h.find key 0 items with
    | none => some none
    | some i => do
      let item ← items[i]?
      match item.value with
      | none => some none
      | some n => (h.read n).map some

def kvsArraySet (P : Params) (h : ArrayHeap) (key value : Option CString) (sys : Sys) : Option (ArrayHeap × ℤ) :=
  match key, value with
  | some key, some value =>
    if h.total = P.arraySize then some (h, -1)
    else do
      match ← h.kvsArrayGet (some key) with
      | some _ => some (h, 1)
      | none =>
        let kcopy := h.texts
        let kvalue := h.texts + 1
        if ¬ sys.alloc 0 then some (h, -2)
        else if ¬ sys.alloc 1 then do
          let live ← releaseAll [.text kcopy] (.text kcopy :: h.live)
          some ({ h with live := live }, -2)
        else do
          let items ← h.items
          let text := Function.update (Function.update h.text kcopy key) kvalue value
          let live := .text kvalue :: .text kcopy :: h.live
          match items.findIdx? (fun item => item.key.isNone) with
          | some i => some (⟨items.set i ⟨some kcopy, some kvalue⟩, h.total + 1, text, h.texts + 2, live⟩, 0)
          -- both copies are lost
          | none => some ({ h with text := text, texts := h.texts + 2, live := live }, 0)
  | _, _ => some (h, -1)

def kvsArrayDel (P : Params) (h : ArrayHeap) (key : Option CString) : Option (ArrayHeap × ℤ) :=
  match key with
  | none => some (h, -1)
  | some key => do
    let items ← h.items
    match ← h.find key 0 items with
    | none => some (h, P.arraySize)
    | some i => do
      let item ← items[i]?
      let live ← releaseAll item.blocks h.live
      some ({ h with table := items.set i ⟨none, none⟩, total := h.total - 1, live := live }, 0)

def kvsArrayMod (P : Params) (h : ArrayHeap) (key value : Option CString) (sys : Sys) : Option (ArrayHeap × ℤ) :=
  match key, value with
  | some key, some value =>
    if h.total = 0 then some (h, P.arraySize)
    else do
      let items ← h.items
      match ← h.find key 0 items with
      | none => some (h, P.arraySize)
      | some i =>
        let kvalue := h.texts
        if ¬ sys.alloc 0 then some (h, -2)
        else do
          let item ← items[i]?
          let live ← releaseAll (item.value.toList.map ArrayBlock.text) (.text kvalue :: h.live)
          some (⟨items.set i { item with value := some kvalue }, h.total, Function.update h.text kvalue value, h.texts + 1,
            live⟩, 0)
  | _, _ => some (h, -1)

def kvsArrayExist (h : ArrayHeap) (key : Option CString) : Option ℤ :=
  match key with
  | none => some (-1)
  | some key => do
    match ← h.kvsArrayGet (some key) with
    | none => some 1
    | some _ => some 0

def engine (P : Params) : Engine ArrayHeap :=
  ⟨kvsArraySet P, kvsArrayGet, kvsArrayDel P, kvsArrayMod P, kvsArrayExist⟩

/-- The blocks left after kvs_array_destory. -/
def kvsArrayDestory (h : ArrayHeap) : Option (List ArrayBlock) :=
  match h.items with
  | none => some h.live
  | some items => do
    let live ← releaseAll (items.flatMap ArrayItem.blocks) h.live
    releaseAll [.table] live

def view (h : ArrayHeap) (item : ArrayItem) : Slot := ⟨item.key.map h.text, item.value.map h.text⟩

/-- With new copies of key and value in the slot between `l` and `r`. -/
def stored (h : ArrayHeap) (l r : List ArrayItem) (key value : CString) : ArrayHeap :=
  ⟨l ++ ⟨some h.texts, some (h.texts + 1)⟩ :: r, h.total + 1,
    Function.update (Function.update h.text h.texts key) (h.texts + 1) value, h.texts + 2,
    .text (h.texts + 1) :: .text h.texts :: h.live⟩

/-- The heap holds the table of slots, each text once, and nothing else. -/
structure Represents (h : ArrayHeap) (A : KvsArray) : Prop where
  table : A.table = h.table.map h.view
  total : A.total = h.total
  paired : ∀ item ∈ h.table, item.key = none ↔ item.value = none
  live : h.live.Perm (.table :: h.table.flatMap ArrayItem.blocks)
  nodup : h.live.Nodup
  below : ∀ n, .text n ∈ h.live → n < h.texts

namespace Represents

variable {P : Params} {h : ArrayHeap} {A : KvsArray} {item : ArrayItem} {key : CString}

theorem items_eq (R : Represents h A) : h.items = some h.table :=
  if_pos (R.live.mem_iff.mpr List.mem_cons_self)

theorem block_live (R : Represents h A) (hitem : item ∈ h.table) {b : ArrayBlock} (hb : b ∈ item.blocks) : b ∈ h.live :=
  R.live.mem_iff.mpr (List.mem_cons_of_mem _ (List.mem_flatMap.mpr ⟨item, hitem, hb⟩))

theorem read_key (R : Represents h A) (hitem : item ∈ h.table) {n : ℕ} (hn : item.key = some n) :
    h.read n = some (h.text n) :=
  if_pos (R.block_live hitem (by simp [ArrayItem.blocks, hn]))

theorem read_value (R : Represents h A) (hitem : item ∈ h.table) {n : ℕ} (hn : item.value = some n) :
    h.read n = some (h.text n) :=
  if_pos (R.block_live hitem (by simp [ArrayItem.blocks, hn]))

theorem find_cons (R : Represents h A) (hitem : item ∈ h.table) (key : CString) (i : ℕ) (rest : List ArrayItem) :
    h.find key i (item :: rest) =
      if KvsArray.holdsKey key (h.view item) then some (some i) else h.find key (i + 1) rest := by
  cases hk : item.key with
  | none => simp [find, KvsArray.holdsKey, view, hk]
  | some n => simp [find, KvsArray.holdsKey, view, hk, R.read_key hitem hk]

theorem find_absent (R : Represents h A) {l : List ArrayItem} (hl : ∀ item ∈ l, item ∈ h.table)
    (hkey : ∀ item ∈ l, KvsArray.holdsKey key (h.view item) = false) (i : ℕ) : h.find key i l = some none := by
  induction l generalizing i with
  | nil => rfl
  | cons item l ih =>
    rw [R.find_cons (hl item List.mem_cons_self), hkey item List.mem_cons_self]
    exact ih (fun x hx => hl x (List.mem_cons_of_mem _ hx)) (fun x hx => hkey x (List.mem_cons_of_mem _ hx)) (i + 1)

theorem find_present (R : Represents h A) {l r : List ArrayItem} (hl : ∀ x ∈ l ++ item :: r, x ∈ h.table)
    (hkey : ∀ x ∈ l, KvsArray.holdsKey key (h.view x) = false) (hitem : KvsArray.holdsKey key (h.view item) = true)
    (i : ℕ) : h.find key i (l ++ item :: r) = some (some (i + l.length)) := by
  induction l generalizing i with
  | nil =>
    rw [List.nil_append, R.find_cons (hl item List.mem_cons_self), hitem]
    rfl
  | cons x l ih =>
    have hrest := ih (fun y hy => hl y (List.mem_cons_of_mem _ hy)) (fun y hy => hkey y (List.mem_cons_of_mem _ hy)) (i + 1)
    rw [List.cons_append, R.find_cons (hl x List.mem_cons_self), hkey x List.mem_cons_self, List.length_cons,
      Nat.add_comm l.length, ← Nat.add_assoc]
    exact hrest

/-- The search over the memory and the one over the slots come to the same place. -/
theorem scan (R : Represents h A) (key : CString) :
    (h.find key 0 h.table = some none ∧ ∀ s ∈ A.table, KvsArray.holdsKey key s = false) ∨
      ∃ l item r, h.table = l ++ item :: r ∧ h.find key 0 h.table = some (some l.length) ∧
        A.table = l.map h.view ++ h.view item :: r.map h.view ∧
        (∀ s ∈ l.map h.view, KvsArray.holdsKey key s = false) ∧ KvsArray.holdsKey key (h.view item) = true := by
  rcases first_split (fun item => KvsArray.holdsKey key (h.view item)) h.table with hnone | ⟨l, item, r, ht, hl, hitem⟩
  · refine Or.inl ⟨R.find_absent (fun _ hx => hx) hnone 0, ?_⟩
    rw [R.table]
    simpa using hnone
  · refine Or.inr ⟨l, item, r, ht, ?_, by rw [R.table, ht, List.map_append, List.map_cons], by simpa using hl, hitem⟩
    rw [ht, R.find_present (fun x hx => ht ▸ hx) hl hitem 0, Nat.zero_add]

theorem get_eq (R : Represents h A) (key : CString) :
    h.kvsArrayGet (some key) = KvsArray.kvsArrayGet A (some key) := by
  rcases R.scan key with ⟨hf, hnone⟩ | ⟨l, item, r, ht, hf, hA, hl, hitem⟩
  · have hfind : A.table.find? (KvsArray.holdsKey key) = none := by
      rw [List.find?_eq_none]
      intro s hs
      simp [hnone s hs]
    simp [kvsArrayGet, KvsArray.kvsArrayGet, R.items_eq, hf, hfind]
  · have hfind : A.table.find? (KvsArray.holdsKey key) = some (h.view item) := by
      rw [hA]
      exact find_split hl hitem
    have hat : h.table[l.length]? = some item := by simp [ht]
    have hmem : item ∈ h.table := by simp [ht]
    cases hv : item.value with
    | none => simp [kvsArrayGet, KvsArray.kvsArrayGet, R.items_eq, hf, hfind, hat, hv, view]
    | some n => simp [kvsArrayGet, KvsArray.kvsArrayGet, R.items_eq, hf, hfind, hat, hv, view, R.read_value hmem hv]

theorem exist_eq (R : Represents h A) (key : CString) :
    h.kvsArrayExist (some key) = KvsArray.kvsArrayExist A (some key) := by
  rcases hA : KvsArray.kvsArrayGet A (some key) with _ | _ | value <;>
    simp [kvsArrayExist, KvsArray.kvsArrayExist, R.get_eq, hA]

theorem text_below (R : Represents h A) (hitem : item ∈ h.table) {n : ℕ} (hn : .text n ∈ item.blocks) : n < h.texts :=
  R.below n (R.block_live hitem hn)

theorem view_congr (R : Represents h A) {h' : ArrayHeap} (hsame : ∀ n, n < h.texts → h'.text n = h.text n)
    (hitem : item ∈ h.table) : h'.view item = h.view item := by
  have hkey : item.key.map h'.text = item.key.map h.text := by
    refine Option.map_congr (fun n hn => hsame n (R.text_below hitem ?_))
    simp [ArrayItem.blocks, hn]
  have hvalue : item.value.map h'.text = item.value.map h.text := by
    refine Option.map_congr (fun n hn => hsame n (R.text_below hitem ?_))
    simp [ArrayItem.blocks, hn]
  rw [view, hkey, hvalue, view]

/-- What another item in the slot owns comes to the blocks, what the old one owns leaves them. -/
theorem live_swap (R : Represents h A) {l r : List ArrayItem} (ht : h.table = l ++ item :: r) (item' : ArrayItem) :
    (item'.blocks ++ h.live).Perm (item.blocks ++ .table :: (l ++ item' :: r).flatMap ArrayItem.blocks) := by
  have hold := R.live
  rw [ht, List.perm_iff_count] at hold
  rw [List.perm_iff_count]
  intro b
  have hb := hold b
  simp only [List.flatMap_append, List.flatMap_cons, List.count_append, List.count_cons] at hb ⊢
  omega

/-- One slot is written, with texts that are new. -/
theorem edit (R : Represents h A) {l r : List ArrayItem} (ht : h.table = l ++ item :: r) (item' : ArrayItem) (h' : ArrayHeap)
    (ht' : h'.table = l ++ item' :: r) (hsame : ∀ n, n < h.texts → h'.text n = h.text n)
    (hpaired : item'.key = none ↔ item'.value = none)
    (hlive : h'.live.Perm (.table :: (l ++ item' :: r).flatMap ArrayItem.blocks)) (hnodup : h'.live.Nodup)
    (hbelow : ∀ n, .text n ∈ h'.live → n < h'.texts) :
    Represents h' ⟨l.map h.view ++ h'.view item' :: r.map h.view, h'.total⟩ := by
  have hmem : ∀ x, x ∈ l ∨ x ∈ r → x ∈ h.table := by
    intro x hx
    rw [ht, List.mem_append, List.mem_cons]
    tauto
  refine ⟨?_, rfl, ?_, by rw [ht']; exact hlive, hnodup, hbelow⟩
  · rw [ht', List.map_append, List.map_cons, List.map_congr_left (fun x hx => R.view_congr hsame (hmem x (Or.inl hx))),
      List.map_congr_left (fun x hx => R.view_congr hsame (hmem x (Or.inr hx)))]
  · intro x hx
    rw [ht', List.mem_append, List.mem_cons] at hx
    rcases hx with hx | rfl | hx
    · exact R.paired x (hmem x (Or.inl hx))
    · exact hpaired
    · exact R.paired x (hmem x (Or.inr hx))

theorem stored_represents (R : Represents h A) {l r : List ArrayItem} (ht : h.table = l ++ item :: r) (hkey : item.key = none)
    (key value : CString) :
    Represents (h.stored l r key value) ⟨l.map h.view ++ ⟨some key, some value⟩ :: r.map h.view, A.total + 1⟩ := by
  have hvalue := (R.paired item (by simp [ht])).mp hkey
  have hnew : ∀ n, h.texts ≤ n → .text n ∉ h.live := fun n hn hmem => absurd (R.below n hmem) (Nat.not_lt.mpr hn)
  have hE := R.edit ht ⟨some h.texts, some (h.texts + 1)⟩ (h.stored l r key value) rfl ?_ (by simp) ?_ ?_ ?_
  · rw [R.total]
    simpa [view, stored] using hE
  · intro n hn
    have hne : n ≠ h.texts + 1 := by omega
    simp [stored, hne, hn.ne]
  · have hnone : item.blocks = [] := by simp [ArrayItem.blocks, hkey, hvalue]
    have hswap := R.live_swap ht ⟨some h.texts, some (h.texts + 1)⟩
    rw [hnone] at hswap
    exact (List.Perm.swap _ _ _).trans hswap
  · simp [stored, hnew, R.nodup]
  · intro n hn
    simp only [stored, List.mem_cons, ArrayBlock.text.injEq] at hn ⊢
    rcases hn with rfl | rfl | hn
    · exact Nat.lt_succ_self _
    · exact Nat.lt_succ_of_lt (Nat.lt_succ_self _)
    · have := R.below n hn
      omega

theorem set (R : Represents h A) (hroom : A.total ≠ P.arraySize → ∃ s ∈ A.table, s.key = none) (key value : CString)
    (sys : Sys) :
    ∃ h' A' n, kvsArraySet P h (some key) (some value) sys = some (h', n) ∧
      KvsArray.kvsArraySet P A (some key) (some value) sys = some (A', n) ∧ Represents h' A' := by
  by_cases hfull : A.total = P.arraySize
  · exact ⟨h, A, -1, by simp [kvsArraySet, ← R.total, hfull], by simp [KvsArray.kvsArraySet, hfull], R⟩
  have hfull' : h.total ≠ P.arraySize := R.total ▸ hfull
  obtain ⟨found, hget⟩ : ∃ found, KvsArray.kvsArrayGet A (some key) = some found := by
    simp only [KvsArray.kvsArrayGet]
    split <;> exact ⟨_, rfl⟩
  have hget' : h.kvsArrayGet (some key) = some found := (R.get_eq key).trans hget
  cases found with
  | some w =>
    exact ⟨h, A, 1, by simp [kvsArraySet, hfull', hget'], by simp [KvsArray.kvsArraySet, hfull, hget], R⟩
  | none =>
    by_cases h0 : sys.alloc 0
    swap
    · exact ⟨h, A, -2, by simp [kvsArraySet, hfull', hget', h0], by simp [KvsArray.kvsArraySet, hfull, hget, h0], R⟩
    by_cases h1 : sys.alloc 1
    swap
    · refine ⟨h, A, -2, ?_, by simp [KvsArray.kvsArraySet, hfull, hget, h0, h1], R⟩
      simp [kvsArraySet, hfull', hget', h0, h1, releaseAll, release]
    rcases first_split (fun item => item.key.isNone) h.table with hnone | ⟨l, item, r, ht, hl, hitem⟩
    · obtain ⟨s, hs, hfree⟩ := hroom hfull
      rw [R.table] at hs
      obtain ⟨item, hitem, rfl⟩ := List.mem_map.mp hs
      have hsome := hnone item hitem
      rw [Option.map_eq_none_iff.mp hfree] at hsome
      cases hsome
    have hidx : h.table.findIdx? (fun item => item.key.isNone) = some l.length := by
      rw [ht, List.findIdx?_append, List.findIdx?_eq_none_iff.mpr hl, List.findIdx?_cons, if_pos hitem]
      simp
    have hedit : editFirst (fun s : Slot => s.key.isNone) (fun _ => [⟨some key, some value⟩]) A.table =
        some (l.map h.view ++ ⟨some key, some value⟩ :: r.map h.view) := by
      have hbefore : ∀ s ∈ l.map h.view, (fun s : Slot => s.key.isNone) s = false := by simpa [view] using hl
      have hfirst : (fun s : Slot => s.key.isNone) (h.view item) = true := by simpa [view] using hitem
      rw [R.table, ht, List.map_append, List.map_cons, editFirst_split _ hbefore hfirst]
      simp
    refine ⟨_, _, 0, ?_, ?_, R.stored_represents ht (by simpa using hitem) key value⟩
    · simp only [kvsArraySet, if_neg hfull', hget', h0, h1, R.items_eq, hidx, Option.bind_eq_bind, Option.bind_some,
        not_true_eq_false, if_false]
      simp [ht, stored]
    · simp [KvsArray.kvsArraySet, hfull, hget, h0, h1, hedit]

theorem del (R : Represents h A) (key : CString) :
    ∃ h' A' n, kvsArrayDel P h (some key) = some (h', n) ∧ KvsArray.kvsArrayDel P A (some key) = some (A', n) ∧
      Represents h' A' := by
  rcases R.scan key with ⟨hf, hnone⟩ | ⟨l, item, r, ht, hf, hA, hl, hitem⟩
  · exact ⟨h, A, P.arraySize, by simp [kvsArrayDel, R.items_eq, hf],
      by simp [KvsArray.kvsArrayDel, editFirst_none _ hnone], R⟩
  · have hperm : h.live.Perm (item.blocks ++ .table :: (l ++ ⟨none, none⟩ :: r).flatMap ArrayItem.blocks) :=
      R.live_swap ht ⟨none, none⟩
    obtain ⟨live, hrel, hleft⟩ := releaseAll_perm hperm
    have hsub := releaseAll_sublist hrel
    have hat : h.table[l.length]? = some item := by simp [ht]
    have hE := R.edit ht ⟨none, none⟩ ⟨l ++ ⟨none, none⟩ :: r, h.total - 1, h.text, h.texts, live⟩
      rfl (fun _ _ => rfl) (by simp) hleft (R.nodup.sublist hsub) (fun n hn => R.below n (hsub.subset hn))
    refine ⟨_, _, 0, ?_, ?_, hE⟩
    · simp only [kvsArrayDel, R.items_eq, hf, hat, hrel, Option.bind_eq_bind, Option.bind_some]
      simp [ht]
    · rw [KvsArray.kvsArrayDel, hA, editFirst_split _ hl hitem]
      simp [view, R.total]

/-- The old value is freed and its slot gets the new copy. -/
theorem replaced_represents (R : Represents h A) {l r : List ArrayItem} (ht : h.table = l ++ item :: r)
    (hkey : item.key ≠ none) (value : CString) :
    ∃ live, releaseAll (item.value.toList.map ArrayBlock.text) (.text h.texts :: h.live) = some live ∧
      Represents ⟨l ++ { item with value := some h.texts } :: r, h.total, Function.update h.text h.texts value, h.texts + 1,
          live⟩
        ⟨l.map h.view ++ { h.view item with value := some value } :: r.map h.view, A.total⟩ := by
  have hmem : item ∈ h.table := by simp [ht]
  have hfresh : .text h.texts ∉ h.live := fun hm => Nat.lt_irrefl _ (R.below _ hm)
  have hperm : (ArrayBlock.text h.texts :: h.live).Perm (item.value.toList.map ArrayBlock.text ++
      (.table :: (l ++ { item with value := some h.texts } :: r).flatMap ArrayItem.blocks)) := by
    have hswap := R.live_swap ht { item with value := some h.texts }
    -- the key is in both items
    simp only [ArrayItem.blocks, List.append_assoc, List.perm_append_left_iff] at hswap
    exact hswap
  obtain ⟨live, hrel, hleft⟩ := releaseAll_perm hperm
  have hsub := releaseAll_sublist hrel
  have hbelow : ∀ n, .text n ∈ live → n < h.texts + 1 := by
    intro n hn
    rcases List.mem_cons.mp (hsub.subset hn) with he | hn
    · exact (ArrayBlock.text.inj he) ▸ Nat.lt_succ_self _
    · exact Nat.lt_succ_of_lt (R.below n hn)
  have hE := R.edit ht { item with value := some h.texts }
    ⟨l ++ { item with value := some h.texts } :: r, h.total, Function.update h.text h.texts value, h.texts + 1, live⟩
    rfl (fun n hn => Function.update_of_ne hn.ne _ _) (by simp [hkey]) hleft
    ((List.nodup_cons.mpr ⟨hfresh, R.nodup⟩).sublist hsub) hbelow
  have hview : item.key.map (Function.update h.text h.texts value) = item.key.map h.text := by
    refine Option.map_congr (fun n hn => Function.update_of_ne (R.text_below hmem ?_).ne _ _)
    simp [ArrayItem.blocks, hn]
  refine ⟨live, hrel, ?_⟩
  rw [R.total]
  simpa [view, hview] using hE

theorem mod (R : Represents h A) (key value : CString) (sys : Sys) :
    ∃ h' A' n, kvsArrayMod P h (some key) (some value) sys = some (h', n) ∧
      KvsArray.kvsArrayMod P A (some key) (some value) sys = some (A', n) ∧ Represents h' A' := by
  by_cases hzero : A.total = 0
  · exact ⟨h, A, P.arraySize, by simp [kvsArrayMod, ← R.total, hzero], by simp [KvsArray.kvsArrayMod, hzero], R⟩
  have hzero' : h.total ≠ 0 := R.total ▸ hzero
  rcases R.scan key with ⟨hf, hnone⟩ | ⟨l, item, r, ht, hf, hA, hl, hitem⟩
  · exact ⟨h, A, P.arraySize, by simp [kvsArrayMod, hzero', R.items_eq, hf],
      by simp [KvsArray.kvsArrayMod, hzero, editFirst_none _ hnone], R⟩
  · have hedit : editFirst (KvsArray.holdsKey key) (fun s => [{ s with value := some value }]) A.table =
        some (l.map h.view ++ { h.view item with value := some value } :: r.map h.view) := by
      rw [hA, editFirst_split _ hl hitem]
      simp
    by_cases h0 : sys.alloc 0
    swap
    · exact ⟨h, A, -2, by simp [kvsArrayMod, hzero', R.items_eq, hf, h0],
        by simp [KvsArray.kvsArrayMod, hzero, hedit, h0], R⟩
    have hkey : item.key ≠ none := by
      intro hk
      simp [KvsArray.holdsKey, view, hk] at hitem
    have hat : h.table[l.length]? = some item := by simp [ht]
    obtain ⟨live, hrel, hE⟩ := R.replaced_represents ht hkey value
    refine ⟨_, _, 0, ?_, ?_, hE⟩
    · simp only [kvsArrayMod, if_neg hzero', R.items_eq, hf, h0, hat, hrel, Option.bind_eq_bind, Option.bind_some,
        not_true_eq_false, if_false]
      simp [ht]
    · simp only [KvsArray.kvsArrayMod, if_neg hzero, hedit, h0, not_true_eq_false, if_false]

theorem destroy (R : Represents h A) : h.kvsArrayDestory = some [] := by
  have hperm : h.live.Perm (h.table.flatMap ArrayItem.blocks ++ [.table]) :=
    R.live.trans (List.perm_append_singleton _ _).symm
  obtain ⟨live, hrel, hleft⟩ := releaseAll_perm hperm
  have hlast : live.Perm ([.table] ++ []) := by simpa using hleft
  obtain ⟨left, hrel', hleft'⟩ := releaseAll_perm hlast
  simp only [kvsArrayDestory, R.items_eq, hrel, hrel', Option.bind_eq_bind, Option.bind_some, List.perm_nil.mp hleft']

theorem blocks_length {l : List ArrayItem} (hl : ∀ item ∈ l, item.key = none ↔ item.value = none) :
    (l.flatMap ArrayItem.blocks).length = 2 * (l.filter (fun item => item.key.isSome)).length := by
  induction l with
  | nil => rfl
  | cons item l ih =>
    have hrest := ih (fun x hx => hl x (List.mem_cons_of_mem _ hx))
    have hthis := hl item List.mem_cons_self
    cases hk : item.key with
    | none =>
      have hv := hthis.mp hk
      simp [ArrayItem.blocks, hk, hv, hrest]
    | some n =>
      obtain ⟨v, hv⟩ := Option.ne_none_iff_exists'.mp (fun hv => Option.some_ne_none n (hk.symm.trans (hthis.mpr hv)))
      simp only [List.flatMap_cons, ArrayItem.blocks, hk, hv, Option.toList_some, List.map_cons, List.map_nil,
        List.length_append, List.length_cons, List.length_nil, Option.isSome_some, List.filter_cons_of_pos, hrest]
      omega

theorem live_length (R : Represents h A) {m : Map} (hm : KvsArray.Stands P A m) : h.live.length = 1 + 2 * m.size := by
  have hcount : (h.table.filter (fun item => item.key.isSome)).length = m.size := by
    obtain ⟨es, hes, -, -, hn, rfl⟩ := hm
    rw [FMap.ofList_size _ hn, ← KvsArray.filter_slotOf, ← hes, R.table, List.filter_map, List.length_map]
    congr 1
    refine List.filter_congr (fun item _ => ?_)
    simp [view]
  rw [R.live.length_eq, List.length_cons, blocks_length R.paired, hcount, Nat.add_comm]

end Represents

theorem create_represents (P : Params) {sys : Sys} (hsys : sys.alloc 0 = true) :
    ∃ h, kvsArrayCreate (List.replicate P.arraySize ⟨none, none⟩) sys = (h, 0) ∧
      Represents h (KvsArray.kvsArrayCreate (List.replicate P.arraySize ⟨none, none⟩)) := by
  have hcreate : kvsArrayCreate (List.replicate P.arraySize ⟨none, none⟩) sys =
      (⟨List.replicate P.arraySize ⟨none, none⟩, 0, fun _ => .lit "", 0, [.table]⟩, 0) := by
    simp [kvsArrayCreate, hsys]
  refine ⟨_, hcreate, ?_, rfl, ?_, ?_, List.nodup_singleton _, by simp⟩
  · simp [KvsArray.kvsArrayCreate, view]
  · intro item hitem
    simp [List.eq_of_mem_replicate hitem]
  · simp [ArrayItem.blocks]

theorem slot_free {P : Params} {A : KvsArray} {m : Map} (h : KvsArray.Stands P A m) (hroom : A.total ≠ P.arraySize) :
    ∃ s ∈ A.table, s.key = none := by
  obtain ⟨es, ht, hlen, htotal, -⟩ := h
  have hne : es.reduceOption.length ≠ es.length := by
    rw [hlen]
    exact fun he => hroom (by rw [htotal, he])
  have hnone : none ∈ es := List.reduceOption_length_lt_iff.mp (lt_of_le_of_ne (List.reduceOption_length_le es) hne)
  exact ⟨KvsArray.slotOf none, ht ▸ List.mem_map_of_mem hnone, rfl⟩

theorem call_follows {P : Params} {h : ArrayHeap} {A : KvsArray} {m : Map} (R : Represents h A) (hA : KvsArray.Stands P A m)
    (i : Op × Sys) :
    Option.Rel (fun p q => p.2 = q.2 ∧ Represents p.1 q.1) ((engine P).call h i) ((KvsArray.engine P).call A i) := by
  obtain ⟨op, sys⟩ := i
  cases op with
  | set key value =>
    obtain ⟨h', A', n, hset, hset', R'⟩ := R.set (slot_free hA) key value sys
    simp only [call, engine, KvsArray.engine, hset, hset', Option.map_some]
    exact .some ⟨rfl, R'⟩
  | get key =>
    simp only [call, engine, KvsArray.engine, R.get_eq, KvsArray.get_stands hA, Option.map_some]
    exact .some ⟨rfl, R⟩
  | del key =>
    obtain ⟨h', A', n, hdel, hdel', R'⟩ := R.del (P := P) key
    simp only [call, engine, KvsArray.engine, hdel, hdel', Option.map_some]
    exact .some ⟨rfl, R'⟩
  | mod key value =>
    obtain ⟨h', A', n, hmod, hmod', R'⟩ := R.mod (P := P) key value sys
    simp only [call, engine, KvsArray.engine, hmod, hmod', Option.map_some]
    exact .some ⟨rfl, R'⟩
  | exist key =>
    simp only [call, engine, KvsArray.engine, R.exist_eq, KvsArray.exist_stands hA, Option.map_some]
    exact .some ⟨rfl, R⟩

theorem call_defined {P : Params} {A : KvsArray} {m : Map} (hA : KvsArray.Stands P A m) (i : Op × Sys) :
    ∃ r, (KvsArray.engine P).call A i = some r := by
  obtain ⟨op, sys⟩ := i
  cases op with
  | set k v =>
    simp only [call, KvsArray.engine, KvsArray.kvsArraySet, KvsArray.get_stands hA, Option.bind_eq_bind, Option.bind_some]
    cases m.get k with
    | some w => split_ifs <;> exact ⟨_, rfl⟩
    | none =>
      generalize editFirst (fun s : Slot => s.key.isNone) (fun _ => [⟨some k, some v⟩]) A.table = edited
      cases edited <;> split_ifs <;> exact ⟨_, rfl⟩
  | get k => exact ⟨_, congrArg (Option.map _) (KvsArray.get_stands hA k)⟩
  | del k =>
    simp only [call, KvsArray.engine, KvsArray.kvsArrayDel]
    split <;> exact ⟨_, rfl⟩
  | mod k v =>
    simp only [call, KvsArray.engine, KvsArray.kvsArrayMod]
    split_ifs
    · exact ⟨_, rfl⟩
    all_goals split <;> exact ⟨_, rfl⟩
  | exist k => exact ⟨_, congrArg (Option.map _) (KvsArray.exist_stands hA k)⟩

theorem engine_mirrors (P : Params) : Machine.Mirrors (engine P).call (KvsArray.engine P).call id
    (fun h A => Represents h A ∧ ∃ m, KvsArray.Stands P A m) := by
  rintro h A i ⟨R, m, hA⟩
  have hrel := call_follows R hA i
  obtain ⟨⟨A', a⟩, hcall⟩ := call_defined hA i
  rw [id, hcall]
  rw [hcall] at hrel
  generalize (engine P).call h i = r at hrel
  cases hrel with
  | some hp =>
    refine .some ⟨hp.1, hp.2, ?_⟩
    rcases KvsArray.engine_tolerates P A m i A' a hA trivial hcall with ⟨-, hA'⟩ | ⟨-, hA'⟩
    · exact ⟨_, hA'⟩
    · exact ⟨_, hA'⟩

/-- Where the memory of the table comes zeroed, whatever kvs_malloc answers afterwards and however the calls go on: the
table in memory answers as the slots of `KvsArray` do, by the contract they keep, no text is read or freed that is not
allocated, none is lost, two blocks are held for each key besides the table, and kvs_array_destory leaves none. -/
theorem heap_array_answers_as_map (P : Params) (sys : Sys) (hsys : sys.alloc 0 = true) (cs : List (Op × Sys)) :
    ∃ h h' A answers m, kvsArrayCreate (List.replicate P.arraySize ⟨none, none⟩) sys = (h, 0) ∧
      (engine P).run h cs = some (h', answers) ∧
      (KvsArray.engine P).run (KvsArray.kvsArrayCreate (List.replicate P.arraySize ⟨none, none⟩)) cs = some (A, answers) ∧
      A.table = h'.table.map h'.view ∧ Answered (KvsArray.contract P) FMap.empty cs answers m ∧ h'.total = m.size ∧
      h'.live.Nodup ∧ h'.live.length = 1 + 2 * m.size ∧ h'.kvsArrayDestory = some [] := by
  obtain ⟨h, hcreate, R⟩ := create_represents P hsys
  have hstart := KvsArray.create_stands P
  obtain ⟨A, answers, m, hrun, hans, hA⟩ := (KvsArray.engine_refines P).run_answered (KvsArray.engine_tolerates P)
    (fun _ _ i hA => call_defined hA i) cs hstart
  have hslots : Machine.run (KvsArray.engine P).call
      (KvsArray.kvsArrayCreate (List.replicate P.arraySize ⟨none, none⟩)) (cs.map id) = some (A, answers) := by
    rw [List.map_id]
    exact hrun
  obtain ⟨h', hheap, R', -⟩ := (engine_mirrors P).run_back ⟨R, _, hstart⟩ hslots
  refine ⟨h, h', A, answers, m, hcreate, hheap, hrun, R'.table, hans, ?_, R'.nodup, R'.live_length hA, R'.destroy⟩
  rw [← R'.total, (KvsArray.size_stands hA).1]

/-- The second SET finds no memory for its value after its key, and the MOD none at all. -/
def scarce : List (Op × Sys) :=
  [(.set (.lit "a") (.lit "1"), .granted), (.set (.lit "b") (.lit "2"), ⟨fun i => i < 1, fun _ => false⟩),
    (.mod (.lit "a") (.lit "3"), ⟨fun _ => false, fun _ => false⟩), (.set (.lit "c") (.lit "4"), .granted),
    (.del (.lit "a"), .granted)]

theorem heap_array_answers_as_map_example :
    ∃ h h' answers, kvsArrayCreate (List.replicate 2 ⟨none, none⟩) .granted = (h, 0) ∧
      (engine .small).run h scarce = some (h', answers) ∧
      answers = [.code 0, .code (-2), .code (-2), .code 0, .code 0] ∧ h'.live.length = 3 ∧
      h'.kvsArrayDestory = some [] := by
  obtain ⟨h, h', A, answers, m, hcreate, hrun, -, -, -, -, -, -, hdestroy⟩ :=
    heap_array_answers_as_map .small .granted rfl scarce
  have heval : ((engine .small).run (kvsArrayCreate (List.replicate 2 ⟨none, none⟩) .granted).1 scarce).map
      (fun r => (r.2, r.1.live.length)) = some ([.code 0, .code (-2), .code (-2), .code 0, .code 0], 3) := by decide +kernel
  have hfirst : (kvsArrayCreate (List.replicate 2 ⟨none, none⟩) .granted).1 = h := congrArg Prod.fst hcreate
  rw [hfirst, hrun] at heval
  obtain ⟨hanswers, hlen⟩ := Prod.mk.inj (Option.some.inj heval)
  exact ⟨h, h', answers, hcreate, hrun, hanswers, hlen, hdestroy⟩

end ArrayHeap

end Lidis
