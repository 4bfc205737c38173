import Lidis.KvsRbtree
import Lidis.Lib.Ledger
import Mathlib.Algebra.BigOperators.Group.Finset.Basic

namespace Lidis.Rbtree

open RedBlack ColoredTree Context Engine Ledger

inductive Block where
  | node (p : Ptr)
  | text (n : ℕ)
  deriving DecidableEq

/-- The tree with the blocks it has from kvs_malloc: the node at `p` is a block of its own and points to the text of its
key and, unless its value is NULL, to that of its value. `live` are the blocks not freed so far. -/
structure Owner where
  tree : Rbtree
  keyAt : Ptr → ℕ
  valueAt : Ptr → ℕ
  texts : ℕ
  live : List Block

/-- What a freed node may be found to hold. -/
structure Junk where
  child : Side → Ptr
  parent : Ptr
  color : Color
  key : CString
  value : Option CString
  keyAt : ℕ
  valueAt : ℕ

def scribble (T : Rbtree) (p : Ptr) (j : Junk) : Rbtree :=
  { T with
    child := fun d => Function.update (T.child d) p (j.child d)
    parent := Function.update T.parent p j.parent
    color := Function.update T.color p j.color
    key := Function.update T.key p j.key
    value := Function.update T.value p j.value }

def exchange (f : Ptr → ℕ) (y z : Ptr) : Ptr → ℕ :=
  if y ≠ z then Function.update (Function.update f z (f y)) y (f z) else f

namespace Owner

def scribble (o : Owner) (p : Ptr) (j : Junk) : Owner :=
  { o with
    tree := o.tree.scribble p j
    keyAt := Function.update o.keyAt p j.keyAt
    valueAt := Function.update o.valueAt p j.valueAt }

def valueBlocks (o : Owner) (p : Ptr) : List Block := (o.tree.value p).toList.map (fun _ => .text (o.valueAt p))

/-- In the order in which kvs_rbtree_del and kvs_rbtree_destory free them. -/
def blocksAt (o : Owner) (p : Ptr) : List Block := .text (o.keyAt p) :: o.valueBlocks p ++ [.node p]

def create (T : Rbtree) (sys : Sys) : Option Owner :=
  (kvsRbtreeCreate T sys).map (fun T => ⟨T, fun _ => 0, fun _ => 0, 0, [.node T.nil]⟩)

/-- With a new node and the texts of its key and value. -/
def grown (o : Owner) (T : Rbtree) : Owner :=
  ⟨T, Function.update o.keyAt o.tree.next o.texts, Function.update o.valueAt o.tree.next (o.texts + 1), o.texts + 2,
    [.text (o.texts + 1), .text o.texts, .node o.tree.next] ++ o.live⟩

def set (o : Owner) (key value : CString) (sys : Sys) (junk : Junk) : Option (Owner × ℤ) := do
  match ← kvsRbtreeGet o.tree key with
  | some _ => some (o, 1)
  | none =>
    let node := o.tree.next
    if ¬ sys.alloc 0 then none
    else if ¬ sys.alloc 1 then do
      let live ← releaseAll [.node node] (.node node :: o.live)
      some ({ o with live := live }.scribble node junk, -2)
    else if ¬ sys.alloc 2 then do
      let live ← releaseAll [.text o.texts, .node node] (.text o.texts :: .node node :: o.live)
      some ({ o with live := live }.scribble node junk, -2)
    else do
      let T ← rbtreeInsert (o.tree.newNode key value) node
      some (o.grown T, 0)

/-- After rbtree_delete, which exchanges the pointers to key and value of the two nodes. -/
def unlinked (o : Owner) (T : Rbtree) (y z : Ptr) : Owner :=
  { o with tree := T, keyAt := exchange o.keyAt y z, valueAt := exchange o.valueAt y z }

/-- rbtree_delete and the frees that follow it. -/
def remove (o : Owner) (z : Ptr) (junk : Junk) : Option Owner := do
  let (T, cur) ← rbtreeDelete o.tree z
  let o := o.unlinked T cur z
  let live ← releaseAll (o.blocksAt cur) o.live
  some ({ o with live := live }.scribble cur junk)

def del (o : Owner) (key : CString) (junk : Junk) : Option (Owner × ℤ) := do
  let node ← rbtreeSearch o.tree key o.tree.next o.tree.root
  if node = o.tree.nil then some (o, 1)
  else do
    let o ← o.remove node junk
    some (o, 0)

/-- The old value's block is freed before the new one is asked for. -/
def mod (o : Owner) (key value : CString) (sys : Sys) : Option (Owner × ℤ) := do
  let node ← rbtreeSearch o.tree key o.tree.next o.tree.root
  if node = o.tree.nil then some (o, 1)
  else do
    let live ← releaseAll (o.valueBlocks node) o.live
    if ¬ sys.alloc 0 then some ({ o with tree := o.tree.setValue node none, live := live }, -2)
    else some (⟨o.tree.setValue node (some value), o.keyAt, Function.update o.valueAt node o.texts, o.texts + 1,
      .text o.texts :: live⟩, 0)

def call (o : Owner) (c : Op × Sys × Junk) : Option (Owner × Answer) :=
  match c.1 with
  | .set k v => (o.set k v c.2.1 c.2.2).map codeOf
  | .get k => (kvsRbtreeGet o.tree (some k)).map fun v => (o, .value v)
  | .del k => (o.del k c.2.2).map codeOf
  | .mod k v => (o.mod k v c.2.1).map codeOf
  | .exist k => (kvsRbtreeExist o.tree (some k)).map fun n => (o, .code n)

def run (o : Owner) (cs : List (Op × Sys × Junk)) : Option (Owner × List Answer) := Machine.run call o cs

def destroyLoop (o : Owner) (junk : ℕ → Junk) : ℕ → Option Owner
  | 0 => none
  | n + 1 =>
    if o.tree.root ≠ o.tree.nil then do
      let mini ← rbtreeMini o.tree o.tree.next o.tree.root
      let o ← o.remove mini (junk n)
      o.destroyLoop junk n
    else some o

/-- The blocks left after kvs_rbtree_destory. -/
def kvsRbtreeDestory (o : Owner) (junk : ℕ → Junk) : Option (List Block) := do
  let o ← o.destroyLoop junk o.tree.next
  releaseAll [.node o.tree.nil] o.live

end Owner

/-- What the calls amount to: a value may be missing, and `wasted` counts the sets that were answered 0 for a key that
was there with its value missing. -/
structure Account where
  map : FMap CString (Option CString)
  wasted : ℕ

namespace Account

def empty : Account := ⟨.empty, 0⟩

def blocks (a : Account) : ℕ :=
  1 + a.map.dom.sum (fun k => if (a.map.get k).join.isSome then 3 else 2) + 3 * a.wasted

def step (a : Account) (c : Op × Sys) : Option (Account × Answer) :=
  match c.1 with
  | .set k v =>
    if (a.map.get k).join.isSome then some (a, .code 1)
    else if ¬ c.2.alloc 0 then none
    else if ¬ c.2.alloc 1 ∨ ¬ c.2.alloc 2 then some (a, .code (-2))
    else if (a.map.get k).isSome then some ({ a with wasted := a.wasted + 1 }, .code 0)
    else some ({ a with map := a.map.insert k (some v) }, .code 0)
  | .get k => some (a, .value (a.map.get k).join)
  | .del k => if (a.map.get k).isSome then some ({ a with map := a.map.erase k }, .code 0) else some (a, .code 1)
  | .mod k v =>
    if ¬ (a.map.get k).isSome then some (a, .code 1)
    else if c.2.alloc 0 then some ({ a with map := a.map.insert k (some v) }, .code 0)
    else some ({ a with map := a.map.insert k none }, .code (-2))
  | .exist k => some (a, .code (if (a.map.get k).isSome then 0 else 1))

def run (cs : List (Op × Sys)) : Option (Account × List Answer) := Machine.run step empty cs

end Account

theorem scribble_valid {T : Rbtree} {t : ColoredTree Ptr} {p : Ptr} (h : Valid T t) (hp : p ∉ t.items) (hnil : p ≠ T.nil)
    (j : Junk) : Valid (T.scribble p j) t := by
  have hne : ∀ x ∈ t.items, x ≠ p := fun x hx he => hp (he ▸ hx)
  refine ⟨⟨h.holds.root, ?_, h.holds.nodup, h.holds.nil_not_mem, ?_⟩, h.redBlack, ?_, h.bound⟩
  · exact h.holds.rep.congr_all rfl (fun x hx => Function.update_of_ne (hne x hx) _ _)
      (fun d x hx => Function.update_of_ne (hne x hx) _ _) (fun x hx => Function.update_of_ne (hne x hx) _ _)
  · exact (Function.update_of_ne hnil.symm _ _).trans h.holds.nil_black
  · refine List.Pairwise.imp_of_mem ?_ h.ordered
    intro x y hx hy hlt
    simpa [scribble, Function.update_of_ne (hne x hx), Function.update_of_ne (hne y hy)] using hlt

theorem scribble_entries {T : Rbtree} {t : ColoredTree Ptr} {p : Ptr} (hp : p ∉ t.items) (j : Junk) :
    (T.scribble p j).entries t = T.entries t := by
  refine List.map_congr_left (fun x hx => ?_)
  have hne : x ≠ p := fun he => hp (he ▸ hx)
  simp [entry, scribble, hne]

theorem Valid.next_fresh {T : Rbtree} {t : ColoredTree Ptr} (h : Valid T t) : T.next ∉ t.items ∧ T.next ≠ T.nil :=
  ⟨fun hm => lt_irrefl _ (h.bound _ (List.mem_cons_of_mem _ hm)), (h.bound _ List.mem_cons_self).ne'⟩

def Block.Below (o : Owner) : Block → Prop
  | .node p => p < o.tree.next
  | .text n => n < o.texts

/-- Every live block is the sentinel, hangs off a node of the tree or was leaked, and no block counts twice. -/
structure Books (o : Owner) (t : ColoredTree Ptr) (leaked : List Block) : Prop where
  valid : Valid o.tree t
  live : o.live.Perm (.node o.tree.nil :: (t.items.flatMap o.blocksAt ++ leaked))
  nodup : o.live.Nodup
  below : ∀ b ∈ o.live, b.Below o

namespace Books

variable {o : Owner} {t : ColoredTree Ptr} {leaked : List Block}

theorem scribble (h : Books o t leaked) {p : Ptr} (hp : p ∉ t.items) (hnil : p ≠ o.tree.nil) (j : Junk) :
    Books (o.scribble p j) t leaked := by
  refine ⟨scribble_valid h.valid hp hnil j, ?_, h.nodup, h.below⟩
  have hsame : t.items.flatMap (o.scribble p j).blocksAt = t.items.flatMap o.blocksAt := by
    refine List.flatMap_congr (fun x hx => ?_)
    have hne : x ≠ p := fun he => hp (he ▸ hx)
    simp [Owner.blocksAt, Owner.valueBlocks, Owner.scribble, Rbtree.scribble, hne]
  rw [hsame]
  exact h.live

end Books

theorem exchange_eq (f : Ptr → ℕ) (y z : Ptr) : exchange f y z = f ∘ Equiv.swap y z := by
  unfold exchange
  split_ifs with hyz
  · exact (Equiv.comp_swap_eq_update y z f).symm
  · rw [not_not.mp hyz, Equiv.swap_self]
    rfl

theorem value_swapData {T T' : Rbtree} {y z : Ptr} (h : T'.data = (T.swapData y z).data) :
    T'.value = T.value ∘ Equiv.swap y z := by
  have hd : T'.value = (T.swapData y z).data.2.1 := congrArg (fun d => d.2.1) h
  rw [hd, swapData_data, Equiv.comp_swap_eq_update]
  split_ifs with hyz
  · simp [hyz, data]
  · rfl

theorem map_swap_perm {xs : List Ptr} {y z : Ptr} (hnd : xs.Nodup) (hy : y ∈ xs) (hz : z ∈ xs) :
    (xs.map (Equiv.swap y z)).Perm xs := by
  have hmem : ∀ p ∈ xs, Equiv.swap y z p ∈ xs := by
    intro p hp
    rw [Equiv.swap_apply_def]
    split_ifs <;> assumption
  rw [List.perm_ext_iff_of_nodup (hnd.map (Equiv.swap y z).injective) hnd]
  intro p
  rw [List.mem_map]
  constructor
  · rintro ⟨q, hq, rfl⟩
    exact hmem q hq
  · intro hp
    exact ⟨Equiv.swap y z p, hmem p hp, Equiv.swap_apply_self y z p⟩

/-- Key and value move together along a transposition of two nodes of the tree. -/
theorem unlinked_blocks {o : Owner} {T : Rbtree} {y z : Ptr} {xs : List Ptr} (hT : T.data = (o.tree.swapData y z).data)
    (hnd : xs.Nodup) (hy : y ∈ xs) (hz : z ∈ xs) :
    (xs.flatMap (o.unlinked T y z).blocksAt).Perm (xs.flatMap o.blocksAt) := by
  have hsplit : ∀ u : Owner, (xs.flatMap u.blocksAt).Perm
      (xs.flatMap (fun p => .text (u.keyAt p) :: u.valueBlocks p) ++ xs.flatMap (fun p => [.node p])) := fun u =>
    (List.flatMap_append_perm xs _ _).symm
  refine (hsplit _).trans (List.Perm.trans (List.Perm.append_right _ ?_) (hsplit o).symm)
  have hmoved : xs.flatMap (fun p => .text ((o.unlinked T y z).keyAt p) :: (o.unlinked T y z).valueBlocks p) =
      (xs.map (Equiv.swap y z)).flatMap (fun p => .text (o.keyAt p) :: o.valueBlocks p) := by
    rw [List.flatMap_map]
    simp only [Owner.unlinked, Owner.valueBlocks, exchange_eq, value_swapData hT, Function.comp_apply]
  rw [hmoved]
  exact (map_swap_perm hnd hy hz).flatMap_right _

theorem Books.remove {o : Owner} {c : Color} {l r : ColoredTree Ptr} {z : Ptr} {k : Context Ptr} {leaked : List Block}
    (h : Books o (plug k (node c l z r)) leaked) (junk : Junk) :
    ∃ o' t', o.remove z junk = some o' ∧ Books o' t' leaked ∧ o'.tree.next = o.tree.next ∧
      t'.items.length + 1 = (plug k (node c l z r)).items.length ∧
      o'.tree.entries t' = (before k ++ l.items).map o.tree.entry ++ (r.items ++ after k).map o.tree.entry := by
  obtain ⟨T, t', y, hdel, hvalid, hnil, hdata, hperm, hent⟩ := delete_valid h.valid
  have hnext : T.next = o.tree.next := by rw [next_of_data hdata, swapData_next]
  have hz : z ∈ (plug k (node c l z r)).items := by rw [items_plug]; simp [items]
  have hy : y ∈ (plug k (node c l z r)).items := hperm.mem_iff.mpr List.mem_cons_self
  have hnd := h.valid.holds.nodup
  obtain ⟨hyt, -⟩ := List.nodup_cons.mp (hperm.nodup_iff.mp hnd)
  have hlive : o.live.Perm ((o.unlinked T y z).blocksAt y ++
      (.node T.nil :: (t'.items.flatMap (o.unlinked T y z).blocksAt ++ leaked))) := by
    rw [hnil]
    refine h.live.trans (List.Perm.trans (List.Perm.cons _ ?_) List.perm_middle.symm)
    rw [← List.append_assoc]
    exact List.Perm.append_right _ ((unlinked_blocks hdata hnd hy hz).symm.trans (hperm.flatMap_right _))
  obtain ⟨live, hrel, hleft⟩ := releaseAll_perm hlive
  have hsub := releaseAll_sublist hrel
  have hbooks : Books { o.unlinked T y z with live := live } t' leaked := by
    refine ⟨hvalid, hleft, h.nodup.sublist hsub, ?_⟩
    intro b hb
    have hlt := h.below b (hsub.subset hb)
    cases b with
    | node p => exact lt_of_lt_of_eq hlt hnext.symm
    | text n => exact hlt
  have hynil : y ≠ T.nil := fun he => h.valid.holds.nil_not_mem (hnil ▸ he ▸ hy)
  refine ⟨_, t', ?_, hbooks.scribble hyt hynil junk, hnext, ?_, ?_⟩
  · simp only [Owner.remove, hdel, Option.bind_eq_bind, Option.bind_some]
    rw [show (o.unlinked T y z).live = o.live from rfl, hrel]
    rfl
  · simpa using hperm.length_eq.symm
  · exact (scribble_entries hyt junk).trans hent

section Grown

variable {o : Owner} {t : ColoredTree Ptr} {leaked : List Block} {T : Rbtree} {key value : CString}

theorem grown_blocks (hdata : T.data = (o.tree.newNode key value).data) {xs : List Ptr} (hx : o.tree.next ∉ xs) :
    (o.grown T).blocksAt o.tree.next = [.text o.texts, .text (o.texts + 1), .node o.tree.next] ∧
      xs.flatMap (o.grown T).blocksAt = xs.flatMap o.blocksAt := by
  have hval : T.value = Function.update o.tree.value o.tree.next (some value) := congrArg (fun d => d.2.1) hdata
  refine ⟨by simp [Owner.blocksAt, Owner.valueBlocks, Owner.grown, hval], List.flatMap_congr (fun p hp => ?_)⟩
  have hne : p ≠ o.tree.next := fun he => hx (he ▸ hp)
  simp [Owner.blocksAt, Owner.valueBlocks, Owner.grown, hval, hne]

/-- The three new blocks go to a node of the tree or, where rbtree_insert finds the key taken, to nobody. -/
theorem Books.grown (h : Books o t leaked) (hdata : T.data = (o.tree.newNode key value).data) (hnil : T.nil = o.tree.nil)
    {t' : ColoredTree Ptr} {leaked' : List Block} (hvalid : Valid T t')
    (hperm : (t'.items.flatMap (o.grown T).blocksAt ++ leaked').Perm
      ([.text (o.texts + 1), .text o.texts, .node o.tree.next] ++ (t.items.flatMap o.blocksAt ++ leaked))) :
    Books (o.grown T) t' leaked' := by
  have hnext : T.next = o.tree.next + 1 := next_of_data hdata
  refine ⟨hvalid, ?_, ?_, ?_⟩
  · refine List.Perm.trans (List.Perm.append_left _ h.live) ?_
    refine List.perm_middle.trans ?_
    rw [← hnil]
    exact List.Perm.cons _ hperm.symm
  · have hfresh : Block.text (o.texts + 1) ∉ o.live ∧ Block.text o.texts ∉ o.live ∧ Block.node o.tree.next ∉ o.live :=
      ⟨fun hb => absurd (h.below _ hb) (by simp [Block.Below]), fun hb => absurd (h.below _ hb) (by simp [Block.Below]),
        fun hb => absurd (h.below _ hb) (by simp [Block.Below])⟩
    simp [Owner.grown, hfresh, h.nodup]
  · intro b hb
    simp only [Owner.grown, List.mem_append, List.mem_cons, List.not_mem_nil, or_false] at hb
    rcases hb with (rfl | rfl | rfl) | hb
    · exact Nat.lt_succ_self _
    · exact Nat.lt_succ_of_lt (Nat.lt_succ_self _)
    · exact lt_of_lt_of_eq (Nat.lt_succ_self _) hnext.symm
    · have hlt := h.below b hb
      cases b with
      | node p => exact lt_trans hlt (lt_of_lt_of_eq (Nat.lt_succ_self _) hnext.symm)
      | text n => exact lt_trans hlt (Nat.lt_succ_of_lt (Nat.lt_succ_self _))

theorem Books.inserted (h : Books o t leaked) (ha : key ∉ FMap.keys (o.tree.entries t)) (value : CString) :
    ∃ T t' l1 l2, rbtreeInsert (o.tree.newNode key value) o.tree.next = some T ∧ Books (o.grown T) t' leaked ∧
      o.tree.entries t = l1 ++ l2 ∧ T.entries t' = l1 ++ (key, some value) :: l2 ∧ key ∉ FMap.keys l1 := by
  obtain ⟨-, -, hnx, -⟩ := newNode_valid h.valid key value
  obtain ⟨T, t', xs, ys, hins, hvalid, hnil, hdata, hitems, hitems', hlo⟩ := insert_valid h.valid value ha
  have hsplit := hnx
  rw [hitems, List.mem_append, not_or] at hsplit
  refine ⟨T, t', xs.map o.tree.entry, ys.map o.tree.entry, hins, h.grown hdata hnil hvalid ?_, ?_, ?_,
    absent_of_bounds (fun p hp => (hlo p hp).ne)⟩
  · rw [hitems, hitems', List.flatMap_append, List.flatMap_append, List.flatMap_cons, (grown_blocks hdata hsplit.1).1,
      (grown_blocks hdata hsplit.1).2, (grown_blocks hdata hsplit.2).2, List.perm_iff_count]
    intro b
    simp only [List.count_append, List.count_cons, List.count_nil]
    omega
  · rw [entries, hitems, List.map_append]
  · rw [entries, hitems', entry_of_data hdata, List.map_append, List.map_cons, (newNode_entry key value hsplit.1).1,
      (newNode_entry key value hsplit.1).2, (newNode_entry key value hsplit.2).2]

theorem Books.wasted (h : Books o t leaked) (ha : key ∈ FMap.keys (o.tree.entries t)) (value : CString) :
    ∃ T leaked', rbtreeInsert (o.tree.newNode key value) o.tree.next = some T ∧ Books (o.grown T) t leaked' ∧
      T.entries t = o.tree.entries t ∧ leaked'.length = leaked.length + 3 := by
  obtain ⟨hvalid, hent, hnx, -⟩ := newNode_valid h.valid key value
  obtain ⟨e, he, hk⟩ := List.mem_map.mp ha
  rw [← hent] at he
  obtain ⟨p, hp, rfl⟩ := List.mem_map.mp he
  have hins := insert_present hvalid hp (hk.trans (by simp [newNode] : key = (o.tree.newNode key value).key o.tree.next))
  refine ⟨_, [.text (o.texts + 1), .text o.texts, .node o.tree.next] ++ leaked, hins, h.grown rfl rfl hvalid ?_, hent,
    by simp⟩
  rw [(grown_blocks rfl hnx).2, List.perm_iff_count]
  intro b
  simp only [List.count_append]
  omega

end Grown

theorem Books.release_value {o : Owner} {c : Color} {l r : ColoredTree Ptr} {z : Ptr} {k : Context Ptr}
    {leaked : List Block} (h : Books o (plug k (node c l z r)) leaked) :
    ∃ live, releaseAll (o.valueBlocks z) o.live = some live ∧
      live.Perm (.node o.tree.nil :: ((before k ++ l.items).flatMap o.blocksAt ++ .text (o.keyAt z) :: .node z ::
        ((r.items ++ after k).flatMap o.blocksAt ++ leaked))) := by
  refine releaseAll_perm (h.live.trans ?_)
  rw [items_plug, items, ← List.append_assoc, List.append_assoc _ _ (after k), List.cons_append, List.flatMap_append,
    List.flatMap_cons, Owner.blocksAt, List.perm_iff_count]
  intro b
  simp only [List.count_append, List.count_cons, List.count_nil]
  omega

theorem Books.revalued {o o' : Owner} {c : Color} {l r : ColoredTree Ptr} {z : Ptr} {k : Context Ptr}
    {leaked live : List Block} {v : Option CString} (h : Books o (plug k (node c l z r)) leaked)
    (hrel : releaseAll (o.valueBlocks z) o.live = some live) (htree : o'.tree = o.tree.setValue z v)
    (hkey : o'.keyAt = o.keyAt) (hvalue : ∀ p, p ≠ z → o'.valueAt p = o.valueAt p)
    (hlive : o'.live = o'.valueBlocks z ++ live) (hnew : (o'.valueBlocks z).Nodup)
    (hfresh : ∀ b ∈ o'.valueBlocks z, ¬ b.Below o ∧ b.Below o') (htexts : o.texts ≤ o'.texts) :
    Books o' (plug k (node c l z r)) leaked := by
  have hsplit : (plug k (node c l z r)).items = (before k ++ l.items) ++ z :: (r.items ++ after k) := by
    rw [items_plug, items]; simp
  have hnd := h.valid.holds.nodup
  rw [hsplit, List.nodup_append', List.nodup_cons, List.disjoint_cons_right] at hnd
  have hother : ∀ xs : List Ptr, z ∉ xs → xs.flatMap o'.blocksAt = xs.flatMap o.blocksAt := by
    intro xs hxs
    refine List.flatMap_congr (fun p hp => ?_)
    have hne : p ≠ z := fun he => hxs (he ▸ hp)
    simp [Owner.blocksAt, Owner.valueBlocks, htree, hkey, hvalue p hne, setValue, hne]
  have hsub := releaseAll_sublist hrel
  obtain ⟨live', hrel', hleft⟩ := h.release_value
  obtain rfl : live' = live := Option.some.inj (hrel'.symm.trans hrel)
  refine ⟨htree ▸ setValue_valid h.valid z v, ?_, ?_, ?_⟩
  · rw [hlive, hsplit, List.flatMap_append, List.flatMap_cons, hother _ hnd.2.2.1, hother _ hnd.2.1.1]
    refine (List.Perm.append_left _ hleft).trans ?_
    rw [Owner.blocksAt, htree, hkey, List.perm_iff_count]
    intro b
    simp only [setValue, List.count_append, List.count_cons, List.count_nil]
    omega
  · rw [hlive, List.nodup_append']
    refine ⟨hnew, h.nodup.sublist hsub, ?_⟩
    intro b hb hl
    exact (hfresh b hb).1 (h.below b (hsub.subset hl))
  · intro b hb
    rw [hlive] at hb
    rcases List.mem_append.mp hb with hb | hb
    · exact (hfresh b hb).2
    · have hlt := h.below b (hsub.subset hb)
      cases b with
      | node p => exact lt_of_lt_of_eq hlt (by rw [htree]; rfl)
      | text n => exact lt_of_lt_of_le hlt htexts

/-- Where the key is, with the entries on either side of it. -/
theorem search_entries {T : Rbtree} {t : ColoredTree Ptr} (h : Valid T t) (a : CString) :
    (rbtreeSearch T a T.next T.root = some T.nil ∧ a ∉ FMap.keys (T.entries t)) ∨
      ∃ k c l z r, plug k (node c l z r) = t ∧ rbtreeSearch T a T.next T.root = some z ∧ z ≠ T.nil ∧ T.key z = a ∧
        T.entries t = (before k ++ l.items).map T.entry ++ (a, T.value z) :: (r.items ++ after k).map T.entry ∧
        a ∉ FMap.keys ((before k ++ l.items).map T.entry) ∧ a ∉ FMap.keys ((r.items ++ after k).map T.entry) := by
  rcases search_spec (a := a) h with ⟨k, rfl, hs, hlo, hhi⟩ | ⟨k, c, l, z, r, rfl, rfl, hs⟩
  · left
    refine ⟨hs, absent_of_bounds (fun p hp => ?_)⟩
    rw [items_plug] at hp
    simp only [items, List.append_nil, List.mem_append] at hp
    rcases hp with hp | hp
    · exact (hlo p hp).ne
    · exact (hhi p hp).ne'
  · right
    have hsplit : (plug k (node c l z r)).items = (before k ++ l.items) ++ z :: (r.items ++ after k) := by
      rw [items_plug, items]; simp
    have hord := h.ordered
    rw [hsplit, Ordered, List.pairwise_append, List.pairwise_cons] at hord
    refine ⟨k, c, l, z, r, rfl, hs, ?_, rfl, ?_, ?_, ?_⟩
    · rintro rfl
      exact h.holds.nil_not_mem (by rw [hsplit]; simp)
    · rw [entries, hsplit, List.map_append, List.map_cons]
      rfl
    · exact absent_of_bounds (fun p hp => (hord.2.2 p hp z List.mem_cons_self).ne)
    · exact absent_of_bounds (fun p hp => (hord.2.1.1 p hp).ne')

def Accounts (o : Owner) (a : Account) : Prop :=
  ∃ t leaked, Books o t leaked ∧ a.map = FMap.ofList (o.tree.entries t) ∧ leaked.length = 3 * a.wasted

section Steps

variable {o : Owner} {a : Account}

abbrev Together (p : Owner × Answer) (q : Account × Answer) : Prop := p.2 = q.2 ∧ Accounts p.1 q.1

theorem Accounts.scribble (h : Accounts o a) (junk : Junk) : Accounts (o.scribble o.tree.next junk) a := by
  obtain ⟨t, leaked, hb, hmap, hlen⟩ := h
  obtain ⟨hnx, hnil⟩ := hb.valid.next_fresh
  refine ⟨t, leaked, hb.scribble hnx hnil junk, ?_, hlen⟩
  rw [hmap]
  exact congrArg FMap.ofList (scribble_entries hnx junk).symm

theorem Accounts.get (h : Accounts o a) (k : CString) : kvsRbtreeGet o.tree k = some (a.map.get k).join := by
  obtain ⟨t, leaked, hb, hmap, -⟩ := h
  rw [get_lookup ⟨t, hb.valid, rfl⟩, hmap]
  rfl

theorem together {r : Option (Owner × Answer)} {q : Option (Account × Answer)} {o' : Owner} {a' : Account} (n : ℤ)
    (hr : r = some (o', .code n)) (hq : q = some (a', .code n)) (h : Accounts o' a') : Option.Rel Together r q :=
  hr ▸ hq ▸ .some ⟨rfl, h⟩

theorem Accounts.set (h : Accounts o a) (k v : CString) (sys : Sys) (junk : Junk) :
    Option.Rel Together (o.call (.set k v, sys, junk)) (a.step (.set k v, sys)) := by
  have hget := h.get k
  cases hj : (a.map.get k).join with
  | some w => exact together 1 (by simp [Owner.call, Owner.set, hget, hj, codeOf]) (by simp [Account.step, hj]) h
  | none =>
    by_cases h0 : sys.alloc 0
    swap
    · rw [show o.call (.set k v, sys, junk) = none by simp [Owner.call, Owner.set, hget, hj, h0],
        show a.step (.set k v, sys) = none by simp [Account.step, hj, h0]]
      exact .none
    by_cases h1 : sys.alloc 1
    swap
    · exact together (-2) (by simp [Owner.call, Owner.set, hget, hj, h0, h1, releaseAll, release, codeOf])
        (by simp [Account.step, hj, h0, h1]) (h.scribble junk)
    by_cases h2 : sys.alloc 2
    swap
    · exact together (-2) (by simp [Owner.call, Owner.set, hget, hj, h0, h1, h2, releaseAll, release, codeOf])
        (by simp [Account.step, hj, h0, h1, h2]) (h.scribble junk)
    obtain ⟨t, leaked, hb, hmap, hlen⟩ := h
    have hkeys : (a.map.get k).isSome ↔ k ∈ FMap.keys (o.tree.entries t) := by
      rw [← a.map.mem_dom, hmap]
      exact List.mem_toFinset
    by_cases hk : k ∈ FMap.keys (o.tree.entries t)
    · obtain ⟨T, leaked', hins, hb', hent, hlen'⟩ := hb.wasted hk v
      have hacc : Accounts (o.grown T) { a with wasted := a.wasted + 1 } :=
        ⟨t, leaked', hb', hmap.trans (congrArg FMap.ofList hent.symm), by simp only; omega⟩
      exact together 0 (by simp [Owner.call, Owner.set, hget, hj, h0, h1, h2, hins, codeOf])
        (by simp [Account.step, hj, h0, h1, h2, hkeys.mpr hk]) hacc
    · obtain ⟨T, t', l1, l2, hins, hb', hold, hnew, hk1⟩ := hb.inserted hk v
      have hinsert : a.map.insert k (some v) = FMap.ofList (T.entries t') := by
        rw [hnew, FMap.ofList_insert l1 l2 k (some v) hk1, hmap, hold]
      have hacc : Accounts (o.grown T) { a with map := a.map.insert k (some v) } := ⟨t', leaked, hb', hinsert, hlen⟩
      exact together 0 (by simp [Owner.call, Owner.set, hget, hj, h0, h1, h2, hins, codeOf])
        (by simp [Account.step, hj, h0, h1, h2, hkeys, hk]) hacc

theorem Accounts.del (h : Accounts o a) (k : CString) (sys : Sys) (junk : Junk) :
    Option.Rel Together (o.call (.del k, sys, junk)) (a.step (.del k, sys)) := by
  have hsame := h
  obtain ⟨t, leaked, hb, hmap, hlen⟩ := h
  rcases search_entries hb.valid k with ⟨hs, hk⟩ | ⟨k', c, l, z, r, rfl, hs, hz, rfl, hent, h1, h2⟩
  · have hget : a.map.get k = none := hmap ▸ (FMap.lookup_eq_none k _).mpr hk
    exact together 1 (by simp [Owner.call, Owner.del, hs, codeOf]) (by simp [Account.step, hget]) hsame
  · have hget : a.map.get (o.tree.key z) = some (o.tree.value z) := by
      rw [hmap, hent]
      exact FMap.lookup_middle _ _ _ _ h1
    obtain ⟨o', t', hrem, hb', -, -, hent'⟩ := hb.remove junk
    have herase : a.map.erase (o.tree.key z) = FMap.ofList (o'.tree.entries t') := by
      rw [hent', hmap, hent, FMap.ofList_erase _ _ _ (o.tree.value z) h1 h2]
    have hacc : Accounts o' { a with map := a.map.erase (o.tree.key z) } := ⟨t', leaked, hb', herase, hlen⟩
    exact together 0 (by simp [Owner.call, Owner.del, hs, hz, hrem, codeOf]) (by simp [Account.step, hget]) hacc

theorem Accounts.mod (h : Accounts o a) (k v : CString) (sys : Sys) (junk : Junk) :
    Option.Rel Together (o.call (.mod k v, sys, junk)) (a.step (.mod k v, sys)) := by
  have hsame := h
  obtain ⟨t, leaked, hb, hmap, hlen⟩ := h
  rcases search_entries hb.valid k with ⟨hs, hk⟩ | ⟨k', c, l, z, r, rfl, hs, hz, rfl, hent, h1, -⟩
  · have hget : a.map.get k = none := hmap ▸ (FMap.lookup_eq_none k _).mpr hk
    exact together 1 (by simp [Owner.call, Owner.mod, hs, codeOf]) (by simp [Account.step, hget]) hsame
  · have hget : a.map.get (o.tree.key z) = some (o.tree.value z) := by
      rw [hmap, hent]
      exact FMap.lookup_middle _ _ _ _ h1
    have hinsert : ∀ w, a.map.insert (o.tree.key z) w =
        FMap.ofList ((o.tree.setValue z w).entries (plug k' (node c l z r))) := by
      intro w
      rw [setValue_entries hb.valid, hmap, hent, ← FMap.ofList_modify _ _ _ (o.tree.value z) _ h1]
    obtain ⟨live, hrel, -⟩ := hb.release_value
    by_cases h0 : sys.alloc 0
    · have hbooks : Books ⟨o.tree.setValue z (some v), o.keyAt, Function.update o.valueAt z o.texts, o.texts + 1,
          .text o.texts :: live⟩ (plug k' (node c l z r)) leaked := by
        refine hb.revalued hrel rfl rfl (fun p hp => Function.update_of_ne hp _ _) ?_ ?_ ?_ (Nat.le_succ _)
        · simp [Owner.valueBlocks, setValue]
        · simp [Owner.valueBlocks, setValue]
        · simp [Owner.valueBlocks, setValue, Block.Below]
      have hacc : Accounts _ { a with map := a.map.insert (o.tree.key z) (some v) } :=
        ⟨_, leaked, hbooks, hinsert (some v), hlen⟩
      exact together 0 (by simp [Owner.call, Owner.mod, hs, hz, hrel, h0, codeOf]) (by simp [Account.step, hget, h0]) hacc
    · have hbooks : Books { o with tree := o.tree.setValue z none, live := live } (plug k' (node c l z r)) leaked := by
        refine hb.revalued hrel rfl rfl (fun p _ => rfl) ?_ ?_ ?_ le_rfl <;> simp [Owner.valueBlocks, setValue]
      have hacc : Accounts _ { a with map := a.map.insert (o.tree.key z) none } := ⟨_, leaked, hbooks, hinsert none, hlen⟩
      exact together (-2) (by simp [Owner.call, Owner.mod, hs, hz, hrel, h0, codeOf]) (by simp [Account.step, hget, h0])
        hacc

theorem Accounts.exist (h : Accounts o a) (k : CString) :
    kvsRbtreeExist o.tree k = some (if (a.map.get k).isSome then 0 else 1) := by
  obtain ⟨t, leaked, hb, hmap, -⟩ := h
  have hkeys : (a.map.get k).isSome ↔ k ∈ FMap.keys (o.tree.entries t) := by
    rw [← a.map.mem_dom, hmap]
    exact List.mem_toFinset
  simp only [exist_keys ⟨t, hb.valid, rfl⟩, hkeys]

theorem call_mirrors : Machine.Mirrors Owner.call Account.step (fun c => (c.1, c.2.1)) Accounts := by
  rintro o a ⟨op, sys, junk⟩ h
  cases op with
  | set k v => exact h.set k v sys junk
  | get k =>
    simp only [Owner.call, Account.step, h.get k]
    exact .some ⟨rfl, h⟩
  | del k => exact h.del k sys junk
  | mod k v => exact h.mod k v sys junk
  | exist k =>
    simp only [Owner.call, Account.step, h.exist k]
    exact .some ⟨rfl, h⟩

end Steps

theorem Books.destroyLoop {o : Owner} {t : ColoredTree Ptr} {leaked : List Block} {n : ℕ} (h : Books o t leaked)
    (hn : t.items.length < n) (junk : ℕ → Junk) :
    ∃ o', o.destroyLoop junk n = some o' ∧ Books o' leaf leaked := by
  induction n generalizing o t with
  | zero => omega
  | succ n ih =>
    have hroot := h.valid.holds.root
    by_cases ht : t = leaf
    · subst ht
      exact ⟨o, by simp [Owner.destroyLoop, hroot, ptrOf], h⟩
    · have hne : o.tree.root ≠ o.tree.nil := by
        rw [hroot]
        exact fun he => ht ((ptrOf_eq_nil h.valid.holds.nil_not_mem).mp he)
      obtain ⟨k, c, y, r, rfl, -, hmini⟩ :=
        mini_leftmost h.valid.holds.rep h.valid.holds.nil_not_mem h.valid.length_lt ht
      obtain ⟨o1, t1, hrem, hb, -, hlen, -⟩ := h.remove (junk n)
      obtain ⟨o', hloop, hb'⟩ := ih hb (by omega)
      refine ⟨o', ?_, hb'⟩
      rw [Owner.destroyLoop, if_pos hne, hroot, hmini]
      simp only [Option.bind_eq_bind, Option.bind_some, hrem, hloop]

theorem Books.destroy {o : Owner} {t : ColoredTree Ptr} {leaked : List Block} (h : Books o t leaked) (junk : ℕ → Junk) :
    ∃ left, o.kvsRbtreeDestory junk = some left ∧ left.Nodup ∧ left.Perm leaked := by
  obtain ⟨o', hloop, hb⟩ := h.destroyLoop h.valid.length_lt junk
  have hlive : o'.live.Perm ([.node o'.tree.nil] ++ leaked) := by simpa [items] using hb.live
  obtain ⟨left, hrel, hleft⟩ := releaseAll_perm hlive
  refine ⟨left, ?_, hb.nodup.sublist (releaseAll_sublist hrel), hleft⟩
  rw [Owner.kvsRbtreeDestory, hloop]
  exact hrel

theorem Accounts.live_length {o : Owner} {a : Account} (h : Accounts o a) : o.live.length = a.blocks := by
  obtain ⟨t, leaked, hb, hmap, hlen⟩ := h
  have hkeys : FMap.keys (o.tree.entries t) = t.items.map o.tree.key := by
    rw [FMap.keys, entries, List.map_map]
    rfl
  have hnd : (FMap.keys (o.tree.entries t)).Nodup := (Lists.sorted ⟨t, hb.valid, rfl⟩).imp (fun hlt => hlt.ne)
  have hvalue : ∀ p ∈ t.items, a.map.get (o.tree.key p) = some (o.tree.value p) := by
    intro p hp
    rw [hmap]
    exact FMap.lookup_of_mem _ hnd (List.mem_map.mpr ⟨p, hp, rfl⟩)
  have hsum : a.map.dom.sum (fun k => if (a.map.get k).join.isSome then 3 else 2) =
      (t.items.flatMap o.blocksAt).length := by
    have hdom : a.map.dom = (FMap.keys (o.tree.entries t)).toFinset := congrArg FMap.dom hmap
    rw [hdom, List.sum_toFinset _ hnd, hkeys, List.map_map, List.length_flatMap]
    refine congrArg List.sum (List.map_congr_left (fun p hp => ?_))
    rw [Function.comp_apply, hvalue p hp]
    cases hv : o.tree.value p <;> simp [Owner.blocksAt, Owner.valueBlocks, hv]
  have hlive := hb.live.length_eq
  rw [List.length_cons, List.length_append] at hlive
  rw [hlive, Account.blocks, hsum, hlen]
  omega

/-- The engine as its commands see it, without the ledger and with nothing written to freed nodes. -/
def Answers (T : Rbtree) (a : Account) : Prop := ∃ l, Lists T l ∧ a.map = FMap.ofList l

section Engine

variable {T : Rbtree} {a : Account}

theorem answered {r : Option (Rbtree × Answer)} {q : Option (Account × Answer)} {T' : Rbtree} {a' : Account} (n : ℤ)
    (hr : r = some (T', .code n)) (hq : q = some (a', .code n)) (h : Answers T' a') :
    Option.Rel (fun p q => p.2 = q.2 ∧ Answers p.1 q.1) r q :=
  hr ▸ hq ▸ .some ⟨rfl, h⟩

theorem Answers.set (h : Answers T a) (k v : CString) (sys : Sys) :
    Option.Rel (fun p q => p.2 = q.2 ∧ Answers p.1 q.1) (engine.call T (.set k v, sys)) (a.step (.set k v, sys)) := by
  have hsame := h
  obtain ⟨l, hl, hmap⟩ := h
  have hget : kvsRbtreeGet T k = some (a.map.get k).join := by
    rw [get_lookup hl, hmap]
    rfl
  cases hj : (a.map.get k).join with
  | some w =>
    exact answered 1 (by simp [call, engine, kvsRbtreeSet, hget, hj, codeOf]) (by simp [Account.step, hj]) hsame
  | none =>
    by_cases h0 : sys.alloc 0
    swap
    · rw [show engine.call T (.set k v, sys) = none by simp [call, engine, kvsRbtreeSet, hget, hj, h0],
        show a.step (.set k v, sys) = none by simp [Account.step, hj, h0]]
      exact .none
    by_cases h1 : sys.alloc 1
    swap
    · exact answered (-2) (by simp [call, engine, kvsRbtreeSet, hget, hj, h0, h1, codeOf])
        (by simp [Account.step, hj, h0, h1]) hsame
    by_cases h2 : sys.alloc 2
    swap
    · exact answered (-2) (by simp [call, engine, kvsRbtreeSet, hget, hj, h0, h1, h2, codeOf])
        (by simp [Account.step, hj, h0, h1, h2]) hsame
    have hkeys : (a.map.get k).isSome ↔ k ∈ FMap.keys l := by
      rw [← a.map.mem_dom, hmap]
      exact List.mem_toFinset
    by_cases hk : k ∈ FMap.keys l
    · obtain ⟨hins, hl'⟩ := insert_again hl v hk
      have hacc : Answers (T.newNode k v) { a with wasted := a.wasted + 1 } := ⟨l, hl', hmap⟩
      exact answered 0 (by simp [call, engine, kvsRbtreeSet, hget, hj, h0, h1, h2, hins, codeOf])
        (by simp [Account.step, hj, h0, h1, h2, hkeys.mpr hk]) hacc
    · obtain ⟨T', l1, l2, hins, rfl, hk1, hl'⟩ := insert_lists hl v hk
      have hacc : Answers T' { a with map := a.map.insert k (some v) } :=
        ⟨_, hl', by rw [FMap.ofList_insert l1 l2 k (some v) hk1, hmap]⟩
      exact answered 0 (by simp [call, engine, kvsRbtreeSet, hget, hj, h0, h1, h2, hins, codeOf])
        (by simp [Account.step, hj, h0, h1, h2, hkeys, hk]) hacc

theorem Lists.not_mem_sides {l1 l2 : List (CString × Option CString)} {k : CString} {v : Option CString}
    (h : Lists T (l1 ++ (k, v) :: l2)) : k ∉ FMap.keys l1 ∧ k ∉ FMap.keys l2 := by
  have hs := h.sorted
  simp only [FMap.keys, List.map_append, List.map_cons, List.pairwise_append, List.pairwise_cons] at hs
  exact ⟨fun hm => lt_irrefl _ (hs.2.2 _ hm _ List.mem_cons_self), fun hm => lt_irrefl _ (hs.2.1.1 _ hm)⟩

theorem Answers.del (h : Answers T a) (k : CString) (sys : Sys) :
    Option.Rel (fun p q => p.2 = q.2 ∧ Answers p.1 q.1) (engine.call T (.del k, sys)) (a.step (.del k, sys)) := by
  have hsame := h
  obtain ⟨l, hl, hmap⟩ := h
  rcases search_lists hl k with ⟨hs, hk⟩ | ⟨z, l1, l2, hs, hz, rfl, ⟨T', y, hdel, hl'⟩, -⟩
  · have hget : a.map.get k = none := hmap ▸ (FMap.lookup_eq_none k l).mpr hk
    exact answered 1 (by simp [call, engine, kvsRbtreeDel, hs, codeOf]) (by simp [Account.step, hget]) hsame
  · obtain ⟨h1, h2⟩ := hl.not_mem_sides
    have hget : a.map.get k = some (T.value z) := hmap ▸ FMap.lookup_middle l1 l2 k _ h1
    have hacc : Answers T' { a with map := a.map.erase k } :=
      ⟨_, hl', by rw [hmap, FMap.ofList_erase l1 l2 k (T.value z) h1 h2]⟩
    exact answered 0 (by simp [call, engine, kvsRbtreeDel, hs, hz, hdel, codeOf]) (by simp [Account.step, hget]) hacc

theorem Answers.mod (h : Answers T a) (k v : CString) (sys : Sys) :
    Option.Rel (fun p q => p.2 = q.2 ∧ Answers p.1 q.1) (engine.call T (.mod k v, sys)) (a.step (.mod k v, sys)) := by
  have hsame := h
  obtain ⟨l, hl, hmap⟩ := h
  rcases search_lists hl k with ⟨hs, hk⟩ | ⟨z, l1, l2, hs, hz, rfl, -, hset⟩
  · have hget : a.map.get k = none := hmap ▸ (FMap.lookup_eq_none k l).mpr hk
    exact answered 1 (by simp [call, engine, kvsRbtreeMod, hs, codeOf]) (by simp [Account.step, hget]) hsame
  · obtain ⟨h1, -⟩ := hl.not_mem_sides
    have hget : a.map.get k = some (T.value z) := hmap ▸ FMap.lookup_middle l1 l2 k _ h1
    have hacc : ∀ w, Answers (T.setValue z w) { a with map := a.map.insert k w } := fun w =>
      ⟨_, hset w, by rw [hmap, ← FMap.ofList_modify l1 l2 k (T.value z) w h1]⟩
    by_cases h0 : sys.alloc 0
    · exact answered 0 (by simp [call, engine, kvsRbtreeMod, hs, hz, h0, codeOf]) (by simp [Account.step, hget, h0])
        (hacc (some v))
    · exact answered (-2) (by simp [call, engine, kvsRbtreeMod, hs, hz, h0, codeOf]) (by simp [Account.step, hget, h0])
        (hacc none)

theorem engine_mirrors : Machine.Mirrors engine.call Account.step id Answers := by
  rintro T a ⟨op, sys⟩ h
  cases op with
  | set k v => exact h.set k v sys
  | get k =>
    obtain ⟨l, hl, hmap⟩ := h
    have hget : kvsRbtreeGet T k = some (a.map.get k).join := by
      rw [get_lookup hl, hmap]
      rfl
    simp only [call, engine, Account.step, id, hget]
    exact .some ⟨rfl, l, hl, hmap⟩
  | del k => exact h.del k sys
  | mod k v => exact h.mod k v sys
  | exist k =>
    obtain ⟨l, hl, hmap⟩ := h
    have hkeys : (a.map.get k).isSome ↔ k ∈ FMap.keys l := by
      rw [← a.map.mem_dom, hmap]
      exact List.mem_toFinset
    simp only [call, engine, Account.step, id, exist_keys hl, hkeys]
    exact .some ⟨rfl, l, hl, hmap⟩

end Engine

theorem create_accounts (T : Rbtree) {sys : Sys} (h : sys.alloc 0 = true) :
    ∃ o, Owner.create T sys = some o ∧ Accounts o .empty ∧ Answers o.tree .empty := by
  obtain ⟨T', hc, hv⟩ := create_valid T h
  refine ⟨⟨T', fun _ => 0, fun _ => 0, 0, [.node T'.nil]⟩, by rw [Owner.create, hc]; rfl,
    ⟨leaf, [], ⟨hv, .refl _, List.nodup_singleton _, ?_⟩, FMap.ofList_nil.symm, rfl⟩,
    [], ⟨leaf, hv, rfl⟩, FMap.ofList_nil.symm⟩
  intro b hb
  obtain rfl := List.mem_singleton.mp hb
  exact hv.bound _ List.mem_cons_self

/-- Whatever is found in freed memory, no call and no teardown frees a block that is not allocated, the answers are
those of the engine, and each block is accounted for: the sentinel, two blocks for each key, one for each value that is
there, and three for good for each set of a key whose value an RMOD without memory had lost. -/
theorem tree_blocks_are_accounted (T : Rbtree) (sys : Sys) (h : sys.alloc 0 = true) (cs : List (Op × Sys × Junk))
    (junk : ℕ → Junk) :
    ∃ o, Owner.create T sys = some o ∧
      (o.run cs).map Prod.snd = (engine.run o.tree (cs.map (fun c => (c.1, c.2.1)))).map Prod.snd ∧
      (o.run cs).map Prod.snd = (Account.run (cs.map (fun c => (c.1, c.2.1)))).map Prod.snd ∧
      ∀ o' answers, o.run cs = some (o', answers) →
        ∃ a, Account.run (cs.map (fun c => (c.1, c.2.1))) = some (a, answers) ∧ o'.live.Nodup ∧
          o'.live.length = a.blocks ∧
          ∃ left, o'.kvsRbtreeDestory junk = some left ∧ left.Nodup ∧ left.length = 3 * a.wasted := by
  obtain ⟨o, hc, hacc, hans⟩ := create_accounts T h
  have hown := call_mirrors.outputs cs o .empty hacc
  have heng := engine_mirrors.outputs (cs.map (fun c => (c.1, c.2.1))) o.tree .empty hans
  rw [List.map_id] at heng
  refine ⟨o, hc, hown.trans heng.symm, hown, ?_⟩
  intro o' answers hrun
  obtain ⟨a, ha, hacc'⟩ := call_mirrors.run_forth hacc hrun
  refine ⟨a, ha, ?_, hacc'.live_length, ?_⟩
  · obtain ⟨t, leaked, hb, -⟩ := hacc'
    exact hb.nodup
  · obtain ⟨t, leaked, hb, -, hlen⟩ := hacc'
    obtain ⟨left, hd, hnd, hperm⟩ := hb.destroy junk
    exact ⟨left, hd, hnd, hperm.length_eq.trans hlen⟩

def Junk.zero : Junk := ⟨fun _ => 0, 0, .red, .lit "", none, 0, 0⟩

/-- The RMOD loses the value of `a`, so the second RSET of `a` is answered 0 and stores nothing. -/
def losing : List (Op × Sys × Junk) :=
  [(.set (.lit "a") (.lit "1"), .granted, .zero), (.set (.lit "b") (.lit "2"), .granted, .zero),
    (.mod (.lit "a") (.lit "3"), ⟨fun _ => false, fun _ => false⟩, .zero),
    (.set (.lit "a") (.lit "4"), .granted, .zero), (.del (.lit "b"), .granted, .zero)]

theorem tree_blocks_are_accounted_example :
    ∃ o o' left, Owner.create blank Sys.granted = some o ∧
      o.run losing = some (o', [.code 0, .code 0, .code (-2), .code 0, .code 0]) ∧
      o'.live.length = 6 ∧ o'.kvsRbtreeDestory (fun _ => .zero) = some left ∧ left.length = 3 := by
  obtain ⟨o, hc, -, hans, hrun⟩ := tree_blocks_are_accounted blank Sys.granted rfl losing (fun _ => .zero)
  have hacc : (Account.run (losing.map (fun c => (c.1, c.2.1)))).map (fun p => (p.1.blocks, p.1.wasted, p.2)) =
      some (6, 1, [.code 0, .code 0, .code (-2), .code 0, .code 0]) := by decide +kernel
  obtain ⟨⟨a, answers⟩, ha, he⟩ := Option.map_eq_some_iff.mp hacc
  simp only [Prod.mk.injEq] at he
  obtain ⟨hblocks, hwasted, rfl⟩ := he
  rw [ha] at hans
  obtain ⟨⟨o', answers⟩, hr, rfl⟩ := Option.map_eq_some_iff.mp hans
  obtain ⟨b, hb, -, hlen, left, hd, -, hleft⟩ := hrun o' _ hr
  rw [ha] at hb
  obtain rfl : a = b := congrArg Prod.fst (Option.some.inj hb)
  exact ⟨o, o', left, hc, hr, hlen.trans hblocks, hd, by rw [hleft, hwasted]⟩

end Lidis.Rbtree
