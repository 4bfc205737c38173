import Lidis.KvsSkiplist
import Lidis.Lib.Ledger

namespace Lidis.Skiplist

open Chain Engine Ledger

inductive Block where
  | node (p : ℕ)
  | forward (p : ℕ)
  | text (n : ℕ)
  deriving DecidableEq

/-- The list with the blocks it has from kvs_malloc: a node, its array of links, the texts of its key and value.
`live` are the blocks not freed so far. -/
structure Owner where
  list : Skiplist
  keyAt : ℕ → ℕ
  valueAt : ℕ → ℕ
  texts : ℕ
  live : List Block

/-- What a freed node and its links may be found to hold. -/
structure Junk where
  forward : ℕ → ℕ
  height : ℕ
  key : Option CString
  value : Option CString
  keyAt : ℕ
  valueAt : ℕ

def scribble (S : Skiplist) (p : ℕ) (j : Junk) : Skiplist :=
  { S with
    forward := Function.update S.forward p j.forward
    height := Function.update S.height p j.height
    key := Function.update S.key p j.key
    value := Function.update S.value p j.value }

namespace Owner

def scribble (o : Owner) (p : ℕ) (j : Junk) : Owner :=
  { o with
    list := o.list.scribble p j
    keyAt := Function.update o.keyAt p j.keyAt
    valueAt := Function.update o.valueAt p j.valueAt }

/-- In the order in which kvs_skiplist_del and kvs_skiplist_destroy free them. -/
def blocksAt (o : Owner) (p : ℕ) : List Block :=
  [.text (o.keyAt p), .text (o.valueAt p), .forward p, .node p]

def create (S : Skiplist) (sys : Sys) : Option Owner :=
  let (S, ret) := S.kvsSkiplistCreate sys
  if ret = 0 then some ⟨S, fun _ => 0, fun _ => 0, 0, [.forward S.header, .node S.header]⟩ else none

/-- createNode for want of memory: what it has got so far is freed again. -/
def refused (o : Owner) (sys : Sys) (junk : Junk) : Option Owner :=
  let node := o.list.next
  if ¬ sys.alloc 0 then some o
  else do
    let live ←
      if ¬ sys.alloc 1 then releaseAll [.node node] (.node node :: o.live)
      else if ¬ sys.alloc 2 then releaseAll [.forward node, .node node] (.forward node :: .node node :: o.live)
      else releaseAll [.forward node, .text o.texts, .node node] (.text o.texts :: .forward node :: .node node :: o.live)
    some ({ o with live := live }.scribble node junk)

/-- With a new node, its links and the texts of its key and value. -/
def grown (o : Owner) (S : Skiplist) : Owner :=
  ⟨S, Function.update o.keyAt o.list.next o.texts, Function.update o.valueAt o.list.next (o.texts + 1), o.texts + 2,
    [.text (o.texts + 1), .text o.texts, .forward o.list.next, .node o.list.next] ++ o.live⟩

def set (o : Owner) (key value : CString) (sys : Sys) (junk : Junk) : Option (Owner × ℤ) := do
  let (_, update, hit) ← o.list.find key maxLevel
  if hit then some (o, 1)
  else
    let level := randomLevel sys.low
    match o.list.createNode level key value sys with
    | none => do
      let o ← o.refused sys junk
      some (o, -2)
    | some (S, node) => do
      let (S, update) ← S.raise level update
      let S ← link update node level S
      some (o.grown S, 0)

/-- The node is freed before the level is lowered. -/
def del (o : Owner) (key : CString) (junk : Junk) : Option (Owner × ℤ) := do
  let (current, update, hit) ← o.list.find key (o.list.level + 1)
  if hit then do
    let S ← unlink update current (o.list.level + 1) 0 o.list
    let live ← releaseAll (o.blocksAt current) o.live
    let o := { o with list := S, live := live }.scribble current junk
    let level ← o.list.lower o.list.level
    some ({ o with list := o.list.setLevel level }, 0)
  else some (o, 1)

/-- The new value is there before the old one is freed. -/
def mod (o : Owner) (key value : CString) (sys : Sys) : Option (Owner × ℤ) := do
  let (current, _, hit) ← o.list.find key (o.list.level + 1)
  if hit then
    if ¬ sys.alloc 0 then some (o, -2)
    else do
      let live ← releaseAll [.text (o.valueAt current)] (.text o.texts :: o.live)
      some (⟨o.list.setValue current (some value), o.keyAt, Function.update o.valueAt current o.texts, o.texts + 1, live⟩, 0)
  else some (o, 1)

def call (o : Owner) (c : Op × Sys × Junk) : Option (Owner × Answer) :=
  match c.1 with
  | .set k v => (o.set k v c.2.1 c.2.2).map codeOf
  | .get k => (kvsSkiplistGet o.list (some k)).map fun v => (o, .value v)
  | .del k => (o.del k c.2.2).map codeOf
  | .mod k v => (o.mod k v c.2.1).map codeOf
  | .exist k => (kvsSkiplistExist o.list (some k)).map fun n => (o, .code n)

def run (o : Owner) (cs : List (Op × Sys × Junk)) : Option (Owner × List Answer) := Machine.run call o cs

def destroyLoop (junk : ℕ → Junk) : ℕ → ℕ → Owner → Option Owner
  | 0, _, _ => none
  | n + 1, node, o =>
    if node ≠ 0 then do
      let temp ← o.list.fwd node 0
      let live ← releaseAll (if (o.list.key node).isSome then o.blocksAt node else [.forward node, .node node]) o.live
      destroyLoop junk n temp ({ o with live := live }.scribble node (junk n))
    else some o

/-- The blocks left after kvs_skiplist_destroy. -/
def kvsSkiplistDestroy (o : Owner) (junk : ℕ → Junk) : Option (List Block) := do
  let node ← o.list.fwd o.list.header 0
  let o ← destroyLoop junk o.list.next node o
  releaseAll [.forward o.list.header, .node o.list.header] o.live

end Owner

section Scribble

variable {S : Skiplist} {l : List ℕ} {p : ℕ}

theorem Shape.scribble (h : Shape S l) (hp : p ∉ S.header :: l) (j : Junk) : Shape (S.scribble p j) l := by
  have hne : ∀ q ∈ S.header :: l, q ≠ p := fun q hq he => hp (he ▸ hq)
  have hnl : ∀ q ∈ l, q ≠ p := fun q hq => hne q (List.mem_cons_of_mem _ hq)
  have hheight : ∀ q ∈ S.header :: l, (S.scribble p j).height q = S.height q := fun q hq =>
    Function.update_of_ne (hne q hq) _ _
  have hkey : ∀ q ∈ l, (S.scribble p j).key q = S.key q := fun q hq => Function.update_of_ne (hnl q hq) _ _
  refine ⟨h.header_ne, (hheight _ List.mem_cons_self).trans h.header_height, h.nodup, h.nonzero, h.bound, ?_, ?_, ?_, ?_,
    h.level_lt, ?_⟩
  · intro q hq
    rw [hkey q hq, keyOf_congr (hkey q hq)]
    exact h.keyed q hq
  · refine h.sorted.imp_of_mem ?_
    intro q r hq hr hlt
    rwa [keyOf_congr (hkey q hq), keyOf_congr (hkey r hr)]
  · intro i hi
    rw [tower_congr (fun q hq => hheight q (List.mem_cons_of_mem _ hq))]
    refine (h.linked i hi).congr ?_
    intro q hq
    have hq' : q ≠ p := hne q ((List.filter_sublist.cons_cons S.header).subset hq)
    exact congrFun (Function.update_of_ne hq' _ _) i
  · intro q hq
    rw [hheight q (List.mem_cons_of_mem _ hq)]
    exact h.heights q hq
  · rcases h.top with h0 | ⟨q, hq, hql⟩
    · exact Or.inl h0
    · exact Or.inr ⟨q, hq, (hheight q (List.mem_cons_of_mem _ hq)).trans hql⟩

theorem Shape.unique {l' : List ℕ} (h : Shape S l) (h' : Shape S l') : l = l' := by
  have hl := h.linked 0 (Nat.zero_le _)
  have hl' := h'.linked 0 (Nat.zero_le _)
  rw [tower_zero] at hl hl'
  exact hl.unique hl' (fun hm => h.nonzero 0 hm rfl) (fun hm => h'.nonzero 0 hm rfl)

theorem Shape.not_mem_rest {r : List ℕ} (h : Shape S (l ++ p :: r)) : p ∉ S.header :: (l ++ r) := by
  have hperm : (S.header :: (l ++ p :: r)).Perm (p :: S.header :: (l ++ r)) :=
    (List.Perm.cons _ List.perm_middle).trans (List.Perm.swap _ _ _)
  exact (List.nodup_cons.mp (hperm.nodup_iff.mp h.nodup)).1

theorem Stands.scribble {m : Map} (h : Stands S m) (hl : Shape S l) (hp : p ∉ S.header :: l) (j : Junk) :
    Stands (S.scribble p j) m := by
  obtain ⟨l', es, hl', hent, hm⟩ := h
  obtain rfl := hl.unique hl'
  refine ⟨l, es, hl.scribble hp j, ?_, hm⟩
  rw [← hent]
  refine List.map_congr_left (fun q hq => ?_)
  have hne : q ≠ p := fun he => hp (he ▸ List.mem_cons_of_mem _ hq)
  simp [entry, Skiplist.scribble, hne]

end Scribble

def Block.Below (o : Owner) : Block → Prop
  | .node p => p < o.list.next
  | .forward p => p < o.list.next
  | .text n => n < o.texts

/-- Every live block belongs to the header or hangs off a node of the list, and no block counts twice. -/
structure Books (o : Owner) (l : List ℕ) : Prop where
  shape : Shape o.list l
  live : o.live.Perm ([.forward o.list.header, .node o.list.header] ++ l.flatMap o.blocksAt)
  nodup : o.live.Nodup
  below : ∀ b ∈ o.live, b.Below o

namespace Books

variable {o : Owner} {l l' r : List ℕ} {a : CString} {x p : ℕ} {S : Skiplist}

theorem scribble (h : Books o l) (hp : p ∉ o.list.header :: l) (j : Junk) : Books (o.scribble p j) l := by
  refine ⟨h.shape.scribble hp j, ?_, h.nodup, ?_⟩
  · have hsame : l.flatMap (o.scribble p j).blocksAt = l.flatMap o.blocksAt := by
      refine List.flatMap_congr (fun q hq => ?_)
      have hne : q ≠ p := fun he => hp (he ▸ List.mem_cons_of_mem _ hq)
      simp [Owner.blocksAt, Owner.scribble, hne]
    rw [hsame]
    exact h.live
  · intro b hb
    have hlt := h.below b hb
    cases b <;> exact hlt

theorem next_fresh (h : Books o l) : o.list.next ∉ o.list.header :: l := fun hm => lt_irrefl _ (h.shape.bound _ hm)

theorem grown (h : Books o (l ++ r)) (hshape : Shape S (l ++ o.list.next :: r)) (hheader : S.header = o.list.header)
    (hnext : S.next = o.list.next + 1) : Books (o.grown S) (l ++ o.list.next :: r) := by
  have hself : (o.grown S).blocksAt o.list.next =
      [.text o.texts, .text (o.texts + 1), .forward o.list.next, .node o.list.next] := by
    simp [Owner.blocksAt, Owner.grown]
  have hother : ∀ xs : List ℕ, (∀ q ∈ xs, q ∈ l ++ r) → xs.flatMap (o.grown S).blocksAt = xs.flatMap o.blocksAt := by
    intro xs hxs
    refine List.flatMap_congr (fun q hq => ?_)
    have hne : q ≠ o.list.next := fun he => h.next_fresh (he ▸ List.mem_cons_of_mem _ (hxs q hq))
    simp [Owner.blocksAt, Owner.grown, hne]
  refine ⟨hshape, ?_, ?_, ?_⟩
  · refine (List.Perm.append_left _ h.live).trans ?_
    rw [show (o.grown S).list.header = o.list.header from hheader, List.flatMap_append, List.flatMap_append,
      List.flatMap_cons, hself, hother l (by simp +contextual), hother r (by simp +contextual), List.perm_iff_count]
    intro b
    simp only [List.count_append, List.count_cons, List.count_nil]
    omega
  · have hfresh : ∀ b ∈ [.text (o.texts + 1), .text o.texts, .forward o.list.next, .node o.list.next], b ∉ o.live := by
      intro b hb hl
      have hlt := h.below b hl
      simp only [List.mem_cons, List.not_mem_nil, or_false] at hb
      rcases hb with rfl | rfl | rfl | rfl <;> simp only [Block.Below] at hlt <;> omega
    exact List.nodup_append'.mpr ⟨by simp, h.nodup, hfresh⟩
  · intro b hb
    simp only [Owner.grown, List.mem_append, List.mem_cons, List.not_mem_nil, or_false] at hb
    rcases hb with (rfl | rfl | rfl | rfl) | hb
    · exact Nat.lt_succ_self _
    · exact Nat.lt_succ_of_lt (Nat.lt_succ_self _)
    · exact lt_of_lt_of_eq (Nat.lt_succ_self _) hnext.symm
    · exact lt_of_lt_of_eq (Nat.lt_succ_self _) hnext.symm
    · have hlt := h.below b hb
      have hle : o.list.next ≤ S.next := by omega
      cases b with
      | node q => exact lt_of_lt_of_le hlt hle
      | forward q => exact lt_of_lt_of_le hlt hle
      | text n => exact lt_of_lt_of_le hlt (Nat.le_add_right _ _)

/-- The four blocks of one node can be freed, and the others stay. -/
theorem release_node (h : Books o (l ++ x :: r)) :
    ∃ live, releaseAll (o.blocksAt x) o.live = some live ∧ live.Sublist o.live ∧
      live.Perm ([.forward o.list.header, .node o.list.header] ++ (l ++ r).flatMap o.blocksAt) := by
  have hlive : o.live.Perm (o.blocksAt x ++
      ([.forward o.list.header, .node o.list.header] ++ (l ++ r).flatMap o.blocksAt)) := by
    refine h.live.trans ?_
    rw [List.flatMap_append, List.flatMap_append, List.flatMap_cons, List.perm_iff_count]
    intro b
    simp only [List.count_append]
    omega
  obtain ⟨live, hrel, hleft⟩ := releaseAll_perm hlive
  exact ⟨live, hrel, releaseAll_sublist hrel, hleft⟩

theorem removed (h : Books o (l ++ x :: r)) (hshape : Shape S (l ++ r)) (hheader : S.header = o.list.header)
    (hnext : S.next = o.list.next) {live : List Block} (hsub : live.Sublist o.live)
    (hleft : live.Perm ([.forward o.list.header, .node o.list.header] ++ (l ++ r).flatMap o.blocksAt)) (junk : Junk) :
    Books ({ o with list := S, live := live }.scribble x junk) (l ++ r) := by
  have hbooks : Books { o with list := S, live := live } (l ++ r) := by
    refine ⟨hshape, ?_, h.nodup.sublist hsub, ?_⟩
    · rw [← hheader] at hleft
      exact hleft
    · intro b hb
      have hlt := h.below b (hsub.subset hb)
      cases b with
      | node q => exact lt_of_lt_of_eq hlt hnext.symm
      | forward q => exact lt_of_lt_of_eq hlt hnext.symm
      | text n => exact hlt
  exact hbooks.scribble (by rw [show S.header = o.list.header from hheader]; exact h.shape.not_mem_rest) junk

theorem revalued (h : Books o (l ++ x :: r)) (v : CString) :
    ∃ live, releaseAll [.text (o.valueAt x)] (.text o.texts :: o.live) = some live ∧
      Books ⟨o.list.setValue x (some v), o.keyAt, Function.update o.valueAt x o.texts, o.texts + 1, live⟩ (l ++ x :: r) := by
  have hnd := h.shape.nodup
  simp only [List.nodup_cons, List.nodup_append', List.disjoint_cons_right] at hnd
  have hlive : (Block.text o.texts :: o.live).Perm ([.text (o.valueAt x)] ++
      ([.forward o.list.header, .node o.list.header] ++ (l.flatMap o.blocksAt ++
        [.text (o.keyAt x), .text o.texts, .forward x, .node x] ++ r.flatMap o.blocksAt))) := by
    refine (List.Perm.cons _ h.live).trans ?_
    rw [List.flatMap_append, List.flatMap_cons, Owner.blocksAt, List.perm_iff_count]
    intro b
    simp only [List.count_append, List.count_cons, List.count_nil]
    omega
  obtain ⟨live, hrel, hleft⟩ := releaseAll_perm hlive
  have hsub := releaseAll_sublist hrel
  have hfresh : Block.text o.texts ∉ o.live := fun hb => lt_irrefl _ (h.below _ hb)
  have hs := h.shape
  refine ⟨live, hrel, ⟨hs.header_ne, hs.header_height, hs.nodup, hs.nonzero, hs.bound, hs.keyed, hs.sorted, hs.linked,
    hs.heights, hs.level_lt, hs.top⟩, ?_, (List.nodup_cons.mpr ⟨hfresh, h.nodup⟩).sublist hsub, ?_⟩
  · have hother : ∀ xs : List ℕ, x ∉ xs → xs.flatMap (Owner.blocksAt ⟨o.list.setValue x (some v), o.keyAt,
        Function.update o.valueAt x o.texts, o.texts + 1, live⟩) = xs.flatMap o.blocksAt := by
      intro xs hx
      refine List.flatMap_congr (fun q hq => ?_)
      have hne : q ≠ x := fun he => hx (he ▸ hq)
      simp [Owner.blocksAt, hne]
    refine hleft.trans ?_
    rw [List.flatMap_append, List.flatMap_cons, hother l hnd.2.2.2.1, hother r hnd.2.2.1.1]
    simp [Owner.blocksAt, setValue]
  · intro b hb
    rcases List.mem_cons.mp (hsub.subset hb) with rfl | hb
    · exact Nat.lt_succ_self _
    · have hlt := h.below b hb
      cases b with
      | node q => exact hlt
      | forward q => exact hlt
      | text n => exact Nat.lt_succ_of_lt hlt

end Books

def Accounts (o : Owner) (m : Map) : Prop := Stands o.list m ∧ ∃ l, Books o l

section Steps

variable {o : Owner} {m : Map}

theorem Accounts.refused (h : Accounts o m) (sys : Sys) (junk : Junk) :
    ∃ o', o.refused sys junk = some o' ∧ Accounts o' m := by
  obtain ⟨hm, l, hb⟩ := h
  have hacc : Accounts (o.scribble o.list.next junk) m :=
    ⟨hm.scribble hb.shape hb.next_fresh junk, l, hb.scribble hb.next_fresh junk⟩
  by_cases h0 : sys.alloc 0
  · refine ⟨_, ?_, hacc⟩
    by_cases h1 : sys.alloc 1
    · by_cases h2 : sys.alloc 2
      · simp [Owner.refused, h0, h1, h2, releaseAll, release]
      · simp [Owner.refused, h0, h1, h2, releaseAll, release]
    · simp [Owner.refused, h0, h1, releaseAll, release]
  · exact ⟨o, by simp [Owner.refused, h0], hm, l, hb⟩

theorem Accounts.set (h : Accounts o m) (k v : CString) (sys : Sys) (junk : Junk) :
    ∃ o', o.call (.set k v, sys, junk) = some (o', (account m (.set k v, sys)).2) ∧
      Accounts o' (account m (.set k v, sys)).1 := by
  have hsame := h
  obtain ⟨hm, l, hb⟩ := h
  rcases find_stands hm k hb.shape.level_lt with
    ⟨l1, l2, -, -, p, hcut, hgt, hf, -, -, -, -, hget⟩ | ⟨l1, x, -, -, w, -, -, hf, -, -, -, -, -, -, hget⟩
  · by_cases hall : sys.alloc 0 ∧ sys.alloc 1 ∧ sys.alloc 2 ∧ sys.alloc 3
    · have hspec : account m (.set k v, sys) = (m.insert k v, .code 0) := by simp [account, hget, hall]
      have hgrant := granted_four hall
      obtain ⟨S1, u, S2, hcreate, hraise, hlink, hshape, hheader, hnext, -, -⟩ :=
        hcut.linked_new hgt hgrant (randomLevel_lt sys.low) v
      obtain ⟨S', hset, hstands⟩ := set_stands hm hgrant k v
      obtain rfl : S2 = S' := by simpa [kvsSkiplistSet, hf, hcreate, hraise, hlink, hget] using hset
      obtain rfl := hb.shape.unique hcut.shape
      rw [hspec]
      rw [hget] at hstands
      exact ⟨o.grown S2, by simp [Owner.call, Owner.set, hf, hcreate, hraise, hlink, codeOf], hstands, _,
        hb.grown hshape hheader hnext⟩
    · have hspec : account m (.set k v, sys) = (m, .code (-2)) := by
        simp only [account, hget, Option.isSome_none, Bool.false_eq_true, if_false, if_neg hall]
      obtain ⟨o', href, hacc⟩ := hsame.refused sys junk
      rw [hspec]
      exact ⟨o', by simp [Owner.call, Owner.set, hf, createNode_refused hall, href, codeOf], hacc⟩
  · have hspec : account m (.set k v, sys) = (m, .code 1) := by simp [account, hget]
    rw [hspec]
    exact ⟨o, by simp [Owner.call, Owner.set, hf, codeOf], hsame⟩

theorem lower_congr {S S' : Skiplist} (hheader : S'.header = S.header) (hforward : S'.forward S.header = S.forward S.header)
    (hheight : S'.height S.header = S.height S.header) (i : ℕ) : S'.lower i = S.lower i := by
  induction i with
  | zero => rfl
  | succ i ih => simp only [lower, fwd, hheader, hforward, hheight, ih]

theorem Accounts.del (h : Accounts o m) (k : CString) (sys : Sys) (junk : Junk) :
    ∃ o', o.call (.del k, sys, junk) = some (o', (account m (.del k, sys)).2) ∧ Accounts o' (account m (.del k, sys)).1 := by
  have hsame := h
  obtain ⟨hm, l, hb⟩ := h
  rcases find_stands hm k (Nat.lt_succ_self o.list.level) with
    ⟨l1, -, -, -, p, -, -, hf, -, -, -, -, hget⟩ | ⟨l1, x, l2, -, w, -, hcut, hf, -, -, -, -, -, -, hget⟩
  · have hspec : account m (.del k, sys) = (m, .code 1) := by simp [account, FMap.step, FMap.Contract.plain, hget]
    rw [hspec]
    exact ⟨o, by simp [Owner.call, Owner.del, hf, codeOf], hsame⟩
  · have hspec : account m (.del k, sys) = (m.erase k, .code 0) := by simp [account, FMap.step, hget]
    obtain ⟨S1, level, hun, hnodes, hlow, hshape⟩ := hcut.unlinked
    obtain ⟨S', hdel, hstands⟩ := del_stands hm k
    obtain rfl : S1.setLevel level = S' := by simpa [kvsSkiplistDel, hf, hun, hlow, hget] using hdel
    obtain rfl := hb.shape.unique hcut.shape
    obtain ⟨live, hrel, hsub, hleft⟩ := hb.release_node
    have hbooks := hb.removed hshape hnodes.header hnodes.next hsub hleft junk
    have hout : x ∉ (S1.setLevel level).header :: (l1 ++ l2) := by
      rw [show (S1.setLevel level).header = o.list.header from hnodes.header]
      exact hb.shape.not_mem_rest
    have hne : S1.header ≠ x := fun he => hout (he ▸ List.mem_cons_self)
    have hforward : (S1.scribble x junk).forward S1.header = S1.forward S1.header := Function.update_of_ne hne _ _
    have hheight : (S1.scribble x junk).height S1.header = S1.height S1.header := Function.update_of_ne hne _ _
    have hlow' : (S1.scribble x junk).lower (S1.scribble x junk).level = some level := by
      have hheader : (S1.scribble x junk).header = S1.header := rfl
      rw [← hlow]
      exact lower_congr hheader hforward hheight S1.level
    rw [hspec]
    refine ⟨_, ?_, ?_, _, hbooks⟩
    · simp only [Owner.call, Owner.del, hf, Option.bind_eq_bind, Option.bind_some, hun, hrel, if_true, Owner.scribble,
        hlow']
      rfl
    · rw [hget] at hstands
      exact hstands.scribble hshape hout junk

theorem Accounts.mod (h : Accounts o m) (k v : CString) (sys : Sys) (junk : Junk) :
    ∃ o', o.call (.mod k v, sys, junk) = some (o', (account m (.mod k v, sys)).2) ∧
      Accounts o' (account m (.mod k v, sys)).1 := by
  have hsame := h
  obtain ⟨hm, l, hb⟩ := h
  rcases find_stands hm k (Nat.lt_succ_self o.list.level) with
    ⟨l1, -, -, -, p, -, -, hf, -, -, -, -, hget⟩ | ⟨l1, x, l2, -, w, -, hcut, hf, -, -, -, -, -, -, hget⟩
  · have hspec : account m (.mod k v, sys) = (m, .code 1) := by simp [account, hget]
    rw [hspec]
    exact ⟨o, by simp [Owner.call, Owner.mod, hf, codeOf], hsame⟩
  · by_cases h0 : sys.alloc 0
    · have hspec : account m (.mod k v, sys) = (m.insert k v, .code 0) := by simp [account, hget, h0]
      obtain ⟨S', hmod, hstands⟩ := mod_stands hm h0 k v
      obtain rfl : o.list.setValue x (some v) = S' := by simpa [kvsSkiplistMod, hf, h0, hget] using hmod
      obtain rfl := hb.shape.unique hcut.shape
      obtain ⟨live, hrel, hbooks⟩ := hb.revalued v
      rw [hspec]
      rw [hget] at hstands
      exact ⟨_, by simp [Owner.call, Owner.mod, hf, h0, hrel, codeOf], hstands, _, hbooks⟩
    · have hspec : account m (.mod k v, sys) = (m, .code (-2)) := by simp [account, hget, h0]
      rw [hspec]
      exact ⟨o, by simp [Owner.call, Owner.mod, hf, h0, codeOf], hsame⟩

theorem call_simulates :
    Machine.Simulates Owner.call (fun m c => account m (c.1, c.2.1)) Accounts (fun _ => True) := by
  rintro o m ⟨op, sys, junk⟩ h -
  cases op with
  | set k v => exact h.set k v sys junk
  | get k => exact ⟨o, by simp [Owner.call, account, FMap.step, get_stands h.1 k], h⟩
  | del k => exact h.del k sys junk
  | mod k v => exact h.mod k v sys junk
  | exist k => exact ⟨o, by simp [Owner.call, account, FMap.step, exist_stands h.1 k], h⟩

end Steps

theorem destroyLoop_frees {o : Owner} {l : List ℕ} {head n : ℕ} (junk : ℕ → Junk)
    (hchain : Heads (fun p => o.list.forward p 0) 0 head l) (hnd : (o.list.header :: l).Nodup)
    (hkeyed : ∀ p ∈ l, p ≠ 0 ∧ (o.list.key p).isSome)
    (hlive : o.live.Perm ([.forward o.list.header, .node o.list.header] ++ l.flatMap o.blocksAt)) (hn : l.length < n) :
    ∃ o', Owner.destroyLoop junk n head o = some o' ∧ o'.list.header = o.list.header ∧
      o'.live.Perm [.forward o.list.header, .node o.list.header] := by
  induction l generalizing o head n with
  | nil =>
    obtain ⟨n, rfl⟩ := Nat.exists_eq_succ_of_ne_zero (Nat.ne_of_gt hn)
    have hhead : head = 0 := hchain
    exact ⟨o, by simp [Owner.destroyLoop, hhead], rfl, by simpa using hlive⟩
  | cons p l ih =>
    obtain ⟨n, rfl⟩ := Nat.exists_eq_succ_of_ne_zero (Nat.ne_of_gt (Nat.zero_lt_of_lt hn))
    obtain ⟨rfl, hrest⟩ := hchain
    obtain ⟨hp0, hpk⟩ := hkeyed head List.mem_cons_self
    have hperm : o.live.Perm (o.blocksAt head ++ ([.forward o.list.header, .node o.list.header] ++ l.flatMap o.blocksAt)) := by
      refine hlive.trans ?_
      rw [List.flatMap_cons, List.perm_iff_count]
      intro b
      simp only [List.count_append]
      omega
    obtain ⟨live, hrel, hleft⟩ := releaseAll_perm hperm
    have hne : ∀ q ∈ l, q ≠ head := by
      rintro q hq rfl
      simp only [List.nodup_cons] at hnd
      exact hnd.2.1 hq
    have hsame : l.flatMap ({ o with live := live }.scribble head (junk n)).blocksAt = l.flatMap o.blocksAt := by
      refine List.flatMap_congr (fun q hq => ?_)
      simp [Owner.blocksAt, Owner.scribble, hne q hq]
    have hchain' : Heads (fun q => ({ o with live := live }.scribble head (junk n)).list.forward q 0) 0
        (o.list.forward head 0) l :=
      (Heads.linked_iff.mp hrest).congr (fun q hq => congrFun (Function.update_of_ne (hne q hq) _ _) 0)
    have hkey : ∀ q ∈ l, ({ o with live := live }.scribble head (junk n)).list.key q = o.list.key q := fun q hq =>
      Function.update_of_ne (hne q hq) _ _
    obtain ⟨o', hloop, hheader, hend⟩ := ih hchain' (hnd.sublist ((List.sublist_cons_self head l).cons_cons _))
      (fun q hq => ⟨(hkeyed q (List.mem_cons_of_mem _ hq)).1, hkey q hq ▸ (hkeyed q (List.mem_cons_of_mem _ hq)).2⟩)
      (by rw [hsame]; exact hleft) (Nat.lt_of_succ_lt_succ hn)
    refine ⟨o', ?_, hheader, hend⟩
    rw [Owner.destroyLoop, if_pos hp0]
    simp only [fwd, hp0, ne_eq, not_false_eq_true, Nat.zero_le, and_self, if_true, Option.bind_eq_bind, Option.bind_some,
      hpk, hrel]
    exact hloop

theorem Books.destroy {o : Owner} {l : List ℕ} (h : Books o l) (junk : ℕ → Junk) :
    o.kvsSkiplistDestroy junk = some [] := by
  have hlink := h.shape.linked 0 (Nat.zero_le _)
  rw [tower_zero] at hlink
  obtain ⟨o', hloop, hheader, hend⟩ := destroyLoop_frees junk (Heads.linked_iff.mp hlink) h.shape.nodup
    (fun p hp => ⟨h.shape.nonzero p hp, by rw [h.shape.keyed p hp]; rfl⟩) h.live h.shape.length_lt
  have hall : o'.live.Perm ([.forward o.list.header, .node o.list.header] ++ []) := by simpa using hend
  obtain ⟨left, hrel, hleft⟩ := releaseAll_perm hall
  have hfwd := h.shape.fwd_eq (Nat.zero_le maxLevel) (p := o.list.header) List.mem_cons_self
  rw [Owner.kvsSkiplistDestroy, hfwd]
  simp only [Option.bind_eq_bind, Option.bind_some, hloop, hheader, hrel, List.perm_nil.mp hleft]

theorem Stands.size_eq {S : Skiplist} {m : Map} {l : List ℕ} (h : Stands S m) (hl : Shape S l) : m.size = l.length := by
  obtain ⟨l', es, hl', hent, rfl⟩ := h
  obtain rfl := hl.unique hl'
  have hsorted : (FMap.keys es).Pairwise (· < ·) := by
    rw [← keyOf_both hent, List.pairwise_map]
    exact hl.sorted
  rw [FMap.ofList_size es (hsorted.imp (fun hlt => hlt.ne))]
  simpa using (congrArg List.length hent).symm

theorem Books.live_length {o : Owner} {m : Map} {l : List ℕ} (h : Books o l) (hm : Stands o.list m) :
    o.live.length = 2 + 4 * m.size := by
  have hfour : (l.flatMap o.blocksAt).length = 4 * l.length := by
    rw [List.length_flatMap]
    simp [Owner.blocksAt, mul_comm]
  rw [h.live.length_eq, List.length_append, hfour, hm.size_eq h.shape]
  rfl

theorem create_accounts {S : Skiplist} (hn : 0 < S.next) {sys : Sys} (hsys : sys.alloc 0 = true ∧ sys.alloc 1 = true) :
    ∃ o, Owner.create S sys = some o ∧ Accounts o .empty := by
  obtain ⟨S', hc, hshape, hlt⟩ := create_shape S hsys.1 hsys.2 hn
  have hstands : Stands S' FMap.empty := ⟨[], [], hshape, rfl, FMap.ofList_nil.symm⟩
  have hbooks : Books ⟨S', fun _ => 0, fun _ => 0, 0, [.forward S'.header, .node S'.header]⟩ [] := by
    refine ⟨hshape, by simp, by simp, ?_⟩
    intro b hb
    simp only [List.mem_cons, List.not_mem_nil, or_false] at hb
    rcases hb with rfl | rfl <;> exact hlt
  refine ⟨_, ?_, hstands, [], hbooks⟩
  rw [Owner.create, hc]
  rfl

/-- For every outcome of every kvs_malloc and whatever is found in freed memory: each call is answered, as the engine
answers it and as the map does, no block is freed that is not allocated, four blocks are held for each key besides the
two of the header, and kvs_skiplist_destroy leaves none. -/
theorem skiplist_blocks_are_accounted (S : Skiplist) (hn : 0 < S.next) (sys : Sys)
    (hsys : sys.alloc 0 = true ∧ sys.alloc 1 = true) (cs : List (Op × Sys × Junk)) (junk : ℕ → Junk) :
    ∃ o o' S' answers m, Owner.create S sys = some o ∧
      Machine.track account FMap.empty (cs.map (fun c => (c.1, c.2.1))) = (m, answers) ∧
      engine.run o.list (cs.map (fun c => (c.1, c.2.1))) = some (S', answers) ∧
      o.run cs = some (o', answers) ∧ o'.live.Nodup ∧ o'.live.length = 2 + 4 * m.size ∧
      o'.kvsSkiplistDestroy junk = some [] := by
  obtain ⟨o, hcreate, hacc⟩ := create_accounts hn hsys
  obtain ⟨o', hrun, hstands', l, hb⟩ := call_simulates.run cs o FMap.empty hacc (fun _ _ => trivial)
  obtain ⟨S', hengine, -⟩ := engine_simulates.run (cs.map (fun c => (c.1, c.2.1))) o.list FMap.empty hacc.1
    (fun _ _ => trivial)
  rw [← Machine.track_map account (fun c : Op × Sys × Junk => (c.1, c.2.1))] at hrun hstands'
  exact ⟨o, o', S', _, _, hcreate, rfl, hengine, hrun, hb.nodup, hb.live_length hstands', hb.destroy junk⟩

def Junk.zero : Junk := ⟨fun _ => 0, 0, none, none, 0, 0⟩

/-- The second LSET finds no memory for the value, after its node, its links and its key. -/
def shortOfMemory : List (Op × Sys × Junk) :=
  [(.set (.lit "a") (.lit "1"), .granted, .zero), (.set (.lit "b") (.lit "2"), ⟨fun i => i < 3, fun _ => true⟩, .zero),
    (.mod (.lit "a") (.lit "3"), .granted, .zero), (.set (.lit "c") (.lit "4"), .granted, .zero),
    (.del (.lit "a"), .granted, .zero)]

theorem skiplist_blocks_are_accounted_example :
    ∃ o o', Owner.create blank .granted = some o ∧
      o.run shortOfMemory = some (o', [.code 0, .code (-2), .code 0, .code 0, .code 0]) ∧ o'.live.length = 6 ∧
      o'.kvsSkiplistDestroy (fun _ => .zero) = some [] := by
  obtain ⟨o, o', S', answers, m, hc, htrack, -, hrun, -, hlen, hd⟩ :=
    skiplist_blocks_are_accounted blank Nat.one_pos .granted ⟨rfl, rfl⟩ shortOfMemory (fun _ => .zero)
  have hm : m.size = 1 ∧ answers = [.code 0, .code (-2), .code 0, .code 0, .code 0] := by
    have hval : (Machine.track account FMap.empty (shortOfMemory.map (fun c => (c.1, c.2.1)))).1.size = 1 ∧
        (Machine.track account FMap.empty (shortOfMemory.map (fun c => (c.1, c.2.1)))).2 =
          [.code 0, .code (-2), .code 0, .code 0, .code 0] := by decide +kernel
    rwa [htrack] at hval
  rw [hm.2] at hrun
  exact ⟨o, o', hc, hrun, by rw [hlen, hm.1], hd⟩

end Lidis.Skiplist
