import Lidis.MempoolMemory

namespace Lidis.Mempool

open ByteMemory DoublyLinked

def Slab.list (slab : Slab) : SlabList :=
  if slab.freeBlocks = 0 then .fullSlabs
  else if slab.freeBlocks = slab.totalBlocks then .emptySlabs
  else .partialSlabs

def Heap.heads (h : Heap) (k : ℕ × SlabList) : ℕ := (h.classes k.1).heads k.2

theorem heads_setHead (h : Heap) (c : ℕ) (w : SlabList) (a : ℕ) :
    (h.setHead c w a).heads = Function.update h.heads (c, w) a := by
  funext ⟨d, v⟩
  rcases eq_or_ne d c with rfl | hd
  · rcases eq_or_ne v w with rfl | hv
    · simp [Heap.heads, Heap.setHead, Heap.setPool]
    · have hne : (d, v) ≠ (d, w) := by simp [hv]
      simp [Heap.heads, Heap.setHead, Heap.setPool, hv]
  · have hne : (d, v) ≠ (c, w) := by simp [hd]
    simp [Heap.heads, Heap.setHead, Heap.setPool, hd]

structure Relinked (h h' : Heap) : Prop where
  slabs : h'.slabs = h.slabs
  mapped : h'.mapped = h.mapped
  bytes : h'.bytes = h.bytes
  blockSize : ∀ c, (h'.classes c).blockSize = (h.classes c).blockSize

theorem Relinked.trans {h h' h'' : Heap} (R : Relinked h h') (R' : Relinked h' h'') : Relinked h h'' :=
  ⟨R'.slabs.trans R.slabs, R'.mapped.trans R.mapped, R'.bytes.trans R.bytes,
    fun c => (R'.blockSize c).trans (R.blockSize c)⟩

theorem Relinked.carved {h h' : Heap} {live : List Block} {cls : ℕ → Option ℕ} (R : Relinked h h')
    (C : Carved h live cls) : Carved h' live cls := by
  apply C.outside (a := 0) (n := 0) _ (fun x k _ => .inl (by omega)) R.slabs R.mapped
  rw [R.bytes]
  exact SameOutside.refl h.bytes 0 0

def SameCounts (h h' : Heap) : Prop :=
  ∀ c, (h'.classes c).emptySlabCount = (h.classes c).emptySlabCount

theorem setHead_relinked (h : Heap) (links : Links ℕ) (c : ℕ) (w : SlabList) (a : ℕ) :
    Relinked h (({ h with links } : Heap).setHead c w a) ∧
      SameCounts h (({ h with links } : Heap).setHead c w a) := by
  refine ⟨⟨rfl, rfl, rfl, ?_⟩, ?_⟩
  all_goals
    intro d
    rcases eq_or_ne d c with rfl | hd
    · simp [Heap.setHead, Heap.setPool]
    · simp [Heap.setHead, Heap.setPool, hd]

section Macros

variable {h : Heap} {lists : ℕ × SlabList → List ℕ} {c s : ℕ} {w w' : SlabList}

theorem listInsert_spec (H : Lists h.links 0 h.heads lists) (hall : ∀ k, ∀ x ∈ lists k, (h.slabs x).isSome)
    (hs : (h.slabs s).isSome) (hpos : s ≠ 0) (hnot : ∀ k, s ∉ lists k) (c : ℕ) (w : SlabList) :
    ∃ h', h.listInsert c w s = some h' ∧ Relinked h h' ∧ SameCounts h h' ∧
      Lists h'.links 0 h'.heads (Function.update lists (c, w) (s :: lists (c, w))) := by
  have hhead : h.nullOrSlab ((h.classes c).heads w) := by
    rw [Heap.nullOrSlab, Bool.or_eq_true, beq_iff_eq]
    by_cases h0 : (h.classes c).heads w = 0
    · exact .inl h0
    · exact .inr (hall (c, w) _ (H.head_mem h0))
  refine ⟨_, by rw [Heap.listInsert, hhead, hs]; rfl, (setHead_relinked ..).1, (setHead_relinked ..).2, ?_⟩
  rw [heads_setHead]
  exact H.insert hnot hpos (c, w)

theorem listRemove_spec (H : Lists h.links 0 h.heads lists) (hall : ∀ k, ∀ x ∈ lists k, (h.slabs x).isSome)
    (hs : s ∈ lists (c, w)) :
    ∃ h', h.listRemove c w s = some h' ∧ Relinked h h' ∧ SameCounts h h' ∧
      Lists h'.links 0 h'.heads (Function.update lists (c, w) ((lists (c, w)).erase s)) := by
  have hnull : ∀ x, x = 0 ∨ x ∈ lists (c, w) → h.nullOrSlab x := by
    intro x hx
    rw [Heap.nullOrSlab, Bool.or_eq_true, beq_iff_eq]
    exact hx.imp id (hall (c, w) x)
  have e : h.listRemove c w s = some (({ h with links := h.links.remove 0 s } : Heap).setHead c w
      (h.links.headAfter 0 (h.heads (c, w)) s)) := by
    rw [Heap.listRemove, hall _ s hs, hnull _ (H.next_mem hs), hnull _ (H.prev_mem hs)]
    rfl
  refine ⟨_, e, (setHead_relinked ..).1, (setHead_relinked ..).2, ?_⟩
  rw [heads_setHead]
  exact H.remove hs

end Macros

def moved (lists : ℕ × SlabList → List ℕ) (c : ℕ) (w w' : SlabList) (s : ℕ) : ℕ × SlabList → List ℕ :=
  Function.update (Function.update lists (c, w) ((lists (c, w)).erase s)) (c, w') (s :: lists (c, w'))

theorem mem_moved {l : Links ℕ} {heads : ℕ × SlabList → ℕ} {lists : ℕ × SlabList → List ℕ} {c s t : ℕ}
    {w w' : SlabList} (H : Lists l 0 heads lists) (hs : s ∈ lists (c, w)) (hw : w ≠ w') (k : ℕ × SlabList) :
    t ∈ moved lists c w w' s k ↔ t = s ∧ k = (c, w') ∨ t ≠ s ∧ t ∈ lists k := by
  have hne : (c, w') ≠ (c, w) := by simp [hw.symm]
  rw [moved]
  rcases eq_or_ne k (c, w') with rfl | hk
  · have hold : t = s → t ∉ lists (c, w') := fun he ht => hne (H.disjoint ht (he ▸ hs))
    rw [Function.update_self, List.mem_cons]
    tauto
  · rw [Function.update_of_ne hk, H.mem_remove_iff hs]
    simp [hk]

/-- The pools hold together, the list of the slab `x` apart. -/
structure Inv (h : Heap) (live : List Block) (cls : ℕ → Option ℕ) (lists : ℕ × SlabList → List ℕ) (x : ℕ) :
    Prop where
  carved : Carved h live cls
  linked : Lists h.links 0 h.heads lists
  member : ∀ {s c}, cls s = some c ↔ ∃ w, s ∈ lists (c, w)
  status : ∀ {c w s slab}, s ∈ lists (c, w) → h.slabs s = some slab → s ≠ x → w = slab.list
  blockSize : ∀ c, (h.classes c).blockSize = sizeClass c

namespace Inv

variable {h h' : Heap} {live : List Block} {cls : ℕ → Option ℕ} {lists : ℕ × SlabList → List ℕ} {s c x : ℕ}
  {w w' : SlabList} {slab : Slab}

theorem isSome (I : Inv h live cls lists x) (k : ℕ × SlabList) (s : ℕ) (hs : s ∈ lists k) : (h.slabs s).isSome := by
  obtain ⟨c, w⟩ := k
  obtain ⟨-, -, -, slab, -, hslab, -⟩ := I.carved.slab (I.member.mpr ⟨w, hs⟩)
  rw [hslab]
  rfl

theorem exempt (I : Inv h live cls lists 0) (x : ℕ) : Inv h live cls lists x := by
  refine { I with member := I.member, status := ?_ }
  intro c w s slab hs hslab _
  apply I.status hs hslab
  rintro rfl
  exact I.linked.null_notMem (c, w) hs

theorem settle (I : Inv h live cls lists s) (hs : s ∈ lists (c, w)) (hslab : h.slabs s = some slab)
    (hw : w = slab.list) : Inv h live cls lists 0 := by
  refine { I with member := I.member, status := ?_ }
  intro d v t slab' ht hslab' _
  rcases eq_or_ne t s with rfl | hts
  · obtain ⟨rfl, rfl⟩ := Prod.mk.inj (I.linked.disjoint ht hs)
    obtain rfl := Option.some.inj (hslab'.symm.trans hslab)
    exact hw
  · exact I.status ht hslab' hts

theorem relink (I : Inv h live cls lists x) (R : Relinked h h') {lists' : ℕ × SlabList → List ℕ}
    (hlinked : Lists h'.links 0 h'.heads lists') (hmember : ∀ {s c}, cls s = some c ↔ ∃ w, s ∈ lists' (c, w))
    (hstatus : ∀ {c w s}, s ∈ lists' (c, w) → s ≠ x → s ∈ lists (c, w)) : Inv h' live cls lists' x := by
  refine ⟨R.carved I.carved, hlinked, hmember, ?_, fun c => (R.blockSize c).trans (I.blockSize c)⟩
  intro c w s slab hs hslab hsx
  rw [R.slabs] at hslab
  exact I.status (hstatus hs hsx) hslab hsx

theorem move (I : Inv h live cls lists s) (hs : s ∈ lists (c, w)) (hw : w ≠ w') :
    ∃ h₁ h₂, h.listRemove c w s = some h₁ ∧ h₁.listInsert c w' s = some h₂ ∧ Relinked h h₂ ∧ SameCounts h h₂ ∧
      Inv h₂ live cls (moved lists c w w' s) s := by
  have hsome : (h.slabs s).isSome := I.isSome _ s hs
  have hpos : s ≠ 0 := fun he => I.linked.null_notMem (c, w) (he ▸ hs)
  obtain ⟨h₁, e₁, R₁, N₁, L₁⟩ := listRemove_spec I.linked I.isSome hs
  have hall : ∀ k, ∀ x ∈ Function.update lists (c, w) ((lists (c, w)).erase s) k, (h₁.slabs x).isSome := by
    intro k x hx
    rw [R₁.slabs]
    exact I.isSome k x ((I.linked.mem_remove_iff hs k).mp hx).2
  have hnot : ∀ k, s ∉ Function.update lists (c, w) ((lists (c, w)).erase s) k :=
    fun k hk => ((I.linked.mem_remove_iff hs k).mp hk).1 rfl
  obtain ⟨h₂, e₂, R₂, N₂, L₂⟩ := listInsert_spec L₁ hall (R₁.slabs ▸ hsome) hpos hnot c w'
  have hne : (c, w') ≠ (c, w) := by simp [hw.symm]
  rw [Function.update_of_ne hne] at L₂
  refine ⟨h₁, h₂, e₁, e₂, R₁.trans R₂, fun d => (N₂ d).trans (N₁ d), I.relink (R₁.trans R₂) L₂ ?_ ?_⟩
  · intro t d
    change _ ↔ ∃ v, t ∈ moved lists c w w' s (d, v)
    simp only [mem_moved I.linked hs hw]
    rcases eq_or_ne t s with rfl | hts
    · have hclass := I.member.mpr ⟨w, hs⟩
      simp only [true_and, ne_eq, not_true_eq_false, false_and, or_false, Prod.mk.injEq, exists_and_left,
        exists_eq, and_true]
      constructor
      · exact fun hd => Option.some.inj (hd.symm.trans hclass)
      · rintro rfl
        exact hclass
    · simpa [hts] using I.member
  · intro d v t ht hts
    rcases (mem_moved I.linked hs hw (d, v)).mp ht with ⟨he, -⟩ | ⟨-, ht⟩
    · exact absurd he hts
    · exact ht

end Inv

end Lidis.Mempool
