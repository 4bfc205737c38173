import Lidis.MempoolRuns

namespace Lidis.Mempool

open ByteMemory DoublyLinked

/-- `malloc` answers with addresses that suit any type, `mmap` with the starts of pages. -/
structure System.Aligned (sys : System) : Prop where
  malloc : ∀ n a, sys.malloc n = some a → a % 8 = 0
  mmap : ∀ n a, sys.mmap n = some a → a % 4096 = 0

def ArenaOp.Aligned : ArenaOp → Prop
  | .malloc sys _ => sys.Aligned
  | .realloc sys _ _ => sys.Aligned
  | .free _ => True
  | .write _ _ => True

def Heap.Paged (h : Heap) : Prop := ∀ x k, h.mapped x = some k → x % 8 = 0

namespace Heap.Paged

variable {h h' : Heap} {sys : System} {c : ℕ}

theorem congr (H : h.Paged) (e : h'.mapped = h.mapped) : h'.Paged := by
  intro x k hx
  rw [e] at hx
  exact H x k hx

theorem update (H : h.Paged) {mem n : ℕ} (e : h'.mapped = Function.update h.mapped mem (some n)) (hmem : mem % 8 = 0) :
    h'.Paged := by
  intro x k hx
  rcases eq_or_ne x mem with rfl | hne
  · exact hmem
  · rw [e, Function.update_of_ne hne] at hx
    exact H x k hx

theorem addPoolWithHeader (H : h.Paged) (hsys : sys.Aligned) {ret : ℤ}
    (e : addPoolWithHeader h sys c = some (h', ret)) : h'.Paged := by
  rw [Mempool.addPoolWithHeader] at e
  split at e
  · cases e
    exact H
  · cases e
    exact H
  · rename_i s mem hs hmem
    obtain ⟨h₁, e₁, e₂⟩ := Option.bind_eq_some_iff.mp e
    cases e₂
    have hpage := hsys.mmap _ _ hmem
    exact H.update (insertEmpty_relinked e₁).mapped (by omega)

theorem addPoolWithoutHeader (H : h.Paged) {ret : ℤ} (e : addPoolWithoutHeader h sys c = some (h', ret)) : h'.Paged := by
  rw [Mempool.addPoolWithoutHeader] at e
  split at e
  · cases e
    exact H
  · rename_i mem hmem
    obtain ⟨h₁, e₁, e₂⟩ := Option.bind_eq_some_iff.mp e
    cases e₂
    obtain ⟨raw, -, hraw⟩ := Option.bind_eq_some_iff.mp hmem
    have hmod : mem % 8 = 0 := by
      cases hraw
      simp only [slabSizeAlignment]
      omega
    exact H.update (insertEmpty_relinked e₁).mapped hmod

theorem slabMalloc (H : h.Paged) (hsys : sys.Aligned) {s : ℕ} (e : slabMalloc h sys c = some (h', s)) : h'.Paged := by
  rw [Mempool.slabMalloc] at e
  split at e
  · cases e
    exact H
  · split at e
    · exact H.congr (takeEmpty_relinked e).mapped
    · obtain ⟨⟨h₁, ret⟩, e₁, e₂⟩ := Option.bind_eq_some_iff.mp e
      have H₁ : h₁.Paged := by
        rw [addPool] at e₁
        split at e₁
        · obtain ⟨⟨h₂, ret'⟩, e₃, e₄⟩ := Option.bind_eq_some_iff.mp e₁
          cases e₄
          exact H.addPoolWithoutHeader e₃
        · obtain ⟨⟨h₂, ret'⟩, e₃, e₄⟩ := Option.bind_eq_some_iff.mp e₁
          cases e₄
          exact H.addPoolWithHeader hsys e₃
      simp only at e₂
      split at e₂
      · cases e₂
        exact H₁
      · exact H₁.congr (takeEmpty_relinked e₂).mapped

theorem of_pops (H : h.Paged) (hsys : sys.Aligned) {size : ℕ} {headed : Bool} {r : Option Block}
    (hpops : Pops sys h h' size headed r) : h'.Paged := by
  rcases hpops with ⟨rfl, -⟩ | ⟨c, h₁, s, -, e₁, ⟨rfl, -⟩ | ⟨slab, -, -, R⟩⟩
  · exact H
  · exact H.slabMalloc hsys e₁
  · exact (H.slabMalloc hsys e₁).congr R.mapped

theorem mpMalloc (H : h.Paged) (hsys : sys.Aligned) {size : ℕ} {r : Allocation}
    (e : mpMalloc h sys size = some (h', r)) : h'.Paged := by
  simp only [Mempool.mpMalloc] at e
  split at e
  · cases e
    exact H
  · split at e
    · obtain ⟨⟨h₁, b⟩, e₁, e₂⟩ := Option.bind_eq_some_iff.mp e
      cases e₂
      exact H.of_pops hsys (pops_blockWithoutHeader e₁)
    · split at e
      · rw [mallocLarge] at e
        split at e
        · cases e
          exact H
        · cases e
          exact H
      · obtain ⟨⟨h₁, b⟩, e₁, e₂⟩ := Option.bind_eq_some_iff.mp e
        cases e₂
        exact H.of_pops hsys (pops_blockWithHeader e₁)

theorem of_released {a n : ℕ} (H : h.Paged) (R : Released h h' a n) : h'.Paged :=
  fun x k hx => H x k (R.mapped x k hx)

theorem mpFree (H : h.Paged) {ptr : ℕ} (e : mpFree h ptr = some h') : h'.Paged := by
  rw [Mempool.mpFree] at e
  split at e
  · cases e
    exact H
  · obtain ⟨br, -, e₁⟩ := Option.bind_eq_some_iff.mp e
    cases br with
    | large =>
      cases e₁
      exact H
    | withHeader => exact H.of_released (Released.of_freeBlock (b := ⟨0, 0, ptr - sizeofHeader, true⟩) e₁)
    | withoutHeader s => exact H.of_released (Released.of_freeBlock (b := ⟨0, s, ptr, false⟩) e₁)
    | rejected =>
      cases e₁
      exact H

theorem regrow (H : h.Paged) (hsys : sys.Aligned) {ptr size old : ℕ} {r : Reallocation}
    (e : regrow h sys ptr size old = some (h', r)) : h'.Paged := by
  rw [Mempool.regrow] at e
  split at e
  · cases e
    exact H
  · obtain ⟨⟨h₁, a⟩, e₁, e₂⟩ := Option.bind_eq_some_iff.mp e
    have H₁ := H.mpMalloc hsys e₁
    simp only at e₂
    split at e₂
    · cases e₂
      exact H₁
    · obtain ⟨h₂, e₃, e₄⟩ := Option.bind_eq_some_iff.mp e₂
      cases e₄
      have H₂ : Heap.Paged { h₁ with bytes := copy h₁.bytes a.ptr ptr old } := H₁.congr rfl
      exact H₂.mpFree e₃

theorem mpRealloc (H : h.Paged) (hsys : sys.Aligned) {ptr size : ℕ} {r : Reallocation}
    (e : mpRealloc h sys ptr size = some (h', r)) : h'.Paged := by
  rw [Mempool.mpRealloc] at e
  split at e
  · obtain ⟨⟨h₁, a⟩, e₁, e₂⟩ := Option.bind_eq_some_iff.mp e
    cases e₂
    exact H.mpMalloc hsys e₁
  · split at e
    · obtain ⟨h₁, e₁, e₂⟩ := Option.bind_eq_some_iff.mp e
      cases e₂
      exact H.mpFree e₁
    · obtain ⟨br, -, e₁⟩ := Option.bind_eq_some_iff.mp e
      cases br with
      | large => exact H.regrow hsys e₁
      | withHeader => exact H.regrow hsys e₁
      | withoutHeader s =>
        obtain ⟨slab, -, e₂⟩ := Option.bind_eq_some_iff.mp e₁
        exact H.regrow hsys e₂
      | rejected =>
        cases e₁
        exact H

end Heap.Paged

namespace Arena

theorem step_paged {A A' : Arena} {op : ArenaOp} (H : A.heap.Paged) (hop : op.Aligned) (e : A.step op = some A') :
    A'.heap.Paged := by
  cases op with
  | malloc sys size =>
    obtain ⟨⟨h, r⟩, e₁, e₂⟩ := Option.bind_eq_some_iff.mp e
    cases e₂
    rw [add_heap]
    exact H.mpMalloc hop e₁
  | free p =>
    obtain ⟨h, e₁, e₂⟩ := Option.bind_eq_some_iff.mp e
    cases e₂
    rw [drop_heap]
    exact H.mpFree e₁
  | realloc sys p size =>
    obtain ⟨⟨h, r⟩, e₁, e₂⟩ := Option.bind_eq_some_iff.mp e
    have H₁ := H.mpRealloc hop e₁
    cases r with
    | null =>
      cases e₂
      split
      · rw [drop_heap]
        exact H₁
      · exact H₁
    | inPlace =>
      cases e₂
      exact H₁
    | moved r n =>
      cases e₂
      rw [drop_heap, add_heap]
      exact H₁
  | write a v =>
    cases e
    exact H.congr rfl

theorem run_paged {A A' : Arena} {ops : List ArenaOp} (H : A.heap.Paged) (hops : ∀ op ∈ ops, op.Aligned)
    (e : Arena.run ops A = some A') : A'.heap.Paged := by
  induction ops generalizing A with
  | nil =>
    cases e
    exact H
  | cons op ops ih =>
    obtain ⟨A₁, e₁, e₂⟩ := Option.bind_eq_some_iff.mp e
    exact ih (step_paged H (hops op List.mem_cons_self) e₁) (fun q hq => hops q (List.mem_cons_of_mem op hq)) e₂

end Arena

/-- No slab of the class has a block to give and the system has no memory for another one. -/
def Starved (h : Heap) (sys : System) (c : ℕ) : Prop :=
  (h.classes c).heads .partialSlabs = 0 ∧ (h.classes c).heads .emptySlabs = 0 ∧
    sys.mmap (slabSizeAlignment * 2) = none

/-- The class a size is given once the sum with the header, or the rounding, has passed `SIZE_MAX`. -/
def wrappedClass (size : ℕ) : ℕ :=
  if sizeT ≤ size + 15 ∧ size + 8 ≤ sizeT then 1 else 0

theorem wrappedClass_lt (size : ℕ) : wrappedClass size < classCount := by
  rw [wrappedClass]
  split <;> decide

theorem wrappedClass_sizeClass (size : ℕ) : sizeClass (wrappedClass size) ≤ 16 := by
  rw [wrappedClass]
  split <;> decide

theorem wrappedClass_not_headed (size : ℕ) : ¬ Headed (wrappedClass size) := by
  have hle := wrappedClass_sizeClass size
  simp only [Headed, alignmentThreshold]
  omega

theorem getClassId_wrapped_small {size : ℕ} (hlt : size < sizeT) (hwrap : sizeT < size + 8) :
    getClassId (alignUp size) = some (wrappedClass size) := by
  have hzero : alignUp size = 0 := by
    simp only [alignUp, sizeT] at *
    omega
  have hclass : wrappedClass size = 0 := if_neg (by omega)
  rw [hzero, hclass]
  decide

theorem getClassId_wrapped_headed {size : ℕ} (hwrap : Sound.Wraps size) :
    getClassId (alignUp ((size + sizeofHeader) % sizeT)) = some (wrappedClass size) := by
  obtain ⟨hlow, hhigh⟩ := hwrap
  by_cases hone : sizeT ≤ size + 15
  · have hsum : alignUp ((size + sizeofHeader) % sizeT) = 16 := by
      simp only [alignUp, sizeofHeader, sizeT] at *
      omega
    have hclass : wrappedClass size = 1 := by
      apply if_pos
      simp only [sizeT] at *
      omega
    rw [hsum, hclass]
    decide
  · have hsum : alignUp ((size + sizeofHeader) % sizeT) = 0 ∨ alignUp ((size + sizeofHeader) % sizeT) = 8 := by
      simp only [alignUp, sizeofHeader, sizeT] at *
      omega
    have hclass : wrappedClass size = 0 := if_neg (fun h => hone h.1)
    rw [hclass]
    rcases hsum with h | h
    · rw [h]
      decide
    · rw [h]
      decide

theorem fillSlab_bytes (h : Heap) (bytes : ℕ → UInt8) (c s n : ℕ) :
    Heap.fillSlab { h with bytes := bytes } c s n = (h.fillSlab c s n).map (fun h' => { h' with bytes := bytes }) := by
  have hinsert : ∀ (k : Heap) (w : SlabList), Heap.listInsert { k with bytes := bytes } c w s =
      (k.listInsert c w s).map (fun h' => { h' with bytes := bytes }) := by
    intro k w
    by_cases hk : (k.nullOrSlab ((k.classes c).heads w) && (k.slabs s).isSome) = true
    · rw [show k.listInsert c w s = some _ from if_pos hk]
      exact if_pos hk
    · rw [show k.listInsert c w s = none from if_neg hk]
      exact if_neg hk
  have hremove : ∀ (k : Heap) (w : SlabList), Heap.listRemove { k with bytes := bytes } c w s =
      (k.listRemove c w s).map (fun h' => { h' with bytes := bytes }) := by
    intro k w
    by_cases hk : ((k.slabs s).isSome && k.nullOrSlab (k.links.next s) && k.nullOrSlab (k.links.prev s)) = true
    · rw [show k.listRemove c w s = some _ from if_pos hk]
      exact if_pos hk
    · rw [show k.listRemove c w s = none from if_neg hk]
      exact if_neg hk
  rw [Heap.fillSlab, Heap.fillSlab]
  split
  · rw [hremove]
    cases h.listRemove c .partialSlabs s with
    | none => rfl
    | some k => exact hinsert k .fullSlabs
  · rfl

namespace Sound

variable {h : Heap} {live : List Block} {cls : ℕ → Option ℕ} {lists : ℕ × SlabList → List ℕ} {sys : System} {c : ℕ}

theorem addPool_starved (S : Sound h live cls lists 0) (hc : c < classCount) (hsys : sys.Fresh h) (hh : ¬ Headed c)
    (hempty : (h.classes c).heads .emptySlabs = 0) :
    ∃ h' ret, Mempool.addPool h sys c = some (h', ret) ∧
      (ret ≠ 0 ∧ sys.mmap (slabSizeAlignment * 2) = none ∨
        ret = 0 ∧ sys.mmap (slabSizeAlignment * 2) ≠ none ∧ (h'.classes c).heads .emptySlabs ≠ 0 ∧
          ∃ cls' lists', Sound h' live cls' lists' 0) := by
  obtain ⟨h', ret, e, hext⟩ := S.addPool hc hsys (S.inv.linked.head_eq_null_iff.mp hempty)
  refine ⟨h', ret, e, ?_⟩
  rw [Mempool.addPool, if_pos (Nat.not_lt.mp hh)] at e
  obtain ⟨⟨h₁, ret₁⟩, e₁, e₂⟩ := Option.bind_eq_some_iff.mp e
  rw [Mempool.addPoolWithoutHeader, alignmentToSlabSize] at e₁
  cases hm : sys.mmap (slabSizeAlignment * 2) with
  | none =>
    rw [hm] at e₁
    cases e₁
    cases e₂
    exact .inl ⟨by simp, rfl⟩
  | some raw =>
    right
    rw [hm] at e₁
    obtain ⟨h₂, -, e₃⟩ := Option.bind_eq_some_iff.mp e₁
    cases e₃
    cases e₂
    rcases hext with ⟨hret, -⟩ | ⟨hret, hhead, S'⟩
    · simp at hret
    · exact ⟨hret, by simp, hhead, S'⟩

theorem slabMalloc_starved (S : Sound h live cls lists 0) (hc : c < classCount) (hsys : sys.Fresh h)
    (hh : ¬ Headed c) :
    ∃ h' s, Mempool.slabMalloc h sys c = some (h', s) ∧
      (s = 0 ∧ Starved h sys c ∨ s ≠ 0 ∧ ¬ Starved h sys c ∧ Usable h' live c s) := by
  obtain ⟨h', s, e, hs⟩ := S.slabMalloc hc hsys
  refine ⟨h', s, e, ?_⟩
  rw [Mempool.slabMalloc] at e
  by_cases hpart : (h.classes c).heads .partialSlabs = 0
  · rw [if_neg (not_not.mpr hpart)] at e
    by_cases hempty : (h.classes c).heads .emptySlabs = 0
    · rw [if_neg (not_not.mpr hempty)] at e
      obtain ⟨h₁, ret, e₁, hext⟩ := S.addPool_starved hc hsys hh hempty
      rw [e₁] at e
      rcases hext with ⟨hret, hm⟩ | ⟨rfl, hm, hhead, cls', lists', S'⟩
      · simp only [bind, Option.bind, if_pos hret, pure] at e
        cases e
        exact .inl ⟨rfl, hpart, hempty, hm⟩
      · obtain ⟨h₂, t, e₂, ht, hu⟩ := S'.takeEmpty hhead
        obtain ⟨rfl, rfl⟩ := Prod.mk.inj (Option.some.inj (e₂.symm.trans e))
        exact .inr ⟨ht, fun hst => hm hst.2.2, hu⟩
    · rcases hs with ⟨rfl, rfl⟩ | ⟨hs, hu⟩
      · obtain ⟨h₁, t, e₁, ht, -⟩ := S.takeEmpty hempty
        rw [if_pos hempty, e₁] at e
        cases e
        exact absurd rfl ht
      · exact .inr ⟨hs, fun hst => hempty hst.2.1, hu⟩
  · rw [if_pos hpart] at e
    cases e
    rcases hs with ⟨hs, -⟩ | ⟨hs, hu⟩
    · exact absurd hs hpart
    · exact .inr ⟨hs, fun hst => hpart hst.1, hu⟩

/-- A class without headers gives a block of its own size, also to a request that writes a header into it. -/
theorem block_of_class (S : Sound h live cls lists 0) (hc : c < classCount) (hsys : sys.Fresh h) (hh : ¬ Headed c)
    {size : ℕ} (hclass : getClassId size = some c) :
    (∃ h' b, Mempool.blockWithHeader h sys size = some (h', b) ∧ (b = none ↔ Starved h sys c) ∧
      ∀ k ∈ b, k.classId = c) ∧
    ∃ h' b, Mempool.blockWithoutHeader h sys size = some (h', b) ∧ (b = none ↔ Starved h sys c) ∧
      ∀ k ∈ b, k.classId = c := by
  rw [Mempool.blockWithHeader, Mempool.blockWithoutHeader, hclass]
  obtain ⟨h₁, s, e, ⟨rfl, hst⟩ | ⟨hs0, hst, cls', lists', slab, S', hs, hslab, hfree⟩⟩ :=
    S.slabMalloc_starved hc hsys hh
  · simp only [e, bind, Option.bind, if_true, pure]
    exact ⟨⟨h₁, none, rfl, by simp [hst], by simp⟩, h₁, none, rfl, by simp [hst], by simp⟩
  · obtain ⟨h₂, lists₂, e₂, -⟩ := S'.take hs hslab hfree (SameOutside.refl h₁.bytes _ _) false (by simpa using hh) (by simp)
    -- the header changes bytes only, so the list moves of the plain path are those of the headed one
    have hmoves : ∀ bytes, ∃ h₃, (popped h₁ s slab bytes).fillSlab c s (slab.freeBlocks - 1) = some h₃ := by
      intro bytes
      have he := fillSlab_bytes (popped h₁ s slab h₁.bytes) bytes c s (slab.freeBlocks - 1)
      rw [e₂] at he
      exact ⟨_, he⟩
    simp only [e, bind, Option.bind, if_neg hs0, hslab, pure]
    constructor
    · obtain ⟨h₃, e₃⟩ := hmoves (writeHeader h₁.bytes slab.freeList c blockFlag s blockMagic (sizeClass c))
      rw [popped] at e₃
      simp only [e₃]
      exact ⟨h₃, _, rfl, by simp [hst], by simp⟩
    · obtain ⟨h₃, e₃⟩ := hmoves h₁.bytes
      simp only [popped, Heap.setSlab] at e₃
      simp only [Heap.setSlab, e₃]
      exact ⟨h₃, _, rfl, by simp [hst], by simp⟩

theorem mpMalloc_wrapped (S : Sound h live cls lists 0) (hsys : sys.Fresh h) {size : ℕ} (hlt : size < sizeT)
    (hwrap : sizeT ≤ size + 31) :
    ∃ h' r, Mempool.mpMalloc h sys size = some (h', r) ∧
      (Starved h sys (wrappedClass size) ∧ r.held size = none ∨
        ¬ Starved h sys (wrappedClass size) ∧ ∃ b, r.held size = some (.block b) ∧ b.usable ≤ 16) := by
  have hfinish : ∀ {b : Option Block}, (b = none ↔ Starved h sys (wrappedClass size)) →
      (∀ k ∈ b, k.classId = wrappedClass size) →
      Starved h sys (wrappedClass size) ∧ (Allocation.ofBlock b).held size = none ∨
        ¬ Starved h sys (wrappedClass size) ∧ ∃ k, (Allocation.ofBlock b).held size = some (.block k) ∧ k.usable ≤ 16 := by
    intro b hnone hclass
    cases b with
    | none => exact .inl ⟨hnone.mp rfl, rfl⟩
    | some k =>
      refine .inr ⟨fun hst => Option.some_ne_none k (hnone.mpr hst), k, rfl, ?_⟩
      have hle := wrappedClass_sizeClass size
      rw [← hclass k rfl] at hle
      rw [Block.usable]
      split
      · exact Nat.le_trans (Nat.sub_le _ _) hle
      · exact hle
  have hc := wrappedClass_lt size
  have hh := wrappedClass_not_headed size
  have hpos : size ≠ 0 := by
    rintro rfl
    exact absurd hwrap (by decide)
  rw [Mempool.mpMalloc, if_neg hpos]
  by_cases hsmall : alignUp size ≤ alignmentThreshold
  · have hpast : sizeT < size + 8 := by
      simp only [alignUp, alignmentThreshold, sizeT] at *
      omega
    obtain ⟨-, h', b, e, hnone, hclass⟩ := S.block_of_class hc hsys hh (getClassId_wrapped_small hlt hpast)
    rw [if_pos hsmall, e]
    exact ⟨h', .ofBlock b, rfl, hfinish hnone hclass⟩
  · have hw : Wraps size := by
      simp only [Wraps, alignUp, alignmentThreshold, sizeT] at *
      omega
    have hlarge : ¬ alignUp ((size + sizeofHeader) % sizeT) > largeThreshold := by
      obtain ⟨hlow, hhigh⟩ := hw
      simp only [alignUp, sizeofHeader, largeThreshold, sizeT] at *
      omega
    obtain ⟨⟨h', b, e, hnone, hclass⟩, -⟩ := S.block_of_class hc hsys hh (getClassId_wrapped_headed hw)
    rw [if_neg hsmall, if_neg hlarge, e]
    exact ⟨h', .ofBlock b, rfl, hfinish hnone hclass⟩

end Sound

namespace Arena

variable {A : Arena} {sys : System} {size : ℕ} {q : Held}

/-- The bytes behind a pointer are bytes the system gave out. -/
def Backed (sys : System) (h' : Heap) : Held → Prop
  | .block b => ∃ x k, h'.mapped x = some k ∧ x ≤ b.addr ∧ b.addr + sizeClass b.classId ≤ x + k
  | .large l => ∃ n, sys.malloc n = some l.header ∧ l.extent ≤ n

/-- `mp_malloc` answers `NULL`, or with an aligned pointer to `size` bytes that nobody else holds. -/
def Provides (A : Arena) (sys : System) (size : ℕ) (h' : Heap) (r : Allocation) : Prop :=
  ∀ q, r.held size = some q → q.ptr % 8 = 0 ∧ size ≤ q.usable ∧ Backed sys h' q ∧
    ∀ p, A.Holds p → Apart q.base q.extent p.base p.extent

theorem large_of_mpMalloc {h h' : Heap} {a : ℕ} (hmax : size + 31 < sizeT)
    (e : mpMalloc h sys size = some (h', .large a)) : ∃ n, sys.malloc n = some a ∧ sizeofHeader + size ≤ n := by
  have hnot : ∀ b, Allocation.ofBlock b ≠ .large a := by
    intro b
    cases b <;> exact Allocation.noConfusion
  simp only [mpMalloc] at e
  split at e
  · cases e
  · split at e
    · obtain ⟨⟨h₁, b⟩, -, e₂⟩ := Option.bind_eq_some_iff.mp e
      exact absurd (Prod.mk.inj (Option.some.inj e₂)).2 (hnot b)
    · split at e
      · rw [mallocLarge] at e
        split at e
        · cases e
        · rename_i header hm
          cases e
          refine ⟨_, hm, ?_⟩
          simp only [alignUp, sizeofHeader, sizeT] at hmax ⊢
          omega
      · obtain ⟨⟨h₁, b⟩, -, e₂⟩ := Option.bind_eq_some_iff.mp e
        exact absurd (Prod.mk.inj (Option.some.inj e₂)).2 (hnot b)

theorem Laid.block_mod (H : Laid A) (hpaged : A.heap.Paged) {b : Block} (hb : b ∈ A.live) : b.ptr % 8 = 0 := by
  obtain ⟨cls, lists, S⟩ := H.sound
  have hlok := S.inv.carved.held b hb
  obtain ⟨slab, hslab, j, -, haddr⟩ := hlok.block
  obtain ⟨free, hok⟩ := S.inv.carved.slabOk_of hlok.class_eq hslab
  have hmem := hpaged _ _ hok.mapped
  have hmul : j * sizeClass b.classId % 8 = 0 := by
    rw [Nat.mul_mod, Laid.sizeClass_mod (S.inv.carved.slab hlok.class_eq).1, Nat.mul_zero, Nat.zero_mod]
  have hfirst : firstOffset b.classId % 8 = 0 := by
    rw [firstOffset]
    split <;> decide
  rw [Block.ptr, haddr]
  simp only [sizeofHeader]
  split <;> omega

theorem Stands.provides (H : Stands A) (hpaged : A.heap.Paged) (hsys : A.Fresh sys) (haligned : sys.Aligned)
    (hmax : size + 31 < sizeT) :
    ∃ h' r, mpMalloc A.heap sys size = some (h', r) ∧ Provides A sys size h' r := by
  have hwrap : ¬ Sound.Wraps size := by
    simp only [Sound.Wraps, sizeT] at hmax ⊢
    omega
  obtain ⟨h', r, e, U, H', -⟩ := H.malloc hsys (by omega) hwrap
  refine ⟨h', r, e, ?_⟩
  intro q hq
  have hnew := (holds_add { A with heap := h' } size r q).mpr (.inl hq)
  have hpaged' : ({ A with heap := h' }.add size r).heap.Paged := by
    rw [add_heap]
    exact hpaged.mpMalloc haligned e
  have hapart : ∀ p, A.Holds p → Apart q.base q.extent p.base p.extent := by
    intro p hp
    apply H'.apart hnew ((holds_add _ _ _ p).mpr (.inr hp))
    rintro rfl
    exact H'.not_holds_new hq hp
  refine ⟨?_, size_le_usable U hmax hq, ?_, hapart⟩
  · cases r with
    | null => cases hq
    | block b =>
      cases hq
      exact H'.block_mod hpaged' hnew
    | large a =>
      cases hq
      obtain ⟨n, hm, -⟩ := large_of_mpMalloc hmax e
      have hmod := haligned.malloc n a hm
      simp only [Held.ptr, sizeofHeader]
      omega
  · cases r with
    | null => cases hq
    | block b =>
      cases hq
      obtain ⟨slab, -, hmapped, -, hlow, hhigh⟩ := H'.region hnew
      exact ⟨_, _, hmapped, hlow, hhigh⟩
    | large a =>
      cases hq
      exact large_of_mpMalloc hmax e

/-- `mp_malloc` gives at least the bytes asked for, sizes that wrap apart. -/
theorem mp_malloc_room_iff (links : Links ℕ) (bytes : ℕ → UInt8) (ops : List ArenaOp)
    (hops : Permitted (Arena.start links bytes) ops) (haligned : ∀ op ∈ ops, op.Aligned) :
    ∃ A, Arena.run ops (Arena.start links bytes) = some A ∧
      ∀ sys size, A.Fresh sys → sys.Aligned → 1 ≤ size → size < sizeT →
        ∃ h' r, mpMalloc A.heap sys size = some (h', r) ∧
          (Provides A sys size h' r ↔ size + 31 < sizeT ∨ Starved A.heap sys (wrappedClass size)) := by
  obtain ⟨A, e, H⟩ := (Stands.start links bytes).run hops
  have hpaged : A.heap.Paged := by
    apply run_paged _ haligned e
    rintro x k ⟨⟩
  refine ⟨A, e, ?_⟩
  intro sys size hsys hsysal _ hlt
  by_cases hmax : size + 31 < sizeT
  · obtain ⟨h', r, er, hr⟩ := H.provides hpaged hsys hsysal hmax
    exact ⟨h', r, er, fun _ => .inl hmax, fun _ => hr⟩
  · obtain ⟨cls, lists, S⟩ := H.sound
    obtain ⟨h', r, er, hr⟩ := S.mpMalloc_wrapped hsys.heap hlt (Nat.not_lt.mp hmax)
    refine ⟨h', r, er, ?_⟩
    rcases hr with ⟨hst, hnull⟩ | ⟨hst, b, hb, hsmall⟩
    · refine ⟨fun _ => .inr hst, ?_⟩
      intro _ q hq
      rw [hnull] at hq
      cases hq
    · constructor
      · intro hprov
        obtain ⟨-, hle, -⟩ := hprov _ hb
        simp only [Held.usable] at hle
        simp only [sizeT] at hmax
        omega
      · rintro (h | h)
        · exact absurd h hmax
        · exact absurd h hst

theorem smallSystem_aligned : PoolState.smallSystem.Aligned := by
  constructor
  all_goals
    intro n a ha
    simp only [PoolState.smallSystem] at ha
    split at ha
    · cases ha
      rfl
    · cases ha

theorem mp_malloc_room_iff_example :
    ∃ A, Arena.run [.malloc PoolState.smallSystem 64] idle = some A ∧
      ∀ sys size, A.Fresh sys → sys.Aligned → 1 ≤ size → size < sizeT →
        ∃ h' r, mpMalloc A.heap sys size = some (h', r) ∧
          (Provides A sys size h' r ↔ size + 31 < sizeT ∨ Starved A.heap sys (wrappedClass size)) := by
  apply mp_malloc_room_iff
  · exact ⟨⟨by decide, idle_fresh⟩, by simp [Clean, Sound.Wraps], fun _ _ => trivial⟩
  · intro op hop
    obtain rfl := List.mem_singleton.mp hop
    exact smallSystem_aligned

/-- The `int` -1 as a `size_t` is given eight bytes. -/
theorem mp_malloc_wraps_to_eight :
    idle.Fresh PoolState.smallSystem ∧ PoolState.smallSystem.Aligned ∧
      ∃ h' r, mpMalloc idle.heap PoolState.smallSystem (2 ^ 64 - 1) = some (h', r) ∧ r.ptr ≠ 0 ∧
        ¬ Provides idle PoolState.smallSystem (2 ^ 64 - 1) h' r := by
  refine ⟨idle_fresh, smallSystem_aligned, ?_⟩
  have hheld : (mpMalloc idle.heap PoolState.smallSystem (2 ^ 64 - 1)).bind (fun x => x.2.held (2 ^ 64 - 1)) =
      some (.block ⟨0, 131072, 131120, false⟩) := by decide +kernel
  obtain ⟨⟨h', r⟩, e, hr⟩ := Option.bind_eq_some_iff.mp hheld
  refine ⟨h', r, e, ?_, ?_⟩
  · rw [ptr_of_held hr]
    decide
  · intro hprov
    obtain ⟨-, hle, -⟩ := hprov _ hr
    exact absurd hle (by decide)

end Arena

section Grants

theorem getClassId_grown {n m c : ℕ} (h : getClassId n = some c) (hle : n ≤ m) (hm : m ≤ sizeClass c) :
    getClassId m = some c := by
  rw [getClassId, List.find?_range_eq_some] at h ⊢
  obtain ⟨-, hc, hfirst⟩ := h
  refine ⟨decide_eq_true hm, hc, fun j hj => ?_⟩
  have hsmaller := hfirst j hj
  simp only [Bool.not_eq_true', decide_eq_false_iff_not] at hsmaller ⊢
  omega

theorem alignUp_mono {n m : ℕ} (hle : n ≤ m) (hm : m + 7 < sizeT) : alignUp n ≤ alignUp m := by
  simp only [alignUp, Nat.mod_eq_of_lt hm, Nat.mod_eq_of_lt (show n + 7 < sizeT by omega)]
  omega

theorem alignUp_le_sizeClass {m c : ℕ} (hc : c < classCount) (hle : m ≤ sizeClass c) (hm : m + 7 < sizeT) :
    alignUp m ≤ sizeClass c := by
  have h8 := sizeClass_dvd hc
  simp only [alignUp, Nat.mod_eq_of_lt hm]
  omega

/-- A block is of one class for all sizes between the one it was made for and what may be used of it. -/
theorem classFor_grown {n m c : ℕ} (h : classFor n = some c) (hle : n ≤ m) (hm : m ≤ usableSize n)
    (hmax : m + 31 < sizeT) :
    classFor m = some c ∧ (alignUp m ≤ alignmentThreshold ↔ alignUp n ≤ alignmentThreshold) := by
  have hmono := alignUp_mono hle (by omega)
  have hbound := classFor_spec h (by omega)
  have hwrap : ∀ k ≤ m, (k + sizeofHeader) % sizeT = k + sizeofHeader := fun k hk =>
    Nat.mod_eq_of_lt (by simp only [sizeofHeader]; omega)
  rw [usableSize, h] at hm
  rw [classFor, hwrap n hle] at h
  rw [classFor, hwrap m le_rfl]
  dsimp only at hm
  split_ifs at h hm with hsmall hlarge
  · obtain ⟨hc, -, hplain⟩ := getClassId_spec h
    have hup := alignUp_le_sizeClass hc hm (by omega)
    have hclass : sizeClass c ≤ alignmentThreshold := not_lt.mp (hplain hsmall)
    rw [if_pos (hup.trans hclass)]
    exact ⟨getClassId_grown h hmono hup, ⟨fun _ => hsmall, fun _ => hup.trans hclass⟩⟩
  · have hc := (getClassId_le h).1
    have hhead := hbound.2 (not_le.mp hsmall)
    have hup := alignUp_le_sizeClass hc (show m + sizeofHeader ≤ sizeClass c by omega)
      (by simp only [sizeofHeader]; omega)
    rw [if_neg (by omega), if_neg (not_lt.mpr (hup.trans (sizeClass_le hc)))]
    refine ⟨getClassId_grown h (alignUp_mono (by omega) (by simp only [sizeofHeader]; omega)) hup, ?_⟩
    omega

/-- A block that was handed out for `n` bytes, as `Grant.room` counts it. -/
structure Held.MadeFor (p : Held) (n : ℕ) : Prop where
  capacity : p.capacity = recordedSize n
  usable : p.usable = usableSize n

theorem Held.MadeFor.grown {p : Held} {n m : ℕ} (h : p.MadeFor n) (hle : n ≤ m) (hm : m ≤ usableSize n)
    (hmax : m + 31 < sizeT) : p.MadeFor m := by
  cases hc : classFor n with
  | none =>
    rw [usableSize, hc] at hm
    rwa [show m = n from Nat.le_antisymm hm hle]
  | some c =>
    obtain ⟨hclass, hsmall⟩ := classFor_grown hc hle hm hmax
    refine ⟨?_, ?_⟩
    · rw [h.capacity, recordedSize, recordedSize, hc, hclass]
    · rw [h.usable, usableSize, usableSize, hc, hclass]
      simp only [hsmall]

theorem Pops.madeFor {h h' : Heap} {sys : System} {n size : ℕ} {headed : Bool} {b : Option Block} {q : Held}
    (hpops : Pops sys h h' n headed b) (hq : (Allocation.ofBlock b).held size = some q)
    (hclass : classFor size = getClassId n) (hheaded : headed = true ↔ ¬ alignUp size ≤ alignmentThreshold) :
    q.MadeFor size := by
  obtain ⟨-, rfl⟩ | ⟨c, h₁, s, hc, -, ⟨-, rfl⟩ | ⟨slab, -, rfl, -⟩⟩ := hpops
  · cases hq
  · cases hq
  · cases hq
    rw [hc] at hclass
    refine ⟨by rw [recordedSize, hclass]; rfl, ?_⟩
    simp only [usableSize, hclass]
    cases headed with
    | false => simp [Held.usable, Block.usable, show alignUp size ≤ alignmentThreshold by simpa using hheaded]
    | true => simp [Held.usable, Block.usable, hheaded.mp rfl]

theorem mpMalloc_madeFor {h h' : Heap} {sys : System} {size : ℕ} {r : Allocation} {q : Held}
    (e : mpMalloc h sys size = some (h', r)) (hq : r.held size = some q) : q.MadeFor size := by
  simp only [mpMalloc] at e
  split_ifs at e with hzero hsmall hlarge
  · cases e
    cases hq
  · obtain ⟨⟨h₁, b⟩, e₁, e₂⟩ := Option.bind_eq_some_iff.mp e
    cases e₂
    exact (pops_blockWithoutHeader e₁).madeFor hq (by rw [classFor, if_pos hsmall]) (by simp [hsmall])
  · have hclass : classFor size = none := by rw [classFor, if_neg hsmall, if_pos hlarge]
    rw [mallocLarge] at e
    split at e
    · cases e
      cases hq
    · cases e
      cases hq
      exact ⟨by rw [recordedSize, hclass]; rfl, by rw [usableSize, hclass]; rfl⟩
  · obtain ⟨⟨h₁, b⟩, e₁, e₂⟩ := Option.bind_eq_some_iff.mp e
    cases e₂
    exact (pops_blockWithHeader e₁).madeFor hq (by rw [classFor, if_neg hsmall, if_neg hlarge]) (by simp [hsmall])

namespace Reallocation

/-- The outcome as the model of the clients' buffers has it. -/
def grant : Reallocation → Grant
  | .null => .refused
  | .inPlace => .granted
  | .moved _ _ => .granted

/-- What the caller holds after a call for `size` bytes in the place of `p`. -/
def held (p : Held) (size : ℕ) : Reallocation → Option Held
  | .null => none
  | .inPlace => some p
  | .moved r _ => r.held size

end Reallocation

theorem mpMalloc_of_regrow {h h' : Heap} {sys : System} {ptr size old copied : ℕ} {r : Allocation}
    (e : regrow h sys ptr size old = some (h', .moved r copied)) : ∃ h₁, mpMalloc h sys size = some (h₁, r) := by
  rw [regrow] at e
  split_ifs at e with hle
  · cases e
  obtain ⟨⟨h₁, r₁⟩, e₁, e₂⟩ := Option.bind_eq_some_iff.mp e
  simp only at e₂
  split_ifs at e₂ with hptr
  · cases e₂
  obtain ⟨h₂, -, e₃⟩ := Option.bind_eq_some_iff.mp e₂
  cases e₃
  exact ⟨h₁, e₁⟩

/-- `Grant.room` is what `mp_realloc` leaves the holder of a block with. -/
theorem Arena.Stands.realloc_room {A : Arena} {p : Held} {sys : System} {n size : ℕ} (H : A.Stands) (hp : A.Holds p)
    (hs : ¬ Spoofed A.heap p) (hsys : A.Fresh sys) (hmade : p.MadeFor n) (hpos : size ≠ 0) (hle : n ≤ size)
    (hmax : size + 31 < sizeT) :
    ∃ h' r, mpRealloc A.heap sys p.ptr size = some (h', r) ∧
      (r.grant.room n size = none ↔ r.held p size = none) ∧
      ∀ room, r.grant.room n size = some room →
        ∃ q, r.held p size = some q ∧ q.MadeFor room ∧ room ≤ q.usable := by
  obtain ⟨h', r, e, hr⟩ := H.realloc hp hs hsys hpos hmax
  refine ⟨h', r, e, ?_⟩
  rw [H.mpRealloc_eq hp hs hpos] at e
  have hn : n ≤ usableSize n := le_usableSize (by omega)
  cases hr with
  | inPlace hcap =>
    rw [hmade.capacity] at hcap
    have hroom : Grant.granted.room n size = some (min size (usableSize n)) := by simp [Grant.room, hcap]
    refine ⟨by simp [Reallocation.grant, Reallocation.held, hroom], fun room h => ⟨p, rfl, ?_⟩⟩
    obtain rfl := Option.some.inj (hroom.symm.trans h)
    refine ⟨hmade.grown (le_min hle hn) (min_le_right _ _) (by omega), ?_⟩
    rw [hmade.usable]
    exact min_le_right _ _
  | null hlt _ =>
    rw [hmade.capacity] at hlt
    have hroom : Grant.refused.room n size = none := by simp [Grant.room, hlt]
    exact ⟨by simp [Reallocation.grant, Reallocation.held, hroom], fun room h => absurd (hroom.symm.trans h) nofun⟩
  | @moved _ r q hlt hq hsize _ _ =>
    rw [hmade.capacity] at hlt
    have hroom : Grant.granted.room n size = some size := by simp [Grant.room, hlt]
    obtain ⟨h₁, e₁⟩ := mpMalloc_of_regrow e
    refine ⟨by simp [Reallocation.grant, Reallocation.held, hroom, hq], fun room h => ⟨q, hq, ?_⟩⟩
    obtain rfl := Option.some.inj (hroom.symm.trans h)
    exact ⟨mpMalloc_madeFor e₁ hq, hsize⟩

end Grants

end Lidis.Mempool
