import Lidis.MempoolInvariant

namespace Lidis.Mempool

open ByteMemory DoublyLinked

section Relinked

variable {h h' : Heap} {c s n : ℕ} {w : SlabList}

theorem Relinked.refl (h : Heap) : Relinked h h := ⟨rfl, rfl, rfl, fun _ => rfl⟩

theorem listInsert_relinked (e : h.listInsert c w s = some h') : Relinked h h' := by
  simp only [Heap.listInsert] at e
  split at e
  · cases e
    exact (setHead_relinked ..).1
  · cases e

theorem listRemove_relinked (e : h.listRemove c w s = some h') : Relinked h h' := by
  simp only [Heap.listRemove] at e
  split at e
  · cases e
    exact (setHead_relinked ..).1
  · cases e

theorem move_relinked {w' : SlabList} (e : (h.listRemove c w s).bind (fun h => h.listInsert c w' s) = some h') :
    Relinked h h' := by
  obtain ⟨h₁, e₁, e₂⟩ := Option.bind_eq_some_iff.mp e
  exact (listRemove_relinked e₁).trans (listInsert_relinked e₂)

theorem insertEmpty_relinked (e : h.insertEmpty c s = some h') : Relinked h h' := by
  obtain ⟨h₁, e₁, e₂⟩ := Option.bind_eq_some_iff.mp e
  cases e₂
  exact (listInsert_relinked e₁).trans (setCount_relinked ..)

theorem takeEmpty_relinked (e : h.takeEmpty c = some (h', s)) : Relinked h h' := by
  obtain ⟨h₁, e₁, e₂⟩ := Option.bind_eq_some_iff.mp e
  obtain ⟨h₂, e₃, e₄⟩ := Option.bind_eq_some_iff.mp e₂
  cases e₄
  exact ((listRemove_relinked e₁).trans (listInsert_relinked e₃)).trans (setCount_relinked ..)

theorem fillSlab_relinked (e : h.fillSlab c s n = some h') : Relinked h h' := by
  rw [Heap.fillSlab] at e
  split at e
  · exact move_relinked e
  · cases e
    exact Relinked.refl h

theorem reopen_relinked (e : h.reopen c s n = some h') : Relinked h h' := by
  rw [Heap.reopen] at e
  split at e
  · exact move_relinked e
  · cases e
    exact Relinked.refl h

end Relinked

/-- The bytes from `x` on lie in a region that the system hands out during the call. -/
def System.Grants (sys : System) (x k : ℕ) : Prop :=
  ∃ a n, (sys.malloc n = some a ∨ sys.mmap n = some a) ∧ a ≤ x ∧ x + k ≤ a + n

theorem System.Fresh.free {sys : System} {h : Heap} (hsys : sys.Fresh h) {a n : ℕ}
    (ha : sys.malloc n = some a ∨ sys.mmap n = some a) : h.Free a n :=
  ha.elim (hsys.malloc n a) (hsys.mmap n a)

theorem System.Fresh.apart {sys : System} {h : Heap} (hsys : sys.Fresh h) {x k b n : ℕ} (hx : sys.Grants x k)
    (hb : h.mapped b = some n) : Apart x k b n := by
  obtain ⟨a, m, ha, hle, hlt⟩ := hx
  exact ((hsys.free ha).mapped b n hb).mono hle hlt le_rfl le_rfl

/-- The `slab_t` of a slab without headers is found by masking the address of a block. -/
def Heap.Aligned (h : Heap) : Prop :=
  ∀ s slab, h.slabs s = some slab → slab.slabMagic = slabMagic → slab.mem = s ∧ s % slabSizeAlignment = 0

theorem Heap.Aligned.update {h h' : Heap} (H : h.Aligned) {s : ℕ} {slab : Slab}
    (e : h'.slabs = Function.update h.slabs s (some slab))
    (hslab : slab.slabMagic = slabMagic → slab.mem = s ∧ s % slabSizeAlignment = 0) : h'.Aligned := by
  intro t other ht hmagic
  rw [e] at ht
  rcases eq_or_ne t s with rfl | hts
  · rw [Function.update_self] at ht
    cases ht
    exact hslab hmagic
  · rw [Function.update_of_ne hts] at ht
    exact H t other ht hmagic

structure Grown (sys : System) (h h' : Heap) : Prop where
  aligned : h.Aligned → h'.Aligned
  mapped : ∀ x k, h'.mapped x = some k → h.mapped x = some k ∨ sys.Grants x k
  bytes : ∀ x, ¬ sys.Grants x 1 → h'.bytes x = h.bytes x

namespace Grown

variable {sys : System} {h h' h'' : Heap} {c s : ℕ}

theorem relinked (G : Grown sys h h') (R : Relinked h' h'') : Grown sys h h'' := by
  refine ⟨?_, ?_, ?_⟩
  · intro H t slab ht
    rw [R.slabs] at ht
    exact G.aligned H t slab ht
  · rw [R.mapped]
    exact G.mapped
  · rw [R.bytes]
    exact G.bytes

theorem refl (sys : System) (h : Heap) : Grown sys h h :=
  ⟨id, fun _ _ => .inl, fun _ _ => rfl⟩

theorem addSlab {mem n first size count : ℕ} {slab : Slab} (hgrant : sys.Grants mem n) (hsize : 8 ≤ size)
    (hfirst : mem ≤ first) (hfit : first + (count + 1) * size ≤ mem + n)
    (hslab : slab.slabMagic = slabMagic → slab.mem = s ∧ s % slabSizeAlignment = 0) :
    Grown sys h { h.setSlab s slab with
      mapped := Function.update h.mapped mem (some n), bytes := carve h.bytes first size count } := by
  refine ⟨fun H => H.update rfl hslab, ?_, ?_⟩
  · intro x k hx
    rcases eq_or_ne x mem with rfl | hne
    · simp only [Function.update_self, Option.some.injEq] at hx
      subst hx
      exact .inr hgrant
    · simp only [Function.update_of_ne hne] at hx
      exact .inl hx
  · intro x hx
    apply carve_sameOutside hsize h.bytes first count
    by_contra hin
    obtain ⟨a, m, ha, hle, hlt⟩ := hgrant
    exact hx ⟨a, m, ha, by omega, by omega⟩

theorem of_addPoolWithHeader (hc : c < classCount) (hblock : (h.classes c).blockSize = sizeClass c) {ret : ℤ}
    (e : addPoolWithHeader h sys c = some (h', ret)) (hh : Headed c) : Grown sys h h' := by
  have hnot : ¬ sizeClass c ≤ alignmentThreshold := Nat.not_le.mpr hh
  have htotal : slabClass c / sizeClass c = totalOf c := by
    rw [totalOf, regionOf, firstOffset, if_neg hnot, if_neg hnot, Nat.sub_zero]
  have hpos := totalOf_pos hc
  rw [addPoolWithHeader] at e
  split at e
  · cases e
    exact refl sys h
  · cases e
    exact refl sys h
  · rename_i mem _ hmem
    obtain ⟨h₁, e₁, e₂⟩ := Option.bind_eq_some_iff.mp e
    cases e₂
    refine relinked (addSlab ⟨mem, _, .inr hmem, le_rfl, le_rfl⟩ ?_ le_rfl ?_ ?_) (insertEmpty_relinked e₁)
    · rw [hblock]
      exact sizeClass_ge hc
    · rw [hblock, htotal, Nat.sub_add_cancel hpos, ← htotal]
      have := Nat.div_mul_le_self (slabClass c) (sizeClass c)
      omega
    · intro hmagic
      exact absurd (show 0 = slabMagic from hmagic) (by decide)

theorem of_addPoolWithoutHeader (hc : c < classCount) (hsys : sys.Fresh h) {ret : ℤ}
    (e : addPoolWithoutHeader h sys c = some (h', ret)) (hh : ¬ Headed c) : Grown sys h h' := by
  have hle : sizeClass c ≤ alignmentThreshold := Nat.not_lt.mp hh
  have htotal : (slabSizeAlignment - alignUp sizeofSlab) / sizeClass c = totalOf c := by
    rw [totalOf, regionOf, firstOffset, if_pos hle, if_pos hle]
  have hpos := totalOf_pos hc
  rw [addPoolWithoutHeader] at e
  split at e
  · cases e
    exact refl sys h
  · rename_i mem hmem
    obtain ⟨raw, hraw, hmask⟩ := Option.bind_eq_some_iff.mp hmem
    obtain ⟨h₁, e₁, e₂⟩ := Option.bind_eq_some_iff.mp e
    cases e₂
    have hfits := (hsys.mmap _ _ hraw).fits
    have halign : raw ≤ mem ∧ mem + slabSizeAlignment ≤ raw + slabSizeAlignment * 2 ∧
        mem % slabSizeAlignment = 0 := by
      simp only [pure, Option.some.injEq, slabSizeAlignment, sizeT] at hfits hmask ⊢
      omega
    obtain ⟨hlow, hhigh, hmod⟩ := halign
    refine relinked (addSlab ⟨raw, _, .inr hraw, hlow, hhigh⟩ (sizeClass_ge hc) (by omega) ?_ ?_)
      (insertEmpty_relinked e₁)
    · rw [htotal, Nat.sub_add_cancel hpos, ← htotal]
      have hdiv := Nat.div_mul_le_self (slabSizeAlignment - alignUp sizeofSlab) (sizeClass c)
      have hroom : alignUp sizeofSlab ≤ slabSizeAlignment := by decide
      omega
    · exact fun _ => ⟨rfl, hmod⟩

theorem of_slabMalloc (hc : c < classCount) (hblock : (h.classes c).blockSize = sizeClass c) (hsys : sys.Fresh h)
    (e : slabMalloc h sys c = some (h', s)) : Grown sys h h' := by
  rw [slabMalloc] at e
  split at e
  · cases e
    exact refl sys h
  · split at e
    · exact (refl sys h).relinked (takeEmpty_relinked e)
    · obtain ⟨⟨h₁, ret⟩, e₁, e₂⟩ := Option.bind_eq_some_iff.mp e
      have G : Grown sys h h₁ := by
        rw [addPool] at e₁
        split at e₁
        · obtain ⟨⟨h₂, ret'⟩, e₃, e₄⟩ := Option.bind_eq_some_iff.mp e₁
          cases e₄
          exact of_addPoolWithoutHeader hc hsys e₃ (Nat.not_lt.mpr (by assumption))
        · obtain ⟨⟨h₂, ret'⟩, e₃, e₄⟩ := Option.bind_eq_some_iff.mp e₁
          cases e₄
          exact of_addPoolWithHeader hc hblock e₃ (Nat.not_le.mp (by assumption))
      simp only at e₂
      split at e₂
      · cases e₂
        exact G
      · exact G.relinked (takeEmpty_relinked e₂)

end Grown

theorem sizeClass_lt {c : ℕ} (hc : c < classCount) : sizeClass c < 256 ^ 8 := by
  revert c
  decide +kernel

/-- The header at `a` as `mp_malloc` leaves it, its class and its slab apart. -/
structure Stamped (bytes : ℕ → UInt8) (a flag size : ℕ) : Prop where
  magic : load bytes a 4 = blockMagic
  flag : load bytes (a + 5) 1 = flag
  size : load bytes (a + 16) 8 = size

theorem Stamped.congr {bytes bytes' : ℕ → UInt8} {a flag size : ℕ} (H : Stamped bytes a flag size)
    (hsame : ∀ x, a ≤ x → x < a + sizeofHeader → bytes' x = bytes x) : Stamped bytes' a flag size := by
  simp only [sizeofHeader] at hsame
  refine ⟨?_, ?_, ?_⟩
  · rw [← H.magic]
    exact load_congr (fun x hx hk => hsame x (by omega) (by omega))
  · rw [← H.flag]
    exact load_congr (fun x hx hk => hsame x (by omega) (by omega))
  · rw [← H.size]
    exact load_congr (fun x hx hk => hsame x (by omega) (by omega))

theorem writeHeader_stamped (bytes : ℕ → UInt8) (a classId slab : ℕ) {flag size : ℕ} (hflag : flag < 256)
    (hsize : size < 256 ^ 8) : Stamped (writeHeader bytes a classId flag slab blockMagic size) a flag size := by
  refine ⟨?_, ?_, load_store_of_lt hsize⟩
  · rw [writeHeader, (store_sameOutside _ (a + 16) size 8).load (.inl (by omega))]
    exact load_store_of_lt (by decide)
  · rw [writeHeader, (store_sameOutside _ (a + 16) size 8).load (.inl (by omega)),
      (store_sameOutside _ a blockMagic 4).load (.inr (by omega)),
      (store_sameOutside _ (a + 8) slab 8).load (.inl (by omega))]
    exact load_store_of_lt hflag

/-- Where the two block functions end: there is no class or no slab, or the first free block of a slab is taken and, if
it is `headed`, its header written. -/
def Pops (sys : System) (h h' : Heap) (size : ℕ) (headed : Bool) (r : Option Block) : Prop :=
  h' = h ∧ r = none ∨ ∃ c h₁ s, getClassId size = some c ∧ slabMalloc h sys c = some (h₁, s) ∧
    (h' = h₁ ∧ r = none ∨ ∃ slab, h₁.slabs s = some slab ∧ r = some ⟨c, s, slab.freeList, headed⟩ ∧
      Relinked (Sound.popped h₁ s slab (if headed then
        writeHeader h₁.bytes slab.freeList c blockFlag s blockMagic (sizeClass c) else h₁.bytes)) h')

theorem pops_of_class {sys : System} {h h' : Heap} {size c : ℕ} {headed : Bool} {r : Option Block}
    (hclass : getClassId size = some c)
    (e : ((slabMalloc h sys c).bind fun p => if p.2 = 0 then some (p.1, none) else (p.1.slabs p.2).bind fun slab =>
      ((Sound.popped p.1 p.2 slab (if headed then
        writeHeader p.1.bytes slab.freeList c blockFlag p.2 blockMagic (sizeClass c) else p.1.bytes)).fillSlab c p.2
          (slab.freeBlocks - 1)).bind fun h₂ => some (h₂, some ⟨c, p.2, slab.freeList, headed⟩)) = some (h', r)) :
    Pops sys h h' size headed r := by
  obtain ⟨⟨h₁, s⟩, e₁, e₂⟩ := Option.bind_eq_some_iff.mp e
  refine Or.inr ⟨c, h₁, s, hclass, e₁, ?_⟩
  simp only at e₂
  split at e₂
  · cases e₂
    exact Or.inl ⟨rfl, rfl⟩
  · obtain ⟨slab, hslab, e₃⟩ := Option.bind_eq_some_iff.mp e₂
    obtain ⟨h₂, e₄, e₅⟩ := Option.bind_eq_some_iff.mp e₃
    cases e₅
    exact Or.inr ⟨slab, hslab, rfl, fillSlab_relinked e₄⟩

theorem pops_blockWithHeader {sys : System} {h h' : Heap} {size : ℕ} {r : Option Block}
    (e : blockWithHeader h sys size = some (h', r)) : Pops sys h h' size true r := by
  rw [blockWithHeader] at e
  cases hclass : getClassId size with
  | none =>
    rw [hclass] at e
    cases e
    exact Or.inl ⟨rfl, rfl⟩
  | some c =>
    rw [hclass] at e
    exact pops_of_class hclass e

theorem pops_blockWithoutHeader {sys : System} {h h' : Heap} {size : ℕ} {r : Option Block}
    (e : blockWithoutHeader h sys size = some (h', r)) : Pops sys h h' size false r := by
  rw [blockWithoutHeader] at e
  cases hclass : getClassId size with
  | none =>
    rw [hclass] at e
    cases e
    exact Or.inl ⟨rfl, rfl⟩
  | some c =>
    rw [hclass] at e
    exact pops_of_class hclass e

/-- What `mp_malloc` does to the memory: `r` is cut or granted, and nothing else in use changes. -/
structure Supplied (sys : System) (h h' : Heap) (size : ℕ) (r : Allocation) : Prop where
  aligned : h.Aligned → h'.Aligned
  mapped : ∀ x k, h'.mapped x = some k → h.mapped x = some k ∨ sys.Grants x k
  bytes : ∀ x, ¬ sys.Grants x 1 → (∀ b, r = .block b → x < b.addr ∨ b.addr + sizeClass b.classId ≤ x) →
    h'.bytes x = h.bytes x
  block : ∀ b, r = .block b → (size + 31 < sizeT → size ≤ b.usable) ∧
    (b.headed = true → Stamped h'.bytes b.addr blockFlag (sizeClass b.classId))
  large : ∀ a, r = .large a → Stamped h'.bytes a blockFlagLarge size ∧ sys.Grants a (sizeofHeader + size) ∧
    h'.mapped = h.mapped

namespace Supplied

variable {sys : System} {h h' : Heap} {size : ℕ}

theorem of_grown (G : Grown sys h h') (size : ℕ) : Supplied sys h h' size .null := by
  refine ⟨G.aligned, G.mapped, fun x hx _ => G.bytes x hx, ?_, ?_⟩
  · rintro b ⟨⟩
  · rintro a ⟨⟩

theorem of_popped {h₁ h₂ : Heap} {s c : ℕ} {slab : Slab} {bytes : ℕ → UInt8} {headed : Bool}
    (G : Grown sys h h₁) (hslab : h₁.slabs s = some slab) (R : Relinked (Sound.popped h₁ s slab bytes) h₂)
    (hsame : SameOutside h₁.bytes bytes slab.freeList (sizeClass c))
    (hsize : size + 31 < sizeT → size ≤ Block.usable ⟨c, s, slab.freeList, headed⟩)
    (hstamp : headed = true → Stamped bytes slab.freeList blockFlag (sizeClass c)) :
    Supplied sys h h₂ size (.block ⟨c, s, slab.freeList, headed⟩) := by
  refine ⟨?_, ?_, ?_, ?_, by rintro a ⟨⟩⟩
  · intro H
    apply (G.aligned H).update R.slabs
    exact G.aligned H s slab hslab
  · rw [R.mapped]
    exact G.mapped
  · intro x hx hout
    rw [R.bytes]
    exact (hsame x (hout _ rfl)).trans (G.bytes x hx)
  · rintro b ⟨⟩
    rw [R.bytes]
    exact ⟨hsize, hstamp⟩

theorem of_blockWithHeader (hblock : ∀ c, (h.classes c).blockSize = sizeClass c) (hsys : sys.Fresh h)
    {actualSize : ℕ} (hsize : size + sizeofHeader ≤ actualSize) (hbig : alignmentThreshold < actualSize)
    {r : Option Block} (e : blockWithHeader h sys actualSize = some (h', r)) :
    Supplied sys h h' size (.ofBlock r) := by
  rcases pops_blockWithHeader e with ⟨rfl, rfl⟩ | ⟨c, h₁, s, hclass, e₁, hrest⟩
  · exact of_grown (.refl sys h') size
  obtain ⟨hc, hle, -⟩ := getClassId_spec hclass
  have G := Grown.of_slabMalloc hc (hblock c) hsys e₁
  rcases hrest with ⟨rfl, rfl⟩ | ⟨slab, hslab, rfl, R⟩
  · exact of_grown G size
  · simp only [alignmentThreshold, sizeofHeader] at hbig hsize
    apply of_popped G hslab R
    · exact SameOutside.mono (writeHeader_sameOutside _ _ _ _ _ _ _) le_rfl (by simp only [sizeofHeader]; omega)
    · intro _
      simp only [Block.usable, if_true, sizeofHeader]
      omega
    · exact fun _ => writeHeader_stamped _ _ _ _ (by decide) (sizeClass_lt hc)

theorem of_blockWithoutHeader (hblock : ∀ c, (h.classes c).blockSize = sizeClass c) (hsys : sys.Fresh h)
    {alignedSize : ℕ} (hsize : size + 31 < sizeT → size ≤ alignedSize) {r : Option Block}
    (e : blockWithoutHeader h sys alignedSize = some (h', r)) : Supplied sys h h' size (.ofBlock r) := by
  rcases pops_blockWithoutHeader e with ⟨rfl, rfl⟩ | ⟨c, h₁, s, hclass, e₁, hrest⟩
  · exact of_grown (.refl sys h') size
  obtain ⟨hc, hle, -⟩ := getClassId_spec hclass
  have G := Grown.of_slabMalloc hc (hblock c) hsys e₁
  rcases hrest with ⟨rfl, rfl⟩ | ⟨slab, hslab, rfl, R⟩
  · exact of_grown G size
  · apply of_popped G hslab R (SameOutside.refl _ _ _)
    · exact fun hmax => (hsize hmax).trans hle
    · exact fun hf => absurd hf (by decide)

theorem of_mallocLarge {actualSize : ℕ} (hsize : size + sizeofHeader ≤ actualSize) (hlt : size < sizeT)
    {r : Allocation} (e : mallocLarge h sys size actualSize = (h', r)) : Supplied sys h h' size r := by
  rw [mallocLarge] at e
  split at e
  · cases e
    exact of_grown (.refl sys h) size
  · rename_i a ha
    cases e
    simp only [sizeofHeader] at hsize
    have hstore : ∀ m b v n, a ≤ b → b + n ≤ a + actualSize → SameOutside m (store m b v n) a actualSize :=
      fun m b v n hb hn => (store_sameOutside m b v n).mono hb hn
    have hsame := (((hstore h.bytes (a + 5) blockFlagLarge 1 (by omega) (by omega)).trans
      (hstore _ a blockMagic 4 (by omega) (by omega))).trans
      (hstore _ (a + 8) 0 8 (by omega) (by omega))).trans (hstore _ (a + 16) size 8 (by omega) (by omega))
    refine ⟨id, fun _ _ => .inl, ?_, by rintro b ⟨⟩, ?_⟩
    · intro x hx _
      apply hsame
      by_contra hin
      exact hx ⟨a, actualSize, .inl ha, by omega, by omega⟩
    · rintro b ⟨⟩
      refine ⟨⟨?_, ?_, load_store_of_lt (Nat.lt_of_lt_of_eq hlt (by decide))⟩,
        ⟨a, actualSize, .inl ha, le_rfl, by simp only [sizeofHeader]; omega⟩, rfl⟩
      · rw [(store_sameOutside _ (a + 16) size 8).load (.inl (by omega)),
          (store_sameOutside _ (a + 8) 0 8).load (.inl (by omega))]
        exact load_store_of_lt (by decide)
      · rw [(store_sameOutside _ (a + 16) size 8).load (.inl (by omega)),
          (store_sameOutside _ (a + 8) 0 8).load (.inl (by omega)),
          (store_sameOutside _ a blockMagic 4).load (.inr (by omega))]
        exact load_store_of_lt (by decide)

theorem of_mpMalloc (hblock : ∀ c, (h.classes c).blockSize = sizeClass c) (hsys : sys.Fresh h)
    (hlt : size < sizeT) (hwrap : ¬ Sound.Wraps size) {r : Allocation} (e : mpMalloc h sys size = some (h', r)) :
    Supplied sys h h' size r := by
  simp only [mpMalloc] at e
  split at e
  · cases e
    exact of_grown (.refl sys h) size
  · rename_i hpos
    split at e
    · rename_i hsmall
      obtain ⟨⟨h₁, b⟩, e₁, e₂⟩ := Option.bind_eq_some_iff.mp e
      cases e₂
      refine of_blockWithoutHeader hblock hsys ?_ e₁
      intro hmax
      simp only [alignUp, sizeT] at hmax ⊢
      omega
    · rename_i hbig
      have hactual : size + sizeofHeader ≤ alignUp ((size + sizeofHeader) % sizeT) ∧
          alignmentThreshold < alignUp ((size + sizeofHeader) % sizeT) := by
        simp only [alignUp, alignmentThreshold, sizeofHeader, sizeT, Sound.Wraps] at *
        omega
      split at e
      · exact of_mallocLarge hactual.1 hlt (Option.some.inj e)
      · obtain ⟨⟨h₁, b⟩, e₁, e₂⟩ := Option.bind_eq_some_iff.mp e
        cases e₂
        exact of_blockWithHeader hblock hsys hactual.1 hactual.2 e₁

end Supplied

/-- What a free does to the memory: bytes change only from `a` to `a + n`, regions may be unmapped. -/
structure Released (h h' : Heap) (a n : ℕ) : Prop where
  aligned : h.Aligned → h'.Aligned
  mapped : ∀ x k, h'.mapped x = some k → h.mapped x = some k
  bytes : SameOutside h.bytes h'.bytes a n

namespace Released

variable {h h' h'' : Heap} {a n c s size : ℕ}

theorem of_relinked (R : Relinked h h') (a n : ℕ) : Released h h' a n := by
  refine ⟨?_, ?_, ?_⟩
  · intro H t slab ht
    rw [R.slabs] at ht
    exact H t slab ht
  · rw [R.mapped]
    exact fun _ _ => id
  · rw [R.bytes]
    exact SameOutside.refl h.bytes a n

theorem trans (H : Released h h' a n) (H' : Released h' h'' a n) : Released h h'' a n :=
  ⟨H'.aligned ∘ H.aligned, fun x k hx => H.mapped x k (H'.mapped x k hx), H.bytes.trans H'.bytes⟩

theorem munmap_eq (e : h.munmap a n = some h') : h' = { h with mapped := Function.update h.mapped a none } := by
  rw [Heap.munmap] at e
  split at e
  · exact (Option.some.inj e).symm
  · cases e

theorem of_retire {slab : Slab} (a n : ℕ) (e : h.retire c s slab size = some h') : Released h h' a n := by
  rw [Heap.retire] at e
  split at e
  · obtain ⟨h₁, e₁, e₂⟩ := Option.bind_eq_some_iff.mp e
    obtain ⟨h₂, e₃, e₄⟩ := Option.bind_eq_some_iff.mp e₂
    cases e₄
    obtain rfl := munmap_eq e₃
    apply (of_relinked (listRemove_relinked e₁) a n).trans
    refine ⟨?_, ?_, SameOutside.refl _ _ _⟩
    · intro H t other ht
      rcases eq_or_ne t s with rfl | hts
      · simp at ht
      · simp only [Function.update_of_ne hts] at ht
        exact H t other ht
    · intro x k hx
      rcases eq_or_ne x slab.mem with rfl | hne
      · simp at hx
      · simpa only [Function.update_of_ne hne] using hx
  · obtain ⟨h₁, e₁, e₂⟩ := Option.bind_eq_some_iff.mp e
    obtain ⟨h₂, e₃, e₄⟩ := Option.bind_eq_some_iff.mp e₂
    cases e₄
    exact of_relinked (((listRemove_relinked e₁).trans (listInsert_relinked e₃)).trans (setCount_relinked ..)) a n

theorem of_slabFree (a n : ℕ) (e : slabFree h c s size = some h') : Released h h' a n := by
  obtain ⟨slab, -, e₁⟩ := Option.bind_eq_some_iff.mp e
  obtain ⟨h₁, e₂, e₃⟩ := Option.bind_eq_some_iff.mp e₁
  apply (of_relinked (reopen_relinked e₂) a n).trans
  split at e₃
  · exact of_retire a n e₃
  · cases e₃
    exact of_relinked (.refl _) a n

theorem of_pushed {slab : Slab} {bytes : ℕ → UInt8} (hslab : h.slabs s = some slab) (freeList freeBlocks : ℕ)
    (hsame : SameOutside h.bytes bytes a n)
    (e : slabFree { h.setSlab s { slab with freeList, freeBlocks } with bytes } c s size = some h') :
    Released h h' a n := by
  have H : Released h { h.setSlab s { slab with freeList, freeBlocks } with bytes } a n :=
    ⟨fun H => H.update rfl (H s slab hslab), fun _ _ => id, hsame⟩
  exact H.trans (of_slabFree a n e)

theorem of_freeBlock {b : Block} (e : PoolState.freeBlock h b = some h') : Released h h' b.addr 8 := by
  have hlink : ∀ m v, SameOutside m (store m b.addr v 8) b.addr 8 := fun m v => store_sameOutside m b.addr v 8
  rw [PoolState.freeBlock] at e
  split at e
  · rw [slabFreeWithHeader] at e
    split at e
    · cases e
      exact of_relinked (.refl h) _ _
    · obtain ⟨slab, hslab, e₁⟩ := Option.bind_eq_some_iff.mp e
      apply of_pushed hslab _ _ _ e₁
      exact ((store_sameOutside h.bytes b.addr 0 4).mono le_rfl (by omega)).trans (hlink _ _)
  · rw [slabFreeWithoutHeader] at e
    split at e
    · cases e
      exact of_relinked (.refl h) _ _
    · obtain ⟨slab, hslab, e₁⟩ := Option.bind_eq_some_iff.mp e
      exact of_pushed hslab _ _ (hlink _ _) e₁

end Released

end Lidis.Mempool
