import Lidis.MempoolMemory
import Mathlib.Data.Nat.Bitwise

namespace Lidis.Mempool

open ByteMemory

/-- SLAB_SIZE_ALIGNMENT is an int, so the mask is complemented as an int and then converted to uintptr_t. -/
def slabMask : UInt64 := (~~~((131072 : Int32) - 1)).toInt64.toUInt64

def ptrToSlabWord (ptr : UInt64) : UInt64 := ptr &&& slabMask

def mapPages (mapped : ℕ → Bool) (addr n : ℕ) : ℕ → Bool := fun a => mapped a || (decide (addr ≤ a) && decide (a < addr + n))

/-- munmap removes every page that the range touches, and nothing if the address is not the start of a page. -/
def unmapPages (page : ℕ) (mapped : ℕ → Bool) (addr n : ℕ) : ℕ → Bool :=
  if addr % page ≠ 0 then mapped
  else fun a => mapped a && !(decide (addr ≤ a) && decide (a < addr + (n + (page - 1)) / page * page))

/-- `alignmentToSlabSize` on machine words, with the pages that are mapped; `rawPtr` is what mmap answers,
`none` for MAP_FAILED. -/
def alignmentToSlabSizeWord (page : ℕ) (mapped : ℕ → Bool) (rawPtr : Option UInt64) (slabSize : UInt64) :
    Option UInt64 × (ℕ → Bool) :=
  if slabSize &&& (slabSize - 1) ≠ 0 then (none, mapped)
  else
    let allocSize := slabSize * 2
    match rawPtr with
    | none => (none, mapped)
    | some rawAddr =>
      let mapped := mapPages mapped rawAddr.toNat allocSize.toNat
      let alignmentAddr := (rawAddr + (slabSize - 1)) &&& ~~~(slabSize - 1)
      let headExcess := alignmentAddr - rawAddr
      let mapped := if 0 < headExcess then unmapPages page mapped rawAddr.toNat headExcess.toNat else mapped
      let tailExcess := allocSize - slabSize - headExcess
      let mapped :=
        if 0 < tailExcess then unmapPages page mapped (alignmentAddr + slabSize).toNat tailExcess.toNat else mapped
      (some alignmentAddr, mapped)

theorem land_high {w n : ℕ} (k : ℕ) (hn : n < 2 ^ (w + k)) : n &&& ((2 ^ w - 1) * 2 ^ k) = n / 2 ^ k * 2 ^ k := by
  apply Nat.eq_of_testBit_eq
  intro i
  rw [Nat.testBit_and, Nat.testBit_mul_two_pow, Nat.testBit_mul_two_pow, Nat.testBit_two_pow_sub_one,
    Nat.testBit_div_two_pow]
  by_cases hk : k ≤ i
  · rw [Nat.sub_add_cancel hk]
    by_cases hw : i - k < w
    · simp [hk, hw]
    · have hi : n.testBit i = false :=
        Nat.testBit_lt_two_pow (hn.trans_le (Nat.pow_le_pow_right (by decide) (by omega)))
      simp [hi]
  · simp [hk]

theorem toNat_and_slabMask (x : UInt64) : (x &&& slabMask).toNat = x.toNat / slabSizeAlignment * slabSizeAlignment := by
  have hmask : slabMask.toNat = (2 ^ 47 - 1) * 2 ^ 17 := by decide
  rw [UInt64.toNat_and, hmask, land_high 17 x.toNat_lt]
  rfl

theorem ptrToSlabWord_toNat (ptr : UInt64) : (ptrToSlabWord ptr).toNat = ptrToSlab ptr.toNat := toNat_and_slabMask ptr

theorem unmapPages_whole {page addr n : ℕ} (mapped : ℕ → Bool) (hpos : 0 < page) (haddr : page ∣ addr) (hn : page ∣ n) :
    unmapPages page mapped addr n = fun a => mapped a && !(decide (addr ≤ a) && decide (a < addr + n)) := by
  obtain ⟨m, rfl⟩ := hn
  have hround : (page * m + (page - 1)) / page * page = page * m := by
    rw [Nat.mul_add_div hpos, Nat.div_eq_of_lt (Nat.sub_one_lt_of_lt hpos), Nat.add_zero, Nat.mul_comm]
  rw [unmapPages, if_neg (not_not.mpr (Nat.mod_eq_zero_of_dvd haddr)), hround]

theorem unmapPages_pos {page : ℕ} {excess : UInt64} (mapped : ℕ → Bool) (addr : ℕ) (hpos : 0 < page) :
    (if 0 < excess then unmapPages page mapped addr excess.toNat else mapped) = unmapPages page mapped addr excess.toNat := by
  split_ifs with h
  · rfl
  · have h0 : excess.toNat = 0 := by
      rw [UInt64.lt_iff_toNat_lt, UInt64.toNat_zero] at h
      omega
    rw [unmapPages, h0, Nat.zero_add, Nat.div_eq_of_lt (Nat.sub_one_lt_of_lt hpos), Nat.zero_mul]
    split_ifs
    · rfl
    · funext a
      have hempty : (decide (addr ≤ a) && decide (a < addr + 0)) = false := by
        rw [Bool.and_eq_false_iff, decide_eq_false_iff_not, decide_eq_false_iff_not]
        omega
      rw [hempty, Bool.not_false, Bool.and_true]

theorem alignmentAddr_toNat {raw : UInt64} (h : raw.toNat + 131071 < 2 ^ 64) :
    ((raw + (131072 - 1)) &&& ~~~(131072 - 1)).toNat = (raw.toNat + 131071) / 131072 * 131072 := by
  have hsum : (raw + (131072 - 1)).toNat = raw.toNat + 131071 := by
    rw [UInt64.toNat_add]
    exact Nat.mod_eq_of_lt h
  have hmask := toNat_and_slabMask (raw + (131072 - 1))
  rwa [hsum] at hmask

theorem keptPages {raw addr size : ℕ} (mapped : ℕ → Bool) (hge : raw ≤ addr) (hle : addr + size ≤ raw + 2 * size) :
    (fun a => (mapPages mapped raw (2 * size) a && !(decide (raw ≤ a) && decide (a < raw + (addr - raw)))) &&
        !(decide (addr + size ≤ a) && decide (a < addr + size + (size - (addr - raw))))) =
      fun a => if raw ≤ a ∧ a < raw + 2 * size then decide (addr ≤ a ∧ a < addr + size) else mapped a := by
  funext a
  rw [Bool.eq_iff_iff]
  simp only [mapPages, Bool.and_eq_true, Bool.or_eq_true, Bool.not_eq_true', Bool.and_eq_false_iff, decide_eq_true_eq,
    decide_eq_false_iff_not]
  split_ifs with hin
  · rw [decide_eq_true_eq]
    omega
  · constructor
    · rintro ⟨⟨hm | hm, -⟩, -⟩
      · exact hm
      · exact absurd hm hin
    · intro hm
      refine ⟨⟨Or.inl hm, ?_⟩, ?_⟩ <;> omega

/-- Of the two slab sizes that were mapped, one aligned slab is left and everything around it is given back. -/
theorem alignmentToSlabSizeWord_keeps {page : ℕ} {raw : UInt64} (mapped : ℕ → Bool) (hpage : page ∣ slabSizeAlignment)
    (hraw : page ∣ raw.toNat) (htop : raw.toNat + 2 * slabSizeAlignment < sizeT) :
    ∃ addr : UInt64, alignmentToSlabSizeWord page mapped (some raw) 131072 =
        (some addr, fun a => if raw.toNat ≤ a ∧ a < raw.toNat + 2 * slabSizeAlignment
          then decide (addr.toNat ≤ a ∧ a < addr.toNat + slabSizeAlignment) else mapped a) ∧
      addr.toNat = (raw.toNat + (slabSizeAlignment - 1)) % sizeT / slabSizeAlignment * slabSizeAlignment ∧
      slabSizeAlignment ∣ addr.toNat ∧ raw.toNat ≤ addr.toNat ∧
      addr.toNat + slabSizeAlignment ≤ raw.toNat + 2 * slabSizeAlignment := by
  have hpos : 0 < page := Nat.pos_of_dvd_of_pos hpage (by decide)
  simp only [slabSizeAlignment, sizeT, Nat.reduceMul] at hpage htop ⊢
  have hroom : raw.toNat + 131071 < 2 ^ 64 := by omega
  have haddr := alignmentAddr_toNat hroom
  obtain ⟨addr, hdef⟩ : ∃ addr, addr = (raw + (131072 - 1)) &&& ~~~(131072 - 1) := ⟨_, rfl⟩
  rw [← hdef] at haddr
  have hge : raw.toNat ≤ addr.toNat := by omega
  have hle : addr.toNat + 131072 ≤ raw.toNat + 262144 := by omega
  have hhead : (addr - raw).toNat = addr.toNat - raw.toNat := UInt64.toNat_sub_of_le _ _ (UInt64.le_iff_toNat_le.mpr hge)
  have htail : ((131072 : UInt64) * 2 - 131072 - (addr - raw)).toNat = 131072 - (addr.toNat - raw.toNat) := by
    rw [UInt64.toNat_sub_of_le, hhead]
    · rfl
    · rw [UInt64.le_iff_toNat_le, hhead]
      change addr.toNat - raw.toNat ≤ 131072
      omega
  have hend : (addr + 131072).toNat = addr.toNat + 131072 := by
    rw [UInt64.toNat_add]
    exact Nat.mod_eq_of_lt (by change addr.toNat + 131072 < 2 ^ 64; omega)
  have hdvd : 131072 ∣ addr.toNat := ⟨_, haddr.trans (Nat.mul_comm _ _)⟩
  have hphead : page ∣ addr.toNat - raw.toNat := Nat.dvd_sub (hpage.trans hdvd) hraw
  have hpend : page ∣ addr.toNat + 131072 := Nat.dvd_add (hpage.trans hdvd) hpage
  have hptail : page ∣ 131072 - (addr.toNat - raw.toNat) := Nat.dvd_sub hpage hphead
  refine ⟨addr, ?_, ?_, hdvd, hge, hle⟩
  · have hcheck : ¬ (131072 : UInt64) &&& (131072 - 1) ≠ 0 := by decide
    have halloc : ((131072 : UInt64) * 2).toNat = 2 * 131072 := rfl
    rw [alignmentToSlabSizeWord, if_neg hcheck]
    dsimp only
    rw [unmapPages_pos _ _ hpos, unmapPages_pos _ _ hpos, ← hdef, hhead, htail, hend, halloc,
      unmapPages_whole _ hpos hraw hphead, unmapPages_whole _ hpos hpend hptail, keptPages mapped hge hle]
    rfl
  · rw [haddr, Nat.mod_eq_of_lt (by omega)]

/-- The free list that starts at `head`: `total` blocks of `size` bytes between `lo` and `hi`, none over another and each
at a multiple of 8. -/
def FreeBlocks (bytes : ℕ → UInt8) (head size total lo hi : ℕ) (free : List ℕ) : Prop :=
  Chain.Heads (nextFree bytes) 0 head free ∧ free.length = total ∧ free.Pairwise (fun a b => Apart a size b size) ∧
    ∀ b ∈ free, lo ≤ b ∧ b + size ≤ hi ∧ 8 ∣ b

theorem blocksFrom_apart (curr size n : ℕ) : (blocksFrom curr size n).Pairwise (fun a b => Apart a size b size) := by
  rw [blocksFrom, List.pairwise_map]
  refine List.pairwise_lt_range.imp ?_
  intro j k hjk
  have hle : (j + 1) * size ≤ k * size := Nat.mul_le_mul_right size hjk
  rw [Nat.succ_mul] at hle
  exact Or.inl (by omega)

theorem freeBlocks_carve {size total first lo hi : ℕ} (bytes : ℕ → UInt8) (hsize : 8 ≤ size) (htotal : 0 < total)
    (hsize8 : 8 ∣ size) (hfirst : 8 ∣ first) (hlo : lo ≤ first) (hhi : first + total * size ≤ hi) (htop : hi ≤ sizeT) :
    FreeBlocks (carve bytes first size (total - 1)) first size total lo hi (blocksFrom first size total) := by
  obtain ⟨n, rfl⟩ : ∃ n, total = n + 1 := ⟨total - 1, by omega⟩
  refine ⟨?_, length_blocksFrom _ _ _, blocksFrom_apart _ _ _, ?_⟩
  · rw [blocksFrom_succ]
    exact ⟨rfl, carve_linked hsize bytes first n (by omega)⟩
  · intro b hb
    obtain ⟨j, hj, rfl⟩ := List.mem_map.mp hb
    have hle : (j + 1) * size ≤ (n + 1) * size := Nat.mul_le_mul_right size (List.mem_range.mp hj)
    rw [Nat.succ_mul] at hle
    exact ⟨by omega, by omega, Nat.dvd_add hfirst (hsize8.mul_left j)⟩

theorem insertEmpty_some {h : Heap} {c s : ℕ} {slab : Slab} (hhead : h.nullOrSlab ((h.classes c).heads .emptySlabs) = true)
    (hs : h.slabs s = some slab) :
    ∃ h', h.insertEmpty c s = some h' ∧ h'.slabs = h.slabs ∧ h'.bytes = h.bytes ∧ h'.mapped = h.mapped := by
  have hslab : (h.slabs s).isSome = true := by rw [hs]; rfl
  simp only [Heap.insertEmpty, Heap.listInsert, hhead, hslab, Bool.and_self, ↓reduceIte]
  exact ⟨_, rfl, rfl, rfl, rfl⟩

theorem nullOrSlab_setSlab {h : Heap} {s a : ℕ} (slab : Slab) (ha : h.nullOrSlab a = true) :
    (h.setSlab s slab).nullOrSlab a = true := by
  simp only [Heap.nullOrSlab, Heap.setSlab, Bool.or_eq_true, beq_iff_eq] at ha ⊢
  rcases ha with ha | ha
  · exact Or.inl ha
  · right
    by_cases has : a = s
    · rw [has, Function.update_self]
      rfl
    · rwa [Function.update_of_ne has]

theorem sizeClass_le_slabClass {c : ℕ} (hc : c < classCount) : sizeClass c ≤ slabClass c ∧ sizeClass c ≤ 131024 := by
  revert c
  decide +kernel

theorem addPoolWithoutHeader_carves {h : Heap} {sys : System} {c mem : ℕ} (hc : c < classCount)
    (hlist : h.nullOrSlab ((h.classes c).heads .emptySlabs) = true)
    (hmem : alignmentToSlabSize sys slabSizeAlignment = some mem) (halign : slabSizeAlignment ∣ mem)
    (htop : mem + slabSizeAlignment ≤ sizeT) :
    ∃ h' slab free, addPoolWithoutHeader h sys c = some (h', 0) ∧ h'.slabs mem = some slab ∧ 0 < slab.totalBlocks ∧
      FreeBlocks h'.bytes slab.freeList (sizeClass c) slab.totalBlocks (mem + sizeofSlab) (mem + slabSizeAlignment) free := by
  have hsize := sizeClass_ge hc
  have htotal : 0 < 131024 / sizeClass c := Nat.div_pos (sizeClass_le_slabClass hc).2 (by omega)
  have hfit : 131024 / sizeClass c * sizeClass c ≤ 131024 := Nat.div_mul_le_self _ _
  have hup : alignUp sizeofSlab = 48 := by decide
  have hactual : slabSizeAlignment - 48 = 131024 := by decide
  simp only [addPoolWithoutHeader, hmem, hup, hactual]
  obtain ⟨h', e, hslabs, hbytes, -⟩ := insertEmpty_some (c := c) (s := mem)
    (h := { h.setSlab mem ⟨mem, 131024 / sizeClass c, 131024 / sizeClass c, mem + 48, slabMagic, c⟩ with
      mapped := Function.update h.mapped mem (some slabSizeAlignment)
      bytes := carve h.bytes (mem + 48) (sizeClass c) (131024 / sizeClass c - 1) })
    (nullOrSlab_setSlab _ hlist) (Function.update_self _ _ _)
  refine ⟨h', _, blocksFrom (mem + 48) (sizeClass c) (131024 / sizeClass c), by rw [e]; rfl,
    (congrFun hslabs mem).trans (Function.update_self _ _ _), htotal, ?_⟩
  rw [hbytes]
  have h8 : 8 ∣ mem := (show 8 ∣ slabSizeAlignment by decide).trans halign
  apply freeBlocks_carve h.bytes hsize htotal (sizeClass_dvd hc) (Nat.dvd_add h8 (by decide)) le_rfl _ htop
  simp only [slabSizeAlignment]
  omega

theorem addPoolWithHeader_carves {h : Heap} {sys : System} {c s mem : ℕ} (hc : c < classCount)
    (hblock : (h.classes c).blockSize = sizeClass c)
    (hlist : h.nullOrSlab ((h.classes c).heads .emptySlabs) = true) (hs : sys.malloc sizeofSlab = some s)
    (hmem : sys.mmap (slabClass c) = some mem) (halign : 8 ∣ mem) (htop : mem + slabClass c ≤ sizeT) :
    ∃ h' slab free, addPoolWithHeader h sys c = some (h', 0) ∧ h'.slabs s = some slab ∧ 0 < slab.totalBlocks ∧
      FreeBlocks h'.bytes slab.freeList (sizeClass c) slab.totalBlocks mem (mem + slabClass c) free := by
  have hsize := sizeClass_ge hc
  have htotal : 0 < slabClass c / sizeClass c := Nat.div_pos (sizeClass_le_slabClass hc).1 (by omega)
  have hfit : slabClass c / sizeClass c * sizeClass c ≤ slabClass c := Nat.div_mul_le_self _ _
  simp only [addPoolWithHeader, hs, hmem, hblock]
  obtain ⟨h', e, hslabs, hbytes, -⟩ := insertEmpty_some (c := c) (s := s)
    (h := { h.setSlab s ⟨mem, slabClass c / sizeClass c, slabClass c / sizeClass c, mem, 0, 0⟩ with
      mapped := Function.update h.mapped mem (some (slabClass c))
      bytes := carve h.bytes mem (sizeClass c) (slabClass c / sizeClass c - 1) })
    (nullOrSlab_setSlab _ hlist) (Function.update_self _ _ _)
  refine ⟨h', _, blocksFrom mem (sizeClass c) (slabClass c / sizeClass c), by rw [e]; rfl,
    (congrFun hslabs s).trans (Function.update_self _ _ _), htotal, ?_⟩
  rw [hbytes]
  exact freeBlocks_carve h.bytes hsize htotal (sizeClass_dvd hc) halign le_rfl (by omega) htop

/-- Every byte of a block of the slab leads back to it. -/
theorem ptrToSlabWord_inside {addr ptr : UInt64} (halign : slabSizeAlignment ∣ addr.toNat) (hlo : addr.toNat ≤ ptr.toNat)
    (hhi : ptr.toNat < addr.toNat + slabSizeAlignment) : ptrToSlabWord ptr = addr := by
  apply UInt64.toNat_inj.mp
  rw [ptrToSlabWord_toNat, ptrToSlab]
  obtain ⟨m, hm⟩ := halign
  have hquot : ptr.toNat / slabSizeAlignment = m := by
    rw [Nat.div_eq_iff (by decide)]
    simp only [slabSizeAlignment] at hm hhi ⊢
    omega
  rw [hquot, hm, Nat.mul_comm]

theorem slab_carving_sound (page : ℕ) (raw : UInt64) (mapped : ℕ → Bool) (h : Heap) (sys : System) (c s mem : ℕ)
    (hpage : 4096 ∣ page) (hslab : page ∣ slabSizeAlignment) (hraw : page ∣ raw.toNat)
    (htop : raw.toNat + 2 * slabSizeAlignment < sizeT) (hc : c < classCount)
    (hblock : (h.classes c).blockSize = sizeClass c)
    (hlist : h.nullOrSlab ((h.classes c).heads .emptySlabs) = true)
    (hmmap : sys.mmap (slabSizeAlignment * 2) = some raw.toNat) (hmalloc : sys.malloc sizeofSlab = some s)
    (hmem : sys.mmap (slabClass c) = some mem) (hmempage : page ∣ mem) (hmemtop : mem + slabClass c ≤ sizeT)
    (hapart : Apart s sizeofSlab mem (slabClass c)) :
    ∃ addr : UInt64,
      (alignmentToSlabSizeWord page mapped (some raw) 131072 =
          (some addr, fun a => if raw.toNat ≤ a ∧ a < raw.toNat + 2 * slabSizeAlignment
            then decide (addr.toNat ≤ a ∧ a < addr.toNat + slabSizeAlignment) else mapped a) ∧
        slabSizeAlignment ∣ addr.toNat ∧ raw.toNat ≤ addr.toNat ∧
        addr.toNat + slabSizeAlignment ≤ raw.toNat + 2 * slabSizeAlignment) ∧
      (∃ h' slab free, addPoolWithoutHeader h sys c = some (h', 0) ∧ h'.slabs addr.toNat = some slab ∧
        0 < slab.totalBlocks ∧
        FreeBlocks h'.bytes slab.freeList (sizeClass c) slab.totalBlocks (addr.toNat + sizeofSlab)
          (addr.toNat + slabSizeAlignment) free ∧
        ∀ b ∈ free, ∀ ptr : UInt64, b ≤ ptr.toNat → ptr.toNat < b + sizeClass c → ptrToSlabWord ptr = addr) ∧
      ∃ h' slab free, addPoolWithHeader h sys c = some (h', 0) ∧ h'.slabs s = some slab ∧ 0 < slab.totalBlocks ∧
        FreeBlocks h'.bytes slab.freeList (sizeClass c) slab.totalBlocks mem (mem + slabClass c) free ∧
        ∀ b ∈ free, Apart b (sizeClass c) s sizeofSlab := by
  obtain ⟨addr, halign, haddr, hdvd, hge, hle⟩ := alignmentToSlabSizeWord_keeps mapped hslab hraw htop
  refine ⟨addr, ⟨halign, hdvd, hge, hle⟩, ?_, ?_⟩
  · have hsys : alignmentToSlabSize sys slabSizeAlignment = some addr.toNat := by
      rw [alignmentToSlabSize, hmmap, haddr]
      rfl
    obtain ⟨h', slab, free, e, hget, htotal, hfree⟩ := addPoolWithoutHeader_carves hc hlist hsys hdvd (by omega)
    refine ⟨h', slab, free, e, hget, htotal, hfree, ?_⟩
    intro b hb ptr hlo hhi
    obtain ⟨hb1, hb2, -⟩ := hfree.2.2.2 b hb
    exact ptrToSlabWord_inside hdvd (by omega) (by omega)
  · have h8 : 8 ∣ mem := ((show 8 ∣ 4096 by decide).trans hpage).trans hmempage
    obtain ⟨h', slab, free, e, hget, htotal, hfree⟩ :=
      addPoolWithHeader_carves hc hblock hlist hmalloc hmem h8 hmemtop
    refine ⟨h', slab, free, e, hget, htotal, hfree, ?_⟩
    intro b hb
    obtain ⟨hb1, hb2, -⟩ := hfree.2.2.2 b hb
    exact hapart.symm.mono hb1 hb2 le_rfl le_rfl

def carvingSystem : System where
  malloc := fun _ => some 64
  mmap := fun n => if n = 262144 then some 0x7f0000001000 else some 0x7e0000000000

def carvingHeap : Heap := mpCreate ⟨fun _ => 0, fun _ => 0⟩ (fun _ => 0)

theorem slab_carving_fortyEight :
    ∃ addr : UInt64,
      (alignmentToSlabSizeWord 4096 (fun _ => false) (some 0x7f0000001000) 131072 =
          (some addr, fun a => if 0x7f0000001000 ≤ a ∧ a < 0x7f0000001000 + 2 * slabSizeAlignment
            then decide (addr.toNat ≤ a ∧ a < addr.toNat + slabSizeAlignment) else false) ∧
        slabSizeAlignment ∣ addr.toNat ∧ 0x7f0000001000 ≤ addr.toNat ∧
        addr.toNat + slabSizeAlignment ≤ 0x7f0000001000 + 2 * slabSizeAlignment) ∧
      (∃ h' slab free, addPoolWithoutHeader carvingHeap carvingSystem 3 = some (h', 0) ∧
        h'.slabs addr.toNat = some slab ∧ 0 < slab.totalBlocks ∧
        FreeBlocks h'.bytes slab.freeList 48 slab.totalBlocks (addr.toNat + sizeofSlab)
          (addr.toNat + slabSizeAlignment) free ∧
        ∀ b ∈ free, ∀ ptr : UInt64, b ≤ ptr.toNat → ptr.toNat < b + 48 → ptrToSlabWord ptr = addr) ∧
      ∃ h' slab free, addPoolWithHeader carvingHeap carvingSystem 3 = some (h', 0) ∧ h'.slabs 64 = some slab ∧
        0 < slab.totalBlocks ∧
        FreeBlocks h'.bytes slab.freeList 48 slab.totalBlocks 0x7e0000000000 (0x7e0000000000 + slabClass 3) free ∧
        ∀ b ∈ free, Apart b 48 64 sizeofSlab :=
  slab_carving_sound 4096 0x7f0000001000 (fun _ => false) carvingHeap carvingSystem 3 64 0x7e0000000000
    (dvd_refl 4096) (by decide) (by decide) (by decide) (by decide) rfl rfl rfl rfl rfl (by decide) (by decide)
    (Or.inl (by decide))

end Lidis.Mempool
