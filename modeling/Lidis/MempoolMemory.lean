import Mathlib.Data.List.Perm.Subperm
import Lidis.KvsMempool
import Lidis.Lib.Chain

namespace Lidis.Mempool

open ByteMemory

def regionOf (c : ℕ) : ℕ :=
  if sizeClass c ≤ alignmentThreshold then slabSizeAlignment else slabClass c

def firstOffset (c : ℕ) : ℕ :=
  if sizeClass c ≤ alignmentThreshold then alignUp sizeofSlab else 0

def totalOf (c : ℕ) : ℕ :=
  (regionOf c - firstOffset c) / sizeClass c

def IsBlock (c mem b : ℕ) : Prop :=
  ∃ j < totalOf c, b = mem + firstOffset c + j * sizeClass c

theorem sizeClass_dvd {c : ℕ} (hc : c < classCount) : 8 ∣ sizeClass c := by
  revert c
  decide +kernel

theorem sizeClass_ge {c : ℕ} (hc : c < classCount) : 8 ≤ sizeClass c := by
  revert c
  decide +kernel

theorem totalOf_pos {c : ℕ} (hc : c < classCount) : 0 < totalOf c := by
  revert c
  decide +kernel

theorem firstOffset_le {c : ℕ} (hc : c < classCount) : firstOffset c ≤ regionOf c := by
  revert c
  decide +kernel

namespace IsBlock

variable {c mem b b' : ℕ}

theorem within (hc : c < classCount) (h : IsBlock c mem b) :
    mem + firstOffset c ≤ b ∧ b + sizeClass c ≤ mem + regionOf c := by
  obtain ⟨j, hj, rfl⟩ := h
  have hle : (j + 1) * sizeClass c ≤ totalOf c * sizeClass c := Nat.mul_le_mul_right _ hj
  have htotal : totalOf c * sizeClass c ≤ regionOf c - firstOffset c := Nat.div_mul_le_self _ _
  have hfirst := firstOffset_le hc
  rw [Nat.succ_mul] at hle
  constructor <;> omega

theorem apart (h : IsBlock c mem b) (h' : IsBlock c mem b') (hne : b ≠ b') :
    Apart b (sizeClass c) b' (sizeClass c) := by
  obtain ⟨j, -, rfl⟩ := h
  obtain ⟨k, -, rfl⟩ := h'
  rcases Nat.lt_trichotomy j k with hlt | rfl | hlt
  · have hle : (j + 1) * sizeClass c ≤ k * sizeClass c := Nat.mul_le_mul_right _ hlt
    rw [Nat.succ_mul] at hle
    exact .inl (by omega)
  · exact absurd rfl hne
  · have hle : (k + 1) * sizeClass c ≤ j * sizeClass c := Nat.mul_le_mul_right _ hlt
    rw [Nat.succ_mul] at hle
    exact .inr (by omega)

end IsBlock

def blocksFrom (curr size n : ℕ) : List ℕ :=
  (List.range n).map (fun j => curr + j * size)

theorem blocksFrom_succ (curr size n : ℕ) :
    blocksFrom curr size (n + 1) = curr :: blocksFrom (curr + size) size n := by
  simp only [blocksFrom, List.range_succ_eq_map, List.map_cons, List.map_map, Nat.zero_mul, Nat.add_zero]
  congr 1
  apply List.map_congr_left
  intro j _
  simp only [Function.comp_apply, Nat.succ_mul]
  omega

theorem mem_blocksFrom {c mem b : ℕ} :
    b ∈ blocksFrom (mem + firstOffset c) (sizeClass c) (totalOf c) ↔ IsBlock c mem b := by
  simp only [blocksFrom, List.mem_map, List.mem_range, IsBlock, eq_comm]

theorem blocksFrom_nodup {curr size : ℕ} (hs : 0 < size) (n : ℕ) : (blocksFrom curr size n).Nodup := by
  apply List.Nodup.map _ List.nodup_range
  intro j k hjk
  exact Nat.eq_of_mul_eq_mul_right hs (Nat.add_left_cancel hjk)

theorem length_blocksFrom (curr size n : ℕ) : (blocksFrom curr size n).length = n := by
  simp [blocksFrom]

def nextFree (bytes : ℕ → UInt8) (b : ℕ) : ℕ := load bytes b 8

theorem carve_sameOutside {size : ℕ} (hs : 8 ≤ size) (bytes : ℕ → UInt8) (curr n : ℕ) :
    SameOutside bytes (carve bytes curr size n) curr ((n + 1) * size) := by
  induction n generalizing bytes curr with
  | zero => exact (store_sameOutside bytes curr 0 8).mono le_rfl (by omega)
  | succ n ih =>
    have hmul : (n + 1 + 1) * size = (n + 1) * size + size := Nat.succ_mul _ _
    have hfirst := (store_sameOutside bytes curr (curr + size) 8).mono
      (b := curr) (k := (n + 1 + 1) * size) le_rfl (by omega)
    exact hfirst.trans ((ih _ (curr + size)).mono (by omega) (by omega))

theorem carve_linked {size : ℕ} (hs : 8 ≤ size) (bytes : ℕ → UInt8) (curr n : ℕ)
    (hfit : curr + (n + 1) * size ≤ sizeT) :
    Chain.Linked (nextFree (carve bytes curr size n)) 0 curr (blocksFrom (curr + size) size n) := by
  induction n generalizing bytes curr with
  | zero => exact load_store_of_lt (by decide)
  | succ n ih =>
    have hmul : (n + 1 + 1) * size = (n + 1) * size + size := Nat.succ_mul _ _
    rw [blocksFrom_succ]
    refine ⟨?_, ih _ (curr + size) (by omega)⟩
    have hpos : 0 < (n + 1) * size := Nat.mul_pos (Nat.succ_pos n) (by omega)
    have hlater := (carve_sameOutside hs (store bytes curr (curr + size) 8) (curr + size) n).load
      (b := curr) (k := 8) (.inl (by omega))
    have hlt : curr + size < 256 ^ 8 := by
      have h64 : sizeT = 256 ^ 8 := by decide
      omega
    exact hlater.trans (load_store_of_lt hlt)

theorem nextFree_carve {size : ℕ} (hs : 8 ≤ size) (bytes : ℕ → UInt8) (curr n : ℕ)
    (hfit : curr + (n + 1 + 1) * size ≤ sizeT) : nextFree (carve bytes curr size (n + 1)) curr = curr + size := by
  have hlinked := carve_linked hs bytes curr (n + 1) hfit
  rw [blocksFrom_succ] at hlinked
  exact hlinked.1

def Headed (c : ℕ) : Prop := alignmentThreshold < sizeClass c

instance (c : ℕ) : Decidable (Headed c) := by
  unfold Headed
  infer_instance

structure SlabOk (h : Heap) (live : List Block) (c : ℕ) (slab : Slab) (free : List ℕ) : Prop where
  mapped : h.mapped slab.mem = some (regionOf c)
  pos : 0 < slab.mem
  fits : slab.mem + regionOf c ≤ sizeT
  total : slab.totalBlocks = totalOf c
  magic : slab.slabMagic = slabMagic ↔ ¬ Headed c
  classid : ¬ Headed c → slab.classid = c
  chain : Chain.Heads (nextFree h.bytes) 0 slab.freeList free
  nodup : free.Nodup
  inside : ∀ b ∈ free, IsBlock c slab.mem b
  count : free.length = slab.freeBlocks
  live_iff : ∀ b, IsBlock c slab.mem b → (b ∈ live.map Block.addr ↔ b ∉ free)

structure LiveOk (h : Heap) (cls : ℕ → Option ℕ) (b : Block) : Prop where
  class_eq : cls b.slab = some b.classId
  block : ∃ slab, h.slabs b.slab = some slab ∧ IsBlock b.classId slab.mem b.addr
  headed : b.headed = true ↔ Headed b.classId
  header : b.headed = true → load h.bytes (b.addr + 4) 1 = b.classId ∧ load h.bytes (b.addr + 8) 8 = b.slab

/-- The bytes of a block that its user may write. -/
def Block.usable (b : Block) : ℕ :=
  if b.headed then sizeClass b.classId - sizeofHeader else sizeClass b.classId

theorem LiveOk.ptr_bounds {h : Heap} {cls : ℕ → Option ℕ} {b : Block} (hb : LiveOk h cls b) :
    b.addr ≤ b.ptr ∧ b.ptr + b.usable = b.addr + sizeClass b.classId := by
  rw [Block.ptr, Block.usable]
  split
  · have hsize : alignmentThreshold < sizeClass b.classId := hb.headed.mp (by assumption)
    simp only [alignmentThreshold, sizeofHeader] at hsize ⊢
    omega
  · exact ⟨le_rfl, rfl⟩

theorem LiveOk.not_headed {h : Heap} {cls : ℕ → Option ℕ} {b : Block} (hb : LiveOk h cls b)
    (hh : b.headed = false) : ¬ Headed b.classId := by
  intro hd
  rw [hb.headed.mpr hd] at hh
  cases hh

/-- The memory of the slabs: `cls` gives the class of every `slab_t`. -/
structure Carved (h : Heap) (live : List Block) (cls : ℕ → Option ℕ) : Prop where
  slab : ∀ {s c}, cls s = some c →
    c < classCount ∧ 0 < s ∧ s < sizeT ∧ ∃ slab free, h.slabs s = some slab ∧ SlabOk h live c slab free
  unused : ∀ {s}, cls s = none → h.slabs s = none
  apart : ∀ {s t c d slab slab'}, s ≠ t → cls s = some c → cls t = some d → h.slabs s = some slab →
    h.slabs t = some slab' → Apart slab.mem (regionOf c) slab'.mem (regionOf d)
  held : ∀ b ∈ live, LiveOk h cls b
  distinct : (live.map Block.addr).Nodup

namespace SlabOk

variable {h : Heap} {live : List Block} {c : ℕ} {slab : Slab} {free : List ℕ}

theorem subperm (H : SlabOk h live c slab free) :
    List.Subperm free (blocksFrom (slab.mem + firstOffset c) (sizeClass c) (totalOf c)) :=
  H.nodup.subperm (fun b hb => mem_blocksFrom.mpr (H.inside b hb))

theorem freeBlocks_le (H : SlabOk h live c slab free) : slab.freeBlocks ≤ slab.totalBlocks := by
  have hle := H.subperm.length_le
  rwa [H.count, length_blocksFrom, ← H.total] at hle

theorem mem_free_of_full (H : SlabOk h live c slab free) (hfull : slab.freeBlocks = slab.totalBlocks) {b : ℕ}
    (hb : IsBlock c slab.mem b) : b ∈ free := by
  have hlen : (blocksFrom (slab.mem + firstOffset c) (sizeClass c) (totalOf c)).length ≤ free.length := by
    rw [length_blocksFrom, H.count, hfull, H.total]
  exact (H.subperm.perm_of_length_le hlen).mem_iff.mpr (mem_blocksFrom.mpr hb)

theorem freeList_lt (hc : c < classCount) (H : SlabOk h live c slab free) : slab.freeList < 256 ^ 8 := by
  have hchain := H.chain
  cases free with
  | nil =>
    rw [show slab.freeList = 0 from hchain]
    decide
  | cons b rest =>
    rw [hchain.1]
    have hwithin := (H.inside b List.mem_cons_self).within hc
    have hsize := sizeClass_ge hc
    have hfits := H.fits
    have h64 : sizeT = 256 ^ 8 := by decide
    omega

end SlabOk

namespace Carved

variable {h : Heap} {live : List Block} {cls : ℕ → Option ℕ} {s t c d b b' : ℕ} {slab slab' : Slab}

theorem apart_blocks (C : Carved h live cls) (hs : cls s = some c) (ht : cls t = some d)
    (hslab : h.slabs s = some slab) (hslab' : h.slabs t = some slab') (hb : IsBlock c slab.mem b)
    (hb' : IsBlock d slab'.mem b') (hne : b ≠ b') : Apart b (sizeClass c) b' (sizeClass d) := by
  rcases eq_or_ne s t with rfl | hst
  · obtain rfl : c = d := Option.some.inj (hs.symm.trans ht)
    obtain rfl : slab = slab' := Option.some.inj (hslab.symm.trans hslab')
    exact hb.apart hb' hne
  · have hap := C.apart hst hs ht hslab hslab'
    have hw := hb.within (C.slab hs).1
    have hw' := hb'.within (C.slab ht).1
    exact hap.mono (by omega) (by omega) (by omega) (by omega)

theorem ne_of_slab_ne (C : Carved h live cls) (hst : s ≠ t) (hs : cls s = some c) (ht : cls t = some d)
    (hslab : h.slabs s = some slab) (hslab' : h.slabs t = some slab') (hb : IsBlock c slab.mem b)
    (hb' : IsBlock d slab'.mem b') : b ≠ b' := by
  rintro rfl
  have hap := C.apart hst hs ht hslab hslab'
  have hw := hb.within (C.slab hs).1
  have hw' := hb'.within (C.slab ht).1
  have hsize := sizeClass_ge (C.slab hs).1
  have hsize' := sizeClass_ge (C.slab ht).1
  rcases hap with hap | hap <;> omega

end Carved

structure Edit (h h' : Heap) (s c b : ℕ) (slab slab' : Slab) : Prop where
  before : h.slabs s = some slab
  block : IsBlock c slab.mem b
  after : h'.slabs = Function.update h.slabs s (some slab')
  mem : slab'.mem = slab.mem
  mapped : h'.mapped = h.mapped
  bytes : SameOutside h.bytes h'.bytes b (sizeClass c)

namespace Edit

variable {h h' : Heap} {live live' : List Block} {cls : ℕ → Option ℕ} {s t c d b : ℕ} {slab slab' other : Slab}
  {free : List ℕ}

theorem nextFree (E : Edit h h' s c b slab slab') (C : Carved h live cls) (hs : cls s = some c)
    (ht : cls t = some d) (hother : h.slabs t = some other) {x : ℕ} (hx : IsBlock d other.mem x) (hne : x ≠ b) :
    nextFree h'.bytes x = nextFree h.bytes x := by
  have hap := C.apart_blocks ht hs hother E.before hx E.block hne
  have hsize := sizeClass_ge (C.slab ht).1
  exact E.bytes.load (hap.mono le_rfl (by omega) le_rfl le_rfl)

theorem liveOk (E : Edit h h' s c b slab slab') (C : Carved h live cls) (hs : cls s = some c) {l : Block}
    (hl : LiveOk h cls l) (hne : l.addr ≠ b) : LiveOk h' cls l := by
  obtain ⟨other, hother, hblock⟩ := hl.block
  have hap := C.apart_blocks hl.class_eq hs hother E.before hblock E.block hne
  refine ⟨hl.class_eq, ?_, hl.headed, ?_⟩
  · rw [E.after]
    rcases eq_or_ne l.slab s with he | hls
    · obtain rfl : other = slab := Option.some.inj ((he ▸ hother).symm.trans E.before)
      exact ⟨slab', by rw [he, Function.update_self], E.mem ▸ hblock⟩
    · exact ⟨other, by rw [Function.update_of_ne hls, hother], hblock⟩
  · intro hh
    have hsize : alignmentThreshold < sizeClass l.classId := hl.headed.mp hh
    simp only [alignmentThreshold] at hsize
    obtain ⟨hclass, hslab⟩ := hl.header hh
    constructor
    · rw [← hclass]
      exact E.bytes.load (hap.mono (by omega) (by omega) le_rfl le_rfl)
    · rw [← hslab]
      exact E.bytes.load (hap.mono (by omega) (by omega) le_rfl le_rfl)

theorem carved (E : Edit h h' s c b slab slab') (C : Carved h live cls) (hs : cls s = some c)
    (hlive : ∀ x, x ≠ b → (x ∈ live'.map Block.addr ↔ x ∈ live.map Block.addr))
    (hok : SlabOk h' live' c slab' free) (hheld : ∀ l ∈ live', LiveOk h' cls l)
    (hdistinct : (live'.map Block.addr).Nodup) : Carved h' live' cls := by
  have hslabs : ∀ {t d new}, cls t = some d → h'.slabs t = some new →
      ∃ old, h.slabs t = some old ∧ new.mem = old.mem := by
    intro t d new ht hnew
    rw [E.after] at hnew
    rcases eq_or_ne t s with rfl | hts
    · rw [Function.update_self] at hnew
      exact ⟨slab, E.before, Option.some.inj hnew ▸ E.mem⟩
    · rw [Function.update_of_ne hts] at hnew
      exact ⟨new, hnew, rfl⟩
  refine ⟨?_, ?_, ?_, hheld, hdistinct⟩
  · intro t d ht
    obtain ⟨hd, hpos, hlt, other, frees, hother, hok'⟩ := C.slab ht
    refine ⟨hd, hpos, hlt, ?_⟩
    rcases eq_or_ne t s with rfl | hts
    · obtain rfl : c = d := Option.some.inj (hs.symm.trans ht)
      exact ⟨slab', free, by rw [E.after, Function.update_self], hok⟩
    · have hne : ∀ x, IsBlock d other.mem x → x ≠ b := fun x hx =>
        C.ne_of_slab_ne hts ht hs hother E.before hx E.block
      refine ⟨other, frees, by rw [E.after, Function.update_of_ne hts, hother], ?_⟩
      refine { hok' with mapped := E.mapped ▸ hok'.mapped, chain := hok'.chain.congr ?_, live_iff := ?_ }
      · intro x hx
        have hblock := hok'.inside x hx
        exact E.nextFree C hs ht hother hblock (hne x hblock)
      · intro x hx
        rw [hlive x (hne x hx)]
        exact hok'.live_iff x hx
  · intro t ht
    have hts : t ≠ s := by
      rintro rfl
      simp [ht] at hs
    rw [E.after, Function.update_of_ne hts]
    exact C.unused ht
  · intro t u d e new new' htu ht hu hnew hnew'
    obtain ⟨old, hold, hmem⟩ := hslabs ht hnew
    obtain ⟨old', hold', hmem'⟩ := hslabs hu hnew'
    rw [hmem, hmem']
    exact C.apart htu ht hu hold hold'

end Edit

namespace Carved

variable {h h' : Heap} {live : List Block} {cls : ℕ → Option ℕ} {s c : ℕ} {slab slab' : Slab} {free : List ℕ}

theorem slabOk_of (C : Carved h live cls) (hs : cls s = some c) (hslab : h.slabs s = some slab) :
    ∃ free, SlabOk h live c slab free := by
  obtain ⟨-, -, -, other, free, hother, hok⟩ := C.slab hs
  obtain rfl : slab = other := Option.some.inj (hslab.symm.trans hother)
  exact ⟨free, hok⟩

theorem freeList_free (C : Carved h live cls) (hs : cls s = some c) (hslab : h.slabs s = some slab)
    (hfree : slab.freeBlocks ≠ 0) :
    IsBlock c slab.mem slab.freeList ∧ slab.freeList ∉ live.map Block.addr := by
  obtain ⟨free, hok⟩ := C.slabOk_of hs hslab
  have hchain := hok.chain
  cases free with
  | nil => exact absurd hok.count.symm hfree
  | cons b rest =>
    have hb := hok.inside b List.mem_cons_self
    rw [hchain.1]
    exact ⟨hb, fun hm => (hok.live_iff b hb).mp hm List.mem_cons_self⟩

theorem take (C : Carved h live cls) (hs : cls s = some c) (hfree : slab.freeBlocks ≠ 0)
    (E : Edit h h' s c slab.freeList slab
      { slab with freeList := nextFree h.bytes slab.freeList, freeBlocks := slab.freeBlocks - 1 })
    {l : Block} (hl : l.addr = slab.freeList) (hlive : LiveOk h' cls l) : Carved h' (l :: live) cls := by
  obtain ⟨free, hok⟩ := C.slabOk_of hs E.before
  obtain ⟨-, hnot⟩ := C.freeList_free hs E.before hfree
  have hchain := hok.chain
  have hcount := hok.count
  cases free with
  | nil => exact absurd hok.count.symm hfree
  | cons b rest =>
    obtain ⟨hb, hlinked⟩ := hchain
    obtain ⟨hbrest, hnd⟩ := List.nodup_cons.mp hok.nodup
    rw [hb] at E hl hnot
    have hlives : ∀ x, x ≠ b → (x ∈ (l :: live).map Block.addr ↔ x ∈ live.map Block.addr) := by
      intro x hx
      simp [hl, hx]
    have hinside : ∀ x ∈ rest, IsBlock c slab.mem x := fun x hx => hok.inside x (List.mem_cons_of_mem b hx)
    have hok' : SlabOk h' (l :: live) c
        { slab with freeList := nextFree h.bytes b, freeBlocks := slab.freeBlocks - 1 } rest := by
      refine { hok with
        mapped := E.mapped ▸ hok.mapped, chain := (Chain.Heads.linked_iff.mp hlinked).congr ?_, nodup := hnd,
        inside := hinside, count := ?_, live_iff := ?_ }
      · intro x hx
        exact E.nextFree C hs hs E.before (hinside x hx) (fun he => hbrest (he ▸ hx))
      · simp only [← hcount, List.length_cons, Nat.add_sub_cancel]
      · intro x hx
        rcases eq_or_ne x b with rfl | hxb
        · simp [hl, hbrest]
        · rw [hlives x hxb, hok.live_iff x hx]
          simp [hxb]
    apply E.carved C hs hlives hok'
    · intro k hk
      rcases List.mem_cons.mp hk with rfl | hk
      · exact hlive
      · exact E.liveOk C hs (C.held k hk) (fun he => hnot (he ▸ List.mem_map_of_mem hk))
    · rw [List.map_cons, hl]
      exact List.nodup_cons.mpr ⟨hnot, C.distinct⟩

theorem eq_of_addr_eq (C : Carved h live cls) {k l : Block} (hk : k ∈ live) (hl : l ∈ live)
    (he : k.addr = l.addr) : k = l :=
  List.inj_on_of_nodup_map C.distinct hk hl he

theorem mem_addr_erase (C : Carved h live cls) {l : Block} (hl : l ∈ live) {x : ℕ} :
    x ∈ (live.erase l).map Block.addr ↔ x ∈ live.map Block.addr ∧ x ≠ l.addr := by
  have hnd : live.Nodup := C.distinct.of_map
  constructor
  · intro hx
    obtain ⟨k, hk, rfl⟩ := List.mem_map.mp hx
    obtain ⟨hkl, hk⟩ := hnd.mem_erase_iff.mp hk
    exact ⟨List.mem_map_of_mem hk, fun he => hkl (C.eq_of_addr_eq hk hl he)⟩
  · rintro ⟨hx, hne⟩
    obtain ⟨k, hk, rfl⟩ := List.mem_map.mp hx
    exact List.mem_map_of_mem (hnd.mem_erase_iff.mpr ⟨fun he => hne (he ▸ rfl), hk⟩)

theorem addr_notMem_free (C : Carved h live cls) {l : Block} (hl : l ∈ live) (hslab : h.slabs l.slab = some slab)
    (hok : SlabOk h live l.classId slab free) : l.addr ∉ free := by
  obtain ⟨other, hother, hblock⟩ := (C.held l hl).block
  obtain rfl : slab = other := Option.some.inj (hslab.symm.trans hother)
  exact (hok.live_iff l.addr hblock).mp (List.mem_map_of_mem hl)

theorem put (C : Carved h live cls) {l : Block} (hl : l ∈ live)
    (E : Edit h h' l.slab l.classId l.addr slab
      { slab with freeList := l.addr, freeBlocks := slab.freeBlocks + 1 })
    (hnext : nextFree h'.bytes l.addr = slab.freeList) : Carved h' (live.erase l) cls := by
  have hs := (C.held l hl).class_eq
  obtain ⟨free, hok⟩ := C.slabOk_of hs E.before
  have hnot := C.addr_notMem_free hl E.before hok
  have hlives : ∀ x, x ≠ l.addr → (x ∈ (live.erase l).map Block.addr ↔ x ∈ live.map Block.addr) := by
    intro x hx
    rw [C.mem_addr_erase hl]
    exact and_iff_left hx
  have hok' : SlabOk h' (live.erase l) l.classId
      { slab with freeList := l.addr, freeBlocks := slab.freeBlocks + 1 } (l.addr :: free) := by
    refine { hok with
      mapped := E.mapped ▸ hok.mapped, chain := ⟨rfl, Chain.Heads.linked_iff.mpr ?_⟩,
      nodup := List.nodup_cons.mpr ⟨hnot, hok.nodup⟩, inside := ?_, count := ?_, live_iff := ?_ }
    · rw [hnext]
      apply hok.chain.congr
      intro x hx
      exact E.nextFree C hs hs E.before (hok.inside x hx) (fun he => hnot (he ▸ hx))
    · intro x hx
      rcases List.mem_cons.mp hx with rfl | hx
      · exact E.block
      · exact hok.inside x hx
    · rw [List.length_cons, hok.count]
    · intro x hx
      rw [C.mem_addr_erase hl, hok.live_iff x hx, List.mem_cons, not_or, and_comm]
  apply E.carved C hs hlives hok'
  · intro k hk
    obtain ⟨hkl, hk⟩ := C.distinct.of_map.mem_erase_iff.mp hk
    exact E.liveOk C hs (C.held k hk) (fun he => hkl (C.eq_of_addr_eq hk hl he))
  · exact C.distinct.sublist (List.erase_sublist.map _)

theorem overwrite (C : Carved h live cls) {l : Block} (hl : l ∈ live) {bytes : ℕ → UInt8}
    (hsame : SameOutside h.bytes bytes l.ptr l.usable) : Carved { h with bytes } live cls := by
  have hlok := C.held l hl
  have hs := hlok.class_eq
  obtain ⟨slab, hslab, hblock⟩ := hlok.block
  obtain ⟨free, hok⟩ := C.slabOk_of hs hslab
  have hnot := C.addr_notMem_free hl hslab hok
  obtain ⟨hptr, hend⟩ := hlok.ptr_bounds
  have E : Edit h { h with bytes } l.slab l.classId l.addr slab slab :=
    ⟨hslab, hblock, by rw [← hslab, Function.update_eq_self], rfl, rfl, hsame.mono hptr (by omega)⟩
  have hok' : SlabOk { h with bytes } live l.classId slab free := by
    refine { hok with mapped := hok.mapped, chain := hok.chain.congr ?_ }
    intro x hx
    exact E.nextFree C hs hs hslab (hok.inside x hx) (fun he => hnot (he ▸ hx))
  apply E.carved C hs (fun x _ => Iff.rfl) hok' ?_ C.distinct
  intro k hk
  rcases eq_or_ne k.addr l.addr with he | hne
  · obtain rfl := C.eq_of_addr_eq hk hl he
    refine { hlok with block := hlok.block, header := ?_ }
    intro hh
    obtain ⟨hclass, haddr⟩ := hlok.header hh
    rw [Block.ptr, if_pos hh, sizeofHeader] at hsame
    exact ⟨(hsame.load (.inl (by omega))).trans hclass, (hsame.load (.inl (by omega))).trans haddr⟩
  · exact E.liveOk C hs (C.held k hk) hne

theorem write (C : Carved h live cls) {l : Block} (hl : l ∈ live) {a : ℕ} (ha : l.ptr ≤ a)
    (ha' : a < l.addr + sizeClass l.classId) (v : UInt8) :
    Carved { h with bytes := Function.update h.bytes a v } live cls := by
  obtain ⟨-, hend⟩ := (C.held l hl).ptr_bounds
  have hone : SameOutside h.bytes (Function.update h.bytes a v) a 1 :=
    fun x hx => Function.update_of_ne (by omega) v h.bytes
  exact C.overwrite hl (hone.mono ha (by omega))

section Regions

variable {t d : ℕ} {other : Slab}

theorem regionOf_pos {c : ℕ} (hc : c < classCount) : 0 < regionOf c := by
  revert c
  decide +kernel

structure Fresh (h h' : Heap) (s c : ℕ) (slab : Slab) : Prop where
  valid : c < classCount
  pos : 0 < s
  lt : s < sizeT
  slabs : h'.slabs = Function.update h.slabs s (some slab)
  mapped : h'.mapped = Function.update h.mapped slab.mem (some (regionOf c))
  bytes : h'.bytes = carve h.bytes (slab.mem + firstOffset c) (sizeClass c) (totalOf c - 1)
  mem_pos : 0 < slab.mem
  fits : slab.mem + regionOf c ≤ sizeT
  region : ∀ x n, h.mapped x = some n → Apart slab.mem (regionOf c) x n
  total : slab.totalBlocks = totalOf c
  free : slab.freeBlocks = totalOf c
  first : slab.freeList = slab.mem + firstOffset c
  magic : slab.slabMagic = slabMagic ↔ ¬ Headed c
  classid : ¬ Headed c → slab.classid = c

theorem Fresh.sameOutside (F : Fresh h h' s c slab) : SameOutside h.bytes h'.bytes slab.mem (regionOf c) := by
  have hsize := sizeClass_ge F.valid
  have hpos := totalOf_pos F.valid
  have htotal : totalOf c * sizeClass c ≤ regionOf c - firstOffset c := Nat.div_mul_le_self _ _
  have hfirst := firstOffset_le F.valid
  have hsame := carve_sameOutside hsize h.bytes (slab.mem + firstOffset c) (totalOf c - 1)
  rw [Nat.sub_add_cancel hpos] at hsame
  rw [F.bytes]
  exact hsame.mono (by omega) (by omega)

theorem Fresh.slabOk (C : Carved h live cls) (F : Fresh h h' s c slab) :
    SlabOk h' live c slab (blocksFrom (slab.mem + firstOffset c) (sizeClass c) (totalOf c)) := by
  have hsize := sizeClass_ge F.valid
  have hpos := totalOf_pos F.valid
  have htotal : totalOf c * sizeClass c ≤ regionOf c - firstOffset c := Nat.div_mul_le_self _ _
  have hfirst := firstOffset_le F.valid
  have hfits := F.fits
  obtain ⟨n, hn⟩ : ∃ n, totalOf c = n + 1 := ⟨totalOf c - 1, by omega⟩
  refine
    { mapped := by rw [F.mapped, Function.update_self]
      pos := F.mem_pos, fits := F.fits, total := F.total, magic := F.magic, classid := F.classid
      chain := ?_
      nodup := blocksFrom_nodup (by omega) _
      inside := fun b hb => mem_blocksFrom.mp hb
      count := by rw [length_blocksFrom, F.free]
      live_iff := ?_ }
  · rw [F.bytes, F.first, hn, blocksFrom_succ]
    rw [hn] at htotal
    exact ⟨rfl, carve_linked hsize h.bytes _ n (by omega)⟩
  · intro b hb
    constructor
    · intro hm
      obtain ⟨l, hl, rfl⟩ := List.mem_map.mp hm
      obtain ⟨other, hother, hblock⟩ := (C.held l hl).block
      obtain ⟨hd, -⟩ := C.slab (C.held l hl).class_eq
      obtain ⟨free, hok⟩ := C.slabOk_of (C.held l hl).class_eq hother
      have hw := hb.within F.valid
      have hw' := hblock.within hd
      have hsize' := sizeClass_ge hd
      rcases F.region _ _ hok.mapped with hap | hap <;> omega
    · intro hm
      exact absurd (mem_blocksFrom.mpr hb) hm

theorem outside (C : Carved h live cls) {a n : ℕ} (hsame : SameOutside h.bytes h'.bytes a n)
    (hap : ∀ x k, h.mapped x = some k → Apart a n x k) (hslabs : h'.slabs = h.slabs)
    (hmapped : h'.mapped = h.mapped) : Carved h' live cls := by
  have hregion : ∀ {t d other x k}, cls t = some d → h.slabs t = some other → other.mem ≤ x →
      x + k ≤ other.mem + regionOf d → load h'.bytes x k = load h.bytes x k := by
    intro t d other x k ht hother hx hk
    obtain ⟨free, hok⟩ := C.slabOk_of ht hother
    exact hsame.load ((hap _ _ hok.mapped).symm.mono hx hk le_rfl le_rfl)
  refine ⟨?_, ?_, ?_, ?_, C.distinct⟩
  · intro t d ht
    obtain ⟨hd, hpos, hlt, other, free, hother, hok⟩ := C.slab ht
    refine ⟨hd, hpos, hlt, other, free, by rw [hslabs, hother], { hok with mapped := ?_, chain := ?_ }⟩
    · rw [hmapped, hok.mapped]
    · apply hok.chain.congr
      intro x hx
      have hw := (hok.inside x hx).within hd
      have hsize := sizeClass_ge hd
      exact hregion ht hother (by omega) (by omega)
  · intro t ht
    rw [hslabs]
    exact C.unused ht
  · intro t u d e new new' htu ht hu ht' hu'
    rw [hslabs] at ht' hu'
    exact C.apart htu ht hu ht' hu'
  · intro l hl
    have hlok := C.held l hl
    obtain ⟨other, hother, hblock⟩ := hlok.block
    have hw := hblock.within (C.slab hlok.class_eq).1
    refine { hlok with block := ⟨other, by rw [hslabs, hother], hblock⟩, header := ?_ }
    intro hh
    have hsize : alignmentThreshold < sizeClass l.classId := hlok.headed.mp hh
    simp only [alignmentThreshold] at hsize
    obtain ⟨hclass, haddr⟩ := hlok.header hh
    constructor
    · exact (hregion hlok.class_eq hother (by omega) (by omega)).trans hclass
    · exact (hregion hlok.class_eq hother (by omega) (by omega)).trans haddr

theorem add (C : Carved h live cls) (hs : cls s = none) (F : Fresh h h' s c slab) :
    Carved h' live (Function.update cls s (some c)) := by
  have C' : Carved { h with bytes := h'.bytes } live cls := C.outside F.sameOutside F.region rfl rfl
  have hslabs : ∀ {t}, t ≠ s → h'.slabs t = h.slabs t := by
    intro t hts
    rw [F.slabs, Function.update_of_ne hts]
  have hold : ∀ {t d}, t ≠ s → Function.update cls s (some c) t = some d → cls t = some d := by
    intro t d hts ht
    rwa [Function.update_of_ne hts] at ht
  have hregion : ∀ {t d other}, cls t = some d → h.slabs t = some other →
      Apart slab.mem (regionOf c) other.mem (regionOf d) := by
    intro t d other ht hother
    obtain ⟨free, hok⟩ := C.slabOk_of ht hother
    exact F.region _ _ hok.mapped
  refine ⟨?_, ?_, ?_, ?_, C.distinct⟩
  · intro t d ht
    rcases eq_or_ne t s with rfl | hts
    · rw [Function.update_self] at ht
      obtain rfl := Option.some.inj ht
      exact ⟨F.valid, F.pos, F.lt, slab, _, by rw [F.slabs, Function.update_self], F.slabOk C⟩
    · obtain ⟨hd, hpos, hlt, other, free, hother, hok⟩ := C'.slab (hold hts ht)
      refine ⟨hd, hpos, hlt, other, free, (hslabs hts).trans hother, { hok with mapped := ?_, chain := hok.chain }⟩
      have hmem : other.mem ≠ slab.mem := by
        have hpos := regionOf_pos hd
        have hpos' := regionOf_pos F.valid
        rcases hregion (hold hts ht) hother with hap | hap <;> omega
      rw [F.mapped, Function.update_of_ne hmem]
      exact hok.mapped
  · intro t ht
    have hts : t ≠ s := by
      rintro rfl
      simp at ht
    rw [Function.update_of_ne hts] at ht
    exact (hslabs hts).trans (C.unused ht)
  · intro t u d e new new' htu ht hu ht' hu'
    rcases eq_or_ne t s with rfl | hts
    · rw [Function.update_self] at ht
      rw [F.slabs, Function.update_self] at ht'
      obtain rfl := Option.some.inj ht
      obtain rfl := Option.some.inj ht'
      exact hregion (hold htu.symm hu) ((hslabs htu.symm).symm.trans hu')
    · rcases eq_or_ne u s with rfl | hus
      · rw [Function.update_self] at hu
        rw [F.slabs, Function.update_self] at hu'
        obtain rfl := Option.some.inj hu
        obtain rfl := Option.some.inj hu'
        exact (hregion (hold hts ht) ((hslabs hts).symm.trans ht')).symm
      · exact C.apart htu (hold hts ht) (hold hus hu) ((hslabs hts).symm.trans ht') ((hslabs hus).symm.trans hu')
  · intro l hl
    have hlok := C'.held l hl
    have hls : l.slab ≠ s := by
      intro he
      have hclass := hlok.class_eq
      rw [he, hs] at hclass
      exact absurd hclass (by simp)
    obtain ⟨other, hother, hblock⟩ := hlok.block
    exact ⟨by rw [Function.update_of_ne hls, hlok.class_eq], ⟨other, (hslabs hls).trans hother, hblock⟩,
      hlok.headed, hlok.header⟩

theorem drop (C : Carved h live cls) (hs : cls s = some c) (hslab : h.slabs s = some slab)
    (hempty : slab.freeBlocks = slab.totalBlocks) (hslabs : h'.slabs = Function.update h.slabs s none)
    (hmapped : h'.mapped = Function.update h.mapped slab.mem none) (hbytes : h'.bytes = h.bytes) :
    Carved h' live (Function.update cls s none) := by
  have hkeep : ∀ {t d}, Function.update cls s none t = some d → t ≠ s ∧ cls t = some d := by
    intro t d ht
    rcases eq_or_ne t s with rfl | hts
    · simp at ht
    · exact ⟨hts, by rwa [Function.update_of_ne hts] at ht⟩
  have hother : ∀ {t}, t ≠ s → h'.slabs t = h.slabs t := by
    intro t hts
    rw [hslabs, Function.update_of_ne hts]
  refine ⟨?_, ?_, ?_, ?_, C.distinct⟩
  · intro t d ht
    obtain ⟨hts, ht⟩ := hkeep ht
    obtain ⟨hd, hpos, hlt, other, free, hslab', hok⟩ := C.slab ht
    have hap := C.apart hts ht hs hslab' hslab
    have hmem : other.mem ≠ slab.mem := by
      have := regionOf_pos hd
      have := regionOf_pos (C.slab hs).1
      rcases hap with hap | hap <;> omega
    refine ⟨hd, hpos, hlt, other, free, (hother hts).trans hslab', { hok with mapped := ?_, chain := ?_ }⟩
    · rw [hmapped, Function.update_of_ne hmem, hok.mapped]
    · rw [hbytes]
      exact hok.chain
  · intro t ht
    rcases eq_or_ne t s with rfl | hts
    · rw [hslabs, Function.update_self]
    · rw [Function.update_of_ne hts] at ht
      exact (hother hts).trans (C.unused ht)
  · intro t u d e new new' htu ht hu ht' hu'
    obtain ⟨hts, ht⟩ := hkeep ht
    obtain ⟨hus, hu⟩ := hkeep hu
    exact C.apart htu ht hu ((hother hts).symm.trans ht') ((hother hus).symm.trans hu')
  · intro l hl
    have hlok := C.held l hl
    obtain ⟨other, hslab', hblock⟩ := hlok.block
    have hls : l.slab ≠ s := by
      rintro rfl
      obtain rfl : slab = other := Option.some.inj (hslab.symm.trans hslab')
      obtain ⟨free, hok⟩ := C.slabOk_of hlok.class_eq hslab
      exact C.addr_notMem_free hl hslab hok (hok.mem_free_of_full hempty hblock)
    exact ⟨by rw [Function.update_of_ne hls, hlok.class_eq], ⟨other, (hother hls).trans hslab', hblock⟩,
      hlok.headed, by rw [hbytes]; exact hlok.header⟩

end Regions

end Carved

end Lidis.Mempool
