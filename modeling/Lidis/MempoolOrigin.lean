import Mathlib.Data.List.Pairwise
import Lidis.MempoolFrame

namespace Lidis.Mempool

open ByteMemory DoublyLinked

/-- A block that `mp_malloc` took from `malloc`. -/
structure Large where
  header : ℕ
  size : ℕ
  deriving DecidableEq

def Large.extent (l : Large) : ℕ := sizeofHeader + l.size

def Large.Apart (l k : Large) : Prop := ByteMemory.Apart l.header l.extent k.header k.extent

instance : Std.Symm Large.Apart := ⟨fun _ _ h => ByteMemory.Apart.symm h⟩

inductive Held
  | block (b : Block)
  | large (l : Large)
  deriving DecidableEq

namespace Held

def ptr : Held → ℕ
  | .block b => b.ptr
  | .large l => l.header + sizeofHeader

def base : Held → ℕ
  | .block b => b.addr
  | .large l => l.header

def extent : Held → ℕ
  | .block b => sizeClass b.classId
  | .large l => l.extent

def usable : Held → ℕ
  | .block b => b.usable
  | .large l => l.size

def headed : Held → Bool
  | .block b => b.headed
  | .large _ => true

def flag : Held → ℕ
  | .block _ => blockFlag
  | .large _ => blockFlagLarge

/-- The old capacity of `mp_realloc`. -/
def capacity : Held → ℕ
  | .block b => sizeClass b.classId
  | .large l => l.size

def origin : Held → Branch
  | .block b => if b.headed then .withHeader else .withoutHeader b.slab
  | .large _ => .large

end Held

/-- The four bytes before a block without header, where they belong to another block, spell the mark of a header. -/
def Spoofed (h : Heap) : Held → Prop
  | .block b => b.headed = false ∧ b.slab + sizeofSlab + sizeofHeader ≤ b.addr ∧
      load h.bytes (b.addr - sizeofHeader) 4 = blockMagic
  | .large _ => False

structure Arena where
  heap : Heap
  live : List Block
  large : List Large

inductive ArenaOp
  | malloc (sys : System) (size : ℕ)
  | free (p : Held)
  | realloc (sys : System) (p : Held) (size : ℕ)
  | write (a : ℕ) (v : UInt8)

namespace Arena

def start (links : Links ℕ) (bytes : ℕ → UInt8) : Arena :=
  ⟨mpCreate links bytes, [], []⟩

def Holds (A : Arena) : Held → Prop
  | .block b => b ∈ A.live
  | .large l => l ∈ A.large

def add (A : Arena) (size : ℕ) : Allocation → Arena
  | .null => A
  | .block b => { A with live := b :: A.live }
  | .large header => { A with large := ⟨header, size⟩ :: A.large }

def drop (A : Arena) : Held → Arena
  | .block b => { A with live := A.live.erase b }
  | .large l => { A with large := A.large.erase l }

def step (A : Arena) : ArenaOp → Option Arena
  | .malloc sys size => do
    let (heap, r) ← mpMalloc A.heap sys size
    return { A with heap }.add size r
  | .free p => do
    let heap ← mpFree A.heap p.ptr
    return { A with heap }.drop p
  | .realloc sys p size => do
    let (heap, r) ← mpRealloc A.heap sys p.ptr size
    match r with
    | .null => return if size = 0 then { A with heap }.drop p else { A with heap }
    | .inPlace => return { A with heap }
    | .moved r _ => return ({ A with heap }.add size r).drop p
  | .write a v => some { A with heap.bytes := Function.update A.heap.bytes a v }

def run : List ArenaOp → Arena → Option Arena
  | [], A => some A
  | op :: ops, A => do run ops (← A.step op)

/-- The regions the system hands out overlap nothing that the pools or their users hold. -/
structure Fresh (A : Arena) (sys : System) : Prop where
  heap : sys.Fresh A.heap
  large : ∀ a n, sys.malloc n = some a ∨ sys.mmap n = some a → ∀ l ∈ A.large, Apart a n l.header l.extent

/-- Users pass pointers they hold and write to the bytes they may use. -/
def Legal (A : Arena) : ArenaOp → Prop
  | .malloc sys size => size < sizeT ∧ A.Fresh sys
  | .free p => A.Holds p
  | .realloc sys p size => A.Holds p ∧ size < sizeT ∧ A.Fresh sys
  | .write a _ => ∃ p, A.Holds p ∧ p.ptr ≤ a ∧ a < p.ptr + p.usable

/-- No requested size wraps and no block given back is mistaken for another kind. -/
def Clean (A : Arena) : ArenaOp → Prop
  | .malloc _ size => ¬ Sound.Wraps size
  | .free p => ¬ Spoofed A.heap p
  | .realloc _ p size => ¬ Spoofed A.heap p ∧ size + 31 < sizeT
  | .write _ _ => True

def Permitted : Arena → List ArenaOp → Prop
  | _, [] => True
  | A, op :: ops => A.Legal op ∧ A.Clean op ∧ ∀ A', A.step op = some A' → Permitted A' ops

/-- What users hold lies apart, in slabs that hold together or outside of them. -/
structure Laid (A : Arena) : Prop where
  sound : ∃ cls lists, Sound A.heap A.live cls lists 0
  aligned : A.heap.Aligned
  outside : ∀ l ∈ A.large, ∀ x k, A.heap.mapped x = some k → Apart l.header l.extent x k
  distinct : A.large.Pairwise Large.Apart

namespace Laid

variable {A : Arena} {p q : Held}

theorem region (H : Laid A) {b : Block} (hb : b ∈ A.live) :
    ∃ slab, A.heap.slabs b.slab = some slab ∧ A.heap.mapped slab.mem = some (regionOf b.classId) ∧
      0 < slab.mem ∧ slab.mem ≤ b.addr ∧ b.addr + sizeClass b.classId ≤ slab.mem + regionOf b.classId := by
  obtain ⟨cls, lists, S⟩ := H.sound
  have hlok := S.inv.carved.held b hb
  obtain ⟨slab, hslab, hblock⟩ := hlok.block
  obtain ⟨free, hok⟩ := S.inv.carved.slabOk_of hlok.class_eq hslab
  have hw := hblock.within (S.inv.carved.slab hlok.class_eq).1
  exact ⟨slab, hslab, hok.mapped, hok.pos, by omega, hw.2⟩

theorem apart (H : Laid A) (hp : A.Holds p) (hq : A.Holds q) (hne : p ≠ q) :
    Apart p.base p.extent q.base q.extent := by
  have hmixed : ∀ {b : Block} {l : Large}, b ∈ A.live → l ∈ A.large →
      Apart l.header l.extent b.addr (sizeClass b.classId) := by
    intro b l hb hl
    obtain ⟨slab, -, hmapped, -, hlow, hhigh⟩ := H.region hb
    exact (H.outside l hl _ _ hmapped).mono le_rfl le_rfl hlow hhigh
  cases p with
  | block b =>
    cases q with
    | block b' =>
      obtain ⟨cls, lists, S⟩ := H.sound
      have hlok := S.inv.carved.held b hp
      have hlok' := S.inv.carved.held b' hq
      obtain ⟨slab, hslab, hblock⟩ := hlok.block
      obtain ⟨slab', hslab', hblock'⟩ := hlok'.block
      apply S.inv.carved.apart_blocks hlok.class_eq hlok'.class_eq hslab hslab' hblock hblock'
      intro he
      exact hne (congrArg Held.block (S.inv.carved.eq_of_addr_eq hp hq he))
    | large l => exact (hmixed hp hq).symm
  | large l =>
    cases q with
    | block b => exact hmixed hq hp
    | large k =>
      apply H.distinct.forall hp hq
      intro he
      exact hne (congrArg Held.large he)

theorem ptr_bounds (H : Laid A) (hp : A.Holds p) :
    p.base ≤ p.ptr ∧ p.ptr + p.usable = p.base + p.extent ∧
      (p.headed = true → p.ptr = p.base + sizeofHeader ∧ sizeofHeader ≤ p.extent) := by
  cases p with
  | block b =>
    obtain ⟨cls, lists, S⟩ := H.sound
    have hlok := S.inv.carved.held b hp
    obtain ⟨hlow, hhigh⟩ := hlok.ptr_bounds
    refine ⟨hlow, hhigh, ?_⟩
    intro hh
    have hh : b.headed = true := hh
    have hsize : alignmentThreshold < sizeClass b.classId := hlok.headed.mp hh
    refine ⟨by simp only [Held.ptr, Held.base, Block.ptr, if_pos hh], ?_⟩
    simp only [Held.extent, sizeofHeader, alignmentThreshold] at hsize ⊢
    omega
  | large l =>
    have hsize : sizeofHeader ≤ l.extent := Nat.le_add_right _ _
    refine ⟨Nat.le_add_right _ _, Nat.add_assoc _ _ _, fun _ => ⟨rfl, hsize⟩⟩

theorem ptr_ne_zero (H : Laid A) (hp : A.Holds p) : p.ptr ≠ 0 := by
  obtain ⟨hle, -, -⟩ := H.ptr_bounds hp
  cases p with
  | block b =>
    obtain ⟨slab, -, -, hpos, hlow, -⟩ := H.region hp
    simp only [Held.base] at hle
    omega
  | large l => exact Nat.succ_ne_zero _

theorem apart_of_slab_ne (H : Laid A) {cls : ℕ → Option ℕ} {lists : ℕ × SlabList → List ℕ}
    (S : Sound A.heap A.live cls lists 0) (hq : A.Holds q) {s c : ℕ} {slab : Slab} (hs : cls s = some c)
    (hslab : A.heap.slabs s = some slab) (hne : ∀ b, q = .block b → b.slab ≠ s) :
    Apart q.base q.extent slab.mem (regionOf c) := by
  cases q with
  | block b =>
    have hlok := S.inv.carved.held b hq
    obtain ⟨other, hother, hblock⟩ := hlok.block
    have hap := S.inv.carved.apart (hne b rfl) hlok.class_eq hs hother hslab
    have hw := hblock.within (S.inv.carved.slab hlok.class_eq).1
    exact hap.mono (show other.mem ≤ b.addr by omega) hw.2 le_rfl le_rfl
  | large l =>
    obtain ⟨free, hok⟩ := S.inv.carved.slabOk_of hs hslab
    exact H.outside l hq _ _ hok.mapped

theorem apart_slab (H : Laid A) (hp : A.Holds p) (hh : p.headed = true) {s : ℕ} {slab : Slab}
    (hslab : A.heap.slabs s = some slab) (hmagic : slab.slabMagic = slabMagic) :
    Apart p.base p.extent s slabSizeAlignment := by
  obtain ⟨cls, lists, S⟩ := H.sound
  obtain ⟨c, hc⟩ : ∃ c, cls s = some c := by
    rw [← Option.ne_none_iff_exists']
    intro hnone
    simp [S.inv.carved.unused hnone] at hslab
  obtain ⟨free, hok⟩ := S.inv.carved.slabOk_of hc hslab
  have hnot : ¬ Headed c := hok.magic.mp hmagic
  have hregion : regionOf c = slabSizeAlignment := if_pos (Nat.not_lt.mp hnot)
  obtain ⟨hmem, -⟩ := H.aligned s slab hslab hmagic
  rw [← hregion]
  nth_rewrite 1 [← hmem]
  apply H.apart_of_slab_ne S hp hc hslab
  rintro b rfl rfl
  have hlok := S.inv.carved.held b hp
  obtain rfl := Option.some.inj (hlok.class_eq.symm.trans hc)
  exact hnot (hlok.headed.mp hh)

theorem sizeClass_mod {c : ℕ} (hc : c < classCount) : sizeClass c % 8 = 0 := by
  revert c
  decide +kernel

theorem totalOf_lt {c : ℕ} (hc : c < classCount) : totalOf c < blockMagic := by
  revert c
  decide +kernel

/-- A live block without header, found from its address. -/
structure Masked (A : Arena) (b : Block) (slab : Slab) : Prop where
  found : A.heap.slabs b.slab = some slab
  mem : slab.mem = b.slab
  magic : slab.slabMagic = slabMagic
  classid : slab.classid = b.classId
  mask : b.slab % slabSizeAlignment = 0
  mod : b.addr % 8 = 0
  low : b.slab + sizeofSlab ≤ b.addr
  high : b.addr + sizeClass b.classId ≤ b.slab + slabSizeAlignment
  freeBlocks : slab.freeBlocks < blockMagic
  freeList : slab.freeList % 8 = 0

theorem masked (H : Laid A) {b : Block} (hb : b ∈ A.live) (hh : b.headed = false) :
    ∃ slab, Masked A b slab := by
  obtain ⟨cls, lists, S⟩ := H.sound
  have hlok := S.inv.carved.held b hb
  obtain ⟨slab, hslab, hblock⟩ := hlok.block
  obtain ⟨free, hok⟩ := S.inv.carved.slabOk_of hlok.class_eq hslab
  obtain ⟨hc, -⟩ := S.inv.carved.slab hlok.class_eq
  have hnot := hlok.not_headed hh
  have hregion : regionOf b.classId = slabSizeAlignment := if_pos (Nat.not_lt.mp hnot)
  have hfirst : firstOffset b.classId = 48 := if_pos (Nat.not_lt.mp hnot)
  have hmagic := hok.magic.mpr hnot
  obtain ⟨hmem, hmask⟩ := H.aligned b.slab slab hslab hmagic
  have hmod : ∀ x, IsBlock b.classId slab.mem x → x % 8 = 0 := by
    rintro x ⟨j, -, rfl⟩
    have hmul : j * sizeClass b.classId % 8 = 0 := by rw [Nat.mul_mod, sizeClass_mod hc, Nat.mul_zero, Nat.zero_mod]
    simp only [hmem, hfirst, slabSizeAlignment] at hmask ⊢
    omega
  have hw := hblock.within hc
  rw [hmem, hfirst, hregion] at hw
  refine ⟨slab, hslab, hmem, hmagic, hok.classid hnot, hmask, hmod _ hblock, hw.1, hw.2, ?_, ?_⟩
  · have hle := hok.freeBlocks_le
    rw [hok.total] at hle
    exact Nat.lt_of_le_of_lt hle (totalOf_lt hc)
  · have hchain := hok.chain
    cases free with
    | nil => rw [show slab.freeList = 0 from hchain]
    | cons x rest =>
      rw [hchain.1]
      exact hmod x (hok.inside x List.mem_cons_self)

theorem Masked.ptrToSlab {b : Block} {slab : Slab} (M : Masked A b slab) (hc : 0 < sizeClass b.classId) :
    ptrToSlab b.addr = b.slab ∧ ptrToSlab (b.addr - sizeofHeader) = b.slab := by
  have hmask := M.mask
  have hlow := M.low
  have hhigh := M.high
  simp only [Mempool.ptrToSlab, slabSizeAlignment, sizeofSlab, sizeofHeader] at *
  omega

theorem Masked.word_ne {b : Block} {slab : Slab} (M : Masked A b slab)
    (hlt : b.addr - sizeofHeader - b.slab < sizeofSlab) :
    slab.word (b.addr - sizeofHeader - b.slab) ≠ blockMagic := by
  have hblocks := M.freeBlocks
  have hlist := M.freeList
  have hoffset : b.addr - sizeofHeader - b.slab = 24 ∨ b.addr - sizeofHeader - b.slab = 32 ∨
      b.addr - sizeofHeader - b.slab = 40 := by
    have hmask := M.mask
    have hmod := M.mod
    have hlow := M.low
    simp only [slabSizeAlignment, sizeofSlab, sizeofHeader] at *
    omega
  rcases hoffset with h | h | h
  · rw [h, show slab.word 24 = slab.freeBlocks % 2 ^ 32 from rfl]
    simp only [blockMagic] at hblocks ⊢
    omega
  · rw [h, show slab.word 32 = slab.freeList % 2 ^ 32 from rfl]
    simp only [blockMagic]
    omega
  · rw [h, show slab.word 40 = slab.slabMagic from rfl, M.magic]
    decide

end Laid

/-- Every header still carries what `mp_malloc` wrote. -/
structure Stands (A : Arena) : Prop extends Laid A where
  stamped : ∀ p, A.Holds p → p.headed = true → Stamped A.heap.bytes p.base p.flag p.capacity

namespace Stands

variable {A : Arena} {p q : Held}

theorem readMagic_base (H : Stands A) (hp : A.Holds p) (hh : p.headed = true) :
    readMagic A.heap p.base = blockMagic := by
  have hload := (H.stamped p hp hh).magic
  obtain ⟨-, -, hbounds⟩ := H.ptr_bounds hp
  obtain ⟨-, hle⟩ := hbounds hh
  rw [readMagic]
  split
  · exact hload
  · rename_i slab hslab
    rw [if_neg]
    · exact hload
    · rintro ⟨hmagic, hlt⟩
      -- a block with a header is no part of a slab without headers
      have hap := H.apart_slab hp hh hslab hmagic
      simp only [Apart, ptrToSlab, sizeofSlab, sizeofHeader, slabSizeAlignment] at hap hlt hle
      omega

theorem readMagic_eq_iff (H : Stands A) {b : Block} (hb : b ∈ A.live) (hh : b.headed = false) :
    readMagic A.heap (b.addr - sizeofHeader) = blockMagic ↔ Spoofed A.heap (.block b) := by
  obtain ⟨slab, M⟩ := H.masked hb hh
  obtain ⟨cls, lists, S⟩ := H.sound
  have hsize := sizeClass_ge (S.inv.carved.slab (S.inv.carved.held b hb).class_eq).1
  obtain ⟨-, hmask⟩ := M.ptrToSlab (by omega)
  have hlow := M.low
  have hthere : b.addr - sizeofHeader - b.slab < sizeofSlab ↔ ¬ b.slab + sizeofSlab + sizeofHeader ≤ b.addr := by
    simp only [sizeofSlab, sizeofHeader] at hlow ⊢
    omega
  rw [readMagic, hmask, M.found, Spoofed]
  simp only [M.magic, true_and, hh]
  by_cases hlt : b.addr - sizeofHeader - b.slab < sizeofSlab
  · rw [if_pos hlt]
    exact iff_of_false (M.word_ne hlt) (fun hs => hthere.mp hlt hs.1)
  · rw [if_neg hlt]
    exact (and_iff_right (not_not.mp (fun hs => hlt (hthere.mpr hs)))).symm

theorem branch_iff (H : Stands A) (hp : A.Holds p) :
    branch A.heap p.ptr = some p.origin ↔ ¬ Spoofed A.heap p := by
  cases p with
  | large l =>
    have hread := H.readMagic_base hp rfl
    have hflag := (H.stamped _ hp rfl).flag
    simp only [Held.base, Held.flag] at hread hflag
    simp only [branch, Held.ptr, Nat.add_sub_cancel, hread, hflag, if_true, Held.origin, Spoofed, not_false_iff]
  | block b =>
    obtain ⟨cls, lists, S⟩ := H.sound
    have hlok := S.inv.carved.held b hp
    obtain ⟨hc, hpos, -⟩ := S.inv.carved.slab hlok.class_eq
    cases hh : b.headed with
    | true =>
      have hread := H.readMagic_base hp hh
      have hflag := (H.stamped _ hp hh).flag
      obtain ⟨slab, hslab, hblock⟩ := hlok.block
      obtain ⟨free, hok⟩ := S.inv.carved.slabOk_of hlok.class_eq hslab
      obtain ⟨hclass, haddr⟩ := hlok.header hh
      have hmem := hok.pos
      simp only [Held.base, Held.flag] at hread hflag
      have hplain : blockFlag ≠ blockFlagLarge := by decide
      have hvalid : ¬ (b.classId ≥ classCount ∨ b.slab = 0) := by omega
      simp only [branch, Held.ptr, Block.ptr, hh, if_true, Nat.add_sub_cancel, hread, hflag, if_neg hplain, hclass,
        haddr, if_neg hvalid, hslab, Held.origin, Spoofed, bind, Option.bind, pure, if_neg (Nat.ne_of_gt hmem)]
      simp
    | false =>
      have hiff := H.readMagic_eq_iff hp hh
      obtain ⟨slab, M⟩ := H.masked hp hh
      obtain ⟨hmask, -⟩ := M.ptrToSlab (Nat.lt_of_lt_of_le (by decide) (sizeClass_ge hc))
      simp only [Held.ptr, Block.ptr, Held.origin, hh, Bool.false_eq_true, if_false]
      by_cases hs : Spoofed A.heap (.block b)
      · refine iff_of_false ?_ (not_not.mpr hs)
        simp only [branch, hiff.mpr hs, if_true]
        split
        · simp
        · split
          · simp
          · intro he
            obtain ⟨other, -, he⟩ := Option.bind_eq_some_iff.mp he
            split at he <;> cases he
      · refine iff_of_true ?_ hs
        simp only [branch, if_neg (fun he => hs (hiff.mp he)), hmask, if_neg (Nat.ne_of_gt hpos), M.found, M.magic,
          if_true, bind, Option.bind, pure]

end Stands

end Arena

end Lidis.Mempool
