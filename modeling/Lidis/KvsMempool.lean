import Mathlib.Data.Nat.Notation
import Lidis.Lib.ByteMemory
import Lidis.Lib.DoublyLinked

namespace Lidis.Mempool

open ByteMemory DoublyLinked

def maxEmptySlabs : ℕ := 1
def classCount : ℕ := 35
def slabSizeAlignment : ℕ := 128 * 1024
def alignmentThreshold : ℕ := 128
def largeThreshold : ℕ := 8192
def blockMagic : ℕ := 0x20260602
def slabMagic : ℕ := 0x20260629
def blockFlag : ℕ := 0
def blockFlagLarge : ℕ := 1
def sizeofSlab : ℕ := 48
def sizeofHeader : ℕ := 24

def sizeT : ℕ := 2 ^ 64

def alignUp (x : ℕ) : ℕ :=
  (x + 7) % sizeT / 8 * 8

def sizeClasses : List ℕ :=
  [8, 16, 32, 48, 56, 64, 72, 80,
   96, 112, 128,
   160, 192, 224, 256,
   320, 384, 448, 512,
   640, 768, 896, 1024,
   1280, 1536, 1792, 2048,
   2560, 3072, 3584, 4096,
   5120, 6144, 7168, 8192]

def slabClasses : List ℕ :=
  [8 * 1024, 16 * 1024, 32 * 1024, 48 * 1024, 56 * 1024, 64 * 1024, 72 * 1024, 80 * 1024,
   96 * 512, 112 * 512, 128 * 512,
   160 * 256, 192 * 256, 224 * 256, 256 * 256,
   320 * 128, 384 * 128, 448 * 128, 512 * 128,
   640 * 64, 768 * 64, 896 * 64, 1024 * 64,
   1280 * 32, 1536 * 32, 1792 * 32, 2048 * 32,
   2560 * 16, 3072 * 16, 3584 * 16, 4096 * 16,
   5120 * 8, 6144 * 8, 7168 * 8, 8192 * 8]

def sizeClass (c : ℕ) : ℕ := sizeClasses.getD c 0
def slabClass (c : ℕ) : ℕ := slabClasses.getD c 0

inductive SlabList
  | partialSlabs
  | fullSlabs
  | emptySlabs
  deriving DecidableEq

structure MemPool where
  blockSize : ℕ
  emptySlabCount : ℕ
  heads : SlabList → ℕ

structure Slab where
  mem : ℕ
  freeBlocks : ℕ
  totalBlocks : ℕ
  freeList : ℕ
  slabMagic : ℕ
  classid : ℕ

/-- The pools and the memory they work on: the `slab_t` at each address, the mapped regions by their start,
the bytes of the blocks. -/
structure Heap where
  links : Links ℕ
  slabs : ℕ → Option Slab
  mapped : ℕ → Option ℕ
  bytes : ℕ → UInt8
  classes : ℕ → MemPool

/-- What `malloc` and `mmap` answer for a requested size during one call. -/
structure System where
  malloc : ℕ → Option ℕ
  mmap : ℕ → Option ℕ

namespace Heap

def setPool (h : Heap) (c : ℕ) (pool : MemPool) : Heap :=
  { h with classes := Function.update h.classes c pool }

def setSlab (h : Heap) (s : ℕ) (slab : Slab) : Heap :=
  { h with slabs := Function.update h.slabs s (some slab) }

def setHead (h : Heap) (c : ℕ) (w : SlabList) (head : ℕ) : Heap :=
  h.setPool c { h.classes c with heads := Function.update (h.classes c).heads w head }

def setCount (h : Heap) (c n : ℕ) : Heap :=
  h.setPool c { h.classes c with emptySlabCount := n }

def nullOrSlab (h : Heap) (s : ℕ) : Bool :=
  s == 0 || (h.slabs s).isSome

def listInsert (h : Heap) (c : ℕ) (w : SlabList) (item : ℕ) : Option Heap :=
  let list := (h.classes c).heads w
  if h.nullOrSlab list && (h.slabs item).isSome then
    some (({ h with links := h.links.insert 0 list item } : Heap).setHead c w item)
  else none

def listRemove (h : Heap) (c : ℕ) (w : SlabList) (item : ℕ) : Option Heap :=
  let list := (h.classes c).heads w
  if (h.slabs item).isSome && h.nullOrSlab (h.links.next item) && h.nullOrSlab (h.links.prev item) then
    some (({ h with links := h.links.remove 0 item } : Heap).setHead c w (h.links.headAfter 0 list item))
  else none

def munmap (h : Heap) (a n : ℕ) : Option Heap :=
  if h.mapped a = some n then some { h with mapped := Function.update h.mapped a none } else none

end Heap

def carve (bytes : ℕ → UInt8) (curr size : ℕ) : ℕ → (ℕ → UInt8)
  | 0 => store bytes curr 0 8
  | n + 1 => carve (store bytes curr (curr + size) 8) (curr + size) size n

def alignmentToSlabSize (sys : System) (slabSize : ℕ) : Option ℕ := do
  let rawAddr ← sys.mmap (slabSize * 2)
  return (rawAddr + (slabSize - 1)) % sizeT / slabSize * slabSize

def mpCreate (links : Links ℕ) (bytes : ℕ → UInt8) : Heap where
  links := links
  slabs := fun _ => none
  mapped := fun _ => none
  bytes := bytes
  classes := fun c => { blockSize := sizeClass c, emptySlabCount := 0, heads := fun _ => 0 }

def getClassId (size : ℕ) : Option ℕ :=
  (List.range classCount).find? (fun i => size ≤ sizeClass i)

def Heap.insertEmpty (h : Heap) (c s : ℕ) : Option Heap := do
  let h ← h.listInsert c .emptySlabs s
  return h.setCount c ((h.classes c).emptySlabCount + 1)

def addPoolWithHeader (h : Heap) (sys : System) (c : ℕ) : Option (Heap × ℤ) :=
  match sys.malloc sizeofSlab, sys.mmap (slabClass c) with
  | none, _ => some (h, -2)
  | some _, none => some (h, -2)
  | some s, some mem => do
    let total := slabClass c / (h.classes c).blockSize
    let slab : Slab := ⟨mem, total, total, mem, 0, 0⟩
    let h' : Heap := { h.setSlab s slab with
      mapped := Function.update h.mapped mem (some (slabClass c))
      bytes := carve h.bytes mem (h.classes c).blockSize (total - 1) }
    let h' ← h'.insertEmpty c s
    return (h', 0)

def addPoolWithoutHeader (h : Heap) (sys : System) (c : ℕ) : Option (Heap × ℤ) :=
  match alignmentToSlabSize sys slabSizeAlignment with
  | none => some (h, -2)
  | some mem => do
    let actualSize := slabSizeAlignment - alignUp sizeofSlab
    let total := actualSize / sizeClass c
    let first := mem + alignUp sizeofSlab
    let slab : Slab := ⟨mem, total, total, first, slabMagic, c⟩
    let h' : Heap := { h.setSlab mem slab with
      mapped := Function.update h.mapped mem (some slabSizeAlignment)
      bytes := carve h.bytes first (sizeClass c) (total - 1) }
    let h' ← h'.insertEmpty c mem
    return (h', 0)

def addPool (h : Heap) (sys : System) (c : ℕ) : Option (Heap × ℤ) := do
  let (h', ret) ← if sizeClass c ≤ alignmentThreshold then addPoolWithoutHeader h sys c
    else addPoolWithHeader h sys c
  return (h', if ret ≠ 0 then -3 else 0)

def Heap.takeEmpty (h : Heap) (c : ℕ) : Option (Heap × ℕ) := do
  let slab := (h.classes c).heads .emptySlabs
  let h ← h.listRemove c .emptySlabs slab
  let h ← h.listInsert c .partialSlabs slab
  return (h.setCount c ((h.classes c).emptySlabCount - 1), slab)

/-- The slab is `0` where the code returns `NULL`. -/
def slabMalloc (h : Heap) (sys : System) (c : ℕ) : Option (Heap × ℕ) :=
  if (h.classes c).heads .partialSlabs ≠ 0 then some (h, (h.classes c).heads .partialSlabs)
  else if (h.classes c).heads .emptySlabs ≠ 0 then h.takeEmpty c
  else do
    let (h, ret) ← addPool h sys c
    if ret ≠ 0 then return (h, 0) else h.takeEmpty c

/-- A block handed out, with the slab and the class it was cut from. -/
structure Block where
  classId : ℕ
  slab : ℕ
  addr : ℕ
  headed : Bool
  deriving DecidableEq

def Block.ptr (b : Block) : ℕ :=
  if b.headed then b.addr + sizeofHeader else b.addr

def writeHeader (bytes : ℕ → UInt8) (a classId flag slab magic size : ℕ) : ℕ → UInt8 :=
  let bytes := store bytes (a + 4) classId 1
  let bytes := store bytes (a + 5) flag 1
  let bytes := store bytes (a + 8) slab 8
  let bytes := store bytes a magic 4
  store bytes (a + 16) size 8

def Heap.fillSlab (h : Heap) (c s freeBlocks : ℕ) : Option Heap :=
  if freeBlocks = 0 then do
    let h ← h.listRemove c .partialSlabs s
    h.listInsert c .fullSlabs s
  else some h

def blockWithHeader (h : Heap) (sys : System) (size : ℕ) : Option (Heap × Option Block) :=
  match getClassId size with
  | none => some (h, none)
  | some c => do
    let (h, s) ← slabMalloc h sys c
    if s = 0 then return (h, none)
    let slab ← h.slabs s
    let header := slab.freeList
    let slab := { slab with freeList := load h.bytes header 8, freeBlocks := slab.freeBlocks - 1 }
    let h := { h.setSlab s slab with
      bytes := writeHeader h.bytes header c blockFlag s blockMagic (sizeClass c) }
    let h ← h.fillSlab c s slab.freeBlocks
    return (h, some ⟨c, s, header, true⟩)

def blockWithoutHeader (h : Heap) (sys : System) (size : ℕ) : Option (Heap × Option Block) :=
  match getClassId size with
  | none => some (h, none)
  | some c => do
    let (h, s) ← slabMalloc h sys c
    if s = 0 then return (h, none)
    let slab ← h.slabs s
    let ptr := slab.freeList
    let slab := { slab with freeList := load h.bytes ptr 8, freeBlocks := slab.freeBlocks - 1 }
    let h ← (h.setSlab s slab).fillSlab c s slab.freeBlocks
    return (h, some ⟨c, s, ptr, false⟩)

inductive Allocation
  | null
  | block (b : Block)
  | large (header : ℕ)

def Allocation.ofBlock : Option Block → Allocation
  | none => .null
  | some b => .block b

def mallocLarge (h : Heap) (sys : System) (size actualSize : ℕ) : Heap × Allocation :=
  match sys.malloc actualSize with
  | none => (h, .null)
  | some header =>
    let bytes := store h.bytes (header + 5) blockFlagLarge 1
    let bytes := store bytes header blockMagic 4
    let bytes := store bytes (header + 8) 0 8
    let bytes := store bytes (header + 16) size 8
    ({ h with bytes }, .large header)

def mpMalloc (h : Heap) (sys : System) (size : ℕ) : Option (Heap × Allocation) :=
  if size = 0 then some (h, .null)
  else if alignUp size ≤ alignmentThreshold then do
    let (h, b) ← blockWithoutHeader h sys (alignUp size)
    return (h, .ofBlock b)
  else
    let actualSize := alignUp ((size + sizeofHeader) % sizeT)
    if actualSize > largeThreshold then some (mallocLarge h sys size actualSize)
    else do
      let (h, b) ← blockWithHeader h sys actualSize
      return (h, .ofBlock b)

/-- The class of the block that mp_malloc hands out for `size` bytes, `none` where it is a large one. -/
def classFor (size : ℕ) : Option ℕ :=
  if alignUp size ≤ alignmentThreshold then getClassId (alignUp size)
  else if alignUp ((size + sizeofHeader) % sizeT) > largeThreshold then none
  else getClassId (alignUp ((size + sizeofHeader) % sizeT))

/-- What mp_realloc takes such a block to hold: the size of a class counts the header. -/
def recordedSize (size : ℕ) : ℕ :=
  match classFor size with
  | none => size
  | some c => sizeClass c

def usableSize (size : ℕ) : ℕ :=
  match classFor size with
  | none => size
  | some c => if alignUp size ≤ alignmentThreshold then sizeClass c else sizeClass c - sizeofHeader

/-- The answers of kvs_realloc: mp_realloc while the system refuses or grants memory, and the block of all the bytes
asked for that its callers count on. -/
inductive Grant
  | refused
  | granted
  | whole
  deriving DecidableEq

/-- How many of the `size` bytes asked for there are, for a block that was made for `old` bytes. -/
def Grant.room (grant : Grant) (old size : ℕ) : Option ℕ :=
  if grant = .whole then some size
  else if size ≤ recordedSize old then some (min size (usableSize old))
  else if grant = .refused then none
  else some size

theorem getClassId_le {size c : ℕ} (h : getClassId size = some c) : c < classCount ∧ size ≤ sizeClass c := by
  rw [getClassId, List.find?_range_eq_some] at h
  exact ⟨List.mem_range.mp h.2.1, of_decide_eq_true h.1⟩

theorem classFor_spec {size c : ℕ} (h : classFor size = some c) (hsize : size + 31 < sizeT) :
    size ≤ sizeClass c ∧ (alignmentThreshold < alignUp size → size + sizeofHeader ≤ sizeClass c) := by
  have halign : ∀ x, x + 7 < sizeT → x ≤ alignUp x := by
    intro x hx
    simp only [alignUp, Nat.mod_eq_of_lt hx]
    omega
  have hself := halign size (by omega)
  have hnext := halign (size + sizeofHeader) (by simp only [sizeofHeader]; omega)
  have hmod : (size + sizeofHeader) % sizeT = size + sizeofHeader :=
    Nat.mod_eq_of_lt (by simp only [sizeofHeader]; omega)
  rw [classFor, hmod] at h
  split_ifs at h with hsmall
  · exact ⟨Nat.le_trans hself (getClassId_le h).2, fun hbig => absurd hsmall (Nat.not_le.mpr hbig)⟩
  · have hle := Nat.le_trans hnext (getClassId_le h).2
    exact ⟨by omega, fun _ => hle⟩

theorem sizeClass_le {c : ℕ} (hc : c < classCount) : sizeClass c ≤ largeThreshold := by
  revert c
  decide

theorem recordedSize_le (size : ℕ) : recordedSize size ≤ max largeThreshold size := by
  rw [recordedSize]
  cases hc : classFor size with
  | none => exact Nat.le_max_right _ _
  | some c =>
    have hlt : c < classCount := by
      rw [classFor] at hc
      split_ifs at hc <;> exact (getClassId_le hc).1
    exact Nat.le_trans (sizeClass_le hlt) (Nat.le_max_left _ _)

theorem le_usableSize {size : ℕ} (hsize : size + 31 < sizeT) : size ≤ usableSize size := by
  rw [usableSize]
  cases hc : classFor size with
  | none => exact Nat.le_refl _
  | some c =>
    obtain ⟨hle, hbig⟩ := classFor_spec hc hsize
    dsimp only
    split_ifs with hsmall
    · exact hle
    · exact Nat.le_sub_of_add_le (hbig (Nat.not_le.mp hsmall))

def Heap.retire (h : Heap) (c s : ℕ) (slab : Slab) (size : ℕ) : Option Heap :=
  if (h.classes c).emptySlabCount ≥ maxEmptySlabs then do
    let h ← h.listRemove c .partialSlabs s
    let h ← h.munmap slab.mem (if slab.slabMagic = slabMagic then slabSizeAlignment else size)
    return { h with slabs := Function.update h.slabs s none }
  else do
    let h ← h.listRemove c .partialSlabs s
    let h ← h.listInsert c .emptySlabs s
    return h.setCount c ((h.classes c).emptySlabCount + 1)

def Heap.reopen (h : Heap) (c s freeBlocks : ℕ) : Option Heap :=
  if freeBlocks = 1 then do
    let h ← h.listRemove c .fullSlabs s
    h.listInsert c .partialSlabs s
  else some h

def slabFree (h : Heap) (c s size : ℕ) : Option Heap := do
  let slab ← h.slabs s
  let h ← h.reopen c s slab.freeBlocks
  if slab.freeBlocks = slab.totalBlocks then h.retire c s slab size else some h

def slabFreeWithHeader (h : Heap) (header : ℕ) : Option Heap := do
  if header = 0 then return h
  let bytes := store h.bytes header 0 4
  let classid := load bytes (header + 4) 1
  let s := load bytes (header + 8) 8
  let slab ← h.slabs s
  let h := { h.setSlab s { slab with freeList := header, freeBlocks := slab.freeBlocks + 1 } with
    bytes := store bytes header slab.freeList 8 }
  slabFree h classid s (slabClass classid)

def slabFreeWithoutHeader (h : Heap) (ptr s : ℕ) : Option Heap := do
  if ptr = 0 ∨ s = 0 then return h
  let slab ← h.slabs s
  let h := { h.setSlab s { slab with freeList := ptr, freeBlocks := slab.freeBlocks + 1 } with
    bytes := store h.bytes ptr slab.freeList 8 }
  slabFree h slab.classid s slabSizeAlignment

def ptrToSlab (ptr : ℕ) : ℕ :=
  ptr / slabSizeAlignment * slabSizeAlignment

/-- The words of a `slab_t` that the header looked for before a block can fall on. -/
def Slab.word (slab : Slab) (offset : ℕ) : ℕ :=
  if offset = 24 then slab.freeBlocks % 2 ^ 32
  else if offset = 32 then slab.freeList % 2 ^ 32
  else if offset = 40 then slab.slabMagic
  else 0

/-- The `slab_t` of a slab without headers is the start of its region. -/
def readMagic (h : Heap) (header : ℕ) : ℕ :=
  match h.slabs (ptrToSlab header) with
  | none => load h.bytes header 4
  | some slab =>
    if slab.slabMagic = slabMagic ∧ header - ptrToSlab header < sizeofSlab then
      slab.word (header - ptrToSlab header)
    else load h.bytes header 4

inductive Branch
  | large
  | withHeader
  | withoutHeader (slab : ℕ)
  | rejected
  deriving DecidableEq

/-- How `mp_free` and `mp_realloc` read the kind of a block off the memory before it. -/
def branch (h : Heap) (ptr : ℕ) : Option Branch :=
  let header := ptr - sizeofHeader
  if readMagic h header = blockMagic then
    if load h.bytes (header + 5) 1 = blockFlagLarge then some .large
    else if load h.bytes (header + 4) 1 ≥ classCount ∨ load h.bytes (header + 8) 8 = 0 then some .rejected
    else do
      let slab ← h.slabs (load h.bytes (header + 8) 8)
      return if slab.mem = 0 then .rejected else .withHeader
  else if ptrToSlab ptr = 0 then some .rejected
  else do
    let slab ← h.slabs (ptrToSlab ptr)
    return if slab.slabMagic = slabMagic then .withoutHeader (ptrToSlab ptr) else .rejected

def mpFree (h : Heap) (ptr : ℕ) : Option Heap :=
  if ptr = 0 then some h
  else do
    match ← branch h ptr with
    | .large => return { h with bytes := store h.bytes (ptr - sizeofHeader) 0 4 }
    | .withHeader => slabFreeWithHeader h (ptr - sizeofHeader)
    | .withoutHeader s => slabFreeWithoutHeader h ptr s
    | .rejected => return h

def Allocation.ptr : Allocation → ℕ
  | .null => 0
  | .block b => b.ptr
  | .large header => header + sizeofHeader

/-- What `mp_realloc` answers, with the number of bytes copied out of the old block. -/
inductive Reallocation
  | null
  | inPlace
  | moved (r : Allocation) (copied : ℕ)

def regrow (h : Heap) (sys : System) (ptr size oldCapacity : ℕ) : Option (Heap × Reallocation) :=
  if size ≤ oldCapacity then some (h, .inPlace)
  else do
    let (h, r) ← mpMalloc h sys size
    if r.ptr = 0 then return (h, .null)
    let h ← mpFree { h with bytes := copy h.bytes r.ptr ptr oldCapacity } ptr
    return (h, .moved r oldCapacity)

def mpRealloc (h : Heap) (sys : System) (ptr size : ℕ) : Option (Heap × Reallocation) :=
  if ptr = 0 then do
    let (h, r) ← mpMalloc h sys size
    return (h, if r.ptr = 0 then .null else .moved r 0)
  else if size = 0 then do return (← mpFree h ptr, .null)
  else do
    match ← branch h ptr with
    | .large => regrow h sys ptr size (load h.bytes (ptr - sizeofHeader + 16) 8)
    | .withHeader => regrow h sys ptr size (load h.bytes (ptr - sizeofHeader + 16) 8)
    | .withoutHeader s => do
      let slab ← h.slabs s
      regrow h sys ptr size (sizeClass slab.classid)
    | .rejected => return (h, .null)

structure PoolState where
  heap : Heap
  live : List Block

inductive PoolOp
  | malloc (sys : System) (size : ℕ)
  | free (b : Block)
  | write (a : ℕ) (v : UInt8)

namespace PoolState

def start (links : Links ℕ) (bytes : ℕ → UInt8) : PoolState :=
  ⟨mpCreate links bytes, []⟩

def freeBlock (h : Heap) (b : Block) : Option Heap :=
  if b.headed then slabFreeWithHeader h b.addr else slabFreeWithoutHeader h b.addr b.slab

def step (σ : PoolState) : PoolOp → Option PoolState
  | .malloc sys size => do
    let (h, r) ← mpMalloc σ.heap sys size
    match r with
    | .block b => return ⟨h, b :: σ.live⟩
    | _ => return ⟨h, σ.live⟩
  | .free b => do
    let h ← freeBlock σ.heap b
    return ⟨h, σ.live.erase b⟩
  | .write a v => some { σ with heap.bytes := Function.update σ.heap.bytes a v }

def run : List PoolOp → PoolState → Option PoolState
  | [], σ => some σ
  | op :: ops, σ => do run ops (← σ.step op)

end PoolState

end Lidis.Mempool
