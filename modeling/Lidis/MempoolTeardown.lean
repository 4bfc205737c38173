import Lidis.Lib.Chain
import Lidis.MempoolFrame

namespace Lidis.Mempool

open ByteMemory DoublyLinked

/-- A `slab_t` goes with its region: it lies at the start of it, or is freed right after the munmap. -/
def mpFreeSlab (classid : ℕ) : ℕ → ℕ → Heap → Option Heap
  | 0, _, _ => none
  | n + 1, slab, h =>
    if slab = 0 then some h
    else do
      let item ← h.slabs slab
      let tmp := h.links.next slab
      let h ← h.munmap item.mem (if sizeClass classid > alignmentThreshold then slabClass classid else slabSizeAlignment)
      mpFreeSlab classid n tmp { h with slabs := Function.update h.slabs slab none }

/-- An address names at most one `slab_t`, so `sizeT` rounds are enough for any list. -/
def Heap.freeSlabs (h : Heap) (c : ℕ) (w : SlabList) : Option Heap := do
  let h ← mpFreeSlab c sizeT ((h.classes c).heads w) h
  return h.setHead c w 0

def Heap.destroyClass (h : Heap) (c : ℕ) : Option Heap := do
  let h ← h.freeSlabs c .emptySlabs
  let h ← h.freeSlabs c .fullSlabs
  let h ← h.freeSlabs c .partialSlabs
  return h.setCount c 0

def mpDestroy (h : Heap) : Option Heap := (List.range classCount).foldlM Heap.destroyClass h

/-- No region is forgotten: each belongs to a slab that is still known. -/
def Heap.Owned (h : Heap) : Prop := ∀ x n, h.mapped x = some n → ∃ s slab, h.slabs s = some slab ∧ slab.mem = x

namespace Heap.Owned

variable {h h' : Heap} {sys : System} {c s : ℕ} {slab : Slab}

theorem relinked (H : h.Owned) (R : Relinked h h') : h'.Owned := by
  intro x n hx
  rw [R.mapped] at hx
  rw [R.slabs]
  exact H x n hx

/-- A slab in use keeps its region whatever happens to its free list. -/
theorem relisted (H : h.Owned) (hslab : h.slabs s = some slab) (freeList freeBlocks : ℕ) (bytes : ℕ → UInt8) :
    Heap.Owned { h.setSlab s { slab with freeList, freeBlocks } with bytes } := by
  intro x n hx
  obtain ⟨t, other, ht, rfl⟩ := H x n hx
  rcases eq_or_ne t s with rfl | hts
  · obtain rfl := Option.some.inj (hslab.symm.trans ht)
    exact ⟨t, { slab with freeList, freeBlocks }, Function.update_self .., rfl⟩
  · exact ⟨t, other, (Function.update_of_ne hts ..).trans ht, rfl⟩

theorem addSlab (H : h.Owned) (hnew : h.slabs s = none) {n : ℕ}
    (hslabs : h'.slabs = Function.update h.slabs s (some slab))
    (hmapped : h'.mapped = Function.update h.mapped slab.mem (some n)) : h'.Owned := by
  intro x k hx
  rw [hslabs]
  rw [hmapped] at hx
  rcases eq_or_ne x slab.mem with rfl | hne
  · exact ⟨s, slab, Function.update_self .., rfl⟩
  · rw [Function.update_of_ne hne] at hx
    obtain ⟨t, other, ht, rfl⟩ := H x k hx
    have hts : t ≠ s := fun he => by rw [he, hnew] at ht; cases ht
    exact ⟨t, other, by rw [Function.update_of_ne hts]; exact ht, rfl⟩

theorem unmap (H : h.Owned) (hslab : h.slabs s = some slab) (hslabs : h'.slabs = Function.update h.slabs s none)
    (hmapped : h'.mapped = Function.update h.mapped slab.mem none) : h'.Owned := by
  intro x n hx
  rw [hmapped] at hx
  rcases eq_or_ne x slab.mem with rfl | hne
  · simp at hx
  · rw [Function.update_of_ne hne] at hx
    obtain ⟨t, other, ht, rfl⟩ := H x n hx
    have hts : t ≠ s := by
      rintro rfl
      exact hne (congrArg Slab.mem (Option.some.inj (ht.symm.trans hslab)))
    exact ⟨t, other, by rw [hslabs, Function.update_of_ne hts]; exact ht, rfl⟩

end Heap.Owned

theorem System.Fresh.no_slab {sys : System} {h : Heap} (hsys : sys.Fresh h) {s k : ℕ} (hs : sys.Grants s k)
    (hk : 0 < k) : h.slabs s = none := by
  obtain ⟨a, n, ha, hle, hlt⟩ := hs
  cases hslab : h.slabs s with
  | none => rfl
  | some slab =>
    have hap := (hsys.free ha).slabs s (by rw [hslab]; rfl)
    simp only [Apart, sizeofSlab] at hap
    omega

namespace Heap.Owned

variable {h h' : Heap} {sys : System} {c s : ℕ} {slab : Slab}

theorem addPoolWithHeader (H : h.Owned) (hsys : sys.Fresh h) {ret : ℤ}
    (e : addPoolWithHeader h sys c = some (h', ret)) : h'.Owned := by
  rw [Mempool.addPoolWithHeader] at e
  split at e
  · cases e
    exact H
  · cases e
    exact H
  · rename_i s mem hs _
    obtain ⟨h₁, e₁, e₂⟩ := Option.bind_eq_some_iff.mp e
    cases e₂
    have hnew := hsys.no_slab ⟨s, _, .inl hs, le_rfl, le_rfl⟩ (by decide)
    exact (H.addSlab hnew rfl rfl).relinked (insertEmpty_relinked e₁)

theorem addPoolWithoutHeader (H : h.Owned) (hsys : sys.Fresh h) {ret : ℤ}
    (e : addPoolWithoutHeader h sys c = some (h', ret)) : h'.Owned := by
  rw [Mempool.addPoolWithoutHeader] at e
  split at e
  · cases e
    exact H
  · rename_i mem hmem
    obtain ⟨raw, hraw, hmask⟩ := Option.bind_eq_some_iff.mp hmem
    obtain ⟨h₁, e₁, e₂⟩ := Option.bind_eq_some_iff.mp e
    cases e₂
    have hfits := (hsys.mmap _ _ hraw).fits
    have hgrant : sys.Grants mem slabSizeAlignment := by
      refine ⟨raw, _, .inr hraw, ?_⟩
      simp only [pure, Option.some.injEq, slabSizeAlignment, sizeT] at hfits hmask ⊢
      omega
    exact (H.addSlab (hsys.no_slab hgrant (by decide)) rfl rfl).relinked (insertEmpty_relinked e₁)

theorem slabMalloc (H : h.Owned) (hsys : sys.Fresh h) (e : slabMalloc h sys c = some (h', s)) : h'.Owned := by
  rw [Mempool.slabMalloc] at e
  split at e
  · cases e
    exact H
  · split at e
    · exact H.relinked (takeEmpty_relinked e)
    · obtain ⟨⟨h₁, ret⟩, e₁, e₂⟩ := Option.bind_eq_some_iff.mp e
      have H₁ : h₁.Owned := by
        rw [addPool] at e₁
        split at e₁
        · obtain ⟨⟨h₂, ret'⟩, e₃, e₄⟩ := Option.bind_eq_some_iff.mp e₁
          cases e₄
          exact H.addPoolWithoutHeader hsys e₃
        · obtain ⟨⟨h₂, ret'⟩, e₃, e₄⟩ := Option.bind_eq_some_iff.mp e₁
          cases e₄
          exact H.addPoolWithHeader hsys e₃
      simp only at e₂
      split at e₂
      · cases e₂
        exact H₁
      · exact H₁.relinked (takeEmpty_relinked e₂)

theorem pops {size : ℕ} {headed : Bool} {r : Option Block} (H : h.Owned) (hsys : sys.Fresh h)
    (P : Pops sys h h' size headed r) : h'.Owned := by
  rcases P with ⟨rfl, -⟩ | ⟨c, h₁, s, -, e, ⟨rfl, -⟩ | ⟨slab, hslab, -, R⟩⟩
  · exact H
  · exact H.slabMalloc hsys e
  · exact Heap.Owned.relinked ((H.slabMalloc hsys e).relisted hslab _ _ _) R

theorem mpMalloc {size : ℕ} {r : Allocation} (H : h.Owned) (hsys : sys.Fresh h)
    (e : mpMalloc h sys size = some (h', r)) : h'.Owned := by
  simp only [Mempool.mpMalloc] at e
  split at e
  · cases e
    exact H
  · split at e
    · obtain ⟨⟨h₁, b⟩, e₁, e₂⟩ := Option.bind_eq_some_iff.mp e
      cases e₂
      exact H.pops hsys (pops_blockWithoutHeader e₁)
    · split at e
      · rw [mallocLarge] at e
        split at e <;> cases e <;> exact H
      · obtain ⟨⟨h₁, b⟩, e₁, e₂⟩ := Option.bind_eq_some_iff.mp e
        cases e₂
        exact H.pops hsys (pops_blockWithHeader e₁)

theorem slabFree {size : ℕ} (H : h.Owned) (e : slabFree h c s size = some h') : h'.Owned := by
  obtain ⟨slab, hslab, e₁⟩ := Option.bind_eq_some_iff.mp e
  obtain ⟨h₁, e₂, e₃⟩ := Option.bind_eq_some_iff.mp e₁
  have R := reopen_relinked e₂
  have H₁ := H.relinked R
  split at e₃
  · rw [Heap.retire] at e₃
    split at e₃
    · obtain ⟨h₂, e₄, e₅⟩ := Option.bind_eq_some_iff.mp e₃
      obtain ⟨h₃, e₆, e₇⟩ := Option.bind_eq_some_iff.mp e₅
      cases e₇
      obtain rfl := Released.munmap_eq e₆
      have R₂ := listRemove_relinked e₄
      have hkept : h₂.slabs s = some slab := by rw [R₂.slabs, R.slabs, hslab]
      exact (H₁.relinked R₂).unmap hkept rfl rfl
    · obtain ⟨h₂, e₄, e₅⟩ := Option.bind_eq_some_iff.mp e₃
      obtain ⟨h₃, e₆, e₇⟩ := Option.bind_eq_some_iff.mp e₅
      cases e₇
      exact H₁.relinked (((listRemove_relinked e₄).trans (listInsert_relinked e₆)).trans (setCount_relinked ..))
  · cases e₃
    exact H₁

theorem freeBlock {b : Block} (H : h.Owned) (e : PoolState.freeBlock h b = some h') : h'.Owned := by
  rw [PoolState.freeBlock] at e
  split at e
  · rw [slabFreeWithHeader] at e
    split at e
    · cases e
      exact H
    · obtain ⟨slab, hslab, e₁⟩ := Option.bind_eq_some_iff.mp e
      exact (H.relisted hslab _ _ _).slabFree e₁
  · rw [slabFreeWithoutHeader] at e
    split at e
    · cases e
      exact H
    · obtain ⟨slab, hslab, e₁⟩ := Option.bind_eq_some_iff.mp e
      exact (H.relisted hslab _ _ _).slabFree e₁

end Heap.Owned

namespace PoolState

theorem owned_step {σ σ' : PoolState} {op : PoolOp} (H : σ.heap.Owned) (hlegal : σ.Legal op)
    (e : σ.step op = some σ') : σ'.heap.Owned := by
  cases op with
  | malloc sys size =>
    obtain ⟨⟨h', r⟩, e₁, e₂⟩ := Option.bind_eq_some_iff.mp e
    have H' := H.mpMalloc hlegal.2 e₁
    cases r <;> cases e₂ <;> exact H'
  | free b =>
    obtain ⟨h', e₁, e₂⟩ := Option.bind_eq_some_iff.mp e
    cases e₂
    exact H.freeBlock e₁
  | write a v =>
    cases e
    exact H

theorem owned_run {ops : List PoolOp} {σ σ' : PoolState} (H : σ.heap.Owned) (hops : Permitted σ ops)
    (e : run ops σ = some σ') : σ'.heap.Owned := by
  induction ops generalizing σ with
  | nil =>
    cases e
    exact H
  | cons op ops ih =>
    obtain ⟨σ₁, e₁, e₂⟩ := Option.bind_eq_some_iff.mp e
    exact ih (owned_step H hops.1 e₁) (hops.2 σ₁ e₁) e₂

end PoolState

/-- What mp_destroy finds: the slabs in the lists are all there are, each with a region of its own. -/
structure Holdings (h : Heap) (lists : ℕ × SlabList → List ℕ) : Prop where
  slab : ∀ k, ∀ s ∈ lists k, ∃ slab, h.slabs s = some slab ∧ h.mapped slab.mem = some (regionOf k.1)
  listed : ∀ s slab, h.slabs s = some slab → ∃ k, s ∈ lists k
  owned : h.Owned
  apart : ∀ s t slab slab', h.slabs s = some slab → h.slabs t = some slab' → slab.mem = slab'.mem → s = t
  nodup : ∀ k, (lists k).Nodup
  disjoint : ∀ {k k' s}, s ∈ lists k → s ∈ lists k' → k = k'

theorem regionOf_pos {c : ℕ} (hc : c < classCount) : 0 < regionOf c := by
  revert c
  decide +kernel

theorem Sound.holdings {h : Heap} {live : List Block} {cls : ℕ → Option ℕ} {lists : ℕ × SlabList → List ℕ}
    (S : Sound h live cls lists 0) (H : h.Owned) : Holdings h lists := by
  have hclass : ∀ s slab, h.slabs s = some slab → ∃ c, cls s = some c := by
    intro s slab hs
    cases hc : cls s with
    | none => rw [S.inv.carved.unused hc] at hs; cases hs
    | some c => exact ⟨c, rfl⟩
  refine ⟨?_, ?_, H, ?_, S.inv.linked.nodup, S.inv.linked.disjoint⟩
  · rintro ⟨c, w⟩ s hs
    obtain ⟨-, -, -, slab, free, hslab, hok⟩ := S.inv.carved.slab (S.inv.member.mpr ⟨w, hs⟩)
    exact ⟨slab, hslab, hok.mapped⟩
  · intro s slab hs
    obtain ⟨c, hc⟩ := hclass s slab hs
    obtain ⟨w, hw⟩ := S.inv.member.mp hc
    exact ⟨(c, w), hw⟩
  · intro s t slab slab' hs ht hmem
    by_contra hne
    obtain ⟨c, hc⟩ := hclass s slab hs
    obtain ⟨d, hd⟩ := hclass t slab' ht
    have hap := S.inv.carved.apart hne hc hd hs ht
    have hpos := regionOf_pos (S.inv.carved.slab hc).1
    have hpos' := regionOf_pos (S.inv.carved.slab hd).1
    simp only [Apart, hmem] at hap
    omega

namespace Holdings

variable {h : Heap} {lists : ℕ × SlabList → List ℕ} {k : ℕ × SlabList} {s : ℕ} {xs : List ℕ} {slab : Slab}

theorem drop (H : Holdings h lists) (hk : lists k = s :: xs) (hslab : h.slabs s = some slab) :
    Holdings { h with mapped := Function.update h.mapped slab.mem none, slabs := Function.update h.slabs s none }
      (Function.update lists k xs) := by
  have hs : s ∈ lists k := hk ▸ List.mem_cons_self
  obtain ⟨hsx, hxs⟩ := List.nodup_cons.mp (hk ▸ H.nodup k)
  have hmem : ∀ j t, t ∈ Function.update lists k xs j ↔ t ≠ s ∧ t ∈ lists j := by
    intro j t
    rcases eq_or_ne j k with rfl | hj
    · rw [Function.update_self, hk, List.mem_cons]
      grind
    · rw [Function.update_of_ne hj]
      have hne : t ∈ lists j → t ≠ s := fun ht he => hj (H.disjoint ht (he ▸ hs))
      tauto
  have hold : ∀ t other, Function.update h.slabs s none t = some other → t ≠ s ∧ h.slabs t = some other := by
    intro t other ht
    rcases eq_or_ne t s with rfl | hts
    · simp at ht
    · exact ⟨hts, by rwa [Function.update_of_ne hts] at ht⟩
  refine ⟨?_, ?_, H.owned.unmap hslab rfl rfl, ?_, ?_, ?_⟩
  · intro j t ht
    obtain ⟨hts, htj⟩ := (hmem j t).mp ht
    obtain ⟨other, hother, hmapped⟩ := H.slab j t htj
    have hne : other.mem ≠ slab.mem := fun he => hts (H.apart t s other slab hother hslab he)
    exact ⟨other, (Function.update_of_ne hts ..).trans hother, (Function.update_of_ne hne ..).trans hmapped⟩
  · intro t other ht
    obtain ⟨hts, ht⟩ := hold t other ht
    obtain ⟨j, hj⟩ := H.listed t other ht
    exact ⟨j, (hmem j t).mpr ⟨hts, hj⟩⟩
  · intro t u other other' ht hu
    exact H.apart t u other other' (hold t other ht).2 (hold u other' hu).2
  · intro j
    rcases eq_or_ne j k with rfl | hj
    · rwa [Function.update_self]
    · rw [Function.update_of_ne hj]
      exact H.nodup j
  · intro j j' t ht ht'
    exact H.disjoint ((hmem j t).mp ht).2 ((hmem j' t).mp ht').2

theorem freeSlab {c n p : ℕ} {w : SlabList} (H : Holdings h lists) (hk : lists (c, w) = xs)
    (hseg : Segment h.links p xs 0) (hnull : 0 ∉ xs) (hn : xs.length < n) :
    ∃ h', mpFreeSlab c n (xs.headD 0) h = some h' ∧ Holdings h' (Function.update lists (c, w) []) ∧
      h'.links = h.links ∧ h'.bytes = h.bytes ∧ h'.classes = h.classes := by
  induction xs generalizing h lists n p with
  | nil =>
    obtain ⟨n, rfl⟩ := Nat.exists_eq_succ_of_ne_zero (Nat.ne_of_gt hn)
    refine ⟨h, by simp [mpFreeSlab], ?_, rfl, rfl, rfl⟩
    rwa [← hk, Function.update_eq_self]
  | cons s xs ih =>
    obtain ⟨n, rfl⟩ := Nat.exists_eq_succ_of_ne_zero (Nat.ne_of_gt (Nat.zero_lt_of_lt hn))
    simp only [List.mem_cons, not_or] at hnull
    obtain ⟨slab, hslab, hmapped⟩ := H.slab (c, w) s (hk ▸ List.mem_cons_self)
    obtain ⟨-, hnext, hrest⟩ := hseg
    obtain ⟨h', hloop, H', hlinks, hbytes, hclasses⟩ :=
      ih (H.drop hk hslab) (Function.update_self ..) hrest hnull.2 (by simpa using hn)
    rw [Function.update_idem] at H'
    refine ⟨h', ?_, H', hlinks, hbytes, hclasses⟩
    have hsize : (if sizeClass c > alignmentThreshold then slabClass c else slabSizeAlignment) = regionOf c := by
      rw [regionOf]
      split_ifs <;> first | rfl | omega
    rw [List.headD_cons, mpFreeSlab, if_neg (Ne.symm hnull.1), hslab, hsize]
    simp only [Option.bind_eq_bind, Option.bind_some, Heap.munmap, hmapped, if_pos, hnext]
    exact hloop

end Holdings

structure Kept (h h' : Heap) : Prop where
  links : h'.links = h.links
  bytes : h'.bytes = h.bytes
  blockSize : ∀ c, (h'.classes c).blockSize = (h.classes c).blockSize

theorem Kept.trans {h h' h'' : Heap} (K : Kept h h') (K' : Kept h' h'') : Kept h h'' :=
  ⟨K'.links.trans K.links, K'.bytes.trans K.bytes, fun c => (K'.blockSize c).trans (K.blockSize c)⟩

/-- The pools while mp_destroy is at work, `lists` being what it has not yet given back. -/
structure Owns (h : Heap) (lists : ℕ × SlabList → List ℕ) : Prop extends Holdings h lists where
  linked : Lists h.links 0 h.heads lists
  addr : ∀ k, ∀ s ∈ lists k, s < sizeT

namespace Owns

variable {h : Heap} {lists : ℕ × SlabList → List ℕ}

theorem freeSlabs (H : Owns h lists) (c : ℕ) (w : SlabList) :
    ∃ h', h.freeSlabs c w = some h' ∧ Owns h' (Function.update lists (c, w) []) ∧ Kept h h' ∧ SameCounts h h' := by
  have hlen : (lists (c, w)).length < sizeT := by
    refine Chain.length_lt_of_bound (List.nodup_cons.mpr ⟨H.linked.null_notMem (c, w), H.nodup (c, w)⟩) ?_
    intro s hs
    rcases List.mem_cons.mp hs with rfl | hs
    · decide
    · exact H.addr (c, w) s hs
  obtain ⟨h', hloop, H', hlinks, hbytes, hclasses⟩ :=
    H.freeSlab rfl (H.linked.segment (c, w)) (H.linked.null_notMem (c, w)) hlen
  have hhead : (h.classes c).heads w = (lists (c, w)).headD 0 := H.linked.head (c, w)
  have hheads : h'.heads = h.heads := by
    funext k
    rw [Heap.heads, Heap.heads, hclasses]
  obtain ⟨hrel, hcounts⟩ := setHead_relinked h' h'.links c w 0
  refine ⟨h'.setHead c w 0, ?_, ⟨⟨H'.slab, H'.listed, H'.owned, H'.apart, H'.nodup, H'.disjoint⟩, ?_, ?_⟩,
    ⟨hlinks, hbytes, fun d => ?_⟩, fun d => ?_⟩
  · rw [Heap.freeSlabs, hhead, hloop]
    rfl
  · rw [heads_setHead, hheads]
    exact hlinks ▸ H.linked.clear (c, w)
  · intro k s hs
    rcases eq_or_ne k (c, w) with rfl | hk
    · simp at hs
    · rw [Function.update_of_ne hk] at hs
      exact H.addr k s hs
  · rw [← hclasses]
    exact hrel.blockSize d
  · rw [← hclasses]
    exact hcounts d

theorem destroyClass (H : Owns h lists) (c : ℕ) :
    ∃ h', h.destroyClass c = some h' ∧ Owns h' (fun k => if k.1 = c then [] else lists k) ∧ Kept h h' ∧
      ∀ d, (h'.classes d).emptySlabCount = if d = c then 0 else (h.classes d).emptySlabCount := by
  obtain ⟨h₁, e₁, H₁, K₁, N₁⟩ := H.freeSlabs c .emptySlabs
  obtain ⟨h₂, e₂, H₂, K₂, N₂⟩ := H₁.freeSlabs c .fullSlabs
  obtain ⟨h₃, e₃, H₃, K₃, N₃⟩ := H₂.freeSlabs c .partialSlabs
  have hlists : Function.update (Function.update (Function.update lists (c, .emptySlabs) []) (c, .fullSlabs) [])
      (c, .partialSlabs) [] = fun k => if k.1 = c then [] else lists k := by
    funext ⟨d, w⟩
    rcases eq_or_ne d c with rfl | hd
    · cases w <;> simp
    · simp [hd]
  rw [hlists] at H₃
  have R := setCount_relinked h₃ c 0
  refine ⟨h₃.setCount c 0, ?_, ⟨⟨H₃.slab, H₃.listed, H₃.owned, H₃.apart, H₃.nodup, H₃.disjoint⟩, ?_, H₃.addr⟩, ?_, ?_⟩
  · simp only [Heap.destroyClass, e₁, e₂, e₃, Option.bind_eq_bind, Option.bind_some]
    rfl
  · rw [heads_setCount]
    exact H₃.linked
  · exact ((K₁.trans K₂).trans K₃).trans ⟨rfl, rfl, R.blockSize⟩
  · intro d
    rw [count_setCount, N₃ d, N₂ d, N₁ d]

theorem destroyClasses (H : Owns h lists) (cs : List ℕ) :
    ∃ h', cs.foldlM Heap.destroyClass h = some h' ∧ Owns h' (fun k => if k.1 ∈ cs then [] else lists k) ∧ Kept h h' ∧
      ∀ d, (h'.classes d).emptySlabCount = if d ∈ cs then 0 else (h.classes d).emptySlabCount := by
  induction cs generalizing h lists with
  | nil => exact ⟨h, rfl, by simpa using H, ⟨rfl, rfl, fun _ => rfl⟩, by simp⟩
  | cons c cs ih =>
    obtain ⟨h₁, e₁, H₁, K₁, N₁⟩ := H.destroyClass c
    obtain ⟨h', e, H', K, N⟩ := ih H₁
    refine ⟨h', ?_, ?_, K₁.trans K, ?_⟩
    · rw [List.foldlM_cons, e₁]
      exact e
    · convert H' using 2 with k
      by_cases hc : k.1 = c <;> simp [hc]
    · intro d
      rw [N d, N₁ d]
      by_cases hc : d = c <;> simp [hc]

end Owns

namespace PoolState

/-- Wherever its users stop, mp_destroy gives back every region with the length it was mapped with and leaves the pools
as mp_create does. -/
theorem pool_returns_every_region (links : Links ℕ) (bytes : ℕ → UInt8) (ops : List PoolOp)
    (hops : Permitted (start links bytes) ops)
    (hwrap : ∀ sys size, PoolOp.malloc sys size ∈ ops → ¬ Sound.Wraps size) :
    ∃ σ, run ops (start links bytes) = some σ ∧ mpDestroy σ.heap = some (mpCreate σ.heap.links σ.heap.bytes) := by
  obtain ⟨σ, e, cls, lists, S⟩ := sound_run (sound_start links bytes) hops hwrap
  have hstart : (start links bytes).heap.Owned := fun x n hx => by cases hx
  have H : Owns σ.heap lists := by
    refine ⟨S.holdings (owned_run hstart hops e), S.inv.linked, ?_⟩
    rintro ⟨c, w⟩ s hs
    exact (S.inv.carved.slab (S.inv.member.mpr ⟨w, hs⟩)).2.2.1
  obtain ⟨h', hd, H', K, N⟩ := H.destroyClasses (List.range classCount)
  refine ⟨σ, e, hd.trans (congrArg some ?_)⟩
  have hbeyond : ∀ c w, c ∉ List.range classCount → lists (c, w) = [] := by
    intro c w hc
    refine List.eq_nil_iff_forall_not_mem.mpr (fun s hs => hc ?_)
    exact List.mem_range.mpr (S.inv.carved.slab (S.inv.member.mpr ⟨w, hs⟩)).1
  have hempty : (fun k : ℕ × SlabList => if k.1 ∈ List.range classCount then [] else lists k) = fun _ => [] := by
    funext ⟨c, w⟩
    split_ifs with hc
    · rfl
    · exact hbeyond c w hc
  rw [hempty] at H'
  have hslabs : h'.slabs = fun _ => none := by
    funext s
    cases hs : h'.slabs s with
    | none => rfl
    | some slab =>
      obtain ⟨k, hk⟩ := H'.listed s slab hs
      cases hk
  have hmapped : h'.mapped = fun _ => none := by
    funext x
    cases hx : h'.mapped x with
    | none => rfl
    | some n =>
      obtain ⟨s, slab, hs, -⟩ := H'.owned x n hx
      rw [hslabs] at hs
      cases hs
  have hcount : ∀ c, (h'.classes c).emptySlabCount = 0 := by
    intro c
    rw [N c]
    split_ifs with hc
    · rfl
    · rw [S.counted c, hbeyond c _ hc]
      rfl
  have hclasses : h'.classes = fun c => { blockSize := sizeClass c, emptySlabCount := 0, heads := fun _ => 0 } := by
    funext c
    have hsize := (K.blockSize c).trans (S.inv.blockSize c)
    have hheads : (h'.classes c).heads = fun _ => 0 := funext (fun w => H'.linked.head (c, w))
    rw [← hsize, ← hheads, ← hcount c]
  rw [mpCreate, ← K.links, ← K.bytes, ← hslabs, ← hmapped, ← hclasses]

theorem pool_returns_every_region_example :
    ∃ σ, run [.malloc smallSystem 8000] idle = some σ ∧ σ.heap.mapped 131072 = some 65536 ∧
      mpDestroy σ.heap = some (mpCreate σ.heap.links σ.heap.bytes) := by
  have hops : Permitted idle [.malloc smallSystem 8000] := ⟨⟨by decide, smallSystem_fresh _ _⟩, fun _ _ => trivial⟩
  obtain ⟨σ, e, hd⟩ := pool_returns_every_region _ _ [.malloc smallSystem 8000] hops (by
    intro sys size hm
    obtain ⟨-, rfl⟩ := PoolOp.malloc.inj (List.mem_singleton.mp hm)
    simp [Sound.Wraps])
  have hmapped : (run [.malloc smallSystem 8000] idle).map (fun σ => σ.heap.mapped 131072) = some (some 65536) := by
    decide +kernel
  have he : run [.malloc smallSystem 8000] idle = some σ := e
  rw [he] at hmapped
  exact ⟨σ, he, Option.some.inj hmapped, hd⟩

end PoolState

end Lidis.Mempool
