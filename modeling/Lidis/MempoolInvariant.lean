import Lidis.MempoolLists

namespace Lidis.Mempool

open ByteMemory DoublyLinked

/-- A region the system may hand out: it overlaps no mapping and no `slab_t` of the pools. -/
structure Heap.Free (h : Heap) (a n : ℕ) : Prop where
  pos : 0 < a
  fits : a + n ≤ sizeT
  mapped : ∀ x k, h.mapped x = some k → Apart a n x k
  slabs : ∀ s, (h.slabs s).isSome → Apart a n s sizeofSlab

structure System.Fresh (sys : System) (h : Heap) : Prop where
  malloc : ∀ n a, sys.malloc n = some a → h.Free a n
  mmap : ∀ n a, sys.mmap n = some a → h.Free a n

structure Sound (h : Heap) (live : List Block) (cls : ℕ → Option ℕ) (lists : ℕ × SlabList → List ℕ) (x : ℕ) :
    Prop where
  inv : Inv h live cls lists x
  counted : ∀ c, (h.classes c).emptySlabCount = (lists (c, .emptySlabs)).length
  bounded : ∀ c, (lists (c, .emptySlabs)).length ≤ maxEmptySlabs

section Counts

variable (h : Heap) (c n : ℕ)

theorem setCount_relinked : Relinked h (h.setCount c n) := by
  refine ⟨rfl, rfl, rfl, ?_⟩
  intro d
  rcases eq_or_ne d c with rfl | hd
  · simp [Heap.setCount, Heap.setPool]
  · simp [Heap.setCount, Heap.setPool, hd]

theorem heads_setCount : (h.setCount c n).heads = h.heads := by
  funext ⟨d, w⟩
  rcases eq_or_ne d c with rfl | hd
  · simp [Heap.heads, Heap.setCount, Heap.setPool]
  · simp [Heap.heads, Heap.setCount, Heap.setPool, hd]

theorem count_setCount (d : ℕ) : ((h.setCount c n).classes d).emptySlabCount =
    if d = c then n else (h.classes d).emptySlabCount := by
  rcases eq_or_ne d c with rfl | hd
  · simp [Heap.setCount, Heap.setPool]
  · simp [Heap.setCount, Heap.setPool, hd]

end Counts

theorem list_eq_empty {slab : Slab} (h : SlabList.emptySlabs = slab.list) :
    slab.freeBlocks ≠ 0 ∧ slab.freeBlocks = slab.totalBlocks := by
  rw [Slab.list] at h
  split at h
  · cases h
  · split at h
    · exact ⟨by assumption, by assumption⟩
    · cases h

theorem list_eq_partial {slab : Slab} (h : SlabList.partialSlabs = slab.list) :
    slab.freeBlocks ≠ 0 ∧ slab.freeBlocks ≠ slab.totalBlocks := by
  rw [Slab.list] at h
  split at h
  · cases h
  · split at h
    · cases h
    · exact ⟨by assumption, by assumption⟩

theorem Inv.setCount {h : Heap} {live : List Block} {cls : ℕ → Option ℕ} {lists : ℕ × SlabList → List ℕ} {x : ℕ}
    (I : Inv h live cls lists x) (c n : ℕ) : Inv (h.setCount c n) live cls lists x := by
  apply I.relink (setCount_relinked h c n) _ I.member (fun hs _ => hs)
  rw [heads_setCount]
  exact I.linked

namespace Sound

variable {h h' : Heap} {live : List Block} {cls : ℕ → Option ℕ} {lists : ℕ × SlabList → List ℕ} {sys : System}
  {s c x : ℕ} {w : SlabList} {slab : Slab}

theorem exempt (S : Sound h live cls lists 0) (x : ℕ) : Sound h live cls lists x :=
  { S with inv := S.inv.exempt x }

theorem settle (S : Sound h live cls lists s) (hs : s ∈ lists (c, w)) (hslab : h.slabs s = some slab)
    (hw : w = slab.list) : Sound h live cls lists 0 :=
  { S with inv := S.inv.settle hs hslab hw }

theorem move (S : Sound h live cls lists s) (hs : s ∈ lists (c, w)) (w' : SlabList) (hne : w ≠ w')
    (hw : w ≠ .emptySlabs) (hw' : w' ≠ .emptySlabs) :
    ∃ h₁ h₂, h.listRemove c w s = some h₁ ∧ h₁.listInsert c w' s = some h₂ ∧ h₂.slabs = h.slabs ∧
      Sound h₂ live cls (moved lists c w w' s) s := by
  obtain ⟨h₁, h₂, e₁, e₂, R, N, I⟩ := S.inv.move hs hne
  have hsame : ∀ d, moved lists c w w' s (d, .emptySlabs) = lists (d, .emptySlabs) := by
    intro d
    simp [moved, hw.symm, hw'.symm]
  refine ⟨h₁, h₂, e₁, e₂, R.slabs, I, ?_, ?_⟩
  · intro d
    rw [hsame, N, S.counted]
  · intro d
    rw [hsame]
    exact S.bounded d

theorem move_counting (S : Sound h live cls lists s) (hs : s ∈ lists (c, w)) (w' : SlabList) (hne : w ≠ w') {n : ℕ}
    (hn : n = (moved lists c w w' s (c, .emptySlabs)).length) (hle : n ≤ maxEmptySlabs) :
    ∃ h₁ h₂, h.listRemove c w s = some h₁ ∧ h₁.listInsert c w' s = some h₂ ∧ h₂.slabs = h.slabs ∧
      (h₂.classes c).emptySlabCount = (h.classes c).emptySlabCount ∧
      Sound (h₂.setCount c n) live cls (moved lists c w w' s) s := by
  obtain ⟨h₁, h₂, e₁, e₂, R, N, I⟩ := S.inv.move hs hne
  have hother : ∀ d, d ≠ c → moved lists c w w' s (d, .emptySlabs) = lists (d, .emptySlabs) := by
    intro d hd
    simp [moved, hd]
  refine ⟨h₁, h₂, e₁, e₂, R.slabs, N c, I.setCount _ _, ?_, ?_⟩
  · intro d
    rw [count_setCount]
    split
    · subst d
      exact hn
    · rw [hother d (by assumption), N, S.counted]
  · intro d
    rcases eq_or_ne d c with rfl | hd
    · rwa [← hn]
    · rw [hother d hd]
      exact S.bounded d

theorem slab_of_mem (S : Sound h live cls lists x) (hs : s ∈ lists (c, w)) :
    cls s = some c ∧ s ≠ 0 ∧ ∃ slab, h.slabs s = some slab := by
  have hclass := S.inv.member.mpr ⟨w, hs⟩
  obtain ⟨-, hpos, -, slab, -, hslab, -⟩ := S.inv.carved.slab hclass
  exact ⟨hclass, by omega, slab, hslab⟩

def Usable (h : Heap) (live : List Block) (c s : ℕ) : Prop :=
  ∃ cls lists slab, Sound h live cls lists s ∧ s ∈ lists (c, .partialSlabs) ∧ h.slabs s = some slab ∧
    slab.freeBlocks ≠ 0

theorem takeEmpty (S : Sound h live cls lists 0) (hne : (h.classes c).heads .emptySlabs ≠ 0) :
    ∃ h' s, h.takeEmpty c = some (h', s) ∧ s ≠ 0 ∧ Usable h' live c s := by
  have hs : (h.classes c).heads .emptySlabs ∈ lists (c, .emptySlabs) := S.inv.linked.head_mem hne
  generalize hhead : (h.classes c).heads .emptySlabs = s at hne hs
  obtain ⟨hclass, hpos, slab, hslab⟩ := S.slab_of_mem hs
  obtain ⟨hfree, -⟩ := list_eq_empty (S.inv.status hs hslab hpos)
  have hn : (h.classes c).emptySlabCount - 1 =
      (moved lists c .emptySlabs .partialSlabs s (c, .emptySlabs)).length := by
    simp [moved, S.counted, List.length_erase_of_mem hs]
  have hle := S.bounded c
  rw [← S.counted] at hle
  obtain ⟨h₁, h₂, e₁, e₂, hslabs, hcount, S'⟩ :=
    (S.exempt s).move_counting hs .partialSlabs (by decide) hn (by omega)
  refine ⟨_, s, by simp only [Heap.takeEmpty, hhead, e₁, e₂, bind, Option.bind, pure, hcount], hpos, cls, _, slab, S',
    ?_, ?_, hfree⟩
  · exact (mem_moved S.inv.linked hs (by decide) _).mpr (.inl ⟨rfl, rfl⟩)
  · exact hslabs ▸ hslab

theorem insertEmpty (S : Sound h live cls lists 0) (hs : cls s = none) (F : Carved.Fresh h h' s c slab)
    (hlinks : h'.links = h.links) (hclasses : h'.classes = h.classes) (hroom : lists (c, .emptySlabs) = []) :
    ∃ h'' cls' lists', h'.insertEmpty c s = some h'' ∧ (h''.classes c).heads .emptySlabs = s ∧
      Sound h'' live cls' lists' 0 := by
  have hnot : ∀ k, s ∉ lists k := by
    intro k hk
    have hclass := S.inv.member.mpr ⟨k.2, hk⟩
    rw [hs] at hclass
    cases hclass
  have hheads : h'.heads = h.heads := by
    funext k
    rw [Heap.heads, hclasses, Heap.heads]
  have hslab : h'.slabs s = some slab := by rw [F.slabs, Function.update_self]
  have hold : ∀ {t}, t ≠ s → h'.slabs t = h.slabs t := by
    intro t ht
    rw [F.slabs, Function.update_of_ne ht]
  have hpos := F.pos
  have hall : ∀ k, ∀ t ∈ lists k, (h'.slabs t).isSome := by
    intro k t ht
    rw [hold (fun he => hnot k (he ▸ ht))]
    exact S.inv.isSome k t ht
  have hlinked : Lists h'.links 0 h'.heads lists := by
    rw [hlinks, hheads]
    exact S.inv.linked
  obtain ⟨h₁, e, R, N, L⟩ := listInsert_spec hlinked hall (hslab ▸ rfl) (by omega) hnot c .emptySlabs
  have hmem : ∀ t d v, t ∈ Function.update lists (c, .emptySlabs) (s :: lists (c, .emptySlabs)) (d, v) ↔
      t = s ∧ d = c ∧ v = .emptySlabs ∨ t ∈ lists (d, v) := by
    intro t d v
    rcases eq_or_ne (d, v) (c, .emptySlabs) with he | hne
    · obtain ⟨rfl, rfl⟩ := Prod.mk.inj he
      simp
    · rw [Function.update_of_ne hne]
      have hno : ¬ (d = c ∧ v = .emptySlabs) := by
        rintro ⟨rfl, rfl⟩
        exact hne rfl
      simp [hno]
  have I : Inv h₁ live (Function.update cls s (some c))
      (Function.update lists (c, .emptySlabs) (s :: lists (c, .emptySlabs))) 0 := by
    refine ⟨R.carved (S.inv.carved.add hs F), L, ?_, ?_, ?_⟩
    · intro t d
      simp only [hmem]
      rcases eq_or_ne t s with rfl | hts
      · simp [hnot, eq_comm]
      · simpa [hts] using S.inv.member
    · intro d v t slab' ht hslab' ht0
      rw [R.slabs] at hslab'
      rcases (hmem t d v).mp ht with ⟨rfl, rfl, rfl⟩ | ht
      · obtain rfl := Option.some.inj (hslab.symm.trans hslab')
        have htotal := totalOf_pos F.valid
        rw [Slab.list, F.free, F.total, if_neg (by omega), if_pos rfl]
      · rw [hold (fun he => hnot (d, v) (he ▸ ht))] at hslab'
        exact S.inv.status ht hslab' ht0
    · intro d
      rw [R.blockSize, hclasses, S.inv.blockSize]
  have e' : h'.insertEmpty c s = some (h₁.setCount c ((h₁.classes c).emptySlabCount + 1)) := by
    simp only [Heap.insertEmpty, e, bind, Option.bind, pure]
  refine ⟨_, _, _, e', ?_, I.setCount c _, ?_, ?_⟩
  · have hhead := L.head (c, .emptySlabs)
    rw [Function.update_self, List.headD_cons] at hhead
    rw [← hhead]
    exact congrFun (heads_setCount h₁ c _) (c, .emptySlabs)
  · intro d
    rw [count_setCount]
    split
    · subst d
      rw [N, hclasses, S.counted, Function.update_self, List.length_cons]
    · have hne : (d, SlabList.emptySlabs) ≠ (c, .emptySlabs) := by simpa using by assumption
      rw [N, hclasses, S.counted, Function.update_of_ne hne]
  · intro d
    rcases eq_or_ne d c with rfl | hd
    · simp [hroom, maxEmptySlabs]
    · have hne : (d, SlabList.emptySlabs) ≠ (c, .emptySlabs) := by simpa using hd
      rw [Function.update_of_ne hne]
      exact S.bounded d

theorem class_eq_none (S : Sound h live cls lists x) {a n : ℕ} (hfree : h.Free a n) (hle : a ≤ s)
    (hlt : s < a + n) : cls s = none := by
  cases hs : cls s with
  | none => rfl
  | some c =>
    obtain ⟨-, -, -, slab, -, hslab, -⟩ := S.inv.carved.slab hs
    have hap := hfree.slabs s (by rw [hslab]; rfl)
    simp only [Apart, sizeofSlab] at hap
    omega

def Extended (h h' : Heap) (live : List Block) (c : ℕ) (ret : ℤ) : Prop :=
  ret ≠ 0 ∧ h' = h ∨
    ret = 0 ∧ (h'.classes c).heads .emptySlabs ≠ 0 ∧ ∃ cls lists, Sound h' live cls lists 0

theorem addPoolWithHeader (S : Sound h live cls lists 0) (hc : c < classCount) (hsys : sys.Fresh h)
    (hh : Headed c) (hroom : lists (c, .emptySlabs) = []) :
    ∃ h' ret, addPoolWithHeader h sys c = some (h', ret) ∧ Extended h h' live c ret := by
  have hnot : ¬ sizeClass c ≤ alignmentThreshold := Nat.not_le.mpr hh
  have hregion : regionOf c = slabClass c := if_neg hnot
  have hfirst : firstOffset c = 0 := if_neg hnot
  have hsize := S.inv.blockSize c
  have htotal : slabClass c / sizeClass c = totalOf c := by rw [totalOf, hregion, hfirst, Nat.sub_zero]
  cases hm : sys.malloc sizeofSlab with
  | none => exact ⟨h, -2, by rw [Mempool.addPoolWithHeader, hm], .inl ⟨by decide, rfl⟩⟩
  | some s =>
    cases hp : sys.mmap (slabClass c) with
    | none => exact ⟨h, -2, by rw [Mempool.addPoolWithHeader, hm, hp], .inl ⟨by decide, rfl⟩⟩
    | some mem =>
      have hs := hsys.malloc _ _ hm
      have hmem := hsys.mmap _ _ hp
      have hfits := hs.fits
      simp only [sizeofSlab] at hfits hs
      have F : Carved.Fresh h
          { h.setSlab s ⟨mem, totalOf c, totalOf c, mem, 0, 0⟩ with
            mapped := Function.update h.mapped mem (some (slabClass c))
            bytes := carve h.bytes mem (sizeClass c) (totalOf c - 1) }
          s c ⟨mem, totalOf c, totalOf c, mem, 0, 0⟩ :=
        { valid := hc, pos := hs.pos, lt := by omega, slabs := rfl, mapped := by rw [hregion]
          bytes := by rw [hfirst]; rfl
          mem_pos := hmem.pos
          fits := by rw [hregion]; exact hmem.fits
          region := by rw [hregion]; exact hmem.mapped
          total := rfl, free := rfl
          first := by rw [hfirst]; rfl
          magic := ⟨fun he => absurd (show 0 = slabMagic from he) (by decide), fun he => absurd hh he⟩
          classid := fun he => absurd hh he }
      obtain ⟨h', cls', lists', e, hhead, S'⟩ :=
        S.insertEmpty (S.class_eq_none hs le_rfl (by omega)) F rfl rfl hroom
      refine ⟨h', 0, ?_, .inr ⟨rfl, ?_, cls', lists', S'⟩⟩
      · simp only [Mempool.addPoolWithHeader, hm, hp, hsize, htotal, e, bind, Option.bind, pure]
      · rw [hhead]
        have := hs.pos
        omega

theorem addPoolWithoutHeader (S : Sound h live cls lists 0) (hc : c < classCount) (hsys : sys.Fresh h)
    (hh : ¬ Headed c) (hroom : lists (c, .emptySlabs) = []) :
    ∃ h' ret, addPoolWithoutHeader h sys c = some (h', ret) ∧ Extended h h' live c ret := by
  have hle : sizeClass c ≤ alignmentThreshold := Nat.not_lt.mp hh
  have hregion : regionOf c = slabSizeAlignment := if_pos hle
  have hfirst : firstOffset c = alignUp sizeofSlab := if_pos hle
  have htotal : (slabSizeAlignment - alignUp sizeofSlab) / sizeClass c = totalOf c := by
    rw [totalOf, hregion, hfirst]
  cases hp : sys.mmap (slabSizeAlignment * 2) with
  | none =>
    refine ⟨h, -2, ?_, .inl ⟨by decide, rfl⟩⟩
    simp only [Mempool.addPoolWithoutHeader, alignmentToSlabSize, hp, bind, Option.bind]
  | some raw =>
    have hraw := hsys.mmap _ _ hp
    generalize hmem : (raw + (slabSizeAlignment - 1)) % sizeT / slabSizeAlignment * slabSizeAlignment = mem
    have halign : raw ≤ mem ∧ mem + slabSizeAlignment ≤ raw + slabSizeAlignment * 2 := by
      have hfits := hraw.fits
      simp only [slabSizeAlignment, sizeT] at hfits hmem ⊢
      omega
    obtain ⟨hlow, hhigh⟩ := halign
    have hpos := hraw.pos
    have hfits := hraw.fits
    have hlt : mem < raw + slabSizeAlignment * 2 := by
      simp only [slabSizeAlignment] at hhigh ⊢
      omega
    have F : Carved.Fresh h
        { h.setSlab mem ⟨mem, totalOf c, totalOf c, mem + alignUp sizeofSlab, slabMagic, c⟩ with
          mapped := Function.update h.mapped mem (some slabSizeAlignment)
          bytes := carve h.bytes (mem + alignUp sizeofSlab) (sizeClass c) (totalOf c - 1) }
        mem c ⟨mem, totalOf c, totalOf c, mem + alignUp sizeofSlab, slabMagic, c⟩ :=
      { valid := hc, pos := by omega, lt := by omega, slabs := rfl, mapped := by rw [hregion]
        bytes := by rw [hfirst]
        mem_pos := by simp only; omega
        fits := by rw [hregion]; simp only; omega
        region := by
          intro a n ha
          rw [hregion]
          exact (hraw.mapped a n ha).mono hlow hhigh le_rfl le_rfl
        total := rfl, free := rfl
        first := by rw [hfirst]
        magic := ⟨fun _ => hh, fun _ => rfl⟩
        classid := fun _ => rfl }
    obtain ⟨h', cls', lists', e, hhead, S'⟩ := S.insertEmpty (S.class_eq_none hraw hlow hlt) F rfl rfl hroom
    refine ⟨h', 0, ?_, .inr ⟨rfl, by omega, cls', lists', S'⟩⟩
    simp only [Mempool.addPoolWithoutHeader, alignmentToSlabSize, hp, bind, Option.bind, pure, hmem, htotal, e]

theorem addPool (S : Sound h live cls lists 0) (hc : c < classCount) (hsys : sys.Fresh h)
    (hroom : lists (c, .emptySlabs) = []) :
    ∃ h' ret, addPool h sys c = some (h', ret) ∧ Extended h h' live c ret := by
  have hret : ∀ {h' ret}, Extended h h' live c ret → Extended h h' live c (if ret ≠ 0 then -3 else 0) := by
    rintro h' ret (⟨hret, rfl⟩ | ⟨rfl, hok⟩)
    · exact .inl ⟨by rw [if_pos hret]; decide, rfl⟩
    · exact .inr ⟨rfl, hok⟩
  by_cases hh : Headed c
  · obtain ⟨h', ret, e, hext⟩ := S.addPoolWithHeader hc hsys hh hroom
    refine ⟨h', _, ?_, hret hext⟩
    simp only [Mempool.addPool, if_neg (Nat.not_le.mpr hh), e, bind, Option.bind, pure]
  · obtain ⟨h', ret, e, hext⟩ := S.addPoolWithoutHeader hc hsys hh hroom
    refine ⟨h', _, ?_, hret hext⟩
    simp only [Mempool.addPool, if_pos (Nat.not_lt.mp hh), e, bind, Option.bind, pure]

theorem slabMalloc (S : Sound h live cls lists 0) (hc : c < classCount) (hsys : sys.Fresh h) :
    ∃ h' s, slabMalloc h sys c = some (h', s) ∧ (s = 0 ∧ h' = h ∨ s ≠ 0 ∧ Usable h' live c s) := by
  rw [Mempool.slabMalloc]
  by_cases hpart : (h.classes c).heads .partialSlabs ≠ 0
  · have hs : (h.classes c).heads .partialSlabs ∈ lists (c, .partialSlabs) := S.inv.linked.head_mem hpart
    obtain ⟨-, hpos, slab, hslab⟩ := S.slab_of_mem hs
    obtain ⟨hfree, -⟩ := list_eq_partial (S.inv.status hs hslab hpos)
    rw [if_pos hpart]
    exact ⟨h, _, rfl, .inr ⟨hpos, cls, lists, slab, S.exempt _, hs, hslab, hfree⟩⟩
  · rw [if_neg hpart]
    by_cases hempty : (h.classes c).heads .emptySlabs ≠ 0
    · obtain ⟨h', s, e, hs, hu⟩ := S.takeEmpty hempty
      rw [if_pos hempty]
      exact ⟨h', s, e, .inr ⟨hs, hu⟩⟩
    · have hroom : lists (c, .emptySlabs) = [] := S.inv.linked.head_eq_null_iff.mp (not_not.mp hempty)
      obtain ⟨h', ret, e, hext⟩ := S.addPool hc hsys hroom
      rw [if_neg hempty, e]
      rcases hext with ⟨hret, rfl⟩ | ⟨rfl, hhead, cls', lists', S'⟩
      · exact ⟨h', 0, by simp only [bind, Option.bind, if_pos hret, pure], .inl ⟨rfl, rfl⟩⟩
      · obtain ⟨h'', s, e', hs, hu⟩ := S'.takeEmpty hhead
        exact ⟨h'', s, e', .inr ⟨hs, hu⟩⟩

theorem edit (S : Sound h live cls lists s) {live' : List Block} {b : ℕ} {slab' : Slab}
    (E : Edit h h' s c b slab slab') (C : Carved h' live' cls) (hlinks : h'.links = h.links)
    (hclasses : h'.classes = h.classes) : Sound h' live' cls lists s := by
  have hheads : h'.heads = h.heads := by
    funext k
    rw [Heap.heads, hclasses, Heap.heads]
  refine ⟨⟨C, ?_, S.inv.member, ?_, ?_⟩, ?_, S.bounded⟩
  · rw [hlinks, hheads]
    exact S.inv.linked
  · intro d w t other ht hother hts
    rw [E.after, Function.update_of_ne hts] at hother
    exact S.inv.status ht hother hts
  · rw [hclasses]
    exact S.inv.blockSize
  · rw [hclasses]
    exact S.counted

theorem fillSlab (S : Sound h live cls lists s) (hs : s ∈ lists (c, .partialSlabs)) (hslab : h.slabs s = some slab)
    (hlt : slab.freeBlocks < slab.totalBlocks) :
    ∃ h' lists', h.fillSlab c s slab.freeBlocks = some h' ∧ Sound h' live cls lists' 0 := by
  by_cases hfull : slab.freeBlocks = 0
  · obtain ⟨h₁, h₂, e₁, e₂, hslabs, S'⟩ := S.move hs .fullSlabs (by decide) (by decide) (by decide)
    have hs' := (mem_moved S.inv.linked hs (by decide : SlabList.partialSlabs ≠ .fullSlabs) _).mpr (.inl ⟨rfl, rfl⟩)
    refine ⟨h₂, _, ?_, S'.settle hs' (hslabs ▸ hslab) ?_⟩
    · simp only [Heap.fillSlab, if_pos hfull, e₁, e₂, bind, Option.bind]
    · rw [Slab.list, if_pos hfull]
  · refine ⟨h, lists, by rw [Heap.fillSlab, if_neg hfull], S.settle hs hslab ?_⟩
    rw [Slab.list, if_neg hfull, if_neg (by omega)]

def popped (h : Heap) (s : ℕ) (slab : Slab) (bytes : ℕ → UInt8) : Heap :=
  { h.setSlab s { slab with freeList := load h.bytes slab.freeList 8, freeBlocks := slab.freeBlocks - 1 } with
    bytes := bytes }

theorem take (S : Sound h live cls lists s) (hs : s ∈ lists (c, .partialSlabs)) (hslab : h.slabs s = some slab)
    (hfree : slab.freeBlocks ≠ 0) {bytes : ℕ → UInt8}
    (hsame : SameOutside h.bytes bytes slab.freeList (sizeClass c)) (headed : Bool)
    (hheaded : headed = true ↔ Headed c)
    (hheader : headed = true → load bytes (slab.freeList + 4) 1 = c ∧ load bytes (slab.freeList + 8) 8 = s) :
    ∃ h' lists', (popped h s slab bytes).fillSlab c s (slab.freeBlocks - 1) = some h' ∧
      Sound h' (⟨c, s, slab.freeList, headed⟩ :: live) cls lists' 0 := by
  have hclass := S.inv.member.mpr ⟨_, hs⟩
  obtain ⟨hblock, -⟩ := S.inv.carved.freeList_free hclass hslab hfree
  obtain ⟨free, hok⟩ := S.inv.carved.slabOk_of hclass hslab
  have hle := hok.freeBlocks_le
  have E : Edit h (popped h s slab bytes) s c slab.freeList slab
      { slab with freeList := nextFree h.bytes slab.freeList, freeBlocks := slab.freeBlocks - 1 } :=
    ⟨hslab, hblock, rfl, rfl, rfl, hsame⟩
  have hnew : (popped h s slab bytes).slabs s = some
      { slab with freeList := nextFree h.bytes slab.freeList, freeBlocks := slab.freeBlocks - 1 } := by
    rw [E.after, Function.update_self]
  have hlive : LiveOk (popped h s slab bytes) cls ⟨c, s, slab.freeList, headed⟩ :=
    ⟨hclass, ⟨_, hnew, hblock⟩, hheaded, hheader⟩
  have S' := S.edit E (S.inv.carved.take hclass hfree E rfl hlive) rfl rfl
  exact S'.fillSlab hs hnew (by simp only; omega)

end Sound

section Header

variable (bytes : ℕ → UInt8) (a classId flag slab magic size : ℕ)

theorem writeHeader_sameOutside :
    SameOutside bytes (writeHeader bytes a classId flag slab magic size) a sizeofHeader := by
  have hstore : ∀ m b v n, a ≤ b → b + n ≤ a + sizeofHeader → SameOutside m (store m b v n) a sizeofHeader :=
    fun m b v n hb hn => (store_sameOutside m b v n).mono hb hn
  simp only [sizeofHeader] at hstore ⊢
  exact ((((hstore _ (a + 4) _ 1 (by omega) (by omega)).trans (hstore _ (a + 5) _ 1 (by omega) (by omega))).trans
    (hstore _ (a + 8) _ 8 (by omega) (by omega))).trans (hstore _ a _ 4 (by omega) (by omega))).trans
    (hstore _ (a + 16) _ 8 (by omega) (by omega))

theorem writeHeader_classId (h : classId < 256) :
    load (writeHeader bytes a classId flag slab magic size) (a + 4) 1 = classId := by
  rw [writeHeader]
  rw [(store_sameOutside _ (a + 16) size 8).load (.inl (by omega)),
    (store_sameOutside _ a magic 4).load (.inr (by omega)),
    (store_sameOutside _ (a + 8) slab 8).load (.inl (by omega)),
    (store_sameOutside _ (a + 5) flag 1).load (.inl (by omega))]
  exact load_store_of_lt h

theorem writeHeader_slab (h : slab < 256 ^ 8) :
    load (writeHeader bytes a classId flag slab magic size) (a + 8) 8 = slab := by
  rw [writeHeader]
  rw [(store_sameOutside _ (a + 16) size 8).load (.inl (by omega)),
    (store_sameOutside _ a magic 4).load (.inr (by omega))]
  exact load_store_of_lt h

end Header

theorem getClassId_spec {size c : ℕ} (h : getClassId size = some c) :
    c < classCount ∧ size ≤ sizeClass c ∧ (size ≤ alignmentThreshold → ¬ Headed c) := by
  obtain ⟨hc, hle⟩ := getClassId_le h
  refine ⟨hc, hle, ?_⟩
  rw [getClassId, List.find?_range_eq_some] at h
  obtain ⟨-, -, hfirst⟩ := h
  intro hsmall hh
  -- the class of 128 bytes would have been found first
  have hten : c ≤ 10 := by
    by_contra hlt
    have hnot := hfirst 10 (by omega)
    simp [sizeClass, sizeClasses] at hnot
    simp only [alignmentThreshold] at hsmall
    omega
  have hall : ∀ c ≤ 10, ¬ Headed c := by decide
  exact hall c hten hh

namespace Sound

variable {h h' : Heap} {live : List Block} {cls : ℕ → Option ℕ} {lists : ℕ × SlabList → List ℕ} {sys : System}

def Gave (h : Heap) (live : List Block) (r : Option Block) : Prop :=
  ∃ cls lists, Sound h (r.toList ++ live) cls lists 0

theorem blockWithHeader (S : Sound h live cls lists 0) (hsys : sys.Fresh h) {size : ℕ}
    (hsize : alignmentThreshold < size) :
    ∃ h' r, blockWithHeader h sys size = some (h', r) ∧ Gave h' live r := by
  rw [Mempool.blockWithHeader]
  cases hc : getClassId size with
  | none => exact ⟨h, none, rfl, cls, lists, S⟩
  | some c =>
    obtain ⟨hlt, hle, -⟩ := getClassId_spec hc
    have hh : Headed c := Nat.lt_of_lt_of_le hsize hle
    obtain ⟨h₁, s, e, ⟨rfl, rfl⟩ | ⟨hs0, cls', lists', slab, S', hs, hslab, hfree⟩⟩ := S.slabMalloc hlt hsys
    · exact ⟨h₁, none, by simp only [e, bind, Option.bind, if_true, pure], cls, lists, S⟩
    · obtain ⟨-, -, hslt, -⟩ := S'.inv.carved.slab (S'.inv.member.mpr ⟨_, hs⟩)
      have hsame := writeHeader_sameOutside h₁.bytes slab.freeList c blockFlag s blockMagic (sizeClass c)
      have hbig : sizeofHeader ≤ sizeClass c := Nat.le_of_lt (Nat.lt_of_le_of_lt (by decide) hh)
      obtain ⟨h₂, lists₂, e₂, S₂⟩ := S'.take hs hslab hfree (hsame.mono le_rfl (by omega)) true (by simpa using hh)
        (fun _ => ⟨writeHeader_classId _ _ _ _ _ _ _ (Nat.lt_trans hlt (by decide)),
          writeHeader_slab _ _ _ _ _ _ _ (Nat.lt_of_lt_of_eq hslt (by decide))⟩)
      refine ⟨h₂, some ⟨c, s, slab.freeList, true⟩, ?_, cls', lists₂, S₂⟩
      simp only [e, bind, Option.bind, if_neg hs0, hslab, pure]
      rw [popped] at e₂
      simp only [e₂]

theorem blockWithoutHeader (S : Sound h live cls lists 0) (hsys : sys.Fresh h) {size : ℕ}
    (hsize : size ≤ alignmentThreshold) :
    ∃ h' r, blockWithoutHeader h sys size = some (h', r) ∧ Gave h' live r := by
  rw [Mempool.blockWithoutHeader]
  cases hc : getClassId size with
  | none => exact ⟨h, none, rfl, cls, lists, S⟩
  | some c =>
    obtain ⟨hlt, -, hsmall⟩ := getClassId_spec hc
    obtain ⟨h₁, s, e, ⟨rfl, rfl⟩ | ⟨hs0, cls', lists', slab, S', hs, hslab, hfree⟩⟩ := S.slabMalloc hlt hsys
    · exact ⟨h₁, none, by simp only [e, bind, Option.bind, if_true, pure], cls, lists, S⟩
    · obtain ⟨h₂, lists₂, e₂, S₂⟩ := S'.take hs hslab hfree (SameOutside.refl h₁.bytes _ _) false
        (by simpa using hsmall hsize) (by simp)
      refine ⟨h₂, some ⟨c, s, slab.freeList, false⟩, ?_, cls', lists₂, S₂⟩
      simp only [e, bind, Option.bind, if_neg hs0, hslab, pure]
      rw [popped] at e₂
      simp only [Heap.setSlab] at e₂ ⊢
      simp only [e₂]

theorem mallocLarge (S : Sound h live cls lists 0) (hsys : sys.Fresh h) {size actualSize : ℕ}
    (hlarge : largeThreshold < actualSize) {h' : Heap} {r : Allocation}
    (e : mallocLarge h sys size actualSize = (h', r)) : Sound h' live cls lists 0 ∧ ∀ b, r ≠ .block b := by
  rw [Mempool.mallocLarge] at e
  cases hm : sys.malloc actualSize with
  | none =>
    simp only [hm, Prod.mk.injEq] at e
    obtain ⟨rfl, rfl⟩ := e
    exact ⟨S, by simp⟩
  | some a =>
    simp only [hm, Prod.mk.injEq] at e
    obtain ⟨rfl, rfl⟩ := e
    have hfree := hsys.malloc _ _ hm
    have hstore : ∀ m b v n, a ≤ b → b + n ≤ a + actualSize → SameOutside m (store m b v n) a actualSize :=
      fun m b v n hb hn => (store_sameOutside m b v n).mono hb hn
    simp only [largeThreshold] at hlarge
    have hsame := (((hstore h.bytes (a + 5) blockFlagLarge 1 (by omega) (by omega)).trans
      (hstore _ a blockMagic 4 (by omega) (by omega))).trans
      (hstore _ (a + 8) 0 8 (by omega) (by omega))).trans (hstore _ (a + 16) size 8 (by omega) (by omega))
    refine ⟨⟨⟨?_, S.inv.linked, S.inv.member, S.inv.status, S.inv.blockSize⟩, S.counted, S.bounded⟩, by simp⟩
    exact S.inv.carved.outside hsame hfree.mapped rfl rfl

def Wraps (size : ℕ) : Prop :=
  2 ^ 64 - 31 ≤ size ∧ size ≤ 2 ^ 64 - 8

def after (live : List Block) : Allocation → List Block
  | .block b => b :: live
  | _ => live

theorem mpMalloc (S : Sound h live cls lists 0) (hsys : sys.Fresh h) {size : ℕ} (hlt : size < sizeT)
    (hwrap : ¬ Wraps size) :
    ∃ h' r, mpMalloc h sys size = some (h', r) ∧ ∃ cls' lists', Sound h' (after live r) cls' lists' 0 := by
  have hgave : ∀ {h' b}, Gave h' live b → ∃ cls' lists', Sound h' (after live (.ofBlock b)) cls' lists' 0 := by
    intro h' b hb
    cases b with
    | none => exact hb
    | some b => exact hb
  rw [Mempool.mpMalloc]
  by_cases h0 : size = 0
  · rw [if_pos h0]
    exact ⟨h, .null, rfl, cls, lists, S⟩
  · rw [if_neg h0]
    by_cases hsmall : alignUp size ≤ alignmentThreshold
    · obtain ⟨h', b, e, hb⟩ := S.blockWithoutHeader hsys hsmall
      rw [if_pos hsmall, e]
      exact ⟨h', .ofBlock b, rfl, hgave hb⟩
    · rw [if_neg hsmall]
      by_cases hlarge : alignUp ((size + sizeofHeader) % sizeT) > largeThreshold
      · rw [if_pos hlarge]
        cases e : Mempool.mallocLarge h sys size (alignUp ((size + sizeofHeader) % sizeT)) with
        | mk h' r =>
          obtain ⟨S', hr⟩ := S.mallocLarge hsys hlarge e
          refine ⟨h', r, rfl, cls, lists, ?_⟩
          cases r with
          | block b => exact absurd rfl (hr b)
          | null => exact S'
          | large a => exact S'
      · have hbig : alignmentThreshold < alignUp ((size + sizeofHeader) % sizeT) := by
          simp only [alignUp, alignmentThreshold, sizeofHeader, sizeT, Wraps] at *
          omega
        obtain ⟨h', b, e, hb⟩ := S.blockWithHeader hsys hbig
        rw [if_neg hlarge, e]
        exact ⟨h', .ofBlock b, rfl, hgave hb⟩

section Free

variable {s c : ℕ} {w : SlabList} {slab : Slab} {size : ℕ}

theorem unmap (S : Sound h live cls lists s) (hs : s ∈ lists (c, .partialSlabs)) (hslab : h.slabs s = some slab)
    (hfull : slab.freeBlocks = slab.totalBlocks) {h₁ : Heap} (e : h.listRemove c .partialSlabs s = some h₁) :
    h₁.mapped slab.mem = some (regionOf c) ∧
      Sound { h₁ with
        mapped := Function.update h₁.mapped slab.mem none, slabs := Function.update h₁.slabs s none } live
        (Function.update cls s none)
        (Function.update lists (c, .partialSlabs) ((lists (c, .partialSlabs)).erase s)) 0 := by
  have hclass := S.inv.member.mpr ⟨_, hs⟩
  obtain ⟨h', e', R, N, L⟩ := listRemove_spec S.inv.linked S.inv.isSome hs
  obtain rfl := Option.some.inj (e.symm.trans e')
  obtain ⟨free, hok⟩ := S.inv.carved.slabOk_of hclass hslab
  have hempty : ∀ d, Function.update lists (c, .partialSlabs) ((lists (c, .partialSlabs)).erase s)
      (d, .emptySlabs) = lists (d, .emptySlabs) := by
    intro d
    exact Function.update_of_ne (by simp) _ _
  refine ⟨R.mapped ▸ hok.mapped, ⟨?_, L, ?_, ?_, ?_⟩, ?_, ?_⟩
  · exact (R.carved S.inv.carved).drop hclass (R.slabs ▸ hslab) hfull rfl rfl rfl
  · intro t d
    simp only [S.inv.linked.mem_remove_iff hs]
    rcases eq_or_ne t s with rfl | hts
    · simp
    · simpa [hts] using S.inv.member
  · intro d v t slab' ht hslab' _
    obtain ⟨hts, ht⟩ := (S.inv.linked.mem_remove_iff hs (d, v)).mp ht
    change Function.update h₁.slabs s none t = some slab' at hslab'
    rw [Function.update_of_ne hts, R.slabs] at hslab'
    exact S.inv.status ht hslab' hts
  · intro d
    exact (R.blockSize d).trans (S.inv.blockSize d)
  · intro d
    rw [hempty]
    exact (N d).trans (S.counted d)
  · intro d
    rw [hempty]
    exact S.bounded d

theorem retire (S : Sound h live cls lists s) (hs : s ∈ lists (c, .partialSlabs)) (hslab : h.slabs s = some slab)
    (hfull : slab.freeBlocks = slab.totalBlocks) (hsize : Headed c → size = slabClass c) :
    ∃ h' cls' lists', h.retire c s slab size = some h' ∧ Sound h' live cls' lists' 0 := by
  have hclass := S.inv.member.mpr ⟨_, hs⟩
  obtain ⟨hc, -⟩ := S.inv.carved.slab hclass
  obtain ⟨free, hok⟩ := S.inv.carved.slabOk_of hclass hslab
  by_cases hcount : (h.classes c).emptySlabCount ≥ maxEmptySlabs
  · obtain ⟨h₁, e, -⟩ := listRemove_spec S.inv.linked S.inv.isSome hs
    obtain ⟨hmapped, S'⟩ := S.unmap hs hslab hfull e
    have hlen : regionOf c = if slab.slabMagic = slabMagic then slabSizeAlignment else size := by
      rw [regionOf]
      by_cases hh : Headed c
      · rw [if_neg (Nat.not_le.mpr hh), if_neg (fun he => hok.magic.mp he hh), hsize hh]
      · rw [if_pos (Nat.not_lt.mp hh), if_pos (hok.magic.mpr hh)]
    rw [hlen] at hmapped
    refine ⟨_, _, _, ?_, S'⟩
    simp only [Heap.retire, if_pos hcount, e, bind, Option.bind, Heap.munmap, if_pos hmapped, pure]
  · have hlt : (lists (c, .emptySlabs)).length + 1 ≤ maxEmptySlabs := by
      rw [← S.counted]
      omega
    have hn : (lists (c, .emptySlabs)).length + 1 =
        (moved lists c .partialSlabs .emptySlabs s (c, .emptySlabs)).length := by
      simp [moved]
    obtain ⟨h₁, h₂, e₁, e₂, hslabs, hsame, S'⟩ := S.move_counting hs .emptySlabs (by decide) hn hlt
    have hs' := (mem_moved S.inv.linked hs (by decide : SlabList.partialSlabs ≠ .emptySlabs) _).mpr
      (.inl ⟨rfl, rfl⟩)
    rw [← S.counted] at S'
    refine ⟨_, _, _, ?_, S'.settle hs' (hslabs ▸ hslab) ?_⟩
    · simp only [Heap.retire, if_neg hcount, e₁, e₂, bind, Option.bind, pure, hsame]
    · have htotal := totalOf_pos hc
      have hpos : slab.freeBlocks ≠ 0 := by
        rw [hfull, hok.total]
        omega
      rw [Slab.list, if_neg hpos, if_pos hfull]

theorem reopen (S : Sound h live cls lists s) (hs : s ∈ lists (c, w)) (hslab : h.slabs s = some slab)
    (hw : w = if slab.freeBlocks = 1 then .fullSlabs else .partialSlabs) :
    ∃ h' lists', h.reopen c s slab.freeBlocks = some h' ∧ Sound h' live cls lists' s ∧
      s ∈ lists' (c, .partialSlabs) ∧ h'.slabs s = some slab := by
  by_cases hone : slab.freeBlocks = 1
  · rw [if_pos hone] at hw
    subst hw
    obtain ⟨h₁, h₂, e₁, e₂, hslabs, S'⟩ := S.move hs .partialSlabs (by decide) (by decide) (by decide)
    refine ⟨h₂, _, ?_, S', ?_, hslabs ▸ hslab⟩
    · simp only [Heap.reopen, if_pos hone, e₁, e₂, bind, Option.bind]
    · exact (mem_moved S.inv.linked hs (by decide) _).mpr (.inl ⟨rfl, rfl⟩)
  · rw [if_neg hone] at hw
    subst hw
    exact ⟨h, lists, by rw [Heap.reopen, if_neg hone], S, hs, hslab⟩

theorem slabFree (S : Sound h live cls lists s) (hs : s ∈ lists (c, w)) (hslab : h.slabs s = some slab)
    (hpos : slab.freeBlocks ≠ 0) (hw : w = if slab.freeBlocks = 1 then .fullSlabs else .partialSlabs)
    (hsize : Headed c → size = slabClass c) :
    ∃ h' cls' lists', slabFree h c s size = some h' ∧ Sound h' live cls' lists' 0 := by
  obtain ⟨h₁, lists₁, e₁, S₁, hs₁, hslab₁⟩ := S.reopen hs hslab hw
  by_cases hfull : slab.freeBlocks = slab.totalBlocks
  · obtain ⟨h', cls', lists', e, S'⟩ := S₁.retire hs₁ hslab₁ hfull hsize
    refine ⟨h', cls', lists', ?_, S'⟩
    simp only [Mempool.slabFree, hslab, bind, Option.bind, e₁, if_pos hfull, e]
  · refine ⟨h₁, cls, lists₁, ?_, S₁.settle hs₁ hslab₁ ?_⟩
    · simp only [Mempool.slabFree, hslab, bind, Option.bind, e₁, if_neg hfull]
    · rw [Slab.list, if_neg hpos, if_neg hfull]

theorem give (S : Sound h live cls lists 0) {l : Block} (hl : l ∈ live)
    (E : Edit h h' l.slab l.classId l.addr slab { slab with freeList := l.addr, freeBlocks := slab.freeBlocks + 1 })
    (hnext : nextFree h'.bytes l.addr = slab.freeList) (hlinks : h'.links = h.links)
    (hclasses : h'.classes = h.classes) (size : ℕ) (hsize : Headed l.classId → size = slabClass l.classId) :
    ∃ h'' cls' lists', Mempool.slabFree h' l.classId l.slab size = some h'' ∧
      Sound h'' (live.erase l) cls' lists' 0 := by
  have hlok := S.inv.carved.held l hl
  obtain ⟨w, hs⟩ := S.inv.member.mp hlok.class_eq
  obtain ⟨-, hpos, -⟩ := S.slab_of_mem hs
  obtain ⟨free, hok⟩ := S.inv.carved.slabOk_of hlok.class_eq E.before
  have S' := (S.exempt l.slab).edit E (S.inv.carved.put hl E hnext) hlinks hclasses
  apply S'.slabFree hs (by rw [E.after, Function.update_self]) (Nat.succ_ne_zero _) _ hsize
  have hstatus := S.inv.status hs E.before hpos
  -- the slab has a live block, so not all its blocks are free
  have hnotfull : slab.freeBlocks ≠ slab.totalBlocks := fun hfull =>
    S.inv.carved.addr_notMem_free hl E.before hok (hok.mem_free_of_full hfull E.block)
  rw [hstatus, Slab.list, if_neg hnotfull]
  by_cases h0 : slab.freeBlocks = 0
  · simp [h0]
  · simp [h0]

theorem freeBlock (S : Sound h live cls lists 0) {l : Block} (hl : l ∈ live) :
    ∃ h' cls' lists', PoolState.freeBlock h l = some h' ∧ Sound h' (live.erase l) cls' lists' 0 := by
  have hlok := S.inv.carved.held l hl
  obtain ⟨slab, hslab, hblock⟩ := hlok.block
  obtain ⟨hc, hpos, -⟩ := S.inv.carved.slab hlok.class_eq
  obtain ⟨free, hok⟩ := S.inv.carved.slabOk_of hlok.class_eq hslab
  have hlist := hok.freeList_lt hc
  have hsize := sizeClass_ge hc
  have haddr : l.addr ≠ 0 := by
    have hw := hblock.within hc
    have hmem := hok.pos
    omega
  rw [PoolState.freeBlock]
  cases hh : l.headed with
  | true =>
    obtain ⟨hclass, hslabptr⟩ := hlok.header hh
    have hmagic := store_sameOutside h.bytes l.addr 0 4
    have hclass' : load (store h.bytes l.addr 0 4) (l.addr + 4) 1 = l.classId :=
      (hmagic.load (.inr (by omega))).trans hclass
    have hslab' : load (store h.bytes l.addr 0 4) (l.addr + 8) 8 = l.slab :=
      (hmagic.load (.inr (by omega))).trans hslabptr
    have hlink := store_sameOutside (store h.bytes l.addr 0 4) l.addr slab.freeList 8
    have E : Edit h
        { h.setSlab l.slab { slab with freeList := l.addr, freeBlocks := slab.freeBlocks + 1 } with
          bytes := store (store h.bytes l.addr 0 4) l.addr slab.freeList 8 }
        l.slab l.classId l.addr slab { slab with freeList := l.addr, freeBlocks := slab.freeBlocks + 1 } :=
      ⟨hslab, hblock, rfl, rfl, rfl, (hmagic.mono le_rfl (by omega)).trans (hlink.mono le_rfl (by omega))⟩
    obtain ⟨h', cls', lists', e, S'⟩ := S.give hl E (load_store_of_lt hlist) rfl rfl _ (fun _ => rfl)
    refine ⟨h', cls', lists', ?_, S'⟩
    simp only [if_true, slabFreeWithHeader, if_neg haddr, hclass', hslab', hslab, bind, Option.bind, e]
  | false =>
    have hnot : ¬ Headed l.classId := hlok.not_headed hh
    have E : Edit h
        { h.setSlab l.slab { slab with freeList := l.addr, freeBlocks := slab.freeBlocks + 1 } with
          bytes := store h.bytes l.addr slab.freeList 8 }
        l.slab l.classId l.addr slab { slab with freeList := l.addr, freeBlocks := slab.freeBlocks + 1 } :=
      ⟨hslab, hblock, rfl, rfl, rfl, (store_sameOutside _ _ _ _).mono le_rfl (by omega)⟩
    obtain ⟨h', cls', lists', e, S'⟩ :=
      S.give hl E (load_store_of_lt hlist) rfl rfl slabSizeAlignment (fun hd => absurd hd hnot)
    refine ⟨h', cls', lists', ?_, S'⟩
    have hnull : ¬ (l.addr = 0 ∨ l.slab = 0) := by omega
    rw [← hok.classid hnot] at e
    simp only [Bool.false_eq_true, if_false, slabFreeWithoutHeader, if_neg hnull, hslab, bind, Option.bind, e]

end Free

end Sound

namespace PoolState

/-- The steps of the environment and of users who keep to the interface: fresh regions from the system, frees of
live blocks, writes to the bytes of a live block after its header. -/
def Legal (σ : PoolState) : PoolOp → Prop
  | .malloc sys size => size < sizeT ∧ sys.Fresh σ.heap
  | .free b => b ∈ σ.live
  | .write a _ => ∃ b ∈ σ.live, b.ptr ≤ a ∧ a < b.addr + sizeClass b.classId

def Permitted : PoolState → List PoolOp → Prop
  | _, [] => True
  | σ, op :: ops => σ.Legal op ∧ ∀ σ', σ.step op = some σ' → Permitted σ' ops

/-- The slab invariant: `lists` are the nodes of the three lists of every class. -/
structure SlabInvariant (σ : PoolState) (lists : ℕ × SlabList → List ℕ) : Prop where
  linked : Lists σ.heap.links 0 σ.heap.heads lists
  listed : ∀ s, (σ.heap.slabs s).isSome ↔ ∃ c w, s ∈ lists (c, w)
  slab : ∀ c w s, s ∈ lists (c, w) → ∃ slab free, σ.heap.slabs s = some slab ∧ w = slab.list ∧
    slab.totalBlocks = totalOf c ∧ Chain.Heads (nextFree σ.heap.bytes) 0 slab.freeList free ∧
    free.length = slab.freeBlocks ∧ free.Nodup ∧ (∀ b ∈ free, IsBlock c slab.mem b) ∧
    ∀ b ∈ free, b ∉ σ.live.map Block.addr
  count : ∀ c, (σ.heap.classes c).emptySlabCount = (lists (c, .emptySlabs)).length ∧
    (σ.heap.classes c).emptySlabCount ≤ maxEmptySlabs
  live : ∀ b ∈ σ.live, ∃ slab, σ.heap.slabs b.slab = some slab ∧
    σ.heap.mapped slab.mem = some (regionOf b.classId) ∧ IsBlock b.classId slab.mem b.addr
  distinct : (σ.live.map Block.addr).Nodup

theorem slabInvariant_of_sound {σ : PoolState} {cls : ℕ → Option ℕ} {lists : ℕ × SlabList → List ℕ}
    (S : Sound σ.heap σ.live cls lists 0) : SlabInvariant σ lists := by
  refine ⟨S.inv.linked, ?_, ?_, ?_, ?_, S.inv.carved.distinct⟩
  · intro s
    constructor
    · intro hs
      cases hc : cls s with
      | none => simp [S.inv.carved.unused hc] at hs
      | some c => exact ⟨c, S.inv.member.mp hc⟩
    · rintro ⟨c, w, hs⟩
      exact S.inv.isSome (c, w) s hs
  · intro c w s hs
    obtain ⟨hclass, hpos, slab, hslab⟩ := S.slab_of_mem hs
    obtain ⟨free, hok⟩ := S.inv.carved.slabOk_of hclass hslab
    refine ⟨slab, free, hslab, S.inv.status hs hslab hpos, hok.total, hok.chain, hok.count, hok.nodup, hok.inside, ?_⟩
    exact fun b hb hm => (hok.live_iff b (hok.inside b hb)).mp hm hb
  · intro c
    exact ⟨S.counted c, S.counted c ▸ S.bounded c⟩
  · intro b hb
    have hlok := S.inv.carved.held b hb
    obtain ⟨slab, hslab, hblock⟩ := hlok.block
    obtain ⟨free, hok⟩ := S.inv.carved.slabOk_of hlok.class_eq hslab
    exact ⟨slab, hslab, hok.mapped, hblock⟩

theorem sound_start (links : Links ℕ) (bytes : ℕ → UInt8) :
    Sound (start links bytes).heap (start links bytes).live (fun _ => none) (fun _ => []) 0 := by
  refine ⟨⟨⟨?_, ?_, ?_, ?_, List.nodup_nil⟩, ⟨?_, ?_, ?_, ?_, ?_⟩, ?_, ?_, ?_⟩, ?_, ?_⟩
  all_goals intros
  all_goals simp_all [start, mpCreate, Heap.heads, Segment]

theorem sound_step {σ : PoolState} {cls : ℕ → Option ℕ} {lists : ℕ × SlabList → List ℕ}
    (S : Sound σ.heap σ.live cls lists 0) {op : PoolOp} (hlegal : σ.Legal op)
    (hwrap : ∀ sys size, op = .malloc sys size → ¬ Sound.Wraps size) :
    ∃ σ', σ.step op = some σ' ∧ ∃ cls' lists', Sound σ'.heap σ'.live cls' lists' 0 := by
  cases op with
  | malloc sys size =>
    obtain ⟨hlt, hsys⟩ := hlegal
    obtain ⟨h', r, e, cls', lists', S'⟩ := S.mpMalloc hsys hlt (hwrap sys size rfl)
    refine ⟨⟨h', Sound.after σ.live r⟩, ?_, cls', lists', S'⟩
    rw [step, e]
    cases r <;> rfl
  | free b =>
    obtain ⟨h', cls', lists', e, S'⟩ := S.freeBlock hlegal
    refine ⟨⟨h', σ.live.erase b⟩, ?_, cls', lists', S'⟩
    rw [step, e]
    rfl
  | write a v =>
    obtain ⟨b, hb, hptr, hlt⟩ := hlegal
    refine ⟨_, rfl, cls, lists, ⟨⟨S.inv.carved.write hb hptr hlt v, ?_, S.inv.member, ?_, ?_⟩, ?_, S.bounded⟩⟩
    · exact S.inv.linked
    · exact S.inv.status
    · exact S.inv.blockSize
    · exact S.counted

theorem sound_run {ops : List PoolOp} {σ : PoolState} {cls : ℕ → Option ℕ} {lists : ℕ × SlabList → List ℕ}
    (S : Sound σ.heap σ.live cls lists 0) (hops : Permitted σ ops)
    (hwrap : ∀ sys size, PoolOp.malloc sys size ∈ ops → ¬ Sound.Wraps size) :
    ∃ σ', run ops σ = some σ' ∧ ∃ cls' lists', Sound σ'.heap σ'.live cls' lists' 0 := by
  induction ops generalizing σ cls lists with
  | nil => exact ⟨σ, rfl, cls, lists, S⟩
  | cons op ops ih =>
    obtain ⟨hlegal, hrest⟩ := hops
    obtain ⟨σ₁, e, cls₁, lists₁, S₁⟩ :=
      sound_step S hlegal (fun sys size he => hwrap sys size (he ▸ List.mem_cons_self))
    obtain ⟨σ₂, e₂, hS⟩ := ih S₁ (hrest σ₁ e) (fun sys size hm => hwrap sys size (List.mem_cons_of_mem op hm))
    refine ⟨σ₂, ?_, hS⟩
    rw [run, e]
    exact e₂

/-- Whatever is allocated, freed and written, the slab invariant holds afterwards, as long as no size wraps. -/
theorem slab_invariant_if_no_wrap (links : Links ℕ) (bytes : ℕ → UInt8) (ops : List PoolOp)
    (hops : Permitted (start links bytes) ops)
    (hwrap : ∀ sys size, PoolOp.malloc sys size ∈ ops → ¬ Sound.Wraps size) :
    ∃ σ lists, run ops (start links bytes) = some σ ∧ SlabInvariant σ lists := by
  obtain ⟨σ, e, cls, lists, S⟩ := sound_run (sound_start links bytes) hops hwrap
  exact ⟨σ, lists, e, slabInvariant_of_sound S⟩

theorem slabMalloc_start (links : Links ℕ) (bytes : ℕ → UInt8) {sys : System} {c mem : ℕ} (hc : ¬ Headed c)
    (hmem : alignmentToSlabSize sys slabSizeAlignment = some mem) :
    ∃ h, slabMalloc (mpCreate links bytes) sys c = some (h, mem) ∧
      h.bytes = carve bytes (mem + firstOffset c) (sizeClass c) (totalOf c - 1) ∧
      h.slabs mem = some ⟨mem, totalOf c, totalOf c, mem + firstOffset c, slabMagic, c⟩ := by
  have hle : sizeClass c ≤ alignmentThreshold := Nat.not_lt.mp hc
  have hfirst : firstOffset c = alignUp sizeofSlab := if_pos hle
  have htotal : (slabSizeAlignment - alignUp sizeofSlab) / sizeClass c = totalOf c := by
    rw [totalOf, regionOf, if_pos hle, hfirst]
  simp [slabMalloc, addPool, if_pos hle, addPoolWithoutHeader, hmem, htotal, hfirst, mpCreate,
    Heap.insertEmpty, Heap.listInsert, Heap.nullOrSlab, Heap.setSlab, Heap.takeEmpty, Heap.listRemove, Heap.setHead,
    Heap.setPool, Heap.setCount, Links.insert, Links.remove, Links.headAfter]

theorem step_wrapped (links : Links ℕ) (bytes : ℕ → UInt8) {sys : System} {mem : ℕ} (hpos : mem ≠ 0)
    (hmem : alignmentToSlabSize sys slabSizeAlignment = some mem) :
    ∃ σ, (start links bytes).step (.malloc sys (2 ^ 64 - 24)) = some σ ∧
      σ.heap.bytes = writeHeader (carve bytes (mem + 48) 8 (totalOf 0 - 1)) (mem + 48) 0 blockFlag mem blockMagic 8 ∧
      σ.heap.slabs mem = some ⟨mem, totalOf 0 - 1, totalOf 0,
        nextFree (carve bytes (mem + 48) 8 (totalOf 0 - 1)) (mem + 48), slabMagic, 0⟩ := by
  have hsizes : 2 ^ 64 - 24 ≠ 0 ∧ ¬ alignUp (2 ^ 64 - 24) ≤ alignmentThreshold ∧
      ¬ alignUp ((2 ^ 64 - 24 + sizeofHeader) % sizeT) > largeThreshold ∧
      getClassId (alignUp ((2 ^ 64 - 24 + sizeofHeader) % sizeT)) = some 0 := by
    decide
  obtain ⟨h0, hsmall, hlarge, hclass⟩ := hsizes
  obtain ⟨h, e, hbytes, hslab⟩ := slabMalloc_start links bytes (c := 0) (by decide) hmem
  have hmore : totalOf 0 - 1 ≠ 0 := by decide +kernel
  simp only [show firstOffset 0 = 48 by decide, show sizeClass 0 = 8 by decide] at hbytes hslab
  refine ⟨⟨Sound.popped h mem ⟨mem, totalOf 0, totalOf 0, mem + 48, slabMagic, 0⟩
    (writeHeader h.bytes (mem + 48) 0 blockFlag mem blockMagic 8), [⟨0, mem, mem + 48, true⟩]⟩, ?_, ?_, ?_⟩
  · rw [step, mpMalloc, if_neg h0, if_neg hsmall, if_neg hlarge, blockWithHeader, hclass]
    simp only [start, e, bind, Option.bind, if_neg hpos, hslab, Heap.fillSlab, if_neg hmore, pure,
      Allocation.ofBlock]
    rfl
  · rw [← hbytes]
    rfl
  · rw [← hbytes]
    exact Function.update_self mem _ h.slabs

theorem not_slabInvariant_of_wrapped {σ : PoolState} {bytes : ℕ → UInt8} {mem : ℕ}
    (hfits : mem + slabSizeAlignment ≤ sizeT)
    (hbytes : σ.heap.bytes =
      writeHeader (carve bytes (mem + 48) 8 (totalOf 0 - 1)) (mem + 48) 0 blockFlag mem blockMagic 8)
    (hslab : σ.heap.slabs mem = some ⟨mem, totalOf 0 - 1, totalOf 0,
      nextFree (carve bytes (mem + 48) 8 (totalOf 0 - 1)) (mem + 48), slabMagic, 0⟩)
    (lists : ℕ × SlabList → List ℕ) : ¬ SlabInvariant σ lists := by
  intro I
  obtain ⟨c, w, hmem⟩ := (I.listed mem).mp (by rw [hslab]; rfl)
  obtain ⟨slab, free, hslab', -, htotal, hchain, hlen, -, hinside, -⟩ := I.slab c w mem hmem
  obtain rfl := Option.some.inj (hslab.symm.trans hslab')
  have hoffset : firstOffset c = 48 := by
    by_cases hlt : c < classCount
    · have hall : ∀ c < classCount, totalOf 0 = totalOf c → firstOffset c = 48 := by decide +kernel
      exact hall c hlt htotal
    · have hsize : sizeClass c = 0 := by
        rw [sizeClass, List.getD_eq_getElem?_getD, List.getElem?_eq_none (Nat.not_lt.mp hlt)]
        rfl
      have hnone : totalOf c = 0 := by rw [totalOf, hsize, Nat.div_zero]
      exact absurd (htotal.trans hnone) (Nat.ne_of_gt (totalOf_pos (by decide)))
  have hmany : totalOf 0 * 8 ≤ 131024 ∧ 2 < totalOf 0 := by decide +kernel
  obtain ⟨n, hn⟩ : ∃ n, totalOf 0 = n + 1 + 1 := ⟨totalOf 0 - 2, by omega⟩
  simp only [hn, Nat.add_sub_cancel] at hchain hlen hbytes hmany
  simp only [slabSizeAlignment, sizeT] at hfits
  have hfirst : nextFree (carve bytes (mem + 48) 8 (n + 1)) (mem + 48) = mem + 48 + 8 :=
    nextFree_carve le_rfl bytes (mem + 48) n (by simp only [sizeT]; omega)
  have hnext : nextFree σ.heap.bytes (mem + 48 + 8) = mem := by
    rw [hbytes]
    exact writeHeader_slab _ (mem + 48) _ _ _ _ _ (by omega)
  obtain ⟨b, b', rest, rfl⟩ : ∃ b b' rest, free = b :: b' :: rest := by
    rcases free with _ | ⟨b, _ | ⟨b', rest⟩⟩
    · simp at hlen
    · simp only [List.length_cons, List.length_nil] at hlen
      omega
    · exact ⟨b, b', rest, rfl⟩
  obtain ⟨hb, hb', -⟩ := hchain
  have hb₂ : b' = mem := by rw [← hb', ← hb, hfirst, hnext]
  obtain ⟨j, -, hj⟩ := hinside b' (by simp)
  simp only [hb₂, hoffset] at hj
  omega

theorem fresh_of_mapping (links : Links ℕ) (bytes : ℕ → UInt8) {sys : System}
    (hmalloc : ∀ n a, sys.malloc n = some a → 0 < a ∧ a + n ≤ sizeT)
    (hmmap : ∀ n a, sys.mmap n = some a → 0 < a ∧ a + n ≤ sizeT) : sys.Fresh (start links bytes).heap := by
  refine ⟨fun n a ha => ?_, fun n a ha => ?_⟩
  · obtain ⟨hpos, hfits⟩ := hmalloc n a ha
    exact ⟨hpos, hfits, fun x k hx => (by cases hx), fun s hs => (by cases hs)⟩
  · obtain ⟨hpos, hfits⟩ := hmmap n a ha
    exact ⟨hpos, hfits, fun x k hx => (by cases hx), fun s hs => (by cases hs)⟩

def smallSystem : System where
  malloc := fun n => if n ≤ 48 then some 4096 else none
  mmap := fun n => if n ≤ 262144 then some 131072 else none

theorem smallSystem_fresh (links : Links ℕ) (bytes : ℕ → UInt8) : smallSystem.Fresh (start links bytes).heap := by
  apply fresh_of_mapping
  all_goals
    intro n a ha
    simp only [smallSystem] at ha
    split at ha
    · cases ha
      simp only [sizeT]
      omega
    · cases ha

def idle : PoolState := start ⟨fun _ => 0, fun _ => 0⟩ (fun _ => 0)

theorem slab_invariant_if_no_wrap_example :
    Permitted idle [.malloc smallSystem 8000, .write 131100 7, .free ⟨34, 4096, 131072, true⟩] ∧
      ∃ σ lists, run [.malloc smallSystem 8000, .write 131100 7, .free ⟨34, 4096, 131072, true⟩] idle = some σ ∧
        SlabInvariant σ lists := by
  have hlive : (idle.step (.malloc smallSystem 8000)).map PoolState.live = some [⟨34, 4096, 131072, true⟩] := by
    decide +kernel
  have hops : Permitted idle [.malloc smallSystem 8000, .write 131100 7, .free ⟨34, 4096, 131072, true⟩] := by
    refine ⟨⟨by decide, smallSystem_fresh _ _⟩, fun σ hσ => ?_⟩
    rw [hσ] at hlive
    have hl : σ.live = [⟨34, 4096, 131072, true⟩] := Option.some.inj hlive
    refine ⟨⟨_, hl ▸ List.mem_cons_self, by decide, by decide⟩, fun σ' hσ' => ?_⟩
    obtain rfl := Option.some.inj hσ'
    exact ⟨hl ▸ List.mem_cons_self, fun _ _ => trivial⟩
  refine ⟨hops, slab_invariant_if_no_wrap _ _ _ hops ?_⟩
  intro sys size hm
  simp only [List.mem_cons, PoolOp.malloc.injEq, reduceCtorEq, List.not_mem_nil, or_false] at hm
  obtain ⟨-, rfl⟩ := hm
  simp [Sound.Wraps]

theorem wrapped_size_breaks_free_list :
    ∃ σ, Permitted idle [.malloc smallSystem (2 ^ 64 - 24)] ∧
      run [.malloc smallSystem (2 ^ 64 - 24)] idle = some σ ∧ ∀ lists, ¬ SlabInvariant σ lists := by
  have hmem : alignmentToSlabSize smallSystem slabSizeAlignment = some 131072 := by decide
  obtain ⟨σ, e, hbytes, hslab⟩ := step_wrapped ⟨fun _ => 0, fun _ => 0⟩ (fun _ => 0) (by decide) hmem
  refine ⟨σ, ⟨⟨by decide, smallSystem_fresh _ _⟩, fun _ _ => trivial⟩, ?_, ?_⟩
  · rw [run, idle, e]
    rfl
  · exact not_slabInvariant_of_wrapped (by decide) hbytes hslab

end PoolState

end Lidis.Mempool
