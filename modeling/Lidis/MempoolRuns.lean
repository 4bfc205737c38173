import Lidis.MempoolOrigin

namespace Lidis.Mempool

open ByteMemory DoublyLinked

def Allocation.held (size : ℕ) : Allocation → Option Held
  | .null => none
  | .block b => some (.block b)
  | .large header => some (.large ⟨header, size⟩)

def Held.Kept (m m' : ℕ → UInt8) (p : Held) : Prop :=
  ∀ x, p.base ≤ x → x < p.base + p.extent → m' x = m x

theorem Held.Kept.of_apart {m m' : ℕ → UInt8} {p : Held} {a n : ℕ} (hsame : SameOutside m m' a n)
    (hap : Apart p.base p.extent a n) : p.Kept m m' := by
  intro x hlow hhigh
  apply hsame
  rcases hap with hap | hap
  · exact .inl (by omega)
  · exact .inr (by omega)

namespace Arena

variable {A : Arena} {p q : Held} {sys : System} {size : ℕ}

theorem holds_add (A : Arena) (size : ℕ) (r : Allocation) (q : Held) :
    (A.add size r).Holds q ↔ r.held size = some q ∨ A.Holds q := by
  cases r with
  | null => simp [add, Allocation.held]
  | block b => cases q <;> simp [add, Allocation.held, Holds, eq_comm]
  | large header => cases q <;> simp [add, Allocation.held, Holds, eq_comm]

@[simp] theorem add_heap (A : Arena) (size : ℕ) (r : Allocation) : (A.add size r).heap = A.heap := by
  cases r <;> rfl

@[simp] theorem drop_heap (A : Arena) (p : Held) : (A.drop p).heap = A.heap := by
  cases p <;> rfl

theorem Laid.holds_drop (H : Laid A) (p q : Held) : (A.drop p).Holds q ↔ A.Holds q ∧ q ≠ p := by
  obtain ⟨cls, lists, S⟩ := H.sound
  have hlive : A.live.Nodup := S.inv.carved.distinct.of_map
  have hlarge : A.large.Nodup := by
    apply H.distinct.imp
    rintro l k hap rfl
    simp only [Large.Apart, Apart, Large.extent, sizeofHeader] at hap
    omega
  cases p with
  | block b => cases q <;> simp [drop, Holds, hlive.mem_erase_iff, and_comm]
  | large l => cases q <;> simp [drop, Holds, hlarge.mem_erase_iff, and_comm]

theorem Stands.stamped_of_kept (H : Stands A) (hp : A.Holds p) (hh : p.headed = true) {bytes : ℕ → UInt8}
    (hkept : p.Kept A.heap.bytes bytes) : Stamped bytes p.base p.flag p.capacity := by
  obtain ⟨-, -, hbounds⟩ := H.ptr_bounds hp
  obtain ⟨-, hle⟩ := hbounds hh
  exact (H.stamped p hp hh).congr (fun x hx hlt => hkept x hx (by omega))

section Malloc

variable {h' : Heap} {r : Allocation}

theorem Fresh.not_grants (hsys : A.Fresh sys) (H : Laid A) (hq : A.Holds q) {x : ℕ} (hlow : q.base ≤ x)
    (hhigh : x < q.base + q.extent) : ¬ sys.Grants x 1 := by
  intro hg
  cases q with
  | block b =>
    obtain ⟨slab, -, hmapped, -, hle, hlt⟩ := H.region hq
    have hap := hsys.heap.apart hg hmapped
    simp only [Held.base, Held.extent, Apart] at hlow hhigh hap
    omega
  | large l =>
    obtain ⟨a, n, ha, hle, hlt⟩ := hg
    have hap := hsys.large a n ha l hq
    simp only [Held.base, Held.extent, Apart] at hlow hhigh hap
    omega

theorem Fresh.large_apart (hsys : A.Fresh sys) {l : Large} (hl : l ∈ A.large) {x k : ℕ} (hg : sys.Grants x k) :
    Apart l.header l.extent x k := by
  obtain ⟨a, n, ha, hle, hlt⟩ := hg
  exact (hsys.large a n ha l hl).symm.mono le_rfl le_rfl hle hlt

theorem Laid.malloc (H : Laid A) (hsys : A.Fresh sys) {cls : ℕ → Option ℕ} {lists : ℕ × SlabList → List ℕ}
    (S : Sound h' (Sound.after A.live r) cls lists 0) (U : Supplied sys A.heap h' size r) :
    Laid ({ A with heap := h' }.add size r) := by
  have hmapped : ∀ l ∈ A.large, ∀ x k, h'.mapped x = some k → Apart l.header l.extent x k := by
    intro l hl x k hx
    rcases U.mapped x k hx with hx | hx
    · exact H.outside l hl x k hx
    · exact hsys.large_apart hl hx
  have haligned := U.aligned H.aligned
  cases r with
  | null => exact ⟨⟨cls, lists, S⟩, haligned, hmapped, H.distinct⟩
  | block b => exact ⟨⟨cls, lists, S⟩, haligned, hmapped, H.distinct⟩
  | large header =>
    obtain ⟨-, hgrant, hsame⟩ := U.large header rfl
    refine ⟨⟨cls, lists, S⟩, haligned, ?_, List.pairwise_cons.mpr ⟨?_, H.distinct⟩⟩
    · intro l hl x k hx
      rcases List.mem_cons.mp hl with rfl | hl
      · change h'.mapped x = some k at hx
        rw [hsame] at hx
        exact hsys.heap.apart hgrant hx
      · exact hmapped l hl x k hx
    · intro l hl
      exact (hsys.large_apart hl hgrant).symm

theorem Laid.not_holds_new (H : Laid (A.add size r)) (hq : r.held size = some q) : ¬ A.Holds q := by
  intro hold
  cases r with
  | null => cases hq
  | block b =>
    cases hq
    obtain ⟨cls, lists, S⟩ := H.sound
    exact (List.nodup_cons.mp S.inv.carved.distinct).1 (List.mem_map_of_mem hold)
  | large header =>
    cases hq
    have hap := (List.pairwise_cons.mp H.distinct).1 _ hold
    simp only [Large.Apart, Apart, Large.extent, sizeofHeader] at hap
    omega

theorem Laid.kept_of_malloc (H : Laid A) (hsys : A.Fresh sys) (U : Supplied sys A.heap h' size r)
    (H' : Laid ({ A with heap := h' }.add size r)) (hq : A.Holds q) : q.Kept A.heap.bytes h'.bytes := by
  intro x hlow hhigh
  apply U.bytes x (hsys.not_grants H hq hlow hhigh)
  rintro b rfl
  have hap : Apart b.addr (sizeClass b.classId) q.base q.extent := by
    apply H'.apart ((holds_add _ _ _ (.block b)).mpr (.inl rfl)) ((holds_add _ _ _ q).mpr (.inr hq))
    exact fun he => H'.not_holds_new (congrArg some he) hq
  rcases hap with hap | hap <;> omega

theorem Stands.malloc (H : Stands A) (hsys : A.Fresh sys) (hlt : size < sizeT) (hwrap : ¬ Sound.Wraps size) :
    ∃ h' r, mpMalloc A.heap sys size = some (h', r) ∧ Supplied sys A.heap h' size r ∧
      Stands ({ A with heap := h' }.add size r) ∧ ∀ q, A.Holds q → q.Kept A.heap.bytes h'.bytes := by
  obtain ⟨cls, lists, S⟩ := H.sound
  obtain ⟨h', r, e, cls', lists', S'⟩ := S.mpMalloc hsys.heap hlt hwrap
  have U := Supplied.of_mpMalloc S.inv.blockSize hsys.heap hlt hwrap e
  have H' := H.toLaid.malloc hsys S' U
  have hkept : ∀ q, A.Holds q → q.Kept A.heap.bytes h'.bytes := fun q hq => H.kept_of_malloc hsys U H' hq
  refine ⟨h', r, e, U, ⟨H', ?_⟩, hkept⟩
  intro q hq hh
  rw [add_heap]
  rcases (holds_add _ _ _ q).mp hq with hnew | hold
  · cases r with
    | null => cases hnew
    | block b =>
      cases hnew
      exact (U.block b rfl).2 hh
    | large header =>
      cases hnew
      exact (U.large header rfl).1
  · exact H.stamped_of_kept hold hh (hkept q hold)

end Malloc

section Write

variable {bytes : ℕ → UInt8}

theorem Stands.overwrite (H : Stands A) (hq : A.Holds q) (hsame : SameOutside A.heap.bytes bytes q.ptr q.usable) :
    Stands { A with heap.bytes := bytes } := by
  obtain ⟨hptr, hend, hbounds⟩ := H.ptr_bounds hq
  have hwhole : SameOutside A.heap.bytes bytes q.base q.extent := hsame.mono hptr (by omega)
  refine ⟨⟨?_, H.aligned, H.outside, H.distinct⟩, ?_⟩
  · obtain ⟨cls, lists, S⟩ := H.sound
    refine ⟨cls, lists, ⟨⟨?_, S.inv.linked, S.inv.member, S.inv.status, S.inv.blockSize⟩, S.counted, S.bounded⟩⟩
    cases q with
    | block b => exact S.inv.carved.overwrite hq hsame
    | large l => exact S.inv.carved.outside hwhole (H.outside l hq) rfl rfl
  · intro p hp hh
    rcases eq_or_ne p q with rfl | hne
    · -- the header of the block written to ends where its user's bytes begin
      obtain ⟨hheader, -⟩ := hbounds hh
      exact (H.stamped p hp hh).congr (fun x hx hlt => hsame x (.inl (by omega)))
    · exact H.stamped_of_kept hp hh (.of_apart hwhole (H.apart hp hq hne))

end Write

section Free

theorem Laid.released (H : Laid A) {h' : Heap} {cls : ℕ → Option ℕ} {lists : ℕ × SlabList → List ℕ}
    (S : Sound h' ({ A with heap := h' }.drop p).live cls lists 0) (R : Released A.heap h' p.base p.extent) :
    Laid ({ A with heap := h' }.drop p) := by
  have haligned := R.aligned H.aligned
  have hmapped : ∀ l ∈ A.large, ∀ x k, h'.mapped x = some k → Apart l.header l.extent x k :=
    fun l hl x k hx => H.outside l hl x k (R.mapped x k hx)
  cases p with
  | block b => exact ⟨⟨cls, lists, S⟩, haligned, hmapped, H.distinct⟩
  | large l =>
    refine ⟨⟨cls, lists, S⟩, haligned, fun k hk => hmapped k (List.mem_of_mem_erase hk), ?_⟩
    exact H.distinct.sublist List.erase_sublist

theorem Stands.mpFree_eq (H : Stands A) (hp : A.Holds p) (hs : ¬ Spoofed A.heap p) :
    mpFree A.heap p.ptr = match p with
      | .block b => PoolState.freeBlock A.heap b
      | .large l => some { A.heap with bytes := store A.heap.bytes l.header 0 4 } := by
  have hbranch := (H.branch_iff hp).mpr hs
  rw [mpFree, if_neg (H.ptr_ne_zero hp), hbranch]
  cases p with
  | block b =>
    cases hh : b.headed with
    | true =>
      simp only [Held.origin, Held.ptr, Block.ptr, PoolState.freeBlock, hh, if_true, bind, Option.bind,
        Nat.add_sub_cancel]
    | false =>
      simp only [Held.origin, Held.ptr, Block.ptr, PoolState.freeBlock, hh, Bool.false_eq_true, if_false, bind,
        Option.bind]
  | large l => simp only [Held.origin, Held.ptr, bind, Option.bind, Nat.add_sub_cancel, pure]

theorem Stands.free (H : Stands A) (hp : A.Holds p) (hs : ¬ Spoofed A.heap p) :
    ∃ h', mpFree A.heap p.ptr = some h' ∧ Stands ({ A with heap := h' }.drop p) ∧
      ∀ q, A.Holds q → q ≠ p → q.Kept A.heap.bytes h'.bytes := by
  obtain ⟨h', cls, lists, e, S, R⟩ : ∃ h' cls lists, mpFree A.heap p.ptr = some h' ∧
      Sound h' ({ A with heap := h' }.drop p).live cls lists 0 ∧ Released A.heap h' p.base p.extent := by
    rw [H.mpFree_eq hp hs]
    obtain ⟨cls, lists, S⟩ := H.sound
    cases p with
    | block b =>
      obtain ⟨h', cls', lists', e, S'⟩ := S.freeBlock hp
      have R := Released.of_freeBlock e
      have hsize := sizeClass_ge (S.inv.carved.slab (S.inv.carved.held b hp).class_eq).1
      exact ⟨h', cls', lists', e, S', R.aligned, R.mapped, R.bytes.mono le_rfl (Nat.add_le_add_left hsize _)⟩
    | large l =>
      have hsame : SameOutside A.heap.bytes (store A.heap.bytes l.header 0 4) l.header l.extent :=
        (store_sameOutside _ _ _ _).mono le_rfl (by simp only [Large.extent, sizeofHeader]; omega)
      refine ⟨_, cls, lists, rfl, ?_, ⟨id, fun _ _ => id, hsame⟩⟩
      exact ⟨⟨S.inv.carved.outside hsame (H.outside l hp) rfl rfl, S.inv.linked, S.inv.member, S.inv.status,
        S.inv.blockSize⟩, S.counted, S.bounded⟩
  have hkept : ∀ q, A.Holds q → q ≠ p → q.Kept A.heap.bytes h'.bytes :=
    fun q hq hne => .of_apart R.bytes (H.apart hq hp hne)
  refine ⟨h', e, ⟨H.released S R, ?_⟩, hkept⟩
  intro q hq hh
  obtain ⟨hq, hne⟩ : A.Holds q ∧ q ≠ p := by
    have hdrop := H.holds_drop p q
    cases p <;> cases q <;> exact hdrop.mp hq
  rw [drop_heap]
  exact H.stamped_of_kept hq hh (hkept q hq hne)

end Free

section Realloc

theorem spoofed_of_kept {h h' : Heap} {b : Block} (hsame : ∀ x, b.slab ≤ x → x < b.addr → h'.bytes x = h.bytes x)
    (hs : Spoofed h' (.block b)) : Spoofed h (.block b) := by
  obtain ⟨hh, hle, hload⟩ := hs
  refine ⟨hh, hle, ?_⟩
  rw [← hload]
  apply (load_congr _).symm
  intro x hlow hhigh
  simp only [sizeofSlab, sizeofHeader] at hle hlow hhigh
  exact hsame x (by omega) (by omega)

theorem usable_le_capacity (p : Held) : p.usable ≤ p.capacity := by
  cases p with
  | block b =>
    simp only [Held.usable, Held.capacity, Block.usable]
    split <;> omega
  | large l => exact le_rfl

theorem Laid.apart_larger (H : Laid A) {b : Block} (hb : b ∈ A.live) (hh : b.headed = false) (hq : A.Holds q)
    (hlarger : sizeClass b.classId < q.usable) {x : ℕ} (hlow : b.slab ≤ x) (hhigh : x < b.addr) :
    x < q.base ∨ q.base + q.extent ≤ x := by
  obtain ⟨cls, lists, S⟩ := H.sound
  obtain ⟨slab, M⟩ := H.masked hb hh
  obtain ⟨other, hother, -, -, -, hend⟩ := H.region hb
  obtain rfl := Option.some.inj (M.found.symm.trans hother)
  have hclass := (S.inv.carved.held b hb).class_eq
  have hap : Apart q.base q.extent slab.mem (regionOf b.classId) := by
    apply H.apart_of_slab_ne S hq hclass M.found
    rintro b' rfl he
    have hclass' := (S.inv.carved.held b' hq).class_eq
    rw [he, hclass, Option.some.injEq] at hclass'
    have hle := usable_le_capacity (.block b')
    simp only [Held.usable, Held.capacity, ← hclass'] at hlarger hle
    omega
  have hmem := M.mem
  rcases hap with hap | hap <;> omega

/-- A block that grows leaves the slab of the old one alone. -/
theorem Stands.not_spoofed_of_malloc (H : Stands A) (hsys : A.Fresh sys) (hp : A.Holds p)
    (hs : ¬ Spoofed A.heap p) {h' : Heap} {r : Allocation} (U : Supplied sys A.heap h' size r)
    (H' : Laid ({ A with heap := h' }.add size r)) (hq : r.held size = some q) (hlarger : p.capacity < q.usable)
    {bytes : ℕ → UInt8} (hsame : SameOutside h'.bytes bytes q.base q.extent) :
    ¬ Spoofed { h' with bytes } p := by
  cases p with
  | large l => exact hs
  | block b =>
    intro hs'
    have hh : b.headed = false := hs'.1
    apply hs (spoofed_of_kept _ hs')
    intro x hlow hhigh
    have hold : ({ A with heap := h' }.add size r).Holds (.block b) := (holds_add _ _ _ _).mpr (.inr hp)
    have hlive : b ∈ ({ A with heap := h' }.add size r).live := hold
    have hout := H'.apart_larger hlive hh ((holds_add _ _ _ q).mpr (.inl hq)) hlarger hlow hhigh
    refine (hsame x hout).trans (U.bytes x ?_ ?_)
    · intro hg
      obtain ⟨slab, M⟩ := H.masked hp hh
      obtain ⟨other, hother, hmapped, -, -, hend⟩ := H.region hp
      obtain rfl := Option.some.inj (M.found.symm.trans hother)
      have hmem := M.mem
      have hap := hsys.heap.apart hg hmapped
      rcases hap with hap | hap <;> omega
    · rintro b' rfl
      cases hq
      exact hout

/-- What a call of `mp_realloc` with a pointer that is held and a size above zero leads to. -/
inductive Reallocated (A : Arena) (p : Held) (size : ℕ) : Heap → Reallocation → Prop
  | inPlace (hle : size ≤ p.capacity) : Reallocated A p size A.heap .inPlace
  | null {h' : Heap} (hlt : p.capacity < size) (H : Stands { A with heap := h' }) : Reallocated A p size h' .null
  | moved {h' : Heap} {r : Allocation} {q : Held} (hlt : p.capacity < size) (hq : r.held size = some q)
      (hsize : size ≤ q.usable) (H : Stands (({ A with heap := h' }.add size r).drop p))
      (hcopy : ∀ i < p.usable, h'.bytes (q.ptr + i) = A.heap.bytes (p.ptr + i)) :
      Reallocated A p size h' (.moved r p.capacity)

theorem Stands.mpRealloc_eq (H : Stands A) (hp : A.Holds p) (hs : ¬ Spoofed A.heap p) (hpos : size ≠ 0) :
    mpRealloc A.heap sys p.ptr size = regrow A.heap sys p.ptr size p.capacity := by
  rw [mpRealloc, if_neg (H.ptr_ne_zero hp), if_neg hpos, (H.branch_iff hp).mpr hs]
  cases p with
  | large l =>
    have hsize := (H.stamped _ hp rfl).size
    simp only [Held.base, Held.capacity] at hsize
    simp only [Held.origin, Held.ptr, Held.capacity, bind, Option.bind, Nat.add_sub_cancel, hsize]
  | block b =>
    cases hh : b.headed with
    | true =>
      have hsize := (H.stamped _ hp hh).size
      simp only [Held.base, Held.capacity] at hsize
      simp only [Held.origin, Held.ptr, Block.ptr, hh, if_true, Held.capacity, bind, Option.bind,
        Nat.add_sub_cancel, hsize]
    | false =>
      obtain ⟨slab, M⟩ := H.masked hp hh
      simp only [Held.origin, Held.ptr, Block.ptr, hh, Bool.false_eq_true, if_false, Held.capacity, bind,
        Option.bind, M.found, M.classid]

theorem ptr_of_held {r : Allocation} (hq : r.held size = some q) : r.ptr = q.ptr := by
  cases r <;> cases hq <;> rfl

theorem size_le_usable {h' : Heap} {r : Allocation} (U : Supplied sys A.heap h' size r)
    (hmax : size + 31 < sizeT) (hq : r.held size = some q) : size ≤ q.usable := by
  cases r with
  | null => cases hq
  | block b =>
    cases hq
    exact (U.block b rfl).1 hmax
  | large header =>
    cases hq
    exact le_rfl

theorem Stands.moved (H : Stands A) (hp : A.Holds p) (hs : ¬ Spoofed A.heap p) (hsys : A.Fresh sys)
    (hlt : p.capacity < size) (hmax : size + 31 < sizeT) {h₁ : Heap} {r : Allocation}
    (U : Supplied sys A.heap h₁ size r) (H₁ : Stands ({ A with heap := h₁ }.add size r))
    (hkept : p.Kept A.heap.bytes h₁.bytes) (hq : r.held size = some q) :
    ∃ h', mpFree { h₁ with bytes := copy h₁.bytes r.ptr p.ptr p.capacity } p.ptr = some h' ∧
      Reallocated A p size h' (.moved r p.capacity) := by
  rw [ptr_of_held hq]
  generalize hbytes : copy h₁.bytes q.ptr p.ptr p.capacity = bytes
  have hsize := size_le_usable U hmax hq
  have hroom := usable_le_capacity p
  have hholds : ∀ (h : Heap) t, ({ A with heap := h }.add size r).Holds t ↔ r.held size = some t ∨ A.Holds t :=
    fun h t => holds_add { A with heap := h } size r t
  have hsame : SameOutside h₁.bytes bytes q.ptr q.usable := by
    rw [← hbytes]
    exact (copy_sameOutside _ _ _ _).mono le_rfl (by omega)
  obtain ⟨hbase, hend, -⟩ := H₁.ptr_bounds ((hholds h₁ q).mpr (.inl hq))
  have H₂ : Stands ({ A with heap := { h₁ with bytes } }.add size r) := by
    cases r <;> exact H₁.overwrite ((hholds h₁ q).mpr (.inl hq)) hsame
  have hs₂ : ¬ Spoofed ({ A with heap := { h₁ with bytes } }.add size r).heap p := by
    rw [add_heap]
    exact H.not_spoofed_of_malloc hsys hp hs U H₁.toLaid hq (by omega) (hsame.mono hbase (by omega))
  obtain ⟨h', e, H', hkept'⟩ := H₂.free ((hholds _ p).mpr (.inr hp)) hs₂
  rw [add_heap] at e hkept'
  refine ⟨h', e, .moved hlt hq hsize ?_ ?_⟩
  · cases r <;> exact H'
  · intro i hi
    have hne : q ≠ p := by
      rintro rfl
      exact H₁.not_holds_new hq hp
    obtain ⟨hbase', hend', -⟩ := H.ptr_bounds hp
    calc h'.bytes (q.ptr + i) = bytes (q.ptr + i) :=
          hkept' q ((hholds _ q).mpr (.inl hq)) hne _ (by omega) (by omega)
      _ = h₁.bytes (p.ptr + i) := by rw [← hbytes, copy_apply (by omega)]
      _ = A.heap.bytes (p.ptr + i) := hkept _ (by omega) (by omega)

theorem Stands.realloc (H : Stands A) (hp : A.Holds p) (hs : ¬ Spoofed A.heap p) (hsys : A.Fresh sys)
    (hpos : size ≠ 0) (hmax : size + 31 < sizeT) :
    ∃ h' r, mpRealloc A.heap sys p.ptr size = some (h', r) ∧ Reallocated A p size h' r := by
  rw [H.mpRealloc_eq hp hs hpos, regrow]
  by_cases hle : size ≤ p.capacity
  · rw [if_pos hle]
    exact ⟨_, _, rfl, .inPlace hle⟩
  · rw [if_neg hle]
    have hwrap : ¬ Sound.Wraps size := by
      simp only [Sound.Wraps, sizeT] at hmax ⊢
      omega
    obtain ⟨h₁, r, e, U, H₁, hkept⟩ := H.malloc hsys (by omega) hwrap
    rw [e]
    cases hq : r.held size with
    | none =>
      cases r with
      | null => exact ⟨h₁, .null, rfl, .null (by omega) H₁⟩
      | block b => cases hq
      | large header => cases hq
    | some q =>
      obtain ⟨h', e', hr⟩ := H.moved hp hs hsys (by omega) hmax U H₁ (hkept p hp) hq
      have hptr : r.ptr ≠ 0 := by
        rw [ptr_of_held hq]
        exact H₁.ptr_ne_zero ((holds_add _ _ _ q).mpr (.inl hq))
      refine ⟨h', _, ?_, hr⟩
      simp only [bind, Option.bind, if_neg hptr, e', pure]

end Realloc

theorem Stands.step (H : Stands A) {op : ArenaOp} (hlegal : A.Legal op) (hclean : A.Clean op) :
    ∃ A', A.step op = some A' ∧ Stands A' := by
  cases op with
  | malloc sys size =>
    obtain ⟨hlt, hsys⟩ := hlegal
    obtain ⟨h', r, e, -, H', -⟩ := H.malloc hsys hlt hclean
    exact ⟨_, by rw [Arena.step, e]; rfl, H'⟩
  | free p =>
    obtain ⟨h', e, H', -⟩ := H.free hlegal hclean
    exact ⟨_, by rw [Arena.step, e]; rfl, H'⟩
  | realloc sys p size =>
    obtain ⟨hp, -, hsys⟩ := hlegal
    obtain ⟨hs, hmax⟩ := hclean
    by_cases hpos : size = 0
    · obtain ⟨h', e, H', -⟩ := H.free hp hs
      refine ⟨_, ?_, H'⟩
      rw [Arena.step, mpRealloc, if_neg (H.ptr_ne_zero hp), if_pos hpos, e]
      simp only [bind, Option.bind, pure, if_pos hpos]
    · obtain ⟨h', r, e, hr⟩ := H.realloc hp hs hsys hpos hmax
      rw [Arena.step, e]
      cases hr with
      | inPlace hle => exact ⟨_, rfl, H⟩
      | null hlt H' => exact ⟨_, by simp only [bind, Option.bind, pure, if_neg hpos], H'⟩
      | moved hlt hq hsize H' hcopy => exact ⟨_, rfl, H'⟩
  | write a v =>
    obtain ⟨p, hp, hlow, hhigh⟩ := hlegal
    have hone : SameOutside A.heap.bytes (Function.update A.heap.bytes a v) a 1 :=
      fun x hx => Function.update_of_ne (by omega) v A.heap.bytes
    exact ⟨_, rfl, H.overwrite hp (hone.mono hlow (by omega))⟩

theorem Stands.run {ops : List ArenaOp} (H : Stands A) (hops : Permitted A ops) :
    ∃ A', Arena.run ops A = some A' ∧ Stands A' := by
  induction ops generalizing A with
  | nil => exact ⟨A, rfl, H⟩
  | cons op ops ih =>
    obtain ⟨hlegal, hclean, hrest⟩ := hops
    obtain ⟨A₁, e, H₁⟩ := H.step hlegal hclean
    obtain ⟨A₂, e₂, H₂⟩ := ih H₁ (hrest A₁ e)
    exact ⟨A₂, by rw [Arena.run, e]; exact e₂, H₂⟩

theorem Stands.start (links : Links ℕ) (bytes : ℕ → UInt8) : Stands (Arena.start links bytes) := by
  refine ⟨⟨⟨_, _, PoolState.sound_start links bytes⟩, ?_, ?_, List.Pairwise.nil⟩, ?_⟩
  · rintro s slab ⟨⟩
  · rintro l ⟨⟩
  · rintro (b | l) ⟨⟩

/-- `mp_free` and `mp_realloc` take the branch a block came from, unless other blocks' data say otherwise. -/
theorem classified_by_origin_iff (links : Links ℕ) (bytes : ℕ → UInt8) (ops : List ArenaOp)
    (hops : Permitted (Arena.start links bytes) ops) :
    ∃ A, Arena.run ops (Arena.start links bytes) = some A ∧
      ∀ p, A.Holds p → (branch A.heap p.ptr = some p.origin ↔ ¬ Spoofed A.heap p) := by
  obtain ⟨A, e, H⟩ := (Stands.start links bytes).run hops
  exact ⟨A, e, fun p hp => H.branch_iff hp⟩

def idle : Arena := Arena.start ⟨fun _ => 0, fun _ => 0⟩ (fun _ => 0)

theorem idle_fresh : idle.Fresh PoolState.smallSystem :=
  ⟨PoolState.smallSystem_fresh _ _, fun _ _ _ _ hl => absurd hl (List.not_mem_nil)⟩

theorem classified_by_origin_iff_example :
    ∃ A, Arena.run [.malloc PoolState.smallSystem 64] idle = some A ∧
      ∀ p, A.Holds p → (branch A.heap p.ptr = some p.origin ↔ ¬ Spoofed A.heap p) := by
  apply classified_by_origin_iff
  exact ⟨⟨by decide, idle_fresh⟩, by simp [Clean, Sound.Wraps], fun _ _ => trivial⟩

section Forged

def exhausted : System where
  malloc := fun _ => none
  mmap := fun _ => none

theorem exhausted_fresh (A : Arena) : A.Fresh exhausted := by
  refine ⟨⟨?_, ?_⟩, ?_⟩
  · rintro n a ⟨⟩
  · rintro n a ⟨⟩
  · rintro a n (⟨⟨⟩⟩ | ⟨⟨⟩⟩)

theorem two_small_blocks :
    ∃ h₁ h₂, mpMalloc idle.heap PoolState.smallSystem 64 = some (h₁, .block ⟨5, 131072, 131120, false⟩) ∧
      mpMalloc h₁ exhausted 64 = some (h₂, .block ⟨5, 131072, 131184, false⟩) := by
  have hmem : alignmentToSlabSize PoolState.smallSystem slabSizeAlignment = some 131072 := by decide
  have hheads : (mpMalloc idle.heap PoolState.smallSystem 64).map (fun x => (x.1.classes 5).heads .partialSlabs) =
      some 131072 := by decide +kernel
  have hclass : getClassId (alignUp 64) = some 5 := by decide
  have hsmall : alignUp 64 ≤ alignmentThreshold := by decide
  have hmany : totalOf 5 = 2045 + 1 + 1 := by decide +kernel
  obtain ⟨h, e, hbytes, hslab⟩ :=
    PoolState.slabMalloc_start ⟨fun _ => 0, fun _ => 0⟩ (fun _ => 0) (c := 5) (by decide) hmem
  simp only [hmany, show firstOffset 5 = 48 by decide, show sizeClass 5 = 64 by decide, Nat.add_sub_cancel]
    at hbytes hslab
  have hnext : load h.bytes 131120 8 = 131184 := by
    rw [hbytes]
    exact nextFree_carve (by decide) _ _ _ (by decide)
  have e₁ : mpMalloc idle.heap PoolState.smallSystem 64 =
      some (h.setSlab 131072 ⟨131072, 2046, 2047, 131184, slabMagic, 5⟩, .block ⟨5, 131072, 131120, false⟩) := by
    simp only [mpMalloc, hclass, hsmall, blockWithoutHeader, idle, Arena.start, e, hslab, bind, Option.bind, pure,
      Heap.fillSlab, hnext, if_true, Allocation.ofBlock]
    rfl
  rw [e₁] at hheads
  have hpart := Option.some.inj hheads
  simp only at hpart
  refine ⟨_, ?_, e₁, ?e₂⟩
  case e₂ =>
    simp only [mpMalloc, hclass, hsmall, blockWithoutHeader, slabMalloc, hpart, bind, Option.bind, pure,
      Heap.fillSlab, if_true, Allocation.ofBlock]
    rfl

theorem permitted_cons {op : ArenaOp} {ops : List ArenaOp} {A' : Arena} (hlegal : A.Legal op) (hclean : A.Clean op)
    (e : A.step op = some A') (hrest : Permitted A' ops) : Permitted A (op :: ops) := by
  refine ⟨hlegal, hclean, ?_⟩
  intro A'' e'
  obtain rfl := Option.some.inj (e.symm.trans e')
  exact hrest

/-- The user of the first of two blocks of 64 bytes stores the four bytes of the mark near its end. -/
def forging : List ArenaOp :=
  [.malloc PoolState.smallSystem 64, .malloc exhausted 64, .write 131160 0x02, .write 131161 0x06,
    .write 131162 0x26, .write 131163 0x20]

theorem user_data_read_as_header :
    ∃ A, Permitted idle forging ∧ Arena.run forging idle = some A ∧ A.Holds (.block ⟨5, 131072, 131184, false⟩) ∧
      readMagic A.heap (131184 - sizeofHeader) = blockMagic ∧
      branch A.heap 131184 ≠ some (.withoutHeader 131072) := by
  obtain ⟨h₁, h₂, e₁, e₂⟩ := two_small_blocks
  have s₁ : idle.step (.malloc PoolState.smallSystem 64) = some ⟨h₁, [⟨5, 131072, 131120, false⟩], []⟩ := by
    rw [Arena.step, e₁]
    rfl
  have s₂ : Arena.step ⟨h₁, [⟨5, 131072, 131120, false⟩], []⟩ (.malloc exhausted 64) =
      some ⟨h₂, [⟨5, 131072, 131184, false⟩, ⟨5, 131072, 131120, false⟩], []⟩ := by
    simp only [Arena.step, e₂]
    rfl
  have hwrite : ∀ bytes a v, 131120 ≤ a → a < 131184 → Arena.Legal
      ⟨{ h₂ with bytes }, [⟨5, 131072, 131184, false⟩, ⟨5, 131072, 131120, false⟩], []⟩ (.write a v) :=
    fun bytes a v hlow hhigh => ⟨.block ⟨5, 131072, 131120, false⟩, by simp [Holds], hlow, hhigh⟩
  have hops : Permitted idle forging := by
    refine permitted_cons ⟨by decide, idle_fresh⟩ (by simp [Clean, Sound.Wraps]) s₁ ?_
    refine permitted_cons ⟨by decide, exhausted_fresh _⟩ (by simp [Clean, Sound.Wraps]) s₂ ?_
    refine permitted_cons (hwrite _ 131160 _ (by decide) (by decide)) trivial rfl ?_
    refine permitted_cons (hwrite _ 131161 _ (by decide) (by decide)) trivial rfl ?_
    refine permitted_cons (hwrite _ 131162 _ (by decide) (by decide)) trivial rfl ?_
    exact permitted_cons (hwrite _ 131163 _ (by decide) (by decide)) trivial rfl trivial
  obtain ⟨A, e, H⟩ := (Stands.start _ _).run hops
  have hA : A = ⟨{ h₂ with bytes := store h₂.bytes 131160 blockMagic 4 },
      [⟨5, 131072, 131184, false⟩, ⟨5, 131072, 131120, false⟩], []⟩ := by
    change Arena.run forging idle = some A at e
    simp only [forging, Arena.run, s₁, s₂, bind, Option.bind] at e
    exact (Option.some.inj e).symm
  have hp : A.Holds (.block ⟨5, 131072, 131184, false⟩) := by simp [hA, Holds]
  have hs : Spoofed A.heap (.block ⟨5, 131072, 131184, false⟩) := by
    refine ⟨rfl, by decide, ?_⟩
    rw [hA]
    exact load_store_of_lt (by decide)
  refine ⟨A, hops, e, hp, (H.readMagic_eq_iff hp rfl).mpr hs, ?_⟩
  exact fun he => (H.branch_iff hp).mp he hs

end Forged

/-- The answer of `mp_realloc` has room for the size, keeps the bytes of the old block and read no others. -/
def Honoured (A : Arena) (p : Held) (size : ℕ) (h' : Heap) : Reallocation → Prop
  | .null => True
  | .inPlace => size ≤ p.usable ∧ ∀ i < min p.usable size, h'.bytes (p.ptr + i) = A.heap.bytes (p.ptr + i)
  | .moved r copied => ∃ q, r.held size = some q ∧ size ≤ q.usable ∧ copied ≤ p.usable ∧
      ∀ i < min p.usable size, h'.bytes (q.ptr + i) = A.heap.bytes (p.ptr + i)

/-- A slab block with a header is asked for no more than its bytes after the header. -/
def Held.Covers (p : Held) (size : ℕ) : Prop :=
  ∀ b, p = .block b → b.headed = true → size ≤ sizeClass b.classId - sizeofHeader

theorem covers_iff_of_le {p : Held} (hle : size ≤ p.capacity) : Held.Covers p size ↔ size ≤ p.usable := by
  cases p with
  | large l => exact iff_of_true (by rintro b ⟨⟩) hle
  | block b =>
    cases hh : b.headed with
    | true => simp [Held.Covers, Held.usable, Block.usable, hh]
    | false =>
      have hle : size ≤ sizeClass b.classId := hle
      simp [Held.Covers, Held.usable, Block.usable, hh, hle]

theorem Laid.covers_iff_of_lt (H : Laid A) (hp : A.Holds p) (hlt : p.capacity < size) :
    Held.Covers p size ↔ p.capacity ≤ p.usable := by
  cases p with
  | large l => exact iff_of_true (by rintro b ⟨⟩) le_rfl
  | block b =>
    obtain ⟨cls, lists, S⟩ := H.sound
    have hsize := sizeClass_ge (S.inv.carved.slab (S.inv.carved.held b hp).class_eq).1
    have hlt : sizeClass b.classId < size := hlt
    cases hh : b.headed with
    | true =>
      simp only [Held.Covers, Held.capacity, Held.usable, Block.usable, hh, if_true, Held.block.injEq, sizeofHeader,
        forall_eq', forall_true_left]
      omega
    | false => simp [Held.Covers, Held.capacity, Held.usable, Block.usable, hh]

theorem Reallocated.honoured_iff (H : Laid A) (hp : A.Holds p) {h' : Heap} {r : Reallocation}
    (hr : Reallocated A p size h' r) (hnull : r ≠ .null) : Honoured A p size h' r ↔ Held.Covers p size := by
  cases hr with
  | null hlt H' => exact absurd rfl hnull
  | inPlace hle =>
    rw [covers_iff_of_le hle]
    exact and_iff_left (fun i _ => rfl)
  | moved hlt hq hsize H' hcopy =>
    rw [H.covers_iff_of_lt hp hlt]
    constructor
    · rintro ⟨_, _, _, hcopied, _⟩
      exact hcopied
    · intro hcopied
      exact ⟨_, hq, hsize, hcopied, fun i hi => hcopy i (by omega)⟩

/-- `mp_realloc` honours the size it is asked for, slab blocks with headers apart. -/
theorem mp_realloc_honours_size_iff (links : Links ℕ) (bytes : ℕ → UInt8) (ops : List ArenaOp)
    (hops : Permitted (Arena.start links bytes) ops) :
    ∃ A, Arena.run ops (Arena.start links bytes) = some A ∧
      ∀ sys p size, A.Fresh sys → A.Holds p → ¬ Spoofed A.heap p → 1 ≤ size → size ≤ 2 ^ 63 →
        ∃ h' r, mpRealloc A.heap sys p.ptr size = some (h', r) ∧
          (r ≠ .null → (Honoured A p size h' r ↔ Held.Covers p size)) := by
  obtain ⟨A, e, H⟩ := (Stands.start links bytes).run hops
  refine ⟨A, e, ?_⟩
  intro sys p size hsys hp hs hpos hmax
  have hroom : size + 31 < sizeT := by
    simp only [sizeT]
    omega
  obtain ⟨h', r, er, hr⟩ := H.realloc hp hs hsys (by omega) hroom
  exact ⟨h', r, er, hr.honoured_iff H.toLaid hp⟩

theorem mp_realloc_honours_size_iff_example :
    ∃ A, Arena.run [.malloc PoolState.smallSystem 200] idle = some A ∧
      ∀ sys p size, A.Fresh sys → A.Holds p → ¬ Spoofed A.heap p → 1 ≤ size → size ≤ 2 ^ 63 →
        ∃ h' r, mpRealloc A.heap sys p.ptr size = some (h', r) ∧
          (r ≠ .null → (Honoured A p size h' r ↔ Held.Covers p size)) := by
  apply mp_realloc_honours_size_iff
  exact ⟨⟨by decide, idle_fresh⟩, by simp [Clean, Sound.Wraps], fun _ _ => trivial⟩

/-- A block of 200 usable bytes stays where it is when 224 are asked for. -/
theorem mp_realloc_counts_header :
    ∃ A, Arena.run [.malloc PoolState.smallSystem 200] idle = some A ∧
      A.Holds (.block ⟨13, 4096, 131072, true⟩) ∧
      mpRealloc A.heap exhausted 131096 224 = some (A.heap, .inPlace) ∧
      Block.usable ⟨13, 4096, 131072, true⟩ = 200 ∧
      ¬ Honoured A (.block ⟨13, 4096, 131072, true⟩) 224 A.heap .inPlace := by
  have hops : Permitted idle [.malloc PoolState.smallSystem 200] :=
    ⟨⟨by decide, idle_fresh⟩, by simp [Clean, Sound.Wraps], fun _ _ => trivial⟩
  obtain ⟨A, e, H⟩ := (Stands.start _ _).run hops
  have hlive : (Arena.run [.malloc PoolState.smallSystem 200] idle).map Arena.live =
      some [⟨13, 4096, 131072, true⟩] := by decide +kernel
  have he : Arena.run [.malloc PoolState.smallSystem 200] idle = some A := e
  rw [he] at hlive
  have hp : A.Holds (.block ⟨13, 4096, 131072, true⟩) := by
    change _ ∈ A.live
    rw [Option.some.inj hlive]
    exact List.mem_cons_self
  have hs : ¬ Spoofed A.heap (.block ⟨13, 4096, 131072, true⟩) := by simp [Spoofed]
  refine ⟨A, e, hp, ?_, by decide, ?_⟩
  · have hregrow : mpRealloc A.heap exhausted 131096 224 = regrow A.heap exhausted 131096 224 224 :=
      H.mpRealloc_eq hp hs (by decide)
    rw [hregrow, regrow, if_pos le_rfl]
  · rintro ⟨hle, -⟩
    exact absurd hle (by decide)

end Arena

end Lidis.Mempool
