import Lidis.SkiplistUpdate

namespace Lidis.Skiplist

open Chain

theorem randomLevelFrom_le (low : ℕ → Bool) (n level : ℕ) : randomLevelFrom low n level ≤ level + n := by
  induction n generalizing level with
  | zero => exact le_rfl
  | succ n ih =>
    rw [randomLevelFrom]
    split_ifs
    · exact (ih (level + 1)).trans (by omega)
    · omega

theorem randomLevel_lt (low : ℕ → Bool) : randomLevel low < maxLevel := by
  have h := randomLevelFrom_le low (maxLevel - 1) 0
  simp only [randomLevel, maxLevel] at h ⊢
  omega

theorem tower_congr {S S' : Skiplist} {i : ℕ} {l : List ℕ} (h : ∀ p ∈ l, S'.height p = S.height p) :
    S'.tower i l = S.tower i l := by
  refine List.filter_congr (fun p hp => ?_)
  rw [h p hp]

theorem keyOf_congr {S S' : Skiplist} {p : ℕ} (h : S'.key p = S.key p) : S'.keyOf p = S.keyOf p := by
  rw [keyOf, keyOf, h]

section Pred

variable {S : Skiplist} {a : CString} {l m : List ℕ}

theorem Cut.pred_mem (_ : Cut S a l m) (j : ℕ) :
    lastOf S.header (S.tower j l) ∈ S.header :: S.tower j (l ++ m) := by
  rw [tower_append]
  exact List.mem_append_left _ (lastOf_mem S.header _)

theorem Cut.pred_ok (h : Cut S a l m) {j : ℕ} (hj : j ≤ maxLevel) :
    lastOf S.header (S.tower j l) ≠ 0 ∧ j ≤ S.height (lastOf S.header (S.tower j l)) := by
  rcases List.mem_cons.mp (h.pred_mem j) with he | hm
  · rw [he]
    exact ⟨h.shape.header_ne, h.shape.header_height ▸ hj⟩
  · exact ⟨h.shape.nonzero _ (mem_tower.mp hm).1, (mem_tower.mp hm).2⟩

theorem Cut.pred_lt_next (h : Cut S a l m) (j : ℕ) : lastOf S.header (S.tower j l) < S.next := by
  refine h.shape.bound _ ?_
  rcases List.mem_cons.mp (h.pred_mem j) with he | hm
  · rw [he]; exact List.mem_cons_self
  · exact List.mem_cons_of_mem _ (mem_tower.mp hm).1

end Pred

theorem nodup_tower {S : Skiplist} {i : ℕ} {l : List ℕ} (h : (S.header :: l).Nodup) :
    (S.header :: S.tower i l).Nodup :=
  h.sublist (List.filter_sublist.cons_cons S.header)

theorem raise_spec {S S1 : Skiplist} {l : List ℕ} {level : ℕ} (hh : S1.header = S.header) (hl : S1.level = S.level)
    (hle : ∀ p ∈ l, S.height p ≤ S.level) (hm : level < maxLevel) :
    ∃ u, S1.raise level (preds S l S.level (fun _ => none)) = some (S1.setLevel (max S.level level), u) ∧
      ∀ j ≤ level, u j = some (lastOf S.header (S.tower j l)) := by
  by_cases hlt : S.level < level
  · refine ⟨fun i => if S.level < i ∧ i ≤ level then some S1.header else preds S l S.level (fun _ => none) i, ?_, ?_⟩
    · rw [raise, hl, if_pos hlt, if_neg (by omega), max_eq_right hlt.le]
    · intro j hj
      by_cases hjs : j ≤ S.level
      · simp [preds, hjs, show ¬ S.level < j by omega]
      · have ht : S.tower j l = [] := tower_eq_nil (fun p hp => by have := hle p hp; omega)
        simp [hj, show S.level < j by omega, hh, ht, lastOf]
  · refine ⟨preds S l S.level (fun _ => none), ?_, ?_⟩
    · rw [raise, hl, if_neg hlt, max_eq_left (by omega), ← hl]
      rfl
    · intro j hj
      simp [preds, show j ≤ S.level by omega]

section Insert

variable {S S' : Skiplist} {a : CString} {l m : List ℕ} {level : ℕ}

theorem Cut.ne_next (h : Cut S a l m) : ∀ p ∈ S.header :: (l ++ m), p ≠ S.next := fun p hp => (h.shape.bound p hp).ne

theorem Cut.insert_sorted (h : Cut S a l m) (hgt : ∀ p ∈ m, a < S.keyOf p)
    (hkey : S'.key = Function.update S.key S.next (some a)) :
    (l ++ S.next :: m).Pairwise (fun p q => S'.keyOf p < S'.keyOf q) := by
  have hold : ∀ p ∈ l ++ m, S'.keyOf p = S.keyOf p := fun p hp =>
    keyOf_congr (by simp [hkey, h.ne_next p (List.mem_cons_of_mem _ hp)])
  have hself : S'.keyOf S.next = a := by simp [keyOf, hkey]
  have hsub := h.shape.sorted
  rw [List.pairwise_append] at hsub
  rw [List.pairwise_append, List.pairwise_cons]
  refine ⟨?_, ⟨?_, ?_⟩, ?_⟩
  · refine hsub.1.imp_of_mem (fun {p q} hp hq hpq => ?_)
    rwa [hold p (by simp [hp]), hold q (by simp [hq])]
  · intro q hq
    rw [hself, hold q (by simp [hq])]
    exact hgt q hq
  · refine hsub.2.1.imp_of_mem (fun {p q} hp hq hpq => ?_)
    rwa [hold p (by simp [hp]), hold q (by simp [hq])]
  · intro p hp q hq
    rw [hold p (by simp [hp])]
    rcases List.mem_cons.mp hq with rfl | hq
    · rw [hself]
      exact h.lo p hp
    · rw [hold q (by simp [hq])]
      exact hsub.2.2 p hp q hq

variable (hheight : S'.height = Function.update S.height S.next level)
  (hforward : ∀ x j, S'.forward x j = if j ≤ level then
    (if x = lastOf S.header (S.tower j l) then S.next
      else if x = S.next then S.forward (lastOf S.header (S.tower j l)) j else S.forward x j)
    else if x = S.next then 0 else S.forward x j)

include hheight hforward

theorem Cut.insert_linked (h : Cut S a l m) {i : ℕ} (hi : i ≤ maxLevel) :
    Linked (fun p => S'.forward p i) 0 S.header (S'.tower i (l ++ S.next :: m)) := by
  have hlink := h.shape.linked i hi
  have hhold : ∀ p ∈ l ++ m, S'.height p = S.height p := fun p hp => by
    simp [hheight, h.ne_next p (List.mem_cons_of_mem _ hp)]
  have htl : S'.tower i l = S.tower i l := tower_congr (fun p hp => hhold p (by simp [hp]))
  have htm : S'.tower i m = S.tower i m := tower_congr (fun p hp => hhold p (by simp [hp]))
  have hself : S'.height S.next = level := by simp [hheight]
  by_cases hil : i ≤ level
  · have ht : S'.tower i (l ++ S.next :: m) = S.tower i l ++ S.next :: S.tower i m := by
      rw [tower_append, htl, tower_cons_of_le (hself ▸ hil), htm]
    have hfun : (fun p => S'.forward p i) = Function.update
        (Function.update (fun p => S.forward p i) S.next (S.forward (lastOf S.header (S.tower i l)) i))
        (lastOf S.header (S.tower i l)) S.next := by
      funext x
      simp only [hforward, hil, ↓reduceIte, Function.update_apply]
    rw [tower_append] at hlink
    rw [ht, hfun]
    refine hlink.insert ?_ ?_
    · rw [← tower_append]
      exact nodup_tower h.shape.nodup
    · rw [← tower_append]
      exact fun hm => h.ne_next _ ((List.filter_sublist.cons_cons S.header).subset hm) rfl
  · have ht : S'.tower i (l ++ S.next :: m) = S.tower i (l ++ m) := by
      rw [tower_append, htl, tower_append, tower_cons_of_lt (by omega), htm]
    rw [ht]
    refine hlink.congr (fun x hx => ?_)
    have hxn : x ≠ S.next := h.ne_next x ((List.filter_sublist.cons_cons S.header).subset hx)
    simp [hforward, hil, hxn]

theorem Cut.insert (h : Cut S a l m) (hgt : ∀ p ∈ m, a < S.keyOf p) (hl : level < maxLevel)
    (hheader : S'.header = S.header) (hkey : S'.key = Function.update S.key S.next (some a))
    (hnext : S'.next = S.next + 1) (hlevel : S'.level = max S.level level) : Shape S' (l ++ S.next :: m) := by
  have hold : ∀ p ∈ l ++ m, p ≠ S.next := fun p hp => h.ne_next p (List.mem_cons_of_mem _ hp)
  have hhold : ∀ p ∈ l ++ m, S'.height p = S.height p := fun p hp => by simp [hheight, hold p hp]
  have hmem : ∀ p, p ∈ l ++ S.next :: m ↔ p = S.next ∨ p ∈ l ++ m := by
    intro p
    simp only [List.mem_append, List.mem_cons]
    tauto
  refine ⟨hheader ▸ h.shape.header_ne, ?_, ?_, ?_, ?_, ?_, h.insert_sorted hgt hkey, ?_, ?_, ?_, ?_⟩
  · rw [hheader, hheight, Function.update_of_ne (h.ne_next _ List.mem_cons_self)]
    exact h.shape.header_height
  · have hperm : (S.header :: (l ++ S.next :: m)).Perm (S.next :: S.header :: (l ++ m)) :=
      (List.Perm.cons _ List.perm_middle).trans (List.Perm.swap _ _ _)
    rw [hheader, hperm.nodup_iff]
    exact List.nodup_cons.mpr ⟨fun hm => h.ne_next _ hm rfl, h.shape.nodup⟩
  · intro p hp
    rcases (hmem p).mp hp with rfl | hp
    · have := h.shape.bound S.header List.mem_cons_self
      omega
    · exact h.shape.nonzero p hp
  · intro p hp
    rw [hnext]
    rw [hheader] at hp
    rcases List.mem_cons.mp hp with rfl | hp
    · exact Nat.lt_succ_of_lt (h.shape.bound _ List.mem_cons_self)
    · rcases (hmem p).mp hp with rfl | hp
      · exact Nat.lt_succ_self _
      · exact Nat.lt_succ_of_lt (h.shape.bound _ (List.mem_cons_of_mem _ hp))
  · intro p hp
    rcases (hmem p).mp hp with rfl | hp
    · simp [keyOf, hkey]
    · rw [keyOf_congr (congrFun hkey p |>.trans (Function.update_of_ne (hold p hp) _ _)), hkey,
        Function.update_of_ne (hold p hp)]
      exact h.shape.keyed p hp
  · intro i hi
    rw [hheader]
    exact h.insert_linked hheight hforward hi
  · intro p hp
    rw [hlevel]
    rcases (hmem p).mp hp with rfl | hp
    · simp [hheight]
    · rw [hhold p hp]
      exact (h.shape.heights p hp).trans (le_max_left _ _)
  · rw [hlevel]
    exact max_lt h.shape.level_lt hl
  · rw [hlevel]
    rcases Nat.lt_or_ge S.level level with hlt | hge
    · right
      exact ⟨S.next, by simp, by simp [hheight, max_eq_right hlt.le]⟩
    · rw [max_eq_left hge]
      rcases h.shape.top with h0 | ⟨p, hp, hph⟩
      · exact Or.inl h0
      · exact Or.inr ⟨p, (hmem p).mpr (Or.inr hp), by rw [hhold p hp, hph]⟩

end Insert

theorem Cut.remove {S S' : Skiplist} {a : CString} {x : ℕ} {l m : List ℕ} (h : Cut S a l (x :: m))
    (hs : SameNodes S S') {level : ℕ} (hle : level ≤ S.level)
    (hforward : ∀ y j, S'.forward y j =
      if j ≤ S.height x ∧ y = lastOf S.header (S.tower j l) then S.forward x j else S.forward y j)
    (hzero : ∀ k, level < k → k ≤ S.level → S'.forward S.header k = 0)
    (htop : level = 0 ∨ S'.forward S.header level ≠ 0) : Shape (S'.setLevel level) (l ++ m) := by
  have hsub : (l ++ m).Sublist (l ++ x :: m) := (List.Sublist.refl l).append (List.sublist_cons_self x m)
  have hlinked : ∀ i ≤ maxLevel, Linked (fun p => S'.forward p i) 0 S.header (S.tower i (l ++ m)) := by
    intro i hi
    have hlink := h.shape.linked i hi
    have hnd := nodup_tower (i := i) h.shape.nodup
    rw [tower_append] at hlink hnd ⊢
    by_cases hix : i ≤ S.height x
    · rw [tower_cons_of_le hix] at hlink hnd
      have hfun : (fun p => S'.forward p i) =
          Function.update (fun p => S.forward p i) (lastOf S.header (S.tower i l)) (S.forward x i) := by
        funext y
        simp only [hforward, hix, true_and, Function.update_apply]
      rw [hfun]
      exact hlink.remove hnd
    · rw [tower_cons_of_lt (not_le.mp hix)] at hlink
      refine hlink.congr (fun y _ => ?_)
      simp [hforward, hix]
  have hempty : ∀ i, level < i → i ≤ S.level → S.tower i (l ++ m) = [] := by
    intro i hi his
    have hl := hlinked i (his.trans h.shape.level_lt.le)
    cases hc : S.tower i (l ++ m) with
    | nil => rfl
    | cons y t =>
      rw [hc] at hl
      have hy : y ∈ l ++ m := (mem_tower.mp (hc ▸ List.mem_cons_self)).1
      exact absurd (hl.1.symm.trans (hzero i hi his)) (h.shape.nonzero y (hsub.subset hy))
  have hheights : ∀ p ∈ l ++ m, S.height p ≤ level := by
    intro p hp
    by_contra hgt
    have hps := h.shape.heights p (hsub.subset hp)
    have hm : p ∈ S.tower (S.height p) (l ++ m) := mem_tower.mpr ⟨hp, le_rfl⟩
    rw [hempty (S.height p) (by omega) hps] at hm
    simp at hm
  have hkeyOf : ∀ p, (S'.setLevel level).keyOf p = S.keyOf p := fun p =>
    keyOf_congr (congrFun hs.key p)
  have hheight : (S'.setLevel level).height = S.height := hs.height
  have hheader : (S'.setLevel level).header = S.header := hs.header
  refine ⟨hs.header ▸ h.shape.header_ne, ?_, ?_, fun p hp => h.shape.nonzero p (hsub.subset hp), ?_, ?_, ?_, ?_, ?_, ?_, ?_⟩
  · rw [hheight, hheader]
    exact h.shape.header_height
  · rw [hheader]
    exact h.shape.nodup.sublist (hsub.cons_cons S.header)
  · intro p hp
    rw [hheader] at hp
    exact (h.shape.bound p ((hsub.cons_cons S.header).subset hp)).trans_eq hs.next.symm
  · intro p hp
    rw [hkeyOf, ← h.shape.keyed p (hsub.subset hp)]
    exact congrFun hs.key p
  · simp only [hkeyOf]
    exact h.shape.sorted.sublist hsub
  · intro i hi
    rw [hheader, tower_congr (fun p _ => congrFun hheight p)]
    exact hlinked i hi
  · rw [hheight]
    exact hheights
  · exact lt_of_le_of_lt hle h.shape.level_lt
  · rcases htop with h0 | hne
    · exact Or.inl h0
    · right
      have hl := hlinked level (hle.trans h.shape.level_lt.le)
      cases hc : S.tower level (l ++ m) with
      | nil =>
        rw [hc] at hl
        exact absurd hl hne
      | cons y t =>
        obtain ⟨hy, hyl⟩ := mem_tower.mp (hc ▸ List.mem_cons_self : y ∈ S.tower level (l ++ m))
        exact ⟨y, hy, by rw [hheight]; exact le_antisymm (hheights y hy) hyl⟩

end Lidis.Skiplist
