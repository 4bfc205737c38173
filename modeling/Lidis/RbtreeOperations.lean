import Lidis.RbtreeDeletion
import Lidis.RbtreeSearch

namespace Lidis.Rbtree

open RedBlack ColoredTree Context

def fillHole (T : Rbtree) (p : Ptr) : Context Ptr → Rbtree
  | [] => { T with root := p }
  | f :: _ => T.setChild f.side f.item p

theorem fillHole_parent (T : Rbtree) (p : Ptr) (k : Context Ptr) : (T.fillHole p k).parent = T.parent := by
  cases k <;> rfl

theorem fillHole_color (T : Rbtree) (p : Ptr) (k : Context Ptr) : (T.fillHole p k).color = T.color := by
  cases k <;> rfl

theorem fillHole_nil (T : Rbtree) (p : Ptr) (k : Context Ptr) : (T.fillHole p k).nil = T.nil := by
  cases k <;> rfl

theorem fillHole_data (T : Rbtree) (p : Ptr) (k : Context Ptr) : (T.fillHole p k).data = T.data := by
  cases k <;> rfl

theorem fillHole_child (T : Rbtree) (p : Ptr) (k : Context Ptr) {d : Side} {x : Ptr}
    (hx : x ∉ Context.labels k) : (T.fillHole p k).child d x = T.child d x := by
  cases k with
  | nil => rfl
  | cons f k =>
    simp only [Context.labels, List.mem_cons, not_or] at hx
    simp [fillHole, hx.1]

theorem repContext_fillHole {T : Rbtree} {p p' : Ptr} {k : Context Ptr} (h : RepContext T p k)
    (hnd : (Context.labels k).Nodup) : RepContext (T.fillHole p' k) p' k := by
  refine h.congr (fillHole_nil T p' k) hnd ?_ (fun x _ => by rw [fillHole_color]) ?_ ?_
    (fun x _ => by rw [fillHole_parent])
  · cases k <;> simp [fillHole]
  · intro f hf
    cases k with
    | nil => simp at hf
    | cons g k =>
      obtain rfl : g = f := by simpa using hf
      simp [fillHole]
  · intro d x _ hx
    cases k with
    | nil => rfl
    | cons g k =>
      have hg : x ≠ g.item := hx
      simp [fillHole, hg]

@[simp] theorem hang_nil (T : Rbtree) (y z : Ptr) : (T.hang y z).nil = T.nil := by
  unfold hang; split_ifs <;> rfl

def plant (T : Rbtree) (y z : Ptr) : Rbtree :=
  ((((T.setParent z y).hang y z).setChild .left z T.nil).setChild .right z T.nil).setColor z .red

def Suits (T : Rbtree) (z : Ptr) : Context Ptr → Prop
  | [] => True
  | f :: _ => f.side = .left ↔ T.key z < T.key f.item

theorem hang_eq {T : Rbtree} {z : Ptr} {k : Context Ptr} (hnil : T.nil ∉ Context.labels k) (hs : Suits T z k) :
    T.hang (topOf T.nil k) z = T.fillHole z k := by
  cases k with
  | nil => simp [hang, topOf, fillHole]
  | cons f k =>
    simp only [Context.labels, List.mem_cons, not_or] at hnil
    simp only [hang, topOf, Ne.symm hnil.1, ↓reduceIte, CString.strcmp_neg, fillHole]
    simp only [Suits] at hs
    by_cases hlt : T.key z < T.key f.item
    · rw [if_pos hlt, hs.mpr hlt]
    · have hr : f.side = .right := by
        rw [Side.eq_flip_of_ne (fun hl => hlt (hs.mp hl)), Side.flip]
      rw [if_neg hlt, hr]

theorem plant_at {T : Rbtree} {z : Ptr} {k : Context Ptr} (h : At T leaf k) (hz : z ≠ T.nil)
    (hzk : z ∉ Context.labels k) (hs : Suits T z k) :
    At (T.plant (topOf T.nil k) z) (node .red leaf z leaf) k ∧ (T.plant (topOf T.nil k) z).nil = T.nil ∧
      (T.plant (topOf T.nil k) z).data = T.data := by
  obtain ⟨hctx, -, hnd, hnil, hblack⟩ := h
  simp only [items, List.nil_append] at hnd hnil
  have hhang : (T.setParent z (topOf T.nil k)).hang (topOf T.nil k) z =
      (T.setParent z (topOf T.nil k)).fillHole z k := hang_eq hnil hs
  have hnk : ∀ x ∈ Context.labels k, x ≠ z := fun x hx he => hzk (he ▸ hx)
  rw [plant, hhang]
  have hctx1 : RepContext (T.setParent z (topOf T.nil k)) T.nil k :=
    hctx.congr_all rfl rfl (fun _ _ => rfl) (fun _ _ _ => rfl)
      (fun x hx => by simp [hnk x hx])
  refine ⟨⟨?_, ?_, ?_, ?_, ?_⟩, ?_, ?_⟩
  · refine (repContext_fillHole hctx1 hnd : RepContext _ z k).congr_all rfl rfl ?_ ?_ ?_
    · intro x hx
      simp [setColor, hnk x hx]
    · intro d x hx
      simp [hnk x hx]
    · intro x hx
      simp
  · simp [Rep, setColor, fillHole_parent, fillHole_nil, ptrOf]
  · simpa [items] using ⟨hzk, hnd⟩
  · simpa [items, fillHole_nil] using ⟨Ne.symm hz, hnil⟩
  · simp [setColor, fillHole_nil, fillHole_color, Ne.symm hz, hblack]
  · simp [fillHole_nil]
  · exact fillHole_data _ _ _

theorem relink_left {T : Rbtree} {q x y : Ptr} (hq : q ≠ T.nil) :
    T.relink .left q x y = T.setChild (T.sideOf x q) q y := by
  simp only [relink, hq, ↓reduceIte, sideOf]
  split_ifs <;> rfl

theorem relink_hole {T : Rbtree} {t : ColoredTree Ptr} {x : Ptr} {k : Context Ptr} (h : At T t k) (ht : t ≠ leaf) :
    T.relink .left (topOf T.nil k) (ptrOf T.nil t) x = T.fillHole x k := by
  cases k with
  | nil => simp [relink, topOf, fillHole]
  | cons f k =>
    have hnil := h.nil_not_mem
    simp only [Context.labels, List.mem_append, List.mem_cons, not_or] at hnil
    rw [topOf, relink_left (Ne.symm hnil.2.1), focus_side h (Or.inl ht), fillHole]

theorem relink_setParent (T : Rbtree) (d : Side) (q x y p v : Ptr) :
    (T.setParent p v).relink d q x y = (T.relink d q x y).setParent p v := by
  by_cases hq : q = T.nil
  · simp only [relink, setParent_nil, hq, ↓reduceIte]; rfl
  · by_cases hx : x = T.child d q <;> simp only [relink, setParent_nil, setParent_child, hq, hx, ↓reduceIte] <;> rfl

def only {α : Type} (l r : ColoredTree α) : ColoredTree α :=
  match l with
  | leaf => r
  | node _ _ _ _ => l

theorem only_items {α : Type} {l r : ColoredTree α} (h : l = leaf ∨ r = leaf) : (only l r).items = l.items ++ r.items := by
  cases l with
  | leaf => rfl
  | node c a x b =>
    obtain rfl : r = leaf := by simpa using h
    simp [only, items]

theorem only_cases {α : Type} (l r : ColoredTree α) : only l r = l ∨ only l r = r := by
  cases l
  · exact Or.inr rfl
  · exact Or.inl rfl

theorem onlyChild_eq {T : Rbtree} {c : Color} {l r : ColoredTree Ptr} {y : Ptr} {k : Context Ptr}
    (h : At T (node c l y r) k) : T.onlyChild y = ptrOf T.nil (only l r) := by
  obtain ⟨-, -, hl, hr, -, -⟩ := h.rep
  have hnil := h.nil_not_mem
  simp only [items, List.mem_append, List.mem_cons, not_or] at hnil
  rw [onlyChild, hl, hr]
  cases l with
  | leaf =>
    rw [only, if_neg (fun hne => hne rfl)]
    by_cases he : ptrOf T.nil r = T.nil
    · rw [if_neg (not_not.mpr he), he]
    · rw [if_pos he]
  | node c' a x b =>
    have hx : ptrOf T.nil (node c' a x b) ≠ T.nil := fun he => by
      simpa using (ptrOf_eq_nil hnil.1.1).mp he
    rw [if_pos hx, only]

theorem splice_at {T : Rbtree} {c : Color} {l r : ColoredTree Ptr} {y : Ptr} {k : Context Ptr}
    (h : At T (node c l y r) k) (ho : l = leaf ∨ r = leaf) :
    At (T.splice y (T.onlyChild y)) (only l r) k ∧
      (T.splice y (T.onlyChild y)).parent (T.onlyChild y) = topOf T.nil k ∧
      (T.splice y (T.onlyChild y)).nil = T.nil ∧ (T.splice y (T.onlyChild y)).data = T.data ∧
      (T.splice y (T.onlyChild y)).color y = c := by
  rw [onlyChild_eq h]
  have hhole : T.relink .left (topOf T.nil k) y (ptrOf T.nil (only l r)) = T.fillHole (ptrOf T.nil (only l r)) k :=
    relink_hole h (by simp)
  obtain ⟨hctx, ⟨hc, hp, -, -, hrl, hrr⟩, hnd, hnil, hblack⟩ := h
  obtain ⟨hndt, hndk, hdisj⟩ := List.nodup_append'.mp hnd
  obtain ⟨hyl, hyr, hndl, hndr, -⟩ := nodup_items_bin (d := .left) (c := c).mp hndt
  simp only [items, List.mem_append, List.mem_cons, not_or] at hnil
  have hsub : ∀ x ∈ (only l r).items, x ∈ (node c l y r).items := by
    intro x hx
    rw [only_items ho, List.mem_append] at hx
    rcases hx with hx | hx <;> simp [items, hx]
  have hny : T.nil ∉ (only l r).items := by
    rw [only_items ho, List.mem_append, not_or]
    exact ⟨hnil.1.1, hnil.1.2.2⟩
  have hpy : ptrOf T.nil (only l r) ≠ y := by
    intro he
    by_cases hn : ptrOf T.nil (only l r) = T.nil
    · exact hnil.1.2.1 (hn.symm.trans he)
    · have hm := ptrOf_mem hn
      rw [he, only_items ho, List.mem_append] at hm
      exact hm.elim hyl hyr
  have hpk : ∀ x ∈ Context.labels k, x ≠ ptrOf T.nil (only l r) := by
    rintro x hx rfl
    by_cases hn : ptrOf T.nil (only l r) = T.nil
    · exact hnil.2 (hn ▸ hx)
    · exact hdisj (hsub _ (ptrOf_mem hn)) hx
  have hs : T.splice y (ptrOf T.nil (only l r)) =
      (T.fillHole (ptrOf T.nil (only l r)) k).setParent (ptrOf T.nil (only l r)) (topOf T.nil k) := by
    simp only [splice, setParent_parent, Ne.symm hpy, ↓reduceIte, hp, relink_setParent, hhole]
  have hrep : Rep T y (only l r) := by
    rcases only_cases l r with ho | ho <;> rw [ho]
    · exact hrl
    · exact hrr
  have hndo : (only l r).items.Nodup := by
    rcases only_cases l r with ho | ho <;> rw [ho] <;> assumption
  rw [hs]
  refine ⟨⟨?_, ?_, ?_, ?_, ?_⟩, ?_, ?_, ?_, ?_⟩
  · rw [setParent_nil, fillHole_nil]
    refine (repContext_fillHole hctx hndk).congr_all rfl rfl (fun _ _ => rfl) (fun _ _ _ => rfl) ?_
    intro x hx
    simp [hpk x hx]
  · rw [setParent_nil, fillHole_nil]
    refine hrep.congr (fillHole_nil _ _ _) hndo (fun x _ => by simp [fillHole_color]) ?_ ?_ ?_
    · intro d x hx
      rw [setParent_child, fillHole_child _ _ _ (fun hk => hdisj (hsub x hx) hk)]
    · intro x _ hne
      simp [hne, fillHole_parent]
    · intro _
      simp
  · exact List.nodup_append'.mpr ⟨hndo, hndk, fun x hx hk => hdisj (hsub x hx) hk⟩
  · simp only [setParent_nil, fillHole_nil, List.mem_append, not_or]
    exact ⟨hny, hnil.2⟩
  · simpa [fillHole_nil, fillHole_color] using hblack
  · simp
  · simp [fillHole_nil]
  · simp [fillHole_data]
  · simpa [fillHole_color] using hc

theorem At.swapData {T : Rbtree} {t : ColoredTree Ptr} {k : Context Ptr} (h : At T t k) (y z : Ptr) :
    At (T.swapData y z) t k := by
  unfold Rbtree.swapData
  split_ifs
  · exact ⟨h.ctx.congr_all rfl rfl (fun _ _ => rfl) (fun _ _ _ => rfl) (fun _ _ => rfl),
      h.rep.congr_all rfl (fun _ _ => rfl) (fun _ _ _ => rfl) (fun _ _ => rfl), h.nodup, h.nil_not_mem, h.nil_black⟩
  · exact h

end Lidis.Rbtree
