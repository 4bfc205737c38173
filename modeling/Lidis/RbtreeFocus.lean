import Lidis.RbtreeShape

namespace Lidis.Rbtree

open RedBlack ColoredTree Context

structure At (T : Rbtree) (t : ColoredTree Ptr) (k : Context Ptr) : Prop where
  ctx : RepContext T (ptrOf T.nil t) k
  rep : Rep T (topOf T.nil k) t
  nodup : (t.items ++ Context.labels k).Nodup
  nil_not_mem : T.nil ∉ t.items ++ Context.labels k
  nil_black : T.color T.nil = .black

theorem holds_plug (T : Rbtree) (k : Context Ptr) (t : ColoredTree Ptr) : Holds T (plug k t) ↔ At T t k := by
  have hp := items_plug_perm k t
  constructor
  · rintro ⟨hroot, hrep, hnd, hnil, hb⟩
    obtain ⟨hc, hr⟩ := (rep_plug T k t).mp ⟨hroot, hrep⟩
    exact ⟨hc, hr, hp.nodup_iff.mp hnd, fun h => hnil (hp.mem_iff.mpr h), hb⟩
  · rintro ⟨hc, hr, hnd, hnil, hb⟩
    obtain ⟨hroot, hrep⟩ := (rep_plug T k t).mpr ⟨hc, hr⟩
    exact ⟨hroot, hrep, hp.nodup_iff.mpr hnd, fun h => hnil (hp.mem_iff.mp h), hb⟩

def data (T : Rbtree) : (Ptr → CString) × (Ptr → Option CString) × Ptr := (T.key, T.value, T.next)

structure SameData (T T' : Rbtree) : Prop where
  nil : T'.nil = T.nil
  data : T'.data = T.data
  parent_nil : T'.parent T.nil = T.parent T.nil

theorem SameData.trans {T U V : Rbtree} (h : SameData T U) (g : SameData U V) : SameData T V :=
  ⟨g.nil.trans h.nil, g.data.trans h.data, by rw [← h.nil, g.parent_nil, h.nil, h.parent_nil]⟩

theorem Rep.congr_all {T T' : Rbtree} {q : Ptr} {t : ColoredTree Ptr} (h : Rep T q t) (hnil : T'.nil = T.nil)
    (hcol : ∀ x ∈ t.items, T'.color x = T.color x)
    (hch : ∀ d, ∀ x ∈ t.items, T'.child d x = T.child d x)
    (hpar : ∀ x ∈ t.items, T'.parent x = T.parent x) : Rep T' q t := by
  induction t generalizing q with
  | leaf => trivial
  | node c l x r ihl ihr =>
    obtain ⟨hc, hp, hl, hr, hrl, hrr⟩ := h
    have hx : x ∈ (node c l x r).items := by simp [items]
    have hsl : ∀ y ∈ l.items, y ∈ (node c l x r).items := fun y hy => by simp [items, hy]
    have hsr : ∀ y ∈ r.items, y ∈ (node c l x r).items := fun y hy => by simp [items, hy]
    refine ⟨by rw [hcol x hx, hc], by rw [hpar x hx, hp], by rw [hch _ x hx, hl, hnil],
      by rw [hch _ x hx, hr, hnil], ?_, ?_⟩
    · exact ihl hrl (fun y hy => hcol y (hsl y hy)) (fun d y hy => hch d y (hsl y hy))
        (fun y hy => hpar y (hsl y hy))
    · exact ihr hrr (fun y hy => hcol y (hsr y hy)) (fun d y hy => hch d y (hsr y hy))
        (fun y hy => hpar y (hsr y hy))

theorem Rep.congr {T T' : Rbtree} {q q' : Ptr} {t : ColoredTree Ptr} (h : Rep T q t) (hnil : T'.nil = T.nil)
    (hnd : t.items.Nodup) (hcol : ∀ x ∈ t.items, T'.color x = T.color x)
    (hch : ∀ d, ∀ x ∈ t.items, T'.child d x = T.child d x)
    (hpar : ∀ x ∈ t.items, x ≠ ptrOf T.nil t → T'.parent x = T.parent x)
    (htop : t ≠ leaf → T'.parent (ptrOf T.nil t) = q') : Rep T' q' t := by
  cases t with
  | leaf => trivial
  | node c l x r =>
    obtain ⟨hc, hp, hl, hr, hrl, hrr⟩ := h
    have hx : x ∈ (node c l x r).items := by simp [items]
    have hsl : ∀ y ∈ l.items, y ∈ (node c l x r).items := fun y hy => by simp [items, hy]
    have hsr : ∀ y ∈ r.items, y ∈ (node c l x r).items := fun y hy => by simp [items, hy]
    obtain ⟨hxl, hxr, -, -, -⟩ := nodup_items_bin (d := .left) (c := c).mp hnd
    refine ⟨by rw [hcol x hx, hc], htop (by simp), by rw [hch _ x hx, hl, hnil],
      by rw [hch _ x hx, hr, hnil], ?_, ?_⟩
    · exact hrl.congr_all hnil (fun y hy => hcol y (hsl y hy)) (fun d y hy => hch d y (hsl y hy))
        (fun y hy => hpar y (hsl y hy) (fun he => hxl ((show y = x from he) ▸ hy)))
    · exact hrr.congr_all hnil (fun y hy => hcol y (hsr y hy)) (fun d y hy => hch d y (hsr y hy))
        (fun y hy => hpar y (hsr y hy) (fun he => hxr ((show y = x from he) ▸ hy)))

theorem RepContext.congr_all {T T' : Rbtree} {p : Ptr} {k : Context Ptr} (h : RepContext T p k)
    (hnil : T'.nil = T.nil) (hroot : T'.root = T.root)
    (hcol : ∀ x ∈ Context.labels k, T'.color x = T.color x)
    (hch : ∀ d, ∀ x ∈ Context.labels k, T'.child d x = T.child d x)
    (hpar : ∀ x ∈ Context.labels k, T'.parent x = T.parent x) : RepContext T' p k := by
  induction k generalizing p with
  | nil => exact hroot.trans h
  | cons f k ih =>
    obtain ⟨hc, hp, hs, hf, hr, hk⟩ := h
    have hx : f.item ∈ Context.labels (f :: k) := List.mem_cons_self
    have hsib : ∀ y ∈ f.sibling.items, y ∈ Context.labels (f :: k) := fun _ hy => Context.sibling_mem_labels k hy
    have htail : ∀ y ∈ Context.labels k, y ∈ Context.labels (f :: k) := fun _ hy => Context.tail_mem_labels f hy
    refine ⟨by rw [hcol _ hx, hc], by rw [hpar _ hx, hp, hnil], by rw [hch _ _ hx, hs],
      by rw [hch _ _ hx, hf, hnil], ?_, ?_⟩
    · exact hr.congr_all hnil (fun y hy => hcol y (hsib y hy)) (fun d y hy => hch d y (hsib y hy))
        (fun y hy => hpar y (hsib y hy))
    · exact ih hk (fun y hy => hcol y (htail y hy)) (fun d y hy => hch d y (htail y hy))
        (fun y hy => hpar y (htail y hy))

theorem RepContext.congr {T T' : Rbtree} {p p' : Ptr} {k : Context Ptr} (h : RepContext T p k)
    (hnil : T'.nil = T.nil) (hnd : (Context.labels k).Nodup)
    (hroot : T'.root = if k = [] then p' else T.root)
    (hcol : ∀ x ∈ Context.labels k, T'.color x = T.color x)
    (hch : ∀ f ∈ k.head?, T'.child f.side f.item = p' ∧
      T'.child f.side.flip f.item = T.child f.side.flip f.item)
    (hch' : ∀ d, ∀ x ∈ Context.labels k, x ≠ topOf T.nil k → T'.child d x = T.child d x)
    (hpar : ∀ x ∈ Context.labels k, T'.parent x = T.parent x) : RepContext T' p' k := by
  cases k with
  | nil => exact hroot.trans (if_pos rfl)
  | cons f k =>
    obtain ⟨hc, hp, hs, hf, hr, hk⟩ := h
    obtain ⟨hc1, hc2⟩ := hch f (by simp)
    have hx : f.item ∈ Context.labels (f :: k) := List.mem_cons_self
    have hsib : ∀ y ∈ f.sibling.items, y ∈ Context.labels (f :: k) := fun _ hy => Context.sibling_mem_labels k hy
    have htail : ∀ y ∈ Context.labels k, y ∈ Context.labels (f :: k) := fun _ hy => Context.tail_mem_labels f hy
    simp only [Context.labels, List.nodup_cons, List.mem_append, not_or] at hnd
    refine ⟨by rw [hcol _ hx, hc], by rw [hpar _ hx, hp, hnil], hc1, by rw [hc2, hf, hnil], ?_, ?_⟩
    · exact hr.congr_all hnil (fun y hy => hcol y (hsib y hy))
        (fun d y hy => hch' d y (hsib y hy) (fun he => hnd.1.1 ((show y = f.item from he) ▸ hy)))
        (fun y hy => hpar y (hsib y hy))
    · exact hk.congr_all hnil (by simpa using hroot) (fun y hy => hcol y (htail y hy))
        (fun d y hy => hch' d y (htail y hy) (fun he => hnd.1.2 ((show y = f.item from he) ▸ hy)))
        (fun y hy => hpar y (htail y hy))

end Lidis.Rbtree
