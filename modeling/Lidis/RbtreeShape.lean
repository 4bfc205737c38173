import Lidis.Rbtree
import Lidis.Lib.RedBlackRemoval

namespace Lidis.Rbtree

open RedBlack ColoredTree Context

def ptrOf (nil : Ptr) : ColoredTree Ptr → Ptr
  | leaf => nil
  | node _ _ x _ => x

def topOf (nil : Ptr) : Context Ptr → Ptr
  | [] => nil
  | f :: _ => f.item

/-- The links and colours below an inner node with parent `q` are those of the tree. -/
def Rep (T : Rbtree) (q : Ptr) : ColoredTree Ptr → Prop
  | leaf => True
  | node c l x r => T.color x = c ∧ T.parent x = q ∧
      T.child .left x = ptrOf T.nil l ∧ T.child .right x = ptrOf T.nil r ∧ Rep T x l ∧ Rep T x r

def RepContext (T : Rbtree) (p : Ptr) : Context Ptr → Prop
  | [] => T.root = p
  | f :: k => T.color f.item = f.color ∧ T.parent f.item = topOf T.nil k ∧
      T.child f.side f.item = p ∧ T.child f.side.flip f.item = ptrOf T.nil f.sibling ∧
      Rep T f.item f.sibling ∧ RepContext T f.item k

structure Holds (T : Rbtree) (t : ColoredTree Ptr) : Prop where
  root : T.root = ptrOf T.nil t
  rep : Rep T T.nil t
  nodup : t.items.Nodup
  nil_not_mem : T.nil ∉ t.items
  nil_black : T.color T.nil = .black

@[simp] theorem ptrOf_bin (nil : Ptr) (d : Side) (c : Color) (a : ColoredTree Ptr) (x : Ptr) (b : ColoredTree Ptr) :
    ptrOf nil (bin d c a x b) = x := rfl

theorem ptrOf_mem {nil : Ptr} {t : ColoredTree Ptr} (h : ptrOf nil t ≠ nil) : ptrOf nil t ∈ t.items := by
  cases t with
  | leaf => simp [ptrOf] at h
  | node c l x r => simp [ptrOf, items]

theorem ptrOf_eq_nil {nil : Ptr} {t : ColoredTree Ptr} (h : nil ∉ t.items) : ptrOf nil t = nil ↔ t = leaf := by
  cases t with
  | leaf => simp [ptrOf]
  | node c l x r =>
    simp only [items, List.mem_append, List.mem_cons, not_or] at h
    simp only [ptrOf, reduceCtorEq, iff_false]
    exact fun hx => h.2.1 hx.symm

theorem mem_items_bin {d : Side} {c : Color} {a : ColoredTree Ptr} {x : Ptr} {b : ColoredTree Ptr} {p : Ptr} :
    p ∈ (bin d c a x b).items ↔ p = x ∨ p ∈ a.items ∨ p ∈ b.items := by
  cases d <;> simp only [items_bin, Side.pick, List.mem_append, List.mem_cons] <;> tauto

theorem nodup_items_bin {d : Side} {c : Color} {a : ColoredTree Ptr} {x : Ptr} {b : ColoredTree Ptr} :
    (bin d c a x b).items.Nodup ↔
      x ∉ a.items ∧ x ∉ b.items ∧ a.items.Nodup ∧ b.items.Nodup ∧ a.items.Disjoint b.items := by
  cases d <;> simp only [items_bin, Side.pick, List.nodup_append', List.nodup_cons, List.disjoint_cons_right]
  · tauto
  · rw [List.disjoint_comm]; tauto

theorem rep_bin (T : Rbtree) (q : Ptr) (d : Side) (c : Color) (a : ColoredTree Ptr) (x : Ptr) (b : ColoredTree Ptr) :
    Rep T q (bin d c a x b) ↔ T.color x = c ∧ T.parent x = q ∧
      T.child d x = ptrOf T.nil a ∧ T.child d.flip x = ptrOf T.nil b ∧ Rep T x a ∧ Rep T x b := by
  cases d with
  | left => rfl
  | right =>
    simp only [bin, Side.pick, Rep, Side.flip]
    tauto

theorem rep_plug (T : Rbtree) (k : Context Ptr) (t : ColoredTree Ptr) :
    (T.root = ptrOf T.nil (plug k t) ∧ Rep T T.nil (plug k t)) ↔
      RepContext T (ptrOf T.nil t) k ∧ Rep T (topOf T.nil k) t := by
  induction k generalizing t with
  | nil => rfl
  | cons f k ih =>
    rw [plug, ih, Frame.fill, rep_bin]
    simp only [RepContext, topOf, ptrOf_bin]
    tauto

def Context.labels : Context Ptr → List Ptr
  | [] => []
  | f :: k => f.item :: (f.sibling.items ++ Context.labels k)

theorem Context.sibling_mem_labels {f : Frame Ptr} (k : Context Ptr) {y : Ptr} (h : y ∈ f.sibling.items) :
    y ∈ Context.labels (f :: k) :=
  List.mem_cons_of_mem _ (List.mem_append_left _ h)

theorem Context.tail_mem_labels (f : Frame Ptr) {k : Context Ptr} {y : Ptr} (h : y ∈ Context.labels k) :
    y ∈ Context.labels (f :: k) :=
  List.mem_cons_of_mem _ (List.mem_append_right _ h)

theorem items_plug_perm (k : Context Ptr) (t : ColoredTree Ptr) :
    (plug k t).items.Perm (t.items ++ Context.labels k) := by
  induction k generalizing t with
  | nil => simp [plug, Context.labels]
  | cons f k ih =>
    refine (ih (f.fill t)).trans ?_
    rw [Frame.items_fill]
    obtain ⟨d, c, x, s⟩ := f
    cases d with
    | left => simp [Frame.before, Frame.after, Context.labels]
    | right =>
      simp only [Frame.before, Frame.after, Context.labels, List.append_nil]
      calc s.items ++ [x] ++ t.items ++ Context.labels k
          = (s.items ++ [x] ++ t.items) ++ Context.labels k := rfl
        _ |>.Perm ((t.items ++ (s.items ++ [x])) ++ Context.labels k) :=
          List.Perm.append_right _ List.perm_append_comm
        _ |>.Perm (t.items ++ x :: (s.items ++ Context.labels k)) := by
          simp only [List.append_assoc, List.cons_append, List.nil_append]
          exact List.Perm.append_left _ List.perm_middle

end Lidis.Rbtree
