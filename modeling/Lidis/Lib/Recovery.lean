import Lidis.Lib.Entries

namespace Lidis

namespace MapOp

variable {K V : Type}

def mutates : MapOp K V → Bool
  | .set _ _ | .del _ | .mod _ _ => true
  | .get _ | .exist _ => false

end MapOp

namespace FMap

variable {K V : Type} [DecidableEq K] {c : Contract}

def apply (c : Contract) (m : FMap K V) (o : MapOp K V) : FMap K V := (m.step c o).1

def replay (c : Contract) (m : FMap K V) (os : List (MapOp K V)) : FMap K V := os.foldl (apply c) m

def Accepts (c : Contract) (m : FMap K V) (o : MapOp K V) : Prop := o.mutates = true ∧ (m.step c o).2 = .code 0

def AcceptsAll (c : Contract) : FMap K V → List (MapOp K V) → Prop
  | _, [] => True
  | m, o :: os => Accepts c m o ∧ AcceptsAll c (m.apply c o) os

def Refuses (c : Contract) (m : FMap K V) (k : K) : Prop := c.capacity = some m.size ∧ m.get k = none

def Contract.Sound (c : Contract) : Prop := c.delAbsent ≠ 0 ∧ c.modAbsent ≠ 0

@[simp] theorem replay_nil (m : FMap K V) : m.replay c [] = m := rfl

@[simp] theorem replay_cons (m : FMap K V) (o : MapOp K V) (os : List (MapOp K V)) :
    m.replay c (o :: os) = (m.apply c o).replay c os := rfl

theorem replay_append (m : FMap K V) (os ps : List (MapOp K V)) :
    m.replay c (os ++ ps) = (m.replay c os).replay c ps := List.foldl_append

theorem apply_size_le (m : FMap K V) (o : MapOp K V) : (m.apply c o).size ≤ m.size + 1 := by
  have hinsert : ∀ k v, (m.insert k v).size ≤ m.size + 1 := fun k _ => Finset.card_insert_le k m.dom
  have herase : ∀ k, (m.erase k).size ≤ m.size + 1 := fun k => (Finset.card_erase_le).trans (Nat.le_succ _)
  cases o with
  | set k v => simp only [apply, step]; split_ifs <;> simp [hinsert]
  | get k => exact Nat.le_succ _
  | del k => simp only [apply, step]; split_ifs <;> simp [herase]
  | mod k v => simp only [apply, step]; split_ifs <;> simp [hinsert]
  | exist k => exact Nat.le_succ _

theorem replay_size_le (m : FMap K V) (os : List (MapOp K V)) : (m.replay c os).size ≤ m.size + os.length := by
  induction os generalizing m with
  | nil => exact le_rfl
  | cons o os ih =>
    have hstep := apply_size_le (c := c) m o
    have hrest := ih (m.apply c o)
    rw [replay_cons, List.length_cons]
    omega

theorem acceptsAll_append (m : FMap K V) (os ps : List (MapOp K V)) :
    AcceptsAll c m (os ++ ps) ↔ AcceptsAll c m os ∧ AcceptsAll c (m.replay c os) ps := by
  induction os generalizing m with
  | nil => simp [AcceptsAll]
  | cons o os ih => simp [AcceptsAll, ih, and_assoc]

theorem accepts_cases (hc : c.Sound) {m : FMap K V} {o : MapOp K V} (h : Accepts c m o) :
    (∃ k v, o = .set k v ∧ c.capacity ≠ some m.size ∧ m.get k = none ∧ m.apply c o = m.insert k v) ∨
    (∃ k w, o = .del k ∧ m.get k = some w ∧ m.apply c o = m.erase k) ∨
    ∃ k v w, o = .mod k v ∧ m.get k = some w ∧ m.apply c o = m.insert k v := by
  obtain ⟨hmut, hcode⟩ := h
  cases o with
  | set k v =>
    simp only [step] at hcode
    split_ifs at hcode with hfull hk
    · simp at hcode
    · simp at hcode
    · refine Or.inl ⟨k, v, rfl, hfull, by simpa using hk, ?_⟩
      simp [apply, step, hfull, hk]
  | get k => cases hmut
  | del k =>
    simp only [step] at hcode
    split_ifs at hcode with hk
    · obtain ⟨w, hw⟩ := Option.isSome_iff_exists.mp hk
      exact Or.inr (Or.inl ⟨k, w, rfl, hw, by simp [apply, step, hw]⟩)
    · exact absurd (MapAnswer.code.inj hcode) hc.1
  | mod k v =>
    simp only [step] at hcode
    split_ifs at hcode with hk
    · obtain ⟨w, hw⟩ := Option.isSome_iff_exists.mp hk
      exact Or.inr (Or.inr ⟨k, v, w, rfl, hw, by simp [apply, step, hw]⟩)
    · exact absurd (MapAnswer.code.inj hcode) hc.2
  | exist k => cases hmut

theorem apply_of_not_accepts {m : FMap K V} {o : MapOp K V} (h : ¬ Accepts c m o) : m.apply c o = m := by
  cases o with
  | set k v =>
    simp only [Accepts, MapOp.mutates, apply, step] at h ⊢
    split_ifs at h ⊢
    · rfl
    · rfl
    · simp at h
  | get k => rfl
  | del k =>
    simp only [Accepts, MapOp.mutates, apply, step] at h ⊢
    split_ifs at h ⊢
    · simp at h
    · rfl
  | mod k v =>
    simp only [Accepts, MapOp.mutates, apply, step] at h ⊢
    split_ifs at h ⊢
    · simp at h
    · rfl
  | exist k => rfl

theorem apply_get_of_ne (m : FMap K V) {o : MapOp K V} {x : K} (h : x ≠ o.key) : (m.apply c o).get x = m.get x :=
  step_get_of_ne c m o x h

theorem apply_del_self (m : FMap K V) (x : K) : (m.apply c (.del x)).get x = none := by
  simp only [apply, step]
  split_ifs with h
  · simp [erase_get]
  · simpa using h

theorem apply_mod_self (m : FMap K V) (x : K) (v : V) :
    (m.apply c (.mod x v)).get x = (m.get x).map (fun _ => v) := by
  cases h : m.get x <;> simp [apply, step, h, insert_get]

theorem apply_set_of_some {m : FMap K V} {x : K} {w : V} (v : V) (h : m.get x = some w) :
    (m.apply c (.set x v)).get x = some w := by
  simp only [apply, step]
  split_ifs <;> simp_all

theorem apply_set_of_room {m : FMap K V} {x : K} (v : V) (h : m.get x = none) (hr : c.capacity ≠ some m.size) :
    (m.apply c (.set x v)).get x = some v := by
  simp [apply, step, h, hr, insert_get]

theorem apply_set_of_full {m : FMap K V} {x : K} (v : V) (h : Refuses c m x) : (m.apply c (.set x v)).get x = none := by
  simp [apply, step, h.1, h.2]

theorem apply_set_of_none {m : FMap K V} {x : K} (v : V) (h : m.get x = none) :
    (m.apply c (.set x v)).get x = some v ∨ (m.apply c (.set x v)).get x = none := by
  by_cases hr : c.capacity = some m.size
  · exact Or.inr (apply_set_of_full v ⟨hr, h⟩)
  · exact Or.inl (apply_set_of_room v h hr)

theorem size_le_capacity {n : ℕ} (hc : c.Sound) (hcap : c.capacity = some n) {m : FMap K V} (os : List (MapOp K V))
    (h : AcceptsAll c m os) (hm : m.size ≤ n) : (m.replay c os).size ≤ n := by
  induction os generalizing m with
  | nil => exact hm
  | cons o os ih =>
    refine ih h.2 ?_
    rcases accepts_cases hc h.1 with ⟨k, v, -, hr, hk, he⟩ | ⟨k, w, -, hk, he⟩ | ⟨k, v, w, -, hk, he⟩
    · rw [hcap] at hr
      have hne : n ≠ m.size := fun hn => hr (congrArg some hn)
      rw [he, insert_size_of_none m k v hk]
      omega
    · have := erase_size_of_some m k w hk
      rw [he]
      omega
    · rw [he, insert_size_of_some m k v w hk]
      exact hm

theorem replay_sets (done todo : List (K × V)) (hn : (keys (done ++ todo)).Nodup)
    (hcap : ∀ n, c.capacity = some n → (done ++ todo).length ≤ n) :
    AcceptsAll c (ofList done) (todo.map (fun e => .set e.1 e.2)) ∧
      (ofList done).replay c (todo.map (fun e => .set e.1 e.2)) = ofList (done ++ todo) := by
  induction todo generalizing done with
  | nil => simp [AcceptsAll]
  | cons e todo ih =>
    have hsplit : done ++ e :: todo = (done ++ [e]) ++ todo := by simp
    rw [hsplit] at hn hcap
    have hdone : (keys (done ++ [e])).Nodup := by
      simp only [keys, List.map_append] at hn ⊢
      exact (List.nodup_append.mp hn).1
    have habs : e.1 ∉ keys done := by
      simp only [keys, List.map_append, List.map_cons, List.map_nil] at hdone
      exact fun hm => (List.nodup_append.mp hdone).2.2 _ hm _ (List.mem_singleton_self _) rfl
    have hroom : c.capacity ≠ some (ofList done).size := by
      intro hc
      have hlen := hcap _ hc
      rw [ofList_size done (by simp only [keys, List.map_append] at hdone; exact (List.nodup_append.mp hdone).1)] at hlen
      simp only [List.length_append, List.length_cons] at hlen
      omega
    have hget : (ofList done).get e.1 = none := (lookup_eq_none e.1 done).mpr habs
    have hstep : (ofList done).step c (.set e.1 e.2) = (ofList (done ++ [e]), .code 0) := by
      simp only [step, hroom, ↓reduceIte, hget, Option.isSome_none, Bool.false_eq_true]
      rw [ofList_insert done [] e.1 e.2 habs, List.append_nil]
    obtain ⟨hacc, hrep⟩ := ih (done ++ [e]) hn hcap
    have happly : (ofList done).apply c (.set e.1 e.2) = ofList (done ++ [e]) := congrArg Prod.fst hstep
    rw [List.map_cons, replay_cons, happly, hsplit]
    refine ⟨⟨⟨rfl, congrArg Prod.snd hstep⟩, ?_⟩, hrep⟩
    rw [happly]
    exact hacc

def Below (r o : FMap K V) : Prop := ∀ x, r.get x = none ∨ r.get x = o.get x

omit [DecidableEq K] in
theorem Below.size_le {r o : FMap K V} (h : Below r o) : r.size ≤ o.size := by
  refine Finset.card_le_card (fun x hx => ?_)
  rw [mem_dom] at hx ⊢
  rcases h x with hn | he
  · simp [hn] at hx
  · rwa [he] at hx

section Catching

variable (hc : c.Sound)

include hc

/-- A replay from `r` that trails an accepted run from `o` catches up at `x` unless a `set` of `x` is refused
and not undone. At each step `r` holds at `x` what `o` holds, or what it will hold at the end. -/
theorem replay_catches_up {x : K} (os : List (MapOp K V)) {r o : FMap K V} (h : AcceptsAll c o os)
    (hroom : ∀ a v b, os = a ++ .set x v :: b → .del x ∉ b → ¬ Refuses c (r.replay c a) x)
    (hstart : .del x ∈ os ∨ r.get x = o.get x ∨ r.get x = (o.replay c os).get x) :
    (r.replay c os).get x = (o.replay c os).get x := by
  induction os generalizing r o with
  | nil => simpa using hstart
  | cons p os ih =>
    refine ih h.2 (fun a v b he hd => hroom (p :: a) v b (by rw [he]; rfl) hd) ?_
    by_cases hlater : MapOp.del x ∈ os
    · exact Or.inl hlater
    refine Or.inr ?_
    by_cases hx : x = p.key
    · rcases accepts_cases hc h.1 with ⟨k, v, rfl, -, hk, he⟩ | ⟨k, w, rfl, -, he⟩ | ⟨k, v, w, rfl, hk, he⟩
      · obtain rfl : x = k := hx
        cases hr : r.get x with
        | none =>
          refine Or.inl ?_
          have hfree : c.capacity ≠ some r.size := fun hf => hroom [] v os rfl hlater ⟨hf, hr⟩
          rw [apply_set_of_room v hr hfree, he, insert_get, if_pos rfl]
        | some w =>
          refine Or.inr ?_
          rcases hstart with hd | hs | hs
          · simp [hlater] at hd
          · simp [hr, hk] at hs
          · rw [apply_set_of_some v hr, ← hr, hs]
            rfl
      · obtain rfl : x = k := hx
        exact Or.inl (by rw [apply_del_self, apply_del_self])
      · obtain rfl : x = k := hx
        rw [apply_mod_self, apply_mod_self, hk]
        cases hr : r.get x with
        | none =>
          refine Or.inr ?_
          rcases hstart with hd | hs | hs
          · simp [hlater] at hd
          · simp [hr, hk] at hs
          · rw [hr] at hs
            exact hs
        | some u => exact Or.inl rfl
    · rw [apply_get_of_ne r hx, apply_get_of_ne o hx]
      rcases hstart with hd | hs | hs
      · rcases List.mem_cons.mp hd with rfl | hd
        · exact absurd rfl hx
        · exact absurd hd hlater
      · exact Or.inl hs
      · exact Or.inr hs

theorem replay_below {x : K} (os : List (MapOp K V)) {r o : FMap K V} (h : AcceptsAll c o os)
    (hstart : r.get x = none ∨ r.get x = o.get x ∨ r.get x = (o.replay c os).get x) :
    (r.replay c os).get x = none ∨ (r.replay c os).get x = (o.replay c os).get x := by
  induction os generalizing r o with
  | nil => simpa using hstart
  | cons p os ih =>
    refine ih h.2 ?_
    by_cases hx : x = p.key
    · rcases accepts_cases hc h.1 with ⟨k, v, rfl, -, hk, he⟩ | ⟨k, w, rfl, -, he⟩ | ⟨k, v, w, rfl, hk, he⟩
      · obtain rfl : x = k := hx
        cases hr : r.get x with
        | none =>
          rcases apply_set_of_none (c := c) v hr with hn | hn
          · exact Or.inr (Or.inl (by rw [hn, he, insert_get, if_pos rfl]))
          · exact Or.inl hn
        | some w =>
          rw [apply_set_of_some v hr]
          rcases hstart with hs | hs | hs
          · simp [hr] at hs
          · simp [hr, hk] at hs
          · rw [← hr]
            exact Or.inr (Or.inr hs)
      · obtain rfl : x = k := hx
        exact Or.inl (apply_del_self r x)
      · obtain rfl : x = k := hx
        rw [apply_mod_self, apply_mod_self, hk]
        cases r.get x with
        | none => exact Or.inl rfl
        | some u => exact Or.inr (Or.inl rfl)
    · rw [apply_get_of_ne r hx, apply_get_of_ne o hx]
      exact hstart

theorem replay_stays_lost {x : K} (os : List (MapOp K V)) {r o : FMap K V} {w : V} (h : AcceptsAll c o os)
    (hd : .del x ∉ os) (hr : r.get x = none) (ho : o.get x = some w) :
    (r.replay c os).get x = none ∧ (o.replay c os).get x ≠ none := by
  induction os generalizing r o w with
  | nil => exact ⟨hr, by simp [ho]⟩
  | cons p os ih =>
    rw [List.mem_cons, not_or] at hd
    by_cases hx : x = p.key
    · rcases accepts_cases hc h.1 with ⟨k, v, rfl, -, hk, -⟩ | ⟨k, u, rfl, -, -⟩ | ⟨k, v, u, rfl, -, -⟩
      · obtain rfl : x = k := hx
        simp [ho] at hk
      · obtain rfl : x = k := hx
        exact absurd rfl hd.1
      · obtain rfl : x = k := hx
        exact ih h.2 hd.2 (by rw [apply_mod_self, hr]; rfl) (by rw [apply_mod_self, ho]; rfl)
    · exact ih h.2 hd.2 (by rw [apply_get_of_ne r hx, hr]) (by rw [apply_get_of_ne o hx, ho])

theorem Below.replay {r o : FMap K V} (hb : Below r o) (os : List (MapOp K V)) (h : AcceptsAll c o os) :
    Below (r.replay c os) (o.replay c os) := fun x => replay_below hc os h ((hb x).imp id Or.inl)

theorem Below.room {n : ℕ} {r o : FMap K V} (hb : Below r o) (hcap : c.capacity = some n) (ho : o.size ≤ n) {p : K}
    {v : V} (h : Accepts c o (.set p v)) : ¬ Refuses c r p := by
  rintro ⟨hfull, -⟩
  rcases accepts_cases hc h with ⟨k, w, -, hr, -⟩ | ⟨k, w, he, -⟩ | ⟨k, w, u, he, -⟩
  · rw [hcap] at hfull hr
    have hne : n ≠ o.size := fun hn => hr (congrArg some hn)
    have heq := Option.some.inj hfull
    have := hb.size_le
    omega
  · cases he
  · cases he

theorem Below.never_refuses {r o : FMap K V} (hb : Below r o) (ho : ∀ n, c.capacity = some n → o.size ≤ n)
    (os : List (MapOp K V)) (h : AcceptsAll c o os) {a b : List (MapOp K V)} {x : K} {v : V}
    (he : os = a ++ .set x v :: b) : ¬ Refuses c (r.replay c a) x := by
  subst he
  obtain ⟨ha, hset, -⟩ := (acceptsAll_append o a _).mp h
  intro hf
  exact (hb.replay hc a ha).room hc hf.1 (size_le_capacity hc hf.1 a ha (ho _ hf.1)) hset hf

/-- Replaying an accepted history over the state it had reached after `first` gives the final state again exactly
when no `set` of `first` meets a full map without its key, unless the entry is deleted later on. -/
theorem recovery_exact (first second : List (MapOp K V)) (h : AcceptsAll c empty (first ++ second)) :
    (empty.replay c first).replay c (first ++ second) = empty.replay c (first ++ second) ↔
      ∀ a x v b, first = a ++ .set x v :: b → .del x ∉ b ++ second →
        ¬ Refuses c ((empty.replay c first).replay c a) x := by
  obtain ⟨h1, h2⟩ := (acceptsAll_append empty first second).mp h
  have hsize : ∀ n, c.capacity = some n → (empty.replay c first : FMap K V).size ≤ n :=
    fun n hn => size_le_capacity hc hn first h1 (by simp)
  have hbelow : Below ((empty.replay c first).replay c first) (empty.replay c first) :=
    fun x => replay_below hc first h1 (Or.inr (Or.inr rfl))
  constructor
  · intro heq a x v b hf hd hr
    subst hf
    rw [List.mem_append, not_or] at hd
    obtain ⟨ha, hset, hb⟩ := (acceptsAll_append empty a _).mp h1
    have ho : ((empty.replay c a).apply c (.set x v)).get x = some v := by
      rcases accepts_cases hc hset with ⟨k, u, he, -, -, hap⟩ | ⟨k, u, he, -⟩ | ⟨k, u, w, he, -⟩
      · cases he
        rw [hap, insert_get, if_pos rfl]
      · cases he
      · cases he
    have hall : AcceptsAll c ((empty.replay c a).apply c (.set x v)) (b ++ second) := by
      rw [acceptsAll_append]
      refine ⟨hb, ?_⟩
      rw [replay_append, replay_cons] at h2
      exact h2
    have hlost := replay_stays_lost hc (b ++ second) hall (by simp [hd.1, hd.2]) (apply_set_of_full v hr) ho
    have hx := congrArg (fun m : FMap K V => m.get x) heq
    simp only [List.append_assoc, List.cons_append, replay_append, replay_cons] at hx hlost
    exact hlost.2 (hx.symm.trans hlost.1)
  · intro hroom
    apply ext_get
    intro x
    rw [replay_append, replay_append empty]
    refine replay_catches_up hc second h2 (fun a v b he _ => hbelow.never_refuses hc hsize second h2 he) ?_
    by_cases hd : MapOp.del x ∈ second
    · exact Or.inl hd
    · refine Or.inr (Or.inl (replay_catches_up hc first h1 ?_ (Or.inr (Or.inr rfl))))
      exact fun a v b he hb => hroom a x v b he (by simp [hb, hd])

end Catching

theorem recovery_unbounded (hc : c.Sound) (hcap : c.capacity = none) (first second : List (MapOp K V))
    (h : AcceptsAll c empty (first ++ second)) :
    (empty.replay c first).replay c (first ++ second) = empty.replay c (first ++ second) := by
  rw [recovery_exact hc first second h]
  rintro a x v b - - ⟨hf, -⟩
  rw [hcap] at hf
  cases hf

end FMap

end Lidis
