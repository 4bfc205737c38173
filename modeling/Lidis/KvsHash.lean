import Lidis.Engine
import Lidis.Lib.CInt
import Lidis.Lib.Entries
import Lidis.Lib.ListScan

namespace Lidis

structure HashNode where
  key : CString
  value : CString
  deriving DecidableEq

/-- `count` is an int, which nothing keeps from going past INT_MAX. -/
structure KvsHash where
  nodes : ℕ → List HashNode
  maxSlots : ℕ
  count : ℤ

namespace KvsHash

open Engine

def hash (P : Params) (key : CString) : ℕ := P.xxh3 key % P.tableSize

def kvsHashCreate (P : Params) (memory : ℕ → List HashNode) : KvsHash := ⟨memory, P.tableSize, 0⟩

def isNode (key : CString) (n : HashNode) : Bool := CString.strcmp n.key key = 0

def setBucket (H : KvsHash) (i : ℕ) (chain : List HashNode) (count : ℤ) : KvsHash :=
  { H with nodes := Function.update H.nodes i chain, count := count }

def kvsHashSet (P : Params) (H : KvsHash) (key value : Option CString) (sys : Sys) : Option (KvsHash × ℤ) :=
  match key, value with
  | some key, some value =>
    let idx := hash P key
    if (H.nodes idx).any (isNode key) then some (H, 1)
    else if ¬ sys.alloc 0 ∨ ¬ sys.alloc 1 ∨ ¬ sys.alloc 2 then some (H, -2)
    else some (H.setBucket idx (⟨key, value⟩ :: H.nodes idx) (toInt (H.count + 1)), 0)
  | _, _ => some (H, -1)

def kvsHashGet (P : Params) (H : KvsHash) (key : Option CString) : Option (Option CString) :=
  match key with
  | none => some none
  | some key => some (((H.nodes (hash P key)).find? (isNode key)).map HashNode.value)

def kvsHashMod (P : Params) (H : KvsHash) (key value : Option CString) (sys : Sys) : Option (KvsHash × ℤ) :=
  match key with
  | none => some (H, -1)
  | some key =>
    let idx := hash P key
    if (H.nodes idx).any (isNode key) then
      match value with
      | none => none
      | some value =>
        if ¬ sys.alloc 0 then some (H, -2)
        else
          match editFirst (isNode key) (fun n => [{ n with value := value }]) (H.nodes idx) with
          | some chain => some (H.setBucket idx chain H.count, 0)
          | none => none
    else some (H, 1)

def unlinkNext (key : CString) (cur : HashNode) : List HashNode → Option (List HashNode)
  | [] => none
  | n :: rest => if isNode key n then some (cur :: rest) else (unlinkNext key n rest).map (cur :: ·)

def unlink (key : CString) : List HashNode → Option (List HashNode)
  | [] => none
  | head :: rest => if isNode key head then some rest else unlinkNext key head rest

def kvsHashDel (P : Params) (H : KvsHash) (key : Option CString) : Option (KvsHash × ℤ) :=
  match key with
  | none => some (H, -2)
  | some key =>
    let idx := hash P key
    match unlink key (H.nodes idx) with
    | some chain => some (H.setBucket idx chain (toInt (H.count - 1)), 0)
    | none => some (H, -1)

def kvsHashExist (P : Params) (H : KvsHash) (key : Option CString) : Option ℤ := do
  match ← kvsHashGet P H key with
  | none => some 1
  | some _ => some 0

def engine (P : Params) : Engine KvsHash :=
  ⟨kvsHashSet P, kvsHashGet P, kvsHashDel P, kvsHashMod P, kvsHashExist P⟩

def entry (n : HashNode) : CString × CString := (n.key, n.value)

def entries (P : Params) (H : KvsHash) : List (CString × CString) :=
  (List.range P.tableSize).flatMap (fun i => (H.nodes i).map entry)

structure Stands (P : Params) (H : KvsHash) (m : Map) : Prop where
  slots : H.maxSlots = P.tableSize
  placed : ∀ i, ∀ n ∈ H.nodes i, hash P n.key = i
  nodup : (FMap.keys (H.entries P)).Nodup
  count : H.count = toInt (H.entries P).length
  map : m = FMap.ofList (H.entries P)

def contract : FMap.Contract := ⟨none, -1, 1⟩

theorem unlinkNext_eq (key : CString) (cur : HashNode) (rest : List HashNode) :
    unlinkNext key cur rest = (editFirst (isNode key) (fun _ => []) rest).map (cur :: ·) := by
  induction rest generalizing cur with
  | nil => rfl
  | cons n rest ih =>
    rw [unlinkNext, editFirst]
    split_ifs with hn
    · rfl
    · rw [ih n]

theorem unlink_eq (key : CString) (chain : List HashNode) :
    unlink key chain = editFirst (isNode key) (fun _ => []) chain := by
  cases chain with
  | nil => rfl
  | cons head rest =>
    rw [unlink, editFirst, unlinkNext_eq]
    rfl

theorem hash_lt (P : Params) (a : CString) : hash P a < P.tableSize := Nat.mod_lt _ P.tableSize_pos

theorem entries_around (P : Params) (H : KvsHash) (a : CString) (hp : ∀ i, ∀ n ∈ H.nodes i, hash P n.key = i) :
    ∃ l r, a ∉ FMap.keys l ∧ a ∉ FMap.keys r ∧ H.entries P = l ++ (H.nodes (hash P a)).map entry ++ r ∧
      ∀ chain count, (H.setBucket (hash P a) chain count).entries P = l ++ chain.map entry ++ r := by
  obtain ⟨s, t, hrange⟩ := List.append_of_mem (List.mem_range.mpr (hash_lt P a))
  have hnd : (s ++ hash P a :: t).Nodup := hrange ▸ List.nodup_range
  obtain ⟨hst, -⟩ := List.nodup_cons.mp (List.nodup_middle.mp hnd)
  rw [List.mem_append, not_or] at hst
  have hout : ∀ is : List ℕ, hash P a ∉ is → a ∉ FMap.keys (is.flatMap (fun i => (H.nodes i).map entry)) := by
    intro is his hm
    simp only [FMap.keys, List.mem_map, List.mem_flatMap] at hm
    obtain ⟨_, ⟨i, hi, n, hn, rfl⟩, rfl⟩ := hm
    exact his (hp i n hn ▸ hi)
  have hsame : ∀ (is : List ℕ) chain count, hash P a ∉ is →
      is.flatMap (fun i => ((H.setBucket (hash P a) chain count).nodes i).map entry) =
        is.flatMap (fun i => (H.nodes i).map entry) := by
    intro is chain count his
    refine List.flatMap_congr (fun i hi => ?_)
    have hne : i ≠ hash P a := fun he => his (he ▸ hi)
    simp [setBucket, hne]
  refine ⟨_, _, hout s hst.1, hout t hst.2, ?_, fun chain count => ?_⟩
  · rw [entries, hrange]
    simp
  · rw [entries, hrange, List.flatMap_append, List.flatMap_cons, hsame s chain count hst.1,
      hsame t chain count hst.2]
    simp [setBucket]

theorem scan (P : Params) {H : KvsHash} {m : Map} (h : Stands P H m) (a : CString) :
    ((∀ n ∈ H.nodes (hash P a), isNode a n = false) ∧ m.get a = none) ∨
      ∃ l v r, H.nodes (hash P a) = l ++ ⟨a, v⟩ :: r ∧ (∀ n ∈ l, isNode a n = false) ∧ m.get a = some v := by
  obtain ⟨xs, ys, hx, hy, he, -⟩ := entries_around P H a h.placed
  have hget : m.get a = FMap.lookup a ((H.nodes (hash P a)).map entry) := by
    rw [h.map, FMap.ofList_get, he, FMap.lookup_append, FMap.lookup_append, (FMap.lookup_eq_none a xs).mpr hx,
      (FMap.lookup_eq_none a ys).mpr hy]
    simp
  have hkeys : ∀ l : List HashNode, (∀ n ∈ l, isNode a n = false) → a ∉ FMap.keys (l.map entry) := by
    intro l hl hm
    simp only [FMap.keys, List.mem_map] at hm
    obtain ⟨_, ⟨n, hn, rfl⟩, hna⟩ := hm
    have := hl n hn
    simp [isNode, show n.key = a from hna] at this
  rcases first_split (isNode a) (H.nodes (hash P a)) with hall | ⟨l, ⟨k, v⟩, r, hs, hl, hk⟩
  · exact Or.inl ⟨hall, by rw [hget]; exact (FMap.lookup_eq_none _ _).mpr (hkeys _ hall)⟩
  · obtain rfl : k = a := by simpa [isNode] using hk
    refine Or.inr ⟨l, v, r, hs, hl, ?_⟩
    rw [hget, hs, List.map_append, List.map_cons]
    exact FMap.lookup_middle _ _ k v (hkeys l hl)

theorem stands_setBucket {P : Params} {H : KvsHash} {m : Map} {a : CString} {chain : List HashNode} {count : ℤ}
    (h : Stands P H m) (hc : ∀ n ∈ chain, hash P n.key = hash P a)
    (hn : (FMap.keys ((H.setBucket (hash P a) chain count).entries P)).Nodup)
    (hl : count = toInt ((H.setBucket (hash P a) chain count).entries P).length) :
    Stands P (H.setBucket (hash P a) chain count)
      (FMap.ofList ((H.setBucket (hash P a) chain count).entries P)) := by
  refine ⟨h.slots, fun i n hm => ?_, hn, hl, rfl⟩
  by_cases hi : i = hash P a
  · subst hi
    exact hc n (by simpa [setBucket] using hm)
  · exact h.placed i n (by simpa [setBucket, hi] using hm)

theorem get_stands {P : Params} {H : KvsHash} {m : Map} (h : Stands P H m) (a : CString) :
    kvsHashGet P H a = some (m.get a) := by
  rcases scan P h a with ⟨hall, hm⟩ | ⟨l, v, r, hs, hl, hm⟩
  · have hf : (H.nodes (hash P a)).find? (isNode a) = none := by
      rw [List.find?_eq_none]
      intro n hn
      simp [hall n hn]
    simp [kvsHashGet, hf, hm]
  · have hf : (H.nodes (hash P a)).find? (isNode a) = some ⟨a, v⟩ := by
      rw [hs]
      exact find_split hl (by simp [isNode])
    simp [kvsHashGet, hf, hm]

theorem any_stands {P : Params} {H : KvsHash} {m : Map} (h : Stands P H m) (a : CString) :
    (H.nodes (hash P a)).any (isNode a) = (m.get a).isSome := by
  rcases scan P h a with ⟨hall, hm⟩ | ⟨l, v, r, hs, -, hm⟩
  · rw [hm, Option.isSome_none, List.any_eq_false]
    exact fun n hn => by simp [hall n hn]
  · rw [hm, hs]
    simp [isNode]

theorem set_stands {P : Params} {H : KvsHash} {m : Map} {sys : Sys} (h : Stands P H m) (ha : sys.AllocOk)
    (a v : CString) :
    ∃ H', kvsHashSet P H a v sys = some (H', if (m.get a).isSome then 1 else 0) ∧
      Stands P H' (if (m.get a).isSome then m else m.insert a v) := by
  have hany := any_stands h a
  cases hm : m.get a with
  | some w => exact ⟨H, by simp [kvsHashSet, hany, hm], by simpa [hm] using h⟩
  | none =>
    obtain ⟨l, r, hl, hr, he, he'⟩ := entries_around P H a h.placed
    have habs : a ∉ FMap.keys (H.entries P) := by
      rw [← FMap.lookup_eq_none, ← FMap.ofList_get, ← h.map, hm]
    have hsplit : ∀ count, (H.setBucket (hash P a) (⟨a, v⟩ :: H.nodes (hash P a)) count).entries P =
        l ++ (a, v) :: ((H.nodes (hash P a)).map entry ++ r) := by
      intro count
      rw [he']
      simp [entry]
    refine ⟨H.setBucket (hash P a) (⟨a, v⟩ :: H.nodes (hash P a)) (toInt (H.count + 1)),
      by simp [kvsHashSet, hany, hm, ha 0, ha 1, ha 2], ?_⟩
    have hmap : m.insert a v = FMap.ofList
        ((H.setBucket (hash P a) (⟨a, v⟩ :: H.nodes (hash P a)) (toInt (H.count + 1))).entries P) := by
      rw [hsplit, FMap.ofList_insert _ _ a v hl, h.map, he, List.append_assoc]
    simp only [Option.isSome_none, Bool.false_eq_true, ↓reduceIte, hmap]
    refine stands_setBucket h ?_ ?_ ?_
    · intro n hn
      rcases List.mem_cons.mp hn with rfl | hn
      · rfl
      · exact h.placed _ n hn
    · rw [he, List.append_assoc] at habs
      have hnd := h.nodup
      rw [he, List.append_assoc] at hnd
      rw [hsplit, FMap.keys, List.map_append, List.map_cons, List.nodup_middle, ← List.map_append, List.nodup_cons]
      exact ⟨habs, hnd⟩
    · rw [h.count, toInt_toInt_add, hsplit, he]
      simp only [List.length_append, List.length_cons, List.length_map]
      congr 1
      omega

theorem del_stands {P : Params} {H : KvsHash} {m : Map} (h : Stands P H m) (a : CString) :
    ∃ H', kvsHashDel P H a = some (H', if (m.get a).isSome then 0 else -1) ∧
      Stands P H' (if (m.get a).isSome then m.erase a else m) := by
  rcases scan P h a with ⟨hall, hm⟩ | ⟨l, v, r, hs, hl, hm⟩
  · exact ⟨H, by simp [kvsHashDel, unlink_eq, editFirst_none _ hall, hm], by simpa [hm] using h⟩
  · obtain ⟨xs, ys, hx, hy, he, he'⟩ := entries_around P H a h.placed
    have hedit : editFirst (isNode a) (fun _ => []) (H.nodes (hash P a)) = some (l ++ r) := by
      rw [hs, editFirst_split _ hl (by simp [isNode])]; simp
    have hold : H.entries P = (xs ++ l.map entry) ++ (a, v) :: (r.map entry ++ ys) := by
      rw [he, hs]; simp [entry]
    have hnew : ∀ count, (H.setBucket (hash P a) (l ++ r) count).entries P =
        (xs ++ l.map entry) ++ (r.map entry ++ ys) := by
      intro count
      rw [he']
      simp
    have hnd := h.nodup
    rw [hold, FMap.keys, List.map_append, List.map_cons, List.nodup_middle, ← List.map_append, List.nodup_cons,
      List.map_append, List.mem_append, not_or] at hnd
    refine ⟨H.setBucket (hash P a) (l ++ r) (toInt (H.count - 1)), by simp [kvsHashDel, unlink_eq, hedit, hm], ?_⟩
    have hmap : m.erase a = FMap.ofList ((H.setBucket (hash P a) (l ++ r) (toInt (H.count - 1))).entries P) := by
      rw [hnew, FMap.ofList_erase _ _ a v hnd.1.1 hnd.1.2, h.map, hold]
    simp only [hm, Option.isSome_some, ↓reduceIte, hmap]
    refine stands_setBucket h ?_ ?_ ?_
    · intro n hn
      refine h.placed _ n ?_
      rw [hs]
      rcases List.mem_append.mp hn with hn | hn <;> simp [hn]
    · rw [hnew, FMap.keys, List.map_append]
      exact hnd.2
    · rw [h.count, sub_eq_add_neg, toInt_toInt_add, hnew, hold]
      simp only [List.length_append, List.length_cons]
      congr 1
      omega

theorem mod_stands {P : Params} {H : KvsHash} {m : Map} {sys : Sys} (h : Stands P H m) (ha : sys.AllocOk)
    (a v : CString) :
    ∃ H', kvsHashMod P H a v sys = some (H', if (m.get a).isSome then 0 else 1) ∧
      Stands P H' (if (m.get a).isSome then m.insert a v else m) := by
  have hany := any_stands h a
  rcases scan P h a with ⟨hall, hm⟩ | ⟨l, w, r, hs, hl, hm⟩
  · exact ⟨H, by simp [kvsHashMod, hany, hm], by simpa [hm] using h⟩
  · obtain ⟨xs, ys, hx, hy, he, he'⟩ := entries_around P H a h.placed
    have hedit : editFirst (isNode a) (fun n => [{ n with value := v }]) (H.nodes (hash P a)) =
        some (l ++ ⟨a, v⟩ :: r) := by
      rw [hs, editFirst_split _ hl (by simp [isNode])]; simp
    have hold : H.entries P = (xs ++ l.map entry) ++ (a, w) :: (r.map entry ++ ys) := by
      rw [he, hs]; simp [entry]
    have hnew : (H.setBucket (hash P a) (l ++ ⟨a, v⟩ :: r) H.count).entries P =
        (xs ++ l.map entry) ++ (a, v) :: (r.map entry ++ ys) := by
      rw [he']; simp [entry]
    have hnd := h.nodup
    rw [hold] at hnd
    have hkeys : FMap.keys ((H.setBucket (hash P a) (l ++ ⟨a, v⟩ :: r) H.count).entries P) =
        FMap.keys ((xs ++ l.map entry) ++ (a, w) :: (r.map entry ++ ys)) := by
      rw [hnew]; simp [FMap.keys]
    have hfirst : a ∉ FMap.keys (xs ++ l.map entry) := by
      rw [FMap.keys, List.map_append, List.map_cons, List.nodup_middle, ← List.map_append, List.nodup_cons,
        List.map_append, List.mem_append, not_or] at hnd
      exact hnd.1.1
    refine ⟨H.setBucket (hash P a) (l ++ ⟨a, v⟩ :: r) H.count, by simp [kvsHashMod, hany, hedit, hm, ha 0], ?_⟩
    have hmap : m.insert a v = FMap.ofList ((H.setBucket (hash P a) (l ++ ⟨a, v⟩ :: r) H.count).entries P) := by
      rw [hnew, FMap.ofList_modify _ _ a w v hfirst, h.map, hold]
    simp only [hm, Option.isSome_some, ↓reduceIte, hmap]
    refine stands_setBucket h ?_ (hkeys ▸ hnd) ?_
    · intro n hn
      rcases List.mem_append.mp hn with hn | hn
      · exact h.placed _ n (by rw [hs]; simp [hn])
      · rcases List.mem_cons.mp hn with rfl | hn
        · rfl
        · exact h.placed _ n (by rw [hs]; simp [hn])
    · rw [hnew, h.count, hold]
      simp

theorem exist_stands {P : Params} {H : KvsHash} {m : Map} (h : Stands P H m) (a : CString) :
    kvsHashExist P H a = some (if (m.get a).isSome then 0 else 1) := by
  cases hm : m.get a <;> simp [kvsHashExist, get_stands h a, hm]

theorem engine_refines (P : Params) : (engine P).Refines contract (Stands P) :=
  refines_of_calls (fun _ _ _ _ _ _ hc => by cases hc) (fun _ _ _ k v h ha _ => set_stands h ha k v)
    (fun _ _ k h => get_stands h k) (fun _ _ k h => del_stands h k) (fun _ _ _ k v h ha => mod_stands h ha k v)
    (fun _ _ k h => exist_stands h k)

theorem set_asGranted (P : Params) (H : KvsHash) (k v : CString) (sys : Sys) :
    AsGranted H (kvsHashSet P H k v sys) (kvsHashSet P H k v sys.grant) := by
  by_cases hany : (H.nodes (hash P k)).any (isNode k) = true
  · exact Or.inl (by simp only [kvsHashSet, hany, ↓reduceIte])
  · by_cases ha : ¬ sys.alloc 0 ∨ ¬ sys.alloc 1 ∨ ¬ sys.alloc 2
    · exact Or.inr (Or.inl (by simp only [kvsHashSet, hany, ha, ↓reduceIte]; rfl))
    · push Not at ha
      exact Or.inl (by simp [kvsHashSet, hany, ha, Sys.grant])

theorem mod_asGranted (P : Params) (H : KvsHash) (k v : CString) (sys : Sys) :
    AsGranted H (kvsHashMod P H k v sys) (kvsHashMod P H k v sys.grant) := by
  by_cases hany : (H.nodes (hash P k)).any (isNode k) = true
  · by_cases h0 : sys.alloc 0
    · exact Or.inl (by simp [kvsHashMod, h0, Sys.grant])
    · exact Or.inr (Or.inl (by simp only [kvsHashMod, hany, h0, ↓reduceIte]; rfl))
  · exact Or.inl (by simp only [kvsHashMod, hany]; rfl)

theorem engine_tolerates (P : Params) : (engine P).Tolerates contract (Stands P) (fun _ => True) :=
  (engine_refines P).tolerates (set_asGranted P) (fun H k v sys _ => mod_asGranted P H k v sys)

theorem call_defined {P : Params} {H : KvsHash} {m : Map} (i : Op × Sys) (h : Stands P H m) :
    ∃ r, (engine P).call H i = some r := by
  obtain ⟨o, sys⟩ := i
  cases o with
  | set k v =>
    simp only [call, engine, kvsHashSet]
    split_ifs <;> exact ⟨_, rfl⟩
  | get k => exact ⟨_, rfl⟩
  | del k =>
    obtain ⟨H', hd, -⟩ := del_stands h k
    exact ⟨_, congrArg (Option.map codeOf) hd⟩
  | mod k v =>
    have hany := any_stands h k
    rcases scan P h k with ⟨-, hm⟩ | ⟨l, w, r, hs, hl, hm⟩
    · exact ⟨_, congrArg (Option.map codeOf) (show kvsHashMod P H k v sys = some (H, 1) by simp [kvsHashMod, hany, hm])⟩
    · have hedit := editFirst_split (fun n => [{ n with value := v }]) hl (show isNode k ⟨k, w⟩ = true by simp [isNode])
        (b := r)
      rw [← hs] at hedit
      simp only [call, engine, kvsHashMod, hany, hm, hedit, Option.isSome_some, ↓reduceIte]
      split_ifs <;> exact ⟨_, rfl⟩
  | exist k => exact ⟨_, congrArg (Option.map _) (exist_stands h k)⟩

theorem create_stands (P : Params) : Stands P (kvsHashCreate P (fun _ => [])) FMap.empty := by
  have hnil : (kvsHashCreate P (fun _ => [])).entries P = [] := by simp [entries, kvsHashCreate]
  refine ⟨rfl, ?_, ?_, ?_, ?_⟩
  · intro i n hn
    cases hn
  · simp [hnil, FMap.keys]
  · rw [hnil]
    rfl
  · rw [hnil]
    rfl

theorem keep_filter {k : CString} {l : List HashNode} (h : ∀ n ∈ l, n.key ≠ k) : l.filter (fun x => x.key ≠ k) = l := by
  rw [List.filter_eq_self]
  intro n hn
  simpa using h n hn

theorem del_filter {P : Params} {H : KvsHash} {m : Map} (h : Stands P H m) (k : CString) :
    ∃ H' n, kvsHashDel P H (some k) = some (H', n) ∧
      ∀ i, H'.nodes i = (H.nodes i).filter (fun x => x.key ≠ k) := by
  have hother : ∀ i, i ≠ hash P k → (H.nodes i).filter (fun x => x.key ≠ k) = H.nodes i := by
    intro i hi
    apply keep_filter
    rintro n hn rfl
    exact hi (h.placed i n hn).symm
  rcases scan P h k with ⟨hall, -⟩ | ⟨l, v, r, hs, hl, -⟩
  · refine ⟨H, -1, by simp [kvsHashDel, unlink_eq, editFirst_none _ hall], fun i => ?_⟩
    by_cases hi : i = hash P k
    · subst hi
      refine (keep_filter ?_).symm
      intro n hn hk
      simpa [isNode, hk] using hall n hn
    · exact (hother i hi).symm
  · have hedit : unlink k (H.nodes (hash P k)) = some (l ++ r) := by
      rw [unlink_eq, hs, editFirst_split _ hl (by simp [isNode])]
      simp
    refine ⟨H.setBucket (hash P k) (l ++ r) (toInt (H.count - 1)), 0, by simp [kvsHashDel, hedit], fun i => ?_⟩
    by_cases hi : i = hash P k
    · subst hi
      have hbefore : ∀ n ∈ l, n.key ≠ k := by
        intro n hn hk
        simpa [isNode, hk] using hl n hn
      have hafter : ∀ n ∈ r, n.key ≠ k := by
        intro n hn hk
        obtain ⟨xs, ys, -, -, he, -⟩ := entries_around P H k h.placed
        have hnd := h.nodup
        rw [he, hs, FMap.keys, List.map_append, List.map_append, List.map_map, List.map_append, List.map_cons] at hnd
        have hmid := (List.nodup_append.mp (List.nodup_append.mp hnd).1).2.1
        exact (List.nodup_cons.mp (List.nodup_append.mp hmid).2.1).1 (List.mem_map.mpr ⟨n, hn, hk⟩)
      have hkeep : (H.nodes (hash P k)).filter (fun x => x.key ≠ k) = l ++ r := by
        rw [hs, List.filter_append, keep_filter hbefore, List.filter_cons_of_neg (by simp), keep_filter hafter]
      rw [hkeep]
      simp [setBucket]
    · rw [hother i hi]
      simp [setBucket, hi]

theorem entries_length (P : Params) (H : KvsHash) :
    (H.entries P).length = ((List.range P.tableSize).flatMap H.nodes).length := by
  rw [entries, List.length_flatMap, List.length_flatMap]
  simp

theorem Stands.size {P : Params} {H : KvsHash} {m : Map} (h : Stands P H m) : (H.entries P).length = m.size := by
  rw [h.map, FMap.ofList_size _ h.nodup]

/-- After any calls and under any allocation outcomes: every node is in the bucket of its key, no key is there
twice, and the answers have been those of a map; count is the number of nodes as long as that is an int. -/
theorem hash_table_answers_as_map (P : Params) (cs : List (Op × Sys)) :
    ∃ H as m, (engine P).run (kvsHashCreate P (fun _ => [])) cs = some (H, as) ∧
      Answered contract FMap.empty cs as m ∧
      (∀ i, ∀ n ∈ H.nodes i, hash P n.key = i ∧ i < P.tableSize) ∧
      ((List.range P.tableSize).flatMap (fun i => (H.nodes i).map HashNode.key)).Nodup ∧
      (H.count = ((List.range P.tableSize).flatMap H.nodes).length ↔
        ((List.range P.tableSize).flatMap H.nodes).length < 2 ^ 31) ∧
      (∀ k, kvsHashGet P H (some k) = some (m.get k)) ∧
      ∀ k, ∃ H' n, kvsHashDel P H (some k) = some (H', n) ∧
        ∀ i, H'.nodes i = (H.nodes i).filter (fun x => x.key ≠ k) := by
  obtain ⟨H, as, m, hrun, hans, h⟩ := (engine_refines P).run_answered (engine_tolerates P)
    (fun _ _ i h => call_defined i h) cs (create_stands P)
  refine ⟨H, as, m, hrun, hans, ?_, ?_, ?_, fun k => get_stands h k, fun k => del_filter h k⟩
  · intro i n hn
    have hi := h.placed i n hn
    exact ⟨hi, hi ▸ hash_lt P n.key⟩
  · have hkeys := h.nodup
    simpa [entries, FMap.keys, List.map_flatMap, Function.comp_def, entry] using hkeys
  · rw [h.count, ← entries_length, toInt_eq_iff, intMax]
    omega

/-- One SET for each of `n` keys, every key a byte longer than the last. -/
def fills (start n : ℕ) : List (Op × Sys) :=
  (List.range' start n).map (fun i => (.set (.ofLength i) (.ofLength i), .granted))

theorem run_fills (P : Params) (n start : ℕ) {H : KvsHash} {m : Map} (h : Stands P H m)
    (hfree : ∀ i, start ≤ i → m.get (.ofLength i) = none) :
    ∃ H' as m', (engine P).run H (fills start n) = some (H', as) ∧ Stands P H' m' ∧ m'.size = m.size + n := by
  induction n generalizing start H m with
  | zero => exact ⟨H, [], m, rfl, h, rfl⟩
  | succ n ih =>
    have hnew := hfree start le_rfl
    obtain ⟨H1, hset, hH1⟩ := set_stands h Sys.granted_allocOk (.ofLength start) (.ofLength start)
    rw [hnew, if_neg (by simp)] at hset hH1
    obtain ⟨H', as, m', hrun, hH', hsize⟩ := ih (start + 1) hH1 (by
      intro i hi
      rw [FMap.insert_get, if_neg, hfree i (by omega)]
      intro heq
      have hlen := congrArg CString.length heq
      rw [CString.ofLength_length, CString.ofLength_length] at hlen
      omega)
    refine ⟨H', .code 0 :: as, m', ?_, hH', ?_⟩
    · have hcall : (engine P).call H (.set (.ofLength start) (.ofLength start), .granted) = some (H1, .code 0) :=
        congrArg (Option.map codeOf) hset
      rw [run] at hrun ⊢
      simp only [fills, List.range'_succ, List.map_cons, Machine.run, hcall, bind, Option.bind]
      rw [fills] at hrun
      rw [hrun]
    · rw [hsize, FMap.insert_size_of_none _ _ _ hnew]
      omega

theorem count_overflows : ∃ H as,
    (engine .small).run (kvsHashCreate .small (fun _ => [])) (fills 0 (2 ^ 31)) = some (H, as) ∧
      ((List.range Params.small.tableSize).flatMap H.nodes).length = 2 ^ 31 ∧ H.count = -2 ^ 31 := by
  obtain ⟨H, as, m, hrun, h, hsize⟩ := run_fills .small (2 ^ 31) 0 (create_stands .small) (fun _ _ => rfl)
  rw [FMap.empty_size, Nat.zero_add] at hsize
  refine ⟨H, as, hrun, ?_, ?_⟩
  · rw [← entries_length, h.size, hsize]
  · rw [h.count, h.size, hsize, toInt]
    decide

example : ((engine .small).run (kvsHashCreate .small (fun _ => []))
    [(.set (.lit "a") (.lit "1"), .granted), (.set (.lit "b") (.lit "2"), .granted),
      (.set (.lit "c") (.lit "3"), .granted), (.del (.lit "b"), .granted), (.del (.lit "a"), .granted),
      (.get (.lit "c"), .granted)]).map Prod.snd =
    some [.code 0, .code 0, .code 0, .code 0, .code 0, .value (some (.lit "3"))] := by decide +kernel

end KvsHash

end Lidis
