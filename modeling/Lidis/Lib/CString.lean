import Mathlib.Data.List.Lex
import Mathlib.Data.List.TakeWhile
import Mathlib.Data.UInt

namespace Lidis

abbrev Bytes := List UInt8

def ascii (s : String) : Bytes := s.toList.map (fun c => UInt8.ofNat c.toNat)

/-- What a C string holds: the bytes before its terminating NUL. -/
structure CString where
  bytes : Bytes
  nul_free : (0 : UInt8) ∉ bytes
  deriving DecidableEq

namespace CString

theorem ext_bytes {a b : CString} (h : a.bytes = b.bytes) : a = b := by
  cases a; cases b; cases h; rfl

def length (s : CString) : ℕ := s.bytes.length

def compareBytes : Bytes → Bytes → ℤ
  | [], [] => 0
  | [], y :: _ => -(y.toNat : ℤ)
  | x :: _, [] => x.toNat
  | x :: xs, y :: ys => if x = y then compareBytes xs ys else (x.toNat : ℤ) - y.toNat

def strcmp (a b : CString) : ℤ := compareBytes a.bytes b.bytes

def codes (s : CString) : List ℕ := s.bytes.map UInt8.toNat

theorem codes_injective : Function.Injective codes := by
  intro a b h
  exact ext_bytes (List.map_injective_iff.mpr (fun _ _ h => UInt8.toNat_inj.mp h) h)

instance : LinearOrder CString := LinearOrder.lift' codes codes_injective

theorem toNat_pos {x : UInt8} {xs : Bytes} (h : (0 : UInt8) ∉ x :: xs) : 0 < x.toNat := by
  have hx : x ≠ 0 := by
    rintro rfl
    exact h List.mem_cons_self
  exact Nat.pos_of_ne_zero (fun h0 => hx (UInt8.toNat_inj.mp h0))

theorem compareBytes_neg (xs ys : Bytes) (hx : (0 : UInt8) ∉ xs) (hy : (0 : UInt8) ∉ ys) :
    compareBytes xs ys < 0 ↔ xs.map UInt8.toNat < ys.map UInt8.toNat := by
  induction xs generalizing ys with
  | nil =>
    cases ys with
    | nil => simp [compareBytes]
    | cons y ys =>
      have h := toNat_pos hy
      simp only [compareBytes, List.map_nil, List.map_cons, List.nil_lt_cons, iff_true]
      omega
  | cons x xs ih =>
    cases ys with
    | nil => simp [compareBytes]
    | cons y ys =>
      have ih := ih ys (fun h => hx (List.mem_cons_of_mem _ h)) (fun h => hy (List.mem_cons_of_mem _ h))
      simp only [compareBytes, List.map_cons, List.cons_lt_cons_iff]
      by_cases he : x = y
      · simpa [he] using ih
      · have hn : x.toNat ≠ y.toNat := fun h => he (UInt8.toNat_inj.mp h)
        simp only [he, ↓reduceIte, hn, false_and, or_false]
        omega

theorem compareBytes_swap (xs ys : Bytes) : compareBytes xs ys = -compareBytes ys xs := by
  induction xs generalizing ys with
  | nil => cases ys <;> simp [compareBytes]
  | cons x xs ih =>
    cases ys with
    | nil => simp [compareBytes]
    | cons y ys =>
      by_cases he : x = y
      · simpa [compareBytes, he] using ih ys
      · simp only [compareBytes, he, Ne.symm he, ↓reduceIte]
        omega

@[simp] theorem strcmp_neg (a b : CString) : strcmp a b < 0 ↔ a < b :=
  compareBytes_neg a.bytes b.bytes a.nul_free b.nul_free

@[simp] theorem strcmp_pos (a b : CString) : 0 < strcmp a b ↔ b < a := by
  rw [← strcmp_neg b a]
  have h : strcmp a b = -strcmp b a := compareBytes_swap a.bytes b.bytes
  omega

@[simp] theorem strcmp_eq_zero (a b : CString) : strcmp a b = 0 ↔ a = b := by
  have hn := strcmp_neg a b
  have hp := strcmp_pos a b
  constructor
  · intro h
    exact le_antisymm (not_lt.mp (fun hl => by have := hp.mpr hl; omega))
      (not_lt.mp (fun hl => by have := hn.mpr hl; omega))
  · rintro rfl
    have hn' : ¬ strcmp a a < 0 := fun h => lt_irrefl a (hn.mp h)
    have hp' : ¬ 0 < strcmp a a := fun h => lt_irrefl a (hp.mp h)
    omega

def prefixOf (mem : Bytes) : CString :=
  ⟨mem.takeWhile (· ≠ 0), by
    intro h
    simpa using List.mem_takeWhile_imp h⟩

def lit (s : String) : CString := prefixOf (ascii s)

/-- Some string of `n` bytes. -/
def ofLength (n : ℕ) : CString := ⟨List.replicate n 97, by simp⟩

theorem ofLength_length (n : ℕ) : (ofLength n).length = n := List.length_replicate

def read (mem : Bytes) (pos : ℕ) : Option CString :=
  if (0 : UInt8) ∈ mem.drop pos then some (prefixOf (mem.drop pos)) else none

theorem prefixOf_bytes (s : CString) : prefixOf s.bytes = s := by
  apply ext_bytes
  show s.bytes.takeWhile (· ≠ 0) = s.bytes
  rw [List.takeWhile_eq_self_iff]
  intro c hc
  rw [decide_eq_true_iff]
  rintro rfl
  exact s.nul_free hc

theorem map_prefixOf_bytes (ss : List CString) : (ss.map bytes).map prefixOf = ss := by
  rw [List.map_map]
  exact (List.map_congr_left (fun s _ => prefixOf_bytes s)).trans (List.map_id ss)

theorem takeWhile_nul (content rest : Bytes) :
    (content ++ 0 :: rest).takeWhile (· ≠ 0) = content.takeWhile (· ≠ 0) := by
  rw [List.takeWhile_append]
  split_ifs with h
  · rw [List.takeWhile_cons_of_neg (by simp), List.append_nil]
    exact ((List.takeWhile_prefix _).eq_of_length h).symm
  · rfl

theorem prefixOf_content (content rest : Bytes) : prefixOf (content ++ 0 :: rest) = prefixOf content :=
  ext_bytes (takeWhile_nul content rest)

theorem read_content (pre content rest : Bytes) :
    read (pre ++ (content ++ 0 :: rest)) pre.length = some (prefixOf content) := by
  have hd : (pre ++ (content ++ 0 :: rest)).drop pre.length = content ++ 0 :: rest := by simp
  rw [read, hd, if_pos (by simp), prefixOf_content]

theorem readAll_length {mem : Bytes} {tokens : List ℕ} {ts : List CString} (h : tokens.mapM (read mem) = some ts) :
    tokens.length = ts.length := by
  induction tokens generalizing ts with
  | nil =>
    obtain rfl : [] = ts := by simpa using h
    rfl
  | cons a tokens ih =>
    rw [List.mapM_cons] at h
    obtain ⟨s, -, h⟩ := Option.bind_eq_some_iff.mp h
    obtain ⟨ts', hts, h⟩ := Option.bind_eq_some_iff.mp h
    obtain rfl : s :: ts' = ts := by simpa using h
    rw [List.length_cons, List.length_cons, ih hts]

theorem takeWhile_length_le {mem : Bytes} {n : ℕ} (h : mem[n]? = some 0) : (mem.takeWhile (· ≠ 0)).length ≤ n := by
  induction mem generalizing n with
  | nil => simp at h
  | cons c mem ih =>
    cases n with
    | zero =>
      obtain rfl : c = 0 := by simpa using h
      simp
    | succ n =>
      rw [List.getElem?_cons_succ] at h
      rw [List.takeWhile_cons]
      split_ifs
      · exact Nat.succ_le_succ (ih h)
      · exact Nat.zero_le _

theorem read_length_le {mem : Bytes} {pos n : ℕ} {s : CString} (h : read mem pos = some s) (hp : pos ≤ n)
    (hn : mem[n]? = some 0) : s.length ≤ n := by
  rw [read] at h
  split_ifs at h
  obtain rfl := Option.some.inj h
  have hd : (mem.drop pos)[n - pos]? = some 0 := by
    rw [List.getElem?_drop, Nat.add_sub_cancel' hp]
    exact hn
  exact (takeWhile_length_le hd).trans (Nat.sub_le n pos)

end CString

end Lidis
