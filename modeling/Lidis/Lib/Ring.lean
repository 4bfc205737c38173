import Mathlib.Data.List.Rotate

namespace Lidis

namespace Ring

variable {α : Type}

def window (cells : List α) (start n : ℕ) : List α := (cells.rotate start).take n

def memcpy (cells : List α) (pos : ℕ) (bs : List α) : List α := cells.take pos ++ bs ++ cells.drop (pos + bs.length)

def write (cells : List α) (pos : ℕ) (bs : List α) : List α × ℕ :=
  if bs.length ≤ cells.length - pos then (memcpy cells pos bs, (pos + bs.length) % cells.length)
  else
    let part := cells.length - pos
    let next := (pos + part) % cells.length
    (memcpy (memcpy cells pos (bs.take part)) next (bs.drop part), (next + (bs.length - part)) % cells.length)

def read (cells : List α) (pos n : ℕ) : List α × ℕ :=
  if n ≤ cells.length - pos then ((cells.drop pos).take n, (pos + n) % cells.length)
  else
    let part := cells.length - pos
    let next := (pos + part) % cells.length
    ((cells.drop pos).take part ++ (cells.drop next).take (n - part), (next + (n - part)) % cells.length)

theorem mod_of_lt_twice {a b : ℕ} (h : a < 2 * b) : a % b = if a < b then a else a - b := by
  split_ifs with hlt
  · exact Nat.mod_eq_of_lt hlt
  · rw [Nat.mod_eq_sub_mod (by omega), Nat.mod_eq_of_lt (by omega)]

theorem window_length {cells : List α} {start n : ℕ} (h : n ≤ cells.length) : (window cells start n).length = n := by
  rw [window, List.length_take, List.length_rotate, min_eq_left h]

theorem window_getElem? {cells : List α} {start n i : ℕ} (h : n ≤ cells.length) (hi : i < n) :
    (window cells start n)[i]? = cells[(start + i) % cells.length]? := by
  rw [window, List.getElem?_take_of_lt hi, List.getElem?_rotate (by omega), Nat.add_comm]

theorem window_zero (cells : List α) (start : ℕ) : window cells start 0 = [] := List.take_zero

theorem window_add {cells : List α} {start a b : ℕ} (h : a + b ≤ cells.length) :
    window cells start (a + b) = window cells start a ++ window cells ((start + a) % cells.length) b := by
  apply List.ext_getElem?
  intro i
  by_cases ha : i < a
  · rw [List.getElem?_append_left (by rwa [window_length (by omega)]), window_getElem? h (by omega),
      window_getElem? (by omega) ha]
  · rw [List.getElem?_append_right (by rw [window_length (by omega)]; omega), window_length (by omega)]
    by_cases hb : i < a + b
    · rw [window_getElem? h hb, window_getElem? (by omega) (by omega), Nat.mod_add_mod]
      congr 2
      omega
    · rw [List.getElem?_eq_none (by rw [window_length h]; omega),
        List.getElem?_eq_none (by rw [window_length (by omega)]; omega)]

theorem memcpy_length {cells bs : List α} {pos : ℕ} (h : pos + bs.length ≤ cells.length) :
    (memcpy cells pos bs).length = cells.length := by
  simp only [memcpy, List.length_append, List.length_take, List.length_drop]
  omega

theorem memcpy_getElem? {cells bs : List α} {pos : ℕ} (h : pos + bs.length ≤ cells.length) (j : ℕ) :
    (memcpy cells pos bs)[j]? = if pos ≤ j ∧ j < pos + bs.length then bs[j - pos]? else cells[j]? := by
  have hpos : (cells.take pos).length = pos := by
    rw [List.length_take]
    omega
  have hfront : (cells.take pos ++ bs).length = pos + bs.length := by rw [List.length_append, hpos]
  rw [memcpy]
  split_ifs with hj
  · rw [List.getElem?_append_left (by omega), List.getElem?_append_right (by omega), hpos]
  · by_cases hlt : j < pos
    · rw [List.getElem?_append_left (by omega), List.getElem?_append_left (by omega), List.getElem?_take_of_lt hlt]
    · rw [List.getElem?_append_right (by omega), hfront, List.getElem?_drop]
      congr 1
      omega

theorem write_pos (cells : List α) (pos : ℕ) (bs : List α) :
    (write cells pos bs).2 = (pos + bs.length) % cells.length := by
  rw [write]
  split_ifs with h
  · rfl
  · dsimp only
    rw [Nat.mod_add_mod]
    congr 1
    omega

section Copies

variable {cells bs : List α} {pos : ℕ} (hp : pos < cells.length) (hb : bs.length ≤ cells.length)

include hp hb

theorem write_length : (write cells pos bs).1.length = cells.length := by
  rw [write]
  split_ifs with h
  · exact memcpy_length (by omega)
  · have hnext : (pos + (cells.length - pos)) % cells.length = 0 := by
      rw [Nat.add_sub_cancel' hp.le, Nat.mod_self]
    have hfirst : (memcpy cells pos (bs.take (cells.length - pos))).length = cells.length := by
      apply memcpy_length
      rw [List.length_take]
      omega
    dsimp only
    rw [hnext, memcpy_length, hfirst]
    rw [hfirst, List.length_drop]
    omega

theorem write_getElem? {j : ℕ} (hj : j < cells.length) :
    (write cells pos bs).1[j]? =
      if (if pos ≤ j then j - pos else j + cells.length - pos) < bs.length
      then bs[if pos ≤ j then j - pos else j + cells.length - pos]? else cells[j]? := by
  rw [write]
  by_cases h : bs.length ≤ cells.length - pos
  · rw [if_pos h, memcpy_getElem? (by omega)]
    by_cases hle : pos ≤ j
    · simp only [hle, true_and, ↓reduceIte]
      by_cases hlt : j < pos + bs.length
      · rw [if_pos hlt, if_pos (by omega)]
      · rw [if_neg hlt, if_neg (by omega)]
    · simp only [hle, false_and, ↓reduceIte]
      rw [if_neg (by omega)]
  · have hnext : (pos + (cells.length - pos)) % cells.length = 0 := by
      rw [Nat.add_sub_cancel' hp.le, Nat.mod_self]
    have htake : (bs.take (cells.length - pos)).length = cells.length - pos := by
      rw [List.length_take]
      omega
    have hfirst : (memcpy cells pos (bs.take (cells.length - pos))).length = cells.length :=
      memcpy_length (by omega)
    rw [if_neg h]
    dsimp only
    rw [hnext, memcpy_getElem? (by rw [hfirst, List.length_drop]; omega), memcpy_getElem? (by omega), htake,
      List.length_drop]
    by_cases hle : pos ≤ j
    · simp only [hle, true_and, ↓reduceIte]
      rw [if_neg (by omega), if_pos (by omega), if_pos (by omega), List.getElem?_take_of_lt (by omega)]
    · simp only [hle, false_and, ↓reduceIte, Nat.zero_le, true_and, Nat.zero_add, Nat.sub_zero]
      by_cases hlt : j < bs.length - (cells.length - pos)
      · rw [if_pos hlt, if_pos (by omega), List.getElem?_drop]
        congr 1
        omega
      · rw [if_neg hlt, if_neg (by omega)]

end Copies

theorem write_window {cells bs : List α} {start n : ℕ} (hs : start < cells.length) (hn : n + bs.length ≤ cells.length) :
    window (write cells ((start + n) % cells.length) bs).1 start (n + bs.length) = window cells start n ++ bs := by
  have hpos : (start + n) % cells.length < cells.length := Nat.mod_lt _ (by omega)
  have hb : bs.length ≤ cells.length := by omega
  have hlen := write_length hpos hb
  have hwrap : (start + n) % cells.length = if start + n < cells.length then start + n else start + n - cells.length :=
    mod_of_lt_twice (by omega)
  apply List.ext_getElem?
  intro i
  by_cases hi : i < n + bs.length
  · have hcell : (start + i) % cells.length = if start + i < cells.length then start + i else start + i - cells.length :=
      mod_of_lt_twice (by omega)
    rw [window_getElem? (by omega) hi, hlen, write_getElem? hpos hb (Nat.mod_lt _ (by omega))]
    by_cases hin : i < n
    · rw [List.getElem?_append_left (by rwa [window_length (by omega)]), window_getElem? (by omega) hin, if_neg]
      rw [hwrap, hcell]
      split_ifs <;> omega
    · rw [List.getElem?_append_right (by rw [window_length (by omega)]; omega), window_length (by omega)]
      have hidx : (if (start + n) % cells.length ≤ (start + i) % cells.length
          then (start + i) % cells.length - (start + n) % cells.length
          else (start + i) % cells.length + cells.length - (start + n) % cells.length) = i - n := by
        rw [hwrap, hcell]
        split_ifs <;> omega
      rw [hidx, if_pos (by omega)]
  · rw [List.getElem?_eq_none (by rw [window_length (by omega)]; omega),
      List.getElem?_eq_none (by rw [List.length_append, window_length (by omega)]; omega)]

theorem read_eq {cells : List α} {pos n : ℕ} (hp : pos < cells.length) (hn : n ≤ cells.length) :
    read cells pos n = (window cells pos n, (pos + n) % cells.length) := by
  have hrot : cells.rotate pos = cells.drop pos ++ cells.take pos := List.rotate_eq_drop_append_take hp.le
  have hlen : (cells.drop pos).length = cells.length - pos := List.length_drop
  rw [read]
  by_cases h : n ≤ cells.length - pos
  · rw [if_pos h, window, hrot, List.take_append_of_le_length (by omega)]
  · have hnext : (pos + (cells.length - pos)) % cells.length = 0 := by
      rw [Nat.add_sub_cancel' hp.le, Nat.mod_self]
    rw [if_neg h]
    dsimp only
    rw [hnext, List.drop_zero, window, hrot, List.take_append, hlen, List.take_of_length_le (by omega),
      List.take_of_length_le (show (cells.drop pos).length ≤ n by omega), List.take_take, min_eq_left (by omega)]
    congr 1
    rw [Nat.zero_add, Nat.mod_eq_of_lt (by omega), mod_of_lt_twice (by omega), if_neg (by omega)]
    omega

end Ring

end Lidis
