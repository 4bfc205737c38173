import Mathlib.Data.List.Basic

namespace Lidis.FileImage

variable {α : Type} (pad : α)

def writeAt (file : List α) (offset : ℕ) (data : List α) : List α :=
  file.take offset ++ (List.replicate (offset - file.length) pad ++ (data ++ file.drop (offset + data.length)))

def writeAll (file : List α) (writes : List (ℕ × List α)) : List α :=
  writes.foldl (fun f w => writeAt pad f w.1 w.2) file

def Consecutive : ℕ → List (ℕ × List α) → Prop
  | _, [] => True
  | offset, w :: ws => w.1 = offset ∧ Consecutive (offset + w.2.length) ws

theorem writeAt_end (file data : List α) : writeAt pad file file.length data = file ++ data := by
  simp [writeAt]

theorem writeAll_consecutive (file : List α) (ws : List (ℕ × List α)) (h : Consecutive file.length ws) :
    writeAll pad file ws = file ++ ws.flatMap Prod.snd := by
  induction ws generalizing file with
  | nil => simp [writeAll]
  | cons w ws ih =>
    obtain ⟨ho, hw⟩ := h
    rw [writeAll, List.foldl_cons, ho, writeAt_end, ← writeAll, ih _ (by rwa [List.length_append])]
    simp

theorem getElem?_padded (file : List α) {offset i : ℕ} (hi : i < offset) :
    (file.take offset ++ List.replicate (offset - file.length) pad)[i]? = (file[i]?).or (some pad) := by
  by_cases hfile : i < file.length
  · rw [List.getElem?_append_left (by simp; omega), List.getElem?_take_of_lt hi, List.getElem?_eq_getElem hfile,
      Option.some_or]
  · have hnone : file[i]? = none := List.getElem?_eq_none (by omega)
    rw [List.getElem?_append_right (by simp; omega), List.getElem?_replicate, if_pos (by simp; omega), hnone,
      Option.none_or]

theorem getElem?_writeAt (file data : List α) (offset i : ℕ) : (writeAt pad file offset data)[i]? =
    if i < offset then (file[i]?).or (some pad) else if i < offset + data.length then data[i - offset]? else file[i]? := by
  have hlen : (file.take offset ++ List.replicate (offset - file.length) pad).length = offset := by
    simp only [List.length_append, List.length_take, List.length_replicate]
    omega
  rw [writeAt, ← List.append_assoc]
  split_ifs with hi hd
  · rw [List.getElem?_append_left (by rwa [hlen]), getElem?_padded pad file hi]
  · rw [List.getElem?_append_right (by omega), hlen, List.getElem?_append_left (by omega)]
  · rw [List.getElem?_append_right (by omega), hlen, List.getElem?_append_right (by omega), List.getElem?_drop]
    congr 1
    omega

theorem writeAt_comm (file : List α) {o₁ o₂ : ℕ} {d₁ d₂ : List α} (h : o₁ + d₁.length ≤ o₂) :
    writeAt pad (writeAt pad file o₁ d₁) o₂ d₂ = writeAt pad (writeAt pad file o₂ d₂) o₁ d₁ := by
  apply List.ext_getElem?
  intro i
  simp only [getElem?_writeAt]
  by_cases h₁ : i < o₁
  · have h₂ : i < o₂ := by omega
    simp [h₁, h₂]
  by_cases hin : i < o₁ + d₁.length
  · have h₂ : i < o₂ := by omega
    have hd : i - o₁ < d₁.length := by omega
    simp [h₁, h₂, hin, hd]
  · simp [h₁, hin]

theorem Consecutive.le_of_mem {offset : ℕ} {ws : List (ℕ × List α)} (h : Consecutive offset ws) :
    ∀ w ∈ ws, offset ≤ w.1 := by
  induction ws generalizing offset with
  | nil => simp
  | cons v ws ih =>
    intro w hw
    rcases List.mem_cons.mp hw with rfl | hw
    · exact Nat.le_of_eq h.1.symm
    · exact Nat.le_trans (Nat.le_add_right _ _) (ih h.2 w hw)

theorem Consecutive.apart {offset : ℕ} {ws : List (ℕ × List α)} (h : Consecutive offset ws) {w v : ℕ × List α}
    (hw : w ∈ ws) (hv : v ∈ ws) (hne : w ≠ v) : w.1 + w.2.length ≤ v.1 ∨ v.1 + v.2.length ≤ w.1 := by
  induction ws generalizing offset with
  | nil => simp at hw
  | cons u ws ih =>
    have hafter : ∀ x ∈ ws, u.1 + u.2.length ≤ x.1 := by
      rw [h.1]
      exact h.2.le_of_mem
    rcases List.mem_cons.mp hw with rfl | hw'
    · rcases List.mem_cons.mp hv with rfl | hv'
      · exact absurd rfl hne
      · exact .inl (hafter v hv')
    · rcases List.mem_cons.mp hv with rfl | hv'
      · exact .inr (hafter w hw')
      · exact ih h.2 hw' hv'

theorem writeAll_perm (file : List α) {offset : ℕ} {ws vs : List (ℕ × List α)} (h : Consecutive offset ws)
    (hperm : vs.Perm ws) : writeAll pad file vs = writeAll pad file ws := by
  symm
  apply hperm.symm.foldl_eq'
  intro w hw v hv f
  by_cases heq : w = v
  · rw [heq]
  rcases h.apart hw hv heq with hle | hle
  · exact writeAt_comm pad f hle
  · exact (writeAt_comm pad f hle).symm

theorem consecutive_append {offset : ℕ} {ws vs : List (ℕ × List α)} (hw : Consecutive offset ws)
    (hv : Consecutive (offset + (ws.flatMap Prod.snd).length) vs) : Consecutive offset (ws ++ vs) := by
  induction ws generalizing offset with
  | nil => simpa using hv
  | cons w ws ih =>
    refine ⟨hw.1, ih hw.2 ?_⟩
    rw [List.flatMap_cons, List.length_append] at hv
    rwa [Nat.add_assoc]

theorem Consecutive.take {offset : ℕ} {ws : List (ℕ × List α)} (h : Consecutive offset ws) (k : ℕ) :
    Consecutive offset (ws.take k) := by
  induction ws generalizing offset k with
  | nil => simpa using h
  | cons w ws ih =>
    cases k with
    | zero => exact trivial
    | succ k => exact ⟨h.1, ih h.2 k⟩

theorem Consecutive.offset_eq {offset k : ℕ} {ws : List (ℕ × List α)} (h : Consecutive offset ws) {w : ℕ × List α}
    (hk : ws[k]? = some w) : w.1 = offset + ((ws.take k).flatMap Prod.snd).length := by
  induction ws generalizing offset k with
  | nil => simp at hk
  | cons v ws ih =>
    cases k with
    | zero =>
      obtain rfl : v = w := by simpa using hk
      simpa using h.1
    | succ k =>
      rw [List.getElem?_cons_succ] at hk
      rw [ih h.2 hk, List.take_succ_cons, List.flatMap_cons, List.length_append, Nat.add_assoc]

end Lidis.FileImage
