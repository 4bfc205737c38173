import Mathlib.Data.List.Perm.Basic

namespace Lidis.Ledger

variable {α : Type} [DecidableEq α] {live rest bs : List α} {b : α}

/-- Free one block; there is no result if it is not allocated. -/
def release (live : List α) (b : α) : Option (List α) := if b ∈ live then some (live.erase b) else none

def releaseAll : List α → List α → Option (List α)
  | [], live => some live
  | b :: bs, live => do
    let live ← release live b
    releaseAll bs live

theorem releaseAll_perm (h : live.Perm (bs ++ rest)) : ∃ live', releaseAll bs live = some live' ∧ live'.Perm rest := by
  induction bs generalizing live with
  | nil => exact ⟨live, rfl, h⟩
  | cons b bs ih =>
    have hb : b ∈ live := h.mem_iff.mpr List.mem_cons_self
    have hrest : (live.erase b).Perm (bs ++ rest) := by simpa using h.erase b
    obtain ⟨live', hall, hperm⟩ := ih hrest
    refine ⟨live', ?_, hperm⟩
    rw [releaseAll, release, if_pos hb]
    exact hall

theorem releaseAll_sublist {live' : List α} (h : releaseAll bs live = some live') : live'.Sublist live := by
  induction bs generalizing live with
  | nil => exact Option.some.inj h ▸ List.Sublist.refl live
  | cons b bs ih =>
    obtain ⟨mid, hmid, hrest⟩ := Option.bind_eq_some_iff.mp h
    rw [release] at hmid
    split_ifs at hmid
    exact (ih hrest).trans (Option.some.inj hmid ▸ List.erase_sublist)

end Lidis.Ledger
