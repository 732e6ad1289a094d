import Mathlib.Data.List.Basic

/-! Regions of consecutive numbers that follow one another without a gap. -/

structure Region where
  start : Nat
  length : Nat
deriving DecidableEq

namespace Region

/-- The region ends at or before the start of the other. -/
def Before (r s : Region) : Prop := r.start + r.length ≤ s.start

/-- From `start` to `stop`, each region starts where the one before it ends. -/
def Tile : Nat → Nat → List Region → Prop
  | start, stop, [] => start = stop
  | start, stop, r :: rs => r.start = start ∧ Tile (r.start + r.length) stop rs

variable {start stop : Nat} {rs : List Region}

theorem Tile.start_le_stop (h : Tile start stop rs) : start ≤ stop := by
  induction rs generalizing start with
  | nil => exact Nat.le_of_eq h
  | cons r rs ih => exact h.1 ▸ Nat.le_trans (Nat.le_add_right _ _) (ih h.2)

theorem Tile.inside (h : Tile start stop rs) :
    ∀ r ∈ rs, start ≤ r.start ∧ r.start + r.length ≤ stop := by
  induction rs generalizing start with
  | nil => exact fun _ hr => (List.not_mem_nil hr).elim
  | cons r rs ih =>
    obtain ⟨rfl, hrest⟩ := h
    intro s hs
    rcases List.mem_cons.mp hs with rfl | hs
    · exact ⟨Nat.le_refl _, hrest.start_le_stop⟩
    · obtain ⟨hlow, hhigh⟩ := ih hrest s hs
      exact ⟨Nat.le_trans (Nat.le_add_right _ _) hlow, hhigh⟩

theorem Tile.pairwise (h : Tile start stop rs) : rs.Pairwise Before := by
  induction rs generalizing start with
  | nil => exact List.Pairwise.nil
  | cons r rs ih => exact List.pairwise_cons.mpr ⟨fun s hs => (h.2.inside s hs).1, ih h.2⟩

end Region
