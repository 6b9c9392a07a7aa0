import Mathlib

/-!
# Extent — ranges of addresses

The `n` addresses from `a`, as a set. Two facts decide every question about windows and overlaps by
arithmetic: when an extent lies in an interval (`extent_subset_iff`), and when two extents have no
address in common (`disjoint_extent_iff`). An empty extent lies everywhere and meets nothing.
-/

namespace Lib

/-- The `n` addresses from `a`. -/
def extent (a n : Nat) : Set Nat := Set.Ico a (a + n)

@[simp] theorem mem_extent {a n x : Nat} : x ∈ extent a n ↔ a ≤ x ∧ x < a + n := Iff.rfl

@[simp] theorem extent_zero (a : Nat) : extent a 0 = ∅ := Set.Ico_self a

theorem extent_subset_iff {a n lo hi : Nat} :
    extent a n ⊆ Set.Ico lo hi ↔ n = 0 ∨ lo ≤ a ∧ a + n ≤ hi := by
  rcases Nat.eq_zero_or_pos n with rfl | hpos
  · simp
  · rw [extent, Set.Ico_subset_Ico_iff (Nat.lt_add_of_pos_right hpos)]
    simp [hpos.ne']

/-- Two ranges from a common start. -/
theorem extent_subset_extent_iff {a n k : Nat} : extent a n ⊆ extent a k ↔ n ≤ k := by
  have h : extent a n ⊆ extent a k ↔ n = 0 ∨ a ≤ a ∧ a + n ≤ a + k := extent_subset_iff
  rw [h]
  omega

theorem disjoint_extent_iff {a n b k : Nat} :
    Disjoint (extent a n) (extent b k) ↔ n = 0 ∨ k = 0 ∨ a + n ≤ b ∨ b + k ≤ a := by
  rw [extent, extent, Set.Ico_disjoint_Ico]
  omega

end Lib
