import Mathlib.GroupTheory.Perm.Basic
import Mathlib.Logic.Equiv.Basic
import Mathlib.Data.List.Perm.Basic
import Mathlib.Tactic

/-!
# ShellSort — passes of insertion over a gap

An array is a function from positions.  A pass over a gap sinks each element, from position `gap` on,
down its own chain `i, i - gap, i - 2 * gap, ...` by exchanging neighbours of the chain.

Whatever the comparison says, a pass only moves the elements of the array around
(`gapPass_rearranged`).  A pass over the gap one sorts, if the comparison is total and transitive
(`gapPass_sorted`); the passes before it only make it faster.

Without transitivity there may be nothing to sort to (`not_pairwise_of_cycle`).
-/

namespace Lib

variable {α : Type}

/-! ## The pass -/

def swapAt (a : ℕ → α) (i j : ℕ) : ℕ → α :=
  fun k => if k = i then a j else if k = j then a i else a k

/-- `do { j -= gap; if (le(a[j], a[j + gap])) break; swap } while (j >= gap)` -/
def sink (le : α → α → Bool) (gap : ℕ) : ℕ → ℕ → (ℕ → α) → ℕ → α
  | 0, _, a => a
  | fuel + 1, j, a =>
      if le (a (j - gap)) (a (j - gap + gap)) = true then
        a
      else if gap ≤ j - gap then
        sink le gap fuel (j - gap) (swapAt a (j - gap) (j - gap + gap))
      else
        swapAt a (j - gap) (j - gap + gap)

/-- `count` elements are sunk, from position `i` on. -/
def gapPass (le : α → α → Bool) (gap : ℕ) : ℕ → ℕ → (ℕ → α) → ℕ → α
  | 0, _, a => a
  | count + 1, i, a => gapPass le gap count (i + 1) (sink le gap i i a)

/-! ## Elements are only moved around -/

/-- The first `n` elements of `b` are those of `a` in some order, and the rest is the same. -/
def Rearranged (n : ℕ) (a b : ℕ → α) : Prop :=
  ∃ σ : Equiv.Perm ℕ, (∀ k, n ≤ k → σ k = k) ∧ b = a ∘ σ

namespace Rearranged

variable {n : ℕ} {a b c : ℕ → α}

theorem refl (n : ℕ) (a : ℕ → α) : Rearranged n a a :=
  ⟨1, fun _ _ => rfl, rfl⟩

theorem trans (h : Rearranged n a b) (h' : Rearranged n b c) : Rearranged n a c := by
  rcases h with ⟨σ, hσ, rfl⟩
  rcases h' with ⟨τ, hτ, rfl⟩
  refine ⟨σ * τ, ?_, rfl⟩
  intro k hk
  rw [Equiv.Perm.mul_apply, hτ k hk, hσ k hk]

theorem swapAt {i j : ℕ} (hi : i < n) (hj : j < n) : Rearranged n a (Lib.swapAt a i j) := by
  refine ⟨Equiv.swap i j, ?_, ?_⟩
  · intro k hk
    exact Equiv.swap_apply_of_ne_of_ne (by omega) (by omega)
  · funext k
    unfold Lib.swapAt
    rw [Function.comp_apply, Equiv.swap_apply_def]
    split
    · rfl
    · split <;> rfl

/-- As lists, the arrays are permutations of each other. -/
theorem perm (h : Rearranged n a b) : ((List.range n).map b).Perm ((List.range n).map a) := by
  rcases h with ⟨σ, hσ, rfl⟩
  have hlt : ∀ k, k < n ↔ σ k < n := by
    intro k
    constructor
    · intro hk
      by_contra hge
      have hfix := hσ (σ k) (by omega)
      have := σ.injective hfix
      omega
    · intro hk
      by_contra hge
      rw [hσ k (by omega)] at hk
      omega
  have hσperm : ((List.range n).map σ).Perm (List.range n) := by
    rw [List.perm_ext_iff_of_nodup (List.nodup_range.map σ.injective) List.nodup_range]
    intro k
    rw [List.mem_map, List.mem_range]
    constructor
    · rintro ⟨m, hm, rfl⟩
      exact (hlt m).1 (List.mem_range.1 hm)
    · intro hk
      refine ⟨σ.symm k, ?_, σ.apply_symm_apply k⟩
      rw [List.mem_range, hlt, σ.apply_symm_apply]
      exact hk
  have := hσperm.map a
  rw [List.map_map] at this
  exact this

end Rearranged

section Pass

variable (le : α → α → Bool) {gap n : ℕ}

theorem sink_rearranged :
    ∀ (fuel j : ℕ) (a : ℕ → α), gap ≤ j → j < n → Rearranged n a (sink le gap fuel j a) := by
  intro fuel
  induction fuel with
  | zero =>
      intro j a _ _
      exact Rearranged.refl n a
  | succ fuel ih =>
      intro j a hgap hj
      have hsub : j - gap + gap = j := Nat.sub_add_cancel hgap
      have hswap : Rearranged n a (swapAt a (j - gap) (j - gap + gap)) :=
        Rearranged.swapAt (by omega) (by omega)
      rw [sink]
      split
      · exact Rearranged.refl n a
      · split
        · rename_i hmore
          exact hswap.trans (ih (j - gap) _ hmore (by omega))
        · exact hswap

theorem gapPass_rearranged :
    ∀ (count i : ℕ) (a : ℕ → α), gap ≤ i → i + count ≤ n →
      Rearranged n a (gapPass le gap count i a) := by
  intro count
  induction count with
  | zero =>
      intro i a _ _
      exact Rearranged.refl n a
  | succ count ih =>
      intro i a hgap hn
      rw [gapPass]
      exact (sink_rearranged le i i a hgap (by omega)).trans (ih (i + 1) _ (by omega) (by omega))

end Pass

/-! ## The last pass sorts -/

/-- The first `n` elements are in order. -/
def SortedTo (le : α → α → Bool) (n : ℕ) (a : ℕ → α) : Prop :=
  ∀ p q, p < q → q < n → le (a p) (a q) = true

/-- The first `i + 1` elements are in order but for the one at `j`, which is not behind its place. -/
structure Sinking (le : α → α → Bool) (i j : ℕ) (a : ℕ → α) : Prop where
  others : ∀ p q, p < q → q ≤ i → p ≠ j → q ≠ j → le (a p) (a q) = true
  above : ∀ q, j < q → q ≤ i → le (a j) (a q) = true

theorem swapAt_mem {S : α → Prop} {a : ℕ → α} (hS : ∀ k, S (a k)) (i j k : ℕ) :
    S (swapAt a i j k) := by
  unfold swapAt
  split
  · exact hS j
  · split
    · exact hS i
    · exact hS k

theorem sink_mem {S : α → Prop} (le : α → α → Bool) (gap : ℕ) :
    ∀ (fuel j : ℕ) (a : ℕ → α), (∀ k, S (a k)) → ∀ k, S (sink le gap fuel j a k) := by
  intro fuel
  induction fuel with
  | zero =>
      intro j a hS
      exact hS
  | succ fuel ih =>
      intro j a hS
      rw [sink]
      split
      · exact hS
      · split
        · exact ih _ _ (swapAt_mem hS _ _)
        · exact swapAt_mem hS _ _

theorem gapPass_mem {S : α → Prop} (le : α → α → Bool) (gap : ℕ) :
    ∀ (count i : ℕ) (a : ℕ → α), (∀ k, S (a k)) → ∀ k, S (gapPass le gap count i a k) := by
  intro count
  induction count with
  | zero =>
      intro i a hS
      exact hS
  | succ count ih =>
      intro i a hS
      rw [gapPass]
      exact ih _ _ (sink_mem le gap i i a hS)

section Sorted

-- the comparison has to be an order on the elements there are, not on all
variable {S : α → Prop} {le : α → α → Bool}
  (htotal : ∀ x y, S x → S y → le x y = true ∨ le y x = true)
include htotal

/-- The element in the way and the one that sinks change places. -/
theorem Sinking.swap {i j : ℕ} {a : ℕ → α} (hS : ∀ k, S (a k)) (h : Sinking le i (j + 1) a)
    (hle : ¬ le (a j) (a (j + 1)) = true) : Sinking le i j (swapAt a j (j + 1)) := by
  have hsj : swapAt a j (j + 1) j = a (j + 1) := by
    simp only [swapAt, if_true]
  have hsj1 : swapAt a j (j + 1) (j + 1) = a j := by
    simp only [swapAt, Nat.add_one_ne_self, if_false, if_true]
  have hs : ∀ k, k ≠ j → k ≠ j + 1 → swapAt a j (j + 1) k = a k := by
    intro k hk hk1
    simp only [swapAt, hk, hk1, if_false]
  have hback : le (a (j + 1)) (a j) = true := (htotal _ _ (hS _) (hS _)).resolve_left hle
  refine ⟨?_, ?_⟩
  · intro p q hpq hq hpj hqj
    by_cases hp1 : p = j + 1
    · rw [hp1, hsj1, hs q hqj (by omega)]
      exact h.others j q (by omega) hq (by omega) (by omega)
    · rw [hs p hpj hp1]
      by_cases hq1 : q = j + 1
      · rw [hq1, hsj1]
        exact h.others p j (by omega) (by omega) hp1 (by omega)
      · rw [hs q hqj hq1]
        exact h.others p q hpq hq hp1 hq1
  · intro q hjq hq
    rw [hsj]
    by_cases hq1 : q = j + 1
    · rw [hq1, hsj1]
      exact hback
    · rw [hs q (by omega) hq1]
      exact h.above q (by omega) hq

variable (htrans : ∀ x y z, S x → S y → S z → le x y = true → le y z = true → le x z = true)
include htrans

theorem sink_sorted {i : ℕ} :
    ∀ (fuel j : ℕ) (a : ℕ → α), (∀ k, S (a k)) → 1 ≤ j → j ≤ i → j ≤ fuel → Sinking le i j a →
      SortedTo le (i + 1) (sink le 1 fuel j a) := by
  intro fuel
  induction fuel with
  | zero =>
      intro j a _ h1 _ hfuel _
      omega
  | succ fuel ih =>
      intro j a hS h1 hi hfuel h
      rcases Nat.exists_eq_add_of_le' h1 with ⟨m, rfl⟩
      have hm : m + 1 - 1 = m := Nat.add_sub_cancel m 1
      rw [sink, hm]
      by_cases hle : le (a m) (a (m + 1)) = true
      · -- it is at its place: what is below it is below the element before it
        rw [if_pos hle]
        intro p q hpq hq
        by_cases hp : p = m + 1
        · rw [hp]
          exact h.above q (by omega) (by omega)
        · by_cases hq1 : q = m + 1
          · rw [hq1]
            by_cases hpm : p = m
            · rw [hpm]
              exact hle
            · have hpm' := h.others p m (by omega) (by omega) hp (by omega)
              exact htrans _ _ _ (hS _) (hS _) (hS _) hpm' hle
          · exact h.others p q hpq (by omega) hp hq1
      · rw [if_neg hle]
        have hswap := h.swap htotal hS hle
        split
        · rename_i hmore
          exact ih m _ (swapAt_mem hS _ _) hmore (by omega) (by omega) hswap
        · rename_i hend
          have hm0 : m = 0 := by omega
          subst hm0
          intro p q hpq hq
          by_cases hp : p = 0
          · rw [hp]
            exact hswap.above q (by omega) (by omega)
          · exact hswap.others p q hpq (by omega) hp (by omega)

theorem gapPass_sorted :
    ∀ (count i : ℕ) (a : ℕ → α), (∀ k, S (a k)) → 1 ≤ i → SortedTo le i a →
      SortedTo le (i + count) (gapPass le 1 count i a) := by
  intro count
  induction count with
  | zero =>
      intro i a _ _ h
      exact h
  | succ count ih =>
      intro i a hS h1 h
      rw [gapPass, Nat.add_succ, ← Nat.succ_add]
      apply ih (i + 1) _ (sink_mem le 1 i i a hS) (by omega)
      apply sink_sorted htotal htrans i i a hS h1 (le_refl i) (le_refl i)
      refine ⟨?_, ?_⟩
      · intro p q hpq hq hp hqi
        exact h p q hpq (by omega)
      · intro q hiq hq
        omega

end Sorted

/-- Three elements of which none may stand behind the next, nor the third behind the first, are in no
list in order. -/
theorem not_pairwise_of_cycle {le : α → α → Bool} {list : List α} {x y z : α} (hx : x ∈ list)
    (hy : y ∈ list) (hz : z ∈ list) (hyx : le y x = false) (hzy : le z y = false)
    (hxz : le x z = false) (hrefl : ∀ a, le a a = true) :
    ¬ list.Pairwise (fun a b => le a b = true) := by
  intro hsorted
  rw [List.pairwise_iff_getElem] at hsorted
  -- an element that may not stand in front of another stands behind it
  have hlt : ∀ i j (hi : i < list.length) (hj : j < list.length),
      le list[j] list[i] = false → i < j := by
    intro i j hi hj hle
    by_contra hnot
    rcases Nat.eq_or_lt_of_le (not_lt.1 hnot) with heq | hji
    · subst heq
      rw [hrefl] at hle
      cases hle
    · rw [hsorted j i hj hi hji] at hle
      cases hle
  rcases List.getElem_of_mem hx with ⟨i, hi, rfl⟩
  rcases List.getElem_of_mem hy with ⟨j, hj, rfl⟩
  rcases List.getElem_of_mem hz with ⟨k, hk, rfl⟩
  have hij := hlt i j hi hj hyx
  have hjk := hlt j k hj hk hzy
  have hki := hlt k i hk hi hxz
  omega

end Lib
