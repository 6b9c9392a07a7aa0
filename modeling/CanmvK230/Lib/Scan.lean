import Mathlib.Tactic

/-!
# Scan — loops that test behind the body

`do { if (!ok(p)) return false; } while (more(p), p = next(p)); return true;`: the search for an element
that is not as it should be, with the test for the end behind the element. Such a loop looks at one
element more than its test lets through, whatever `more` says of the first one (`scan_decides`).

What such a run is good for is `Decides`: it comes to an end, with the answer to a question. Runs that
decide are compared by their questions (`Decides.eq_iff`).
-/

namespace Lib

/-! ## Runs that answer a question -/

/-- The run ends, and tells whether `P`. -/
def Decides (o : Option Bool) (P : Prop) : Prop :=
  ∃ b, o = some b ∧ (b = true ↔ P)

namespace Decides

variable {o o' : Option Bool} {P P' : Prop}

theorem iff (h : Decides o P) (hiff : P ↔ P') : Decides o P' := by
  rcases h with ⟨b, ho, hb⟩
  exact ⟨b, ho, hb.trans hiff⟩

theorem returns (h : Decides o P) : ∃ b, o = some b := by
  rcases h with ⟨b, ho, _⟩
  exact ⟨b, ho⟩

theorem eq_true_iff (h : Decides o P) : o = some true ↔ P := by
  rcases h with ⟨b, rfl, hb⟩
  rw [Option.some.injEq, hb]

theorem eq_false_iff (h : Decides o P) : o = some false ↔ ¬ P := by
  rcases h with ⟨b, rfl, hb⟩
  rw [Option.some.injEq, ← hb, Bool.not_eq_true]

/-- Two runs answer the same exactly when their questions have the same answer. -/
theorem eq_iff (h : Decides o P) (h' : Decides o' P') : o = o' ↔ (P ↔ P') := by
  rcases h with ⟨b, rfl, hb⟩
  rcases h' with ⟨b', rfl, hb'⟩
  rw [Option.some.injEq, ← hb, ← hb', Bool.eq_iff_iff]

end Decides

/-! ## The loop -/

variable {A : Type}

/-- The loop from `p`, for a number of rounds. -/
def scan (ok more : A → Bool) (next : A → A) : Nat → A → Option Bool
  | 0, _ => none
  | fuel + 1, p =>
      if ok p = false then
        some false
      else if more p = true then
        scan ok more next fuel (next p)
      else
        some true

/-- When the test fails for the first time at element `n`, the loop has looked at the elements up to
and with that one. -/
theorem scan_decides (ok more : A → Bool) (next : A → A) (n : Nat) :
    ∀ (fuel : Nat) (p : A), (∀ i < n, more (next^[i] p) = true) → more (next^[n] p) = false →
      n < fuel → Decides (scan ok more next fuel p) (∀ i ≤ n, ok (next^[i] p) = true) := by
  induction n with
  | zero =>
      intro fuel p _ hlast hfuel
      rcases Nat.exists_eq_succ_of_ne_zero (Nat.pos_iff_ne_zero.1 hfuel) with ⟨fuel, rfl⟩
      refine ⟨ok p, ?_, ?_⟩
      · have hend : more p = false := hlast
        cases hok : ok p with
        | false => simp only [scan, hok, if_true]
        | true => simp only [scan, hok, hend, Bool.true_eq_false, Bool.false_eq_true, if_false]
      · constructor
        · intro h i hi
          rw [Nat.le_zero.1 hi]
          exact h
        · intro h
          exact h 0 le_rfl
  | succ n ih =>
      intro fuel p hmore hlast hfuel
      rcases Nat.exists_eq_succ_of_ne_zero (Nat.pos_iff_ne_zero.1 (Nat.zero_lt_of_lt hfuel)) with
        ⟨fuel, rfl⟩
      have hfirst : more p = true := hmore 0 (Nat.succ_pos n)
      cases hok : ok p with
      | false =>
          refine ⟨false, by simp only [scan, hok, if_true], ?_⟩
          constructor
          · intro h
            cases h
          · intro h
            have hzero : ok p = true := h 0 (Nat.zero_le _)
            rw [hok] at hzero
            cases hzero
      | true =>
          -- the rest of the loop starts at the next element
          have hrest := ih fuel (next p) (fun i hi => hmore (i + 1) (Nat.succ_lt_succ hi)) hlast
            (Nat.lt_of_succ_lt_succ hfuel)
          have hrun : scan ok more next (fuel + 1) p = scan ok more next fuel (next p) := by
            simp only [scan, hok, hfirst, Bool.true_eq_false, if_false, if_true]
          rw [hrun]
          refine hrest.iff ?_
          constructor
          · intro h i hi
            cases i with
            | zero => exact hok
            | succ i => exact h i (Nat.le_of_succ_le_succ hi)
          · intro h i hi
            exact h (i + 1) (Nat.succ_le_succ hi)

end Lib
