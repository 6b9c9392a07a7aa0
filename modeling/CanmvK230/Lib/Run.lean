import Mathlib.Tactic

/-!
# Run — finite runs of a labelled transition relation

`Run R s es t`: from `s`, taking the steps labelled `es` in order, `R` leads to `t`.  The two
induction rules are the ones a safety proof needs: an invariant that each step keeps holds at the
end of a run, and a property of the state *and of the labels seen so far* that each further step
keeps holds after every run.
-/

namespace Lib

universe u v

variable {σ : Type u} {ε : Type v}

/-- The steps labelled `es`, taken in order from `s`, lead to `t`. -/
inductive Run (R : σ → ε → σ → Prop) : σ → List ε → σ → Prop
  | nil (s : σ) : Run R s [] s
  | cons {s t u : σ} {e : ε} {es : List ε} : R s e t → Run R t es u → Run R s (e :: es) u

namespace Run

variable {R : σ → ε → σ → Prop} {s t u : σ} {e : ε} {es es' : List ε}

theorem append (h : Run R s es t) (h' : Run R t es' u) : Run R s (es ++ es') u := by
  induction h with
  | nil s => exact h'
  | cons hstep _ ih => exact Run.cons hstep (ih h')

theorem snoc (h : Run R s es t) (hstep : R t e u) : Run R s (es ++ [e]) u :=
  h.append (Run.cons hstep (Run.nil u))

theorem nil_inv (h : Run R s [] t) : t = s := by
  cases h
  rfl

theorem append_inv (h : Run R s (es ++ es') u) : ∃ t, Run R s es t ∧ Run R t es' u := by
  induction es generalizing s with
  | nil => exact ⟨s, Run.nil s, h⟩
  | cons e es ih =>
      cases h with
      | cons hstep hrest =>
          rcases ih hrest with ⟨t, hpre, hpost⟩
          exact ⟨t, Run.cons hstep hpre, hpost⟩

theorem snoc_inv (h : Run R s (es ++ [e]) u) : ∃ t, Run R s es t ∧ R t e u := by
  rcases h.append_inv with ⟨t, hpre, hpost⟩
  cases hpost with
  | cons hstep hnil =>
      cases hnil
      exact ⟨t, hpre, hstep⟩

/-- Induction on a run from its end, with the labels seen so far at hand. -/
theorem snoc_induction {P : List ε → σ → Prop} (hnil : P [] s)
    (hsnoc : ∀ es t e u, Run R s es t → P es t → R t e u → P (es ++ [e]) u)
    (h : Run R s es t) : P es t := by
  -- a run is built at its front, so the labels carry the induction from the end
  induction es using List.reverseRecOn generalizing t with
  | nil =>
      rw [h.nil_inv]
      exact hnil
  | append_singleton es e ih =>
      rcases h.snoc_inv with ⟨u, hpre, hstep⟩
      exact hsnoc es u e t hpre (ih hpre) hstep

/-- What holds at the start and is kept by every step holds at the end. -/
theorem invariant {I : σ → Prop} (hinit : I s) (hstep : ∀ s e t, I s → R s e t → I t)
    (h : Run R s es t) : I t := by
  induction h with
  | nil s => exact hinit
  | cons hs _ ih => exact ih (hstep _ _ _ hinit hs)

/-- Where a step has one outcome only, a run has one end only. -/
theorem deterministic (hdet : ∀ s e t t', R s e t → R s e t' → t = t') (h : Run R s es t)
    (h' : Run R s es u) : t = u := by
  induction h with
  | nil s => exact h'.nil_inv.symm
  | cons hs _ ih =>
      cases h' with
      | cons hs' hrest =>
          -- both runs are in the same state after the first label
          cases hdet _ _ _ _ hs hs'
          exact ih hrest

end Run

end Lib
