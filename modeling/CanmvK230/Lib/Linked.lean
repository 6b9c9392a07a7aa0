import Mathlib.Tactic

/-!
# Linked — chains of nodes in memory

Nodes that name the address of the next one, up to a null address. `Linked` is the walk from an
address to the end. The usual way to build such a chain is an array whose entries point to their
successors (`linked_of_array`).
-/

namespace Lib

variable {A N : Type}

/-- Following `next` from an address visits these nodes, each at its address, and ends at `null`. -/
inductive Linked (null : A) (node : A → Option N) (next : N → A) : A → List (A × N) → Prop
  | nil : Linked null node next null []
  | cons {a : A} {n : N} {rest : List (A × N)} (hne : a ≠ null) (hnode : node a = some n)
      (htail : Linked null node next (next n) rest) : Linked null node next a ((a, n) :: rest)

/-- An array of `n` nodes at the addresses `addr i`, each but the last pointing to its successor and
the last to `null`, is a chain through all of them in order. -/
theorem linked_of_array {null : A} {node : A → Option N} {next : N → A} {n : Nat} (addr : Nat → A)
    (entry : Nat → N) (hne : ∀ i, i < n → addr i ≠ null)
    (hnode : ∀ i, i < n → node (addr i) = some (entry i))
    (hnext : ∀ i, i + 1 < n → next (entry i) = addr (i + 1))
    (hlast : ∀ i, i + 1 = n → next (entry i) = null) {i : Nat} (hi : i < n) :
    Linked null node next (addr i) ((List.range' i (n - i)).map fun j => (addr j, entry j)) := by
  -- on the number of nodes behind `i`
  induction hd : n - i generalizing i with
  | zero => omega
  | succ d ih =>
      rw [List.range'_succ, List.map_cons]
      refine .cons (hne i hi) (hnode i hi) ?_
      by_cases hmore : i + 1 < n
      · rw [hnext i hmore]
        have hrest : n - (i + 1) = d := by omega
        simpa only [hrest] using ih hmore hrest
      · have hzero : d = 0 := by omega
        rw [hlast i (by omega), hzero]
        exact .nil

end Lib
