import Mathlib.Tactic

/-!
# Radix — numbers with a base for each place

A number as its digits, the lowest first. Each place but the last has a base of its own; the last digit
is as large as the number makes it.

The digits of a number and the number of some digits are inverse to each other (`value_digits`,
`digits_value`). Going to the next digits with carries adds one (`value_next`), and comparing digits from
the highest place down compares the numbers (`cmp_eq`).
-/

namespace Lib
namespace Radix

/-- The digits of a number. -/
def digits : List Nat → Nat → List Nat
  | [], n => [n]
  | b :: bases, n => n % b :: digits bases (n / b)

/-- The number that has these digits. -/
def value : List Nat → List Nat → Nat
  | [], ds => ds.headD 0
  | _ :: _, [] => 0
  | b :: bases, d :: ds => d + b * value bases ds

/-- A digit for each place, below its base, and a last one. -/
inductive Valid : List Nat → List Nat → Prop
  | last (d : Nat) : Valid [] [d]
  | cons {b d : Nat} {bases ds : List Nat} : d < b → Valid bases ds → Valid (b :: bases) (d :: ds)

/-- One more, with carries. -/
def next : List Nat → List Nat → List Nat
  | [], ds => [ds.headD 0 + 1]
  | _ :: _, [] => []
  | b :: bases, d :: ds => if b ≤ d + 1 then 0 :: next bases ds else (d + 1) :: ds

/-- The order of the digits, from the highest place down. -/
def cmp : List Nat → List Nat → Ordering
  | d :: ds, e :: es => (cmp ds es).then (compare d e)
  | _, _ => .eq

variable {bases ds es : List Nat} {n : Nat}

theorem value_digits (bases : List Nat) (n : Nat) : value bases (digits bases n) = n := by
  induction bases generalizing n with
  | nil => rfl
  | cons b bases ih =>
      rw [digits, value, ih]
      exact Nat.mod_add_div n b

theorem digits_value (h : Valid bases ds) : digits bases (value bases ds) = ds := by
  induction h with
  | last d => rfl
  | @cons b d bases ds hd _ ih =>
      have hpos : 0 < b := Nat.zero_lt_of_lt hd
      rw [value, digits, Nat.add_mul_mod_self_left, Nat.mod_eq_of_lt hd,
        Nat.add_mul_div_left _ _ hpos, Nat.div_eq_of_lt hd, Nat.zero_add, ih]

theorem value_inj (h : Valid bases ds) (h' : Valid bases es)
    (heq : value bases ds = value bases es) : ds = es := by
  rw [← digits_value h, ← digits_value h', heq]

/-! ## Counting -/

theorem value_next (h : Valid bases ds) : value bases (next bases ds) = value bases ds + 1 := by
  induction h with
  | last d => rfl
  | @cons b d bases ds hd _ ih =>
      rw [next]
      split
      · rename_i hcarry
        have hb : b = d + 1 := by omega
        rw [value, value, ih, hb]
        ring
      · rw [value, value]
        omega

/-! ## Comparing -/

/-- Of two numbers in a base the higher place decides, and then the lower one. -/
theorem compare_add_mul {b d e x y : Nat} (hd : d < b) (he : e < b) :
    compare (d + b * x) (e + b * y) = (compare x y).then (compare d e) := by
  rcases lt_trichotomy x y with hlt | rfl | hgt
  · have hstep : b * x + b ≤ b * y := by
      calc b * x + b = b * (x + 1) := by ring
        _ ≤ b * y := Nat.mul_le_mul_left b hlt
    rw [Nat.compare_eq_lt.2 hlt, Nat.compare_eq_lt.2 (by omega)]
    rfl
  · rw [Nat.compare_eq_eq.2 rfl]
    rcases lt_trichotomy d e with h | rfl | h
    · rw [Nat.compare_eq_lt.2 h, Nat.compare_eq_lt.2 (by omega)]
      rfl
    · rw [Nat.compare_eq_eq.2 rfl, Nat.compare_eq_eq.2 rfl]
      rfl
    · rw [Nat.compare_eq_gt.2 h, Nat.compare_eq_gt.2 (by omega)]
      rfl
  · have hstep : b * y + b ≤ b * x := by
      calc b * y + b = b * (y + 1) := by ring
        _ ≤ b * x := Nat.mul_le_mul_left b hgt
    rw [Nat.compare_eq_gt.2 hgt, Nat.compare_eq_gt.2 (by omega)]
    rfl

theorem cmp_eq (h : Valid bases ds) (h' : Valid bases es) :
    cmp ds es = compare (value bases ds) (value bases es) := by
  induction h generalizing es with
  | last d =>
      cases h' with
      | last e => rfl
  | cons hd _ ih =>
      cases h' with
      | cons he hrest =>
          rw [cmp, value, value, compare_add_mul hd he, ih hrest]

end Radix
end Lib
