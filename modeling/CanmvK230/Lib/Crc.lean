import Mathlib.Logic.Function.Iterate
import Mathlib.Tactic

/-!
# Crc — cyclic redundancy checks over a register of any width

The register shifts right, and its polynomial comes in where a bit falls out (`crcStep`).  A symbol of
`s` bits is added to the low end and shifted out (`crcSymbol`); it may be a bit, a byte or a word.

* The step is linear, so as many symbols as the register holds may be added at once (`foldl_crcSymbol`)
  and a table of the low part of the register gives the whole shift (`crcStep_iterate_split`).
* If the polynomial has its highest bit set nothing is lost in a step, and messages that differ only
  within the width of the register have different checks (`crc_burst`).
-/

namespace Lib

variable {w : ℕ}

def crcStep (poly c : BitVec w) : BitVec w :=
  if c.getLsbD 0 = true then poly ^^^ (c >>> 1) else c >>> 1

/-- A symbol is added to the low end of the register and shifted out. -/
def crcSymbol {s : ℕ} (poly c : BitVec w) (x : BitVec s) : BitVec w :=
  (crcStep poly)^[s] (c ^^^ x.setWidth w)

/-! ## The step is linear -/

theorem xor_xor_cancel (p a b : BitVec w) : (p ^^^ a) ^^^ (p ^^^ b) = a ^^^ b := by
  rw [BitVec.xor_comm p a, BitVec.xor_assoc, ← BitVec.xor_assoc p p b, BitVec.xor_self,
    BitVec.zero_xor]

theorem crcStep_xor (poly a b : BitVec w) :
    crcStep poly (a ^^^ b) = crcStep poly a ^^^ crcStep poly b := by
  unfold crcStep
  simp only [BitVec.getLsbD_xor, BitVec.ushiftRight_xor_distrib]
  cases a.getLsbD 0 with
  | false =>
      cases b.getLsbD 0 with
      | false => rfl
      | true =>
          simp only [Bool.false_xor, if_true, Bool.false_eq_true, if_false]
          rw [← BitVec.xor_assoc, BitVec.xor_comm poly, BitVec.xor_assoc]
  | true =>
      cases b.getLsbD 0 with
      | false =>
          simp only [Bool.xor_false, if_true, Bool.false_eq_true, if_false]
          rw [BitVec.xor_assoc]
      | true =>
          simp only [Bool.xor_self, Bool.false_eq_true, if_false, if_true]
          rw [xor_xor_cancel]

theorem crcStep_iterate_xor (poly : BitVec w) (n : ℕ) (a b : BitVec w) :
    (crcStep poly)^[n] (a ^^^ b) = (crcStep poly)^[n] a ^^^ (crcStep poly)^[n] b := by
  induction n generalizing a b with
  | zero => rfl
  | succ n ih => rw [Function.iterate_succ_apply, crcStep_xor, ih]; rfl

/-- Clear bits are only shifted out. -/
theorem crcStep_iterate_clear (poly : BitVec w) (n : ℕ) {y : BitVec w}
    (hclear : ∀ i < n, y.getLsbD i = false) : (crcStep poly)^[n] y = y >>> n := by
  induction n with
  | zero => simp
  | succ n ih =>
      have hn := ih (fun i hi => hclear i (by omega))
      have hlow : (y >>> n).getLsbD 0 = false := by
        rw [BitVec.getLsbD_ushiftRight, Nat.add_zero]
        exact hclear n (Nat.lt_succ_self n)
      rw [Function.iterate_succ_apply', hn, crcStep, hlow, if_neg (by decide),
        BitVec.shiftRight_add]

/-- The low `s` bits of a register. -/
def lowPart (s : ℕ) (c : BitVec w) : BitVec w :=
  (c.setWidth s).setWidth w

theorem getLsbD_lowPart (s : ℕ) (c : BitVec w) (i : ℕ) :
    (lowPart s c).getLsbD i = (decide (i < s) && c.getLsbD i) := by
  rw [lowPart, BitVec.getLsbD_setWidth, BitVec.getLsbD_setWidth]
  by_cases hi : i < w
  · simp only [hi, decide_true, Bool.true_and]
  · simp only [hi, decide_false, BitVec.getLsbD_of_ge c i (by omega), Bool.and_false]

/-- A shift by `s` needs the low `s` bits only, and moves the others down. -/
theorem crcStep_iterate_split (poly : BitVec w) (s : ℕ) (c : BitVec w) :
    (crcStep poly)^[s] c = (crcStep poly)^[s] (lowPart s c) ^^^ (c >>> s) := by
  have hsplit : c = lowPart s c ^^^ (c ^^^ lowPart s c) := by
    rw [BitVec.xor_comm c, ← BitVec.xor_assoc, BitVec.xor_self, BitVec.zero_xor]
  have hclear : ∀ i < s, (c ^^^ lowPart s c).getLsbD i = false := by
    intro i hi
    rw [BitVec.getLsbD_xor, getLsbD_lowPart, decide_eq_true hi, Bool.true_and, Bool.xor_self]
  have hlow : lowPart s c >>> s = 0#w := by
    apply BitVec.eq_of_getLsbD_eq
    intro i _
    rw [BitVec.getLsbD_ushiftRight, getLsbD_lowPart]
    simp
  conv_lhs => rw [hsplit]
  rw [crcStep_iterate_xor, crcStep_iterate_clear poly s hclear, BitVec.ushiftRight_xor_distrib,
    hlow, BitVec.xor_zero]

/-! ## Many symbols at once -/

/-- Symbols side by side, the first at the low end. -/
def packSymbols {s : ℕ} (w : ℕ) : List (BitVec s) → BitVec w
  | [] => 0
  | x :: xs => x.setWidth w ^^^ (packSymbols w xs <<< s)

theorem packSymbols_above {s : ℕ} (xs : List (BitVec s)) {i : ℕ} (hi : s * xs.length ≤ i) :
    (packSymbols w xs).getLsbD i = false := by
  induction xs generalizing i with
  | nil => simp [packSymbols]
  | cons x xs ih =>
      rw [List.length_cons, Nat.mul_succ] at hi
      rw [packSymbols, BitVec.getLsbD_xor, BitVec.getLsbD_setWidth, BitVec.getLsbD_shiftLeft,
        BitVec.getLsbD_of_ge x i (by omega), ih (by omega)]
      simp

theorem shiftLeft_shiftRight {s : ℕ} {p : BitVec w} (hp : ∀ i, w ≤ i + s → p.getLsbD i = false) :
    (p <<< s) >>> s = p := by
  apply BitVec.eq_of_getLsbD_eq
  intro i _
  rw [BitVec.getLsbD_ushiftRight, BitVec.getLsbD_shiftLeft]
  by_cases hi : s + i < w
  · simp [hi]
  · rw [hp i (by omega)]
    simp [hi]

/-- As many symbols as the register holds may be added first and shifted out together. -/
theorem foldl_crcSymbol {s : ℕ} (poly : BitVec w) (xs : List (BitVec s)) (c : BitVec w)
    (hw : s * xs.length ≤ w) :
    xs.foldl (crcSymbol poly) c = (crcStep poly)^[s * xs.length] (c ^^^ packSymbols w xs) := by
  induction xs generalizing c with
  | nil => simp [packSymbols]
  | cons x xs ih =>
      rw [List.length_cons, Nat.mul_succ] at hw
      have hback : (crcStep poly)^[s] (packSymbols w xs <<< s) = packSymbols w xs := by
        rw [crcStep_iterate_clear, shiftLeft_shiftRight]
        · intro i hi
          exact packSymbols_above xs (by omega)
        · intro i hi
          rw [BitVec.getLsbD_shiftLeft]
          simp [hi]
      rw [List.foldl_cons, ih _ (by omega), List.length_cons, Nat.mul_succ, Function.iterate_add_apply,
        packSymbols, ← BitVec.xor_assoc, crcStep_iterate_xor poly s, hback, crcSymbol]

/-! ## What a check tells apart -/

section Injective

variable {poly : BitVec w} (hmsb : poly.msb = true)
include hmsb

theorem crcStep_injective : Function.Injective (crcStep poly) := by
  intro a b h
  have hpos : 0 < w := by
    rcases Nat.eq_zero_or_pos w with rfl | hpos
    · simp [BitVec.msb, BitVec.getMsbD] at hmsb
    · exact hpos
  have hmsb' : poly.getLsbD (w - 1) = true := by
    rw [← BitVec.msb_eq_getLsbD_last]
    exact hmsb
  -- the bit that has fallen out is the highest one now
  have htop : ∀ c : BitVec w, (crcStep poly c).getLsbD (w - 1) = c.getLsbD 0 := by
    intro c
    have hshift : (c >>> 1).getLsbD (w - 1) = false := by
      rw [BitVec.getLsbD_ushiftRight]
      exact BitVec.getLsbD_of_ge c _ (by omega)
    unfold crcStep
    split
    · rename_i hbit
      rw [BitVec.getLsbD_xor, hmsb', hshift, hbit]
      rfl
    · rename_i hbit
      rw [hshift, Bool.eq_false_iff.2 hbit]
  have hlow : a.getLsbD 0 = b.getLsbD 0 := by
    rw [← htop a, ← htop b, h]
  have hhigh : a >>> 1 = b >>> 1 := by
    unfold crcStep at h
    rw [hlow] at h
    split at h
    · have h' := congrArg (poly ^^^ ·) h
      simp only [← BitVec.xor_assoc, BitVec.xor_self, BitVec.zero_xor] at h'
      exact h'
    · exact h
  apply BitVec.eq_of_getLsbD_eq
  intro i _
  cases i with
  | zero => exact hlow
  | succ i =>
      have hbit := congrArg (fun x => x.getLsbD i) hhigh
      simp only [BitVec.getLsbD_ushiftRight] at hbit
      rw [Nat.add_comm i 1]
      exact hbit

theorem crcSymbol_injective_left {s : ℕ} (x : BitVec s) :
    Function.Injective fun c => crcSymbol poly c x := by
  intro a b h
  have hstep := (crcStep_injective hmsb).iterate s h
  have h' := congrArg (· ^^^ x.setWidth w) hstep
  simp only [BitVec.xor_assoc, BitVec.xor_self, BitVec.xor_zero] at h'
  exact h'

theorem foldl_crcSymbol_injective_left {s : ℕ} (xs : List (BitVec s)) :
    Function.Injective fun c => xs.foldl (crcSymbol poly) c := by
  induction xs with
  | nil => exact fun _ _ h => h
  | cons x xs ih => exact ih.comp (crcSymbol_injective_left hmsb x)

omit hmsb in
theorem packSymbols_injective {s : ℕ} {xs ys : List (BitVec s)} (hlen : xs.length = ys.length)
    (hw : s * xs.length ≤ w) (h : packSymbols w xs = packSymbols w ys) : xs = ys := by
  induction xs generalizing ys with
  | nil =>
      rw [List.length_nil] at hlen
      exact (List.eq_nil_of_length_eq_zero hlen.symm).symm
  | cons x xs ih =>
      cases ys with
      | nil => cases hlen
      | cons y ys =>
          rw [List.length_cons, List.length_cons, Nat.succ_inj] at hlen
          rw [List.length_cons, Nat.mul_succ] at hw
          have hbit : ∀ i, (packSymbols w (x :: xs)).getLsbD i = (packSymbols w (y :: ys)).getLsbD i :=
            fun i => by rw [h]
          have hxy : x = y := by
            apply BitVec.eq_of_getLsbD_eq
            intro i hi
            have hi' := hbit i
            simp only [packSymbols, BitVec.getLsbD_xor, BitVec.getLsbD_setWidth,
              BitVec.getLsbD_shiftLeft, hi, decide_true, Bool.not_true, Bool.and_false,
              Bool.false_and, Bool.xor_false, show i < w by omega, Bool.true_and] at hi'
            exact hi'
          have htail : packSymbols w xs = packSymbols w ys := by
            apply BitVec.eq_of_getLsbD_eq
            intro i _
            by_cases hi : i + s < w
            · have hi' := hbit (i + s)
              simp only [packSymbols, BitVec.getLsbD_xor, BitVec.getLsbD_setWidth,
                BitVec.getLsbD_shiftLeft, hi, decide_true, Bool.true_and,
                show ¬ i + s < s by omega, decide_false, Bool.not_false, Nat.add_sub_cancel,
                BitVec.getLsbD_of_ge x (i + s) (by omega),
                BitVec.getLsbD_of_ge y (i + s) (by omega), Bool.false_xor] at hi'
              exact hi'
            · rw [packSymbols_above xs (by omega), packSymbols_above ys (by rw [← hlen]; omega)]
          rw [hxy, ih hlen (by omega) htail]

/-- Messages that differ in a stretch that is not longer than the register have different checks. -/
theorem crc_burst {s : ℕ} (c : BitVec w) (pre suf : List (BitVec s)) {xs ys : List (BitVec s)}
    (hlen : xs.length = ys.length) (hw : s * xs.length ≤ w) (hne : xs ≠ ys) :
    (pre ++ xs ++ suf).foldl (crcSymbol poly) c ≠ (pre ++ ys ++ suf).foldl (crcSymbol poly) c := by
  intro h
  rw [List.foldl_append, List.foldl_append, List.foldl_append, List.foldl_append] at h
  have hmid := foldl_crcSymbol_injective_left hmsb suf h
  rw [foldl_crcSymbol poly xs _ hw, foldl_crcSymbol poly ys _ (by rw [← hlen]; exact hw), ← hlen] at hmid
  have hxor := (crcStep_injective hmsb).iterate _ hmid
  have hpack := congrArg ((pre.foldl (crcSymbol poly) c) ^^^ ·) hxor
  simp only [← BitVec.xor_assoc, BitVec.xor_self, BitVec.zero_xor] at hpack
  exact hne (packSymbols_injective hlen hw hpack)

end Injective

/-! ## A symbol as its bits -/

/-- The bits of a symbol in the order in which they are shifted out. -/
def symbolBits {s : ℕ} (x : BitVec s) : List (BitVec 1) :=
  (List.range s).map fun i => BitVec.ofBool (x.getLsbD i)

theorem length_symbolBits {s : ℕ} (x : BitVec s) : (symbolBits x).length = s := by
  rw [symbolBits, List.length_map, List.length_range]

theorem getLsbD_packBits (bits : List (BitVec 1)) (i : ℕ) :
    (packSymbols w bits).getLsbD i = (decide (i < w) && (bits.getD i 0#1).getLsbD 0) := by
  induction bits generalizing i with
  | nil => simp [packSymbols]
  | cons b bits ih =>
      rw [packSymbols, BitVec.getLsbD_xor, BitVec.getLsbD_setWidth, BitVec.getLsbD_shiftLeft]
      cases i with
      | zero => simp
      | succ i =>
          rw [Nat.add_sub_cancel, ih, BitVec.getLsbD_of_ge b (i + 1) (by omega)]
          by_cases hi : i + 1 < w
          · have hi' : i < w := by omega
            simp [hi, hi']
          · simp [hi]

theorem packSymbols_symbolBits {s : ℕ} (x : BitVec s) :
    packSymbols w (symbolBits x) = x.setWidth w := by
  apply BitVec.eq_of_getLsbD_eq
  intro i hi
  rw [getLsbD_packBits, BitVec.getLsbD_setWidth, symbolBits]
  by_cases his : i < s
  · simp [hi, his, List.getD_eq_getElem?_getD]
  · have hlen := length_symbolBits x
    rw [symbolBits] at hlen
    rw [BitVec.getLsbD_of_ge x i (by omega), List.getD_eq_getElem?_getD,
      List.getElem?_eq_none (by rw [hlen]; omega)]
    simp

/-- A symbol is shifted out as its bits are, one after the other. -/
theorem foldl_symbolBits {s : ℕ} (poly : BitVec w) (hw : s ≤ w) (xs : List (BitVec s))
    (c : BitVec w) :
    (xs.flatMap symbolBits).foldl (crcSymbol poly) c = xs.foldl (crcSymbol poly) c := by
  induction xs generalizing c with
  | nil => rfl
  | cons x xs ih =>
      have hx : (symbolBits x).foldl (crcSymbol poly) c = crcSymbol poly c x := by
        rw [foldl_crcSymbol poly _ _ (by rw [length_symbolBits]; omega), length_symbolBits,
          packSymbols_symbolBits x, Nat.one_mul, crcSymbol]
      rw [List.flatMap_cons, List.foldl_append, hx, List.foldl_cons, ih]

end Lib
