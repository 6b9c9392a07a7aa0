import Mathlib.Tactic

/-!
# BitField — an array of small fields packed into words

Fields of `k` bits one behind the other in words of `w` bits, where a field may begin in one word and end
in the next.  `readField` and `writeField` are the usual ways to reach the field `i`; the mask that
`writeField` takes for the first word is a parameter, `clear`.

All is said by the bits of the array (`bit`): a field that is read has its bits (`getLsbD_readField`), and
a field that is written has the bits of its value, and of its old bits those in the first word that
`clear` has left (`bit_writeField`).  So the other fields are as before, and where `clear` has the whole
field what is written is read back.
-/

namespace Lib
namespace BitField

variable {w : Nat}

/-- The bit `n` of the array. -/
def bit (words : Nat → BitVec w) (n : Nat) : Bool :=
  (words (n / w)).getLsbD (n % w)

/-- The `k` lowest bits. -/
def lowMask (w k : Nat) : BitVec w :=
  (BitVec.allOnes k).setWidth w

/-- The field `i`. -/
def readField (k : Nat) (words : Nat → BitVec w) (i : Nat) : BitVec w :=
  let pos := i * k / w
  let offs := i * k % w
  let value := words pos >>> offs
  let value := if w < k + offs then value ||| words (pos + 1) <<< (w - offs) else value
  value &&& lowMask w k

/-- Writing the field `i`; `clear` has the bits of the first word to be cleared. -/
def writeField (k : Nat) (clear : BitVec w) (words : Nat → BitVec w) (i : Nat) (value : BitVec w) :
    Nat → BitVec w :=
  let pos := i * k / w
  let offs := i * k % w
  let words := Function.update words pos ((words pos &&& ~~~clear) ||| value <<< offs)
  if w < k + offs then
    let rbits := k + offs - w
    Function.update words (pos + 1) ((words (pos + 1) &&& ~~~(lowMask w rbits)) ||| value >>> (k - rbits))
  else
    words

theorem getLsbD_lowMask (w k j : Nat) : (lowMask w k).getLsbD j = (decide (j < w) && decide (j < k)) := by
  rw [lowMask, BitVec.getLsbD_setWidth, BitVec.getLsbD_allOnes]

/-- The bit `n` by the word that has it. -/
theorem bit_eq (words : Nat → BitVec w) {n pos r : Nat} (hr : r < w) (hn : n = pos * w + r) :
    bit words n = (words pos).getLsbD r := by
  have hdiv : n / w = pos := by
    rw [hn, Nat.mul_comm, Nat.mul_add_div (by omega), Nat.div_eq_of_lt hr, Nat.add_zero]
  have hmod : n % w = r := by
    rw [hn, Nat.mul_comm, Nat.mul_add_mod, Nat.mod_eq_of_lt hr]
  rw [bit, hdiv, hmod]

/-- What is left of the old field behind a write: the bits in its first word that are not cleared. -/
def kept (k : Nat) (clear : BitVec w) (words : Nat → BitVec w) (i n : Nat) : Bool :=
  decide (n / w = i * k / w) && bit words n && !clear.getLsbD (n % w)

/-- A write word by word. -/
theorem writeField_apply (k : Nat) (clear : BitVec w) (words : Nat → BitVec w) (i : Nat)
    (value : BitVec w) (q : Nat) :
    writeField k clear words i value q =
      if q = i * k / w then
        (words q &&& ~~~clear) ||| value <<< (i * k % w)
      else if q = i * k / w + 1 ∧ w < k + i * k % w then
        (words q &&& ~~~(lowMask w (k + i * k % w - w))) ||| value >>> (w - i * k % w)
      else
        words q := by
  simp only [writeField]
  by_cases hspan : w < k + i * k % w
  · have hshift : k - (k + i * k % w - w) = w - i * k % w := by omega
    rw [if_pos hspan, hshift]
    by_cases hpos : q = i * k / w
    · subst hpos
      rw [if_pos rfl, Function.update_of_ne (by omega), Function.update_self]
    · rw [if_neg hpos]
      by_cases hnext : q = i * k / w + 1
      · subst hnext
        rw [if_pos ⟨rfl, hspan⟩, Function.update_self, Function.update_of_ne (by omega)]
      · rw [if_neg (fun h => hnext h.1), Function.update_of_ne hnext, Function.update_of_ne hpos]
  · rw [if_neg hspan]
    by_cases hpos : q = i * k / w
    · subst hpos
      rw [if_pos rfl, Function.update_self]
    · rw [if_neg hpos, if_neg (fun h => hspan h.2), Function.update_of_ne hpos]

variable {k : Nat} (hk : k ≤ w) (hw : 0 < w)
include hk hw

/-- A field that is read has the bits of the array. -/
theorem getLsbD_readField (words : Nat → BitVec w) (i j : Nat) :
    (readField k words i).getLsbD j = (decide (j < k) && bit words (i * k + j)) := by
  have hsplit := Nat.div_add_mod' (i * k) w
  have hoffs := Nat.mod_lt (i * k) hw
  simp only [readField]
  rw [BitVec.getLsbD_and, getLsbD_lowMask]
  by_cases hj : j < k
  · have hjw : j < w := by omega
    simp only [hj, hjw, decide_true, Bool.and_self, Bool.and_true, Bool.true_and]
    by_cases hfirst : i * k % w + j < w
    · -- in the first word
      have hn : i * k + j = i * k / w * w + (i * k % w + j) := by omega
      rw [bit_eq words hfirst hn]
      split
      · rw [BitVec.getLsbD_or, BitVec.getLsbD_ushiftRight, BitVec.getLsbD_shiftLeft]
        simp [show j < w - i * k % w by omega]
      · rw [BitVec.getLsbD_ushiftRight]
    · -- in the next one
      have hlt : w < k + i * k % w := by omega
      have hn : i * k + j = (i * k / w + 1) * w + (i * k % w + j - w) := by
        rw [Nat.add_mul]
        omega
      rw [bit_eq words (by omega) hn, if_pos hlt, BitVec.getLsbD_or, BitVec.getLsbD_ushiftRight,
        BitVec.getLsbD_shiftLeft, BitVec.getLsbD_of_ge _ _ (by omega)]
      simp [hjw, show ¬ j < w - i * k % w by omega,
        show j - (w - i * k % w) = i * k % w + j - w by omega]
  · simp [hj]

/-- A field that is written has the bits of the value, and those that are left; the other bits of the
array are as before. -/
theorem bit_writeField {clear : BitVec w} (words : Nat → BitVec w) (i : Nat) {value : BitVec w}
    (hvalue : ∀ j, k ≤ j → value.getLsbD j = false)
    (hclear : ∀ r, clear.getLsbD r = true → i * k % w ≤ r ∧ r < i * k % w + k) (n : Nat) :
    bit (writeField k clear words i value) n =
      if i * k ≤ n ∧ n < i * k + k then
        value.getLsbD (n - i * k) || kept k clear words i n
      else
        bit words n := by
  have hsplit := Nat.div_add_mod' (i * k) w
  have hoffs := Nat.mod_lt (i * k) hw
  have hn := Nat.div_add_mod' n w
  have hr := Nat.mod_lt n hw
  have hleft : ∀ r, ¬ (i * k % w ≤ r ∧ r < i * k % w + k) → clear.getLsbD r = false :=
    fun r h => Bool.eq_false_iff.2 fun hc => h (hclear r hc)
  rw [kept, bit, writeField_apply]
  by_cases hfirst : n / w = i * k / w
  · -- the first word
    have hmul : n / w * w = i * k / w * w := by rw [hfirst]
    rw [if_pos hfirst, BitVec.getLsbD_or, BitVec.getLsbD_and, BitVec.getLsbD_not,
      BitVec.getLsbD_shiftLeft]
    by_cases hlo : n % w < i * k % w
    · rw [if_neg (by omega), hleft (n % w) (by omega)]
      simp [hlo, hr, bit]
    · by_cases hhi : n % w < i * k % w + k
      · rw [if_pos (by omega), show n - i * k = n % w - i * k % w by omega]
        simp [hlo, hr, hfirst, bit, Bool.or_comm]
      · rw [if_neg (by omega), hleft (n % w) (by omega), hvalue (n % w - i * k % w) (by omega)]
        simp [hr, bit]
  · rw [if_neg hfirst]
    by_cases hnext : n / w = i * k / w + 1 ∧ w < k + i * k % w
    · -- the next one
      have hmul : n / w * w = i * k / w * w + w := by rw [hnext.1, Nat.add_mul, Nat.one_mul]
      rw [if_pos hnext, BitVec.getLsbD_or, BitVec.getLsbD_and, BitVec.getLsbD_not, getLsbD_lowMask,
        BitVec.getLsbD_ushiftRight]
      by_cases hhi : n % w < k + i * k % w - w
      · rw [if_pos (by omega), show n - i * k = w - i * k % w + n % w by omega]
        simp [hhi, hr, hfirst]
      · rw [if_neg (by omega), hvalue (w - i * k % w + n % w) (by omega)]
        simp [hhi, hr, bit]
    · -- another one
      have hout : ¬ (i * k ≤ n ∧ n < i * k + k) := by
        rintro ⟨hlo, hhi⟩
        have hge : i * k / w ≤ n / w := Nat.div_le_div_right hlo
        have hstep : i * k / w + 1 ≤ n / w := by omega
        have hmul := Nat.mul_le_mul_right w hstep
        rw [Nat.add_mul, Nat.one_mul] at hmul
        have hword : n / w = i * k / w + 1 := by
          refine Nat.le_antisymm ?_ hstep
          refine Nat.le_of_lt_succ (Nat.div_lt_of_lt_mul ?_)
          rw [Nat.mul_comm w, Nat.succ_mul, Nat.add_mul, Nat.one_mul]
          omega
        exact hnext ⟨hword, by omega⟩
      rw [if_neg hnext, if_neg hout, bit]

/-- A field that is read behind a write: what has been written with what has been left of it, or the
field as before. -/
theorem getLsbD_readField_writeField {clear : BitVec w} (words : Nat → BitVec w) (i i' : Nat)
    {value : BitVec w} (hvalue : ∀ j, k ≤ j → value.getLsbD j = false)
    (hclear : ∀ r, clear.getLsbD r = true → i * k % w ≤ r ∧ r < i * k % w + k) (j : Nat) :
    (readField k (writeField k clear words i value) i').getLsbD j =
      if i' = i then
        (value.getLsbD j || (decide (j < k) && kept k clear words i (i * k + j)))
      else
        (readField k words i').getLsbD j := by
  rw [getLsbD_readField hk hw, getLsbD_readField hk hw]
  by_cases hj : j < k
  · rw [bit_writeField hk hw words i hvalue hclear]
    by_cases hi : i' = i
    · subst hi
      rw [if_pos rfl, if_pos (by omega), Nat.add_sub_cancel_left]
      simp [hj]
    · rw [if_neg hi, if_neg]
      -- the fields do not overlap
      rintro ⟨hlo, hhi⟩
      rcases Nat.lt_or_gt_of_ne hi with h | h
      · have := Nat.mul_le_mul_right k (Nat.succ_le_of_lt h)
        rw [Nat.succ_mul] at this
        omega
      · have := Nat.mul_le_mul_right k (Nat.succ_le_of_lt h)
        rw [Nat.succ_mul] at this
        omega
  · by_cases hi : i' = i
    · rw [if_pos hi, hvalue j (by omega)]
      simp [hj]
    · simp [hj, hi]

end BitField
end Lib
