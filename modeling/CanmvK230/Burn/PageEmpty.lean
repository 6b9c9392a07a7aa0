import CanmvK230.Burn.NorWrite
import CanmvK230.Lib.Scan

/-!
# PageEmpty — the two scans of `sf_page_is_empty`, with their pointers

`sf_page_is_empty` compares the bytes of a piece with `0xff`, eight at a time where address and size
allow it.  Both loops are `do … while (pdata++ < pend)`: the comparison takes the pointer before it is
moved, so the element at `pend` is looked at, too, and an empty piece passes only in front of more
bytes of `0xff`.

Main results:
* `sfPageIsEmpty_decides`: the bytes that the answer is about;
* `sfWriteLoop_view`: the write loop on the memory behind its pointer is the one with the pointer;
* `testsPage_iff`: the buffers for which the answer is that of the buffer alone.
-/

namespace CanmvK230
namespace Burn
namespace PageEmpty

open Lib

/-! ## The code -/

/-- The memory of the machine: a byte at every address that a pointer can have. -/
abbrev AddressSpace := UInt64 → UInt8

/-- The memory behind a pointer. -/
def view (m : AddressSpace) (p : UInt64) : ByteMem := fun i => m (p + UInt64.ofNat i)

/-- `pdata[0]` for a `u64 *`. -/
def load64 (m : AddressSpace) (pdata : UInt64) : UInt64 :=
  UInt64.ofNat (leNat ((view m pdata).read 0 8))

section
variable (m : AddressSpace) (buf size : UInt64)

def wordScan : Option Bool :=
  let pend := buf + 8 * (size / 8)
  scan (fun pdata => load64 m pdata == 0xffffffffffffffff) (fun pdata => decide (pdata < pend))
    (fun pdata => pdata + 8) loopBound buf

def byteScan : Option Bool :=
  let pend := buf + size
  scan (fun pdata => m pdata == 0xff) (fun pdata => decide (pdata < pend))
    (fun pdata => pdata + 1) loopBound buf

def sfPageIsEmpty : Option Bool :=
  if buf &&& 0x07 = 0 ∧ size % 8 = 0 then wordScan m buf size else byteScan m buf size

/-! ## The property -/

/-- The first `n` bytes of the buffer are `0xff`. -/
def AllFf (n : Nat) : Prop := ∀ i < n, view m buf i = 0xff

/-- The answer comes and is whether the buffer is empty; it is the same in every memory with this
buffer; and the two scans agree where both could be made. -/
structure TestsPage : Prop where
  returns : ∃ b, sfPageIsEmpty m buf size = some b
  exact : sfPageIsEmpty m buf size = some true ↔ AllFf m buf size.toNat
  inside : ∀ m', (∀ i < size.toNat, view m' buf i = view m buf i) →
    sfPageIsEmpty m' buf size = sfPageIsEmpty m buf size
  agree : buf &&& 0x07 = 0 → size % 8 = 0 → wordScan m buf size = byteScan m buf size

/-- A byte of the buffer is not `0xff`.  Of a buffer that reaches to the end of the address space, where
`pend` wraps and one element is all that is looked at, it is the first one, or there is none. -/
def DecidedInside : Prop :=
  if buf.toNat + size.toNat < 2 ^ 64 then
    ¬ AllFf m buf size.toNat
  else
    view m buf 0 ≠ 0xff ∨ AllFf m buf size.toNat

end

/-! ## One loop -/

theorem view_add (m : AddressSpace) (p : UInt64) (k i : Nat) :
    view m (p + UInt64.ofNat k) i = view m p (k + i) := by
  rw [view, view, UInt64.ofNat_add, UInt64.add_assoc]

/-- A word is all ones when its bytes are. -/
theorem load64_iff (m : AddressSpace) (p : UInt64) :
    load64 m p = 0xffffffffffffffff ↔ AllFf m p 8 := by
  have hlen : ((view m p).read 0 8).length = 8 := ByteMem.length_read _ _ _
  have hlt := leNat_lt ((view m p).read 0 8)
  have hmax := leNat_eq_max_iff ((view m p).read 0 8)
  rw [hlen] at hlt hmax
  have hword : load64 m p = 0xffffffffffffffff ↔ leNat ((view m p).read 0 8) + 1 = 256 ^ 8 := by
    rw [load64, ← UInt64.toNat_inj, UInt64.toNat_ofNat', Nat.mod_eq_of_lt (by omega)]
    simp only [UInt64.reduceToNat]
    omega
  rw [hword, hmax]
  simp only [AllFf, ByteMem.read, List.mem_map, List.mem_range, forall_exists_index, and_imp,
    forall_apply_eq_imp_iff₂, Nat.zero_add]

/-- The element that a pointer is at after some rounds. -/
theorem iterate_add (e : Nat) (p : UInt64) (i : Nat) :
    (fun pdata => pdata + UInt64.ofNat e)^[i] p = p + UInt64.ofNat (e * i) := by
  induction i with
  | zero => simp
  | succ i ih =>
      calc
        (fun pdata => pdata + UInt64.ofNat e)^[i + 1] p
            = (fun pdata => pdata + UInt64.ofNat e)^[i] p + UInt64.ofNat e :=
              Function.iterate_succ_apply' _ i p
        _ = p + (UInt64.ofNat (e * i) + UInt64.ofNat e) := by rw [ih, UInt64.add_assoc]
        _ = p + UInt64.ofNat (e * (i + 1)) := by rw [← UInt64.ofNat_add, Nat.mul_succ]

/-- A loop over `n` elements of `e` bytes looks at one more; where its end wraps, at the first one. -/
theorem scan_pointers (ok : UInt64 → Bool) (buf : UInt64) {e n : Nat} (he : 0 < e)
    (hn : e * n < 2 ^ 64) :
    Decides (scan ok (fun pdata => decide (pdata < buf + UInt64.ofNat (e * n)))
        (fun pdata => pdata + UInt64.ofNat e) loopBound buf)
      (∀ i ≤ (if buf.toNat + e * n < 2 ^ 64 then n else 0), ok (buf + UInt64.ofNat (e * i)) = true) := by
  have hbuf := buf.toNat_lt
  have hle : n ≤ e * n := Nat.le_mul_of_pos_left n he
  have hfuel : n < loopBound := by
    simp only [loopBound]
    omega
  have haddr : ∀ i ≤ n, (buf + UInt64.ofNat (e * i)).toNat = (buf.toNat + e * i) % 2 ^ 64 := by
    intro i hi
    have hmul : e * i ≤ e * n := Nat.mul_le_mul_left e hi
    rw [UInt64.toNat_add, UInt64.toNat_ofNat', Nat.mod_eq_of_lt (lt_of_le_of_lt hmul hn)]
  -- `k` is the element at which the comparison fails for the first time
  have hrun : ∀ k ≤ n, (∀ i < k, (buf + UInt64.ofNat (e * i)).toNat <
        (buf + UInt64.ofNat (e * n)).toNat) →
      ¬ (buf + UInt64.ofNat (e * k)).toNat < (buf + UInt64.ofNat (e * n)).toNat →
      Decides (scan ok (fun pdata => decide (pdata < buf + UInt64.ofNat (e * n)))
          (fun pdata => pdata + UInt64.ofNat e) loopBound buf)
        (∀ i ≤ k, ok (buf + UInt64.ofNat (e * i)) = true) := by
    intro k hk hmore hlast
    have h := scan_decides ok (fun pdata => decide (pdata < buf + UInt64.ofNat (e * n)))
      (fun pdata => pdata + UInt64.ofNat e) k loopBound buf
    simp only [iterate_add, decide_eq_true_eq, decide_eq_false_iff_not, UInt64.lt_iff_toNat_lt] at h
    exact h hmore hlast (by omega)
  by_cases hend : buf.toNat + e * n < 2 ^ 64
  · rw [if_pos hend]
    refine hrun n le_rfl ?_ (lt_irrefl _)
    intro i hi
    have hmul : e * i < e * n := Nat.mul_lt_mul_of_pos_left hi he
    rw [haddr i hi.le, haddr n le_rfl, Nat.mod_eq_of_lt hend, Nat.mod_eq_of_lt (by omega)]
    omega
  · rw [if_neg hend]
    refine hrun 0 (Nat.zero_le n) (fun i hi => absurd hi (Nat.not_lt_zero i)) ?_
    -- the end lies in front of the buffer
    rw [haddr 0 (Nat.zero_le n), haddr n le_rfl, Nat.mul_zero, Nat.add_zero,
      Nat.mod_eq_of_lt hbuf]
    omega

/-! ## The bytes that a call looks at -/

/-- The buffer and one element behind it; where its end wraps, one element. -/
def scanned (buf size : UInt64) (e : Nat) : Nat :=
  if buf.toNat + size.toNat < 2 ^ 64 then size.toNat + e else e

theorem scanned_eq (buf size : UInt64) {e n : Nat} (hsize : size.toNat = e * n) :
    scanned buf size e = e * ((if buf.toNat + e * n < 2 ^ 64 then n else 0) + 1) := by
  unfold scanned
  rw [hsize]
  split
  · rw [Nat.mul_succ]
  · rw [Nat.zero_add, Nat.mul_one]

variable {m m' : AddressSpace} {buf size : UInt64}

theorem wordScan_decides (m : AddressSpace) (buf : UInt64) (hwords : size % 8 = 0) :
    Decides (wordScan m buf size) (AllFf m buf (scanned buf size 8)) := by
  have hmod : size.toNat % 8 = 0 := congrArg UInt64.toNat hwords
  have hsize : size.toNat = 8 * (size.toNat / 8) := by omega
  have hlt := size.toNat_lt
  have hend : (8 : UInt64) * (size / 8) = UInt64.ofNat (8 * (size.toNat / 8)) := by
    rw [← hsize, UInt64.ofNat_toNat, ← UInt64.toNat_inj, UInt64.toNat_mul, UInt64.toNat_div]
    simp only [UInt64.reduceToNat]
    omega
  have hrun := scan_pointers (fun pdata => load64 m pdata == 0xffffffffffffffff) buf
    (e := 8) (n := size.toNat / 8) (by decide) (by omega)
  rw [← hend] at hrun
  refine hrun.iff ?_
  rw [scanned_eq buf size hsize]
  simp only [beq_iff_eq, load64_iff, AllFf, view_add]
  constructor
  · intro h i hi
    have hat := h (i / 8) (by omega) (i % 8) (Nat.mod_lt _ (by decide))
    rwa [Nat.div_add_mod] at hat
  · intro h i hi k hk
    exact h (8 * i + k) (by omega)

theorem byteScan_decides (m : AddressSpace) (buf size : UInt64) :
    Decides (byteScan m buf size) (AllFf m buf (scanned buf size 1)) := by
  have hlt := size.toNat_lt
  have hsize : size.toNat = 1 * size.toNat := (Nat.one_mul _).symm
  have hend : UInt64.ofNat (1 * size.toNat) = size := by
    rw [Nat.one_mul, UInt64.ofNat_toNat]
  have hrun := scan_pointers (fun pdata => m pdata == 0xff) buf
    (e := 1) (n := size.toNat) (by decide) (by omega)
  rw [hend] at hrun
  refine hrun.iff ?_
  rw [scanned_eq buf size hsize]
  simp only [beq_iff_eq, Nat.one_mul, Nat.lt_succ_iff, AllFf, view]

/-- The answer is about the buffer and one element behind it. -/
theorem sfPageIsEmpty_decides (m : AddressSpace) (buf size : UInt64) :
    Decides (sfPageIsEmpty m buf size)
      (AllFf m buf (scanned buf size (sfElemSize buf size))) := by
  unfold sfPageIsEmpty sfElemSize
  by_cases hwords : buf &&& 0x07 = 0 ∧ size % 8 = 0
  · rw [if_pos hwords, if_pos hwords]
    exact wordScan_decides m buf hwords.2
  · rw [if_neg hwords, if_neg hwords]
    exact byteScan_decides m buf size

/-- And about nothing else. -/
theorem sfPageIsEmpty_congr
    (h : ∀ i < scanned buf size (sfElemSize buf size), view m' buf i = view m buf i) :
    sfPageIsEmpty m' buf size = sfPageIsEmpty m buf size := by
  rw [(sfPageIsEmpty_decides m' buf size).eq_iff (sfPageIsEmpty_decides m buf size)]
  refine forall₂_congr fun i hi => ?_
  rw [h i hi]

/-- In front of the end of the address space a piece that passes is empty. -/
theorem allFf_of_sfPageIsEmpty (hend : buf.toNat + size.toNat < 2 ^ 64)
    (h : sfPageIsEmpty m buf size = some true) : AllFf m buf size.toNat := by
  have hall := (sfPageIsEmpty_decides m buf size).eq_true_iff.1 h
  rw [scanned, if_pos hend] at hall
  intro i hi
  exact hall i (Nat.lt_add_right _ hi)

/-! ## When the buffer alone decides -/

theorem AllFf.mono {k n : Nat} (h : AllFf m buf n) (hk : k ≤ n) : AllFf m buf k :=
  fun i hi => h i (Nat.lt_of_lt_of_le hi hk)

theorem allFf_congr {n : Nat} (h : ∀ i < n, view m' buf i = view m buf i) :
    AllFf m' buf n ↔ AllFf m buf n :=
  forall₂_congr fun i hi => by rw [h i hi]

/-- The clauses, for what the scans look at. -/
theorem testsPage_iff_scanned (m : AddressSpace) (buf size : UInt64) :
    TestsPage m buf size ↔
      (AllFf m buf (scanned buf size (sfElemSize buf size)) ↔ AllFf m buf size.toNat) ∧
      (∀ m', (∀ i < size.toNat, view m' buf i = view m buf i) →
        (AllFf m' buf (scanned buf size (sfElemSize buf size)) ↔
          AllFf m buf (scanned buf size (sfElemSize buf size)))) ∧
      (buf &&& 0x07 = 0 → size % 8 = 0 →
        (AllFf m buf (scanned buf size 8) ↔ AllFf m buf (scanned buf size 1))) := by
  have hcall := sfPageIsEmpty_decides m buf size
  constructor
  · intro h
    refine ⟨hcall.eq_true_iff.symm.trans h.exact, ?_, ?_⟩
    · intro m' hsame
      exact ((sfPageIsEmpty_decides m' buf size).eq_iff hcall).1 (h.inside m' hsame)
    · intro haddr hsize
      exact ((wordScan_decides m buf hsize).eq_iff (byteScan_decides m buf size)).1
        (h.agree haddr hsize)
  · rintro ⟨hexact, hinside, hagree⟩
    refine ⟨hcall.returns, hcall.eq_true_iff.trans hexact, ?_, ?_⟩
    · intro m' hsame
      exact ((sfPageIsEmpty_decides m' buf size).eq_iff hcall).2 (hinside m' hsame)
    · intro haddr hsize
      exact ((wordScan_decides m buf hsize).eq_iff (byteScan_decides m buf size)).2
        (hagree haddr hsize)

theorem sfElemSize_pos (buf size : UInt64) : 0 < sfElemSize buf size := by
  unfold sfElemSize
  split <;> decide

/-- A buffer that is not empty has room for an element. -/
theorem sfElemSize_le (buf : UInt64) (hpos : 0 < size.toNat) :
    sfElemSize buf size ≤ size.toNat := by
  unfold sfElemSize
  split
  · rename_i hwords
    have hmod : size.toNat % 8 = 0 := congrArg UInt64.toNat hwords.2
    omega
  · exact hpos

/-- Only this buffer is `0xff`. -/
def onlyBuffer (buf size : UInt64) : AddressSpace := fun a => if a - buf < size then 0xff else 0

theorem view_onlyBuffer {i : Nat} (hi : i < size.toNat) :
    view (onlyBuffer buf size) buf i = 0xff := by
  have hlt := size.toNat_lt
  have hin : UInt64.ofNat i < size := by
    rw [UInt64.lt_iff_toNat_lt, UInt64.toNat_ofNat', Nat.mod_eq_of_lt (by omega)]
    exact hi
  rw [view, onlyBuffer, UInt64.add_comm, UInt64.add_sub_cancel, if_pos hin]

theorem view_behind_onlyBuffer (buf size : UInt64) :
    view (onlyBuffer buf size) buf size.toNat = 0 := by
  rw [view, onlyBuffer, UInt64.ofNat_toNat, UInt64.add_comm, UInt64.add_sub_cancel,
    if_neg (UInt64.lt_irrefl size)]

/-- In front of the end of the address space there is always a byte behind the buffer, which decides
for an empty one. -/
theorem testsPage_iff_of_end (hend : buf.toNat + size.toNat < 2 ^ 64) :
    TestsPage m buf size ↔ ¬ AllFf m buf size.toNat := by
  have hscanned : ∀ e, scanned buf size e = size.toNat + e := fun e => if_pos hend
  have hpos := sfElemSize_pos buf size
  rw [testsPage_iff_scanned]
  simp only [hscanned]
  constructor
  · rintro ⟨_, hinside, _⟩ hall
    have hones : AllFf m buf (size.toNat + sfElemSize buf size) :=
      (hinside (fun _ => 0xff) fun i hi => (hall i hi).symm).1 fun _ _ => rfl
    have honly : AllFf (onlyBuffer buf size) buf (size.toNat + sfElemSize buf size) :=
      (hinside (onlyBuffer buf size) fun i hi => (view_onlyBuffer hi).trans (hall i hi).symm).2 hones
    have hnext := honly size.toNat (Nat.lt_add_of_pos_right hpos)
    rw [view_behind_onlyBuffer] at hnext
    exact absurd hnext (by decide)
  · intro hsome
    have hno : ∀ m', (∀ i < size.toNat, view m' buf i = view m buf i) → ∀ e,
        ¬ AllFf m' buf (size.toNat + e) := by
      intro m' hsame e hall
      exact hsome ((allFf_congr hsame).1 (hall.mono (Nat.le_add_right _ _)))
    have hself : ∀ e, ¬ AllFf m buf (size.toNat + e) := hno m fun _ _ => rfl
    refine ⟨iff_of_false (hself _) hsome, ?_, ?_⟩
    · intro m' hsame
      exact iff_of_false (hno m' hsame _) (hself _)
    · intro _ _
      exact iff_of_false (hself 8) (hself 1)

/-- At the end of the address space the first element decides. -/
theorem testsPage_iff_of_wrap (hwrap : ¬ buf.toNat + size.toNat < 2 ^ 64) :
    TestsPage m buf size ↔ view m buf 0 ≠ 0xff ∨ AllFf m buf size.toNat := by
  have hbuf := buf.toNat_lt
  have hscanned : ∀ e, scanned buf size e = e := fun e => if_neg hwrap
  have hpos := sfElemSize_pos buf size
  have hle := sfElemSize_le buf (show 0 < size.toNat by omega)
  have hfirst : ∀ n, 0 < n → view m buf 0 ≠ 0xff → ¬ AllFf m buf n := fun n hn h hall => h (hall 0 hn)
  rw [testsPage_iff_scanned]
  simp only [hscanned]
  constructor
  · rintro ⟨hexact, _, hagree⟩
    by_cases hzero : view m buf 0 = 0xff
    · right
      have hone : AllFf m buf 1 := by
        intro i hi
        rw [Nat.lt_one_iff.1 hi]
        exact hzero
      refine hexact.1 ?_
      unfold sfElemSize
      split
      · rename_i hwords
        exact (hagree hwords.1 hwords.2).2 hone
      · exact hone
    · exact Or.inl hzero
  · intro h
    have hinside : ∀ m', (∀ i < size.toNat, view m' buf i = view m buf i) →
        (AllFf m' buf (sfElemSize buf size) ↔ AllFf m buf (sfElemSize buf size)) :=
      fun m' hsame => allFf_congr fun i hi => hsame i (Nat.lt_of_lt_of_le hi hle)
    rcases h with hne | hall
    · have hsize := hfirst size.toNat (by omega) hne
      refine ⟨iff_of_false (hfirst _ hpos hne) hsize, hinside, ?_⟩
      intro _ _
      exact iff_of_false (hfirst 8 (by decide) hne) (hfirst 1 (by decide) hne)
    · refine ⟨iff_of_true (hall.mono hle) hall, hinside, ?_⟩
      intro haddr hmod
      have hwords : sfElemSize buf size = 8 := if_pos ⟨haddr, hmod⟩
      rw [hwords] at hle
      exact iff_of_true (hall.mono hle) (hall.mono (by omega))

/-- The answer is that of the buffer alone exactly when the buffer holds the byte that decides. -/
theorem testsPage_iff (m : AddressSpace) (buf size : UInt64) :
    TestsPage m buf size ↔ DecidedInside m buf size := by
  unfold DecidedInside
  split
  · rename_i hend
    exact testsPage_iff_of_end hend
  · rename_i hwrap
    exact testsPage_iff_of_wrap hwrap

/-! ## The write loop, with its pointer -/

section
variable {μ : Type} (flash : SpiFlash) (ops : SfOps μ) (m : AddressSpace)

-- `while (remaining)` of `sf_write_medium`
def sfWriteLoop : Nat → μ → UInt64 → UInt64 → UInt64 → Int → Option (Int × μ)
  | 0, _, _, _, _, _ => none
  | fuel + 1, s, off, remaining, buffer, rc =>
      if remaining = 0 then
        some (if rc ≠ 0 then -1 else 0, s)
      else
        let sendLen := sfSendLen remaining
        match sfPageIsEmpty m buffer sendLen with
        | none => none
        | some true =>
            sfWriteLoop fuel s (off + sendLen) (remaining - sendLen) (buffer + sendLen) rc
        | some false =>
            let written := ops.write s off.toUInt32 sendLen (view m buffer)
            if written.1 ≠ 0 then
              some (-1, written.2)
            else
              sfWriteLoop fuel written.2 (off + sendLen) (remaining - sendLen) (buffer + sendLen)
                written.1

end

/-- The memory behind the pointer after a piece. -/
theorem view_shift (m : AddressSpace) (buffer n : UInt64) :
    (view m buffer).shift n.toNat = view m (buffer + n) := by
  funext i
  have h := view_add m buffer n.toNat i
  rw [UInt64.ofNat_toNat] at h
  exact h.symm

/-- In front of the end of the address space, this is the test on the memory behind the pointer. -/
theorem sfPageIsEmpty_view (m : AddressSpace) (hend : buf.toNat + size.toNat < 2 ^ 64) :
    sfPageIsEmpty m buf size = some (Burn.sfPageIsEmpty buf (view m buf) size) := by
  rcases sfPageIsEmpty_decides m buf size with ⟨b, hrun, hb⟩
  have hsame : b = Burn.sfPageIsEmpty buf (view m buf) size := by
    rw [Bool.eq_iff_iff, hb, sfPageIsEmpty_iff, scanned, if_pos hend, AllFf]
  rw [hrun, hsame]

/-- And the loop is the one on the memory behind the pointer. -/
theorem sfWriteLoop_view {μ : Type} (ops : SfOps μ) (m : AddressSpace) (fuel : Nat) :
    ∀ (s : μ) (off remaining buffer : UInt64) (rc : Int),
      buffer.toNat + remaining.toNat < 2 ^ 64 →
      sfWriteLoop ops m fuel s off remaining buffer rc =
        Burn.sfWriteLoop ops fuel s off remaining buffer (view m buffer) rc := by
  induction fuel with
  | zero =>
      intro s off remaining buffer rc _
      rfl
  | succ fuel ih =>
      intro s off remaining buffer rc hend
      by_cases hzero : remaining = 0
      · simp only [sfWriteLoop, Burn.sfWriteLoop, if_pos hzero]
      · have hsend := SpiFlash.sfSendLen_bounds (toNat_pos_of_ne_zero hzero)
        have hrem := SpiFlash.toNat_sub_sfSendLen (toNat_pos_of_ne_zero hzero)
        have hbuf : (buffer + sfSendLen remaining).toNat =
            buffer.toNat + (sfSendLen remaining).toNat := by
          rw [UInt64.toNat_add]
          exact Nat.mod_eq_of_lt (by omega)
        have htest := sfPageIsEmpty_view m
          (show buffer.toNat + (sfSendLen remaining).toNat < 2 ^ 64 by omega)
        have hnext : ∀ (s' : μ) (rc' : Int),
            sfWriteLoop ops m fuel s' (off + sfSendLen remaining) (remaining - sfSendLen remaining)
                (buffer + sfSendLen remaining) rc' =
              Burn.sfWriteLoop ops fuel s' (off + sfSendLen remaining)
                (remaining - sfSendLen remaining) (buffer + sfSendLen remaining)
                ((view m buffer).shift (sfSendLen remaining).toNat) rc' := by
          intro s' rc'
          rw [view_shift]
          exact ih _ _ _ _ _ (by omega)
        simp only [sfWriteLoop, Burn.sfWriteLoop, if_neg hzero, htest]
        cases Burn.sfPageIsEmpty buffer (view m buffer) (sfSendLen remaining) with
        | true => exact hnext s rc
        | false =>
            simp only [hnext, Bool.false_eq_true, if_false]

/-! ## A page of `0xff` -/

/-- A page of `0xff` with one more byte of it behind it, and zeros. -/
def blankPage : AddressSpace := onlyBuffer 0x8000000 4097

/-- The page is empty, the scan over bytes says so, and the call, which compares words, does not. -/
theorem blank_page_not_empty :
    AllFf blankPage 0x8000000 4096 ∧ byteScan blankPage 0x8000000 4096 = some true ∧
      sfPageIsEmpty blankPage 0x8000000 4096 = some false ∧
      ¬ TestsPage blankPage 0x8000000 4096 := by
  have hall : AllFf blankPage 0x8000000 (4097 : UInt64).toNat := fun _ hi => view_onlyBuffer hi
  have hpage : AllFf blankPage 0x8000000 4096 := hall.mono (by decide)
  have hnext : view blankPage 0x8000000 4097 = 0 := view_behind_onlyBuffer 0x8000000 4097
  refine ⟨hpage, ?_, ?_, ?_⟩
  · exact (byteScan_decides blankPage 0x8000000 4096).eq_true_iff.2 hall
  · refine (sfPageIsEmpty_decides blankPage 0x8000000 4096).eq_false_iff.2 ?_
    intro hwords
    have hff := hwords 4097 (by decide)
    rw [hnext] at hff
    exact absurd hff (by decide)
  · intro h
    exact (testsPage_iff_of_end (by decide)).1 h hpage

end PageEmpty
end Burn
end CanmvK230
