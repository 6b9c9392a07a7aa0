import CanmvK230.Env.Spinand

/-!
# EraseRange — the erase loop of `erase_and_write_env` (`env/spinand.c`)

`mtd_erase` stops at a block that fails and names it in `fail_addr`; the loop takes the blocks up to that
one off the range by two unsigned subtractions and goes on behind it.  The second subtraction is that of
a whole block, and nothing checks that the range consists of whole blocks.

The answers are those of `nanddev_erase`, which may change from call to call: a function of the state
of a device, which also notes the blocks it is asked for (`attempts`).

Main results:
* `eraseEnvLoop_returns`: the loop ends, whatever the device answers;
* `erasesRange_iff`: when it has erased its range.
-/

namespace CanmvK230
namespace Env

open Lib Burn

/-! ## `mtd_erase` on a NAND device -/

section Source

variable {σ : Type} (nand : Nand) (nanddevErase : σ → Nat → Int × σ)

/-- `nanddev_mtd_erase` over the `count` blocks from `block` on, with the `fail_addr` it sets. -/
def nanddevMtdErase : Nat → σ → Nat → Int × UInt64 × σ
  | 0, s, _ => (0, mtdFailAddrUnknown, s)
  | count + 1, s, block =>
      let erased := nanddevErase s block
      if erased.1 ≠ 0 then
        (erased.1, UInt64.ofNat (block * nand.erasesize), erased.2)
      else
        nanddevMtdErase count erased.2 (block + 1)

def mtdErase (s : σ) (addr len : UInt64) : Int × UInt64 × σ :=
  if addr.toNat > nand.size ∨ len.toNat > nand.size - addr.toNat then
    (-einval, mtdFailAddrUnknown, s)
  else if len = 0 then
    (0, mtdFailAddrUnknown, s)
  else
    let pos := addr.toNat / nand.erasesize
    let last := (addr.toNat + len.toNat - 1) / nand.erasesize
    nanddevMtdErase nand nanddevErase (last + 1 - pos) s pos

/-- The calls on the device, with this `mtd_erase`. -/
def eraseOps (base : EnvMtdOps σ) : EnvMtdOps σ :=
  { base with erase := mtdErase nand nanddevErase }

@[simp] theorem eraseOps_erase (base : EnvMtdOps σ) :
    (eraseOps nand nanddevErase base).erase = mtdErase nand nanddevErase := rfl

end Source

/-- The device of a chip with fixed answers is such a device. -/
theorem EnvChip.eraseBlocks_eq (chip : EnvChip) (count : Nat) :
    ∀ (m : ByteMem) (block : Nat), chip.eraseBlocks count m block =
      nanddevMtdErase chip.nand (fun m block => (chip.eraseAns block,
        if chip.eraseAns block ≠ 0 then m
        else m.fill (block * chip.nand.erasesize) chip.nand.erasesize 0xff)) count m block := by
  induction count with
  | zero =>
      intro m block
      rfl
  | succ count ih =>
      intro m block
      by_cases hans : chip.eraseAns block = 0
      · simp [EnvChip.eraseBlocks, nanddevMtdErase, hans, ih]
      · simp [EnvChip.eraseBlocks, nanddevMtdErase, hans]

/-! ## The property -/

section Loop

variable {σ : Type} (ops : EnvMtdOps σ) (mtd : MtdInfo)

/-- The `n`-th time that `while (erase_op.len)` is reached: the state of the device, `erase_op.addr`,
`erase_op.len` and `ret`. -/
inductive LoopHead (s₀ : σ) (addr₀ len₀ : UInt64) : Nat → σ → UInt64 → UInt64 → Int → Prop
  | start : LoopHead s₀ addr₀ len₀ 0 s₀ addr₀ len₀ 0
  | pass {n : Nat} {s : σ} {addr len : UInt64} {ret : Int} :
      LoopHead s₀ addr₀ len₀ n s addr len ret → len ≠ 0 → (ops.erase s addr len).1 = -eio →
      LoopHead s₀ addr₀ len₀ (n + 1) (ops.erase s addr len).2.2
        ((ops.erase s addr len).2.1 + mtd.erasesize.toUInt64)
        (len - ((ops.erase s addr len).2.1 - addr) - mtd.erasesize.toUInt64) (-eio)

variable {ops mtd} in
/-- These are the states that the loop passes through. -/
theorem eraseEnvLoop_head {s₀ s : σ} {addr₀ len₀ addr len : UInt64} {n : Nat} {ret : Int}
    (h : LoopHead ops mtd s₀ addr₀ len₀ n s addr len ret) :
    ∀ fuel, eraseEnvLoop ops mtd (fuel + n) s₀ addr₀ len₀ 0 =
      eraseEnvLoop ops mtd fuel s addr len ret := by
  induction h with
  | start =>
      intro fuel
      rfl
  | pass _ hne heio ih =>
      intro fuel
      rw [← Nat.add_assoc, Nat.add_right_comm, ih (fuel + 1)]
      simp only [eraseEnvLoop, if_neg hne, heio, ne_eq, not_true_eq_false, if_false]

end Loop

section Range

variable {μ : Type} (nand : Nand) (nanddevErase : μ → Nat → Int × μ) (base : EnvMtdOps (μ × List Nat))
  (cfg : EnvConfig) (m : μ)

/-- The device with a list of the blocks it was asked to erase. -/
def attempts (s : μ × List Nat) (block : Nat) : Int × μ × List Nat :=
  ((nanddevErase s.1 block).1, (nanddevErase s.1 block).2, s.2 ++ [block])

/-- The number of blocks that the range touches. -/
def rangeBlocks : Nat := (cfg.envRange.toNat + nand.erasesize - 1) / nand.erasesize

def firstBlock : Nat := cfg.envOffset.toNat / nand.erasesize

/-- The block has a byte of the range. -/
def InRange (block : Nat) : Prop :=
  firstBlock nand cfg ≤ block ∧ block * nand.erasesize < cfg.envOffset.toNat + cfg.envRange.toNat

instance (block : Nat) : Decidable (InRange nand cfg block) :=
  inferInstanceAs (Decidable (_ ∧ _))

/-- The loop over the range of the environment ends; `erase_op.len` never wraps, and the end of what is
left stays the end of the range or of its last block; each block of the range is tried once, and no
other. -/
structure ErasesRange : Prop where
  noWrap : ∀ n s addr len ret,
    LoopHead (eraseOps nand (attempts nanddevErase) base) nand.mtd (m, []) cfg.envOffset cfg.envRange
      n s addr len ret →
    len ≠ 0 → (mtdErase nand (attempts nanddevErase) s addr len).1 = -eio →
    ((mtdErase nand (attempts nanddevErase) s addr len).2.1 - addr).toNat + nand.erasesize ≤ len.toNat
  atEnd : ∀ n s addr len ret,
    LoopHead (eraseOps nand (attempts nanddevErase) base) nand.mtd (m, []) cfg.envOffset cfg.envRange
      n s addr len ret →
    addr.toNat + len.toNat = cfg.envOffset.toNat + cfg.envRange.toNat ∨
      addr.toNat + len.toNat = (firstBlock nand cfg + rangeBlocks nand cfg) * nand.erasesize
  once : ∃ ret s, eraseEnvLoop (eraseOps nand (attempts nanddevErase) base) nand.mtd loopBound (m, [])
      cfg.envOffset cfg.envRange 0 = some (ret, s) ∧
    ∀ block, s.2.count block = if InRange nand cfg block then 1 else 0

/-! ## The condition -/

/-- The device after the first `k` blocks of the range were tried in order. -/
def afterBlocks : Nat → μ
  | 0 => m
  | k + 1 => (nanddevErase (afterBlocks k) (firstBlock nand cfg + k)).2

/-- The answer for block `k` of the range, when its turn comes. -/
def answerOf (k : Nat) : Int :=
  (nanddevErase (afterBlocks nand nanddevErase cfg m k) (firstBlock nand cfg + k)).1

/-- The block was erased, or it is a bad one that the loop passes over. -/
def GoesOn (ret : Int) : Prop :=
  ret = 0 ∨ ret = -eio

/-- The range lies in the device, every block in front of the last one can be erased or fails with
`-EIO`, and the last one does not fail with `-EIO` unless the range ends where it ends. -/
structure RangeErasable : Prop where
  fits : cfg.envOffset.toNat + cfg.envRange.toNat ≤ nand.size
  goesOn : ∀ k, k + 1 < rangeBlocks nand cfg → GoesOn (answerOf nand nanddevErase cfg m k)
  last : answerOf nand nanddevErase cfg m (rangeBlocks nand cfg - 1) = -eio →
    nand.erasesize ∣ cfg.envRange.toNat

/-! ## The blocks of the range -/

/-- The device when block `k` of the range is about to be tried, with the blocks tried so far. -/
def walked (k : Nat) : μ × List Nat :=
  (afterBlocks nand nanddevErase cfg m k, List.range' (firstBlock nand cfg) k)

variable {nand nanddevErase base cfg m}

theorem attempts_walked (k : Nat) :
    attempts nanddevErase (walked nand nanddevErase cfg m k) (firstBlock nand cfg + k) =
      (answerOf nand nanddevErase cfg m k, walked nand nanddevErase cfg m (k + 1)) := by
  have hnext : List.range' (firstBlock nand cfg) k ++ [firstBlock nand cfg + k] =
      List.range' (firstBlock nand cfg) (k + 1) := by
    rw [List.range'_concat, Nat.one_mul]
  simp only [attempts, walked, hnext, answerOf, afterBlocks]

variable (nand nanddevErase cfg m) in
/-- `nanddev_mtd_erase` goes up to the first block that fails. -/
theorem nanddevMtdErase_cases (count : Nat) :
    ∀ k,
      ((∀ i, k ≤ i → i < k + count → answerOf nand nanddevErase cfg m i = 0) ∧
          nanddevMtdErase nand (attempts nanddevErase) count (walked nand nanddevErase cfg m k)
              (firstBlock nand cfg + k) =
            (0, mtdFailAddrUnknown, walked nand nanddevErase cfg m (k + count))) ∨
        ∃ j < count, (∀ i, k ≤ i → i < k + j → answerOf nand nanddevErase cfg m i = 0) ∧
          answerOf nand nanddevErase cfg m (k + j) ≠ 0 ∧
          nanddevMtdErase nand (attempts nanddevErase) count (walked nand nanddevErase cfg m k)
              (firstBlock nand cfg + k) =
            (answerOf nand nanddevErase cfg m (k + j),
              UInt64.ofNat ((firstBlock nand cfg + k + j) * nand.erasesize),
              walked nand nanddevErase cfg m (k + j + 1)) := by
  induction count with
  | zero =>
      intro k
      left
      refine ⟨fun i h₁ h₂ => ?_, rfl⟩
      omega
  | succ count ih =>
      intro k
      by_cases hans : answerOf nand nanddevErase cfg m k = 0
      · -- the block is erased, and the others follow
        have hrun : nanddevMtdErase nand (attempts nanddevErase) (count + 1)
            (walked nand nanddevErase cfg m k) (firstBlock nand cfg + k) =
              nanddevMtdErase nand (attempts nanddevErase) count
                (walked nand nanddevErase cfg m (k + 1)) (firstBlock nand cfg + (k + 1)) := by
          simp only [nanddevMtdErase, attempts_walked, hans, ne_eq, not_true_eq_false, if_false]
          rfl
        have hzero : ∀ {stop}, (∀ i, k + 1 ≤ i → i < stop → answerOf nand nanddevErase cfg m i = 0) →
            ∀ i, k ≤ i → i < stop → answerOf nand nanddevErase cfg m i = 0 := by
          intro stop hrest i h₁ h₂
          rcases Nat.eq_or_lt_of_le h₁ with rfl | hlt
          · exact hans
          · exact hrest i hlt h₂
        rw [hrun]
        rcases ih (k + 1) with ⟨hall, hdone⟩ | ⟨j, hj, hfront, hfail, hstop⟩
        · left
          rw [show k + 1 + count = k + (count + 1) by omega] at hall hdone
          exact ⟨hzero hall, hdone⟩
        · right
          refine ⟨j + 1, Nat.succ_lt_succ hj, ?_, ?_, ?_⟩
          · rw [show k + 1 + j = k + (j + 1) by omega] at hfront
            exact hzero hfront
          · rwa [show k + (j + 1) = k + 1 + j by omega]
          · rw [hstop, show k + 1 + j = k + (j + 1) by omega,
              show firstBlock nand cfg + (k + 1) + j = firstBlock nand cfg + k + (j + 1) by omega]
      · right
        refine ⟨0, Nat.succ_pos count, fun i h₁ h₂ => ?_, hans, ?_⟩
        · omega
        · simp only [nanddevMtdErase, attempts_walked, ne_eq, hans, not_false_eq_true, if_true,
            Nat.add_zero]

variable (nand cfg) in
/-- The blocks of a range cover it, and the last one no more than begins in it. -/
theorem rangeBlocks_bounds :
    cfg.envRange.toNat ≤ rangeBlocks nand cfg * nand.erasesize ∧
      rangeBlocks nand cfg * nand.erasesize < cfg.envRange.toNat + nand.erasesize := by
  have hpos := nand.erasesize_pos
  have hdiv := Nat.div_add_mod (cfg.envRange.toNat + nand.erasesize - 1) nand.erasesize
  have hmod := Nat.mod_lt (cfg.envRange.toNat + nand.erasesize - 1) hpos
  rw [Nat.mul_comm] at hdiv
  unfold rangeBlocks
  omega

theorem dvd_range_iff :
    nand.erasesize ∣ cfg.envRange.toNat ↔
      rangeBlocks nand cfg * nand.erasesize ≤ cfg.envRange.toNat := by
  have hbounds := rangeBlocks_bounds nand cfg
  constructor
  · rintro ⟨q, hq⟩
    rw [Nat.mul_comm] at hq
    rw [hq] at hbounds ⊢
    have hlt : rangeBlocks nand cfg * nand.erasesize < (q + 1) * nand.erasesize := by
      rw [Nat.add_mul, Nat.one_mul]
      exact hbounds.2
    exact Nat.mul_le_mul_right _ (Nat.le_of_lt_succ (Nat.lt_of_mul_lt_mul_right hlt))
  · intro hle
    exact ⟨rangeBlocks nand cfg, by rw [Nat.mul_comm]; omega⟩

variable (nand) in
theorem rangeBlocks_pos (hne : cfg.envRange ≠ 0) : 0 < rangeBlocks nand cfg := by
  have hlen := toNat_pos_of_ne_zero hne
  have hbounds := rangeBlocks_bounds nand cfg
  refine Nat.pos_of_ne_zero ?_
  intro h0
  rw [h0] at hbounds
  omega

variable (nand cfg) in
/-- Each block of the range begins in it. -/
theorem whole_block_le {k : Nat} (hk : k < rangeBlocks nand cfg) :
    k * nand.erasesize < cfg.envRange.toNat := by
  have hbounds := rangeBlocks_bounds nand cfg
  have hmul : (k + 1) * nand.erasesize ≤ rangeBlocks nand cfg * nand.erasesize :=
    Nat.mul_le_mul_right _ hk
  rw [Nat.add_mul] at hmul
  omega

/-- Only the last block reaches over the end of the range. -/
theorem eq_last {j : Nat} (hj : j < rangeBlocks nand cfg)
    (hpast : cfg.envRange.toNat < (j + 1) * nand.erasesize) : j + 1 = rangeBlocks nand cfg := by
  by_contra hne
  have hin := whole_block_le nand cfg (k := j + 1) (by omega)
  omega

variable (nand cfg) in
theorem rangeBlocks_lt_loopBound : rangeBlocks nand cfg + 2 < loopBound := by
  have hbounds := rangeBlocks_bounds nand cfg
  have hle : rangeBlocks nand cfg ≤ rangeBlocks nand cfg * nand.erasesize :=
    Nat.le_mul_of_pos_right _ nand.erasesize_pos
  have hrange := cfg.envRange.toNat_lt
  have hwide := nand.erasesize_lt
  have hbound : (2 : Nat) ^ 66 < loopBound := Nat.pow_lt_pow_right (by decide) (by decide)
  omega

/-- The blocks of the range are the `rangeBlocks` blocks from the first one on. -/
theorem inRange_iff (ho : nand.erasesize ∣ cfg.envOffset.toNat) (block : Nat) :
    InRange nand cfg block ↔
      firstBlock nand cfg ≤ block ∧ block < firstBlock nand cfg + rangeBlocks nand cfg := by
  have hfirst : firstBlock nand cfg * nand.erasesize = cfg.envOffset.toNat := Nat.div_mul_cancel ho
  have hbounds := rangeBlocks_bounds nand cfg
  refine and_congr_right fun hle => ?_
  rcases Nat.exists_eq_add_of_le hle with ⟨k, rfl⟩
  rw [Nat.add_mul, hfirst]
  constructor
  · intro hlt
    have hk : k * nand.erasesize < rangeBlocks nand cfg * nand.erasesize := by omega
    have hk' := Nat.lt_of_mul_lt_mul_right hk
    omega
  · intro hlt
    have hk := whole_block_le nand cfg (k := k) (by omega)
    omega

/-! ## One call -/

variable (nand nanddevErase cfg m) in
/-- The loop stands in front of block `k` of the range. -/
structure OnTrack (k : Nat) (s : μ × List Nat) (addr len : UInt64) : Prop where
  le : k ≤ rangeBlocks nand cfg
  state : s = walked nand nanddevErase cfg m k
  addr : addr.toNat = (firstBlock nand cfg + k) * nand.erasesize
  len : len.toNat + k * nand.erasesize = cfg.envRange.toNat

variable (nand nanddevErase cfg m) in
/-- The loop stands behind the last block with a length that has wrapped. -/
structure Wrapped (s : μ × List Nat) (addr len : UInt64) : Prop where
  state : s = walked nand nanddevErase cfg m (rangeBlocks nand cfg)
  ne : len ≠ 0
  behind : nand.size < addr.toNat + len.toNat

section Call

variable {s : μ × List Nat} {addr len : UInt64} {k : Nat}

theorem mtdErase_behind (h : nand.size < addr.toNat + len.toNat) :
    mtdErase nand (attempts nanddevErase) s addr len = (-einval, mtdFailAddrUnknown, s) := by
  have hout : addr.toNat > nand.size ∨ len.toNat > nand.size - addr.toNat := by omega
  rw [mtdErase, if_pos hout]

/-- There is nothing left exactly behind the last whole block. -/
theorem OnTrack.lt (h : OnTrack nand nanddevErase cfg m k s addr len) (hne : len ≠ 0) :
    k < rangeBlocks nand cfg := by
  have hlen := toNat_pos_of_ne_zero hne
  have hrest := h.len
  have hbounds := rangeBlocks_bounds nand cfg
  refine Nat.lt_of_mul_lt_mul_right (a := nand.erasesize) ?_
  omega

theorem OnTrack.eq_of_zero (h : OnTrack nand nanddevErase cfg m k s addr len) (hzero : len = 0) :
    k = rangeBlocks nand cfg := by
  rcases Nat.eq_or_lt_of_le h.le with heq | hlt
  · exact heq
  · have hrest := h.len
    rw [hzero, UInt64.toNat_zero, Nat.zero_add] at hrest
    exact absurd hrest (whole_block_le nand cfg hlt).ne

theorem OnTrack.mtdErase_eq (h : OnTrack nand nanddevErase cfg m k s addr len) (hne : len ≠ 0)
    (ho : nand.erasesize ∣ cfg.envOffset.toNat)
    (hfits : cfg.envOffset.toNat + cfg.envRange.toNat ≤ nand.size) :
    mtdErase nand (attempts nanddevErase) s addr len =
      nanddevMtdErase nand (attempts nanddevErase) (rangeBlocks nand cfg - k)
        (walked nand nanddevErase cfg m k) (firstBlock nand cfg + k) := by
  have hfirst : firstBlock nand cfg * nand.erasesize = cfg.envOffset.toNat := Nat.div_mul_cancel ho
  have haddr := h.addr
  rw [Nat.add_mul, hfirst] at haddr
  have hrest := h.len
  have hlt := h.lt hne
  have hbounds := rangeBlocks_bounds nand cfg
  have hblocks : rangeBlocks nand cfg * nand.erasesize =
      (rangeBlocks nand cfg - k) * nand.erasesize + k * nand.erasesize := by
    rw [← Nat.add_mul, Nat.sub_add_cancel hlt.le]
  have hin : ¬ (addr.toNat > nand.size ∨ len.toNat > nand.size - addr.toNat) := by omega
  have hpos : addr.toNat / nand.erasesize = firstBlock nand cfg + k := by
    rw [h.addr, Nat.mul_div_cancel _ nand.erasesize_pos]
  have hlast := last_block nand (n := rangeBlocks nand cfg - k) h.addr (toNat_pos_of_ne_zero hne)
    (by omega) (by omega)
  simp only [mtdErase, if_neg hin, if_neg hne, hlast, hpos, Nat.add_sub_cancel_left, h.state]

/-- What a call in front of block `k` does: it erases all that is left, or stops at a block `j`; behind
that block the loop stands in front of the next one, or its length has wrapped. -/
theorem OnTrack.call (h : OnTrack nand nanddevErase cfg m k s addr len) (hne : len ≠ 0)
    (ho : nand.erasesize ∣ cfg.envOffset.toNat)
    (hfits : cfg.envOffset.toNat + cfg.envRange.toNat ≤ nand.size) :
    ((∀ i, k ≤ i → i < rangeBlocks nand cfg → answerOf nand nanddevErase cfg m i = 0) ∧
        mtdErase nand (attempts nanddevErase) s addr len =
          (0, mtdFailAddrUnknown, walked nand nanddevErase cfg m (rangeBlocks nand cfg))) ∨
      ∃ j failAddr, k ≤ j ∧ j < rangeBlocks nand cfg ∧
        (∀ i, k ≤ i → i < j → answerOf nand nanddevErase cfg m i = 0) ∧
        answerOf nand nanddevErase cfg m j ≠ 0 ∧
        mtdErase nand (attempts nanddevErase) s addr len =
          (answerOf nand nanddevErase cfg m j, failAddr, walked nand nanddevErase cfg m (j + 1)) ∧
        (failAddr - addr).toNat + k * nand.erasesize = j * nand.erasesize ∧
        ((j + 1) * nand.erasesize ≤ cfg.envRange.toNat →
          OnTrack nand nanddevErase cfg m (j + 1) (walked nand nanddevErase cfg m (j + 1))
            (failAddr + nand.mtd.erasesize.toUInt64)
            (len - (failAddr - addr) - nand.mtd.erasesize.toUInt64)) ∧
        (cfg.envRange.toNat < (j + 1) * nand.erasesize →
          Wrapped nand nanddevErase cfg m (walked nand nanddevErase cfg m (j + 1))
            (failAddr + nand.mtd.erasesize.toUInt64)
            (len - (failAddr - addr) - nand.mtd.erasesize.toUInt64)) := by
  have hfirst : firstBlock nand cfg * nand.erasesize = cfg.envOffset.toNat := Nat.div_mul_cancel ho
  have haddr := h.addr
  rw [Nat.add_mul, hfirst] at haddr
  have hrest := h.len
  have hlt := h.lt hne
  rw [h.mtdErase_eq hne ho hfits]
  rcases nanddevMtdErase_cases nand nanddevErase cfg m
    (rangeBlocks nand cfg - k) k with ⟨hall, hdone⟩ | ⟨j, hj, hfront, hfail, hstop⟩
  · left
    rw [Nat.add_sub_cancel' hlt.le] at hall hdone
    exact ⟨hall, hdone⟩
  · right
    have hblock := whole_block_le nand cfg (k := k + j) (by omega)
    rw [Nat.add_mul] at hblock
    have hnext : (k + j + 1) * nand.erasesize = k * nand.erasesize + (j + 1) * nand.erasesize := by
      rw [← Nat.add_mul, Nat.add_assoc]
    have hleft : j * nand.erasesize < len.toNat := by omega
    have hin : addr.toNat + len.toNat ≤ nand.size := by omega
    rcases behind_failed nand h.addr hleft hin with ⟨haddr', hskip, hwhole, hpart⟩
    refine ⟨k + j, _, Nat.le_add_right k j, by omega, hfront, hfail, hstop, ?_, ?_, ?_⟩
    · rw [hskip, Nat.add_mul, Nat.add_comm]
    · intro hfit
      refine ⟨by omega, rfl, ?_, ?_⟩
      · rw [haddr', Nat.add_assoc _ k j, Nat.add_assoc]
      · have hlen' := hwhole (by omega)
        omega
    · intro hpast
      rcases hpart (by omega) with ⟨hnz, hbehind⟩
      refine ⟨?_, hnz, hbehind⟩
      rw [eq_last (by omega) hpast]

end Call

/-! ## The loop -/

variable (nanddevErase m) in
theorem onTrack_start (ho : nand.erasesize ∣ cfg.envOffset.toNat) :
    OnTrack nand nanddevErase cfg m 0 (m, []) cfg.envOffset cfg.envRange where
  le := Nat.zero_le _
  state := rfl
  addr := (Nat.div_mul_cancel ho).symm
  len := by rw [Nat.zero_mul, Nat.add_zero]

section Heads

variable (ho : nand.erasesize ∣ cfg.envOffset.toNat)
  (hfits : cfg.envOffset.toNat + cfg.envRange.toNat ≤ nand.size)

include ho hfits

/-- Wherever the loop gets, it stands in front of a block of the range, or its length has wrapped behind
the failure of a last block that reaches over the end. -/
theorem head_cases {n : Nat} {s : μ × List Nat} {addr len : UInt64} {ret : Int}
    (h : LoopHead (eraseOps nand (attempts nanddevErase) base) nand.mtd (m, []) cfg.envOffset
      cfg.envRange n s addr len ret) :
    (∃ k, OnTrack nand nanddevErase cfg m k s addr len) ∨
      (Wrapped nand nanddevErase cfg m s addr len ∧
        cfg.envRange.toNat < rangeBlocks nand cfg * nand.erasesize ∧
        answerOf nand nanddevErase cfg m (rangeBlocks nand cfg - 1) = -eio) := by
  induction h with
  | start => exact Or.inl ⟨0, onTrack_start nanddevErase m ho⟩
  | @pass n s addr len ret _ hne heio ih =>
      rw [eraseOps_erase] at heio ⊢
      rcases ih with ⟨k, htrack⟩ | ⟨hwrapped, _⟩
      · rcases htrack.call hne ho hfits with
          ⟨_, hdone⟩ | ⟨j, failAddr, _, hj, _, _, hstop, _, hnext, hpast⟩
        · rw [hdone] at heio
          cases heio
        · rw [hstop] at heio ⊢
          by_cases hfit : (j + 1) * nand.erasesize ≤ cfg.envRange.toNat
          · exact Or.inl ⟨j + 1, hnext hfit⟩
          · right
            have hlast := eq_last hj (not_le.1 hfit)
            refine ⟨hpast (not_le.1 hfit), ?_, ?_⟩
            · rw [← hlast]
              exact not_le.1 hfit
            · rw [← hlast]
              exact heio
      · -- a wrapped length is refused
        rw [mtdErase_behind hwrapped.behind] at heio
        cases heio

/-- From any block of the range on, the loop ends: behind the last block, or behind one whose answer is
another error. -/
theorem OnTrack.loop (fuel : Nat) :
    ∀ {k : Nat} {s : μ × List Nat} {addr len : UInt64} (ret : Int),
      OnTrack nand nanddevErase cfg m k s addr len → rangeBlocks nand cfg - k + 1 < fuel →
      ∃ ret' j, eraseEnvLoop (eraseOps nand (attempts nanddevErase) base) nand.mtd fuel s addr len ret =
          some (ret', walked nand nanddevErase cfg m j) ∧
        j ≤ rangeBlocks nand cfg ∧
        (∀ i, k ≤ i → i + 1 < j → GoesOn (answerOf nand nanddevErase cfg m i)) ∧
        (j = rangeBlocks nand cfg ∨ ∃ i, i + 1 = j ∧ ¬ GoesOn (answerOf nand nanddevErase cfg m i)) := by
  induction fuel with
  | zero =>
      intro k s addr len ret _ hfuel
      omega
  | succ fuel ih =>
      intro k s addr len ret htrack hfuel
      by_cases hzero : len = 0
      · refine ⟨ret, k, ?_, htrack.le, fun i h₁ h₂ => ?_, Or.inl (htrack.eq_of_zero hzero)⟩
        · rw [eraseEnvLoop, if_pos hzero, htrack.state]
        · omega
      · rcases htrack.call hzero ho hfits with
          ⟨hall, hdone⟩ | ⟨j, failAddr, hkj, hj, hfront, hfail, hstop, _, hnext, hpast⟩
        · refine ⟨0, _, ?_, le_rfl, fun i h₁ h₂ => Or.inl (hall i h₁ (by omega)), Or.inl rfl⟩
          simp [eraseEnvLoop, hzero, hdone, eio]
        · by_cases heio : answerOf nand nanddevErase cfg m j = -eio
          · have hrun : eraseEnvLoop (eraseOps nand (attempts nanddevErase) base) nand.mtd (fuel + 1) s
                addr len ret =
                eraseEnvLoop (eraseOps nand (attempts nanddevErase) base) nand.mtd fuel
                  (walked nand nanddevErase cfg m (j + 1)) (failAddr + nand.mtd.erasesize.toUInt64)
                  (len - (failAddr - addr) - nand.mtd.erasesize.toUInt64) (-eio) := by
              simp only [eraseEnvLoop, if_neg hzero, eraseOps_erase, hstop, heio, ne_eq,
                not_true_eq_false, if_false]
            rw [hrun]
            by_cases hfit : (j + 1) * nand.erasesize ≤ cfg.envRange.toNat
            · rcases ih (-eio) (hnext hfit) (by omega) with ⟨ret', j', hrun', hj', hgoes, hend⟩
              refine ⟨ret', j', hrun', hj', ?_, hend⟩
              intro i h₁ h₂
              rcases Nat.lt_trichotomy i j with hlt | rfl | hgt
              · exact Or.inl (hfront i h₁ hlt)
              · exact Or.inr heio
              · exact hgoes i hgt h₂
            · have hwrapped := hpast (not_le.1 hfit)
              refine ⟨-einval, j + 1, ?_, hj, fun i h₁ h₂ => Or.inl (hfront i h₁ (by omega)),
                Or.inl (eq_last hj (not_le.1 hfit))⟩
              -- a wrapped length is refused
              rcases Nat.exists_eq_succ_of_ne_zero (n := fuel) (by omega) with ⟨fuel, rfl⟩
              simp [eraseEnvLoop, hwrapped.ne, mtdErase_behind hwrapped.behind, eio, einval]
          · refine ⟨answerOf nand nanddevErase cfg m j, j + 1, ?_, hj,
              fun i h₁ h₂ => Or.inl (hfront i h₁ (by omega)), Or.inr ⟨j, rfl, ?_⟩⟩
            · simp [eraseEnvLoop, hzero, hstop, heio]
            · rintro (h | h)
              · exact hfail h
              · exact heio h

variable (base) in
/-- The blocks the loop has tried when it ends. -/
theorem loop_walked :
    ∃ ret j, eraseEnvLoop (eraseOps nand (attempts nanddevErase) base) nand.mtd loopBound (m, [])
        cfg.envOffset cfg.envRange 0 = some (ret, walked nand nanddevErase cfg m j) ∧
      j ≤ rangeBlocks nand cfg ∧
      (∀ i, i + 1 < j → GoesOn (answerOf nand nanddevErase cfg m i)) ∧
      (j = rangeBlocks nand cfg ∨ ∃ i, i + 1 = j ∧ ¬ GoesOn (answerOf nand nanddevErase cfg m i)) := by
  have hbound := rangeBlocks_lt_loopBound nand cfg
  rcases OnTrack.loop ho hfits loopBound 0 (onTrack_start nanddevErase m ho) (by omega) with
    ⟨ret, j, hrun, hj, hgoes, hend⟩
  exact ⟨ret, j, hrun, hj, fun i => hgoes i (Nat.zero_le i), hend⟩

/-- Where the last block fails with `-EIO`, the loop reaches the call that stops at it. -/
theorem exists_last_call
    (hgoes : ∀ k, k + 1 < rangeBlocks nand cfg → GoesOn (answerOf nand nanddevErase cfg m k))
    {l : Nat} (hl : l + 1 = rangeBlocks nand cfg) (hlast : answerOf nand nanddevErase cfg m l = -eio)
    (d : Nat) :
    ∀ {n k : Nat} {s : μ × List Nat} {addr len : UInt64} {ret : Int}, l - k = d → k ≤ l →
      LoopHead (eraseOps nand (attempts nanddevErase) base) nand.mtd (m, []) cfg.envOffset cfg.envRange
        n s addr len ret →
      OnTrack nand nanddevErase cfg m k s addr len →
      ∃ n' k' s' addr' len' ret',
        LoopHead (eraseOps nand (attempts nanddevErase) base) nand.mtd (m, []) cfg.envOffset
          cfg.envRange n' s' addr' len' ret' ∧
        OnTrack nand nanddevErase cfg m k' s' addr' len' ∧ len' ≠ 0 ∧
        (mtdErase nand (attempts nanddevErase) s' addr' len').1 = -eio ∧
        ((mtdErase nand (attempts nanddevErase) s' addr' len').2.1 - addr').toNat +
          k' * nand.erasesize = l * nand.erasesize := by
  induction d using Nat.strong_induction_on with
  | _ d ih =>
      intro n k s addr len ret hd hkl hhead htrack
      have hne : len ≠ 0 := by
        intro hzero
        have hk := htrack.eq_of_zero hzero
        omega
      rcases htrack.call hne ho hfits with
        ⟨hall, _⟩ | ⟨j, failAddr, hkj, hj, _, hfail, hstop, hskip, hnext, _⟩
      · rw [hall l hkl (by omega)] at hlast
        cases hlast
      · by_cases hjl : j = l
        · subst hjl
          refine ⟨n, k, s, addr, len, ret, hhead, htrack, hne, ?_, ?_⟩
          · rw [hstop, hlast]
          · rw [hstop]
            exact hskip
        · -- a block in front of the last one
          have heio : answerOf nand nanddevErase cfg m j = -eio :=
            (hgoes j (by omega)).resolve_left hfail
          have hpass := LoopHead.pass hhead hne (by rw [eraseOps_erase, hstop, heio])
          rw [eraseOps_erase, hstop] at hpass
          have hfit := (whole_block_le nand cfg (k := j + 1) (by omega)).le
          exact ih (l - (j + 1)) (by omega) rfl (by omega) hpass (hnext hfit)

end Heads

/-- A range that does not lie in the device is refused. -/
theorem loop_refused (hne : cfg.envRange ≠ 0)
    (hout : nand.size < cfg.envOffset.toNat + cfg.envRange.toNat) :
    eraseEnvLoop (eraseOps nand (attempts nanddevErase) base) nand.mtd loopBound (m, [])
      cfg.envOffset cfg.envRange 0 = some (-einval, (m, [])) := by
  rcases Nand.exists_loopBound with ⟨fuel, hfuel⟩
  rw [hfuel]
  simp [eraseEnvLoop, hne, mtdErase_behind hout, eio, einval]

theorem loop_empty (hzero : cfg.envRange = 0) :
    eraseEnvLoop (eraseOps nand (attempts nanddevErase) base) nand.mtd loopBound (m, [])
      cfg.envOffset cfg.envRange 0 = some (0, (m, [])) := by
  rcases Nand.exists_loopBound with ⟨fuel, hfuel⟩
  rw [hfuel, eraseEnvLoop, if_pos hzero]

/-- The loop ends, whatever the device answers. -/
theorem eraseEnvLoop_returns (ho : nand.erasesize ∣ cfg.envOffset.toNat) :
    ∃ ret s, eraseEnvLoop (eraseOps nand (attempts nanddevErase) base) nand.mtd loopBound (m, [])
      cfg.envOffset cfg.envRange 0 = some (ret, s) := by
  by_cases hfits : cfg.envOffset.toNat + cfg.envRange.toNat ≤ nand.size
  · rcases loop_walked base ho hfits with ⟨ret, j, hrun, _⟩
    exact ⟨ret, _, hrun⟩
  · by_cases hzero : cfg.envRange = 0
    · exact ⟨0, (m, []), loop_empty hzero⟩
    · exact ⟨-einval, (m, []), loop_refused hzero (not_le.1 hfits)⟩

/-! ## The two sides -/

theorem count_walked (j block : Nat) :
    (walked nand nanddevErase cfg m j).2.count block =
      if firstBlock nand cfg ≤ block ∧ block < firstBlock nand cfg + j then 1 else 0 := by
  have hnodup : (List.range' (firstBlock nand cfg) j).Nodup := List.nodup_range'
  rw [walked, hnodup.count]
  simp only [List.mem_range'_1]

variable (nanddevErase m) in
/-- Every block of the range was tried exactly when the loop has got behind the last one. -/
theorem count_walked_iff (ho : nand.erasesize ∣ cfg.envOffset.toNat) {j : Nat}
    (hj : j ≤ rangeBlocks nand cfg) :
    (∀ block, (walked nand nanddevErase cfg m j).2.count block =
      if InRange nand cfg block then 1 else 0) ↔ j = rangeBlocks nand cfg := by
  constructor
  · intro h
    by_contra hne
    have hat := h (firstBlock nand cfg + j)
    have hin : InRange nand cfg (firstBlock nand cfg + j) := (inRange_iff ho _).2 ⟨by omega, by omega⟩
    rw [count_walked, if_pos hin, if_neg (by omega)] at hat
    cases hat
  · rintro rfl block
    rw [count_walked]
    simp only [inRange_iff ho]

/-- Nothing is asked for when the range is empty. -/
theorem head_of_empty (hzero : cfg.envRange = 0) {n : Nat} {s : μ × List Nat} {addr len : UInt64}
    {ret : Int}
    (h : LoopHead (eraseOps nand (attempts nanddevErase) base) nand.mtd (m, []) cfg.envOffset
      cfg.envRange n s addr len ret) : addr = cfg.envOffset ∧ len = 0 := by
  induction h with
  | start => exact ⟨rfl, hzero⟩
  | pass _ hne _ ih => exact absurd ih.2 hne

theorem erasesRange_of_empty (ho : nand.erasesize ∣ cfg.envOffset.toNat) (hzero : cfg.envRange = 0) :
    ErasesRange nand nanddevErase base cfg m where
  noWrap := by
    intro n s addr len ret hhead hne
    exact absurd (head_of_empty hzero hhead).2 hne
  atEnd := by
    intro n s addr len ret hhead
    rcases head_of_empty hzero hhead with ⟨rfl, rfl⟩
    exact Or.inl (by rw [hzero])
  once := by
    have hbounds := rangeBlocks_bounds nand cfg
    have hnone : 0 = rangeBlocks nand cfg := by
      refine (Nat.le_zero.1 (Nat.le_of_lt_succ (Nat.lt_of_mul_lt_mul_right (a := nand.erasesize) ?_))).symm
      rw [hzero, UInt64.toNat_zero] at hbounds
      omega
    exact ⟨0, _, loop_empty hzero, (count_walked_iff nanddevErase m ho (Nat.zero_le _)).2 hnone⟩

theorem erasesRange_of_erasable (ho : nand.erasesize ∣ cfg.envOffset.toNat)
    (h : RangeErasable nand nanddevErase cfg m) : ErasesRange nand nanddevErase base cfg m := by
  have hfirst : firstBlock nand cfg * nand.erasesize = cfg.envOffset.toNat := Nat.div_mul_cancel ho
  -- the last block does not reach over the end when it fails
  have hwhole : answerOf nand nanddevErase cfg m (rangeBlocks nand cfg - 1) = -eio →
      rangeBlocks nand cfg * nand.erasesize ≤ cfg.envRange.toNat := fun hbad =>
    dvd_range_iff.1 (h.last hbad)
  have htrack : ∀ {n s addr len ret},
      LoopHead (eraseOps nand (attempts nanddevErase) base) nand.mtd (m, []) cfg.envOffset
        cfg.envRange n s addr len ret → ∃ k, OnTrack nand nanddevErase cfg m k s addr len := by
    intro n s addr len ret hhead
    rcases head_cases ho h.fits hhead with htrack | ⟨_, hpast, hbad⟩
    · exact htrack
    · exact absurd (hwhole hbad) (not_le.2 hpast)
  refine ⟨?_, ?_, ?_⟩
  · intro n s addr len ret hhead hne heio
    rcases htrack hhead with ⟨k, htrack⟩
    rcases htrack.call hne ho h.fits with
      ⟨_, hdone⟩ | ⟨j, failAddr, _, hj, _, _, hstop, hskip, _, _⟩
    · rw [hdone] at heio
      cases heio
    · rw [hstop] at heio ⊢
      have hfit : (j + 1) * nand.erasesize ≤ cfg.envRange.toNat := by
        by_contra hpast
        have hlast := eq_last hj (not_le.1 hpast)
        rw [hlast] at hpast
        refine hpast (hwhole ?_)
        rw [← hlast]
        exact heio
      have hlen := htrack.len
      rw [Nat.add_mul] at hfit
      dsimp only at hskip ⊢
      omega
  · intro n s addr len ret hhead
    rcases htrack hhead with ⟨k, htrack⟩
    left
    rw [htrack.addr, Nat.add_mul, hfirst, Nat.add_assoc, Nat.add_comm _ len.toNat, htrack.len]
  · rcases loop_walked base ho h.fits with ⟨ret, j, hrun, hj, _, hend⟩
    refine ⟨ret, _, hrun, (count_walked_iff nanddevErase m ho hj).2 ?_⟩
    rcases hend with hall | ⟨i, rfl, hstop⟩
    · exact hall
    · by_contra hne
      exact hstop (h.goesOn i (by omega))

theorem erasable_of_erasesRange (ho : nand.erasesize ∣ cfg.envOffset.toNat) (hne : cfg.envRange ≠ 0)
    (h : ErasesRange nand nanddevErase base cfg m) : RangeErasable nand nanddevErase cfg m := by
  have hpos := rangeBlocks_pos nand hne
  rcases h.once with ⟨ret, s, hrun, hcount⟩
  have hfits : cfg.envOffset.toNat + cfg.envRange.toNat ≤ nand.size := by
    by_contra hout
    rw [loop_refused hne (not_le.1 hout)] at hrun
    cases hrun
    exact absurd ((count_walked_iff nanddevErase m ho (Nat.zero_le _)).1 hcount) hpos.ne
  rcases loop_walked base ho hfits with ⟨ret', j, hrun', hj, hgoes, _⟩
  rw [hrun'] at hrun
  cases hrun
  rw [count_walked_iff nanddevErase m ho hj] at hcount
  subst hcount
  refine ⟨hfits, hgoes, ?_⟩
  intro hbad
  have hlast : rangeBlocks nand cfg - 1 + 1 = rangeBlocks nand cfg := Nat.sub_add_cancel hpos
  rcases exists_last_call ho hfits hgoes hlast hbad _ rfl (Nat.zero_le _) LoopHead.start
    (onTrack_start nanddevErase m ho) with ⟨n, k, s, addr, len, ret, hhead, htrack, hne', heio, hskip⟩
  have hwrap := h.noWrap n s addr len ret hhead hne' heio
  have hlen := htrack.len
  refine dvd_range_iff.2 ?_
  calc
    rangeBlocks nand cfg * nand.erasesize
        = (rangeBlocks nand cfg - 1) * nand.erasesize + nand.erasesize := by
          rw [← Nat.succ_mul, Nat.succ_eq_add_one, hlast]
    _ ≤ len.toNat + k * nand.erasesize := by omega
    _ = cfg.envRange.toNat := hlen

/-- The loop keeps its promises exactly when there is nothing to erase or the range can be erased. -/
theorem erasesRange_iff (nand : Nand) (nanddevErase : μ → Nat → Int × μ)
    (base : EnvMtdOps (μ × List Nat)) (cfg : EnvConfig) (m : μ)
    (ho : nand.erasesize ∣ cfg.envOffset.toNat) :
    ErasesRange nand nanddevErase base cfg m ↔
      cfg.envRange = 0 ∨ RangeErasable nand nanddevErase cfg m := by
  constructor
  · intro h
    by_cases hzero : cfg.envRange = 0
    · exact Or.inl hzero
    · exact Or.inr (erasable_of_erasesRange ho hzero h)
  · rintro (hzero | h)
    · exact erasesRange_of_empty ho hzero
    · exact erasesRange_of_erasable ho h

end Range

/-! A SPI-NAND chip of 1024 blocks of 128 KiB, and the environment of the K230 boards: 64 KiB at
`0x1e0000`, with `CONFIG_ENV_RANGE` left at its default. -/

def k230Nand : Nand where
  size := 1024 * 131072
  erasesize := 131072
  writesize := 2048
  ntargets := 1
  bad := fun _ => false
  writesize_pos := page2k_pos
  writesize_dvd := page2k_dvd_block
  erasesize_pos := block128k_pos
  erasesize_lt := block128k_lt
  erasesize_dvd := by decide
  size_lt := by decide

def k230EnvConfig : EnvConfig where
  envOffset := 0x1e0000
  envSize := 0x10000
  envRange := 0x10000

/-- `nanddev_erase` on a chip with one block that cannot be erased. -/
def oneWorn (worn : Nat) (s : Unit) (block : Nat) : Int × Unit :=
  (if block = worn then -eio else 0, s)

/-- The other calls: no block is marked bad, and every page is written and read. -/
def quietOps (σ : Type) : EnvMtdOps σ where
  erase := fun s _ _ => (0, mtdFailAddrUnknown, s)
  blockIsbad := fun _ _ => 0
  writeOob := fun s _ data => (0, UInt64.ofNat data.length, s)
  readOob := fun _ _ len => (0, len, List.replicate len.toNat 0xff)

/-- With a range of two blocks the loop gets over a first block that cannot be erased. -/
theorem erasesRange_two_blocks :
    ErasesRange k230Nand (oneWorn 15) (quietOps _) { k230EnvConfig with envRange := 0x40000 } () := by
  refine (erasesRange_iff _ _ _ _ () (by decide)).2 (Or.inr ⟨by decide, ?_, fun _ => by decide⟩)
  intro k hk
  have hfirst : k = 0 := by
    have htwo : k + 1 < 2 := hk
    omega
  subst hfirst
  right
  decide

/-- With the range of the boards a block that cannot be erased wraps the length, and nothing is
written, whatever the environment is. -/
theorem worn_block_wraps_length :
    k230Nand.erasesize ∣ k230EnvConfig.envOffset.toNat ∧
      k230EnvConfig.envSize ≤ k230EnvConfig.envRange ∧
      ¬ ErasesRange k230Nand (oneWorn 15) (quietOps _) k230EnvConfig () ∧
      LoopHead (eraseOps k230Nand (attempts (oneWorn 15)) (quietOps _)) k230Nand.mtd ((), [])
        k230EnvConfig.envOffset k230EnvConfig.envRange 1 ((), [15]) 0x200000 0xffffffffffff0000 (-eio) ∧
      ∀ envNew, eraseAndWriteEnv k230EnvConfig (some k230Nand.mtd)
        (eraseOps k230Nand (attempts (oneWorn 15)) (quietOps _)) ((), []) envNew =
          some (1, ((), [15])) := by
  refine ⟨by decide, by decide, ?_, ?_, ?_⟩
  · intro h
    have herasable := erasable_of_erasesRange (by decide) (by decide) h
    exact absurd (herasable.last (by decide)) (by decide)
  · exact LoopHead.pass LoopHead.start (by decide) (by decide)
  · intro envNew
    have haligned : mtdIsAlignedWithBlockSize k230Nand.mtd k230EnvConfig.envOffset = true := by decide
    have hloop : eraseEnvLoop (eraseOps k230Nand (attempts (oneWorn 15)) (quietOps _)) k230Nand.mtd
        loopBound ((), []) k230EnvConfig.envOffset k230EnvConfig.envRange 0 =
          some (-einval, ((), [15])) := by
      decide +kernel
    simp [eraseAndWriteEnv, haligned, hloop, eio, einval]

end Env
end CanmvK230
