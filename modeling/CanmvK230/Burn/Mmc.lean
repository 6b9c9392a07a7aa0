import CanmvK230.Burn.Burner

/-!
# Mmc — the card back end (`kburn_mmc.c`)

`mmc_op` turns a byte range into a range of blocks: the length is rounded up to whole blocks in
`*len`, the offset is divided by the block size, and both block numbers are kept in 32 bits.  The
lemmas of the first half say what these computations are over the naturals (`toNat_alignUp`,
`toNat_blkStart`, `toNat_blkCount`).

The main theorem is about a card that does exactly what it is asked (`ActsExactly`): `mmc_op_exact_iff`
says for which offsets and lengths a write that reports success has stored the buffer at the offset,
and an erase that reports success has erased blocks of the range only.
-/

namespace CanmvK230
namespace Burn

open Lib

/-! ## The block device -/

/-- What `kburn_mmc.c` uses of `struct blk_desc` and of `blk_dwrite` and `blk_derase`.  The block
size is a power of two that `mmc_startup` copies from `mmc->read_bl_len`, a `uint`. -/
structure MmcDesc (μ : Type) where
  lba : UInt64
  log2blksz : Nat
  log2blksz_lt : log2blksz < 32
  blkDwrite : μ → UInt64 → UInt64 → ByteMem → UInt64 × μ
  blkDerase : μ → UInt64 → UInt64 → UInt64 × μ

section Op

variable {μ : Type} (desc : MmcDesc μ)

def MmcDesc.blksz : UInt64 := UInt64.ofNat (2 ^ desc.log2blksz)

/-- The macro `ALIGN` of `kernel.h`, at 64 bits. -/
def alignUp (x a : UInt64) : UInt64 :=
  (x + (a - 1)) &&& ~~~(a - 1)

def lldiv (dividend : UInt64) (divisor : UInt32) : UInt64 :=
  dividend / divisor.toUInt64

/-- `blk_start` of `mmc_op`. -/
def blkStart (offset : UInt64) : UInt32 :=
  (lldiv offset desc.blksz.toUInt32).toUInt32

/-- `blk_count` of `mmc_op`, from the rounded length. -/
def blkCount (len : UInt64) : UInt32 :=
  (len / desc.blksz).toUInt32

/-- `mmc_op` with the operation `op` on the device: the result, the new `*len` and the device.  The
range test adds two 32-bit numbers. -/
def mmcOp (op : UInt64 → UInt64 → UInt64 × μ) (m : μ) (offset len : UInt64) : Int × UInt64 × μ :=
  let len := alignUp len desc.blksz
  let start := blkStart desc offset
  let count := blkCount desc len
  if (start + count).toUInt64 > desc.lba then
    (4, len, m) -- "Request would exceed designated area!"
  else
    let n := op start.toUInt64 count.toUInt64
    if n.1.toUInt32 ≠ count then
      (5, len, n.2) -- "MMC operation failed"
    else
      (0, len, n.2)

def mmcWriteMedium : WriteMedium μ := fun m offset buf len =>
  some (mmcOp desc (fun start count => desc.blkDwrite m start count buf) m offset len)

def mmcEraseMedium : EraseMedium μ := fun m offset len =>
  some (mmcOp desc (fun start count => desc.blkDerase m start count) m offset len)

/-- What `mmc_get_medium_info` reports of a card. -/
def mmcMediumDesc (eraseGrpSize : UInt32) (wp : BitVec 8) : MediumDesc :=
  { capacity := desc.lba * desc.blksz
    blkSize := desc.blksz
    eraseSize := eraseGrpSize.toUInt64 * desc.blksz
    wp := wp }

/-- What `kburn_mmc_probe` fills in for the card it has found. -/
def kburnMmcProbe (eraseGrpSize : UInt32) (wp : BitVec 8) : KburnOps μ where
  desc := mmcMediumDesc desc eraseGrpSize wp
  getMediumInfo := some mmcGetMediumInfo
  writeMedium := some (mmcWriteMedium desc)
  eraseMedium := some (mmcEraseMedium desc)
  destory := some fun m => (0, m)

end Op

/-! ## The computations, over the naturals -/

section Arithmetic

variable {μ : Type} {desc : MmcDesc μ}

theorem toNat_blksz (desc : MmcDesc μ) : desc.blksz.toNat = 2 ^ desc.log2blksz := by
  have hlt : 2 ^ desc.log2blksz < 2 ^ 64 :=
    Nat.pow_lt_pow_right (by decide) (by have := desc.log2blksz_lt; omega)
  rw [MmcDesc.blksz, UInt64.toNat_ofNat', Nat.mod_eq_of_lt hlt]

theorem blksz_pos (desc : MmcDesc μ) : 0 < desc.blksz.toNat := by
  rw [toNat_blksz]
  positivity

/-- A block is shorter than the 32-bit divisor of `lldiv` can say. -/
theorem blksz_lt (desc : MmcDesc μ) : desc.blksz.toNat < 2 ^ 32 := by
  rw [toNat_blksz]
  exact Nat.pow_lt_pow_right (by decide) desc.log2blksz_lt

/-- `2 ^ 64` bytes are whole blocks. -/
theorem blksz_dvd (desc : MmcDesc μ) : desc.blksz.toNat ∣ 2 ^ 64 := by
  rw [toNat_blksz]
  exact pow_dvd_pow 2 (by have := desc.log2blksz_lt; omega)

/-- Clearing the low bits rounds down. -/
theorem and_not_mask (n k : Nat) (hn : n < 2 ^ 64) (hk : k ≤ 64) :
    n &&& (2 ^ 64 - 1 - (2 ^ k - 1)) = n / 2 ^ k * 2 ^ k := by
  have hmask : 2 ^ 64 - 1 - (2 ^ k - 1) = 2 ^ 64 - ((2 ^ k - 1) + 1) := by
    omega
  refine Nat.eq_of_testBit_eq ?_
  intro i
  -- bit `i` stays exactly when it is a bit of the quotient
  rw [hmask, Nat.testBit_and, Nat.testBit_two_pow_sub_succ (by
    have : 2 ^ k ≤ 2 ^ 64 := Nat.pow_le_pow_right (by decide) hk
    have : 0 < 2 ^ k := by positivity
    omega), Nat.testBit_two_pow_sub_one, Nat.testBit_mul_two_pow, Nat.testBit_div_two_pow]
  by_cases hik : i < k
  · simp [hik]
  · have hshift : i - k + k = i := by omega
    by_cases hi : i < 64
    · simp [hik, hi, hshift, Nat.not_lt.1 hik]
    · have hbig : n.testBit i = false :=
        Nat.testBit_lt_two_pow (lt_of_lt_of_le hn (Nat.pow_le_pow_right (by decide) (by omega)))
      simp [hi, hshift, hbig]

/-- `ALIGN` rounds up to whole blocks, and wraps to zero above the last block of `2 ^ 64`. -/
theorem toNat_alignUp (desc : MmcDesc μ) (len : UInt64) :
    (alignUp len desc.blksz).toNat =
      (len.toNat + (desc.blksz.toNat - 1)) % 2 ^ 64 / desc.blksz.toNat * desc.blksz.toNat := by
  have hone : (1 : UInt64) ≤ desc.blksz := by
    rw [UInt64.le_iff_toNat_le]
    exact blksz_pos desc
  have hmask : (desc.blksz - 1).toNat = 2 ^ desc.log2blksz - 1 := by
    rw [UInt64.toNat_sub_of_le _ _ hone, toNat_blksz]
    rfl
  have hk : desc.log2blksz ≤ 64 := by
    have := desc.log2blksz_lt
    omega
  rw [alignUp, UInt64.toNat_and, UInt64.toNat_not, UInt64.toNat_add, hmask, toNat_blksz]
  exact and_not_mask _ _ (Nat.mod_lt _ (by decide)) hk

/-- The number of blocks that `len` bytes are rounded up to, before it is cut to 32 bits. -/
def blocksOf (desc : MmcDesc μ) (len : UInt64) : Nat :=
  (len.toNat + (desc.blksz.toNat - 1)) % 2 ^ 64 / desc.blksz.toNat

theorem toNat_alignUp_div (desc : MmcDesc μ) (len : UInt64) :
    (alignUp len desc.blksz).toNat / desc.blksz.toNat = blocksOf desc len := by
  rw [toNat_alignUp, Nat.mul_div_cancel _ (blksz_pos desc), blocksOf]

theorem toNat_blkStart (desc : MmcDesc μ) (offset : UInt64) :
    (blkStart desc offset).toNat = offset.toNat / desc.blksz.toNat % 2 ^ 32 := by
  have hdivisor : desc.blksz.toUInt32.toUInt64.toNat = desc.blksz.toNat := by
    rw [UInt32.toNat_toUInt64, UInt64.toNat_toUInt32]
    exact Nat.mod_eq_of_lt (blksz_lt desc)
  rw [blkStart, UInt64.toNat_toUInt32, lldiv, UInt64.toNat_div, hdivisor]

theorem toNat_blkCount (desc : MmcDesc μ) (len : UInt64) :
    (blkCount desc (alignUp len desc.blksz)).toNat = blocksOf desc len % 2 ^ 32 := by
  rw [blkCount, UInt64.toNat_toUInt32, UInt64.toNat_div, toNat_alignUp_div]

/-- Whole blocks are rounded to themselves. -/
theorem blocksOf_of_dvd {len : UInt64} (h : desc.blksz.toNat ∣ len.toNat) :
    blocksOf desc len = len.toNat / desc.blksz.toNat := by
  have hpos := blksz_pos desc
  rcases blksz_dvd desc with ⟨n, hn⟩
  rcases h with ⟨q, hq⟩
  have hlt : desc.blksz.toNat * q < desc.blksz.toNat * n := by
    rw [← hq, ← hn]
    exact len.toNat_lt
  -- the last block of `2 ^ 64` ends at `2 ^ 64`, so the sum does not wrap
  have hq' : q + 1 ≤ n := Nat.lt_of_mul_lt_mul_left hlt
  have hroom : desc.blksz.toNat * q + desc.blksz.toNat ≤ 2 ^ 64 := by
    calc desc.blksz.toNat * q + desc.blksz.toNat
        = desc.blksz.toNat * (q + 1) := by rw [Nat.mul_add, Nat.mul_one]
      _ ≤ desc.blksz.toNat * n := Nat.mul_le_mul_left _ hq'
      _ = 2 ^ 64 := hn.symm
  rw [blocksOf, hq, Nat.mod_eq_of_lt (by omega), Nat.mul_add_div hpos,
    Nat.div_eq_of_lt (by omega), Nat.mul_div_cancel_left _ hpos, Nat.add_zero]

/-- `*len` comes back as it was exactly for whole blocks. -/
theorem alignUp_eq_self_iff (desc : MmcDesc μ) (len : UInt64) :
    alignUp len desc.blksz = len ↔ desc.blksz.toNat ∣ len.toNat := by
  rw [← UInt64.toNat_inj]
  constructor
  · intro h
    rw [← h, toNat_alignUp]
    exact Nat.dvd_mul_left _ _
  · intro h
    have hblocks := blocksOf_of_dvd h
    rw [blocksOf] at hblocks
    rw [toNat_alignUp, hblocks, Nat.div_mul_cancel h]

/-- A rounded length is never more than one block too long. -/
theorem blocksOf_mul_lt (desc : MmcDesc μ) {len : UInt64} (h : blocksOf desc len ≠ 0) :
    (blocksOf desc len - 1) * desc.blksz.toNat < len.toNat := by
  have hpos := blksz_pos desc
  have hle : blocksOf desc len * desc.blksz.toNat ≤ len.toNat + (desc.blksz.toNat - 1) :=
    le_trans (Nat.div_mul_le_self _ _) (Nat.mod_le _ _)
  rw [Nat.sub_mul, Nat.one_mul]
  have hone : desc.blksz.toNat ≤ blocksOf desc len * desc.blksz.toNat :=
    Nat.le_mul_of_pos_left _ (Nat.pos_of_ne_zero h)
  omega

/-- The test "Request would exceed designated area!", over the naturals. -/
def Refused (desc : MmcDesc μ) (offset len : UInt64) : Prop :=
  desc.lba.toNat <
    (offset.toNat / desc.blksz.toNat % 2 ^ 32 + blocksOf desc len % 2 ^ 32) % 2 ^ 32

theorem refused_iff (desc : MmcDesc μ) (offset len : UInt64) :
    (blkStart desc offset + blkCount desc (alignUp len desc.blksz)).toUInt64 > desc.lba ↔
      Refused desc offset len := by
  rw [gt_iff_lt, UInt64.lt_iff_toNat_lt, UInt32.toNat_toUInt64, UInt32.toNat_add, toNat_blkStart,
    toNat_blkCount, Refused]

/-- An operation that answers with the count it was given: refused, or done. -/
theorem mmcOp_of_count (desc : MmcDesc μ) (op : UInt64 → UInt64 → UInt64 × μ) (m : μ) (offset len : UInt64)
    (hop : (op (blkStart desc offset).toUInt64
      (blkCount desc (alignUp len desc.blksz)).toUInt64).1 =
        (blkCount desc (alignUp len desc.blksz)).toUInt64) :
    (Refused desc offset len ∧ mmcOp desc op m offset len = (4, alignUp len desc.blksz, m)) ∨
      (¬ Refused desc offset len ∧
        mmcOp desc op m offset len = (0, alignUp len desc.blksz,
          (op (blkStart desc offset).toUInt64
            (blkCount desc (alignUp len desc.blksz)).toUInt64).2)) := by
  by_cases href : Refused desc offset len
  · refine Or.inl ⟨href, ?_⟩
    simp only [mmcOp, if_pos ((refused_iff desc offset len).2 href)]
  · refine Or.inr ⟨href, ?_⟩
    have hgo := fun h => href ((refused_iff desc offset len).1 h)
    simp only [mmcOp, if_neg hgo, hop, UInt32.toUInt32_toUInt64, ne_eq, not_true_eq_false,
      if_false]

end Arithmetic

/-! ## A card that does what it is asked -/

/-- The bytes of a card and the numbers of the blocks erased so far. -/
structure Card where
  content : ByteMem
  erases : List Nat

/-- `blk_dwrite` and `blk_derase` act on exactly the blocks they are given and return the count. -/
structure ActsExactly (desc : MmcDesc Card) : Prop where
  write : ∀ m start count buf,
    desc.blkDwrite m start count buf =
      (count,
        { m with
          content := m.content.write (start.toNat * desc.blksz.toNat)
            (buf.read 0 (count.toNat * desc.blksz.toNat)) })
  erase : ∀ m start count,
    (desc.blkDerase m start count).1 = count ∧
      (desc.blkDerase m start count).2.erases = m.erases ++ List.range' start.toNat count.toNat

/-- A write that succeeds and leaves `*len` as it was has stored the buffer at the offset and nothing
elsewhere. -/
def WriteExact (desc : MmcDesc Card) (offset len : UInt64) : Prop :=
  ∀ m buf m', mmcWriteMedium desc m offset buf len = some (0, len, m') →
    m'.content = m.content.write offset.toNat (buf.read 0 len.toNat)

/-- Block `i` has a byte in `[offset, offset + len)`. -/
def Covers (desc : MmcDesc Card) (offset len : UInt64) (i : Nat) : Prop :=
  i * desc.blksz.toNat < offset.toNat + len.toNat ∧ offset.toNat < (i + 1) * desc.blksz.toNat

/-- An erase that succeeds has erased blocks of the range only, and none behind the end. -/
def EraseContained (desc : MmcDesc Card) (offset len : UInt64) : Prop :=
  ∀ m len' m', mmcEraseMedium desc m offset len = some (0, len', m') →
    ∀ i ∈ m'.erases, i ∈ m.erases ∨ (Covers desc offset len i ∧ i < desc.lba.toNat)

/-- The blocks of the write, when there are any, start at the offset, and both their numbers fit into
32 bits. -/
def WholeBlockRange (desc : MmcDesc Card) (offset len : UInt64) : Prop :=
  desc.blksz.toNat ∣ offset.toNat ∧ offset.toNat / desc.blksz.toNat < 2 ^ 32 ∧
    len.toNat / desc.blksz.toNat < 2 ^ 32

section Exact

variable {desc : MmcDesc Card}

theorem mmcWriteMedium_card (hacts : ActsExactly desc) (offset len : UInt64) (m : Card) (buf : ByteMem) :
    (Refused desc offset len ∧
        mmcWriteMedium desc m offset buf len =
          some (4, alignUp len desc.blksz, m)) ∨
      (¬ Refused desc offset len ∧
        mmcWriteMedium desc m offset buf len =
          some (0, alignUp len desc.blksz,
            { m with
              content := m.content.write
                (offset.toNat / desc.blksz.toNat % 2 ^ 32 *
                  desc.blksz.toNat)
                (buf.read 0 (blocksOf desc len % 2 ^ 32 *
                  desc.blksz.toNat)) })) := by
  rcases mmcOp_of_count desc (fun start count => desc.blkDwrite m start count buf) m offset len
    (by rw [hacts.write]) with
    ⟨href, hop⟩ | ⟨href, hop⟩
  · exact Or.inl ⟨href, congrArg some hop⟩
  · refine Or.inr ⟨href, (congrArg some hop).trans ?_⟩
    rw [hacts.write, UInt32.toNat_toUInt64, UInt32.toNat_toUInt64, toNat_blkStart, toNat_blkCount]

theorem mmcEraseMedium_card (hacts : ActsExactly desc) (offset len : UInt64) (m : Card) :
    (Refused desc offset len ∧
        mmcEraseMedium desc m offset len =
          some (4, alignUp len desc.blksz, m)) ∨
      (¬ Refused desc offset len ∧
        ∃ m', mmcEraseMedium desc m offset len =
            some (0, alignUp len desc.blksz, m') ∧
          m'.erases = m.erases ++
            List.range' (offset.toNat / desc.blksz.toNat % 2 ^ 32)
              (blocksOf desc len % 2 ^ 32)) := by
  rcases mmcOp_of_count desc (fun start count => desc.blkDerase m start count) m offset len
    (hacts.erase _ _ _).1 with
    ⟨href, hop⟩ | ⟨href, hop⟩
  · exact Or.inl ⟨href, congrArg some hop⟩
  · refine Or.inr ⟨href, _, congrArg some hop, ?_⟩
    rw [(hacts.erase _ _ _).2, UInt32.toNat_toUInt64, UInt32.toNat_toUInt64, toNat_blkStart,
      toNat_blkCount]

/-- Where ones were written over zeros. -/
theorem write_ones_eq_one_iff (p n a : Nat) :
    ByteMem.write (fun _ => 0) p (ByteMem.read (fun _ => 1) 0 n) a = 1 ↔ p ≤ a ∧ a < p + n := by
  constructor
  · intro h
    by_contra hout
    rw [ByteMem.write_frame _ (by rw [ByteMem.length_read]; omega)] at h
    exact absurd h (by decide)
  · rintro ⟨hlo, hhi⟩
    have hi : a - p < (ByteMem.read (fun _ => 1) 0 n).length := by
      rw [ByteMem.length_read]
      omega
    have hat := ByteMem.write_at (fun _ => 0) p hi
    rw [Nat.add_sub_cancel' hlo] at hat
    rw [hat, ByteMem.getElem_read]

/-- Ones over zeros show where they were written. -/
theorem range_of_write_ones {p n q n' : Nat} (hpos : 0 < n')
    (h : ByteMem.write (fun _ => 0) p (ByteMem.read (fun _ => 1) 0 n) =
      ByteMem.write (fun _ => 0) q (ByteMem.read (fun _ => 1) 0 n')) : p = q ∧ n = n' := by
  have hiff : ∀ a, (p ≤ a ∧ a < p + n) ↔ (q ≤ a ∧ a < q + n') := by
    intro a
    rw [← write_ones_eq_one_iff, ← write_ones_eq_one_iff, h]
  have hfirst := (hiff q).2 (by omega)
  have hlast := (hiff (q + n' - 1)).2 (by omega)
  have hstart := (hiff p).1 (by omega)
  have hend := (hiff (p + n - 1)).1 (by omega)
  omega

/-- A product with a remainder that gives the number back had a small quotient. -/
theorem lt_of_mod_mul_eq {x b : Nat} (hpos : 0 < b) (h : x / b % 2 ^ 32 * b = x) :
    x / b < 2 ^ 32 := by
  have hquot : x / b = x / b % 2 ^ 32 := by
    conv_lhs => rw [← h]
    exact Nat.mul_div_cancel _ hpos
  rw [hquot]
  exact Nat.mod_lt _ (by decide)

theorem writeExact_iff (hacts : ActsExactly desc) (offset len : UInt64) :
    WriteExact desc offset len ↔
      Refused desc offset len ∨
        ¬ desc.blksz.toNat ∣ len.toNat ∨ len = 0 ∨
        WholeBlockRange desc offset len := by
  have hpos := blksz_pos desc
  constructor
  · intro hexact
    by_contra hcond
    simp only [not_or, not_not] at hcond
    rcases hcond with ⟨href, hdvd, hne, hrange⟩
    apply hrange
    rcases mmcWriteMedium_card hacts offset len ⟨fun _ => 0, []⟩ (fun _ => 1) with ⟨h, _⟩ | ⟨_, hrun⟩
    · exact absurd h href
    · rw [(alignUp_eq_self_iff _ _).2 hdvd] at hrun
      have hcontent := hexact _ _ _ hrun
      -- ones on an empty card show which bytes were written
      rcases range_of_write_ones (toNat_pos_of_ne_zero hne) hcontent with ⟨hstart, hcount⟩
      rw [blocksOf_of_dvd hdvd] at hcount
      exact ⟨⟨_, ((Nat.mul_comm _ _).trans hstart).symm⟩, lt_of_mod_mul_eq hpos hstart,
        lt_of_mod_mul_eq hpos hcount⟩
  · intro hcond m buf m' hrun
    rcases mmcWriteMedium_card hacts offset len m buf with ⟨_, hrun'⟩ | ⟨href, hrun'⟩
    · rw [hrun] at hrun'
      cases hrun'
    · rw [hrun, Option.some.injEq, Prod.mk.injEq, Prod.mk.injEq] at hrun'
      rcases hrun' with ⟨_, hlen, rfl⟩
      have hdvd := (alignUp_eq_self_iff _ _).1 hlen.symm
      dsimp only
      rw [blocksOf_of_dvd hdvd]
      rcases hcond with h | h | h | ⟨hoffset, hstart, hcount⟩
      · exact absurd h href
      · exact absurd hdvd h
      · -- nothing to write, and no block is written
        subst h
        simp
      · rw [Nat.mod_eq_of_lt hstart, Nat.mod_eq_of_lt hcount, Nat.div_mul_cancel hoffset,
          Nat.div_mul_cancel hdvd]

theorem eraseContained_iff (hacts : ActsExactly desc) (offset len : UInt64) :
    EraseContained desc offset len ↔
      Refused desc offset len ∨
        blocksOf desc len % 2 ^ 32 = 0 ∨
        (offset.toNat / desc.blksz.toNat < 2 ^ 32 ∧
          offset.toNat / desc.blksz.toNat +
            blocksOf desc len % 2 ^ 32 ≤ desc.lba.toNat) := by
  have hpos := blksz_pos desc
  constructor
  · intro hcontained
    by_cases href : Refused desc offset len
    · exact Or.inl href
    by_cases hzero : blocksOf desc len % 2 ^ 32 = 0
    · exact Or.inr (Or.inl hzero)
    refine Or.inr (Or.inr ?_)
    rcases mmcEraseMedium_card hacts offset len ⟨fun _ => 0, []⟩ with ⟨h, _⟩ | ⟨_, m', hrun, herases⟩
    · exact absurd h href
    · have hblock := hcontained _ _ _ hrun
      simp only [herases, List.nil_append, List.mem_range'_1, List.not_mem_nil, false_or] at hblock
      -- the first block erased is the block of the offset, the last one lies inside the card
      have hfirst := (hblock _ ⟨le_rfl, by omega⟩).1.2
      have hlast := (hblock _ ⟨Nat.le_add_right _ _,
        Nat.add_lt_add_left (Nat.sub_one_lt hzero) _⟩).2
      have hstart := Nat.div_lt_of_lt_mul (Nat.mul_comm _ _ ▸ hfirst)
      have hmod := Nat.mod_le (offset.toNat / desc.blksz.toNat) (2 ^ 32)
      have hlt := Nat.mod_lt (offset.toNat / desc.blksz.toNat)
        (show 0 < 2 ^ 32 by decide)
      have hlast' : _ < desc.lba.toNat := hlast
      omega
  · intro hcond m len' m' hrun i hi
    rcases mmcEraseMedium_card hacts offset len m with ⟨_, hrun'⟩ | ⟨href, m'', hrun', herases⟩
    · rw [hrun] at hrun'
      cases hrun'
    · rw [hrun] at hrun'
      cases hrun'
      rw [herases, List.mem_append, List.mem_range'_1] at hi
      rcases hi with hi | ⟨hlo, hhi⟩
      · exact Or.inl hi
      right
      rcases hcond with h | h | ⟨hstart, hend⟩
      · exact absurd h href
      · omega
      · rw [Nat.mod_eq_of_lt hstart] at hlo hhi
        have hne : blocksOf desc len ≠ 0 := by
          intro h0
          simp [h0] at hhi
          omega
        have hcut := Nat.mod_le (blocksOf desc len) (2 ^ 32)
        have hround := blocksOf_mul_lt desc hne
        refine ⟨⟨?_, ?_⟩, show i < desc.lba.toNat by omega⟩
        · -- at most the block of the offset and the blocks of the rounded length
          have hi : i ≤ offset.toNat / desc.blksz.toNat +
              (blocksOf desc len - 1) := by omega
          calc i * desc.blksz.toNat
              ≤ (offset.toNat / desc.blksz.toNat +
                  (blocksOf desc len - 1)) *
                    desc.blksz.toNat := Nat.mul_le_mul_right _ hi
            _ = offset.toNat / desc.blksz.toNat *
                  desc.blksz.toNat +
                (blocksOf desc len - 1) *
                  desc.blksz.toNat := Nat.add_mul _ _ _
            _ < offset.toNat + len.toNat :=
                Nat.add_lt_add_of_le_of_lt (Nat.div_mul_le_self _ _) hround
        · have hlt : offset.toNat / desc.blksz.toNat < i + 1 := by omega
          exact Nat.lt_mul_of_div_lt hlt hpos

/-- When the code does what its result says.  The range test refuses the request; or the blocks of
the erase have numbers below `2 ^ 32` and end inside the card when the sum is taken without a wrap,
and the write is of no whole blocks, of none at all, or of whole blocks at a whole block, with
numbers that 32 bits can hold. -/
def ExactWhen (desc : MmcDesc Card) (offset len : UInt64) : Prop :=
  Refused desc offset len ∨
    ((¬ desc.blksz.toNat ∣ len.toNat ∨ len = 0 ∨ WholeBlockRange desc offset len) ∧
      (blocksOf desc len % 2 ^ 32 = 0 ∨
        (offset.toNat / desc.blksz.toNat < 2 ^ 32 ∧
          offset.toNat / desc.blksz.toNat + blocksOf desc len % 2 ^ 32 ≤ desc.lba.toNat)))

/-- A successful write has stored exactly the buffer and a successful erase has erased blocks of the
range only, exactly for the offsets and lengths of `ExactWhen`. -/
theorem mmc_op_exact_iff (desc : MmcDesc Card) (hacts : ActsExactly desc) (offset len : UInt64) :
    WriteExact desc offset len ∧ EraseContained desc offset len ↔ ExactWhen desc offset len := by
  rw [writeExact_iff hacts, eraseContained_iff hacts, ExactWhen, ← or_and_left]

end Exact

/-! ## A card of 512-byte blocks -/

theorem log2blksz_sector_lt : 9 < 32 := by
  decide

/-- A card with `lba` blocks of 512 bytes, which reads as zeros where it was erased. -/
def sectorCard (lba : UInt64) : MmcDesc Card where
  lba := lba
  log2blksz := 9
  log2blksz_lt := log2blksz_sector_lt
  blkDwrite m start count buf :=
    (count,
      { m with content := m.content.write (start.toNat * 512) (buf.read 0 (count.toNat * 512)) })
  blkDerase m start count :=
    (count,
      { content := m.content.fill (start.toNat * 512) (count.toNat * 512) 0
        erases := m.erases ++ List.range' start.toNat count.toNat })

theorem actsExactly_sectorCard (lba : UInt64) : ActsExactly (sectorCard lba) where
  write := by
    intro m start count buf
    rw [toNat_blksz]
    rfl
  erase := fun _ _ _ => ⟨rfl, rfl⟩

/-- One sector from the second on, of a card of eight. -/
theorem mmc_op_exact_second_sector :
    ExactWhen (sectorCard 8) 512 512 ∧ WriteExact (sectorCard 8) 512 512 ∧
      EraseContained (sectorCard 8) 512 512 := by
  have hwhen : ExactWhen (sectorCard 8) 512 512 := by
    simp only [ExactWhen, Refused, WholeBlockRange, blocksOf, toNat_blksz]
    decide
  exact ⟨hwhen, (mmc_op_exact_iff (sectorCard 8) (actsExactly_sectorCard 8) 512 512).2 hwhen⟩

/-- On a card of eight sectors, all with success: 512 bytes written at byte 100 go to byte 0, an erase
of 512 bytes from byte `2 ^ 41` on erases sector 0, and one of 1024 bytes from `2 ^ 41 - 512` on
erases sectors that the card does not have. -/
theorem mmc_op_wrong_blocks :
    (∃ m', mmcWriteMedium (sectorCard 8) ⟨fun _ => 0, []⟩ 100 (fun _ => 1) 512 = some (0, 512, m') ∧
      m'.content 0 = 1 ∧ ¬ WriteExact (sectorCard 8) 100 512) ∧
    (∃ m', mmcEraseMedium (sectorCard 8) ⟨fun _ => 0, []⟩ (2 ^ 41) 512 = some (0, 512, m') ∧
      m'.erases = [0] ∧ ¬ EraseContained (sectorCard 8) (2 ^ 41) 512) ∧
    (∃ m', mmcEraseMedium (sectorCard 8) ⟨fun _ => 0, []⟩ (2 ^ 41 - 512) 1024 =
        some (0, 1024, m') ∧
      m'.erases = [2 ^ 32 - 1, 2 ^ 32] ∧ ¬ EraseContained (sectorCard 8) (2 ^ 41 - 512) 1024) := by
  refine ⟨?_, ⟨_, rfl, rfl, ?_⟩, ⟨_, rfl, rfl, ?_⟩⟩
  · have hwhole : alignUp 512 (sectorCard 8).blksz = 512 := by
      decide
    rcases mmcWriteMedium_card (actsExactly_sectorCard 8) 100 512 ⟨fun _ => 0, []⟩ (fun _ => 1) with
      ⟨href, _⟩ | ⟨_, hrun⟩
    · simp only [Refused, blocksOf, toNat_blksz] at href
      exact absurd href (by decide)
    · rw [hwhole] at hrun
      refine ⟨_, hrun, ?_, ?_⟩
      · rw [write_ones_eq_one_iff]
        simp only [blocksOf, toNat_blksz]
        decide
      · rw [writeExact_iff (actsExactly_sectorCard 8)]
        simp only [Refused, WholeBlockRange, blocksOf, toNat_blksz]
        decide
  · rw [eraseContained_iff (actsExactly_sectorCard 8)]
    simp only [Refused, blocksOf, toNat_blksz]
    decide
  · rw [eraseContained_iff (actsExactly_sectorCard 8)]
    simp only [Refused, blocksOf, toNat_blksz]
    decide

end Burn
end CanmvK230
