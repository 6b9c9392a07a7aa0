import CanmvK230.Lib.BitField
import CanmvK230.Burn.NandPos

/-!
# Bbt — the table of block states as it is kept in memory (`drivers/mtd/nand/bbt.c`, `core.c`)

`NandCore` has a state for every block.  In memory the states are fields of three bits in words of 64, and
every 64 blocks two of the fields lie across two words (`straddles_iff`).  For these the mask that is to
clear the old state asks for a shift by a negative count, which C leaves open and RISC-V takes modulo 64.

On any machine the table and the map of `NandCore` agree as long as no block is marked bad; on RISC-V they
agree in all runs with a map in which a block that is marked bad becomes worn, but *reserved* where its
field lies across two words (`bbt_refines`).  So `nanddev_markbad` is lost on two blocks of 64
(`marked_block_isbad_iff`).
-/

namespace CanmvK230
namespace Burn

open Lib

/-! ## `bbt.c` -/

def erange : Int := 34

/-- The values of `enum nand_bbt_block_status`. -/
def BbtStatus.code : BbtStatus → Nat
  | .unknown => 0
  | .good => 1
  | .worn => 2
  | .reserved => 3
  | .factoryBad => 4

/-- `NAND_BBT_BLOCK_NUM_STATUS` -/
def bbtBlockNumStatus : Nat := 5

/-- `unsigned int bits_per_block = fls(NAND_BBT_BLOCK_NUM_STATUS)` -/
def bitsPerBlock : Nat := fls bbtBlockNumStatus

section Source

variable (org : MemOrg) (beyond : Nat → BitVec 64)

/-- `nanddev_neraseblocks`, which multiplies by the pages of a block where it means the dies. -/
def MemOrg.neraseblocks : Nat :=
  org.lunsPerTarget * org.eraseblocksPerLun * org.pagesPerEraseblock % 2 ^ 32

/-- `GENMASK`.  For a bit behind the word `BITS_PER_LONG - 1 - (h)` is negative; what the shift gives then
is `beyond h`. -/
def genmask (h l : Nat) : BitVec 64 :=
  BitVec.allOnes 64 <<< l &&& (if h ≤ 63 then BitVec.allOnes 64 >>> (63 - h) else beyond h)

/-- `srl` takes the last six bits of its count. -/
def riscvBeyond (h : Nat) : BitVec 64 := BitVec.allOnes 64 >>> (127 - h)

/-- The bytes that `nanddev_bbt_init` allocates: as many as it has counted words. -/
def bbtCacheBytes : Nat := (org.neraseblocks * bitsPerBlock % 2 ^ 32 + 63) / 64

/-- `nanddev_bbt_get_block_status` -/
def bbtGetBlockStatus (cache : Nat → BitVec 64) (entry : Nat) : Int :=
  let pos := entry * bitsPerBlock % 2 ^ 32 / 64
  let offs := entry * bitsPerBlock % 2 ^ 32 % 64
  if entry ≥ org.neraseblocks then
    -erange
  else
    let status := cache pos >>> offs
    let status := if bitsPerBlock + offs > 64 then status ||| cache (pos + 1) <<< (64 - offs) else status
    (status &&& genmask beyond (bitsPerBlock - 1) 0).toNat

/-- `nanddev_bbt_set_block_status` -/
def bbtSetBlockStatus (cache : Nat → BitVec 64) (entry : Nat) (status : BbtStatus) :
    Int × (Nat → BitVec 64) :=
  let pos := entry * bitsPerBlock % 2 ^ 32 / 64
  let offs := entry * bitsPerBlock % 2 ^ 32 % 64
  let val := BitVec.ofNat 64 status.code &&& genmask beyond (bitsPerBlock - 1) 0
  if entry ≥ org.neraseblocks then
    (-erange, cache)
  else
    let cache := Function.update cache pos
      ((cache pos &&& ~~~genmask beyond (offs + bitsPerBlock - 1) offs) ||| val <<< offs)
    if bitsPerBlock + offs > 64 then
      let rbits := bitsPerBlock + offs - 64
      (0, Function.update cache (pos + 1)
        ((cache (pos + 1) &&& ~~~genmask beyond (rbits - 1) 0) ||| val >>> (bitsPerBlock - rbits)))
    else
      (0, cache)

/-- `nanddev_bbt_update` -/
def bbtUpdate : Int := 0

/-! ## `core.c` -/

/-- A SPI-NAND device with its table in memory; the table is there when `nanddev_init` has returned 0. -/
structure BbtNand where
  cache : Nat → BitVec 64
  marker : Nat → Bool
  events : List ChipEvent

/-- `nanddev_bbt_init` -/
def bbtInit (marker : Nat → Bool) : BbtNand :=
  { cache := fun _ => 0, marker := marker, events := [] }

namespace BbtNand

variable (ans : ChipAnswers)

/-- `spinand_isbad`: the mark on the chip.  `spinand_select_target` refuses a die that is not there, and
its `-EINVAL` comes back as `true`. -/
def spinandIsbad (s : BbtNand) (pos : NandPos) : Bool :=
  if pos.target ≥ org.ntargets then true else s.marker (bbtPosToEntry org pos)

/-- `nanddev_isbad` -/
def nanddevIsbad (s : BbtNand) (pos : NandPos) : Bool × BbtNand :=
  let entry := bbtPosToEntry org pos
  let status := bbtGetBlockStatus org beyond s.cache entry
  if status = BbtStatus.unknown.code then
    -- the status is retrieved lazily
    let status := if s.spinandIsbad org pos = true then BbtStatus.factoryBad else BbtStatus.good
    (status == .worn || status == .factoryBad,
      { s with cache := (bbtSetBlockStatus org beyond s.cache entry status).2 })
  else
    (status == BbtStatus.worn.code || status == BbtStatus.factoryBad.code, s)

/-- `nanddev_isreserved` -/
def nanddevIsreserved (s : BbtNand) (pos : NandPos) : Bool :=
  bbtGetBlockStatus org beyond s.cache (bbtPosToEntry org pos) == BbtStatus.reserved.code

/-- `spinand_markbad`: both bytes of the mark are programmed to zero. -/
def spinandMarkbad (s : BbtNand) (pos : NandPos) : Int × BbtNand :=
  let block := bbtPosToEntry org pos
  (ans.write (posToOffs org pos),
    { s with
      marker := if ans.write (posToOffs org pos) = 0 then Function.update s.marker block true else s.marker
      events := s.events ++ [.program (posToOffs org pos)] })

/-- `spinand_erase` -/
def spinandErase (s : BbtNand) (pos : NandPos) : Int × BbtNand :=
  let block := bbtPosToEntry org pos
  (ans.erase block,
    { s with
      marker := if ans.erase block = 0 then Function.update s.marker block false else s.marker
      events := s.events ++ [.erase block] })

/-- `nanddev_markbad` -/
def nanddevMarkbad (s : BbtNand) (pos : NandPos) : Int × BbtNand :=
  let isbad := nanddevIsbad org beyond s pos
  if isbad.1 = true then
    (0, isbad.2)
  else
    let marked := spinandMarkbad org ans isbad.2 pos
    let entry := bbtPosToEntry org pos
    -- what the chip has answered is overwritten
    let set := bbtSetBlockStatus org beyond marked.2.cache entry .worn
    (if set.1 ≠ 0 then set.1 else bbtUpdate, { marked.2 with cache := set.2 })

/-- `nanddev_erase` -/
def nanddevErase (s : BbtNand) (pos : NandPos) : Int × BbtNand :=
  let isbad := nanddevIsbad org beyond s pos
  if isbad.1 = true ∨ nanddevIsreserved org beyond isbad.2 pos = true then
    if nanddevIsreserved org beyond isbad.2 pos = true then
      (-eio, isbad.2)
    else
      let entry := bbtPosToEntry org pos
      spinandErase org ans
        { isbad.2 with cache := (bbtSetBlockStatus org beyond isbad.2.cache entry .unknown).2 } pos
  else
    spinandErase org ans isbad.2 pos

end BbtNand

end Source

/-! ## The table as an array of fields -/

section Table

variable {org : MemOrg} {beyond : Nat → BitVec 64} {e e' : Nat} {cache : Nat → BitVec 64}

theorem bitsPerBlock_eq : bitsPerBlock = 3 := by
  simp [bitsPerBlock, bbtBlockNumStatus, fls, Nat.size, Nat.binaryRec]

/-- The field of the block lies across two words. -/
def Straddles (e : Nat) : Prop := e % 64 = 21 ∨ e % 64 = 42

instance (e : Nat) : Decidable (Straddles e) := inferInstanceAs (Decidable (_ ∨ _))

theorem straddles_iff (e : Nat) : Straddles e ↔ 64 < 3 + e * 3 % 64 := by
  have hword : ∀ r < 64, (r = 21 ∨ r = 42) ↔ 64 < 3 + r * 3 % 64 := by decide
  have hmod : e * 3 % 64 = e % 64 * 3 % 64 := by rw [Nat.mul_mod, Nat.mod_mul_mod]
  rw [Straddles, hmod]
  exact hword (e % 64) (Nat.mod_lt e (by decide))

theorem getLsbD_genmask {h : Nat} (hh : h ≤ 63) (l j : Nat) :
    (genmask beyond h l).getLsbD j = (decide (l ≤ j) && decide (j ≤ h)) := by
  rw [genmask, if_pos hh, BitVec.getLsbD_and, BitVec.getLsbD_shiftLeft, BitVec.getLsbD_ushiftRight,
    BitVec.getLsbD_allOnes, BitVec.getLsbD_allOnes]
  by_cases hl : l ≤ j
  · by_cases hj : j ≤ h
    · simp [hl, hj, show j < 64 by omega, show ¬ j < l by omega, show j - l < 64 by omega,
        show 63 - h + j < 64 by omega]
    · simp [hj, show ¬ 63 - h + j < 64 by omega]
  · simp [hl, show j < l by omega]

theorem genmask_low {k : Nat} (hk : 0 < k) (hk64 : k ≤ 64) :
    genmask beyond (k - 1) 0 = BitField.lowMask 64 k := by
  refine BitVec.eq_of_getLsbD_eq fun j hj => ?_
  rw [getLsbD_genmask (by omega), BitField.getLsbD_lowMask]
  simp [hj, show (j ≤ k - 1) = (j < k) by apply propext; omega]

/-- What `GENMASK` has cleared in the first word is of the field, on any machine. -/
theorem genmask_field {offs r : Nat} (h : (genmask beyond (offs + 3 - 1) offs).getLsbD r = true) :
    offs ≤ r ∧ r < offs + 3 := by
  have hr : r < 64 := BitVec.lt_of_getLsbD h
  by_cases hin : offs + 3 - 1 ≤ 63
  · rw [getLsbD_genmask hin] at h
    simp only [Bool.and_eq_true, decide_eq_true_eq] at h
    omega
  · rw [genmask, BitVec.getLsbD_and, BitVec.getLsbD_shiftLeft] at h
    simp only [Bool.and_eq_true, decide_eq_true_eq, Bool.not_eq_true', decide_eq_false_iff_not] at h
    omega

/-- The state of a block as a word. -/
def BbtStatus.word (status : BbtStatus) : BitVec 64 := BitVec.ofNat 64 status.code

theorem code_lt (status : BbtStatus) : status.code < 5 := by
  cases status <;> decide

theorem getLsbD_word_of_ge (status : BbtStatus) (j : Nat) (hj : 3 ≤ j) : status.word.getLsbD j = false := by
  rw [BbtStatus.word, BitVec.getLsbD_ofNat]
  have hcode := code_lt status
  have hpow : 2 ^ 3 ≤ 2 ^ j := Nat.pow_le_pow_right (by omega) hj
  rw [Nat.testBit_lt_two_pow (by omega), Bool.and_false]

/-- The fields of the table. -/
def bbtField (cache : Nat → BitVec 64) (e : Nat) : BitVec 64 := BitField.readField 3 cache e

variable (beyond) in
/-- The mask for the first word of a field. -/
def bbtClear (e : Nat) : BitVec 64 := genmask beyond (e * 3 % 64 + 3 - 1) (e * 3 % 64)

theorem bbtGetBlockStatus_eq (he : e < org.neraseblocks) (hfit : e * 3 < 2 ^ 32) :
    bbtGetBlockStatus org beyond cache e = (bbtField cache e).toNat := by
  rw [bbtGetBlockStatus, bitsPerBlock_eq, Nat.mod_eq_of_lt hfit, if_neg (by omega), bbtField,
    BitField.readField, genmask_low (by omega) (by omega)]

theorem bbtSetBlockStatus_eq (he : e < org.neraseblocks) (hfit : e * 3 < 2 ^ 32) (status : BbtStatus) :
    bbtSetBlockStatus org beyond cache e status =
      (0, BitField.writeField 3 (bbtClear beyond e) cache e status.word) := by
  have hval : BitVec.ofNat 64 status.code &&& genmask beyond (3 - 1) 0 = status.word := by
    refine BitVec.eq_of_getLsbD_eq fun j hj => ?_
    rw [BitVec.getLsbD_and, genmask_low (by omega) (by omega), BitField.getLsbD_lowMask]
    by_cases hj3 : j < 3
    · simp [hj, hj3, BbtStatus.word]
    · rw [getLsbD_word_of_ge status j (by omega)]
      simp [hj3]
  rw [bbtSetBlockStatus, bitsPerBlock_eq, Nat.mod_eq_of_lt hfit, if_neg (by omega)]
  simp only [hval, BitField.writeField, bbtClear]
  split
  · rename_i hspan
    rw [genmask_low (by omega) (by omega)]
  · rfl

variable (beyond) in
/-- The bits of a field that `GENMASK` leaves. -/
def leftMask (e : Nat) : BitVec 64 :=
  BitField.lowMask 64 (64 - e * 3 % 64) &&& ~~~(bbtClear beyond e >>> (e * 3 % 64))

/-- A state that is set is read back with what has been left of the old one, and no other is changed. -/
theorem bbtField_set (e e' : Nat) (status : BbtStatus) :
    bbtField (BitField.writeField 3 (bbtClear beyond e) cache e status.word) e' =
      if e' = e then status.word ||| (bbtField cache e &&& leftMask beyond e) else bbtField cache e' := by
  have hclear : ∀ r, (bbtClear beyond e).getLsbD r = true → e * 3 % 64 ≤ r ∧ r < e * 3 % 64 + 3 :=
    fun r h => genmask_field h
  refine BitVec.eq_of_getLsbD_eq fun j hj => ?_
  rw [bbtField, BitField.getLsbD_readField_writeField (by decide) (by decide) cache e e'
    (getLsbD_word_of_ge status) hclear]
  by_cases he : e' = e
  · rw [if_pos he, if_pos he, BitVec.getLsbD_or, BitVec.getLsbD_and, bbtField,
      BitField.getLsbD_readField (by decide) (by decide), leftMask, BitVec.getLsbD_and,
      BitField.getLsbD_lowMask, BitVec.getLsbD_not, BitVec.getLsbD_ushiftRight, BitField.kept]
    have hsplit := Nat.div_add_mod' (e * 3) 64
    have hoffs := Nat.mod_lt (e * 3) (show 0 < 64 by decide)
    by_cases hin : j < 64 - e * 3 % 64
    · have hdiv : (e * 3 + j) / 64 = e * 3 / 64 := by omega
      have hmod : (e * 3 + j) % 64 = e * 3 % 64 + j := by omega
      simp [hdiv, hmod, hin, hj, Bool.and_assoc]
    · have hdiv : (e * 3 + j) / 64 ≠ e * 3 / 64 := by omega
      simp [hdiv, hin]
  · rw [if_neg he, if_neg he, bbtField]

/-- The last bits of a field are never left: they are not in the first word, or `GENMASK` has them. -/
theorem getLsbD_leftMask (e : Nat) {j : Nat} (hj : j < 3) (h : (leftMask beyond e).getLsbD j = true) :
    Straddles e ∧ j < 2 := by
  rw [leftMask, BitVec.getLsbD_and, BitField.getLsbD_lowMask, BitVec.getLsbD_not,
    BitVec.getLsbD_ushiftRight, bbtClear] at h
  have hstraddles := straddles_iff e
  by_cases hspan : 64 < 3 + e * 3 % 64
  · simp only [Bool.and_eq_true, decide_eq_true_eq] at h
    exact ⟨hstraddles.2 hspan, by omega⟩
  · rw [getLsbD_genmask (by omega)] at h
    simp only [Bool.and_eq_true, decide_eq_true_eq, Bool.not_eq_true', Bool.and_eq_false_iff,
      decide_eq_false_iff_not] at h
    omega

theorem word_and_leftMask {old : BbtStatus} (e : Nat)
    (h : ¬ Straddles e ∨ old = .unknown ∨ old = .factoryBad) : old.word &&& leftMask beyond e = 0#64 := by
  refine BitVec.eq_of_getLsbD_eq fun j hj => ?_
  rw [BitVec.getLsbD_and, BitVec.getLsbD_zero]
  by_cases hj3 : j < 3
  · cases hmask : (leftMask beyond e).getLsbD j with
    | false => rw [Bool.and_false]
    | true =>
        rcases getLsbD_leftMask e hj3 hmask with ⟨hs, hj2⟩
        rcases h with h | rfl | rfl
        · exact absurd hs h
        · simp [BbtStatus.word, BbtStatus.code]
        · rcases Nat.lt_succ_iff_lt_or_eq.1 hj2 with h0 | rfl
          · rw [Nat.lt_one_iff.1 h0]
            rfl
          · rfl
  · rw [getLsbD_word_of_ge old j (by omega), Bool.false_and]

/-- On RISC-V a state that becomes worn keeps the lowest bit of the good and of the reserved one. -/
theorem word_or_leftMask_riscv {old : BbtStatus} (h : Straddles e) (hold : old = .good ∨ old = .reserved) :
    BbtStatus.worn.word ||| (old.word &&& leftMask riscvBeyond e) = BbtStatus.reserved.word := by
  have hoffs : e * 3 % 64 = 63 ∨ e * 3 % 64 = 62 := by
    rcases h with h | h
    · exact Or.inl (by rw [Nat.mul_mod, h])
    · exact Or.inr (by rw [Nat.mul_mod, h])
  rw [leftMask, bbtClear]
  rcases hoffs with ho | ho <;> rcases hold with rfl | rfl <;> rw [ho] <;> decide

/-! ## The table as a map -/

/-- The entries that are asked for: those of the blocks of the chip, and of the one behind them if the
table has it. -/
structure MemOrg.InTable (org : MemOrg) (e : Nat) : Prop where
  block : e ≤ org.nblocks
  table : e < org.neraseblocks
  bits : e * 3 < 2 ^ 32

variable (org) in
/-- The table has the states of the blocks. -/
def Holds (cache : Nat → BitVec 64) (bbt : Nat → BbtStatus) : Prop :=
  ∀ e, org.InTable e → bbtField cache e = (bbt e).word

variable {bbt : Nat → BbtStatus}

/-- A chip whose table has room: the number that stands for its blocks is not below it, and the bits are
counted in an `unsigned int`. -/
structure MemOrg.Counts (org : MemOrg) : Prop where
  pages : 3 ≤ org.pagesPerEraseblock
  dies : org.ntargets ≤ org.pagesPerEraseblock

/-- The product does not wrap. -/
theorem neraseblocks_eq (org : MemOrg) :
    org.neraseblocks = org.lunsPerTarget * org.eraseblocksPerLun * org.pagesPerEraseblock := by
  have hlt : org.pagesPerEraseblock * org.nblocks < 2 ^ 32 := org.pages_lt
  refine Nat.mod_eq_of_lt ?_
  calc org.lunsPerTarget * org.eraseblocksPerLun * org.pagesPerEraseblock
      ≤ org.lunsPerTarget * org.eraseblocksPerLun * org.pagesPerEraseblock * org.ntargets :=
        Nat.le_mul_of_pos_right _ org.ntargets_pos
    _ = org.pagesPerEraseblock * org.nblocks := by
        rw [MemOrg.nblocks]
        ring
    _ < 2 ^ 32 := hlt

theorem nblocks_eq (org : MemOrg) :
    org.nblocks = org.lunsPerTarget * org.eraseblocksPerLun * org.ntargets := by
  rw [MemOrg.nblocks]
  ring

theorem MemOrg.Counts.bits (h : org.Counts) (he : e ≤ org.nblocks) : e * 3 < 2 ^ 32 := by
  have hlt : org.pagesPerEraseblock * org.nblocks < 2 ^ 32 := org.pages_lt
  have hthree : 3 * org.nblocks ≤ org.pagesPerEraseblock * org.nblocks :=
    Nat.mul_le_mul_right _ h.pages
  omega

theorem MemOrg.Counts.inTable (h : org.Counts) (he : e < org.nblocks) : org.InTable e := by
  have hle : org.nblocks ≤ org.lunsPerTarget * org.eraseblocksPerLun * org.pagesPerEraseblock := by
    rw [nblocks_eq]
    exact Nat.mul_le_mul_left _ h.dies
  refine ⟨he.le, ?_, h.bits he.le⟩
  rw [neraseblocks_eq]
  omega

/-- The block behind the chip has an entry, unless there are as many dies as pages in a block. -/
theorem MemOrg.Counts.inTable_end (h : org.Counts) (hdies : org.ntargets < org.pagesPerEraseblock) :
    org.InTable org.nblocks := by
  refine ⟨le_rfl, ?_, h.bits le_rfl⟩
  rw [neraseblocks_eq, nblocks_eq]
  exact Nat.mul_lt_mul_of_pos_left hdies (Nat.mul_pos org.luns_pos org.eraseblocks_pos)

theorem Holds.get (h : Holds org cache bbt) (he : org.InTable e) :
    bbtGetBlockStatus org beyond cache e = (bbt e).code := by
  have hcode := code_lt (bbt e)
  rw [bbtGetBlockStatus_eq he.table he.bits, h e he, BbtStatus.word, BitVec.toNat_ofNat,
    Nat.mod_eq_of_lt (by omega)]

variable (beyond) in
theorem Holds.set_as (h : Holds org cache bbt) (he : org.InTable e)
    {status seen : BbtStatus}
    (hseen : status.word ||| ((bbt e).word &&& leftMask beyond e) = seen.word) :
    (bbtSetBlockStatus org beyond cache e status).1 = 0 ∧
      Holds org (bbtSetBlockStatus org beyond cache e status).2 (Function.update bbt e seen) := by
  rw [bbtSetBlockStatus_eq he.table he.bits]
  refine ⟨rfl, fun e' he' => ?_⟩
  rw [bbtField_set, h e he, hseen]
  by_cases hee : e' = e
  · rw [if_pos hee, hee, Function.update_self]
  · rw [if_neg hee, Function.update_of_ne hee, h e' he']

/-! ## The memory of the table -/

/-- The words of a field are among those that are allocated. -/
theorem bbtCacheBytes_ge (hdies : 16 * org.ntargets ≤ org.pagesPerEraseblock)
    (hblocks : 10 ≤ org.lunsPerTarget * org.eraseblocksPerLun)
    (hbits : org.lunsPerTarget * org.eraseblocksPerLun * org.pagesPerEraseblock * 3 < 2 ^ 32)
    (he : e < org.nblocks) {w : Nat} (hw : w = e * 3 / 64 ∨ (w = e * 3 / 64 + 1 ∧ 64 < 3 + e * 3 % 64)) :
    8 * w + 8 ≤ bbtCacheBytes org := by
  have hn := nblocks_eq org
  have hten : 10 ≤ org.nblocks := by
    rw [hn]
    exact hblocks.trans (Nat.le_mul_of_pos_right _ org.ntargets_pos)
  have hpages : 16 * org.nblocks ≤
      org.lunsPerTarget * org.eraseblocksPerLun * org.pagesPerEraseblock := by
    calc 16 * org.nblocks
        = org.lunsPerTarget * org.eraseblocksPerLun * (16 * org.ntargets) := by
          rw [hn]
          ring
      _ ≤ org.lunsPerTarget * org.eraseblocksPerLun * org.pagesPerEraseblock :=
          Nat.mul_le_mul_left _ hdies
  have hwrap : org.lunsPerTarget * org.eraseblocksPerLun * org.pagesPerEraseblock % 2 ^ 32 =
      org.lunsPerTarget * org.eraseblocksPerLun * org.pagesPerEraseblock :=
    Nat.mod_eq_of_lt (by omega)
  rw [bbtCacheBytes, MemOrg.neraseblocks, bitsPerBlock_eq, hwrap, Nat.mod_eq_of_lt hbits]
  omega

end Table

/-! ## The device with a map -/

namespace SpiNand

variable (nand : Nand) (ans : ChipAnswers)

/-- What a block becomes that is marked bad. -/
def marked (block : Nat) : BbtStatus := if Straddles block then .reserved else .worn

/-- `nanddev_markbad` on the device of `NandCore`. -/
def nanddevMarkbad (s : SpiNand) (block : Nat) : Int × SpiNand :=
  let isbad := nanddevIsbad nand s block
  if isbad.1 = true then
    (0, isbad.2)
  else
    let page := block * nand.erasesize
    (0, setBlockStatus nand
      { isbad.2 with
        marker :=
          if ans.write page = 0 then Function.update isbad.2.marker block true else isbad.2.marker
        events := isbad.2.events ++ [.program page] }
      block (marked block))

end SpiNand

/-- The calls of the MTD layer, with the answers of the chip. -/
inductive NandCommand
  | isbad (offs : Nat)
  | isreserved (offs : Nat)
  | markbad (offs : Nat)
  | erase (addr len : Nat)
  deriving DecidableEq, Repr

section Commands

variable (org : MemOrg) (beyond : Nat → BitVec 64) (nand : Nand)

/-- The blocks of the chip, and whole; whether it is bad is also asked of the block behind them, which the
table has if there are fewer dies than pages in a block. -/
def NandCommand.Fits : NandCommand → Prop
  | .isbad offs => org.erasesize ∣ offs ∧
      (offs < org.size ∨ (offs = org.size ∧ org.ntargets < org.pagesPerEraseblock))
  | .isreserved offs => org.erasesize ∣ offs ∧ offs < org.size
  | .markbad offs => org.erasesize ∣ offs ∧ offs < org.size
  | .erase addr len => org.erasesize ∣ addr ∧ 0 < len ∧ addr + len ≤ org.size

/-- `spinand_mtd_block_isbad`, `_isreserved`, `_markbad` and `spinand_mtd_erase`: the value returned, and
`fail_addr`. -/
def BbtNand.runCommand (s : BbtNand) (ans : ChipAnswers) :
    NandCommand → Option ((Int × Option Nat) × BbtNand)
  | .isbad offs =>
      let isbad := s.nanddevIsbad org beyond (offsToPos org offs).2
      some ((if isbad.1 = true then 1 else 0, none), isbad.2)
  | .isreserved offs =>
      some ((if s.nanddevIsreserved org beyond (offsToPos org offs).2 = true then 1 else 0, none), s)
  | .markbad offs =>
      let marked := s.nanddevMarkbad org beyond ans (offsToPos org offs).2
      some ((marked.1, none), marked.2)
  | .erase addr len =>
      (nanddevMtdErase org (BbtNand.nanddevErase org beyond ans) s addr len).map
        fun erased => ((erased.1, erased.2.1), erased.2.2)

/-- The same commands on the device with a map. -/
def SpiNand.runCommand (s : SpiNand) (ans : ChipAnswers) : NandCommand → (Int × Option Nat) × SpiNand
  | .isbad offs =>
      let isbad := s.nanddevIsbad nand (offs / nand.erasesize)
      ((if isbad.1 = true then 1 else 0, none), isbad.2)
  | .isreserved offs =>
      ((if s.nanddevIsreserved nand (offs / nand.erasesize) = true then 1 else 0, none), s)
  | .markbad offs =>
      let marked := s.nanddevMarkbad nand ans (offs / nand.erasesize)
      ((marked.1, none), marked.2)
  | .erase addr len =>
      let erased := eraseEach (SpiNand.nanddevErase nand ans)
        ((addr + len - 1) / nand.erasesize + 1 - addr / nand.erasesize) s (addr / nand.erasesize)
      ((erased.1, erased.2.1.map (· * nand.erasesize)), erased.2.2)

def BbtNand.runCommands (s : BbtNand) :
    List (NandCommand × ChipAnswers) → Option (List (Int × Option Nat) × BbtNand)
  | [] => some ([], s)
  | c :: cs =>
      match s.runCommand org beyond c.2 c.1 with
      | none => none
      | some (result, s') => (runCommands s' cs).map fun done => (result :: done.1, done.2)

def SpiNand.runCommands (s : SpiNand) :
    List (NandCommand × ChipAnswers) → List (Int × Option Nat) × SpiNand
  | [] => ([], s)
  | c :: cs =>
      let result := s.runCommand nand c.2 c.1
      let done := runCommands result.2 cs
      (result.1 :: done.1, done.2)

end Commands

/-- The two devices agree; no state of a block that lies across two words is worn. -/
structure Tracks (org : MemOrg) (s : BbtNand) (t : SpiNand) : Prop where
  cache : Holds org s.cache t.bbt
  marker : s.marker = t.marker
  events : s.events = t.events
  worn : ∀ e, Straddles e → t.bbt e ≠ .worn

section Refines

variable {org : MemOrg} {beyond : Nat → BitVec 64} {nand : Nand} {ans : ChipAnswers}
  {s : BbtNand} {t : SpiNand} {pos : NandPos}

/-- Both devices have the same chip. -/
structure SameChip (org : MemOrg) (nand : Nand) : Prop extends org.Counts where
  erasesize : nand.erasesize = org.erasesize
  writesize : nand.writesize = org.pagesize
  size : nand.size = org.size
  ntargets : nand.ntargets = org.ntargets

theorem SameChip.nblocks (h : SameChip org nand) : SpiNand.nblocks nand = org.nblocks := by
  rw [SpiNand.nblocks, h.size, h.erasesize, size_eq, Nat.mul_div_cancel _ erasesize_pos]

theorem SameChip.neraseblocks (h : SameChip org nand) :
    SpiNand.neraseblocks nand = org.neraseblocks := by
  rw [SpiNand.neraseblocks, h.nblocks, h.ntargets, h.erasesize, h.writesize, nblocks_eq,
    Nat.mul_div_cancel _ org.ntargets_pos, MemOrg.erasesize, Nat.mul_div_cancel_left _ org.pagesize_pos,
    MemOrg.neraseblocks]

theorem Tracks.setBlockStatus (h : Tracks org s t) (hchip : SameChip org nand) {e : Nat}
    (he : org.InTable e) {status seen : BbtStatus}
    (hseen : status.word ||| ((t.bbt e).word &&& leftMask beyond e) = seen.word)
    (hworn : Straddles e → seen ≠ .worn) :
    Tracks org { s with cache := (bbtSetBlockStatus org beyond s.cache e status).2 }
      (t.setBlockStatus nand e seen) := by
  have hset := (h.cache.set_as beyond he hseen).2
  have hin : ¬ SpiNand.neraseblocks nand ≤ e := hchip.neraseblocks ▸ Nat.not_le.2 he.table
  rw [SpiNand.setBlockStatus, if_neg hin]
  refine ⟨hset, h.marker, h.events, fun e' he' => ?_⟩
  by_cases hee : e' = e
  · subst hee
    simpa using hworn he'
  · simpa [Function.update_of_ne hee] using h.worn e' he'

variable (beyond) in
/-- A state that is not known, or bad from the factory, has no bit that could be left. -/
theorem Tracks.setBlockStatus_plain (h : Tracks org s t) (hchip : SameChip org nand) {e : Nat}
    (he : org.InTable e) {status : BbtStatus}
    (hold : ¬ Straddles e ∨ t.bbt e = .unknown ∨ t.bbt e = .factoryBad)
    (hworn : status ≠ .worn) :
    Tracks org { s with cache := (bbtSetBlockStatus org beyond s.cache e status).2 }
      (t.setBlockStatus nand e status) :=
  h.setBlockStatus hchip he (by rw [word_and_leftMask e hold, BitVec.or_zero]) fun _ => hworn

theorem Tracks.spinandIsbad (h : Tracks org s t) (hchip : SameChip org nand) (e : Nat) :
    s.spinandIsbad org (posOfBlock org e) = t.spinandIsbad nand e := by
  have htarget := @target_posOfBlock org e
  rw [BbtNand.spinandIsbad, SpiNand.spinandIsbad, hchip.nblocks, bbtPosToEntry_eq,
    (posOfBlock_spec e).2, h.marker]
  by_cases hend : org.nblocks ≤ e
  · rw [if_pos hend, if_pos (htarget.2 hend)]
  · rw [if_neg hend, if_neg (mt htarget.1 hend)]

variable (beyond) in
theorem Tracks.isbad (h : Tracks org s t) (hchip : SameChip org nand) {e : Nat} (he : org.InTable e) :
    (s.nanddevIsbad org beyond (posOfBlock org e)).1 = (t.nanddevIsbad nand e).1 ∧
      Tracks org (s.nanddevIsbad org beyond (posOfBlock org e)).2 (t.nanddevIsbad nand e).2 := by
  have hin : ¬ SpiNand.neraseblocks nand ≤ e := hchip.neraseblocks ▸ Nat.not_le.2 he.table
  have hentry : bbtPosToEntry org (posOfBlock org e) = e := by
    rw [bbtPosToEntry_eq, (posOfBlock_spec e).2]
  have hmark := h.spinandIsbad hchip e
  simp only [BbtNand.nanddevIsbad, SpiNand.nanddevIsbad, if_neg hin, hentry, h.cache.get he]
  cases hbbt : t.bbt e with
  | unknown =>
      have hne : (if t.spinandIsbad nand e = true then BbtStatus.factoryBad else BbtStatus.good) ≠
          .worn := by
        split <;> decide
      simp only [if_pos, hmark]
      refine ⟨by cases t.spinandIsbad nand e <;> rfl, ?_⟩
      exact h.setBlockStatus_plain beyond hchip he (Or.inr (Or.inl hbbt)) hne
  | good => exact ⟨rfl, h⟩
  | worn => exact ⟨rfl, h⟩
  | reserved => exact ⟨rfl, h⟩
  | factoryBad => exact ⟨rfl, h⟩

variable (beyond) in
theorem Tracks.isreserved (h : Tracks org s t) (hchip : SameChip org nand) {e : Nat}
    (he : org.InTable e) :
    s.nanddevIsreserved org beyond (posOfBlock org e) = t.nanddevIsreserved nand e := by
  have hin : ¬ SpiNand.neraseblocks nand ≤ e := hchip.neraseblocks ▸ Nat.not_le.2 he.table
  rw [BbtNand.nanddevIsreserved, SpiNand.nanddevIsreserved, if_neg hin, bbtPosToEntry_eq,
    (posOfBlock_spec e).2, h.cache.get he]
  cases t.bbt e <;> rfl

/-- Behind `nanddev_isbad` the state of the block is known. -/
theorem bbt_nanddevIsbad {e : Nat} (he : ¬ SpiNand.neraseblocks nand ≤ e) :
    ((t.nanddevIsbad nand e).1 = true →
        (t.nanddevIsbad nand e).2.bbt e = .factoryBad ∨ (t.nanddevIsbad nand e).2.bbt e = .worn) ∧
      (¬ (t.nanddevIsbad nand e).1 = true →
        (t.nanddevIsbad nand e).2.bbt e = .good ∨ (t.nanddevIsbad nand e).2.bbt e = .reserved) := by
  rw [SpiNand.nanddevIsbad, if_neg he]
  cases hbbt : t.bbt e with
  | unknown =>
      simp only [SpiNand.setBlockStatus, if_neg he, Function.update_self]
      cases t.spinandIsbad nand e <;> simp
  | good => simp [hbbt]
  | worn => simp [hbbt]
  | reserved => simp [hbbt]
  | factoryBad => simp [hbbt]

theorem Tracks.spinandErase (h : Tracks org s t) (e : Nat) :
    (s.spinandErase org ans (posOfBlock org e)).1 = (t.spinandErase ans e).1 ∧
      Tracks org (s.spinandErase org ans (posOfBlock org e)).2 (t.spinandErase ans e).2 := by
  have hentry : bbtPosToEntry org (posOfBlock org e) = e := by
    rw [bbtPosToEntry_eq, (posOfBlock_spec e).2]
  refine ⟨?_, h.cache, ?_, ?_, h.worn⟩
  · simp only [BbtNand.spinandErase, SpiNand.spinandErase, hentry]
  · simp only [BbtNand.spinandErase, SpiNand.spinandErase, hentry, h.marker]
  · simp only [BbtNand.spinandErase, SpiNand.spinandErase, hentry, h.events]

variable (beyond ans) in
theorem Tracks.erase (h : Tracks org s t) (hchip : SameChip org nand) {e : Nat} (he : org.InTable e) :
    (s.nanddevErase org beyond ans (posOfBlock org e)).1 = (t.nanddevErase nand ans e).1 ∧
      Tracks org (s.nanddevErase org beyond ans (posOfBlock org e)).2 (t.nanddevErase nand ans e).2 := by
  have hin : ¬ SpiNand.neraseblocks nand ≤ e := hchip.neraseblocks ▸ Nat.not_le.2 he.table
  have hentry : bbtPosToEntry org (posOfBlock org e) = e := by
    rw [bbtPosToEntry_eq, (posOfBlock_spec e).2]
  rcases h.isbad beyond hchip he with ⟨hbad, hs⟩
  have hres := hs.isreserved beyond hchip he
  have hknown := (@bbt_nanddevIsbad nand t _ hin).1
  simp only [BbtNand.nanddevErase, SpiNand.nanddevErase, hbad, hres, hentry]
  split
  · rename_i hor
    split
    · exact ⟨rfl, hs⟩
    · rename_i hnot
      -- a block that is bad, and whose field has no bit that could be left
      have hstate := hknown (hor.resolve_right hnot)
      refine (hs.setBlockStatus_plain beyond hchip he ?_ (by decide)).spinandErase e
      by_cases hspan : Straddles e
      · exact Or.inr (Or.inr (hstate.resolve_right (hs.worn _ hspan)))
      · exact Or.inl hspan
  · exact hs.spinandErase e

variable (beyond ans) in
/-- Marking a block: on RISC-V, or where its field is in one word. -/
theorem Tracks.markbad (h : Tracks org s t) (hchip : SameChip org nand) {e : Nat} (he : e < org.nblocks)
    (hpos : pos = posOfBlock org e) (hshift : beyond = riscvBeyond ∨ ¬ Straddles e) :
    (s.nanddevMarkbad org beyond ans pos).1 = (t.nanddevMarkbad nand ans e).1 ∧
      Tracks org (s.nanddevMarkbad org beyond ans pos).2 (t.nanddevMarkbad nand ans e).2 := by
  have hentry : bbtPosToEntry org pos = e := by rw [bbtPosToEntry_eq, hpos, (posOfBlock_spec e).2]
  have hoffs : posToOffs org pos = e * nand.erasesize := by
    have hlt : org.pagesPerEraseblock * org.nblocks < 2 ^ 32 := org.pages_lt
    have hpage : e * org.pagesPerEraseblock ≤ org.nblocks * org.pagesPerEraseblock :=
      Nat.mul_le_mul_right _ (Nat.le_of_lt he)
    rw [Nat.mul_comm org.nblocks] at hpage
    rw [hpos, posToOffs_eq _ (by rw [pageOf_posOfBlock]; omega), pageOf_posOfBlock, hchip.erasesize,
      MemOrg.erasesize]
    ring
  have htable := hchip.toCounts.inTable he
  have hin : ¬ SpiNand.neraseblocks nand ≤ e := hchip.neraseblocks ▸ Nat.not_le.2 htable.table
  have hisbad := h.isbad beyond hchip htable
  rw [← hpos] at hisbad
  rcases hisbad with ⟨hbad, hs⟩
  have hknown := (@bbt_nanddevIsbad nand t e hin).2
  simp only [BbtNand.nanddevMarkbad, SpiNand.nanddevMarkbad, hbad]
  split
  · exact ⟨rfl, hs⟩
  · rename_i hnot
    have hstate := hknown hnot
    -- the marker in the spare area is programmed first, and its answer is not looked at
    have hprogrammed : Tracks org ((s.nanddevIsbad org beyond pos).2.spinandMarkbad org ans pos).2
        { (t.nanddevIsbad nand e).2 with
          marker := if ans.write (e * nand.erasesize) = 0 then
              Function.update (t.nanddevIsbad nand e).2.marker e true
            else (t.nanddevIsbad nand e).2.marker
          events := (t.nanddevIsbad nand e).2.events ++ [.program (e * nand.erasesize)] } := by
      refine ⟨hs.cache, ?_, ?_, hs.worn⟩
      · simp only [BbtNand.spinandMarkbad, hentry, hoffs, hs.marker]
      · simp only [BbtNand.spinandMarkbad, hoffs, hs.events]
    -- where the field is in one word, nothing of the old state is left
    have hseen : BbtStatus.worn.word ||| (((t.nanddevIsbad nand e).2.bbt e).word &&& leftMask beyond e) =
        (SpiNand.marked e).word := by
      by_cases hspan : Straddles e
      · rw [SpiNand.marked, if_pos hspan, hshift.resolve_right (not_not.2 hspan)]
        exact word_or_leftMask_riscv hspan hstate
      · rw [SpiNand.marked, if_neg hspan, word_and_leftMask e (Or.inl hspan), BitVec.or_zero]
    have hworn : Straddles e → SpiNand.marked e ≠ .worn := by
      intro hspan
      rw [SpiNand.marked, if_pos hspan]
      decide
    have hzero := (hprogrammed.cache.set_as beyond htable hseen).1
    rw [hentry, hzero]
    exact ⟨rfl, hprogrammed.setBlockStatus hchip htable hseen hworn⟩

/-! ## Runs -/

/-- Two devices that agree block by block agree on a range. -/
theorem eraseEach_sim {σ τ : Type} {f : σ → Nat → Int × σ} {g : τ → Nat → Int × τ} {R : σ → τ → Prop}
    {hi : Nat} (hstep : ∀ s t b, b < hi → R s t → (f s b).1 = (g t b).1 ∧ R (f s b).2 (g t b).2) :
    ∀ (count : Nat) (s : σ) (t : τ) (block : Nat), R s t → block + count ≤ hi →
      (eraseEach f count s block).1 = (eraseEach g count t block).1 ∧
        (eraseEach f count s block).2.1 = (eraseEach g count t block).2.1 ∧
        R (eraseEach f count s block).2.2 (eraseEach g count t block).2.2 := by
  intro count
  induction count with
  | zero =>
      intro s t block h _
      exact ⟨rfl, rfl, h⟩
  | succ count ih =>
      intro s t block h hhi
      rcases hstep s t block (by omega) h with ⟨hret, hnext⟩
      simp only [eraseEach, hret]
      split
      · exact ⟨rfl, rfl, hnext⟩
      · exact ih _ _ _ hnext (by omega)

theorem block_of_offs {offs : Nat} (hdvd : org.erasesize ∣ offs) (hlt : offs < org.size) :
    (offsToPos org offs).2 = posOfBlock org (offs / org.erasesize) ∧
      offs / org.erasesize < org.nblocks := by
  refine ⟨offsToPos_block hdvd, ?_⟩
  rw [Nat.div_lt_iff_lt_mul erasesize_pos, ← size_eq]
  exact hlt

/-- What `mtd_block_isbad` can ask for is in the table. -/
theorem inTable_of_fits (hcounts : org.Counts) {offs : Nat} (h : (NandCommand.isbad offs).Fits org) :
    (offsToPos org offs).2 = posOfBlock org (offs / org.erasesize) ∧
      org.InTable (offs / org.erasesize) := by
  refine ⟨offsToPos_block h.1, ?_⟩
  rcases h.2 with hlt | ⟨rfl, hdies⟩
  · exact hcounts.inTable (block_of_offs h.1 hlt).2
  · rw [size_eq, Nat.mul_div_cancel _ erasesize_pos]
    exact hcounts.inTable_end hdies

/-- The command marks no block whose field lies across two words. -/
def NandCommand.InOneWord (org : MemOrg) (c : NandCommand) : Prop :=
  ∀ offs, c = .markbad offs → ¬ Straddles (offs / org.erasesize)

variable (ans) in
/-- One command. -/
theorem Tracks.command (h : Tracks org s t) (hchip : SameChip org nand) {c : NandCommand}
    (hfits : c.Fits org) (hshift : beyond = riscvBeyond ∨ c.InOneWord org) :
    ∃ s', s.runCommand org beyond ans c = some ((t.runCommand nand ans c).1, s') ∧
      Tracks org s' (t.runCommand nand ans c).2 := by
  cases c with
  | isbad offs =>
      rcases inTable_of_fits hchip.toCounts hfits with ⟨hpos, hin⟩
      rcases h.isbad beyond hchip hin with ⟨hbad, hs⟩
      simp only [BbtNand.runCommand, SpiNand.runCommand, hpos, hbad, hchip.erasesize]
      exact ⟨_, rfl, hs⟩
  | isreserved offs =>
      rcases block_of_offs hfits.1 hfits.2 with ⟨hpos, hin⟩
      have hres := h.isreserved beyond hchip (hchip.toCounts.inTable hin)
      simp only [BbtNand.runCommand, SpiNand.runCommand, hpos, hres, hchip.erasesize]
      exact ⟨_, rfl, h⟩
  | markbad offs =>
      rcases block_of_offs hfits.1 hfits.2 with ⟨hpos, hin⟩
      rcases h.markbad beyond ans hchip hin hpos (hshift.imp_right fun h => h offs rfl) with ⟨hret, hs⟩
      simp only [BbtNand.runCommand, SpiNand.runCommand, hchip.erasesize]
      refine ⟨_, ?_, hs⟩
      rw [hret]
  | erase addr len =>
      rcases hfits with ⟨haddr, hlen, hsize⟩
      have hlast : (addr + len - 1) / org.erasesize < org.nblocks := by
        rw [Nat.div_lt_iff_lt_mul erasesize_pos, ← size_eq]
        omega
      have hfirst : addr / org.erasesize ≤ (addr + len - 1) / org.erasesize :=
        Nat.div_le_div_right (by omega)
      -- one block; the range is an induction over its blocks
      have hblock : ∀ (s : BbtNand) (t : SpiNand) (b : Nat), b < org.nblocks → Tracks org s t →
          (BbtNand.nanddevErase org beyond ans s (posOfBlock org b)).1 =
              (SpiNand.nanddevErase nand ans t b).1 ∧
            Tracks org (BbtNand.nanddevErase org beyond ans s (posOfBlock org b)).2
              (SpiNand.nanddevErase nand ans t b).2 := fun s t b hb h =>
        h.erase beyond ans hchip (hchip.toCounts.inTable hb)
      rcases eraseEach_sim hblock ((addr + len - 1) / org.erasesize + 1 - addr / org.erasesize) s t
        (addr / org.erasesize) h (by omega) with ⟨hret, hfailed, hs⟩
      simp only [BbtNand.runCommand, SpiNand.runCommand, hchip.erasesize,
        nanddevMtdErase_blocks _ s haddr hlen hsize, Option.map_some]
      refine ⟨_, ?_, hs⟩
      rw [hret, hfailed]

/-- What runs of commands do to the table in memory is what they do to the map. -/
theorem Tracks.commands (hchip : SameChip org nand) :
    ∀ {cs : List (NandCommand × ChipAnswers)} {s : BbtNand} {t : SpiNand}, Tracks org s t →
      (∀ c ∈ cs, c.1.Fits org) → (beyond = riscvBeyond ∨ ∀ c ∈ cs, c.1.InOneWord org) →
      ∃ s', s.runCommands org beyond cs = some ((t.runCommands nand cs).1, s') ∧
        Tracks org s' (t.runCommands nand cs).2 := by
  intro cs
  induction cs with
  | nil =>
      intro s t h _ _
      exact ⟨s, rfl, h⟩
  | cons c cs ih =>
      intro s t h hfits hshift
      rcases h.command c.2 hchip (hfits c (by simp))
        (hshift.imp_right fun h => h c (by simp)) with ⟨s', hrun, hs'⟩
      rcases ih hs' (fun c' hc' => hfits c' (by simp [hc']))
        (hshift.imp_right fun h c' hc' => h c' (by simp [hc'])) with ⟨s'', hrest, hs''⟩
      refine ⟨s'', ?_, hs''⟩
      rw [BbtNand.runCommands, hrun]
      simp only [hrest, SpiNand.runCommands, Option.map_some]

/-- The device of `NandCore` behind `nanddev_init`. -/
def spiNandInit (marker : Nat → Bool) : SpiNand :=
  { bbt := fun _ => .unknown, marker := marker, events := [] }

theorem tracks_init (org : MemOrg) (marker : Nat → Bool) :
    Tracks org (bbtInit marker) (spiNandInit marker) := by
  refine ⟨fun e _ => ?_, rfl, rfl, fun _ _ => by simp [spiNandInit]⟩
  refine BitVec.eq_of_getLsbD_eq fun j _ => ?_
  rw [bbtField, BitField.getLsbD_readField (by decide) (by decide)]
  simp [BitField.bit, bbtInit, spiNandInit, BbtStatus.word, BbtStatus.code]

/-- From `nanddev_init` on, whatever the chip answers, the device with its packed table gives the answers
of the device of `NandCore`, and the same commands reach the chip: on any machine in runs that mark no
block whose field lies across two words, on RISC-V in all runs. -/
theorem bbt_refines (hchip : SameChip org nand) (marker : Nat → Bool)
    (cs : List (NandCommand × ChipAnswers)) (hfits : ∀ c ∈ cs, c.1.Fits org)
    (hshift : beyond = riscvBeyond ∨ ∀ c ∈ cs, c.1.InOneWord org) :
    ∃ s, (bbtInit marker).runCommands org beyond cs =
        some (((spiNandInit marker).runCommands nand cs).1, s) ∧
      s.events = ((spiNandInit marker).runCommands nand cs).2.events ∧
      s.marker = ((spiNandInit marker).runCommands nand cs).2.marker ∧
      ∀ e < org.nblocks, bbtGetBlockStatus org beyond s.cache e =
        (((spiNandInit marker).runCommands nand cs).2.bbt e).code := by
  rcases (tracks_init org marker).commands hchip hfits hshift with ⟨s, hrun, hs⟩
  exact ⟨s, hrun, hs.events, hs.marker, fun e he => hs.cache.get (hchip.toCounts.inTable he)⟩

theorem sameChip64 : SameChip org64 nand64 :=
  ⟨⟨by decide, by decide⟩, by decide, by decide, by decide, by decide⟩

/-- The block 21 is marked bad, found to be good, and not erased; the block behind the chip is bad. -/
def mark21 : List (NandCommand × ChipAnswers) :=
  [(.markbad 2752512, SpiNand.allSucceed), (.isbad 2752512, SpiNand.allSucceed),
    (.erase 2621440 262144, SpiNand.allSucceed), (.isbad 8388608, SpiNand.allSucceed)]

theorem fits_mark21 : ∀ c ∈ mark21, c.1.Fits org64 := by
  simp only [mark21, List.forall_mem_cons, NandCommand.Fits]
  exact ⟨by decide, ⟨by decide, Or.inl (by decide)⟩, by decide,
    ⟨by decide, Or.inr ⟨by decide, by decide⟩⟩, fun _ h => absurd h (by simp)⟩

theorem bbt_refines_mark21 :
    ((spiNandInit fun _ => false).runCommands nand64 mark21).1 =
        [(0, none), (0, none), (-5, some 2752512), (1, none)] ∧
      ∃ s, (bbtInit fun _ => false).runCommands org64 riscvBeyond mark21 =
          some (((spiNandInit fun _ => false).runCommands nand64 mark21).1, s) ∧
        s.events = ((spiNandInit fun _ => false).runCommands nand64 mark21).2.events ∧
        s.marker = ((spiNandInit fun _ => false).runCommands nand64 mark21).2.marker ∧
        ∀ e < org64.nblocks, bbtGetBlockStatus org64 riscvBeyond s.cache e =
          (((spiNandInit fun _ => false).runCommands nand64 mark21).2.bbt e).code :=
  ⟨by decide, bbt_refines sameChip64 (fun _ => false) mark21 fits_mark21 (Or.inl rfl)⟩

end Refines

end Burn
end CanmvK230
