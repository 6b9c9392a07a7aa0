import CanmvK230.Burn.Mmc
import CanmvK230.Burn.Mtd

/-!
# MmcCore — writing and erasing a card (`drivers/mmc/mmc_write.c`)

`mmc_bwrite` cuts a write into commands of at most `b_max` blocks, and `mmc_berase` an erase into groups of
the card.  A card erases whole groups: what is erased are the groups that the blocks of the request lie in
(`mmcBerase_spec`), which the caution on the console announces and the value returned does not.

With these the back end of `kburn_mmc.c` keeps what the gadget asks of a medium: a chunk of whole blocks is
written or refused, and nothing else is touched (`mmcWriteMedium_core`); an erase touches nothing else if it
is of whole groups, as the erase size that is reported to the host makes it (`mmcEraseMedium_core`).
-/

namespace CanmvK230
namespace Burn

open Lib

/-! ## `mmc.h` -/

/-- What is used of `struct mmc` once the card is there; `lba` is that of its block descriptor. -/
structure Mmc where
  highCapacity : Bool
  isSd : Bool
  hostIsSpi : Bool
  writeBlLen : UInt32
  eraseGrpSize : UInt32
  ssrAu : UInt32
  bMax : UInt32
  lba : UInt64

inductive MmcRsp
  | r1
  | r1b
  deriving DecidableEq, Repr

/-- `struct mmc_cmd` -/
structure MmcCmd where
  cmdidx : Nat
  cmdarg : UInt32
  respType : MmcRsp
  deriving DecidableEq, Repr

/-- `struct mmc_data` of a write. -/
structure MmcData where
  src : List UInt8
  blocks : UInt32
  blocksize : UInt32

def mmcCmdStopTransmission : Nat := 12
def mmcCmdWriteSingleBlock : Nat := 24
def mmcCmdWriteMultipleBlock : Nat := 25
def sdCmdEraseWrBlkStart : Nat := 32
def sdCmdEraseWrBlkEnd : Nat := 33
def mmcCmdEraseGroupStart : Nat := 35
def mmcCmdEraseGroupEnd : Nat := 36
def mmcCmdErase : Nat := 38
def mmcEraseArg : UInt32 := 0

/-- `mmc_send_cmd`, `mmc_poll_for_busy`, `mmc_set_blocklen`, and the call of `blk_select_hwpart_devnum`
for the partition of the descriptor. -/
structure MmcBus (σ : Type) where
  sendCmd : σ → MmcCmd → Option MmcData → Int × σ
  pollForBusy : σ → Int × σ
  setBlocklen : σ → UInt32 → Int × σ
  selectHwpart : σ → Int × σ

/-! ## `mmc_write.c` -/

section Source

variable {σ : Type} (mmc : Mmc) (bus : MmcBus σ)

/-- The argument for a block: a `uint`, a byte address on cards that are not of high capacity. -/
def Mmc.cmdarg (block : UInt64) : UInt32 :=
  if mmc.highCapacity = true then block.toUInt32
  else (block * mmc.writeBlLen.toUInt64).toUInt32

def eraseStartCmd (start : UInt64) : MmcCmd where
  cmdidx := if mmc.isSd = true then sdCmdEraseWrBlkStart else mmcCmdEraseGroupStart
  cmdarg := mmc.cmdarg start
  respType := .r1

def eraseEndCmd (last : UInt64) : MmcCmd where
  cmdidx := if mmc.isSd = true then sdCmdEraseWrBlkEnd else mmcCmdEraseGroupEnd
  cmdarg := mmc.cmdarg last
  respType := .r1

def eraseCmd : MmcCmd where
  cmdidx := mmcCmdErase
  cmdarg := mmcEraseArg
  respType := .r1b

/-- `mmc_erase_t` -/
def mmcEraseT (m : σ) (start blkcnt : UInt64) : Int × σ :=
  let started := bus.sendCmd m (eraseStartCmd mmc start) none
  if started.1 ≠ 0 then
    started
  else
    let ended := bus.sendCmd started.2 (eraseEndCmd mmc (start + blkcnt - 1)) none
    if ended.1 ≠ 0 then
      ended
    else
      bus.sendCmd ended.2 eraseCmd none

/-- `blk_r` of `mmc_berase` -/
def blkR (left : UInt64) : UInt64 :=
  let au := mmc.isSd && mmc.ssrAu != 0
  if au = true then
    if left > mmc.ssrAu.toUInt64 then mmc.ssrAu.toUInt64 else left
  else
    if left > mmc.eraseGrpSize.toUInt64 then mmc.eraseGrpSize.toUInt64 else left

/-- The loop of `mmc_berase`. -/
def mmcBeraseLoop (start blkcnt : UInt64) : Nat → σ → UInt64 → Option (UInt64 × σ)
  | 0, _, _ => none
  | fuel + 1, m, blk =>
      if blk < blkcnt then
        let blkr := blkR mmc (blkcnt - blk)
        let erased := mmcEraseT mmc bus m (start + blk) blkr
        if erased.1 ≠ 0 then
          some (blk, erased.2)
        else
          let polled := bus.pollForBusy erased.2
          if polled.1 ≠ 0 then
            some (0, polled.2)
          else
            mmcBeraseLoop start blkcnt fuel polled.2 (blk + blkr)
      else
        some (blk, m)

/-- `mmc_berase` -/
def mmcBerase (m : σ) (start blkcnt : UInt64) : Option (UInt64 × σ) :=
  let selected := bus.selectHwpart m
  if selected.1 < 0 then
    some (0 - 1, selected.2)
  else
    mmcBeraseLoop mmc bus start blkcnt loopBound selected.2 0

def writeCmd (start blkcnt : UInt64) : MmcCmd where
  cmdidx := if blkcnt = 1 then mmcCmdWriteSingleBlock else mmcCmdWriteMultipleBlock
  cmdarg := mmc.cmdarg start
  respType := .r1

def stopCmd : MmcCmd where
  cmdidx := mmcCmdStopTransmission
  cmdarg := 0
  respType := .r1b

/-- The data of a write of `blkcnt` blocks that lie in `buf` from `src` on. -/
def writeData (buf : ByteMem) (src : Nat) (blkcnt : UInt64) : MmcData where
  src := buf.read src (blkcnt.toUInt32.toNat * mmc.writeBlLen.toNat)
  blocks := blkcnt.toUInt32
  blocksize := mmc.writeBlLen

/-- `mmc_write_blocks` -/
def mmcWriteBlocks (buf : ByteMem) (m : σ) (start blkcnt : UInt64) (src : Nat) : UInt64 × σ :=
  if start + blkcnt > mmc.lba then
    (0, m) -- "MMC: block number exceeds max"
  else if blkcnt = 0 then
    (0, m)
  else
    let sent := bus.sendCmd m (writeCmd mmc start blkcnt) (some (writeData mmc buf src blkcnt))
    if sent.1 ≠ 0 then
      (0, sent.2) -- "mmc write failed"
    else
      let stopped :=
        if mmc.hostIsSpi = true then (0, sent.2)
        else if blkcnt > 1 then bus.sendCmd sent.2 stopCmd none
        else (0, sent.2)
      if stopped.1 ≠ 0 then
        (0, stopped.2) -- "mmc fail to send stop cmd"
      else
        let polled := bus.pollForBusy stopped.2
        if polled.1 ≠ 0 then (0, polled.2) else (blkcnt, polled.2)

/-- The loop of `mmc_bwrite`, whose condition is tested behind the body: whether all blocks are written. -/
def mmcBwriteLoop (buf : ByteMem) : Nat → σ → UInt64 → UInt64 → Nat → Option (Bool × σ)
  | 0, _, _, _, _ => none
  | fuel + 1, m, start, blocksTodo, src =>
      let cur := if blocksTodo > mmc.bMax.toUInt64 then mmc.bMax.toUInt64 else blocksTodo
      let written := mmcWriteBlocks mmc bus buf m start cur src
      if written.1 ≠ cur then
        some (false, written.2)
      else if blocksTodo - cur > 0 then
        mmcBwriteLoop buf fuel written.2 (start + cur) (blocksTodo - cur)
          (src + cur.toNat * mmc.writeBlLen.toNat)
      else
        some (true, written.2)

/-- `mmc_bwrite` -/
def mmcBwrite (m : σ) (start blkcnt : UInt64) (buf : ByteMem) : Option (UInt64 × σ) :=
  let selected := bus.selectHwpart m
  if selected.1 < 0 then
    some (0, selected.2)
  else
    let blocklen := bus.setBlocklen selected.2 mmc.writeBlLen
    if blocklen.1 ≠ 0 then
      some (0, blocklen.2)
    else
      (mmcBwriteLoop mmc bus buf loopBound blocklen.2 start blkcnt 0).map fun done =>
        (if done.1 = true then blkcnt else 0, done.2)

end Source

/-! ## The card -/

/-- Every block of the card has an argument, and `-1` is no number of blocks. -/
structure Mmc.Fits (mmc : Mmc) : Prop where
  bl_pos : 0 < mmc.writeBlLen.toNat
  bMax_pos : 0 < mmc.bMax.toNat
  grp_pos : 0 < mmc.eraseGrpSize.toNat
  lba_lt : mmc.lba.toNat < 2 ^ 32 - 1
  bytes_le : mmc.highCapacity ≠ true → mmc.lba.toNat * mmc.writeBlLen.toNat ≤ 2 ^ 32

section Blocks

variable (mmc : Mmc)

/-- The block that an argument stands for. -/
def Mmc.blockAt (arg : UInt32) : Nat :=
  if mmc.highCapacity = true then arg.toNat else arg.toNat / mmc.writeBlLen.toNat

/-- The blocks that are erased together. -/
def Mmc.group : Nat := if mmc.isSd = true then 1 else mmc.eraseGrpSize.toNat

/-- The group that a byte is in. -/
def Mmc.groupOf (a : Nat) : Nat := a / mmc.writeBlLen.toNat / mmc.group

/-- The group of a byte has one of `n` blocks from `start` on. -/
def Mmc.Touched (start n a : Nat) : Prop :=
  0 < n ∧ start / mmc.group ≤ mmc.groupOf a ∧ mmc.groupOf a ≤ (start + n - 1) / mmc.group

variable {mmc}

theorem blockAt_cmdarg (h : mmc.Fits) (block : UInt64) (hin : block.toNat < mmc.lba.toNat) :
    mmc.blockAt (mmc.cmdarg block) = block.toNat := by
  have hlba := h.lba_lt
  unfold Mmc.blockAt Mmc.cmdarg
  by_cases hc : mmc.highCapacity = true
  · rw [if_pos hc, if_pos hc, UInt64.toNat_toUInt32, Nat.mod_eq_of_lt (by omega)]
  · have hbytes : block.toNat * mmc.writeBlLen.toNat < 2 ^ 32 := by
      calc block.toNat * mmc.writeBlLen.toNat
          < mmc.lba.toNat * mmc.writeBlLen.toNat := Nat.mul_lt_mul_of_pos_right hin h.bl_pos
        _ ≤ 2 ^ 32 := h.bytes_le hc
    rw [if_neg hc, if_neg hc, UInt64.toNat_toUInt32, UInt64.toNat_mul, UInt32.toNat_toUInt64,
      Nat.mod_mod_of_dvd _ (by decide), Nat.mod_eq_of_lt hbytes, Nat.mul_div_cancel _ h.bl_pos]

theorem group_pos (h : mmc.Fits) : 0 < mmc.group := by
  unfold Mmc.group
  split
  · exact Nat.one_pos
  · exact h.grp_pos

/-- The next blocks add their groups. -/
theorem touched_add (mmc : Mmc) (start n k a : Nat) :
    mmc.Touched start (n + k) a ↔ mmc.Touched start n a ∨ mmc.Touched (start + n) k a := by
  unfold Mmc.Touched
  have hlast : start + (n + k) - 1 = start + n + k - 1 := by omega
  rw [hlast]
  constructor
  · rintro ⟨hpos, hlo, hhi⟩
    by_cases hn : 0 < n ∧ mmc.groupOf a ≤ (start + n - 1) / mmc.group
    · exact Or.inl ⟨hn.1, hlo, hn.2⟩
    · have hk : 0 < k := by
        by_contra hzero
        have hk0 : k = 0 := by omega
        rw [hk0] at hpos hhi
        exact hn ⟨by omega, hhi⟩
      refine Or.inr ⟨hk, ?_, hhi⟩
      by_cases hzero : n = 0
      · rwa [hzero, Nat.add_zero]
      · -- the group of the byte is behind that of the last block so far
        have hgt : (start + n - 1) / mmc.group < mmc.groupOf a := by
          by_contra hle
          exact hn ⟨by omega, by omega⟩
        have hstep : (start + n) / mmc.group ≤ (start + n - 1) / mmc.group + 1 := by
          calc (start + n) / mmc.group
              = (start + n - 1 + 1) / mmc.group := by rw [Nat.sub_add_cancel (by omega)]
            _ ≤ (start + n - 1) / mmc.group + 1 := by
                rw [Nat.succ_div]
                split <;> omega
        omega
  · rintro (⟨hn, hlo, hhi⟩ | ⟨hk, hlo, hhi⟩)
    · exact ⟨by omega, hlo, le_trans hhi (Nat.div_le_div_right (by omega))⟩
    · exact ⟨by omega, le_trans (Nat.div_le_div_right (by omega)) hlo, hhi⟩

end Blocks

/-- What there is of a card: its bytes, the blocks that the commands in front of an erase have named, and
what an erased byte reads as. -/
structure MmcView (σ : Type) where
  content : σ → ByteMem
  eraseStart : σ → Nat
  eraseEnd : σ → Nat
  erasedByte : UInt8

/-- What the commands do to the bytes, and what they have done if they answer without an error. -/
structure MmcCard {σ : Type} (mmc : Mmc) (bus : MmcBus σ) (v : MmcView σ) : Prop where
  hwpart_content : ∀ m, v.content (bus.selectHwpart m).2 = v.content m
  blocklen_content : ∀ m n, v.content (bus.setBlocklen m n).2 = v.content m
  poll_content : ∀ m, v.content (bus.pollForBusy m).2 = v.content m
  stop_content : ∀ m, v.content (bus.sendCmd m stopCmd none).2 = v.content m
  write_frame : ∀ m start n data a, a < mmc.blockAt (mmc.cmdarg start) * mmc.writeBlLen.toNat ∨
    mmc.blockAt (mmc.cmdarg start) * mmc.writeBlLen.toNat + data.src.length ≤ a →
    v.content (bus.sendCmd m (writeCmd mmc start n) (some data)).2 a = v.content m a
  written : ∀ m start n data, data.blocks.toNat = n.toNat →
    (bus.sendCmd m (writeCmd mmc start n) (some data)).1 = 0 →
    v.content (bus.sendCmd m (writeCmd mmc start n) (some data)).2 =
      (v.content m).write (mmc.blockAt (mmc.cmdarg start) * mmc.writeBlLen.toNat) data.src
  start_content : ∀ m b, v.content (bus.sendCmd m (eraseStartCmd mmc b) none).2 = v.content m
  started : ∀ m b, (bus.sendCmd m (eraseStartCmd mmc b) none).1 = 0 →
    v.eraseStart (bus.sendCmd m (eraseStartCmd mmc b) none).2 = mmc.blockAt (mmc.cmdarg b)
  end_content : ∀ m b, v.content (bus.sendCmd m (eraseEndCmd mmc b) none).2 = v.content m
  end_start : ∀ m b, v.eraseStart (bus.sendCmd m (eraseEndCmd mmc b) none).2 = v.eraseStart m
  ended : ∀ m b, (bus.sendCmd m (eraseEndCmd mmc b) none).1 = 0 →
    v.eraseEnd (bus.sendCmd m (eraseEndCmd mmc b) none).2 = mmc.blockAt (mmc.cmdarg b)
  erase_frame : ∀ m a, ¬ (v.eraseStart m / mmc.group ≤ mmc.groupOf a ∧
      mmc.groupOf a ≤ v.eraseEnd m / mmc.group) →
    v.content (bus.sendCmd m eraseCmd none).2 a = v.content m a
  erased : ∀ m a, (bus.sendCmd m eraseCmd none).1 = 0 →
    v.eraseStart m / mmc.group ≤ mmc.groupOf a → mmc.groupOf a ≤ v.eraseEnd m / mmc.group →
    v.content (bus.sendCmd m eraseCmd none).2 a = v.erasedByte

/-- An eMMC of 64 blocks, with groups of four, and a controller that moves three at a time. -/
def smallMmc : Mmc where
  highCapacity := true
  isSd := false
  hostIsSpi := false
  writeBlLen := 512
  eraseGrpSize := 4
  ssrAu := 0
  bMax := 3
  lba := 64

structure RamCard where
  bytes : ByteMem
  first : Nat
  last : Nat

def ramCardBus : MmcBus RamCard where
  sendCmd m cmd data :=
    (0,
      if cmd.cmdidx = mmcCmdEraseGroupStart then { m with first := smallMmc.blockAt cmd.cmdarg }
      else if cmd.cmdidx = mmcCmdEraseGroupEnd then { m with last := smallMmc.blockAt cmd.cmdarg }
      else if cmd.cmdidx = mmcCmdErase then
        { m with bytes := fun a =>
            if m.first / smallMmc.group ≤ smallMmc.groupOf a ∧
              smallMmc.groupOf a ≤ m.last / smallMmc.group then 0 else m.bytes a }
      else
        { m with
          bytes := m.bytes.write (smallMmc.blockAt cmd.cmdarg * smallMmc.writeBlLen.toNat)
            ((data.map MmcData.src).getD []) })
  pollForBusy m := (0, m)
  setBlocklen m _ := (0, m)
  selectHwpart m := (0, m)

def ramCardView : MmcView RamCard where
  content := RamCard.bytes
  eraseStart := RamCard.first
  eraseEnd := RamCard.last
  erasedByte := 0

theorem fits_smallMmc : smallMmc.Fits :=
  ⟨by decide, by decide, by decide, by decide, fun h => absurd rfl h⟩

/-- A command to write, with one block or with more. -/
theorem ramCardBus_write (m : RamCard) (start n : UInt64) (data : MmcData) :
    (ramCardBus.sendCmd m (writeCmd smallMmc start n) (some data)).2.bytes =
      m.bytes.write (smallMmc.blockAt (smallMmc.cmdarg start) * smallMmc.writeBlLen.toNat) data.src := by
  simp only [ramCardBus, writeCmd]
  split
  · rfl
  · rfl

theorem card_ramCardBus : MmcCard smallMmc ramCardBus ramCardView where
  hwpart_content _ := rfl
  blocklen_content _ _ := rfl
  poll_content _ := rfl
  stop_content m := by
    have hbus : (ramCardBus.sendCmd m stopCmd none).2.bytes =
        m.bytes.write (smallMmc.blockAt 0 * smallMmc.writeBlLen.toNat) [] := rfl
    exact hbus.trans (ByteMem.write_nil m.bytes _)
  write_frame m start n data a ha :=
    (congrFun (ramCardBus_write m start n data) a).trans (ByteMem.write_frame _ ha)
  written m start n data _ _ := ramCardBus_write m start n data
  start_content _ _ := rfl
  started _ _ _ := rfl
  end_content _ _ := rfl
  end_start _ _ := rfl
  ended _ _ _ := rfl
  erase_frame _ _ hout := if_neg hout
  erased _ _ _ hlo hhi := if_pos ⟨hlo, hhi⟩

section Card

variable {σ : Type} {mmc : Mmc} {bus : MmcBus σ} {v : MmcView σ}

theorem toNat_add_of_lt {a b : UInt64} (h : a.toNat + b.toNat < 2 ^ 64) :
    (a + b).toNat = a.toNat + b.toNat := by
  rw [UInt64.toNat_add, Nat.mod_eq_of_lt h]

/-- The blocks of the next command. -/
theorem curBlocks_bounds {bMax : UInt32} {todo cur : UInt64} (hbmax : 0 < bMax.toNat)
    (hcur : (if todo > bMax.toUInt64 then bMax.toUInt64 else todo) = cur) :
    cur.toNat ≤ todo.toNat ∧ (0 < todo.toNat → 0 < cur.toNat) := by
  rw [← hcur]
  split
  · rename_i hmany
    rw [gt_iff_lt, UInt64.lt_iff_toNat_lt, UInt32.toNat_toUInt64] at hmany
    rw [UInt32.toNat_toUInt64]
    omega
  · omega

variable (hcard : MmcCard mmc bus v)
include hcard

/-! ### Writing -/

/-- One command: the blocks are written, or nothing else is touched. -/
theorem mmcWriteBlocks_spec (hfits : mmc.Fits) (buf : ByteMem) (m : σ) {start n : UInt64} (src : Nat)
    (hpos : 0 < n.toNat) (hin : start.toNat + n.toNat ≤ mmc.lba.toNat) :
    (∀ a, a < start.toNat * mmc.writeBlLen.toNat ∨
        (start.toNat + n.toNat) * mmc.writeBlLen.toNat ≤ a →
      v.content (mmcWriteBlocks mmc bus buf m start n src).2 a = v.content m a) ∧
    ((mmcWriteBlocks mmc bus buf m start n src).1 = n →
      v.content (mmcWriteBlocks mmc bus buf m start n src).2 =
        (v.content m).write (start.toNat * mmc.writeBlLen.toNat)
          (buf.read src (n.toNat * mmc.writeBlLen.toNat))) := by
  have hlba := hfits.lba_lt
  have hblock := blockAt_cmdarg hfits start (by omega)
  have hcut : n.toUInt32.toNat = n.toNat := by
    rw [UInt64.toNat_toUInt32, Nat.mod_eq_of_lt (by omega)]
  have hne : (0 : UInt64) ≠ n := by
    rintro rfl
    exact absurd hpos (by decide)
  have hroom : ¬ start + n > mmc.lba := by
    rw [gt_iff_lt, UInt64.lt_iff_toNat_lt, toNat_add_of_lt (by omega)]
    omega
  have hdata : (writeData mmc buf src n).src = buf.read src (n.toNat * mmc.writeBlLen.toNat) := by
    rw [writeData, hcut]
  have hframe := hcard.write_frame m start n (writeData mmc buf src n)
  have hwritten := hcard.written m start n (writeData mmc buf src n) hcut
  rw [hblock, hdata, ByteMem.length_read, ← Nat.add_mul] at hframe
  rw [hblock, hdata] at hwritten
  simp only [mmcWriteBlocks, if_neg hroom, if_neg hne.symm]
  by_cases hsent : (bus.sendCmd m (writeCmd mmc start n) (some (writeData mmc buf src n))).1 = 0
  · rw [if_neg (not_not.2 hsent)]
    generalize hstopped : (if mmc.hostIsSpi = true then
        (0, (bus.sendCmd m (writeCmd mmc start n) (some (writeData mmc buf src n))).2)
      else if n > 1 then
        bus.sendCmd (bus.sendCmd m (writeCmd mmc start n) (some (writeData mmc buf src n))).2 stopCmd none
      else (0, (bus.sendCmd m (writeCmd mmc start n) (some (writeData mmc buf src n))).2)) = stopped
    -- the command to stop leaves the bytes alone, sent or not
    have hsame : v.content stopped.2 =
        v.content (bus.sendCmd m (writeCmd mmc start n) (some (writeData mmc buf src n))).2 := by
      rw [← hstopped]
      split
      · rfl
      · split
        · exact hcard.stop_content _
        · rfl
    by_cases hstop : stopped.1 = 0
    · rw [if_neg (not_not.2 hstop)]
      have hpoll := (hcard.poll_content stopped.2).trans hsame
      split
      · exact ⟨fun a ha => by rw [hpoll, hframe a ha], fun h => absurd h hne⟩
      · exact ⟨fun a ha => by rw [hpoll, hframe a ha], fun _ => by rw [hpoll, hwritten hsent]⟩
    · rw [if_pos hstop]
      exact ⟨fun a ha => by rw [hsame, hframe a ha], fun h => absurd h hne⟩
  · rw [if_pos hsent]
    exact ⟨hframe, fun h => absurd h hne⟩

/-- The blocks left are written, or nothing else is touched. -/
theorem mmcBwriteLoop_spec (hfits : mmc.Fits) (buf : ByteMem) :
    ∀ (fuel : Nat) (m : σ) (start todo : UInt64) (src : Nat),
      start.toNat + todo.toNat ≤ mmc.lba.toNat → todo.toNat < fuel →
      ∃ done m', mmcBwriteLoop mmc bus buf fuel m start todo src = some (done, m') ∧
        (∀ a, a < start.toNat * mmc.writeBlLen.toNat ∨
            (start.toNat + todo.toNat) * mmc.writeBlLen.toNat ≤ a → v.content m' a = v.content m a) ∧
        (done = true → v.content m' =
          (v.content m).write (start.toNat * mmc.writeBlLen.toNat)
            (buf.read src (todo.toNat * mmc.writeBlLen.toNat))) := by
  have hlba := hfits.lba_lt
  have hbmax := hfits.bMax_pos
  intro fuel
  induction fuel with
  | zero =>
      intro m start todo src _ hfuel
      omega
  | succ fuel ih =>
      intro m start todo src hin hfuel
      rw [mmcBwriteLoop]
      generalize hcur : (if todo > mmc.bMax.toUInt64 then mmc.bMax.toUInt64 else todo) = cur
      have hle := curBlocks_bounds hbmax hcur
      have hsub : (todo - cur).toNat = todo.toNat - cur.toNat :=
        UInt64.toNat_sub_of_le _ _ (UInt64.le_iff_toNat_le.2 hle.1)
      by_cases hzero : todo.toNat = 0
      · -- no blocks: `mmc_write_blocks` is called for none, and answers that it has written none
        have hcur0 : cur = 0 := UInt64.toNat_inj.1 (by rw [UInt64.toNat_zero]; omega)
        have hnone : mmcWriteBlocks mmc bus buf m start cur src = (0, m) := by
          rw [mmcWriteBlocks, if_pos hcur0, ite_self]
        have hlast : ¬ todo - cur > 0 := by
          rw [gt_iff_lt, UInt64.lt_iff_toNat_lt, hsub, UInt64.toNat_zero]
          omega
        simp only [hnone]
        rw [if_neg (not_not.2 hcur0.symm), if_neg hlast]
        refine ⟨true, m, rfl, fun _ _ => rfl, fun _ => ?_⟩
        rw [hzero, Nat.zero_mul, ByteMem.read_zero, ByteMem.write_nil]
      · rcases mmcWriteBlocks_spec hcard hfits buf m src (hle.2 (by omega))
          (show start.toNat + cur.toNat ≤ mmc.lba.toNat by omega) with ⟨hframe, hwritten⟩
        generalize mmcWriteBlocks mmc bus buf m start cur src = written at hframe hwritten ⊢
        -- this command lies in the range of all
        have hcover : ∀ a, a < start.toNat * mmc.writeBlLen.toNat ∨
            (start.toNat + todo.toNat) * mmc.writeBlLen.toNat ≤ a →
            v.content written.2 a = v.content m a := by
          intro a ha
          have hmul := Nat.mul_le_mul_right mmc.writeBlLen.toNat
            (show start.toNat + cur.toNat ≤ start.toNat + todo.toNat by omega)
          exact hframe a (by omega)
        by_cases hall : written.1 = cur
        · rw [if_neg (not_not.2 hall)]
          have hcontent := hwritten hall
          by_cases hmore : todo - cur > 0
          · rw [if_pos hmore]
            rw [gt_iff_lt, UInt64.lt_iff_toNat_lt, hsub, UInt64.toNat_zero] at hmore
            have hstart : (start + cur).toNat = start.toNat + cur.toNat :=
              toNat_add_of_lt (by omega)
            rcases ih written.2 (start + cur) (todo - cur) (src + cur.toNat * mmc.writeBlLen.toNat)
              (by rw [hstart, hsub]; omega) (by rw [hsub]; have := hle.2 (by omega); omega) with
              ⟨done, m', hrun, hframe', hwritten'⟩
            rw [hstart, hsub] at hframe' hwritten'
            refine ⟨done, m', hrun, fun a ha => ?_, fun hdone => ?_⟩
            · have hmul := Nat.mul_le_mul_right mmc.writeBlLen.toNat
                (show start.toNat ≤ start.toNat + cur.toNat by omega)
              rw [hframe' a (by
                rw [show start.toNat + cur.toNat + (todo.toNat - cur.toNat) =
                  start.toNat + todo.toNat by omega]
                omega), hcover a ha]
            · have hsplit : todo.toNat * mmc.writeBlLen.toNat =
                  cur.toNat * mmc.writeBlLen.toNat +
                    (todo.toNat - cur.toNat) * mmc.writeBlLen.toNat := by
                rw [← Nat.add_mul, Nat.add_sub_cancel' hle.1]
              rw [hwritten' hdone, hcontent, hsplit, Nat.add_mul, ByteMem.write_read_add]
          · rw [if_neg hmore]
            rw [gt_iff_lt, UInt64.lt_iff_toNat_lt, hsub, UInt64.toNat_zero] at hmore
            have heq : cur.toNat = todo.toNat := by omega
            rw [heq] at hcontent
            exact ⟨true, written.2, rfl, hcover, fun _ => hcontent⟩
        · rw [if_pos hall]
          exact ⟨false, written.2, rfl, hcover, fun h => absurd h Bool.false_ne_true⟩

/-- `mmc_bwrite` touches nothing but its blocks, and has written them if it returns their number. -/
theorem mmcBwrite_spec (hfits : mmc.Fits) (m : σ) {start blkcnt : UInt64} (buf : ByteMem)
    (hin : start.toNat + blkcnt.toNat ≤ mmc.lba.toNat) :
    ∃ n m', mmcBwrite mmc bus m start blkcnt buf = some (n, m') ∧
      (∀ a, a < start.toNat * mmc.writeBlLen.toNat ∨
        (start.toNat + blkcnt.toNat) * mmc.writeBlLen.toNat ≤ a → v.content m' a = v.content m a) ∧
      (n = blkcnt ∨ n = 0) ∧
      (n = blkcnt → v.content m' = (v.content m).write (start.toNat * mmc.writeBlLen.toNat)
        (buf.read 0 (blkcnt.toNat * mmc.writeBlLen.toNat))) := by
  have hlba := hfits.lba_lt
  have hselect := hcard.hwpart_content m
  have hblocklen := hcard.blocklen_content (bus.selectHwpart m).2 mmc.writeBlLen
  -- the answer 0 is the number of blocks only if there are none
  have hnone : ∀ m', v.content m' = v.content m → (0 : UInt64) = blkcnt → v.content m' =
      (v.content m).write (start.toNat * mmc.writeBlLen.toNat)
        (buf.read 0 (blkcnt.toNat * mmc.writeBlLen.toNat)) := by
    rintro m' hsame rfl
    rw [hsame, UInt64.toNat_zero, Nat.zero_mul, ByteMem.read_zero, ByteMem.write_nil]
  simp only [mmcBwrite]
  by_cases hpart : (bus.selectHwpart m).1 < 0
  · rw [if_pos hpart]
    exact ⟨_, _, rfl, fun a _ => by rw [hselect], Or.inr rfl, hnone _ hselect⟩
  · rw [if_neg hpart]
    have hsame := hblocklen.trans hselect
    by_cases hlen : (bus.setBlocklen (bus.selectHwpart m).2 mmc.writeBlLen).1 = 0
    · rw [if_neg (not_not.2 hlen)]
      have hbound : 2 ^ 32 < loopBound := by
        simp only [loopBound]
        omega
      rcases mmcBwriteLoop_spec hcard hfits buf loopBound
        (bus.setBlocklen (bus.selectHwpart m).2 mmc.writeBlLen).2 start blkcnt 0 hin (by omega) with
        ⟨done, m', hrun, hframe, hwritten⟩
      rw [hsame] at hframe hwritten
      rw [hrun, Option.map_some]
      refine ⟨_, m', rfl, hframe, ite_eq_or_eq _ _ _, fun hn => ?_⟩
      by_cases hdone : done = true
      · exact hwritten hdone
      · simp only [if_neg hdone] at hn
        refine hnone m' (funext fun a => hframe a ?_) hn
        rw [← hn, UInt64.toNat_zero, Nat.add_zero]
        omega
    · rw [if_pos hlen]
      exact ⟨_, _, rfl, fun a _ => by rw [hsame], Or.inr rfl, hnone _ hsame⟩

/-! ### Erasing -/

/-- One erase: the groups of the blocks are erased, or nothing else is touched. -/
theorem mmcEraseT_spec (hfits : mmc.Fits) (m : σ) (start n : UInt64) (hpos : 0 < n.toNat)
    (hin : start.toNat + n.toNat ≤ mmc.lba.toNat) :
    (∀ a, ¬ mmc.Touched start.toNat n.toNat a →
      v.content (mmcEraseT mmc bus m start n).2 a = v.content m a) ∧
    ((mmcEraseT mmc bus m start n).1 = 0 → ∀ a, mmc.Touched start.toNat n.toNat a →
      v.content (mmcEraseT mmc bus m start n).2 a = v.erasedByte) := by
  have hlba := hfits.lba_lt
  have hlast : (start + n - 1).toNat = start.toNat + n.toNat - 1 := by
    have hadd : (start + n).toNat = start.toNat + n.toNat := toNat_add_of_lt (by omega)
    rw [UInt64.toNat_sub_of_le _ _ (UInt64.le_iff_toNat_le.2 (by
      rw [hadd]
      exact hpos.trans_le (Nat.le_add_left _ _))), hadd]
    rfl
  have hstart := blockAt_cmdarg hfits start (by omega)
  have hend := blockAt_cmdarg hfits (start + n - 1) (by omega)
  have hcontent := hcard.start_content m start
  simp only [mmcEraseT]
  by_cases hfirst : (bus.sendCmd m (eraseStartCmd mmc start) none).1 = 0
  · rw [if_neg (not_not.2 hfirst)]
    have hset := (hcard.started m start hfirst).trans hstart
    generalize (bus.sendCmd m (eraseStartCmd mmc start) none).2 = m₁ at hcontent hset ⊢
    have hcontent' := (hcard.end_content m₁ (start + n - 1)).trans hcontent
    have hset' := (hcard.end_start m₁ (start + n - 1)).trans hset
    by_cases hsecond : (bus.sendCmd m₁ (eraseEndCmd mmc (start + n - 1)) none).1 = 0
    · rw [if_neg (not_not.2 hsecond)]
      have hset'' := ((hcard.ended m₁ (start + n - 1) hsecond).trans hend).trans hlast
      generalize (bus.sendCmd m₁ (eraseEndCmd mmc (start + n - 1)) none).2 = m₂ at hcontent' hset' hset'' ⊢
      have hframe := hcard.erase_frame m₂
      have herased := hcard.erased m₂
      rw [hset', hset'', hcontent'] at hframe
      rw [hset', hset''] at herased
      exact ⟨fun a ha => hframe a fun h => ha ⟨hpos, h.1, h.2⟩,
        fun hret a ha => herased a hret ha.2.1 ha.2.2⟩
    · rw [if_pos hsecond]
      exact ⟨fun a _ => by rw [hcontent'], fun h => absurd h hsecond⟩
  · rw [if_pos hfirst]
    exact ⟨fun a _ => by rw [hcontent], fun h => absurd h hfirst⟩

omit hcard in
/-- A step of `mmc_berase` is of at least a block, and of none that is not left. -/
theorem blkR_spec (hfits : mmc.Fits) (left : UInt64) (hpos : 0 < left.toNat) :
    0 < (blkR mmc left).toNat ∧ (blkR mmc left).toNat ≤ left.toNat := by
  have hgrp := hfits.grp_pos
  simp only [blkR, gt_iff_lt, UInt64.lt_iff_toNat_lt, UInt32.toNat_toUInt64]
  split
  · rename_i hau
    rw [Bool.and_eq_true, bne_iff_ne] at hau
    have hau' : 0 < mmc.ssrAu.toNat := by
      refine Nat.pos_of_ne_zero fun hzero => hau.2 ?_
      exact UInt32.toNat_inj.1 hzero
    split
    · rw [UInt32.toNat_toUInt64]
      omega
    · omega
  · split
    · rw [UInt32.toNat_toUInt64]
      omega
    · omega

/-- The groups of the blocks left are erased, or nothing else is touched. -/
theorem mmcBeraseLoop_spec (hfits : mmc.Fits) {start blkcnt : UInt64}
    (hin : start.toNat + blkcnt.toNat ≤ mmc.lba.toNat) :
    ∀ (fuel : Nat) (m : σ) (blk : UInt64), blk.toNat ≤ blkcnt.toNat →
      blkcnt.toNat - blk.toNat < fuel →
      ∃ n m', mmcBeraseLoop mmc bus start blkcnt fuel m blk = some (n, m') ∧
        n.toNat ≤ blkcnt.toNat ∧
        (∀ a, ¬ mmc.Touched (start.toNat + blk.toNat) (blkcnt.toNat - blk.toNat) a →
          v.content m' a = v.content m a) ∧
        (n = blkcnt → ∀ a, mmc.Touched (start.toNat + blk.toNat) (blkcnt.toNat - blk.toNat) a →
          v.content m' a = v.erasedByte) := by
  have hlba := hfits.lba_lt
  intro fuel
  induction fuel with
  | zero =>
      intro m blk _ hfuel
      omega
  | succ fuel ih =>
      intro m blk hblk hfuel
      rw [mmcBeraseLoop]
      by_cases hmore : blk < blkcnt
      · rw [if_pos hmore]
        dsimp only
        rw [UInt64.lt_iff_toNat_lt] at hmore
        have hsub : (blkcnt - blk).toNat = blkcnt.toNat - blk.toNat :=
          UInt64.toNat_sub_of_le _ _ (UInt64.le_iff_toNat_le.2 hblk)
        rcases blkR_spec hfits (blkcnt - blk) (by omega) with ⟨hpos, hle⟩
        rw [hsub] at hle
        generalize blkR mmc (blkcnt - blk) = k at hpos hle ⊢
        have hstart : (start + blk).toNat = start.toNat + blk.toNat := toNat_add_of_lt (by omega)
        have hnext : (blk + k).toNat = blk.toNat + k.toNat := toNat_add_of_lt (by omega)
        rcases mmcEraseT_spec hcard hfits m (start + blk) k hpos (by omega) with ⟨hframe, herased⟩
        rw [hstart] at hframe herased
        -- the groups of this step, and those of the steps behind it
        have hsplit : ∀ a, mmc.Touched (start.toNat + blk.toNat) (blkcnt.toNat - blk.toNat) a ↔
            mmc.Touched (start.toNat + blk.toNat) k.toNat a ∨
              mmc.Touched (start.toNat + (blk + k).toNat) (blkcnt.toNat - (blk + k).toNat) a := by
          intro a
          have hadd := touched_add mmc (start.toNat + blk.toNat) k.toNat
            (blkcnt.toNat - blk.toNat - k.toNat) a
          rw [Nat.add_sub_cancel' hle] at hadd
          rw [hadd, hnext, Nat.add_assoc, Nat.sub_sub]
        generalize mmcEraseT mmc bus m (start + blk) k = done at hframe herased ⊢
        have hpoll := hcard.poll_content done.2
        have hkeep : ∀ a, ¬ mmc.Touched (start.toNat + blk.toNat) (blkcnt.toNat - blk.toNat) a →
            v.content done.2 a = v.content m a :=
          fun a ha => hframe a fun hstep => ha ((hsplit a).2 (Or.inl hstep))
        by_cases hret : done.1 = 0
        · rw [if_neg (not_not.2 hret)]
          by_cases hready : (bus.pollForBusy done.2).1 = 0
          · rw [if_neg (not_not.2 hready)]
            rcases ih (bus.pollForBusy done.2).2 (blk + k) (by omega) (by omega) with
              ⟨n, m', hrun, hn, hframe', herased'⟩
            rw [hpoll] at hframe'
            refine ⟨n, m', hrun, hn, fun a ha => ?_, fun hall a ha => ?_⟩
            · rw [hframe' a fun hrest => ha ((hsplit a).2 (Or.inr hrest)), hkeep a ha]
            · by_cases hrest : mmc.Touched (start.toNat + (blk + k).toNat)
                (blkcnt.toNat - (blk + k).toNat) a
              · exact herased' hall a hrest
              · rw [hframe' a hrest]
                exact herased hret a (((hsplit a).1 ha).resolve_right hrest)
          · rw [if_pos hready]
            refine ⟨0, _, rfl, Nat.zero_le _, fun a ha => by rw [hpoll, hkeep a ha], ?_⟩
            rintro rfl
            exact absurd hmore (Nat.not_lt_zero _)
        · rw [if_pos hret]
          refine ⟨blk, done.2, rfl, hblk, hkeep, ?_⟩
          rintro rfl
          exact absurd hmore (lt_irrefl _)
      · rw [if_neg hmore]
        rw [UInt64.lt_iff_toNat_lt] at hmore
        refine ⟨blk, m, rfl, hblk, fun _ _ => rfl, fun _ a ha => ?_⟩
        have hpos := ha.1
        omega

/-- `mmc_berase` touches nothing but the groups of its blocks, and has erased them if it returns the number
of the blocks. -/
theorem mmcBerase_spec (hfits : mmc.Fits) (m : σ) {start blkcnt : UInt64}
    (hin : start.toNat + blkcnt.toNat ≤ mmc.lba.toNat) :
    ∃ n m', mmcBerase mmc bus m start blkcnt = some (n, m') ∧
      (n.toNat ≤ blkcnt.toNat ∨ n = 0 - 1) ∧
      (∀ a, ¬ mmc.Touched start.toNat blkcnt.toNat a → v.content m' a = v.content m a) ∧
      (n = blkcnt → ∀ a, mmc.Touched start.toNat blkcnt.toNat a → v.content m' a = v.erasedByte) := by
  have hlba := hfits.lba_lt
  have hselect := hcard.hwpart_content m
  simp only [mmcBerase]
  by_cases hpart : (bus.selectHwpart m).1 < 0
  · rw [if_pos hpart]
    refine ⟨_, _, rfl, Or.inr rfl, fun a _ => by rw [hselect], fun hn => ?_⟩
    rw [← hn] at hin
    exact absurd hin (by rw [show (0 - 1 : UInt64).toNat = 2 ^ 64 - 1 by decide]; omega)
  · rw [if_neg hpart]
    have hbound : 2 ^ 32 < loopBound := by
      simp only [loopBound]
      omega
    rcases mmcBeraseLoop_spec hcard hfits hin loopBound (bus.selectHwpart m).2 0 (Nat.zero_le _)
      (by rw [UInt64.toNat_zero]; omega) with ⟨n, m', hrun, hn, hframe, herased⟩
    rw [hselect, UInt64.toNat_zero, Nat.add_zero, Nat.sub_zero] at hframe
    rw [UInt64.toNat_zero, Nat.add_zero, Nat.sub_zero] at herased
    exact ⟨n, m', hrun, Or.inl hn, hframe, herased⟩

end Card

/-! ## The back end of `kburn_mmc.c` -/

/-- The block descriptor of the card; `blk_dwrite` and `blk_derase` only drop the block cache before they
call the driver.  The calls come to an end (`mmcBwrite_spec`, `mmcBerase_spec`), so that the other answer is
not given. -/
def coreDesc {σ : Type} (mmc : Mmc) (bus : MmcBus σ) (k : Nat) (hk : k < 32) : MmcDesc σ where
  lba := mmc.lba
  log2blksz := k
  log2blksz_lt := hk
  blkDwrite m start blkcnt buf := (mmcBwrite mmc bus m start blkcnt buf).getD (0, m)
  blkDerase m start blkcnt := (mmcBerase mmc bus m start blkcnt).getD (0, m)

section Medium

variable {σ : Type}

/-- `mmc_op` for whole blocks of the card: it fails, or the operation has answered with the count. -/
theorem mmcOp_blocks (desc : MmcDesc σ) (hlba : desc.lba.toNat < 2 ^ 32) (m : σ) {offset len : UInt64}
    (hoffset : desc.blksz.toNat ∣ offset.toNat) (hlen : desc.blksz.toNat ∣ len.toNat)
    (hrange : offset.toNat + len.toNat ≤ desc.lba.toNat * desc.blksz.toNat) :
    ∃ start count : UInt64, start.toNat * desc.blksz.toNat = offset.toNat ∧
      count.toNat * desc.blksz.toNat = len.toNat ∧ start.toNat + count.toNat ≤ desc.lba.toNat ∧
      ∀ op : UInt64 → UInt64 → UInt64 × σ, ∃ ret,
        mmcOp desc op m offset len = (ret, len, (op start count).2) ∧
          (ret = 0 → (op start count).1.toUInt32 = count.toUInt32) := by
  have hpos := blksz_pos desc
  have hrest : offset.toNat / desc.blksz.toNat + len.toNat / desc.blksz.toNat ≤ desc.lba.toNat := by
    calc offset.toNat / desc.blksz.toNat + len.toNat / desc.blksz.toNat
        = (offset.toNat + len.toNat) / desc.blksz.toNat := (Nat.add_div_of_dvd_right hoffset).symm
      _ ≤ desc.lba.toNat * desc.blksz.toNat / desc.blksz.toNat := Nat.div_le_div_right hrange
      _ = desc.lba.toNat := Nat.mul_div_cancel _ hpos
  have hself := (alignUp_eq_self_iff desc len).2 hlen
  have hstart : (blkStart desc offset).toNat = offset.toNat / desc.blksz.toNat := by
    rw [toNat_blkStart, Nat.mod_eq_of_lt (lt_of_le_of_lt (le_trans (Nat.le_add_right _ _) hrest) hlba)]
  have hcount : (blkCount desc len).toNat = len.toNat / desc.blksz.toNat := by
    have hcut := toNat_blkCount desc len
    rw [hself] at hcut
    rw [hcut, blocksOf_of_dvd hlen,
      Nat.mod_eq_of_lt (lt_of_le_of_lt (le_trans (Nat.le_add_left _ _) hrest) hlba)]
  -- the sum of the range test does not wrap
  have hgo : ¬ (blkStart desc offset + blkCount desc len).toUInt64 > desc.lba := by
    rw [gt_iff_lt, UInt64.lt_iff_toNat_lt, UInt32.toNat_toUInt64, UInt32.toNat_add, hstart, hcount,
      Nat.mod_eq_of_lt (lt_of_le_of_lt hrest hlba)]
    exact Nat.not_lt.2 hrest
  refine ⟨(blkStart desc offset).toUInt64, (blkCount desc len).toUInt64, ?_, ?_, ?_, fun op => ?_⟩
  · rw [UInt32.toNat_toUInt64, hstart, Nat.div_mul_cancel hoffset]
  · rw [UInt32.toNat_toUInt64, hcount, Nat.div_mul_cancel hlen]
  · rw [UInt32.toNat_toUInt64, UInt32.toNat_toUInt64, hstart, hcount]
    exact hrest
  · simp only [mmcOp, hself, if_neg hgo, UInt32.toUInt32_toUInt64]
    split
    · exact ⟨5, rfl, fun h => absurd h (by decide)⟩
    · rename_i hn
      exact ⟨0, rfl, fun _ => not_not.1 hn⟩

variable {mmc : Mmc} {bus : MmcBus σ} {v : MmcView σ} (hcard : MmcCard mmc bus v)
include hcard

/-- A chunk of whole blocks: nothing else is touched, and if success is reported the card has the data. -/
theorem mmcWriteMedium_core (hfits : mmc.Fits) {k : Nat} (hk : k < 32)
    (hbl : mmc.writeBlLen.toNat = 2 ^ k) (m : σ) (buf : ByteMem) {offset len : UInt64}
    (hoffset : 2 ^ k ∣ offset.toNat) (hlen : 2 ^ k ∣ len.toNat)
    (hrange : offset.toNat + len.toNat ≤ mmc.lba.toNat * 2 ^ k) :
    ∃ ret m', mmcWriteMedium (coreDesc mmc bus k hk) m offset buf len = some (ret, len, m') ∧
      (∀ a, a < offset.toNat ∨ offset.toNat + len.toNat ≤ a → v.content m' a = v.content m a) ∧
      (ret = 0 → v.content m' = (v.content m).write offset.toNat (buf.read 0 len.toNat)) := by
  have hlba := hfits.lba_lt
  have hblksz : (coreDesc mmc bus k hk).blksz.toNat = 2 ^ k := toNat_blksz _
  rcases mmcOp_blocks (coreDesc mmc bus k hk) (show mmc.lba.toNat < 2 ^ 32 by omega) m
    (hblksz ▸ hoffset) (hblksz ▸ hlen) (hblksz ▸ hrange) with
    ⟨start, count, hstart, hcount, hin, hop⟩
  rw [hblksz] at hstart hcount
  change start.toNat + count.toNat ≤ mmc.lba.toNat at hin
  rcases mmcBwrite_spec hcard hfits m buf hin with ⟨n, m', hrun, hframe, hn, hwritten⟩
  rw [hbl, hstart, Nat.add_mul, hstart, hcount] at hframe
  rw [hbl, hstart, hcount] at hwritten
  have hcall : (coreDesc mmc bus k hk).blkDwrite m start count buf = (n, m') := by
    simp only [coreDesc, hrun, Option.getD_some]
  rcases hop fun start count => (coreDesc mmc bus k hk).blkDwrite m start count buf with
    ⟨ret, hret, hok⟩
  rw [hcall] at hret hok
  refine ⟨ret, m', congrArg some hret, hframe, fun h0 => hwritten ?_⟩
  -- the 32 bits of the answer are those of the count, which has no more
  have hlow := congrArg UInt32.toNat (hok h0)
  rcases hn with hall | hnone
  · exact hall
  · rw [hnone, UInt64.toNat_toUInt32, UInt64.toNat_toUInt32, UInt64.toNat_zero, Nat.zero_mod,
      Nat.mod_eq_of_lt (show count.toNat < 2 ^ 32 by omega)] at hlow
    rw [hnone]
    exact UInt64.toNat_inj.1 hlow

-- four blocks, by two commands
example :
    ∃ ret m', mmcWriteMedium (coreDesc smallMmc ramCardBus 9 (by decide)) ⟨fun _ => 0, 0, 0⟩ 1024
        (fun a => UInt8.ofNat a) 2048 = some (ret, 2048, m') ∧
      (∀ a, a < 1024 ∨ 1024 + 2048 ≤ a → m'.bytes a = 0) ∧
      (ret = 0 → m'.bytes = ByteMem.write (fun _ => 0) 1024 (ByteMem.read (fun a => UInt8.ofNat a) 0 2048)) :=
  mmcWriteMedium_core card_ramCardBus fits_smallMmc (by decide) (by decide) ⟨fun _ => 0, 0, 0⟩
    (fun a => UInt8.ofNat a) (by decide) (by decide) (by decide)

/-- An erase of whole blocks: nothing but their groups is touched, and if success is reported the groups are
erased. -/
theorem mmcEraseMedium_groups (hfits : mmc.Fits) {k : Nat} (hk : k < 32) (m : σ) {offset len : UInt64}
    (hoffset : 2 ^ k ∣ offset.toNat) (hlen : 2 ^ k ∣ len.toNat)
    (hrange : offset.toNat + len.toNat ≤ mmc.lba.toNat * 2 ^ k) :
    ∃ ret m', mmcEraseMedium (coreDesc mmc bus k hk) m offset len = some (ret, len, m') ∧
      (∀ a, ¬ mmc.Touched (offset.toNat / 2 ^ k) (len.toNat / 2 ^ k) a →
        v.content m' a = v.content m a) ∧
      (ret = 0 → ∀ a, mmc.Touched (offset.toNat / 2 ^ k) (len.toNat / 2 ^ k) a →
        v.content m' a = v.erasedByte) := by
  have hlba := hfits.lba_lt
  have hblksz : (coreDesc mmc bus k hk).blksz.toNat = 2 ^ k := toNat_blksz _
  have hpos : 0 < 2 ^ k := Nat.two_pow_pos k
  rcases mmcOp_blocks (coreDesc mmc bus k hk) (show mmc.lba.toNat < 2 ^ 32 by omega) m
    (hblksz ▸ hoffset) (hblksz ▸ hlen) (hblksz ▸ hrange) with
    ⟨start, count, hstart, hcount, hin, hop⟩
  rw [hblksz] at hstart hcount
  change start.toNat + count.toNat ≤ mmc.lba.toNat at hin
  rw [← hstart, ← hcount, Nat.mul_div_cancel _ hpos, Nat.mul_div_cancel _ hpos]
  rcases mmcBerase_spec hcard hfits m hin with ⟨n, m', hrun, hn, hframe, herased⟩
  have hcall : (coreDesc mmc bus k hk).blkDerase m start count = (n, m') := by
    simp only [coreDesc, hrun, Option.getD_some]
  rcases hop fun start count => (coreDesc mmc bus k hk).blkDerase m start count with ⟨ret, hret, hok⟩
  rw [hcall] at hret hok
  dsimp only at hret hok
  refine ⟨ret, m', congrArg some hret, hframe, fun h0 => herased ?_⟩
  have hlow := congrArg UInt32.toNat (hok h0)
  rw [UInt64.toNat_toUInt32, UInt64.toNat_toUInt32,
    Nat.mod_eq_of_lt (show count.toNat < 2 ^ 32 by omega)] at hlow
  rcases hn with hle | hfail
  · rw [Nat.mod_eq_of_lt (by omega)] at hlow
    exact UInt64.toNat_inj.1 hlow
  · -- the card has fewer blocks than `-1` says
    rw [hfail, show (0 - 1 : UInt64).toNat % 2 ^ 32 = 2 ^ 32 - 1 by decide] at hlow
    omega

omit hcard in
/-- The groups of a range of blocks, in bytes. -/
theorem touched_bytes (hfits : mmc.Fits) {start n : Nat} (hpos : 0 < n) (a : Nat) :
    mmc.Touched start n a ↔
      start / mmc.group * mmc.group * mmc.writeBlLen.toNat ≤ a ∧
        a < ((start + n - 1) / mmc.group + 1) * mmc.group * mmc.writeBlLen.toNat := by
  have hg := group_pos hfits
  have hb := hfits.bl_pos
  unfold Mmc.Touched Mmc.groupOf
  have hhi : a / mmc.writeBlLen.toNat / mmc.group ≤ (start + n - 1) / mmc.group ↔
      a < ((start + n - 1) / mmc.group + 1) * mmc.group * mmc.writeBlLen.toNat := by
    rw [← Nat.lt_succ_iff, Nat.div_lt_iff_lt_mul hg, Nat.div_lt_iff_lt_mul hb]
  rw [Nat.le_div_iff_mul_le hg, Nat.le_div_iff_mul_le hb, hhi]
  exact ⟨fun h => h.2, fun h => ⟨hpos, h⟩⟩

omit hcard in
/-- An erase of blocks stays in its range exactly if it is of whole groups. -/
theorem touched_contained_iff (hfits : mmc.Fits) {start n : Nat} (hpos : 0 < n) :
    (∀ a, mmc.Touched start n a →
        start * mmc.writeBlLen.toNat ≤ a ∧ a < (start + n) * mmc.writeBlLen.toNat) ↔
      mmc.group ∣ start ∧ mmc.group ∣ start + n := by
  have hg := group_pos hfits
  have hb := hfits.bl_pos
  have hlast := Nat.lt_div_mul_add hg (a := start + n - 1)
  have hround := Nat.div_mul_le_self start mmc.group
  constructor
  · intro hcontained
    have hgroup : start / mmc.group ≤ (start + n - 1) / mmc.group := Nat.div_le_div_right (by omega)
    have hlt : start / mmc.group * mmc.group * mmc.writeBlLen.toNat <
        ((start + n - 1) / mmc.group + 1) * mmc.group * mmc.writeBlLen.toNat :=
      Nat.mul_lt_mul_of_pos_right (Nat.mul_lt_mul_of_pos_right (by omega) hg) hb
    -- the first byte of the groups and the last
    have hfirst := (hcontained _ ((touched_bytes hfits hpos _).2 ⟨le_rfl, hlt⟩)).1
    have hend := (hcontained _ ((touched_bytes hfits hpos _).2
      ⟨Nat.le_sub_one_of_lt hlt, Nat.sub_one_lt (by omega)⟩)).2
    have hstart : start ≤ start / mmc.group * mmc.group := Nat.le_of_mul_le_mul_right hfirst hb
    have hstop : ((start + n - 1) / mmc.group + 1) * mmc.group ≤ start + n :=
      Nat.le_of_mul_le_mul_right (by omega) hb
    rw [Nat.add_mul, Nat.one_mul] at hstop
    constructor
    · exact ⟨start / mmc.group, by rw [Nat.mul_comm]; omega⟩
    · refine ⟨(start + n - 1) / mmc.group + 1, ?_⟩
      rw [Nat.mul_comm, Nat.add_mul, Nat.one_mul]
      omega
  · rintro ⟨hstart, hstop⟩ a ha
    rcases (touched_bytes hfits hpos a).1 ha with ⟨hlo, hhi⟩
    rw [Nat.div_mul_cancel hstart] at hlo
    refine ⟨hlo, lt_of_lt_of_le hhi (Nat.mul_le_mul_right _ ?_)⟩
    rcases hstop with ⟨q, hq⟩
    have hdiv : (start + n - 1) / mmc.group < q := by
      rw [Nat.div_lt_iff_lt_mul hg, Nat.mul_comm]
      omega
    calc ((start + n - 1) / mmc.group + 1) * mmc.group
        ≤ q * mmc.group := Nat.mul_le_mul_right _ hdiv
      _ = start + n := by rw [hq, Nat.mul_comm]

omit hcard in
/-- The blocks themselves are erased. -/
theorem touched_of_mem (hfits : mmc.Fits) {start n a : Nat} (hlo : start * mmc.writeBlLen.toNat ≤ a)
    (hhi : a < (start + n) * mmc.writeBlLen.toNat) : mmc.Touched start n a := by
  have hb := hfits.bl_pos
  have hfirst : start ≤ a / mmc.writeBlLen.toNat := (Nat.le_div_iff_mul_le hb).2 hlo
  have hlast : a / mmc.writeBlLen.toNat < start + n := (Nat.div_lt_iff_lt_mul hb).2 hhi
  exact ⟨by omega, Nat.div_le_div_right hfirst, Nat.div_le_div_right (by omega)⟩

/-- An erase that is reported as a success has left the bytes around its range alone exactly if it was of
whole groups, on a card that had none of its bytes erased. -/
theorem mmcEraseMedium_contained_iff (hfits : mmc.Fits) {k : Nat} (hk : k < 32)
    (hbl : mmc.writeBlLen.toNat = 2 ^ k) (m : σ) (hfull : ∀ a, v.content m a ≠ v.erasedByte)
    {offset len : UInt64} (hoffset : 2 ^ k ∣ offset.toNat) (hlen : 2 ^ k ∣ len.toNat)
    (hpos : 0 < len.toNat) (hrange : offset.toNat + len.toNat ≤ mmc.lba.toNat * 2 ^ k) :
    ∃ ret m', mmcEraseMedium (coreDesc mmc bus k hk) m offset len = some (ret, len, m') ∧
      (ret = 0 → ((∀ a, a < offset.toNat ∨ offset.toNat + len.toNat ≤ a →
          v.content m' a = v.content m a) ↔
        mmc.group * 2 ^ k ∣ offset.toNat ∧ mmc.group * 2 ^ k ∣ offset.toNat + len.toNat)) := by
  have hbpos : 0 < 2 ^ k := Nat.two_pow_pos k
  rcases mmcEraseMedium_groups hcard hfits hk m hoffset hlen hrange with
    ⟨ret, m', hrun, hframe, herased⟩
  refine ⟨ret, m', hrun, fun h0 => ?_⟩
  obtain ⟨start, hstart⟩ := hoffset
  obtain ⟨n, hn⟩ := hlen
  have hn0 : 0 < n := by
    refine Nat.pos_of_ne_zero fun hzero => ?_
    rw [hzero, Nat.mul_zero] at hn
    omega
  have hcontained := @touched_contained_iff mmc hfits start n hn0
  rw [hn, hstart, Nat.mul_div_cancel_left _ hbpos, Nat.mul_div_cancel_left _ hbpos] at hframe herased
  rw [hbl, Nat.mul_comm start, Nat.mul_comm (start + n), Nat.mul_add] at hcontained
  rw [hn, hstart, ← Nat.mul_add, Nat.mul_comm (mmc.group), Nat.mul_dvd_mul_iff_left hbpos,
    Nat.mul_dvd_mul_iff_left hbpos, ← hcontained, Nat.mul_add]
  constructor
  · intro hkept a ha
    by_contra hout
    -- a byte outside that is in one of the groups is erased, and was not before
    have hsame := hkept a (by omega)
    rw [herased h0 a ha] at hsame
    exact hfull a hsame.symm
  · intro hin a ha
    refine hframe a fun htouched => ?_
    have hmem := hin a htouched
    omega

omit hcard in
/-- The blocks 2 and 3, of which the group has two more. -/
theorem mmcEraseMedium_half_group :
    ∃ ret m', mmcEraseMedium (coreDesc smallMmc ramCardBus 9 (by decide)) ⟨fun _ => 1, 0, 0⟩ 1024 1024 =
        some (ret, 1024, m') ∧
      (ret = 0 → ¬ ∀ a, a < 1024 ∨ 1024 + 1024 ≤ a → m'.bytes a = 1) := by
  rcases @mmcEraseMedium_contained_iff _ smallMmc ramCardBus ramCardView card_ramCardBus fits_smallMmc 9
    (by decide) (by decide) ⟨fun _ => 1, 0, 0⟩ (fun _ => show (1 : UInt8) ≠ 0 by decide) 1024 1024 (by decide)
    (by decide) (by decide) (by decide) with ⟨ret, m', hrun, hiff⟩
  exact ⟨ret, m', hrun, fun h0 hkept => absurd ((hiff h0).1 hkept).1 (by decide)⟩

/-- An erase in units of the erase size that the host is told: nothing outside the range is touched, and if
success is reported the range is erased. -/
theorem mmcEraseMedium_core (hfits : mmc.Fits) {k : Nat} (hk : k < 32)
    (hbl : mmc.writeBlLen.toNat = 2 ^ k) (m : σ) (wp : BitVec 8) {offset len : UInt64}
    (hoffset : (mmcMediumDesc (coreDesc mmc bus k hk) mmc.eraseGrpSize wp).eraseSize.toNat ∣ offset.toNat)
    (hlen : (mmcMediumDesc (coreDesc mmc bus k hk) mmc.eraseGrpSize wp).eraseSize.toNat ∣ len.toNat)
    (hrange : offset.toNat + len.toNat ≤ mmc.lba.toNat * 2 ^ k) :
    ∃ ret m', mmcEraseMedium (coreDesc mmc bus k hk) m offset len = some (ret, len, m') ∧
      (∀ a, a < offset.toNat ∨ offset.toNat + len.toNat ≤ a → v.content m' a = v.content m a) ∧
      (ret = 0 → ∀ a, offset.toNat ≤ a → a < offset.toNat + len.toNat →
        v.content m' a = v.erasedByte) := by
  have hbpos : 0 < 2 ^ k := Nat.two_pow_pos k
  have hsize : (mmcMediumDesc (coreDesc mmc bus k hk) mmc.eraseGrpSize wp).eraseSize.toNat =
      mmc.eraseGrpSize.toNat * 2 ^ k := by
    have hgrp := mmc.eraseGrpSize.toNat_lt
    have hlt : mmc.eraseGrpSize.toNat * 2 ^ k < 2 ^ 64 := by
      calc mmc.eraseGrpSize.toNat * 2 ^ k
          < 2 ^ 32 * 2 ^ k := Nat.mul_lt_mul_of_pos_right hgrp hbpos
        _ ≤ 2 ^ 32 * 2 ^ 32 := Nat.mul_le_mul_left _ (Nat.pow_le_pow_right (by decide) hk.le)
        _ = 2 ^ 64 := by decide
    have hblksz : (coreDesc mmc bus k hk).blksz.toNat = 2 ^ k := toNat_blksz _
    rw [mmcMediumDesc, UInt64.toNat_mul, UInt32.toNat_toUInt64, hblksz, Nat.mod_eq_of_lt hlt]
  rw [hsize] at hoffset hlen
  obtain ⟨x, hx⟩ := hoffset
  obtain ⟨y, hy⟩ := hlen
  have hstart : offset.toNat = 2 ^ k * (mmc.eraseGrpSize.toNat * x) := by
    rw [hx, Nat.mul_assoc, Nat.mul_left_comm]
  have hn : len.toNat = 2 ^ k * (mmc.eraseGrpSize.toNat * y) := by
    rw [hy, Nat.mul_assoc, Nat.mul_left_comm]
  rcases mmcEraseMedium_groups hcard hfits hk m ⟨_, hstart⟩ ⟨_, hn⟩ hrange with
    ⟨ret, m', hrun, hframe, herased⟩
  rw [hstart, hn, Nat.mul_div_cancel_left _ hbpos, Nat.mul_div_cancel_left _ hbpos] at hframe herased
  rw [hstart, hn]
  refine ⟨ret, m', hrun, fun a ha => hframe a fun htouched => ?_, fun h0 a hlo hhi => herased h0 a ?_⟩
  · -- the group of a card is one block, or that of the erase size
    have hgroup : mmc.group ∣ mmc.eraseGrpSize.toNat * x ∧
        mmc.group ∣ mmc.eraseGrpSize.toNat * x + mmc.eraseGrpSize.toNat * y := by
      unfold Mmc.group
      split
      · exact ⟨one_dvd _, one_dvd _⟩
      · exact ⟨Dvd.intro _ rfl, Dvd.dvd.add (Dvd.intro _ rfl) (Dvd.intro _ rfl)⟩
    have hin := (touched_contained_iff hfits htouched.1).2 hgroup a htouched
    rw [hbl, Nat.mul_comm _ (2 ^ k), Nat.mul_comm _ (2 ^ k), Nat.mul_add] at hin
    omega
  · apply touched_of_mem hfits
    · rwa [hbl, Nat.mul_comm]
    · rwa [hbl, Nat.mul_comm, Nat.mul_add]

omit hcard in
theorem mmcEraseMedium_smallMmc :
    ∃ ret m', mmcEraseMedium (coreDesc smallMmc ramCardBus 9 (by decide)) ⟨fun _ => 1, 0, 0⟩ 2048 4096 =
        some (ret, 4096, m') ∧
      (∀ a, a < 2048 ∨ 2048 + 4096 ≤ a → m'.bytes a = 1) ∧
      (ret = 0 → ∀ a, 2048 ≤ a → a < 2048 + 4096 → m'.bytes a = 0) :=
  mmcEraseMedium_core card_ramCardBus fits_smallMmc (by decide) (by decide) ⟨fun _ => 1, 0, 0⟩ 0 (by decide)
    (by decide) (by decide)

end Medium

end Burn
end CanmvK230
