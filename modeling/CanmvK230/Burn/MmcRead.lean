import CanmvK230.Burn.MmcCore
import CanmvK230.Boot.Load

/-!
# MmcRead — the blocks of a card (`mmc_bread`)

`mmc_bread` reads with commands of at most `b_max` blocks, and answers the number of blocks or 0.  It comes to
an end whatever the card answers, leaves the card alone, and has the bytes of the card if it answers the
number.  That is the `blk_dread` the boot code is modelled on (`mmcBread_blkDread`).
-/

namespace CanmvK230
namespace Burn

open Lib

/-- What `mmc_bread` reads of `struct mmc`. -/
structure MmcReader extends Mmc where
  readBlLen : UInt32

/-- `mmc_send_cmd` with the data of a read: blocks and their size, and what is at `dest` afterwards. -/
structure MmcReadBus (σ : Type) extends MmcBus σ where
  receive : σ → MmcCmd → UInt32 → UInt32 → Int × List UInt8 × σ

def mmcCmdReadSingleBlock : Nat := 17
def mmcCmdReadMultipleBlock : Nat := 18

/-! ## `mmc_bread` -/

section Source

variable {σ : Type} (mmc : MmcReader) (bus : MmcReadBus σ)

def readCmd (start blkcnt : UInt64) : MmcCmd where
  cmdidx := if blkcnt > 1 then mmcCmdReadMultipleBlock else mmcCmdReadSingleBlock
  cmdarg :=
    if mmc.highCapacity = true then start.toUInt32 else (start * mmc.readBlLen.toUInt64).toUInt32
  respType := .r1

/-- `mmc_read_blocks`, with what is at `dst` afterwards. -/
def mmcReadBlocks (m : σ) (start blkcnt : UInt64) : UInt64 × List UInt8 × σ :=
  let received := bus.receive m (readCmd mmc start blkcnt) blkcnt.toUInt32 mmc.readBlLen
  if received.1 ≠ 0 then
    (0, received.2)
  else
    let stopped :=
      if blkcnt > 1 then bus.sendCmd received.2.2 stopCmd none else (0, received.2.2)
    if stopped.1 ≠ 0 then
      (0, received.2.1, stopped.2) -- "mmc fail to send stop cmd"
    else
      (blkcnt, received.2.1, stopped.2)

/-- The loop of `mmc_bread`, whose condition is tested behind the body: whether all blocks were read, and
the bytes of the commands one behind the other. -/
def mmcBreadLoop : Nat → σ → UInt64 → UInt64 → Option (Bool × List UInt8 × σ)
  | 0, _, _, _ => none
  | fuel + 1, m, start, blocksTodo =>
      let cur := if blocksTodo > mmc.bMax.toUInt64 then mmc.bMax.toUInt64 else blocksTodo
      let got := mmcReadBlocks mmc bus m start cur
      if got.1 ≠ cur then
        some (false, got.2)
      else if blocksTodo - cur > 0 then
        (mmcBreadLoop fuel got.2.2 (start + cur) (blocksTodo - cur)).map fun rest =>
          (rest.1, got.2.1 ++ rest.2.1, rest.2.2)
      else
        some (true, got.2)

/-- `mmc_bread` -/
def mmcBread (m : σ) (start blkcnt : UInt64) : Option (UInt64 × List UInt8 × σ) :=
  if blkcnt = 0 then
    some (0, [], m)
  else
    let selected := bus.selectHwpart m
    if selected.1 < 0 then
      some (0, [], selected.2)
    else if start + blkcnt > mmc.lba then
      some (0, [], selected.2) -- "MMC: block number exceeds max"
    else
      let blocklen := bus.setBlocklen selected.2 mmc.readBlLen
      if blocklen.1 ≠ 0 then
        some (0, [], blocklen.2)
      else
        (mmcBreadLoop mmc bus loopBound blocklen.2 start blkcnt).map fun got =>
          (if got.1 = true then blkcnt else 0, got.2)

end Source

/-! ## The card -/

/-- Every block that can be read has an argument. -/
structure MmcReader.Fits (mmc : MmcReader) : Prop where
  bl_pos : 0 < mmc.readBlLen.toNat
  bMax_pos : 0 < mmc.bMax.toNat
  lba_lt : mmc.lba.toNat < 2 ^ 32
  bytes_le : mmc.highCapacity ≠ true → mmc.lba.toNat * mmc.readBlLen.toNat ≤ 2 ^ 32

/-- The byte that an argument stands for. -/
def MmcReader.byteAt (mmc : MmcReader) (arg : UInt32) : Nat :=
  if mmc.highCapacity = true then arg.toNat * mmc.readBlLen.toNat else arg.toNat

/-- A read leaves the card alone, and if it is answered without an error, its bytes are delivered. -/
structure MmcReadCard {σ : Type} (mmc : MmcReader) (bus : MmcReadBus σ) (v : MmcView σ) : Prop where
  card : MmcCard mmc.toMmc bus.toMmcBus v
  receive_content : ∀ m cmd n len, v.content (bus.receive m cmd n len).2.2 = v.content m
  received : ∀ m start (n : UInt64),
    (bus.receive m (readCmd mmc start n) n.toUInt32 mmc.readBlLen).1 = 0 →
    (bus.receive m (readCmd mmc start n) n.toUInt32 mmc.readBlLen).2.1 =
      (v.content m).read (mmc.byteAt (readCmd mmc start n).cmdarg)
        (n.toUInt32.toNat * mmc.readBlLen.toNat)

section Read

variable {σ : Type} {mmc : MmcReader} {bus : MmcReadBus σ} {v : MmcView σ}

theorem byteAt_cmdarg (hfits : mmc.Fits) {start n : UInt64} (hin : start.toNat < mmc.lba.toNat) :
    mmc.byteAt (readCmd mmc start n).cmdarg = start.toNat * mmc.readBlLen.toNat := by
  have hlba := hfits.lba_lt
  unfold MmcReader.byteAt readCmd
  by_cases hc : mmc.highCapacity = true
  · rw [if_pos hc]
    simp only [if_pos hc]
    rw [UInt64.toNat_toUInt32, Nat.mod_eq_of_lt (by omega)]
  · have hbytes : start.toNat * mmc.readBlLen.toNat < 2 ^ 32 := by
      calc start.toNat * mmc.readBlLen.toNat
          < mmc.lba.toNat * mmc.readBlLen.toNat := Nat.mul_lt_mul_of_pos_right hin hfits.bl_pos
        _ ≤ 2 ^ 32 := hfits.bytes_le hc
    rw [if_neg hc]
    simp only [if_neg hc]
    rw [UInt64.toNat_toUInt32, UInt64.toNat_mul, UInt32.toNat_toUInt64,
      Nat.mod_mod_of_dvd _ (by decide), Nat.mod_eq_of_lt hbytes]

variable (hcard : MmcReadCard mmc bus v) (hfits : mmc.Fits)
include hcard hfits

/-- One command. -/
theorem mmcReadBlocks_spec (m : σ) {start n : UInt64} (hpos : 0 < n.toNat)
    (hin : start.toNat + n.toNat ≤ mmc.lba.toNat) :
    v.content (mmcReadBlocks mmc bus m start n).2.2 = v.content m ∧
    ((mmcReadBlocks mmc bus m start n).1 = n → (mmcReadBlocks mmc bus m start n).2.1 =
      (v.content m).read (start.toNat * mmc.readBlLen.toNat) (n.toNat * mmc.readBlLen.toNat)) := by
  have hlba := hfits.lba_lt
  have hcut : n.toUInt32.toNat = n.toNat := by
    rw [UInt64.toNat_toUInt32, Nat.mod_eq_of_lt (by omega)]
  have hne : (0 : UInt64) ≠ n := by
    rintro rfl
    exact absurd hpos (by decide)
  have hsame := hcard.receive_content m (readCmd mmc start n) n.toUInt32 mmc.readBlLen
  have hbytes := hcard.received m start n
  rw [byteAt_cmdarg hfits (by omega), hcut] at hbytes
  simp only [mmcReadBlocks]
  generalize bus.receive m (readCmd mmc start n) n.toUInt32 mmc.readBlLen = received at hsame hbytes ⊢
  by_cases hreceived : received.1 = 0
  · rw [if_neg (not_not.2 hreceived)]
    generalize hstopped : (if n > 1 then bus.sendCmd received.2.2 stopCmd none
      else (0, received.2.2)) = stopped
    -- the command to stop leaves the bytes alone, sent or not
    have hstop : v.content stopped.2 = v.content m := by
      rw [← hstopped]
      split
      · exact (hcard.card.stop_content _).trans hsame
      · exact hsame
    split
    · exact ⟨hstop, fun h => absurd h hne⟩
    · exact ⟨hstop, fun _ => hbytes hreceived⟩
  · rw [if_pos hreceived]
    exact ⟨hsame, fun h => absurd h hne⟩

/-- The blocks that are left. -/
theorem mmcBreadLoop_spec :
    ∀ (fuel : Nat) (m : σ) (start todo : UInt64), 0 < todo.toNat →
      start.toNat + todo.toNat ≤ mmc.lba.toNat → todo.toNat < fuel →
      ∃ done bytes m', mmcBreadLoop mmc bus fuel m start todo = some (done, bytes, m') ∧
        v.content m' = v.content m ∧
        (done = true → bytes = (v.content m).read (start.toNat * mmc.readBlLen.toNat)
          (todo.toNat * mmc.readBlLen.toNat)) := by
  have hlba := hfits.lba_lt
  have hbmax := hfits.bMax_pos
  intro fuel
  induction fuel with
  | zero =>
      intro m start todo _ _ hfuel
      omega
  | succ fuel ih =>
      intro m start todo hpos hin hfuel
      rw [mmcBreadLoop]
      generalize hcur : (if todo > mmc.bMax.toUInt64 then mmc.bMax.toUInt64 else todo) = cur
      have hle : cur.toNat ≤ todo.toNat ∧ 0 < cur.toNat := by
        rcases curBlocks_bounds hbmax hcur with ⟨hcurle, hcurpos⟩
        exact ⟨hcurle, hcurpos hpos⟩
      have hsub : (todo - cur).toNat = todo.toNat - cur.toNat :=
        UInt64.toNat_sub_of_le _ _ (UInt64.le_iff_toNat_le.2 hle.1)
      rcases mmcReadBlocks_spec hcard hfits m hle.2
        (show start.toNat + cur.toNat ≤ mmc.lba.toNat by omega) with ⟨hsame, hgot⟩
      generalize mmcReadBlocks mmc bus m start cur = got at hsame hgot ⊢
      by_cases hall : got.1 = cur
      · rw [if_neg (not_not.2 hall)]
        have hbytes := hgot hall
        by_cases hmore : todo - cur > 0
        · rw [if_pos hmore]
          rw [gt_iff_lt, UInt64.lt_iff_toNat_lt, hsub, UInt64.toNat_zero] at hmore
          have hstart : (start + cur).toNat = start.toNat + cur.toNat :=
            toNat_add_of_lt (by omega)
          rcases ih got.2.2 (start + cur) (todo - cur) (by rw [hsub]; omega)
            (by rw [hstart, hsub]; omega) (by rw [hsub]; omega) with ⟨done, bytes, m', hrun, hkept, hrest⟩
          rw [hrun, Option.map_some]
          refine ⟨done, got.2.1 ++ bytes, m', rfl, hkept.trans hsame, fun hdone => ?_⟩
          have hsplit : todo.toNat * mmc.readBlLen.toNat =
              cur.toNat * mmc.readBlLen.toNat + (todo.toNat - cur.toNat) * mmc.readBlLen.toNat := by
            rw [← Nat.add_mul, Nat.add_sub_cancel' hle.1]
          rw [hrest hdone, hbytes, hsame, hstart, hsub, hsplit, ByteMem.read_add, Nat.add_mul]
        · rw [if_neg hmore]
          rw [gt_iff_lt, UInt64.lt_iff_toNat_lt, hsub, UInt64.toNat_zero] at hmore
          have heq : cur.toNat = todo.toNat := by omega
          rw [heq] at hbytes
          exact ⟨true, got.2.1, got.2.2, rfl, hsame, fun _ => hbytes⟩
      · rw [if_pos hall]
        exact ⟨false, got.2.1, got.2.2, rfl, hsame, fun h => absurd h Bool.false_ne_true⟩

/-- `mmc_bread` answers the number of blocks, and has them, or 0. -/
theorem mmcBread_spec (m : σ) {start blkcnt : UInt64} (hwrap : start.toNat + blkcnt.toNat < 2 ^ 64) :
    ∃ ret bytes m', mmcBread mmc bus m start blkcnt = some (ret, bytes, m') ∧
      v.content m' = v.content m ∧ (ret = blkcnt ∨ ret = 0) ∧
      (ret = blkcnt → bytes = (v.content m).read (start.toNat * mmc.readBlLen.toNat)
        (blkcnt.toNat * mmc.readBlLen.toNat)) := by
  have hlba := hfits.lba_lt
  have hselect := hcard.card.hwpart_content m
  have hblocklen := (hcard.card.blocklen_content (bus.selectHwpart m).2 mmc.readBlLen).trans hselect
  unfold mmcBread
  by_cases hzero : blkcnt = 0
  · rw [if_pos hzero]
    refine ⟨0, [], m, rfl, rfl, Or.inr rfl, fun _ => ?_⟩
    rw [hzero, UInt64.toNat_zero, Nat.zero_mul, ByteMem.read_zero]
  · rw [if_neg hzero]
    dsimp only
    have hpos := toNat_pos_of_ne_zero hzero
    -- the answer 0 is not the number of blocks
    have hnone : (0 : UInt64) ≠ blkcnt := fun h => hzero h.symm
    by_cases hpart : (bus.selectHwpart m).1 < 0
    · rw [if_pos hpart]
      exact ⟨_, _, _, rfl, hselect, Or.inr rfl, fun h => absurd h hnone⟩
    · rw [if_neg hpart]
      by_cases hout : start + blkcnt > mmc.lba
      · rw [if_pos hout]
        exact ⟨_, _, _, rfl, hselect, Or.inr rfl, fun h => absurd h hnone⟩
      · rw [if_neg hout]
        rw [gt_iff_lt, UInt64.lt_iff_toNat_lt, toNat_add_of_lt hwrap] at hout
        by_cases hlen : (bus.setBlocklen (bus.selectHwpart m).2 mmc.readBlLen).1 = 0
        · rw [if_neg (not_not.2 hlen)]
          have hbound : 2 ^ 32 < loopBound := by
            simp only [loopBound]
            omega
          rcases mmcBreadLoop_spec hcard hfits loopBound
            (bus.setBlocklen (bus.selectHwpart m).2 mmc.readBlLen).2 start blkcnt hpos (by omega)
            (by omega) with ⟨done, bytes, m', hrun, hkept, hread⟩
          rw [hblocklen] at hkept hread
          rw [hrun, Option.map_some]
          refine ⟨_, bytes, m', rfl, hkept, ite_eq_or_eq _ _ _, fun hn => ?_⟩
          by_cases hdone : done = true
          · exact hread hdone
          · simp only [if_neg hdone] at hn
            exact absurd hn hnone
        · rw [if_pos hlen]
          exact ⟨_, _, _, rfl, hblocklen, Or.inr rfl, fun h => absurd h hnone⟩

/-- `blk_dread` of a device with the contents of the card does what `mmc_bread` has done, if it has
answered the number of blocks. -/
theorem mmcBread_blkDread (hsector : mmc.readBlLen.toNat = Boot.blksz) (m : σ) {start blkcnt : UInt64}
    (hwrap : start.toNat + blkcnt.toNat < 2 ^ 64) :
    ∃ ret bytes m', mmcBread mmc bus m start blkcnt = some (ret, bytes, m') ∧
      v.content m' = v.content m ∧ (ret = blkcnt ∨ ret = 0) ∧
      ∀ (d : Boot.BlkDesc) (mem : ByteMem) (buff : Nat), d.content = v.content m →
        d.dread start.toNat blkcnt.toNat = ret.toNat → ret = blkcnt →
        Boot.blkDread d mem start.toNat blkcnt.toNat buff = (ret.toNat, mem.write buff bytes) := by
  rcases mmcBread_spec hcard hfits m hwrap with ⟨ret, bytes, m', hrun, hsame, hret, hread⟩
  refine ⟨ret, bytes, m', hrun, hsame, hret, ?_⟩
  rintro d mem buff hcontent hdread rfl
  rw [Boot.blkDread_of_full hdread, hread rfl, hcontent, hsector, Nat.mul_comm start.toNat,
    Nat.mul_comm ret.toNat]

end Read

/-! A card of 64 sectors. -/

def smallReader : MmcReader :=
  { smallMmc with readBlLen := 512 }

def ramReadBus : MmcReadBus RamCard :=
  { ramCardBus with
    receive := fun m cmd n len =>
      (0, m.bytes.read (smallReader.byteAt cmd.cmdarg) (n.toNat * len.toNat), m) }

theorem fits_smallReader : smallReader.Fits :=
  ⟨by decide, by decide, by decide, fun h => absurd rfl h⟩

theorem readCard_ramReadBus : MmcReadCard smallReader ramReadBus ramCardView where
  card := card_ramCardBus
  receive_content _ _ _ _ := rfl
  received _ _ _ _ := rfl

/-- Five sectors from the third one on, by two commands. -/
theorem mmcBread_five_sectors :
    ∃ ret bytes m', mmcBread smallReader ramReadBus ⟨fun a => UInt8.ofNat a, 0, 0⟩ 2 5 =
        some (ret, bytes, m') ∧ m'.bytes = (fun a => UInt8.ofNat a) ∧ (ret = 5 ∨ ret = 0) ∧
      ∀ (d : Boot.BlkDesc) (mem : ByteMem) (buff : Nat), d.content = (fun a => UInt8.ofNat a) →
        d.dread 2 5 = ret.toNat → ret = 5 → Boot.blkDread d mem 2 5 buff = (ret.toNat, mem.write buff bytes) :=
  mmcBread_blkDread readCard_ramReadBus fits_smallReader (by decide) ⟨fun a => UInt8.ofNat a, 0, 0⟩
    (by decide)

end Burn
end CanmvK230
