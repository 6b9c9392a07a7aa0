import CanmvK230.Burn.NorWrite

/-!
# NorCore — SPI-NOR chips (`spi-nor-core.c`) on the SPI controller (`designware_spi.c`)

`spi_nor_write` cuts a write at the ends of the pages, the controller cuts a transfer at 64 KiB and at
16 MiB, and a transfer may end early; what is left is sent with the next command.  Nothing is known of
a command that goes over the end of a page, over 16 MiB or over a transfer of the controller
(`Chip`), and none is sent: the calls do on the chip what the burner relies on (`norOps_exact`).

`spi_nor_write` does not look at the answer of `write_enable`, `spi_nor_erase` does
(`write_enable_failed`).

The boards have no `CONFIG_SPI_FLASH_BAR`, and none of their chips has an `erase` of its own.
-/

namespace CanmvK230
namespace Burn

open Lib

def eintr : Int := 4

def sz64K : Nat := 0x10000
def sz16M : Nat := 0x1000000

/-- The commands on the bus, with their answers: the program command sends a number of bytes, and the
read command receives some. -/
structure NorBus (μ : Type) where
  writeEnable : μ → Int × μ
  writeDisable : μ → Int × μ
  program : μ → Nat → List UInt8 → Int × Nat × μ
  erase : μ → Nat → Int × μ
  read : μ → Nat → Nat → Int × List UInt8 × μ
  waitTillReady : μ → Int × μ
  ctrlc : μ → Bool × μ

section Source

variable {μ : Type} (flash : SpiFlash) (bus : NorBus μ)

/-- `op->data.nbytes` after `dw_spi_adjust_op_size`. -/
def dwSpiAdjustOpSize (addr nbytes : Nat) : Nat :=
  let nbytes := min nbytes sz64K
  if addr < sz16M ∧ addr + nbytes > sz16M then sz16M - addr else nbytes

/-- `is_power_of_2` -/
def isPowerOf2 (n : Nat) : Bool :=
  n != 0 && n &&& (n - 1) == 0

def pageOffset (addr : Nat) : Nat :=
  if isPowerOf2 flash.pageSize.toNat = true then
    addr &&& (flash.pageSize.toNat - 1)
  else
    addr % flash.pageSize.toNat

def spiNorWriteData (m : μ) (dest : Nat) (buf : List UInt8) : Int × μ :=
  let nbytes := dwSpiAdjustOpSize dest buf.length
  let nbytes := if buf.length < nbytes then buf.length else nbytes
  let sent := bus.program m dest (buf.take nbytes)
  if sent.1 ≠ 0 then (sent.1, sent.2.2) else (sent.2.1, sent.2.2)

/-- The loop of `spi_nor_write`: the value returned, what has been added to `retlen`, and the chip.  With
nothing to write, `ret` is what it was before. -/
def spiNorWriteLoop (dest len : Nat) (buf : ByteMem) :
    Nat → μ → Nat → Int → Option (Int × Nat × μ)
  | 0, _, _, _ => none
  | fuel + 1, m, i, ret =>
      if i < len then
        let addr := dest + i
        let pageRemain := min (flash.pageSize.toNat - pageOffset flash addr) (len - i)
        let enabled := bus.writeEnable m
        let written := spiNorWriteData bus enabled.2 addr (buf.read i pageRemain)
        if written.1 < 0 then
          some (written.1, i, written.2)
        else
          let ready := bus.waitTillReady written.2
          if ready.1 ≠ 0 then
            some (ready.1, i, ready.2)
          else
            spiNorWriteLoop dest len buf fuel ready.2 (i + written.1.toNat) ready.1
      else
        some (ret, i, m)

def spiNorWrite (m : μ) (dest len : Nat) (buf : ByteMem) (ret : Int) : Option (Int × Nat × μ) :=
  spiNorWriteLoop flash bus dest len buf loopBound m 0 ret

/-- `spi_nor_erase_sector` -/
def spiNorEraseSector (m : μ) (addr : Nat) : Int × μ :=
  let erased := bus.erase m addr
  if erased.1 ≠ 0 then erased else (flash.eraseSize.toNat, erased.2)

/-- How `spi_nor_erase` comes to `erase_err`. -/
structure NorErase (μ : Type) where
  ret : Int
  addrKnown : Bool
  addr : UInt32
  chip : μ

def spiNorEraseLoop : Nat → μ → UInt32 → UInt32 → Int → Option (NorErase μ)
  | 0, _, _, _, _ => none
  | fuel + 1, m, addr, len, ret =>
      if len = 0 then
        some { ret := ret, addrKnown := false, addr := addr, chip := m }
      else
        let stop := bus.ctrlc m
        if stop.1 = true then
          some { ret := -eintr, addrKnown := false, addr := addr, chip := stop.2 }
        else
          let enabled := bus.writeEnable stop.2
          if enabled.1 < 0 then
            some { ret := enabled.1, addrKnown := true, addr := addr, chip := enabled.2 }
          else
            let erased := spiNorEraseSector flash bus enabled.2 addr.toNat
            if erased.1 < 0 then
              some { ret := erased.1, addrKnown := true, addr := addr, chip := erased.2 }
            else
              let addr := addr + UInt32.ofInt erased.1
              let len := len - UInt32.ofInt erased.1
              let ready := bus.waitTillReady erased.2
              if ready.1 ≠ 0 then
                -- the address is the one behind the sector
                some { ret := ready.1, addrKnown := true, addr := addr, chip := ready.2 }
              else
                spiNorEraseLoop fuel ready.2 addr len ready.1

/-- `spi_nor_erase`: the value returned, the `fail_addr` of an erase that has failed, where `none` is
`MTD_FAIL_ADDR_UNKNOWN`, and the chip. -/
def spiNorErase (m : μ) (addr : UInt32) (len : UInt64) (ret : Int) :
    Option (Int × Option UInt32 × μ) :=
  if len % flash.eraseSize.toUInt64 ≠ 0 then
    some (-einval, none, m)
  else
    (spiNorEraseLoop flash bus loopBound m addr len.toUInt32 ret).map fun r =>
      let disabled := bus.writeDisable r.chip
      let ret := if r.ret = 0 then disabled.1 else r.ret
      (ret, if ret = 0 then none else if r.addrKnown = true then some r.addr else none, disabled.2)

def uintMax : Nat := 0xffffffff

/-- The loop of `spi_nor_read_data`: the value returned, what has been received, and the chip. -/
def spiNorReadDataLoop (len : Nat) :
    Nat → μ → Nat → Nat → List UInt8 → Option (Int × List UInt8 × μ)
  | 0, _, _, _, _ => none
  | fuel + 1, m, addr, remaining, buf =>
      if remaining = 0 then
        some (len, buf, m)
      else
        let nbytes := dwSpiAdjustOpSize addr (if remaining < uintMax then remaining else uintMax)
        let received := bus.read m addr nbytes
        if received.1 ≠ 0 then
          some (received.1, buf, received.2.2)
        else
          spiNorReadDataLoop len fuel received.2.2 (addr + received.2.1.length)
            (remaining - received.2.1.length) (buf ++ received.2.1)

/-- `spi_nor_read` for `len` bytes: `nor->read` has the length for its value, and it is kept in an
`int`. -/
def spiNorReadLoop : Nat → μ → Nat → Nat → List UInt8 → Option (Int × List UInt8 × μ)
  | 0, _, _, _, _ => none
  | fuel + 1, m, addr, len, buf =>
      if len = 0 then
        some (0, buf, m)
      else
        (spiNorReadDataLoop bus len loopBound m addr len []).bind fun r =>
          let ret := Int.bmod r.1 (2 ^ 32)
          if ret = 0 then
            some (-eio, buf ++ r.2.1, r.2.2)
          else if ret < 0 then
            some (ret, buf ++ r.2.1, r.2.2)
          else
            spiNorReadLoop fuel r.2.2 (addr + ret.toNat) (len - ret.toNat) (buf ++ r.2.1)

def spiNorRead (m : μ) (addr len : Nat) : Option (Int × List UInt8 × μ) :=
  spiNorReadLoop bus loopBound m addr len []

end Source

/-! ## Cutting -/

theorem dwSpiAdjustOpSize_spec (addr : Nat) {nbytes : Nat} (hpos : 0 < nbytes) :
    0 < dwSpiAdjustOpSize addr nbytes ∧ dwSpiAdjustOpSize addr nbytes ≤ nbytes ∧
      dwSpiAdjustOpSize addr nbytes ≤ sz64K ∧
      (addr < sz16M → addr + dwSpiAdjustOpSize addr nbytes ≤ sz16M) := by
  have h64 : sz64K = 65536 := rfl
  have h16 : sz16M = 16777216 := rfl
  simp only [dwSpiAdjustOpSize]
  split
  · omega
  · omega

theorem pageOffset_eq (flash : SpiFlash) (addr : Nat) :
    pageOffset flash addr = addr % flash.pageSize.toNat := by
  unfold pageOffset
  split
  · rename_i hpow
    rw [isPowerOf2, Bool.and_eq_true, bne_iff_ne, beq_iff_eq] at hpow
    rcases Nat.ne_zero_and_sub_one_eq_zero_iff_isPowerOfTwo.1 hpow with ⟨k, hk⟩
    rw [hk]
    exact Nat.and_two_pow_sub_one_eq_mod addr k
  · rfl

/-! ## The chip -/

/-- A program command that stays in its page, in a transfer of the controller, and on one side of
16 MiB. -/
structure NorFits (flash : SpiFlash) (addr len : Nat) : Prop where
  page : addr % flash.pageSize.toNat + len ≤ flash.pageSize.toNat
  transfer : len ≤ sz64K
  side : addr < sz16M → addr + len ≤ sz16M
  size : addr + len ≤ flash.size.toNat

/-- A chip whose content is `content`.  `latched` are the states with the write enable latch set, and
only there a command changes the content; what it has done is known when the chip is ready again.  A
command changes nothing outside its bytes, or its sector, even if it fails. -/
structure Chip {μ : Type} (flash : SpiFlash) (bus : NorBus μ) (content : μ → ByteMem)
    (latched : μ → Prop) : Prop where
  enable_content : ∀ m, content (bus.writeEnable m).2 = content m
  enable_answer : ∀ m, (bus.writeEnable m).1 ≤ 0
  enable_latched : ∀ m, (bus.writeEnable m).1 = 0 → latched (bus.writeEnable m).2
  disable_content : ∀ m, content (bus.writeDisable m).2 = content m
  ctrlc_content : ∀ m, content (bus.ctrlc m).2 = content m
  wait_content : ∀ m, content (bus.waitTillReady m).2 = content m
  program_sent : ∀ m addr data, data ≠ [] → (bus.program m addr data).1 = 0 →
    1 ≤ (bus.program m addr data).2.1 ∧ (bus.program m addr data).2.1 ≤ data.length
  program_answer : ∀ m addr data, (bus.program m addr data).1 ≤ 0
  programmed : ∀ m addr data, latched m → NorFits flash addr data.length →
    (bus.program m addr data).1 = 0 → (bus.waitTillReady (bus.program m addr data).2.2).1 = 0 →
      content (bus.program m addr data).2.2 =
        Nand.program (content m) addr (data.take (bus.program m addr data).2.1)
  program_frame : ∀ m addr data a, NorFits flash addr data.length →
    a < addr ∨ addr + data.length ≤ a → content (bus.program m addr data).2.2 a = content m a
  erase_answer : ∀ m addr, (bus.erase m addr).1 ≤ 0
  erased : ∀ m addr, latched m → flash.eraseSize.toNat ∣ addr →
    addr + flash.eraseSize.toNat ≤ flash.size.toNat → (bus.erase m addr).1 = 0 →
    (bus.waitTillReady (bus.erase m addr).2).1 = 0 →
      content (bus.erase m addr).2 = (content m).fill addr flash.eraseSize.toNat 0xff
  erase_frame : ∀ m addr a, flash.eraseSize.toNat ∣ addr →
    addr + flash.eraseSize.toNat ≤ flash.size.toNat →
    a < addr ∨ addr + flash.eraseSize.toNat ≤ a →
      content (bus.erase m addr).2 a = content m a
  received : ∀ m addr len, 0 < len → len ≤ sz64K → (addr < sz16M → addr + len ≤ sz16M) →
    addr + len ≤ flash.size.toNat → (bus.read m addr len).1 = 0 →
      1 ≤ (bus.read m addr len).2.1.length ∧ (bus.read m addr len).2.1.length ≤ len ∧
        (bus.read m addr len).2.1 = (content m).read addr (bus.read m addr len).2.1.length
  read_answer : ∀ m addr len,
    -2 ^ 31 ≤ (bus.read m addr len).1 ∧ (bus.read m addr len).1 ≤ 0
  read_content : ∀ m addr len, content (bus.read m addr len).2.2 = content m

theorem program_append (m : ByteMem) (off : Nat) (as bs : List UInt8) :
    Nand.program (Nand.program m off as) (off + as.length) bs = Nand.program m off (as ++ bs) := by
  funext a
  unfold Nand.program
  by_cases hlo : off ≤ a
  · by_cases hmid : off + as.length ≤ a
    · rw [if_pos hmid, if_pos hlo, if_pos hlo, List.getElem?_append_right (by omega),
        List.getElem?_eq_none (by omega), Option.getD_none, Nand.and_ff, Nat.sub_sub]
    · rw [if_neg hmid, if_pos hlo, if_pos hlo, List.getElem?_append_left (by omega)]
  · rw [if_neg (by omega), if_neg hlo, if_neg hlo]

section Write

variable {μ : Type} {flash : SpiFlash} {bus : NorBus μ} {content : μ → ByteMem}
  {latched : μ → Prop} (hchip : Chip flash bus content latched)
include hchip

/-- One command of `spi_nor_write`: how it ends, and what it has done if the latch was set. -/
theorem spiNorWriteData_spec (m : μ) (addr : Nat) {data : List UInt8} (hne : data ≠ [])
    (hpage : addr % flash.pageSize.toNat + data.length ≤ flash.pageSize.toNat)
    (hsize : addr + data.length ≤ flash.size.toNat) :
    (∀ a, a < addr ∨ addr + data.length ≤ a →
      content (spiNorWriteData bus m addr data).2 a = content m a) ∧
    ((spiNorWriteData bus m addr data).1 < 0 ∨
      ∃ n : Nat, (spiNorWriteData bus m addr data).1 = n ∧ 1 ≤ n ∧ n ≤ data.length ∧
        (latched m → (bus.waitTillReady (spiNorWriteData bus m addr data).2).1 = 0 →
          content (spiNorWriteData bus m addr data).2 =
            Nand.program (content m) addr (data.take n))) := by
  have hlen := List.length_pos_iff.2 hne
  rcases dwSpiAdjustOpSize_spec addr hlen with ⟨hpos, hle, h64, h16⟩
  set nbytes := dwSpiAdjustOpSize addr data.length with hnbytes
  have hcut : (data.take nbytes).length = nbytes := by
    rw [List.length_take]
    omega
  have hfits : NorFits flash addr (data.take nbytes).length := by
    rw [hcut]
    exact ⟨by omega, h64, h16, by omega⟩
  have hcutne : data.take nbytes ≠ [] := List.length_pos_iff.1 (by omega)
  have hdata : spiNorWriteData bus m addr data =
      if (bus.program m addr (data.take nbytes)).1 ≠ 0 then
        ((bus.program m addr (data.take nbytes)).1, (bus.program m addr (data.take nbytes)).2.2)
      else
        (((bus.program m addr (data.take nbytes)).2.1 : Int),
          (bus.program m addr (data.take nbytes)).2.2) := by
    have hif : (if data.length < nbytes then data.length else nbytes) = nbytes :=
      if_neg (by omega)
    simp only [spiNorWriteData, ← hnbytes, hif]
  have hframe := hchip.program_frame m addr (data.take nbytes)
  rw [hcut] at hframe hfits
  have hanswer := hchip.program_answer m addr (data.take nbytes)
  rw [hdata]
  by_cases hret : (bus.program m addr (data.take nbytes)).1 = 0
  · rw [if_neg (not_not.2 hret)]
    rcases hchip.program_sent m addr _ hcutne hret with ⟨h1, h2⟩
    rw [hcut] at h2
    refine ⟨fun a ha => hframe a hfits (by omega), Or.inr ⟨_, rfl, h1, by omega, ?_⟩⟩
    intro hlatched hready
    rw [hchip.programmed m addr _ hlatched (by rw [hcut]; exact hfits) hret hready,
      List.take_take, Nat.min_eq_left h2]
  · rw [if_pos hret]
    exact ⟨fun a ha => hframe a hfits (by omega), Or.inl (by simp only; omega)⟩

/-- The loop of `spi_nor_write` comes to an end and touches nothing outside its range; when it reports
no error, and no `write_enable` has failed, what was left to write is on the chip. -/
theorem spiNorWriteLoop_spec {dest len : Nat} (hsize : dest + len ≤ flash.size.toNat)
    (buf : ByteMem) :
    ∀ (fuel : Nat) (m : μ) (i : Nat) (ret : Int), i ≤ len → len - i < fuel →
      ∃ ret' i' m', spiNorWriteLoop flash bus dest len buf fuel m i ret = some (ret', i', m') ∧
        (∀ a, a < dest + i ∨ dest + len ≤ a → content m' a = content m a) ∧
        ((∀ m, (bus.writeEnable m).1 = 0) → ret' = 0 → i' = len ∧
          content m' = Nand.program (content m) (dest + i) (buf.read i (len - i))) := by
  intro fuel
  induction fuel with
  | zero =>
      intro m i ret _ hfuel
      omega
  | succ fuel ih =>
      intro m i ret hi hfuel
      rw [spiNorWriteLoop]
      by_cases hmore : i < len
      · have hpagepos := flash.pageSize_pos
        have hmod := Nat.mod_lt (dest + i) hpagepos
        rw [if_pos hmore]
        simp only [pageOffset_eq]
        set pageRemain := min (flash.pageSize.toNat - (dest + i) % flash.pageSize.toNat) (len - i)
          with hremain
        have hdata : buf.read i pageRemain ≠ [] :=
          List.length_pos_iff.1 (by rw [ByteMem.length_read]; omega)
        rcases spiNorWriteData_spec hchip (bus.writeEnable m).2 (dest + i) hdata
          (by rw [ByteMem.length_read]; omega) (by rw [ByteMem.length_read]; omega) with
          ⟨hframe, hended⟩
        rw [ByteMem.length_read, hchip.enable_content] at hframe
        rw [ByteMem.length_read, hchip.enable_content] at hended
        set written := spiNorWriteData bus (bus.writeEnable m).2 (dest + i) (buf.read i pageRemain)
        -- the command has failed, or it has taken `n` bytes, which may be fewer than there were
        rcases hended with hneg | ⟨n, hn, h1, hle, hdone⟩
        · rw [if_pos hneg]
          refine ⟨_, _, _, rfl, fun a ha => hframe a (by omega), ?_⟩
          intro _ hret
          omega
        · rw [if_neg (by omega)]
          by_cases hready : (bus.waitTillReady written.2).1 = 0
          · rw [if_neg (not_not.2 hready), hn, Int.toNat_natCast]
            rcases ih (bus.waitTillReady written.2).2 (i + n) (bus.waitTillReady written.2).1
              (by omega) (by omega) with ⟨ret', i', m', hrun, hrest, hstored⟩
            rw [hchip.wait_content] at hrest hstored
            refine ⟨ret', i', m', hrun, ?_, ?_⟩
            · intro a ha
              rw [hrest a (by omega), hframe a (by omega)]
            · intro hwren hret
              rcases hstored hwren hret with ⟨hi', hcontent⟩
              refine ⟨hi', ?_⟩
              -- the bytes of this round, and those of the rounds behind it
              have hsplit : buf.read i (len - i) =
                  (buf.read i pageRemain).take n ++ buf.read (i + n) (len - (i + n)) := by
                have htake : (buf.read i pageRemain).take n = buf.read i n := by
                  rw [show pageRemain = n + (pageRemain - n) by omega, ByteMem.read_add,
                    List.take_left' (ByteMem.length_read _ _ _)]
                rw [htake, ← ByteMem.read_add, show n + (len - (i + n)) = len - i by omega]
              have hlen : ((buf.read i pageRemain).take n).length = n := by
                rw [List.length_take, ByteMem.length_read]
                omega
              have hprogram := program_append (content m) (dest + i)
                ((buf.read i pageRemain).take n) (buf.read (i + n) (len - (i + n)))
              rw [hlen] at hprogram
              rw [hcontent, hdone (hchip.enable_latched m (hwren m)) hready, hsplit,
                ← Nat.add_assoc, hprogram]
          · rw [if_pos hready]
            refine ⟨_, _, _, rfl, ?_, fun _ hret => absurd hret hready⟩
            intro a ha
            rw [hchip.wait_content, hframe a (by omega)]
      · rw [if_neg hmore]
        have heq : i = len := by omega
        refine ⟨ret, i, m, rfl, fun _ _ => rfl, fun _ _ => ⟨heq, ?_⟩⟩
        rw [heq, Nat.sub_self, ByteMem.read_zero]
        funext a
        simp [Nand.program, Nand.and_ff]

/-- `spi_nor_write` comes to an end and touches nothing outside its range; when it reports no error,
and no `write_enable` has failed, the buffer is on the chip. -/
theorem spiNorWrite_spec {dest len : Nat} (hsize : dest + len ≤ flash.size.toNat) (buf : ByteMem)
    (m : μ) (ret : Int) :
    ∃ ret' retlen m', spiNorWrite flash bus m dest len buf ret = some (ret', retlen, m') ∧
      (∀ a, a < dest ∨ dest + len ≤ a → content m' a = content m a) ∧
      ((∀ m, (bus.writeEnable m).1 = 0) → ret' = 0 → retlen = len ∧
        content m' = Nand.program (content m) dest (buf.read 0 len)) := by
  have hdev := flash.size.toNat_lt
  have hfuel : len - 0 < loopBound := by
    simp only [loopBound]
    omega
  exact spiNorWriteLoop_spec hchip hsize buf loopBound m 0 ret (Nat.zero_le len) hfuel

/-- The loop of `spi_nor_erase` comes to an end and touches nothing outside its range; when it reports
no error the range is erased. -/
theorem spiNorEraseLoop_spec :
    ∀ (fuel : Nat) (m : μ) (addr len : UInt32) (ret : Int),
      flash.eraseSize.toNat ∣ addr.toNat → flash.eraseSize.toNat ∣ len.toNat →
      addr.toNat + len.toNat ≤ flash.size.toNat → len.toNat < fuel →
      ∃ r, spiNorEraseLoop flash bus fuel m addr len ret = some r ∧
        (∀ a, a < addr.toNat ∨ addr.toNat + len.toNat ≤ a → content r.chip a = content m a) ∧
        (r.ret = 0 → content r.chip = (content m).fill addr.toNat len.toNat 0xff) := by
  intro fuel
  have hdev := flash.size.toNat_lt
  have hpos := flash.eraseSize_pos
  induction fuel with
  | zero =>
      intro m addr len ret _ _ _ hfuel
      omega
  | succ fuel ih =>
      intro m addr len ret haddr hlen hsize hfuel
      rw [spiNorEraseLoop]
      by_cases hzero : len = 0
      · rw [if_pos hzero]
        refine ⟨_, rfl, fun _ _ => rfl, fun _ => ?_⟩
        funext a
        simp only [ByteMem.fill, hzero, UInt32.toNat_zero]
        rw [if_neg (by omega)]
      · have hlenpos : 0 < len.toNat := by
          rw [Nat.pos_iff_ne_zero]
          intro h0
          exact hzero (UInt32.toNat_inj.1 h0)
        have hone := Nat.le_of_dvd hlenpos hlen
        rw [if_neg hzero]
        simp only
        by_cases hstop : (bus.ctrlc m).1 = true
        · rw [if_pos hstop]
          exact ⟨_, rfl, fun a _ => by rw [hchip.ctrlc_content],
            fun h => absurd h (show ¬ -eintr = 0 by decide)⟩
        · rw [if_neg hstop]
          by_cases hwren : (bus.writeEnable (bus.ctrlc m).2).1 < 0
          · rw [if_pos hwren]
            refine ⟨_, rfl, fun a _ => by rw [hchip.enable_content, hchip.ctrlc_content], ?_⟩
            intro h
            simp only at h
            omega
          · have hlatched := hchip.enable_latched (bus.ctrlc m).2
              (le_antisymm (hchip.enable_answer _) (by omega))
            have hcontent : content (bus.writeEnable (bus.ctrlc m).2).2 = content m := by
              rw [hchip.enable_content, hchip.ctrlc_content]
            rw [if_neg hwren]
            set m₁ := (bus.writeEnable (bus.ctrlc m).2).2
            have hframe := hchip.erase_frame m₁ addr.toNat
            by_cases herase : (bus.erase m₁ addr.toNat).1 = 0
            · -- the sector is erased, if the chip gets ready
              have hsector : spiNorEraseSector flash bus m₁ addr.toNat =
                  ((flash.eraseSize.toNat : Int), (bus.erase m₁ addr.toNat).2) := by
                simp only [spiNorEraseSector, herase, ne_eq, not_true_eq_false, if_false]
              rw [hsector]
              simp only
              rw [if_neg (by omega)]
              have hcast : UInt32.ofInt (flash.eraseSize.toNat : Int) = flash.eraseSize :=
                UInt32.toNat_inj.1 (by
                  have hlt := flash.eraseSize.toNat_lt
                  simp [UInt32.ofInt]
                  omega)
              rw [hcast]
              by_cases hready : (bus.waitTillReady (bus.erase m₁ addr.toNat).2).1 = 0
              · rw [if_neg (not_not.2 hready)]
                have hnext : (addr + flash.eraseSize).toNat = addr.toNat + flash.eraseSize.toNat := by
                  rw [UInt32.toNat_add]
                  exact Nat.mod_eq_of_lt (by omega)
                have hrest : (len - flash.eraseSize).toNat = len.toNat - flash.eraseSize.toNat :=
                  UInt32.toNat_sub_of_le _ _ (UInt32.le_iff_toNat_le.2 hone)
                rcases ih (bus.waitTillReady (bus.erase m₁ addr.toNat).2).2
                  (addr + flash.eraseSize) (len - flash.eraseSize) _
                  (by rw [hnext]; exact Nat.dvd_add haddr (Nat.dvd_refl _))
                  (by rw [hrest]; exact Nat.dvd_sub hlen (Nat.dvd_refl _))
                  (by omega) (by omega) with ⟨r, hrun, hout, hdone⟩
                rw [hchip.wait_content] at hout hdone
                refine ⟨r, hrun, ?_, ?_⟩
                · intro a ha
                  rw [hout a (by omega), hframe a haddr (by omega) (by omega), hcontent]
                · intro hret
                  rw [hdone hret, hchip.erased m₁ _ hlatched haddr (by omega) herase hready,
                    hcontent, hnext, hrest]
                  funext a
                  simp only [ByteMem.fill]
                  split
                  · rw [if_pos (by omega)]
                  · split
                    · rw [if_pos (by omega)]
                    · rw [if_neg (by omega)]
              · rw [if_pos hready]
                refine ⟨_, rfl, ?_, fun h => absurd h hready⟩
                intro a ha
                rw [hchip.wait_content, hframe a haddr (by omega) (by omega), hcontent]
            · have hneg : (bus.erase m₁ addr.toNat).1 < 0 := by
                have hanswer := hchip.erase_answer m₁ addr.toNat
                omega
              have hsector : spiNorEraseSector flash bus m₁ addr.toNat =
                  bus.erase m₁ addr.toNat := by
                simp only [spiNorEraseSector]
                rw [if_pos herase]
              rw [hsector, if_pos hneg]
              refine ⟨_, rfl, ?_, fun h => absurd h herase⟩
              intro a ha
              rw [hframe a haddr (by omega) (by omega), hcontent]

end Write

/-! ## A small chip -/

/-- A bus over which a command moves at most 100 bytes, and a chip that clears its latch after each
command. -/
def smallBus : NorBus (ByteMem × Bool) where
  writeEnable m := (0, (m.1, true))
  writeDisable m := (0, (m.1, false))
  program m addr data :=
    (0, (data.take 100).length,
      (if m.2 = true then Nand.program m.1 addr (data.take 100) else m.1, false))
  erase m addr :=
    (0, (if m.2 = true then m.1.fill addr SpiFlash.smallFlash.eraseSize.toNat 0xff else m.1, false))
  read m addr len := (0, m.1.read addr (min len 100), m)
  waitTillReady m := (0, m)
  ctrlc m := (false, m)

theorem chip_smallBus : Chip SpiFlash.smallFlash smallBus Prod.fst (fun m => m.2 = true) where
  enable_content _ := rfl
  enable_answer _ := le_refl 0
  enable_latched _ _ := rfl
  disable_content _ := rfl
  ctrlc_content _ := rfl
  wait_content _ := rfl
  program_sent m addr data hne _ := by
    have hpos := List.length_pos_iff.2 hne
    simp only [smallBus, List.length_take]
    omega
  program_answer _ _ _ := le_refl 0
  programmed m addr data hlatched _ _ _ := by
    have htake : data.take (data.take 100).length = data.take 100 := by
      rw [List.length_take, ← List.take_take, List.take_length]
    simp only [smallBus, hlatched, if_true, htake]
  program_frame m addr data a _ ha := by
    have hlen := List.length_take_le' 100 data
    simp only [smallBus]
    split
    · unfold Nand.program
      split
      · rw [List.getElem?_eq_none (by omega), Option.getD_none, Nand.and_ff]
      · rfl
    · rfl
  erase_answer _ _ := le_refl 0
  erased m addr hlatched _ _ _ _ := by
    simp only [smallBus, hlatched, if_true]
  erase_frame m addr a _ _ ha := by
    simp only [smallBus]
    split
    · rw [ByteMem.fill, if_neg (by omega)]
    · rfl
  received m addr len hpos _ _ _ _ := by
    simp only [smallBus, ByteMem.length_read]
    exact ⟨by omega, by omega, trivial⟩
  read_answer _ _ _ := ⟨show (-2 ^ 31 : Int) ≤ 0 by decide, le_refl 0⟩
  read_content _ _ _ := rfl

section Read

variable {μ : Type} {flash : SpiFlash} {bus : NorBus μ} {content : μ → ByteMem}
  {latched : μ → Prop} (hchip : Chip flash bus content latched)
include hchip

/-- The loop of `spi_nor_read_data` comes to an end and leaves the chip as it is; without an error it
has read what was left. -/
theorem spiNorReadDataLoop_spec (len : Nat) :
    ∀ (fuel : Nat) (m : μ) (addr remaining : Nat) (buf : List UInt8),
      addr + remaining ≤ flash.size.toNat → remaining < fuel →
      ∃ ret buf' m', spiNorReadDataLoop bus len fuel m addr remaining buf =
          some (ret, buf', m') ∧ content m' = content m ∧
        (-2 ^ 31 ≤ ret ∧ ret < 0 ∨
          ret = len ∧ buf' = buf ++ (content m).read addr remaining) := by
  intro fuel
  have hdev := flash.size.toNat_lt
  induction fuel with
  | zero =>
      intro m addr remaining buf _ hfuel
      omega
  | succ fuel ih =>
      intro m addr remaining buf hsize hfuel
      rw [spiNorReadDataLoop]
      by_cases hzero : remaining = 0
      · rw [if_pos hzero]
        exact ⟨_, _, _, rfl, rfl, Or.inr ⟨rfl, by rw [hzero, ByteMem.read_zero, List.append_nil]⟩⟩
      · rw [if_neg hzero]
        -- the flash is smaller than 4 GiB
        have hmax : (if remaining < uintMax then remaining else uintMax) = remaining := by
          have hu : uintMax = 4294967295 := rfl
          split <;> omega
        rw [hmax]
        rcases dwSpiAdjustOpSize_spec addr (by omega : 0 < remaining) with ⟨hpos, hle, h64, h16⟩
        simp only
        set nbytes := dwSpiAdjustOpSize addr remaining
        by_cases hret : (bus.read m addr nbytes).1 = 0
        · rcases hchip.received m addr nbytes hpos h64 h16 (by omega) hret with ⟨h1, h2, hdata⟩
          rw [if_neg (not_not.2 hret)]
          rcases ih (bus.read m addr nbytes).2.2 (addr + (bus.read m addr nbytes).2.1.length)
            (remaining - (bus.read m addr nbytes).2.1.length) (buf ++ (bus.read m addr nbytes).2.1)
            (by omega) (by omega) with ⟨ret, buf', m', hrun, hcontent, hended⟩
          rw [hchip.read_content] at hcontent hended
          refine ⟨ret, buf', m', hrun, hcontent, hended.imp_right ?_⟩
          rintro ⟨rfl, hbuf⟩
          refine ⟨rfl, ?_⟩
          -- what the bus has moved, and what is left
          have hsplit : (content m).read addr remaining = (bus.read m addr nbytes).2.1 ++
              (content m).read (addr + (bus.read m addr nbytes).2.1.length)
                (remaining - (bus.read m addr nbytes).2.1.length) := by
            conv => rhs; lhs; rw [hdata]
            rw [← ByteMem.read_add, Nat.add_sub_cancel' (by omega)]
          rw [hbuf, hsplit, List.append_assoc]
        · rw [if_pos hret]
          have hanswer := hchip.read_answer m addr nbytes
          exact ⟨_, _, _, rfl, hchip.read_content m addr nbytes, Or.inl (by omega)⟩

/-- `spi_nor_read` leaves the chip as it is, and without an error gives its bytes, in one round; from
2 GiB on the length is no value of an `int`. -/
theorem spiNorRead_spec (m : μ) {addr len : Nat} (hsize : addr + len ≤ flash.size.toNat)
    (hint : len < 2 ^ 31) :
    ∃ ret buf m', spiNorRead bus m addr len = some (ret, buf, m') ∧ content m' = content m ∧
      (ret = 0 → buf = (content m).read addr len) := by
  have hdev := flash.size.toNat_lt
  have hbound : 2 ^ 33 ≤ loopBound := by
    simp only [loopBound]
    omega
  rcases Nat.exists_eq_add_of_le' (by omega : 2 ≤ loopBound) with ⟨n, hn⟩
  rw [spiNorRead, hn, spiNorReadLoop]
  by_cases hzero : len = 0
  · rw [if_pos hzero]
    exact ⟨_, _, _, rfl, rfl, fun _ => by rw [hzero, ByteMem.read_zero]⟩
  · rw [if_neg hzero]
    rcases spiNorReadDataLoop_spec hchip len loopBound m addr len [] hsize (by omega) with
      ⟨ret, buf, m', hrun, hcontent, ⟨hlow, hneg⟩ | ⟨hret, hbuf⟩⟩
    · have hbmod : Int.bmod ret (2 ^ 32) = ret := Int.bmod_eq_of_le (by omega) (by omega)
      rw [hrun, Option.bind_some]
      simp only [hbmod]
      rw [if_neg (by omega), if_pos hneg]
      exact ⟨_, _, _, rfl, hcontent, fun h => absurd h (by omega)⟩
    · have hbmod : Int.bmod ret (2 ^ 32) = len := by
        rw [hret]
        exact Int.bmod_eq_of_le (by omega) (by omega)
      rw [hrun, Option.bind_some]
      simp only [hbmod]
      rw [if_neg (by omega), if_neg (by omega), Int.toNat_natCast, Nat.sub_self, spiNorReadLoop,
        if_pos rfl]
      exact ⟨_, _, _, rfl, hcontent, fun _ => by rw [hbuf, List.nil_append, List.nil_append]⟩

omit hchip in
theorem spiNorRead_smallBus :
    ∃ ret buf m', spiNorRead smallBus (fun a => UInt8.ofNat a, false) 4 300 = some (ret, buf, m') ∧
      m'.1 = (fun a => UInt8.ofNat a) ∧ (ret = 0 → buf = ByteMem.read (fun a => UInt8.ofNat a) 4 300) :=
  spiNorRead_spec chip_smallBus (fun a => UInt8.ofNat a, false) (by decide) (by decide)

end Read

/-! ## The burner on the chip -/

section Burner

variable {μ : Type} (flash : SpiFlash) (bus : NorBus μ)

/-- `mtd->_erase` and `mtd->_write` of the chip; `ret` is what the variable of that name holds before.
The calls come to an end (`spiNorErase_spec`, `spiNorWrite_spec`), so that the other answer is not
given. -/
def norOps (ret : Int) : SfOps μ where
  erase m offset len :=
    ((spiNorErase flash bus m offset len ret).map fun r => (r.1, r.2.2)).getD (-eio, m)
  write m offset len buf :=
    ((spiNorWrite flash bus m offset.toNat len.toNat buf ret).map fun r => (r.1, r.2.2)).getD
      (-eio, m)

/-- The calls behind the test of `spi_flash_std_erase`. -/
def stdOps (ops : SfOps μ) : SfOps μ :=
  { ops with erase := spiFlashErase flash ops }

/-- The burner makes the test anyway. -/
theorem sfWriteMedium_stdOps (ops : SfOps μ) (addr : UInt64) :
    sfWriteMedium flash (stdOps flash ops) addr = sfWriteMedium flash ops addr := by
  have herase : ∀ m offset len,
      spiFlashErase flash (stdOps flash ops) m offset len = spiFlashErase flash ops m offset len := by
    intro m offset len
    simp only [spiFlashErase, stdOps]
    split <;> rfl
  have hloop : ∀ fuel m off remaining addr buffer rc,
      sfWriteLoop (stdOps flash ops) fuel m off remaining addr buffer rc =
        sfWriteLoop ops fuel m off remaining addr buffer rc := by
    intro fuel
    induction fuel with
    | zero =>
        intro m off remaining addr buffer rc
        rfl
    | succ fuel ih =>
        intro m off remaining addr buffer rc
        simp only [sfWriteLoop, ih]
        rfl
  funext m offset buf len
  simp only [sfWriteMedium, herase, hloop]

variable {flash bus} {content : μ → ByteMem} {latched : μ → Prop}

/-- What holds of every call, whether it fails or not. -/
structure Framed (flash : SpiFlash) (ops : SfOps μ) (content : μ → ByteMem) : Prop where
  erase : ∀ m (offset : UInt32) (len : UInt64) a, offset.toNat + len.toNat ≤ flash.size.toNat →
    a < offset.toNat ∨ offset.toNat + len.toNat ≤ a →
      content (ops.erase m offset len).2 a = content m a
  write : ∀ m (offset : UInt32) (len : UInt64) buf a,
    offset.toNat + len.toNat ≤ flash.size.toNat →
    a < offset.toNat ∨ offset.toNat + len.toNat ≤ a →
      content (ops.write m offset len buf).2 a = content m a

theorem spiNorErase_spec (hchip : Chip flash bus content latched) (m : μ) {addr : UInt32}
    {len : UInt64} (haddr : flash.eraseSize.toNat ∣ addr.toNat)
    (hsize : addr.toNat + len.toNat ≤ flash.size.toNat) (ret : Int) :
    ∃ ret' failed m', spiNorErase flash bus m addr len ret = some (ret', failed, m') ∧
      (∀ a, a < addr.toNat ∨ addr.toNat + len.toNat ≤ a → content m' a = content m a) ∧
      (ret' = 0 → content m' = (content m).fill addr.toNat len.toNat 0xff) := by
  have hdev := flash.size.toNat_lt
  unfold spiNorErase
  by_cases halign : len % flash.eraseSize.toUInt64 = 0
  · rw [if_neg (not_not.2 halign)]
    have hlow : len.toUInt32.toNat = len.toNat := SpiFlash.toNat_toUInt32 (by omega)
    have hdvd := (SpiFlash.mod_eq_zero_iff len flash.eraseSize).1 halign
    have hfuel : len.toUInt32.toNat < loopBound := by
      rw [hlow]
      simp only [loopBound]
      omega
    rcases spiNorEraseLoop_spec hchip loopBound m addr len.toUInt32 ret haddr
      (by rwa [hlow]) (by omega) hfuel with ⟨r, hrun, hframe, hdone⟩
    rw [hlow] at hframe hdone
    rw [hrun, Option.map_some]
    refine ⟨_, _, _, rfl, ?_, ?_⟩
    · intro a ha
      rw [hchip.disable_content, hframe a ha]
    · intro hret
      rw [hchip.disable_content]
      by_cases h0 : r.ret = 0
      · exact hdone h0
      · rw [if_neg h0] at hret
        exact absurd hret h0
  · rw [if_pos halign]
    exact ⟨_, _, _, rfl, fun _ _ => rfl, fun h => absurd h (by decide)⟩

theorem spiFlashErase_norOps (hchip : Chip flash bus content latched) (ret : Int) (m : μ)
    {offset : UInt32} {len : UInt64} (hsize : offset.toNat + len.toNat ≤ flash.size.toNat) :
    (∀ a, a < offset.toNat ∨ offset.toNat + len.toNat ≤ a →
      content (spiFlashErase flash (norOps flash bus ret) m offset len).2 a = content m a) ∧
    ((spiFlashErase flash (norOps flash bus ret) m offset len).1 = 0 →
      content (spiFlashErase flash (norOps flash bus ret) m offset len).2 =
        (content m).fill offset.toNat len.toNat 0xff) := by
  unfold spiFlashErase
  split
  · exact ⟨fun _ _ => rfl, fun h => absurd h (show ¬ -einval = 0 by decide)⟩
  · rename_i halign
    rw [not_or, not_not] at halign
    have hoffset : flash.eraseSize.toNat ∣ offset.toNat := by
      have hmod := congrArg UInt32.toNat halign.1
      rw [UInt32.toNat_mod, UInt32.toNat_zero] at hmod
      exact Nat.dvd_of_mod_eq_zero hmod
    rcases spiNorErase_spec hchip m hoffset hsize ret with ⟨ret', failed, m', hrun, hframe, hdone⟩
    simp only [norOps, hrun, Option.map_some, Option.getD_some]
    exact ⟨hframe, hdone⟩

theorem write_norOps (hchip : Chip flash bus content latched) (ret : Int) (m : μ)
    {offset : UInt32} {len : UInt64} (buf : ByteMem)
    (hsize : offset.toNat + len.toNat ≤ flash.size.toNat) :
    (∀ a, a < offset.toNat ∨ offset.toNat + len.toNat ≤ a →
      content ((norOps flash bus ret).write m offset len buf).2 a = content m a) ∧
    ((∀ m, (bus.writeEnable m).1 = 0) → ((norOps flash bus ret).write m offset len buf).1 = 0 →
      content ((norOps flash bus ret).write m offset len buf).2 =
        Nand.program (content m) offset.toNat (buf.read 0 len.toNat)) := by
  rcases spiNorWrite_spec hchip hsize buf m ret with ⟨ret', retlen, m', hrun, hframe, hdone⟩
  simp only [norOps, hrun, Option.map_some, Option.getD_some]
  exact ⟨hframe, fun hwren hret => (hdone hwren hret).2⟩

/-- The chip does what the burner relies on. -/
theorem norOps_exact (hchip : Chip flash bus content latched)
    (hwren : ∀ m, (bus.writeEnable m).1 = 0) (ret : Int) :
    SpiFlash.Exact flash (stdOps flash (norOps flash bus ret)) content where
  erase m _ _ hsize h := (spiFlashErase_norOps hchip ret m hsize).2 h
  write m _ _ buf hsize h := (write_norOps hchip ret m buf hsize).2 hwren h

theorem norOps_framed (hchip : Chip flash bus content latched) (ret : Int) :
    Framed flash (stdOps flash (norOps flash bus ret)) content where
  erase m _ _ a hsize ha := (spiFlashErase_norOps hchip ret m hsize).1 a ha
  write m _ _ buf a hsize ha := (write_norOps hchip ret m buf hsize).1 a ha

/-- A chunk changes nothing outside its range, however it ends. -/
theorem sfWriteLoop_framed {ops : SfOps μ} (hframed : Framed flash ops content) (fuel : Nat) :
    ∀ (m m' : μ) (off remaining addr : UInt64) (buffer : ByteMem) (rc ret : Int),
      off.toNat + remaining.toNat ≤ flash.size.toNat →
      sfWriteLoop ops fuel m off remaining addr buffer rc = some (ret, m') →
      ∀ a, a < off.toNat ∨ off.toNat + remaining.toNat ≤ a → content m' a = content m a := by
  have hdev := flash.size.toNat_lt
  induction fuel with
  | zero =>
      intro m m' off remaining addr buffer rc ret _ h
      cases h
  | succ fuel ih =>
      intro m m' off remaining addr buffer rc ret hrange h a ha
      rw [sfWriteLoop] at h
      by_cases hzero : remaining = 0
      · rw [if_pos hzero] at h
        cases h
        rfl
      · have hsend := SpiFlash.sfSendLen_bounds (toNat_pos_of_ne_zero hzero)
        have hrem := SpiFlash.toNat_sub_sfSendLen (toNat_pos_of_ne_zero hzero)
        have hoff : (off + sfSendLen remaining).toNat = off.toNat + (sfSendLen remaining).toNat :=
          SpiFlash.toNat_add_of_range flash (by omega)
        have hlow : off.toUInt32.toNat = off.toNat := SpiFlash.toNat_toUInt32 (by omega)
        have hpiece := hframed.write m off.toUInt32 (sfSendLen remaining) buffer a
          (by omega) (by omega)
        rw [if_neg hzero] at h
        simp only at h
        split at h
        · exact ih _ _ _ _ _ _ _ _ (by omega) h a (by omega)
        · split at h
          · cases h
            exact hpiece
          · rw [ih _ _ _ _ _ _ _ _ (by omega) h a (by omega), hpiece]

theorem sfWriteMedium_framed {ops : SfOps μ} (hframed : Framed flash ops content) {addr : UInt64} {m m' : μ}
    {buf : ByteMem} {offset len len' : UInt64} {ret : Int}
    (hrange : offset.toNat + len.toNat ≤ flash.size.toNat)
    (hrun : sfWriteMedium flash ops addr m offset buf len = some (ret, len', m')) {a : Nat}
    (ha : a < offset.toNat ∨ offset.toNat + len.toNat ≤ a) : content m' a = content m a := by
  have hdev := flash.size.toNat_lt
  have hlow : offset.toUInt32.toNat = offset.toNat := SpiFlash.toNat_toUInt32 (by omega)
  have herase : content (spiFlashErase flash ops m offset.toUInt32 len).2 a = content m a := by
    simp only [spiFlashErase]
    split
    · rfl
    · exact hframed.erase m offset.toUInt32 len a (by omega) (by omega)
  simp only [sfWriteMedium] at hrun
  split at hrun
  · cases hrun
    rfl
  · split at hrun
    · cases hrun
      rfl
    · split at hrun
      · cases hrun
        exact herase
      · split at hrun
        · cases hrun
        · rename_i hloop
          cases hrun
          rw [sfWriteLoop_framed hframed _ _ _ _ _ _ _ _ _ hrange hloop a ha, herase]

/-- The burner on the chip: every chunk comes to an end and changes nothing outside its range, and one
that is acknowledged is on the chip. -/
theorem sfWriteMedium_chip (hchip : Chip flash bus content latched)
    (hwren : ∀ m, (bus.writeEnable m).1 = 0) (ret : Int) (addr : UInt64) (m : μ) (buf : ByteMem)
    {offset len : UInt64} (hrange : offset.toNat + len.toNat ≤ flash.size.toNat) :
    ∃ ret' m', sfWriteMedium flash (norOps flash bus ret) addr m offset buf len =
        some (ret', len, m') ∧
      (∀ a, a < offset.toNat ∨ offset.toNat + len.toNat ≤ a → content m' a = content m a) ∧
      (ret' = 0 → (content m').read offset.toNat len.toNat = buf.read 0 len.toNat) := by
  rw [← sfWriteMedium_stdOps]
  rcases SpiFlash.sfWriteMedium_returns flash (stdOps flash (norOps flash bus ret)) addr m offset buf
    len with ⟨ret', m', hrun⟩
  refine ⟨ret', m', hrun, ?_, ?_⟩
  · intro a ha
    exact sfWriteMedium_framed (norOps_framed hchip ret) hrange hrun ha
  · rintro rfl
    rw [SpiFlash.sfWriteMedium_content (norOps_exact hchip hwren ret) hrange hrun,
      ByteMem.read_write_of_length _ (ByteMem.length_read _ _ _)]

/-- From the middle of a page over the next one, by commands of 100 bytes. -/
theorem sfWriteMedium_smallBus :
    ∃ ret' m', sfWriteMedium SpiFlash.smallFlash (norOps SpiFlash.smallFlash smallBus 0) 0
        (fun _ => 0, false) 4096 (fun a => UInt8.ofNat a) 4096 = some (ret', 4096, m') ∧
      (∀ a, a < 4096 ∨ 4096 + 4096 ≤ a → m'.1 a = 0) ∧
      (ret' = 0 → m'.1.read 4096 4096 = ByteMem.read (fun a => UInt8.ofNat a) 0 4096) :=
  sfWriteMedium_chip chip_smallBus (fun _ => rfl) 0 0 (fun _ => 0, false) (fun a => UInt8.ofNat a)
    (by decide)

end Burner

/-! ## A chip that does not take the write enable command -/

/-- The answers of the bus: the write enable command fails with `e`, and the chip takes no program
command, which the bus does not notice. -/
structure Deaf {μ : Type} (bus : NorBus μ) (e : Int) : Prop where
  neg : e < 0
  enable : ∀ m, bus.writeEnable m = (e, m)
  disable : ∀ m, bus.writeDisable m = (0, m)
  program : ∀ m addr data, bus.program m addr data = (0, data.length, m)
  ready : ∀ m, bus.waitTillReady m = (0, m)
  ctrlc : ∀ m, bus.ctrlc m = (false, m)

section Deaf

variable {μ : Type} {flash : SpiFlash} {bus : NorBus μ} {e : Int} (hdeaf : Deaf bus e)
include hdeaf

theorem spiNorWriteData_deaf (m : μ) (addr : Nat) {data : List UInt8} (hne : data ≠ []) :
    ∃ n : Nat, spiNorWriteData bus m addr data = ((n : Int), m) ∧ 1 ≤ n ∧ n ≤ data.length := by
  have hlen := List.length_pos_iff.2 hne
  rcases dwSpiAdjustOpSize_spec addr hlen with ⟨hpos, hle, _, _⟩
  simp only [spiNorWriteData, hdeaf.program, ne_eq, not_true_eq_false, if_false]
  refine ⟨_, rfl, ?_, ?_⟩
  · rw [List.length_take]
    split <;> omega
  · exact List.length_take_le' _ _

theorem spiNorWriteLoop_deaf (dest len : Nat) (buf : ByteMem) :
    ∀ (fuel : Nat) (m : μ) (i : Nat) (ret : Int), i < len ∨ i = len ∧ ret = 0 → len - i < fuel →
      spiNorWriteLoop flash bus dest len buf fuel m i ret = some (0, len, m) := by
  intro fuel
  induction fuel with
  | zero =>
      intro m i ret _ hfuel
      omega
  | succ fuel ih =>
      intro m i ret hi hfuel
      rw [spiNorWriteLoop]
      by_cases hmore : i < len
      · rw [if_pos hmore]
        have hmod := Nat.mod_lt (dest + i) flash.pageSize_pos
        simp only [pageOffset_eq, hdeaf.enable]
        set pageRemain := min (flash.pageSize.toNat - (dest + i) % flash.pageSize.toNat) (len - i)
        have hdata : buf.read i pageRemain ≠ [] :=
          List.length_pos_iff.1 (by rw [ByteMem.length_read]; omega)
        rcases spiNorWriteData_deaf hdeaf m (dest + i) hdata with ⟨n, hn, h1, hle⟩
        rw [ByteMem.length_read] at hle
        rw [hn]
        simp only [hdeaf.ready, ne_eq, not_true_eq_false, if_false, Int.toNat_natCast]
        rw [if_neg (by omega)]
        exact ih m (i + n) 0 (by omega) (by omega)
      · rcases hi.resolve_left hmore with ⟨rfl, rfl⟩
        rw [if_neg hmore]

/-- `spi_nor_write` reports success for a chip to which nothing has been written; `spi_nor_erase`
reports the failure, and the address. -/
theorem write_enable_failed (m : μ) (dest : Nat) {len : Nat} (hpos : 0 < len)
    (hlen : len < 2 ^ 32) (buf : ByteMem) (ret : Int) :
    spiNorWrite flash bus m dest len buf ret = some (0, len, m) ∧
      ∀ (addr : UInt32) (elen : UInt64), elen ≠ 0 → elen.toNat < 2 ^ 32 →
        flash.eraseSize.toNat ∣ elen.toNat →
        spiNorErase flash bus m addr elen ret = some (e, some addr, m) := by
  have hneg := hdeaf.neg
  have hbound : 2 ^ 33 ≤ loopBound := by
    simp only [loopBound]
    omega
  refine ⟨?_, ?_⟩
  · exact spiNorWriteLoop_deaf hdeaf dest len buf loopBound m 0 ret (Or.inl hpos) (by omega)
  · intro addr elen hne hlt hdvd
    have hlow : elen.toUInt32.toNat = elen.toNat := SpiFlash.toNat_toUInt32 hlt
    have hne' : ¬ elen.toUInt32 = 0 := by
      intro h0
      apply hne
      rw [h0] at hlow
      exact UInt64.toNat_inj.1 hlow.symm
    have hloop : spiNorEraseLoop flash bus loopBound m addr elen.toUInt32 ret =
        some { ret := e, addrKnown := true, addr := addr, chip := m } := by
      rcases Nat.exists_eq_add_of_le' (by omega : 1 ≤ loopBound) with ⟨fuel, hfuel⟩
      rw [hfuel, spiNorEraseLoop, if_neg hne']
      simp only [hdeaf.ctrlc, hdeaf.enable, Bool.false_eq_true, if_false]
      rw [if_pos hneg]
    have hret : e ≠ 0 := by omega
    rw [spiNorErase, if_neg (not_not.2 ((SpiFlash.mod_eq_zero_iff elen flash.eraseSize).2 hdvd)),
      hloop]
    simp [hdeaf.disable, hret]

/-- A bus on which the write enable command times out. -/
def deafBus : NorBus ByteMem where
  writeEnable m := (-110, m)
  writeDisable m := (0, m)
  program m _ data := (0, data.length, m)
  erase m _ := (0, m)
  read m addr len := (0, m.read addr len, m)
  waitTillReady m := (0, m)
  ctrlc m := (false, m)

omit hdeaf in
theorem write_enable_failed_deafBus :
    spiNorWrite SpiFlash.smallFlash deafBus (fun _ => 0) 16 32 (fun _ => 1) 0 =
        some (0, 32, fun _ => 0) ∧
      ∀ (addr : UInt32) (elen : UInt64), elen ≠ 0 → elen.toNat < 2 ^ 32 →
        SpiFlash.smallFlash.eraseSize.toNat ∣ elen.toNat →
        spiNorErase SpiFlash.smallFlash deafBus (fun _ => 0) addr elen 0 =
          some (-110, some addr, fun _ => 0) :=
  write_enable_failed ⟨by decide, fun _ => rfl, fun _ => rfl, fun _ _ _ => rfl, fun _ => rfl, fun _ => rfl⟩
    (fun _ => 0) 16 (by decide) (by decide) (fun _ => 1) 0

end Deaf

end Burn
end CanmvK230
