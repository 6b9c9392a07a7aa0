import CanmvK230.Burn.Burner

/-!
# Mtd — the NAND back end (`kburn_mtd.c`)

`mtd_write_medium` erases the nominal range of a chunk block by block and then programs the chunk
page by page, passing over bad blocks.  The functions are generic in the MTD layer below
(`MtdOps`).  The second half of the file is the NAND device the back end is written for (`Nand`): a
geometry, a bad-block map, pages that are erased to `0xff` and programmed by clearing bits.

The loops of the source are recursions with a bound on the number of iterations that neither of them
can reach without repeating itself; reaching it means that the call does not return.
-/

namespace CanmvK230
namespace Burn

open Lib

/-! ## The MTD layer -/

inductive MtdType
  | absent
  | ram
  | rom
  | norflash
  | nandflash
  | dataflash
  | ubivolume
  | mlcnandflash
  deriving DecidableEq, Repr

/-- The fields of `struct mtd_info` that the burner reads. -/
structure MtdInfo where
  type : MtdType
  size : UInt64
  erasesize : UInt32
  writesize : UInt32
  deriving DecidableEq, Repr

def eio : Int := 5
def einval : Int := 22
def eopnotsupp : Int := 95

/-- The calls the burner makes: `mtd_erase` for one block, `mtd_block_isbad`, `mtd_write_oob` for the
data of one operation (with the `retlen` it sets), `mtd_unlock` and `mtd_lock`. -/
structure MtdOps (μ : Type) where
  erase : μ → UInt64 → UInt64 → Int × μ
  blockIsbad : μ → UInt64 → Int
  writeOob : μ → UInt64 → List UInt8 → Int × UInt64 × μ
  unlock : μ → UInt64 → UInt64 → Int × μ
  lock : μ → UInt64 → UInt64 → μ

/-! ## `kburn_mtd.c` -/

section Source

variable {μ : Type} (mtd : MtdInfo) (ops : MtdOps μ)

def mtdIsAlignedWithMinIoSize (size : UInt64) : Bool :=
  size % mtd.writesize.toUInt64 == 0

def mtdIsAlignedWithBlockSize (size : UInt64) : Bool :=
  size % mtd.erasesize.toUInt64 == 0

def mtdPageIsEmpty (datbuf : List UInt8) : Bool :=
  datbuf.all (· == 0xff)

/-- More iterations than the loops below have states: a position and a remaining length. -/
def loopBound : Nat := 2 ^ 128

-- `while (size)` of `mtd_erase_medium`; the result is the last `ret`.
def mtdEraseLoop : Nat → μ → UInt64 → UInt64 → Int → Option (Int × μ)
  | 0, _, _, _, _ => none
  | fuel + 1, m, addr, size, ret =>
      if size = 0 then
        some (ret, m)
      else
        let erased := ops.erase m addr mtd.erasesize.toUInt64
        if erased.1 ≠ 0 ∧ erased.1 ≠ -eio then
          some erased
        else
          -- a bad block is passed over
          mtdEraseLoop fuel erased.2 (addr + mtd.erasesize.toUInt64)
            (size - mtd.erasesize.toUInt64) erased.1

def mtdEraseMedium : EraseMedium μ := fun m offset len =>
  if mtdIsAlignedWithBlockSize mtd offset = false then
    some (-1, len, m)
  else if mtdIsAlignedWithBlockSize mtd len = false then
    some (-1, len, m)
  else
    match mtdEraseLoop mtd ops loopBound m offset len 0 with
    | none => none
    | some (ret, m) => if ret ≠ 0 ∧ ret ≠ -eio then some (-1, len, m) else some (0, len, m)

-- `while (mtd_block_isbad(mtd, off))`
def mtdSkipBad : Nat → μ → UInt64 → Option UInt64
  | 0, _, _ => none
  | fuel + 1, m, off =>
      if ops.blockIsbad m off ≠ 0 then
        mtdSkipBad fuel m (off + mtd.erasesize.toUInt64)
      else
        some off

def MtdInfo.hasPages : Bool :=
  mtd.type == .nandflash || mtd.type == .mlcnandflash

/-- `io_op.len`: the rest, or a page of it. -/
def ioLen (remaining : UInt64) : UInt64 :=
  if mtd.hasPages = true ∧ remaining > mtd.writesize.toUInt64 then
    mtd.writesize.toUInt64
  else
    remaining

-- `while (remaining)` of `mtd_write_medium`; `datbuf` is the memory seen from `io_op.datbuf`.
def mtdWriteLoop : Nat → μ → UInt64 → UInt64 → ByteMem → Int → Option (Int × μ)
  | 0, _, _, _, _, _ => none
  | fuel + 1, m, off, remaining, datbuf, ret =>
      if remaining = 0 then
        some (ret, m)
      else if mtdIsAlignedWithBlockSize mtd off = true ∧ ops.blockIsbad m off ≠ 0 then
        -- the data moves on to the next block, whatever its place in the nominal range
        mtdWriteLoop fuel m (off + mtd.erasesize.toUInt64) remaining datbuf ret
      else
        let data := datbuf.read 0 (ioLen mtd remaining).toNat
        let written :=
          if mtd.hasPages = true ∧ mtdPageIsEmpty data = true then
            (0, mtd.writesize.toUInt64, m) -- a page of 0xff is as good as erased
          else
            ops.writeOob m off data
        if written.1 ≠ 0 then
          some (written.1, written.2.2)
        else
          mtdWriteLoop fuel written.2.2 (off + written.2.1) (remaining - written.2.1)
            (datbuf.shift written.2.1.toNat) written.1

def mtdWriteMedium : WriteMedium μ := fun m offset buf len =>
  if mtdIsAlignedWithMinIoSize mtd offset = false then
    some (-1, len, m)
  else if mtdIsAlignedWithMinIoSize mtd len = false then
    some (-1, len, m)
  else
    let unlocked := ops.unlock m offset len
    if unlocked.1 ≠ 0 ∧ unlocked.1 ≠ -eopnotsupp then
      some (-1, len, unlocked.2)
    else
      match mtdEraseMedium mtd ops unlocked.2 offset len with
      | none => none
      | some (erased, _, m) =>
          if erased ≠ 0 then
            some (-1, len, ops.lock m offset len)
          else
            -- the search starts at the nominal offset, whose range alone was erased
            match mtdSkipBad mtd ops loopBound m offset with
            | none => none
            | some off =>
                -- `ret` still holds the answer of `mtd_unlock` when nothing is written
                match mtdWriteLoop mtd ops loopBound m off len buf unlocked.1 with
                | none => none
                | some (ret, m) =>
                    if ret ≠ 0 then
                      some (-1, len, ops.lock m offset len)
                    else
                      some (0, len, ops.lock m offset len)

/-- How a call of `mtd_write_medium` returns: with its answer, the length and the device. -/
inductive WriteReturns (m : μ) (offset len : UInt64) (buf : ByteMem) : Int × UInt64 × μ → Prop
  | unaligned
      (halign : ¬ (mtdIsAlignedWithMinIoSize mtd offset = true ∧ mtdIsAlignedWithMinIoSize mtd len = true)) :
      WriteReturns m offset len buf (-1, len, m)
  | locked (hret : (ops.unlock m offset len).1 ≠ 0)
      (hlock : (ops.unlock m offset len).1 ≠ -eopnotsupp) :
      WriteReturns m offset len buf (-1, len, (ops.unlock m offset len).2)
  | notErased {erased : Int} {len₁ : UInt64} {m₁ : μ}
      (herase : mtdEraseMedium mtd ops (ops.unlock m offset len).2 offset len = some (erased, len₁, m₁))
      (hret : erased ≠ 0)
      (hgo : ¬ ((ops.unlock m offset len).1 ≠ 0 ∧ (ops.unlock m offset len).1 ≠ -eopnotsupp)) :
      WriteReturns m offset len buf (-1, len, ops.lock m₁ offset len)
  | written {len₁ off : UInt64} {m₁ m₂ : μ} {r ret : Int}
      (herase : mtdEraseMedium mtd ops (ops.unlock m offset len).2 offset len = some (0, len₁, m₁))
      (hskip : mtdSkipBad mtd ops loopBound m₁ offset = some off)
      (hloop : mtdWriteLoop mtd ops loopBound m₁ off len buf (ops.unlock m offset len).1 = some (r, m₂))
      (hret : ret = 0 ↔ r = 0)
      (hgo : ¬ ((ops.unlock m offset len).1 ≠ 0 ∧ (ops.unlock m offset len).1 ≠ -eopnotsupp)) :
      WriteReturns m offset len buf (ret, len, ops.lock m₂ offset len)

variable {mtd ops} in
theorem writeReturns_of_eq {m : μ} {offset len : UInt64} {buf : ByteMem} {r : Int × UInt64 × μ}
    (h : mtdWriteMedium mtd ops m offset buf len = some r) : WriteReturns mtd ops m offset len buf r := by
  unfold mtdWriteMedium at h
  split at h
  · rename_i ho
    cases h
    exact .unaligned (by simp [ho])
  · split at h
    · rename_i hl
      cases h
      exact .unaligned (by simp [hl])
    · dsimp only at h
      split at h
      · rename_i hstop
        cases h
        exact .locked hstop.1 hstop.2
      · rename_i hgo
        split at h
        · cases h
        · rename_i erased _ m₁ herase
          split at h
          · rename_i hret
            cases h
            exact .notErased herase hret hgo
          · rename_i hret
            rw [not_not.1 hret] at herase
            split at h
            · cases h
            · rename_i off hskip
              split at h
              · cases h
              · rename_i ret m₂ hloop
                split at h
                · rename_i hfail
                  cases h
                  exact .written herase hskip hloop (iff_of_false (by decide) hfail) hgo
                · rename_i hok
                  cases h
                  exact .written herase hskip hloop (iff_of_true rfl (not_not.1 hok)) hgo

/-- What `kburn_mtd_probe` fills in for the first MTD device. -/
def kburnMtdProbe : KburnOps μ where
  desc :=
    { capacity := mtd.size
      blkSize := mtd.writesize.toUInt64
      eraseSize := mtd.erasesize.toUInt64
      wp := 0 }
  getMediumInfo := some mtdGetMediumInfo
  writeMedium := some (mtdWriteMedium mtd ops)
  eraseMedium := some (mtdEraseMedium mtd ops)
  destory := some fun m => (0, m)

end Source

/-! ## The NAND device -/

/-- A NAND chip: its geometry, in bytes, the number of its dies, and its bad blocks. -/
structure Nand where
  size : Nat
  erasesize : Nat
  writesize : Nat
  ntargets : Nat
  bad : Nat → Bool
  writesize_pos : 0 < writesize
  writesize_dvd : writesize ∣ erasesize
  erasesize_pos : 0 < erasesize
  erasesize_lt : erasesize < 2 ^ 32
  erasesize_dvd : erasesize ∣ size
  size_lt : size < 2 ^ 63

namespace Nand

variable (nand : Nand)

def mtd : MtdInfo where
  type := .nandflash
  size := UInt64.ofNat nand.size
  erasesize := UInt32.ofNat nand.erasesize
  writesize := UInt32.ofNat nand.writesize

/-- The byte lies in a good block. -/
def Good (a : Nat) : Prop :=
  nand.bad (a / nand.erasesize) = false

instance (a : Nat) : Decidable (nand.Good a) :=
  inferInstanceAs (Decidable (_ = false))

/-- Programming clears bits. -/
def program (m : ByteMem) (off : Nat) (data : List UInt8) : ByteMem := fun a =>
  if off ≤ a then m a &&& (data[a - off]?).getD 0xff else m a

/-- The calls, with the range checks of `mtdcore.c`.  A bad block is not erased, the block behind the
end of the chip, which passes the check, is bad, and the chip has no lock. -/
def ops : MtdOps ByteMem where
  erase := fun m addr len =>
    if addr.toNat > nand.size ∨ len.toNat > nand.size - addr.toNat then
      (-einval, m)
    else if nand.Good addr.toNat then
      (0, m.fill addr.toNat len.toNat 0xff)
    else
      (-eio, m)
  blockIsbad := fun _ ofs =>
    -- `ofs` is signed
    if ofs.toNat ≥ 2 ^ 63 ∨ ofs.toNat > nand.size then
      -einval
    else if ofs.toNat < nand.size ∧ nand.Good ofs.toNat then
      0
    else
      1
  writeOob := fun m off data =>
    if off.toNat ≥ 2 ^ 63 ∨ off.toNat + data.length > nand.size then
      (-einval, 0, m)
    else
      (0, UInt64.ofNat data.length, program m off.toNat data)
  unlock := fun m _ _ => (-eopnotsupp, m)
  lock := fun m _ _ => m

def writeMedium : WriteMedium ByteMem :=
  mtdWriteMedium nand.mtd nand.ops

/-- The addresses of the good blocks from `off` on, in order. -/
def goodAddrs (off len : Nat) : List Nat :=
  (List.range' off len).filter fun a => decide (nand.Good a)

/-- Reading from `off` to the end of the device while skipping bad blocks. -/
def readSkippingBad (m : ByteMem) (off : Nat) : List UInt8 :=
  (nand.goodAddrs off (nand.size - off)).map m

end Nand

end Burn
end CanmvK230
