import CanmvK230.Boot.FirmwareHead

/-!
# Load — reading a firmware image from an MMC or SD card

`k230_load_sys_from_mmc_or_sd` reads the sectors of the header, takes the length from it and reads the
rest behind. The block device it found stays in a static variable between calls, so a call is a step
on that variable and the memory; the trace of a run lists its `blk_dread` calls.

Main results:
* `hdBlkNum_le_sectors`: the sector count of an image never underflows;
* `load_of_reads`: with both reads served, the image and the rest of its last sector are in memory.
-/

namespace CanmvK230
namespace Boot

open Lib

/-! ## Devices -/

/-- `en_boot_sys_t`. -/
inductive BootSys where
  | linux
  | rtt
  | quickBootCfg
  | faceDb
  | sensorCfg
  | aiMode
  | speckle
  | rtapp
  | uboot
  | addr
  | auto
deriving DecidableEq, Repr

def bootMediumSdio0 : Nat := 2

/-- The value that stands for "no such partition". -/
def imgPartNotExit : Nat := 0xFFFFFFFF

def ubootSysInImgOffSec : Nat := 2 * 1024 * 1024 / blksz
def rttSysInImgOffSec : Nat := 10 * 1024 * 1024 / blksz

/-- The weak default of the function a board may replace. -/
def getBlkStartByBootFirmreType : BootSys → Nat
  | .rtt => rttSysInImgOffSec
  | .uboot => ubootSysInImgOffSec
  | _ => imgPartNotExit

/-- A block device: what is on it, and how many sectors `blk_dread` delivers for a request. -/
structure BlkDesc where
  devnum : Nat
  content : ByteMem
  dread : (start blkcnt : Nat) → Nat

/-- An MMC device: whether `mmc_init` fails, and its block device. -/
structure Mmc where
  initFails : Bool
  blkDesc : Option BlkDesc

structure Board where
  getBlkStart : BootSys → Nat
  mmcInitDevice : Nat → Bool
  findMmcDevice : Nat → Option Mmc

/-! ## The code -/

/-- A call of `blk_dread`. -/
structure BlkRead where
  devnum : Nat
  start : Nat
  blkcnt : Nat
  buff : Nat
deriving DecidableEq, Repr

/-- The sectors that were delivered are copied to `buff`. -/
def blkDread (d : BlkDesc) (m : ByteMem) (start blkcnt buff : Nat) : Nat × ByteMem :=
  (d.dread start blkcnt,
    m.write buff (d.content.read (blksz * start) (blksz * min (d.dread start blkcnt) blkcnt)))

/-- An `unsigned long` stored in an `int` and compared with an `unsigned long` again. -/
def throughInt (n : Nat) : Nat :=
  if n % 2 ^ 32 < 2 ^ 31 then n % 2 ^ 32 else n % 2 ^ 32 + (2 ^ 64 - 2 ^ 32)

/-- `DIV_ROUND_UP(pfh->length + sizeof(*pfh), BLKSZ)`, in 64 bits. -/
def sectors (length : UInt32) : Nat := (length.toNat + headSize + blksz - 1) / blksz

structure LoadRun where
  ret : Int
  mem : ByteMem
  /-- The static `pblk_desc` afterwards. -/
  pblkDesc : Option BlkDesc
  reads : List BlkRead

/-- The initialisation on first use. -/
def initBlkDesc (b : Board) (dev : Nat) : Except Int BlkDesc :=
  if b.mmcInitDevice dev then .error 1
  else match b.findMmcDevice dev with
    | none => .error 2
    | some mmc =>
        if mmc.initFails then .error 3
        else match mmc.blkDesc with
          | none => .error 3
          | some d => .ok d

/-- The block device a call uses. -/
def currentBlkDesc (b : Board) (gBootMedium : Nat) : Option BlkDesc → Except Int BlkDesc
  | some d => .ok d
  | none => initBlkDesc b (gBootMedium - bootMediumSdio0)

def k230LoadSysFromMmcOrSd (b : Board) (gBootMedium : Nat) (pblkDesc : Option BlkDesc) (m : ByteMem)
    (sys : BootSys) (buff : Nat) : LoadRun :=
  let blkS := b.getBlkStart sys
  if blkS = imgPartNotExit then
    -- 0xFFFFFFFF returned as an `int`
    ⟨-1, m, pblkDesc, []⟩
  else match currentBlkDesc b gBootMedium pblkDesc with
    | .error ret => ⟨ret, m, none, []⟩
    | .ok d =>
        let head := blkDread d m blkS hdBlkNum buff
        let headRead := ⟨d.devnum, blkS, hdBlkNum, buff⟩
        -- What was read stays in memory on the error paths.
        if throughInt head.1 ≠ hdBlkNum then
          ⟨4, head.2, some d, [headRead]⟩
        else if (headAt head.2 buff).magic ≠ k230ImageMagicNum then
          ⟨5, head.2, some d, [headRead]⟩
        else
          -- The length is taken from the header before anything of the image is checked.
          let dataSect := sectors (headAt head.2 buff).length - hdBlkNum
          let data := blkDread d head.2 (blkS + hdBlkNum) dataSect (buff + hdBlkNum * blksz)
          let dataRead := ⟨d.devnum, blkS + hdBlkNum, dataSect, buff + hdBlkNum * blksz⟩
          ⟨if throughInt data.1 ≠ dataSect then 6 else 0, data.2, some d, [headRead, dataRead]⟩

/-! ## Sectors -/

/-- Even an empty payload needs the sectors of the header, so `data_sect` does not underflow. -/
theorem hdBlkNum_le_sectors (length : UInt32) : hdBlkNum ≤ sectors length := by
  apply Nat.div_le_div_right
  simp only [headSize, blksz]
  omega

theorem sectors_lt (length : UInt32) : sectors length < 2 ^ 31 := by
  have hlt := length.toNat_lt
  simp only [sectors, headSize, blksz]
  omega

/-- The sectors of an image hold all of it. -/
theorem length_le_sectors (length : UInt32) : headSize + length.toNat ≤ blksz * sectors length := by
  simp only [sectors, headSize, blksz]
  omega

theorem throughInt_of_lt {n : Nat} (hn : n < 2 ^ 31) : throughInt n = n := by
  have hmod : n % 2 ^ 32 = n := Nat.mod_eq_of_lt (Nat.lt_trans hn (by decide))
  rw [throughInt, hmod, if_pos hn]

/-! ## A run with both reads served -/

section
variable {b : Board} {gBootMedium : Nat} {pblkDesc : Option BlkDesc} {m : ByteMem} {sys : BootSys}
  {buff : Nat} {d : BlkDesc}

theorem blkDread_of_full {start blkcnt : Nat} (h : d.dread start blkcnt = blkcnt) :
    blkDread d m start blkcnt buff =
      (blkcnt, m.write buff (d.content.read (blksz * start) (blksz * blkcnt))) := by
  rw [blkDread, h, Nat.min_self]

/-- Two reads of consecutive sectors to consecutive memory are one read. -/
theorem write_sectors (m : ByteMem) (buff : Nat) (d : BlkDesc) (start k l : Nat) :
    (m.write buff (d.content.read (blksz * start) (blksz * k))).write (buff + k * blksz)
        (d.content.read (blksz * (start + k)) (blksz * l)) =
      m.write buff (d.content.read (blksz * start) (blksz * (k + l))) := by
  rw [Nat.mul_add blksz k l, Nat.mul_add blksz start k, Nat.mul_comm k blksz, ByteMem.write_read_add]

/-- The header read first is the one on the device. -/
theorem headAt_write_sectors (m : ByteMem) (buff : Nat) {start k : Nat} {h : FirmwareHead} (hk : hdBlkNum ≤ k)
    (hdev : d.content.read (blksz * start) headSize = h.toBytes) :
    headAt (m.write buff (d.content.read (blksz * start) (blksz * k))) buff = h := by
  have hle : headSize ≤ blksz * k :=
    Nat.le_trans (by decide : headSize ≤ blksz * hdBlkNum) (Nat.mul_le_mul_left _ hk)
  apply headAt_of_read
  calc
    (m.write buff (d.content.read (blksz * start) (blksz * k))).read buff headSize
        = ((m.write buff (d.content.read (blksz * start) (blksz * k))).read buff (blksz * k)).take
            headSize := (ByteMem.take_read _ _ hle).symm
    _ = (d.content.read (blksz * start) (blksz * k)).take headSize := by
      rw [ByteMem.read_write_of_length _ (ByteMem.length_read _ _ _)]
    _ = d.content.read (blksz * start) headSize := ByteMem.take_read _ _ hle
    _ = h.toBytes := hdev

/-- An image with a good magic number, both reads served: two adjacent reads, and memory from `buff`
holds the sectors of the image. -/
theorem load_of_reads {h : FirmwareHead} (hstart : b.getBlkStart sys ≠ imgPartNotExit)
    (hdesc : currentBlkDesc b gBootMedium pblkDesc = .ok d)
    (hdev : d.content.read (blksz * b.getBlkStart sys) headSize = h.toBytes)
    (hmagic : h.magic = k230ImageMagicNum)
    (hhead : d.dread (b.getBlkStart sys) hdBlkNum = hdBlkNum)
    (hdata : d.dread (b.getBlkStart sys + hdBlkNum) (sectors h.length - hdBlkNum) =
      sectors h.length - hdBlkNum) :
    k230LoadSysFromMmcOrSd b gBootMedium pblkDesc m sys buff =
      { ret := 0
        mem := m.write buff (d.content.read (blksz * b.getBlkStart sys) (blksz * sectors h.length))
        pblkDesc := some d
        reads := [⟨d.devnum, b.getBlkStart sys, hdBlkNum, buff⟩,
          ⟨d.devnum, b.getBlkStart sys + hdBlkNum, sectors h.length - hdBlkNum,
            buff + hdBlkNum * blksz⟩] } := by
  have hfirst := headAt_write_sectors m buff (Nat.le_refl hdBlkNum) hdev
  have hint : throughInt hdBlkNum = hdBlkNum := throughInt_of_lt (by decide)
  have hint' : throughInt (sectors h.length - hdBlkNum) = sectors h.length - hdBlkNum :=
    throughInt_of_lt (Nat.lt_of_le_of_lt (Nat.sub_le _ _) (sectors_lt _))
  have hsum : hdBlkNum + (sectors h.length - hdBlkNum) = sectors h.length :=
    Nat.add_sub_cancel' (hdBlkNum_le_sectors _)
  -- The second read continues the first, on the device and in memory.
  have hmem := write_sectors m buff d (b.getBlkStart sys) hdBlkNum (sectors h.length - hdBlkNum)
  rw [hsum] at hmem
  simp only [k230LoadSysFromMmcOrSd, hstart, hdesc, blkDread_of_full hhead, hfirst, hmagic, hint,
    blkDread_of_full hdata, hint', hmem, if_false, ne_eq, not_true_eq_false]

end

end Boot
end CanmvK230
