import CanmvK230.Lib.Bytes

/-!
# Burner — the medium behind the burning gadget (`kburn.h`, `kburn.c`)

A *burner* is what a probe returns for one storage medium: the device it found, the medium
information that `get_medium_info` has stored so far, and the operations of the back end.  The
type `μ` is the state of the storage hardware; the operations read and change it and nothing else.
-/

namespace CanmvK230
namespace Burn

open Lib

/-! ## The records of `kburn.h` -/

/-- `KBURN_USB_EP_BUFFER_SZIE`, the size of one OUT request. -/
def usbEpBufferSize : Nat := 128 * 1024

/-- `KBURN_USB_BUFFER_SIZE`, the double buffer between the OUT request and the medium. -/
def usbBufferSize : Nat := usbEpBufferSize * 2

inductive KburnMediaType
  | none
  | eMMC
  | sdCard
  | spiNand
  | spiNor
  | otp
  deriving DecidableEq, Repr

def KburnMediaType.code : KburnMediaType → UInt8
  | .none => 0x00
  | .eMMC => 0x01
  | .sdCard => 0x02
  | .spiNand => 0x03
  | .spiNor => 0x04
  | .otp => 0x05

/-- `struct kburn_medium_info`, with the bit fields of its last word. -/
structure KburnMediumInfo where
  capacity : UInt64
  blkSize : UInt64
  eraseSize : UInt64
  timeoutMs : BitVec 32
  wp : BitVec 8
  type : BitVec 7
  valid : BitVec 1
  deriving DecidableEq, Repr

namespace KburnMediumInfo

-- What `memset` leaves in a burner that was just probed.
def zero : KburnMediumInfo :=
  { capacity := 0, blkSize := 0, eraseSize := 0, timeoutMs := 0, wp := 0, type := 0, valid := 0 }

/-- The 32 bytes of the record as the host receives them. -/
def bytes (i : KburnMediumInfo) : List UInt8 :=
  toLe 8 i.capacity.toNat ++ toLe 8 i.blkSize.toNat ++ toLe 8 i.eraseSize.toNat ++
    toLe 8 (i.timeoutMs.toNat + 2 ^ 32 * (i.wp.toNat + 2 ^ 8 * (i.type.toNat + 2 ^ 7 * i.valid.toNat)))

end KburnMediumInfo

-- The geometry of a device, as its driver reports it.
structure MediumDesc where
  capacity : UInt64
  blkSize : UInt64
  eraseSize : UInt64
  wp : BitVec 8
  deriving DecidableEq, Repr

/-- A back end's `get_medium_info`: what it stores for a device.  The two laws are what the rest of
the gadget relies on, so a back end that reports another capacity cannot be installed. -/
structure GetMediumInfo where
  store : MediumDesc → KburnMediumInfo
  store_valid : ∀ d, (store d).valid = 1
  store_capacity : ∀ d, (store d).capacity = d.capacity

-- The three back ends store the same fields and differ in the time-out and the type.
def storeMediumInfo (timeoutMs : BitVec 32) (type : KburnMediaType) : GetMediumInfo where
  store d :=
    { capacity := d.capacity
      blkSize := d.blkSize
      eraseSize := d.eraseSize
      timeoutMs := timeoutMs
      wp := d.wp
      type := BitVec.ofNat 7 type.code.toNat
      valid := 1 }
  store_valid _ := rfl
  store_capacity _ := rfl

def mmcGetMediumInfo : GetMediumInfo := storeMediumInfo 1000 .eMMC

def mtdGetMediumInfo : GetMediumInfo := storeMediumInfo 5000 .spiNand

def sfGetMediumInfo : GetMediumInfo := storeMediumInfo 5000 .spiNor

/-- `write_medium(burn, offset, buf, &len)`: the result, the new `*len` and the hardware after it,
or `none` when the call does not return.  The buffer is the memory seen from the pointer `buf`. -/
abbrev WriteMedium (μ : Type) := μ → UInt64 → ByteMem → UInt64 → Option (Int × UInt64 × μ)

abbrev EraseMedium (μ : Type) := μ → UInt64 → UInt64 → Option (Int × UInt64 × μ)

/-- What a probe fills in: the device and the function pointers, `none` for a NULL pointer. -/
structure KburnOps (μ : Type) where
  desc : MediumDesc
  getMediumInfo : Option GetMediumInfo
  writeMedium : Option (WriteMedium μ)
  eraseMedium : Option (EraseMedium μ)
  destory : Option (μ → Int × μ)

structure Kburn (μ : Type) extends KburnOps μ where
  mediumInfo : KburnMediumInfo

/-- The board around the gadget: which back ends are compiled in (`CONFIG_KBURN_MMC`, `_SF`,
`_MTD`), their probes, and the packet size of the OUT endpoint, 512 or 64 by its descriptors. -/
structure Board (μ : Type) where
  configKburnMmc : Bool
  configKburnSf : Bool
  configKburnMtd : Bool
  kburnMmcProbe : μ → UInt8 → Option (KburnOps μ) × μ
  kburnSfProbe : μ → Option (KburnOps μ) × μ
  kburnMtdProbe : μ → Option (KburnOps μ) × μ
  maxpacket : UInt16
  maxpacket_pos : 0 < maxpacket

theorem maxpacket_high_pos : 0 < (512 : UInt16) := by
  decide

/-! ## The operations of `kburn.c` -/

section Operations

variable {μ : Type}

def Kburn.ofProbe (ops : KburnOps μ) : Kburn μ :=
  { ops with mediumInfo := KburnMediumInfo.zero }

def kburnProbeMedia (board : Board μ) (type : UInt8) (m : μ) : Option (Kburn μ) × μ :=
  let found :=
    if board.configKburnMmc = true ∧ type = KburnMediaType.eMMC.code then
      board.kburnMmcProbe m 0 -- the eMMC is on mmc0
    else if board.configKburnMmc = true ∧ type = KburnMediaType.sdCard.code then
      board.kburnMmcProbe m 1 -- the SD card is on mmc1
    else if board.configKburnSf = true ∧ type = KburnMediaType.spiNor.code then
      board.kburnSfProbe m
    else if board.configKburnMtd = true ∧ type = KburnMediaType.spiNand.code then
      board.kburnMtdProbe m
    else
      (none, m)
  (found.1.map Kburn.ofProbe, found.2)

def kburnGetMediumInfo (burn : Kburn μ) : Int × Kburn μ :=
  match burn.getMediumInfo with
  | none => (-1, burn)
  | some get => (0, { burn with mediumInfo := get.store burn.desc })

def kburnWriteMedium (burn : Option (Kburn μ)) (m : μ) (offset : UInt64) (buf : ByteMem)
    (len : UInt64) : Option (Int × UInt64 × μ) :=
  match burn.bind (·.writeMedium) with
  | none => some (-1, len, m)
  | some writeMedium => writeMedium m offset buf len

def kburnEraseMedium (burn : Option (Kburn μ)) (m : μ) (offset len : UInt64) :
    Option (Int × UInt64 × μ) :=
  match burn.bind (·.eraseMedium) with
  | none => some (-1, len, m)
  | some eraseMedium => eraseMedium m offset len

/-- The hardware after `kburn_destory`; the burner is freed and the result only printed. -/
def kburnDestory (burn : Option (Kburn μ)) (m : μ) : μ :=
  match burn.bind (·.destory) with
  | none => m
  | some destory => (destory m).2

/-! ## What a burner knows about its capacity -/

/-- The medium information a burner holds is either not valid yet or reports the device's own
capacity. -/
def Kburn.CapacityKnown (burn : Kburn μ) : Prop :=
  burn.mediumInfo.valid = 1 → burn.mediumInfo.capacity = burn.desc.capacity

theorem Kburn.capacityKnown_ofProbe (ops : KburnOps μ) : (Kburn.ofProbe ops).CapacityKnown := by
  intro h
  simp [Kburn.ofProbe, KburnMediumInfo.zero] at h

theorem capacityKnown_of_kburnProbeMedia {board : Board μ} {type : UInt8} {m : μ} {burn : Kburn μ}
    (h : (kburnProbeMedia board type m).1 = some burn) : burn.CapacityKnown := by
  simp only [kburnProbeMedia, Option.map_eq_some_iff] at h
  rcases h with ⟨ops, _, rfl⟩
  exact Kburn.capacityKnown_ofProbe ops

theorem capacityKnown_kburnGetMediumInfo {burn : Kburn μ} (h : burn.CapacityKnown) :
    (kburnGetMediumInfo burn).2.CapacityKnown := by
  unfold kburnGetMediumInfo
  cases hget : burn.getMediumInfo with
  | none => simpa using h
  | some get =>
      intro _
      exact get.store_capacity burn.desc

end Operations

end Burn
end CanmvK230
