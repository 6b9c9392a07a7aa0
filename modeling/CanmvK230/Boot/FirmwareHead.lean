import CanmvK230.Lib.Bytes

/-!
# FirmwareHead — the 528 bytes in front of every firmware image

`firmware_head_s` of `board_common.h` is packed, so its fields sit at fixed offsets: three
little-endian words and a union of 516 bytes that the crypto type tells how to read. A header is
kept with the union as raw bytes; the views `rsaN`, `sm2Id`, `noneSecSignature`, … cut it the way the
three members of the union do.

Main result:
* `headAt_of_read`: memory that holds the bytes of a header is read back as that header.
-/

namespace CanmvK230
namespace Boot

open Lib

/-! ## Constants -/

def k230ImageMagicNum : UInt32 := 0x3033324B

def blksz : Nat := 512

/-- The size of the packed `firmware_head_s`. -/
def headSize : Nat := 528

/-- The header occupies this many sectors. -/
def hdBlkNum : Nat := (headSize + blksz - 1) / blksz

/-- `crypto_type_e`, in the order of the enumeration. -/
inductive CryptoType where
  | noneSecurity
  | gcmOnly
  | chineseSecurity
  | internationalSecurity
deriving DecidableEq, Repr

/-- The number the header stores for a crypto type. -/
def CryptoType.code : CryptoType → UInt32
  | .noneSecurity => 0
  | .gcmOnly => 1
  | .chineseSecurity => 2
  | .internationalSecurity => 3

/-! ## The header -/

/-- The little-endian 32-bit word at an address. -/
def le32At (m : ByteMem) (a : Nat) : UInt32 :=
  UInt32.ofNat (leNat (m.read a 4))

structure FirmwareHead where
  magic : UInt32
  length : UInt32
  cryptoType : UInt32
  /-- The union `verify_`, as bytes. -/
  verify : List UInt8
  verify_length : verify.length = 516

/-- The header that starts at the pointer `pfh`. -/
def headAt (m : ByteMem) (pfh : Nat) : FirmwareHead where
  magic := le32At m pfh
  length := le32At m (pfh + 4)
  cryptoType := le32At m (pfh + 8)
  verify := m.read (pfh + 12) 516
  verify_length := m.length_read _ _

@[simp] theorem headAt_verify (m : ByteMem) (pfh : Nat) :
    (headAt m pfh).verify = m.read (pfh + 12) 516 := by
  simp only [headAt]

/-- The address `pfh + 1` of the source, where the payload starts. -/
def payloadAddr (pfh : Nat) : Nat := pfh + headSize

namespace FirmwareHead

variable (h : FirmwareHead)

/-- The `len` bytes of the union from `off`. -/
def field (off len : Nat) : List UInt8 := (h.verify.drop off).take len

/-! The three members of the union. -/

def rsaN : List UInt8 := h.field 0 256
def rsaE : UInt32 := UInt32.ofNat (leNat (h.field 256 4))
def rsaSignature : List UInt8 := h.field 260 256

def sm2Idlen : UInt32 := UInt32.ofNat (leNat (h.field 0 4))
def sm2Pukx : List UInt8 := h.field 388 32
def sm2Puky : List UInt8 := h.field 420 32
def sm2R : List UInt8 := h.field 452 32
def sm2S : List UInt8 := h.field 484 32

def noneSecSignature : List UInt8 := h.field 0 32

/-- A field that ends before `n` is a field of the first `n` bytes. -/
theorem take_drop_field {off len n : Nat} (hle : off + len ≤ n) :
    ((h.field 0 n).drop off).take len = h.field off len := by
  have hmin : min len (n - off) = len := Nat.min_eq_left (Nat.le_sub_of_add_le' hle)
  rw [field, field, List.drop_zero, List.drop_take, List.take_take, hmin]

/-- The packed bytes of a header. -/
def toBytes : List UInt8 :=
  toLe 4 h.magic.toNat ++ toLe 4 h.length.toNat ++ toLe 4 h.cryptoType.toNat ++ h.verify

@[simp] theorem length_toBytes : h.toBytes.length = headSize := by
  simp [toBytes, headSize, h.verify_length]

theorem ext_fields {h h' : FirmwareHead} (hmagic : h.magic = h'.magic)
    (hlength : h.length = h'.length) (htype : h.cryptoType = h'.cryptoType)
    (hverify : h.verify = h'.verify) : h = h' := by
  cases h
  cases h'
  simp_all

end FirmwareHead

/-! ## Reading a header back -/

theorem le32At_of_read {m : ByteMem} {a : Nat} {w : UInt32} (h : m.read a 4 = toLe 4 w.toNat) :
    le32At m a = w := by
  have hw : w.toNat < 256 ^ 4 := w.toNat_lt
  rw [le32At, h, leNat_toLe_of_lt hw]
  exact UInt32.ofNat_toNat

/-- Memory that holds the bytes of a header is read back as that header. -/
theorem headAt_of_read {m : ByteMem} {pfh : Nat} {h : FirmwareHead}
    (hread : m.read pfh headSize = h.toBytes) : headAt m pfh = h := by
  have hall : m.read pfh h.toBytes.length = h.toBytes := by
    rw [h.length_toBytes]
    exact hread
  -- One field after the other: what stands in front of it and behind it in `toBytes`.
  apply FirmwareHead.ext_fields
  · exact le32At_of_read (ByteMem.read_part [] (toLe 4 h.length.toNat ++ toLe 4 h.cryptoType.toNat ++ h.verify)
      hall (by simp [FirmwareHead.toBytes]) (by simp) (by simp))
  · exact le32At_of_read (ByteMem.read_part (toLe 4 h.magic.toNat) (toLe 4 h.cryptoType.toNat ++ h.verify)
      hall (by simp [FirmwareHead.toBytes]) (by simp) (by simp))
  · exact le32At_of_read (ByteMem.read_part (toLe 4 h.magic.toNat ++ toLe 4 h.length.toNat) h.verify
      hall (by simp [FirmwareHead.toBytes]) (by simp) (by simp))
  · rw [headAt_verify]
    exact ByteMem.read_part (toLe 4 h.magic.toNat ++ toLe 4 h.length.toNat ++ toLe 4 h.cryptoType.toNat) []
      hall (by simp [FirmwareHead.toBytes]) (by simp) h.verify_length

end Boot
end CanmvK230
