import CanmvK230.Boot.FirmwareHead

/-!
# UImage — the legacy image header and the table of a multi-file image

The accessors of `image.h` and the two functions of `image.c` that the boot path uses. A header is 64
bytes, its words big-endian; the payload of a multi-file image starts with a table of component
sizes that a zero word ends.

`image_multi_count` walks that table without a bound. Its model stops after the `2 ^ 62` words a
64-bit address space has, with `none` for a walk that found no zero word.

Main results:
* `UHead.magic_of_read` and its siblings: a header in memory is read back field by field;
* `imageMultiCount_eq_some`: the count is the index of the first zero word;
* `imageMultiGetimg_zero`: where the first component starts.
-/

namespace CanmvK230
namespace Boot

open Lib

/-! ## Header fields -/

/-- The big-endian 32-bit word at an address, `uimage_to_cpu` of what stands there. -/
def be32At (m : ByteMem) (a : Nat) : Nat := beNat (m.read a 4)

def ihMagic : Nat := 0x27051956
def ihCompNone : UInt8 := 0
def ihCompGzip : UInt8 := 1
def ihNmlen : Nat := 32

/-- `sizeof(image_header_t)`. -/
def imageGetHeaderSize : Nat := 64

def imageGetMagic (m : ByteMem) (hdr : Nat) : Nat := be32At m hdr
def imageGetSize (m : ByteMem) (hdr : Nat) : Nat := be32At m (hdr + 12)
def imageGetLoad (m : ByteMem) (hdr : Nat) : Nat := be32At m (hdr + 16)
def imageGetComp (m : ByteMem) (hdr : Nat) : UInt8 := m (hdr + 31)

/-- The pointer `image_get_name` returns. -/
def imageGetName (hdr : Nat) : Nat := hdr + 32

def imageGetDataSize (m : ByteMem) (hdr : Nat) : Nat := imageGetSize m hdr
def imageGetData (hdr : Nat) : Nat := hdr + imageGetHeaderSize

def imageCheckMagic (m : ByteMem) (hdr : Nat) : Bool := imageGetMagic m hdr == ihMagic

/-- `strcmp` of the string at `a` with a literal gives 0. -/
def strcmpEq (m : ByteMem) (a : Nat) (s : String) : Bool :=
  m.read a ((ascii s).length + 1) == ascii s ++ [0]

/-! ## The table of a multi-file image -/

/-- The words from `size[i]` on up to the first zero word. -/
def imageMultiCountFrom (m : ByteMem) (size : Nat) : Nat → Nat → Option Nat
  | 0, _ => none
  | fuel + 1, i =>
      -- The loop tests the word as it stands, without `uimage_to_cpu`.
      if le32At m (size + 4 * i) = 0 then some i else imageMultiCountFrom m size fuel (i + 1)

def imageMultiCount (m : ByteMem) (hdr : Nat) : Option Nat :=
  imageMultiCountFrom m (imageGetData hdr) (2 ^ 62) 0

/-- The sizes of the components before `idx`, each rounded up to 4 in 32-bit arithmetic. -/
def imageMultiOffset (m : ByteMem) (size : Nat) : Nat → Nat
  | 0 => 0
  | i + 1 => imageMultiOffset m size i + (be32At m (size + 4 * i) + 3) % 2 ^ 32 / 4 * 4

/-- Address and length of component `idx`, zeros if there is none. -/
def imageMultiGetimg (m : ByteMem) (hdr idx : Nat) : Option (Nat × Nat) := do
  let count ← imageMultiCount m hdr
  let size := imageGetData hdr
  -- The components follow the sizes and the zero word.
  let imgData := imageGetData hdr + (count + 1) * 4
  if idx < count then
    return (imgData + imageMultiOffset m size idx, be32At m (size + 4 * idx))
  else
    return (0, 0)

/-! ## The walk finds the first zero word -/

theorem imageMultiCountFrom_eq_some {m : ByteMem} {size : Nat} {fuel i n : Nat}
    (hle : i ≤ n) (hfuel : n < i + fuel)
    (hne : ∀ j, i ≤ j → j < n → le32At m (size + 4 * j) ≠ 0)
    (hzero : le32At m (size + 4 * n) = 0) :
    imageMultiCountFrom m size fuel i = some n := by
  -- The words from `i` to `n` are walked one by one; the fuel exceeds their number.
  induction fuel generalizing i with
  | zero => omega
  | succ fuel ih =>
      rcases Nat.eq_or_lt_of_le hle with heq | hlt
      · subst heq
        simp [imageMultiCountFrom, hzero]
      · have hrest : imageMultiCountFrom m size fuel (i + 1) = some n := by
          apply ih hlt (by omega)
          intro j hj hj'
          exact hne j (Nat.le_of_succ_le hj) hj'
        simp [imageMultiCountFrom, hne i (Nat.le_refl i) hlt, hrest]

/-- The count is the index of the first zero word of the table. -/
theorem imageMultiCount_eq_some {m : ByteMem} {hdr n : Nat} (hn : n < 2 ^ 62)
    (hne : ∀ j, j < n → le32At m (imageGetData hdr + 4 * j) ≠ 0)
    (hzero : le32At m (imageGetData hdr + 4 * n) = 0) : imageMultiCount m hdr = some n := by
  apply imageMultiCountFrom_eq_some (Nat.zero_le n)
  · rw [Nat.zero_add]
    exact hn
  · intro j _ hj
    exact hne j hj
  · exact hzero

/-- The first component starts behind the table. -/
theorem imageMultiGetimg_zero {m : ByteMem} {hdr count : Nat}
    (hcount : imageMultiCount m hdr = some count) (hpos : 0 < count) :
    imageMultiGetimg m hdr 0 =
      some (imageGetData hdr + (count + 1) * 4, be32At m (imageGetData hdr)) := by
  simp [imageMultiGetimg, hcount, hpos, imageMultiOffset]

/-! ## Headers as they are written -/

/-- The fields of `image_header_t` behind its magic number. -/
structure UHead where
  hcrc : Nat
  time : Nat
  size : Nat
  load : Nat
  ep : Nat
  dcrc : Nat
  os : UInt8
  arch : UInt8
  type : UInt8
  comp : UInt8
  name : List UInt8
  name_length : name.length = ihNmlen

namespace UHead

variable (h : UHead)

/-- The words in front of the four byte-sized fields. -/
def words : List UInt8 :=
  toBe 4 ihMagic ++ toBe 4 h.hcrc ++ toBe 4 h.time ++ toBe 4 h.size ++ toBe 4 h.load ++
    toBe 4 h.ep ++ toBe 4 h.dcrc

def toBytes : List UInt8 :=
  h.words ++ [h.os, h.arch, h.type, h.comp] ++ h.name

@[simp] theorem length_words : h.words.length = 28 := by
  simp [words]

@[simp] theorem length_toBytes : h.toBytes.length = imageGetHeaderSize := by
  simp [toBytes, h.name_length, ihNmlen, imageGetHeaderSize]

variable {h} {m : ByteMem} {hdr : Nat}

theorem be32At_of_read {a n : Nat} (hread : m.read a 4 = toBe 4 n) (hn : n < 2 ^ 32) :
    be32At m a = n := by
  rw [be32At, hread]
  exact beNat_toBe_of_lt hn

/-- The word that stands behind `pre` in the header. -/
theorem word_of_read (hread : m.read hdr imageGetHeaderSize = h.toBytes) {n : Nat}
    (pre post : List UInt8) (hwords : h.words = pre ++ toBe 4 n ++ post) (hn : n < 2 ^ 32) :
    be32At m (hdr + pre.length) = n := by
  rw [← h.length_toBytes] at hread
  apply be32At_of_read _ hn
  exact ByteMem.read_part pre (post ++ ([h.os, h.arch, h.type, h.comp] ++ h.name)) hread
    (by simp [toBytes, hwords]) rfl (length_toBe 4 n)

theorem magic_of_read (hread : m.read hdr imageGetHeaderSize = h.toBytes) :
    imageCheckMagic m hdr = true := by
  have hmagic : be32At m hdr = ihMagic :=
    word_of_read hread [] (toBe 4 h.hcrc ++ toBe 4 h.time ++ toBe 4 h.size ++ toBe 4 h.load ++
      toBe 4 h.ep ++ toBe 4 h.dcrc) (by simp [words]) (by decide)
  rw [imageCheckMagic, imageGetMagic, hmagic]
  rfl

theorem size_of_read (hread : m.read hdr imageGetHeaderSize = h.toBytes) (hn : h.size < 2 ^ 32) :
    imageGetSize m hdr = h.size :=
  word_of_read hread (toBe 4 ihMagic ++ toBe 4 h.hcrc ++ toBe 4 h.time)
    (toBe 4 h.load ++ toBe 4 h.ep ++ toBe 4 h.dcrc) (by simp [words]) hn

theorem load_of_read (hread : m.read hdr imageGetHeaderSize = h.toBytes) (hn : h.load < 2 ^ 32) :
    imageGetLoad m hdr = h.load :=
  word_of_read hread (toBe 4 ihMagic ++ toBe 4 h.hcrc ++ toBe 4 h.time ++ toBe 4 h.size)
    (toBe 4 h.ep ++ toBe 4 h.dcrc) (by simp [words]) hn

theorem comp_of_read (hread : m.read hdr imageGetHeaderSize = h.toBytes) :
    imageGetComp m hdr = h.comp := by
  rw [← h.length_toBytes] at hread
  have hbyte : m.read (hdr + 31) 1 = [h.comp] :=
    ByteMem.read_part (h.words ++ [h.os, h.arch, h.type]) h.name hread (by simp [toBytes])
      (by simp) rfl
  rw [ByteMem.read_one] at hbyte
  exact List.head_eq_of_cons_eq hbyte

theorem name_of_read (hread : m.read hdr imageGetHeaderSize = h.toBytes) :
    m.read (imageGetName hdr) ihNmlen = h.name := by
  rw [← h.length_toBytes] at hread
  exact ByteMem.read_part (h.words ++ [h.os, h.arch, h.type, h.comp]) [] hread (by simp [toBytes])
    (by simp [imageGetName]) h.name_length

end UHead

/-- Comparing with a literal looks at the first bytes of the name field only. -/
theorem strcmpEq_of_read {m : ByteMem} {a : Nat} {name : List UInt8} (s : String)
    (hread : m.read a ihNmlen = name) (hlen : (ascii s).length + 1 ≤ ihNmlen) :
    strcmpEq m a s = (name.take ((ascii s).length + 1) == ascii s ++ [0]) := by
  rw [strcmpEq, ← hread, ByteMem.take_read _ _ hlen]

end Boot
end CanmvK230
