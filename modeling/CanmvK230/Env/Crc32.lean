import CanmvK230.Lib.Crc

/-!
# Crc32 — the check of the environment and of images (`lib/crc32.c`)

`crc32_no_comp` goes byte by byte to an aligned address, then word by word, then byte by byte again,
each time with a table.  Wherever the buffer lies, that is the check of its bytes
(`crc32NoComp_eq`), and it may be continued (`crc32_append`).

Two buffers that differ only within 32 bits one after the other have different checks
(`crc32_burst`).
-/

namespace CanmvK230
namespace Env

open Lib

def crcTable : List (BitVec 32) :=
  [
    0x00000000, 0x77073096, 0xee0e612c, 0x990951ba, 0x076dc419, 0x706af48f, 0xe963a535, 0x9e6495a3,
    0x0edb8832, 0x79dcb8a4, 0xe0d5e91e, 0x97d2d988, 0x09b64c2b, 0x7eb17cbd, 0xe7b82d07, 0x90bf1d91,
    0x1db71064, 0x6ab020f2, 0xf3b97148, 0x84be41de, 0x1adad47d, 0x6ddde4eb, 0xf4d4b551, 0x83d385c7,
    0x136c9856, 0x646ba8c0, 0xfd62f97a, 0x8a65c9ec, 0x14015c4f, 0x63066cd9, 0xfa0f3d63, 0x8d080df5,
    0x3b6e20c8, 0x4c69105e, 0xd56041e4, 0xa2677172, 0x3c03e4d1, 0x4b04d447, 0xd20d85fd, 0xa50ab56b,
    0x35b5a8fa, 0x42b2986c, 0xdbbbc9d6, 0xacbcf940, 0x32d86ce3, 0x45df5c75, 0xdcd60dcf, 0xabd13d59,
    0x26d930ac, 0x51de003a, 0xc8d75180, 0xbfd06116, 0x21b4f4b5, 0x56b3c423, 0xcfba9599, 0xb8bda50f,
    0x2802b89e, 0x5f058808, 0xc60cd9b2, 0xb10be924, 0x2f6f7c87, 0x58684c11, 0xc1611dab, 0xb6662d3d,
    0x76dc4190, 0x01db7106, 0x98d220bc, 0xefd5102a, 0x71b18589, 0x06b6b51f, 0x9fbfe4a5, 0xe8b8d433,
    0x7807c9a2, 0x0f00f934, 0x9609a88e, 0xe10e9818, 0x7f6a0dbb, 0x086d3d2d, 0x91646c97, 0xe6635c01,
    0x6b6b51f4, 0x1c6c6162, 0x856530d8, 0xf262004e, 0x6c0695ed, 0x1b01a57b, 0x8208f4c1, 0xf50fc457,
    0x65b0d9c6, 0x12b7e950, 0x8bbeb8ea, 0xfcb9887c, 0x62dd1ddf, 0x15da2d49, 0x8cd37cf3, 0xfbd44c65,
    0x4db26158, 0x3ab551ce, 0xa3bc0074, 0xd4bb30e2, 0x4adfa541, 0x3dd895d7, 0xa4d1c46d, 0xd3d6f4fb,
    0x4369e96a, 0x346ed9fc, 0xad678846, 0xda60b8d0, 0x44042d73, 0x33031de5, 0xaa0a4c5f, 0xdd0d7cc9,
    0x5005713c, 0x270241aa, 0xbe0b1010, 0xc90c2086, 0x5768b525, 0x206f85b3, 0xb966d409, 0xce61e49f,
    0x5edef90e, 0x29d9c998, 0xb0d09822, 0xc7d7a8b4, 0x59b33d17, 0x2eb40d81, 0xb7bd5c3b, 0xc0ba6cad,
    0xedb88320, 0x9abfb3b6, 0x03b6e20c, 0x74b1d29a, 0xead54739, 0x9dd277af, 0x04db2615, 0x73dc1683,
    0xe3630b12, 0x94643b84, 0x0d6d6a3e, 0x7a6a5aa8, 0xe40ecf0b, 0x9309ff9d, 0x0a00ae27, 0x7d079eb1,
    0xf00f9344, 0x8708a3d2, 0x1e01f268, 0x6906c2fe, 0xf762575d, 0x806567cb, 0x196c3671, 0x6e6b06e7,
    0xfed41b76, 0x89d32be0, 0x10da7a5a, 0x67dd4acc, 0xf9b9df6f, 0x8ebeeff9, 0x17b7be43, 0x60b08ed5,
    0xd6d6a3e8, 0xa1d1937e, 0x38d8c2c4, 0x4fdff252, 0xd1bb67f1, 0xa6bc5767, 0x3fb506dd, 0x48b2364b,
    0xd80d2bda, 0xaf0a1b4c, 0x36034af6, 0x41047a60, 0xdf60efc3, 0xa867df55, 0x316e8eef, 0x4669be79,
    0xcb61b38c, 0xbc66831a, 0x256fd2a0, 0x5268e236, 0xcc0c7795, 0xbb0b4703, 0x220216b9, 0x5505262f,
    0xc5ba3bbe, 0xb2bd0b28, 0x2bb45a92, 0x5cb36a04, 0xc2d7ffa7, 0xb5d0cf31, 0x2cd99e8b, 0x5bdeae1d,
    0x9b64c2b0, 0xec63f226, 0x756aa39c, 0x026d930a, 0x9c0906a9, 0xeb0e363f, 0x72076785, 0x05005713,
    0x95bf4a82, 0xe2b87a14, 0x7bb12bae, 0x0cb61b38, 0x92d28e9b, 0xe5d5be0d, 0x7cdcefb7, 0x0bdbdf21,
    0x86d3d2d4, 0xf1d4e242, 0x68ddb3f8, 0x1fda836e, 0x81be16cd, 0xf6b9265b, 0x6fb077e1, 0x18b74777,
    0x88085ae6, 0xff0f6a70, 0x66063bca, 0x11010b5c, 0x8f659eff, 0xf862ae69, 0x616bffd3, 0x166ccf45,
    0xa00ae278, 0xd70dd2ee, 0x4e048354, 0x3903b3c2, 0xa7672661, 0xd06016f7, 0x4969474d, 0x3e6e77db,
    0xaed16a4a, 0xd9d65adc, 0x40df0b66, 0x37d83bf0, 0xa9bcae53, 0xdebb9ec5, 0x47b2cf7f, 0x30b5ffe9,
    0xbdbdf21c, 0xcabac28a, 0x53b39330, 0x24b4a3a6, 0xbad03605, 0xcdd70693, 0x54de5729, 0x23d967bf,
    0xb3667a2e, 0xc4614ab8, 0x5d681b02, 0x2a6f2b94, 0xb40bbe37, 0xc30c8ea1, 0x5a05df1b, 0x2d02ef8d
  ]

/-- The terms of the polynomial in `make_crc_table`. -/
def crcTerms : List Nat :=
  [0, 1, 2, 4, 5, 7, 8, 10, 11, 12, 16, 22, 23, 26]

def crcPoly : BitVec 32 :=
  crcTerms.foldl (fun poly p => poly ||| (1 <<< (31 - p))) 0

/-- The table that `make_crc_table` computes. -/
def makeCrcTable : List (BitVec 32) :=
  (List.range 256).map fun n =>
    (List.range 8).foldl
      (fun c _ => if c &&& 1 ≠ 0 then crcPoly ^^^ (c >>> 1) else c >>> 1) (BitVec.ofNat 32 n)

-- `DO_CRC(x)` on a little-endian machine
def doCrc (crc x : BitVec 32) : BitVec 32 :=
  crcTable.getD ((crc ^^^ x) &&& 255).toNat 0 ^^^ (crc >>> 8)

def byteWord (x : UInt8) : BitVec 32 :=
  x.toBitVec.setWidth 32

/-- Four bytes, loaded as a word. -/
def loadWord (a b c d : UInt8) : BitVec 32 :=
  byteWord a ||| (byteWord b <<< 8) ||| (byteWord c <<< 16) ||| (byteWord d <<< 24)

-- `do { DO_CRC(*p++); } while ((--len) && ((long)p)&3)`
def crcAlign : BitVec 32 → Nat → List UInt8 → BitVec 32 × List UInt8
  | crc, _, [] => (crc, [])
  | crc, p, x :: buf =>
      let crc := doCrc crc (byteWord x)
      if buf ≠ [] ∧ (p + 1) % 4 ≠ 0 then crcAlign crc (p + 1) buf else (crc, buf)

def crcWords : BitVec 32 → List UInt8 → BitVec 32 × List UInt8
  | crc, a :: b :: c :: d :: buf =>
      let crc := crc ^^^ loadWord a b c d
      crcWords (doCrc (doCrc (doCrc (doCrc crc 0) 0) 0) 0) buf
  | crc, buf => (crc, buf)

/-- `crc32_no_comp` for a buffer at the address `addr`. -/
def crc32NoComp (crc : BitVec 32) (addr : Nat) (buf : List UInt8) : BitVec 32 :=
  let aligned := if addr % 4 ≠ 0 ∧ buf ≠ [] then crcAlign crc addr buf else (crc, buf)
  let words := crcWords aligned.1 aligned.2
  words.2.foldl (fun crc x => doCrc crc (byteWord x)) words.1

def crc32 (crc : BitVec 32) (addr : Nat) (p : List UInt8) : BitVec 32 :=
  crc32NoComp (crc ^^^ 0xffffffff) addr p ^^^ 0xffffffff

/-! ## The table -/

theorem crcTable_eq : crcTable = makeCrcTable := by decide +kernel

theorem crcTable_spec : ∀ n < 256, crcTable.getD n 0 = (crcStep crcPoly)^[8] (BitVec.ofNat 32 n) := by
  decide +kernel

theorem crcPoly_msb : crcPoly.msb = true := by decide

theorem lowPart_eight (y : BitVec 32) : y &&& 255 = lowPart 8 y := by
  apply BitVec.eq_of_getLsbD_eq
  intro i hi
  have hmask : (255 : BitVec 32).getLsbD i = decide (i < 8) := by
    have h : ∀ j < 32, (255 : BitVec 32).getLsbD j = decide (j < 8) := by decide
    exact h i hi
  rw [BitVec.getLsbD_and, getLsbD_lowPart, hmask, Bool.and_comm]

/-- The table gives eight steps of the register. -/
theorem doCrc_eq (crc : BitVec 32) (x : UInt8) :
    doCrc crc (byteWord x) = crcSymbol crcPoly crc x.toBitVec := by
  have hlow : ((crc ^^^ byteWord x) &&& 255).toNat < 256 := by
    rw [BitVec.toNat_and]
    exact Nat.lt_of_le_of_lt Nat.and_le_right (by decide)
  have hhigh : byteWord x >>> 8 = 0#32 := by
    apply BitVec.eq_of_getLsbD_eq
    intro i _
    rw [BitVec.getLsbD_ushiftRight, byteWord, BitVec.getLsbD_setWidth,
      BitVec.getLsbD_of_ge x.toBitVec _ (by omega)]
    simp
  rw [doCrc, crcTable_spec _ hlow, BitVec.ofNat_toNat, BitVec.setWidth_eq, lowPart_eight,
    crcSymbol, crcStep_iterate_split crcPoly 8 (crc ^^^ _)]
  show _ = (crcStep crcPoly)^[8] (lowPart 8 (crc ^^^ byteWord x)) ^^^ ((crc ^^^ byteWord x) >>> 8)
  rw [BitVec.ushiftRight_xor_distrib, hhigh, BitVec.xor_zero]

theorem doCrc_zero (crc : BitVec 32) : doCrc crc 0 = (crcStep crcPoly)^[8] crc := by
  have h := doCrc_eq crc 0
  rw [crcSymbol] at h
  have hzero : byteWord 0 = 0#32 := by decide
  have hsymbol : (0 : UInt8).toBitVec.setWidth 32 = 0#32 := by decide
  rw [hzero, hsymbol, BitVec.xor_zero] at h
  exact h

/-- The bytes of a buffer as the symbols of the check. -/
def crcBytes (crc : BitVec 32) (buf : List UInt8) : BitVec 32 :=
  (buf.map UInt8.toBitVec).foldl (crcSymbol crcPoly) crc

theorem crcBytes_append (crc : BitVec 32) (a b : List UInt8) :
    crcBytes crc (a ++ b) = crcBytes (crcBytes crc a) b := by
  rw [crcBytes, List.map_append, List.foldl_append]
  rfl

theorem foldl_doCrc (crc : BitVec 32) (buf : List UInt8) :
    buf.foldl (fun crc x => doCrc crc (byteWord x)) crc = crcBytes crc buf := by
  rw [crcBytes, List.foldl_map]
  congr 1
  funext crc x
  exact doCrc_eq crc x

/-! ## The three loops -/

theorem crcAlign_eq :
    ∀ (buf : List UInt8) (crc : BitVec 32) (p : Nat),
      crcBytes (crcAlign crc p buf).1 (crcAlign crc p buf).2 = crcBytes crc buf := by
  intro buf
  induction buf with
  | nil =>
      intro crc p
      rfl
  | cons x buf ih =>
      intro crc p
      simp only [crcAlign]
      split
      · rw [ih, doCrc_eq]
        rfl
      · rw [doCrc_eq]
        rfl

theorem byteWord_above (x : UInt8) {i : Nat} (hi : 8 ≤ i) : (byteWord x).getLsbD i = false := by
  rw [byteWord, BitVec.getLsbD_setWidth, BitVec.getLsbD_of_ge x.toBitVec i hi, Bool.and_false]

theorem loadWord_eq (a b c d : UInt8) :
    loadWord a b c d = packSymbols 32 [a.toBitVec, b.toBitVec, c.toBitVec, d.toBitVec] := by
  show _ = byteWord a ^^^ (byteWord b ^^^ (byteWord c ^^^ (byteWord d ^^^ 0#32 <<< 8) <<< 8) <<< 8) <<< 8
  apply BitVec.eq_of_getLsbD_eq
  intro i hi
  simp only [loadWord, BitVec.getLsbD_or, BitVec.getLsbD_xor, BitVec.getLsbD_shiftLeft,
    BitVec.getLsbD_zero, hi, decide_true, Bool.true_and, Nat.sub_sub, Nat.reduceAdd]
  -- each bit comes from one of the bytes
  by_cases h8 : i < 8
  · simp [h8, show i < 16 by omega, show i < 24 by omega]
  · by_cases h16 : i < 16
    · simp [h8, h16, byteWord_above a (by omega : 8 ≤ i), show i < 24 by omega,
        show i - 8 < 8 by omega, show i - 8 < 32 by omega]
    · simp only [byteWord_above a (by omega : 8 ≤ i), byteWord_above b (by omega : 8 ≤ i - 8)]
      by_cases h24 : i < 24
      · simp [h8, h16, h24, show ¬ i - 8 < 8 by omega, show i - 16 < 8 by omega,
          show i - 8 < 32 by omega, show i - 16 < 32 by omega]
      · simp only [byteWord_above c (by omega : 8 ≤ i - 16)]
        simp [h8, h16, h24, show ¬ i - 8 < 8 by omega, show ¬ i - 16 < 8 by omega,
          show i - 8 < 32 by omega, show i - 16 < 32 by omega, show i - 24 < 32 by omega]

/-- A word loaded at once is its four bytes. -/
theorem doCrc_word (crc : BitVec 32) (a b c d : UInt8) :
    doCrc (doCrc (doCrc (doCrc (crc ^^^ loadWord a b c d) 0) 0) 0) 0 = crcBytes crc [a, b, c, d] := by
  rw [doCrc_zero, doCrc_zero, doCrc_zero, doCrc_zero, ← Function.iterate_add_apply,
    ← Function.iterate_add_apply, ← Function.iterate_add_apply, loadWord_eq, crcBytes,
    foldl_crcSymbol crcPoly _ _ (le_refl 32)]
  rfl

theorem crcWords_eq (crc : BitVec 32) (buf : List UInt8) :
    crcBytes (crcWords crc buf).1 (crcWords crc buf).2 = crcBytes crc buf := by
  induction crc, buf using crcWords.induct with
  | case1 crc a b c d buf crc' ih =>
      rw [crcWords, ih, doCrc_word, ← crcBytes_append]
      rfl
  | case2 crc buf h => rw [crcWords]; exact h

/-- Wherever the buffer lies, the check is that of its bytes one after the other. -/
theorem crc32NoComp_eq (crc : BitVec 32) (addr : Nat) (buf : List UInt8) :
    crc32NoComp crc addr buf = crcBytes crc buf := by
  simp only [crc32NoComp]
  rw [foldl_doCrc, crcWords_eq]
  split
  · exact crcAlign_eq buf crc addr
  · rfl

theorem crc32_eq (crc : BitVec 32) (addr : Nat) (p : List UInt8) :
    crc32 crc addr p = crcBytes (crc ^^^ 0xffffffff) p ^^^ 0xffffffff := by
  rw [crc32, crc32NoComp_eq]

/-- A check may be continued over the next part of a buffer. -/
theorem crc32_append (crc : BitVec 32) (addr addr' addr'' : Nat) (p q : List UInt8) :
    crc32 (crc32 crc addr p) addr' q = crc32 crc addr'' (p ++ q) := by
  rw [crc32_eq, crc32_eq, crc32_eq, BitVec.xor_assoc (crcBytes _ _), BitVec.xor_self,
    BitVec.xor_zero, crcBytes_append]

/-- The bits of a buffer in the order in which the check takes them. -/
def bufBits (p : List UInt8) : List (BitVec 1) :=
  (p.map UInt8.toBitVec).flatMap symbolBits

/-- Buffers that differ only within 32 bits one after the other have different checks, wherever they
lie and whatever is before and behind the difference. -/
theorem crc32_burst (crc : BitVec 32) (addr addr' : Nat) {p q : List UInt8}
    {pre xs ys suf : List (BitVec 1)} (hp : bufBits p = pre ++ xs ++ suf)
    (hq : bufBits q = pre ++ ys ++ suf) (hlen : xs.length = ys.length) (h32 : xs.length ≤ 32)
    (hne : xs ≠ ys) : crc32 crc addr p ≠ crc32 crc addr' q := by
  intro h
  rw [crc32_eq, crc32_eq] at h
  have h' := congrArg (· ^^^ (0xffffffff : BitVec 32)) h
  simp only [BitVec.xor_assoc, BitVec.xor_self, BitVec.xor_zero] at h'
  rw [crcBytes, crcBytes, ← foldl_symbolBits crcPoly (by decide) (p.map UInt8.toBitVec),
    ← foldl_symbolBits crcPoly (by decide) (q.map UInt8.toBitVec)] at h'
  change (bufBits p).foldl _ _ = (bufBits q).foldl _ _ at h'
  rw [hp, hq] at h'
  exact crc_burst crcPoly_msb _ pre suf hlen (by rw [Nat.one_mul]; exact h32) hne h'

theorem crc32_burst_one_bit : crc32 0 0 [0x31, 0x32] ≠ crc32 0 1 [0x33, 0x32] :=
  crc32_burst 0 0 1
    (show bufBits [0x31, 0x32] = [1] ++ [0] ++ [0, 0, 1, 1, 0, 0, 0, 1, 0, 0, 1, 1, 0, 0] by decide)
    (show bufBits [0x33, 0x32] = [1] ++ [1] ++ [0, 0, 1, 1, 0, 0, 0, 1, 0, 0, 1, 1, 0, 0] by decide)
    (by decide) (by decide) (by decide)

end Env
end CanmvK230
