import CanmvK230.Boot.Check

/-!
# FirmwareGen — the script that writes firmware images

`firmware_gen.py` puts four version bytes in front of its input and writes an image in one of three
forms: `-n` (hash only), `-a` (AES-GCM, the tag signed with RSA) and `-s` (SM4-CBC, signed with SM2).
Its crypto libraries are the parameter `Gen`; its keys are constants of the script.

Main results:
* `firmwareGen_nonEncryption`, `firmwareGen_aes`, `firmwareGen_sm4`: the image of each form is a header
  in the layout of `firmware_head_s` and a message behind it.
-/

namespace CanmvK230
namespace Boot

open Lib

/-! ## Keys -/

/-- The RSA modulus `N` of the script. -/
def genN : List UInt8 :=
  [0xce, 0xa8, 0x04, 0x75, 0x32, 0x4c, 0x1d, 0xc8, 0x34, 0x78, 0x27, 0x81, 0x8d, 0xa5, 0x8b, 0xac,
    0x06, 0x9d, 0x34, 0x19, 0xc6, 0x14, 0xa6, 0xea, 0x1a, 0xc6, 0xa3, 0xb5, 0x10, 0xdc, 0xd7, 0x2c,
    0xc5, 0x16, 0x95, 0x49, 0x05, 0xe9, 0xfe, 0xf9, 0x08, 0xd4, 0x5e, 0x13, 0x00, 0x6a, 0xdf, 0x27,
    0xd4, 0x67, 0xa7, 0xd8, 0x3c, 0x11, 0x1d, 0x1a, 0x5d, 0xf1, 0x5e, 0xf2, 0x93, 0x77, 0x1a, 0xef,
    0xb9, 0x20, 0x03, 0x2a, 0x5b, 0xb9, 0x89, 0xf8, 0xe4, 0xf5, 0xe1, 0xb0, 0x50, 0x93, 0xd3, 0xf1,
    0x30, 0xf9, 0x84, 0xc0, 0x7a, 0x77, 0x2a, 0x36, 0x83, 0xf4, 0xdc, 0x6f, 0xb2, 0x8a, 0x96, 0x81,
    0x5b, 0x32, 0x12, 0x3c, 0xcd, 0xd1, 0x39, 0x54, 0xf1, 0x9d, 0x5b, 0x8b, 0x24, 0xa1, 0x03, 0xe7,
    0x71, 0xa3, 0x4c, 0x32, 0x87, 0x55, 0xc6, 0x5e, 0xd6, 0x4e, 0x19, 0x24, 0xff, 0xd0, 0x4d, 0x30,
    0xb2, 0x14, 0x2c, 0xc2, 0x62, 0xf6, 0xe0, 0x04, 0x8f, 0xef, 0x6d, 0xbc, 0x65, 0x2f, 0x21, 0x47,
    0x9e, 0xa1, 0xc4, 0xb1, 0xd6, 0x6d, 0x28, 0xf4, 0xd4, 0x6e, 0xf7, 0x18, 0x5e, 0x39, 0x0c, 0xbf,
    0xa2, 0xe0, 0x23, 0x80, 0x58, 0x2f, 0x31, 0x88, 0xbb, 0x94, 0xeb, 0xbf, 0x05, 0xd3, 0x14, 0x87,
    0xa0, 0x9a, 0xff, 0x01, 0xfc, 0xbb, 0x4c, 0xd4, 0xbf, 0xd1, 0xf0, 0xa8, 0x33, 0xb3, 0x8c, 0x11,
    0x81, 0x3c, 0x84, 0x36, 0x0b, 0xb5, 0x3c, 0x7d, 0x44, 0x81, 0x03, 0x1c, 0x40, 0xba, 0xd8, 0x71,
    0x3b, 0xb6, 0xb8, 0x35, 0xcb, 0x08, 0x09, 0x8e, 0xd1, 0x5b, 0xa3, 0x1e, 0xe4, 0xba, 0x72, 0x8a,
    0x8c, 0x8e, 0x10, 0xf7, 0x29, 0x4e, 0x1b, 0x41, 0x63, 0xb7, 0xae, 0xe5, 0x72, 0x77, 0xbf, 0xd8,
    0x81, 0xa6, 0xf9, 0xd4, 0x3e, 0x02, 0xc6, 0x92, 0x5a, 0xa3, 0xa0, 0x43, 0xfb, 0x7f, 0xb7, 0x8d]

/-- The RSA exponent `E`, 0x260445. -/
def genE : Nat := 0x260445

def genPublicKeyX : List UInt8 :=
  [0x09, 0xf9, 0xdf, 0x31, 0x1e, 0x54, 0x21, 0xa1, 0x50, 0xdd, 0x7d, 0x16, 0x1e, 0x4b, 0xc5, 0xc6,
    0x72, 0x17, 0x9f, 0xad, 0x18, 0x33, 0xfc, 0x07, 0x6b, 0xb0, 0x8f, 0xf3, 0x56, 0xf3, 0x50, 0x20]

def genPublicKeyY : List UInt8 :=
  [0xcc, 0xea, 0x49, 0x0c, 0xe2, 0x67, 0x75, 0xa5, 0x2d, 0xc6, 0xea, 0x71, 0x8c, 0xc1, 0xaa, 0x60,
    0x0a, 0xed, 0x05, 0xfb, 0xf3, 0x5e, 0x08, 0x4a, 0x66, 0x32, 0xf6, 0x07, 0x2d, 0xa9, 0xad, 0x13]

/-- The identity `ID` of the SM2 signer. -/
def genId : List UInt8 := ascii "1234567812345678"

/-- The crypto libraries of the script, with its keys and nonces applied. -/
structure Gen where
  sha256 : List UInt8 → Digest
  /-- Ciphertext and tag of AES-256-GCM. -/
  aesGcmEncrypt : List UInt8 → List UInt8 × { tag : List UInt8 // tag.length = 16 }
  /-- PKCS #1 v1.5 over SHA-256, with the private key `D`. -/
  rsaSign : List UInt8 → { signature : List UInt8 // signature.length = 256 }
  /-- SM4-CBC with PKCS #7 padding. -/
  sm4Encrypt : List UInt8 → List UInt8
  /-- The components `r` and `s` of the SM2 signature. -/
  sm2Sign : List UInt8 → Digest × Digest

inductive GenOpt where
  | aes
  | sm4
  | nonEncryption
deriving DecidableEq, Repr

/-! ## The script -/

def genVersion : List UInt8 := [0, 0, 0, 0]

def genMagic : List UInt8 := [0x4b, 0x32, 0x33, 0x30]

/-- `n.to_bytes(4, 'little', signed=True)`, which raises on overflow. -/
def toBytes4 (n : Nat) : Option (List UInt8) :=
  if n < 2 ^ 31 then some (toLe 4 n) else none

def hashFormat (hashData : List UInt8) : List UInt8 :=
  hashData ++ List.replicate (516 - 32) 0

def rsaFormat (signedData : List UInt8) : Option (List UInt8) := do
  let exponent ← toBytes4 genE
  return genN ++ exponent ++ signedData

def sm2Format (r s : List UInt8) : Option (List UInt8) := do
  let lenId ← toBytes4 genId.length
  let id := genId ++ List.replicate (512 - 32 * 4 - genId.length) 0
  return lenId ++ id ++ genPublicKeyX ++ genPublicKeyY ++ r ++ s

/-- One round of the loop over the options: what has been written so far and the message that will
be written behind it. -/
def genOption (g : Gen) (inputData : List UInt8) (st : List UInt8 × List UInt8) :
    GenOpt → Option (List UInt8 × List UInt8)
  | .aes => do
      -- The tag is the last part of the message and the only part that is signed.
      let (text, tag) := g.aesGcmEncrypt inputData
      let message := text ++ tag.1
      let dataLen ← toBytes4 message.length
      let encryptoType ← toBytes4 2
      let head ← rsaFormat (g.rsaSign tag.1).1
      return (st.1 ++ dataLen ++ encryptoType ++ head, message)
  | .sm4 => do
      -- The whole ciphertext, padding included, is signed and counted.
      let message := g.sm4Encrypt inputData
      let dataLen ← toBytes4 message.length
      let encryptoType ← toBytes4 1
      let (r, s) := g.sm2Sign message
      let head ← sm2Format r.1 s.1
      return (st.1 ++ dataLen ++ encryptoType ++ head, message)
  | .nonEncryption => do
      -- The message stays what the loop started with: the input behind its version.
      let dataLen ← toBytes4 inputData.length
      let encryptoType ← toBytes4 0
      return (st.1 ++ dataLen ++ encryptoType ++ hashFormat (g.sha256 inputData).1, st.2)

/-- The file written for the input `p`. -/
def firmwareGen (g : Gen) (opts : List GenOpt) (p : List UInt8) : Option (List UInt8) := do
  let inputData := genVersion ++ p
  let st ← opts.foldlM (genOption g inputData) (genMagic, inputData)
  return st.1 ++ st.2

/-! ## The images it writes -/

theorem toBytes4_of_lt {n : Nat} (hn : n < 2 ^ 31) : toBytes4 n = some (toLe 4 n) :=
  if_pos hn

theorem toBytes4_of_not_lt {n : Nat} (hn : ¬ n < 2 ^ 31) : toBytes4 n = none :=
  if_neg hn

theorem length_genN : genN.length = 256 := by
  decide +kernel

/-- A header with the magic number of the script. -/
def genHead (length : Nat) (encryptoType : UInt32) (verify : List UInt8)
    (hverify : verify.length = 516) : FirmwareHead where
  magic := k230ImageMagicNum
  length := UInt32.ofNat length
  cryptoType := encryptoType
  verify := verify
  verify_length := hverify

/-- What the script writes before the message is such a header. -/
theorem toBytes_genHead {length encryptoType : Nat} {verify : List UInt8}
    (hverify : verify.length = 516) (hlength : length < 2 ^ 31) (htype : encryptoType < 2 ^ 31) :
    (genHead length (UInt32.ofNat encryptoType) verify hverify).toBytes =
      genMagic ++ toLe 4 length ++ toLe 4 encryptoType ++ verify := by
  have hnat : ∀ n < 2 ^ 31, (UInt32.ofNat n).toNat = n := by
    intro n hn
    exact UInt32.toNat_ofNat_of_lt' (Nat.lt_trans hn (by decide))
  have hmagic : toLe 4 k230ImageMagicNum.toNat = genMagic := by
    decide
  rw [FirmwareHead.toBytes, genHead, hnat _ hlength, hnat _ htype, hmagic]

theorem length_hashFormat (d : Digest) : (hashFormat d.1).length = 516 := by
  rw [hashFormat, List.length_append, List.length_replicate, d.2]

/-- The header of a plain image. -/
def noneHead (g : Gen) (p : List UInt8) : FirmwareHead :=
  genHead (4 + p.length) (UInt32.ofNat 0) (hashFormat (g.sha256 (genVersion ++ p)).1)
    (length_hashFormat _)

theorem length_genVersion_append (p : List UInt8) : (genVersion ++ p).length = 4 + p.length := by
  rw [List.length_append]
  rfl

/-- `-n`: a header with the hash of version and input, then version and input themselves. -/
theorem firmwareGen_nonEncryption (g : Gen) {p : List UInt8} (hp : 4 + p.length < 2 ^ 31) :
    firmwareGen g [.nonEncryption] p = some ((noneHead g p).toBytes ++ (genVersion ++ p)) := by
  have hlen : toBytes4 (genVersion ++ p).length = some (toLe 4 (4 + p.length)) := by
    rw [length_genVersion_append]
    exact toBytes4_of_lt hp
  have htype : toBytes4 0 = some (toLe 4 0) := toBytes4_of_lt (by decide)
  rw [noneHead, toBytes_genHead _ hp (by decide)]
  simp only [firmwareGen, genOption, List.foldlM, hlen, htype, bind, Option.bind, pure]

/-- The public part of an RSA header is the key whose hash the script prints. -/
def genRsaPuk : List UInt8 := genN ++ toLe 4 genE

theorem length_genRsaPuk : genRsaPuk.length = 260 := by
  rw [genRsaPuk, List.length_append, length_toLe, length_genN]

theorem length_rsaVerify (signature : { bs : List UInt8 // bs.length = 256 }) :
    (genRsaPuk ++ signature.1).length = 516 := by
  rw [List.length_append, length_genRsaPuk, signature.2]

/-- Ciphertext and tag, the message of an `-a` image. -/
def aesMessage (g : Gen) (p : List UInt8) : List UInt8 :=
  (g.aesGcmEncrypt (genVersion ++ p)).1 ++ (g.aesGcmEncrypt (genVersion ++ p)).2.1

/-- The header of an `-a` image, with the number 2 that the script writes for its type. -/
def aesHead (g : Gen) (p : List UInt8) : FirmwareHead :=
  genHead (aesMessage g p).length (UInt32.ofNat 2)
    (genRsaPuk ++ (g.rsaSign (g.aesGcmEncrypt (genVersion ++ p)).2.1).1) (length_rsaVerify _)

theorem firmwareGen_aes {g : Gen} {p file : List UInt8} :
    firmwareGen g [.aes] p = some file ↔
      (aesMessage g p).length < 2 ^ 31 ∧ file = (aesHead g p).toBytes ++ aesMessage g p := by
  have htype : toBytes4 2 = some (toLe 4 2) := toBytes4_of_lt (by decide)
  have hexp : toBytes4 genE = some (toLe 4 genE) := toBytes4_of_lt (by decide)
  -- `to_bytes` raises when the message is too long, and nothing else can fail.
  by_cases hlen : (aesMessage g p).length < 2 ^ 31
  · have hdata := toBytes4_of_lt hlen
    rw [aesMessage] at hdata
    rw [aesHead, toBytes_genHead _ hlen (by decide)]
    simp only [firmwareGen, genOption, rsaFormat, List.foldlM, hdata, htype, hexp, bind,
      Option.bind, pure, Option.some.injEq, hlen, true_and]
    rw [aesMessage, genRsaPuk, eq_comm]
  · have hdata := toBytes4_of_not_lt hlen
    rw [aesMessage] at hdata
    simp only [firmwareGen, genOption, List.foldlM, hdata, bind, Option.bind, hlen, false_and,
      reduceCtorEq]

/-- The public part of an SM2 header. -/
def genSm2Puk : List UInt8 :=
  toLe 4 genId.length ++ (genId ++ List.replicate (512 - 32 * 4 - genId.length) 0) ++
    genPublicKeyX ++ genPublicKeyY

theorem length_genSm2Puk : genSm2Puk.length = 452 := by
  have hid : genId.length = 16 := by
    decide
  have hx : genPublicKeyX.length = 32 := by
    rfl
  have hy : genPublicKeyY.length = 32 := by
    rfl
  simp only [genSm2Puk, List.length_append, length_toLe, List.length_replicate, hid, hx, hy]

theorem length_sm2Verify (sig : Digest × Digest) :
    (genSm2Puk ++ sig.1.1 ++ sig.2.1).length = 516 := by
  rw [List.length_append, List.length_append, length_genSm2Puk, sig.1.2, sig.2.2]

def sm4Message (g : Gen) (p : List UInt8) : List UInt8 := g.sm4Encrypt (genVersion ++ p)

/-- The header of an `-s` image, with the number 1 that the script writes for its type. -/
def sm4Head (g : Gen) (p : List UInt8) : FirmwareHead :=
  genHead (sm4Message g p).length (UInt32.ofNat 1)
    (genSm2Puk ++ (g.sm2Sign (sm4Message g p)).1.1 ++ (g.sm2Sign (sm4Message g p)).2.1)
    (length_sm2Verify _)

theorem firmwareGen_sm4 {g : Gen} {p file : List UInt8} :
    firmwareGen g [.sm4] p = some file ↔
      (sm4Message g p).length < 2 ^ 31 ∧ file = (sm4Head g p).toBytes ++ sm4Message g p := by
  have htype : toBytes4 1 = some (toLe 4 1) := toBytes4_of_lt (by decide)
  have hid : toBytes4 genId.length = some (toLe 4 genId.length) := toBytes4_of_lt (by decide)
  by_cases hlen : (sm4Message g p).length < 2 ^ 31
  · have hdata := toBytes4_of_lt hlen
    rw [sm4Message] at hdata
    rw [sm4Head, toBytes_genHead _ hlen (by decide)]
    simp only [firmwareGen, genOption, sm2Format, List.foldlM, hdata, htype, hid, bind,
      Option.bind, pure, Option.some.injEq, hlen, true_and]
    rw [sm4Message, genSm2Puk, eq_comm]
  · have hdata := toBytes4_of_not_lt hlen
    rw [sm4Message] at hdata
    simp only [firmwareGen, genOption, List.foldlM, hdata, bind, Option.bind, hlen, false_and,
      reduceCtorEq]

end Boot
end CanmvK230
