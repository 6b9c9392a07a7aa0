import CanmvK230.Boot.Check

/-!
# SecureBoot — what the fuse enforces

Bit 0 of the product-misc word in the OTP turns plain images off; only images signed with the key
whose hash was burnt into the OTP are meant to boot from then on. Signatures are taken to be
unforgeable: what verifies under that key is a message its owner signed (`Unforgeable`).

Main results:
* `gcmOnly_accepted`: whoever can seal a payload with the key in the source gets it accepted, whatever
  the OTP holds;
* `enforced_iff`: this is the only way around the owner's signature.
-/

namespace CanmvK230
namespace Boot

open Lib

/-! ## Signatures -/

/-- The key in the header is the one the OTP names, and its signature over `message` verified: over
the GCM tag for RSA, over the payload for SM2. -/
inductive SignedByOtpKey (pufs : Pufs) (m : ByteMem) (pfh : Nat) : (message : List UInt8) → Prop
  | rsa (htype : (headAt m pfh).cryptoType = CryptoType.internationalSecurity.code)
      (hpuk : PukMatches pufs .rsa .sha256 ((headAt m pfh).field 0 260))
      (hsig : pufs.rsaP1v15Verify (headAt m pfh).rsaSignature (headAt m pfh).rsaN
        (headAt m pfh).rsaE (gcmTag m pfh) = true) : SignedByOtpKey pufs m pfh (gcmTag m pfh)
  | sm2 (htype : (headAt m pfh).cryptoType = CryptoType.chineseSecurity.code)
      (hpuk : PukMatches pufs .sm2 .sm3 ((headAt m pfh).field 0 452))
      (hsig : pufs.sm2Verify (headAt m pfh).sm2R (headAt m pfh).sm2S (payload m pfh)
        (sm2Id m pfh) (headAt m pfh).sm2Pukx (headAt m pfh).sm2Puky = true) :
      SignedByOtpKey pufs m pfh (payload m pfh)

/-- What verifies under a key with the hash in the OTP is a message that the owner of the key signed.
A key is given by the bytes that are hashed, as they stand in a header. -/
structure Unforgeable (pufs : Pufs) (signed : Set (List UInt8)) : Prop where
  -- The key is cut into `n` and `e`, and into `pukx` and `puky`, as the union of the header is.
  rsa : ∀ puk signature message, PukMatches pufs .rsa .sha256 puk →
    pufs.rsaP1v15Verify signature ((puk.drop 0).take 256)
      (UInt32.ofNat (leNat ((puk.drop 256).take 4))) message = true → message ∈ signed
  sm2 : ∀ puk r s message id, PukMatches pufs .sm2 .sm3 puk →
    pufs.sm2Verify r s message id ((puk.drop 388).take 32) ((puk.drop 420).take 32) = true →
      message ∈ signed

section
variable {pl : Platform} {pufs : Pufs} {m : ByteMem} {pfh : Nat} {signed : Set (List UInt8)}

theorem Unforgeable.mem_signed (hunf : Unforgeable pufs signed) {message : List UInt8}
    (h : SignedByOtpKey pufs m pfh message) : message ∈ signed := by
  -- The fields that verify the signature are parts of the bytes that were hashed.
  cases h with
  | rsa _ hpuk hsig =>
      apply hunf.rsa _ (headAt m pfh).rsaSignature _ hpuk
      rw [FirmwareHead.take_drop_field _ (by decide), FirmwareHead.take_drop_field _ (by decide)]
      exact hsig
  | sm2 _ hpuk hsig =>
      apply hunf.sm2 _ (headAt m pfh).sm2R (headAt m pfh).sm2S _ (sm2Id m pfh) hpuk
      rw [FirmwareHead.take_drop_field _ (by decide), FirmwareHead.take_drop_field _ (by decide)]
      exact hsig

/-! ## Enforcement -/

/-- Bit 0 of the product-misc word is set: no read of the word says otherwise. -/
def FuseSet (pufs : Pufs) : Prop :=
  ∀ w, pufs.readProductMisc = some w → w &&& 1 = 1

/-- An accepted image was verified with the key the OTP names, and what was verified is a message its
owner signed. -/
def Enforced (pl : Platform) (signed : Set (List UInt8)) (m : ByteMem) (pfh : Nat) : Prop :=
  ∀ r, k230BootCheckAndGetPlainData pl m pfh = .ok r →
    ∃ message, SignedByOtpKey pl.pufs m pfh message ∧ message ∈ signed

/-- A `GCM_ONLY` image that opens under the key and nonce written in the source. -/
def SealedWithPublicKey (pufs : Pufs) (m : ByteMem) (pfh : Nat) : Prop :=
  (headAt m pfh).magic = k230ImageMagicNum ∧
    (headAt m pfh).cryptoType = CryptoType.gcmOnly.code ∧
    (pufs.decGcmPoc gcmKey gcmIv (gcmText m pfh) (gcmTag m pfh)).isSome = true

theorem FuseSet.not_fuseClear (hfuse : FuseSet pufs) : ¬ FuseClear pufs := by
  intro hclear
  rcases hclear with ⟨w, hread, hzero⟩
  have hone := hfuse w hread
  rw [hzero] at hone
  exact absurd hone (by decide)

/-- No fuse and no OTP key stands in the way of an image sealed with the key in the source. -/
theorem gcmOnly_accepted (hpufs : pl.k230Pufs = true) (hhash : pl.pufs.HashTotal)
    (hsealed : SealedWithPublicKey pl.pufs m pfh) :
    ∃ plaint, k230BootCheckAndGetPlainData pl m pfh = .ok (Plain.decrypted pl m plaint) := by
  rcases hsealed with ⟨hmagic, htype, hopen⟩
  rcases Option.isSome_iff_exists.1 hopen with ⟨plaint, hdec⟩
  exact ⟨plaint, (check_eq_ok_iff hhash).2 ⟨hmagic, .gcm hpufs (.gcmOnly htype hdec)⟩⟩

/-- Every other accepted image carries a signature under the OTP key. -/
theorem Accepts.exists_signed (hpufs : pl.k230Pufs = true) (hfuse : FuseSet pl.pufs) {r : Plain}
    (hmagic : (headAt m pfh).magic = k230ImageMagicNum)
    (hnot : ¬ SealedWithPublicKey pl.pufs m pfh) (h : Accepts pl m pfh r) :
    ∃ message, SignedByOtpKey pl.pufs m pfh message := by
  -- One exit after the other: the fuse closes the first, a signature guards two of the others.
  cases h with
  | noneSecurity _ hclear _ _ => exact absurd (hclear hpufs) hfuse.not_fuseClear
  | gcm _ hopens =>
      cases hopens with
      | international htype hpuk hsig _ => exact ⟨_, .rsa htype hpuk hsig⟩
      | gcmOnly htype hdec =>
          have hsome : (pl.pufs.decGcmPoc gcmKey gcmIv (gcmText m pfh) (gcmTag m pfh)).isSome := by
            rw [hdec]
            rfl
          exact absurd ⟨hmagic, htype, hsome⟩ hnot
  | chinese _ htype hpuk hsig _ => exact ⟨_, .sm2 htype hpuk hsig⟩
  | unchecked hno _ =>
      rw [hpufs] at hno
      cases hno

/-- With the fuse set, the owner's signature is enforced exactly for the images that are not sealed
with the public key. -/
theorem enforced_iff (hpufs : pl.k230Pufs = true) (hhash : pl.pufs.HashTotal)
    (hfuse : FuseSet pl.pufs) (hunf : Unforgeable pl.pufs signed) :
    Enforced pl signed m pfh ↔ ¬ SealedWithPublicKey pl.pufs m pfh := by
  constructor
  · intro henforced hsealed
    rcases gcmOnly_accepted hpufs hhash hsealed with ⟨plaint, hok⟩
    rcases henforced _ hok with ⟨message, hsigned, -⟩
    -- A signed image has one of the two signed types.
    cases hsigned with
    | rsa htype _ _ => exact absurd (htype.symm.trans hsealed.2.1) (by decide)
    | sm2 htype _ _ => exact absurd (htype.symm.trans hsealed.2.1) (by decide)
  · intro hnot r hok
    rcases (check_eq_ok_iff hhash).1 hok with ⟨hmagic, haccepts⟩
    rcases haccepts.exists_signed hpufs hfuse hmagic hnot with ⟨message, hsigned⟩
    exact ⟨message, hsigned, hunf.mem_signed hsigned⟩

end

/-! ## A fused board -/

/-- The hashes of the two public keys of `firmware_gen.py`, as it prints them. -/
def rsaPukHash : Digest :=
  ⟨[0x44, 0x3c, 0xaa, 0x7e, 0xbf, 0x29, 0xb7, 0xa1, 0x5a, 0xaf, 0x65, 0x3c, 0x83, 0xb2, 0xc4, 0x5f,
    0xdb, 0xd8, 0x4d, 0x92, 0xde, 0x63, 0x3a, 0x35, 0x41, 0x4a, 0x7f, 0x68, 0xce, 0x0e, 0xf3, 0x20], rfl⟩

def sm2PukHash : Digest :=
  ⟨[0xcc, 0xcd, 0x0a, 0x70, 0xee, 0x49, 0xa7, 0x07, 0x17, 0x67, 0xdd, 0x58, 0x9b, 0x57, 0x12, 0x3b,
    0x83, 0x63, 0x43, 0x4d, 0x2b, 0x3f, 0xfb, 0x8e, 0x00, 0x15, 0xf6, 0xdc, 0xf9, 0xb3, 0x5e, 0x74], rfl⟩

/-- The version bytes alone, sealed with AES-256-GCM under `gcmKey` and `gcmIv`. -/
def sealedText : List UInt8 := [0xcc, 0x8f, 0xff, 0xad]

def sealedTag : List UInt8 :=
  [0x6f, 0x40, 0x38, 0x77, 0xaa, 0x13, 0xa8, 0x24, 0xb5, 0xd5, 0xae, 0x29, 0x05, 0x4b, 0x60, 0xbc]

/-- A board with the fuse set and both key hashes burnt, whose owner has signed nothing yet; GCM is
tabulated at the sealed text. -/
def fusedPufs : Pufs where
  readProductMisc := some 1
  readPukHash
    | .rsa => some rsaPukHash
    | .sm2 => some sm2PukHash
  hash _ _ := some Digest.zero
  rsaP1v15Verify _ _ _ _ := false
  decGcm _ _ _ := none
  sm2Verify _ _ _ _ _ _ := false
  decCbc _ _ := none
  decGcmPoc key iv text tag :=
    if key = gcmKey ∧ iv = gcmIv ∧ text = sealedText ∧ tag = sealedTag then some [0, 0, 0, 0]
    else none

def fusedPlatform : Platform where
  k230Pufs := true
  pufs := fusedPufs
  sha256CsumWd _ := Digest.zero
  md := Digest.zero
  configMemBaseAddr := 0
  configMemTotalSize := 128 * 1024 * 1024

theorem fusedPufs_hashTotal : fusedPufs.HashTotal := by
  intro algo message
  exact ⟨_, rfl⟩

theorem fusedPufs_fuseSet : FuseSet fusedPufs := by
  intro w hw
  obtain rfl := Option.some.inj hw
  decide

theorem fusedPufs_unforgeable : Unforgeable fusedPufs ∅ := by
  refine ⟨?_, ?_⟩
  · intro puk signature message _ h
    cases h
  · intro puk r s message id _ h
    cases h

def plainHead (cryptoType : CryptoType) (length : UInt32) : FirmwareHead where
  magic := k230ImageMagicNum
  length := length
  cryptoType := cryptoType.code
  verify := List.replicate 516 0
  verify_length := List.length_replicate

/-- The sealed text behind a header of the given type. -/
def sealedMem (cryptoType : CryptoType) : ByteMem :=
  ByteMem.write (fun _ => 0) 0x1000
    ((plainHead cryptoType 20).toBytes ++ (sealedText ++ sealedTag))

theorem holdsImage_sealedMem (cryptoType : CryptoType) :
    HoldsImage (sealedMem cryptoType) 0x1000 (plainHead cryptoType 20) (sealedText ++ sealedTag) :=
  HoldsImage.write _ _ _ _

/-- As a plain image it is refused on this board. -/
theorem enforced_plain_image :
    FuseSet fusedPufs ∧ Unforgeable fusedPufs ∅ ∧
      Enforced fusedPlatform ∅ (sealedMem .noneSecurity) 0x1000 := by
  refine ⟨fusedPufs_fuseSet, fusedPufs_unforgeable, ?_⟩
  apply (enforced_iff rfl fusedPufs_hashTotal fusedPufs_fuseSet fusedPufs_unforgeable).2
  intro hsealed
  have htype := hsealed.2.1
  rw [(holdsImage_sealedMem .noneSecurity).headAt_eq] at htype
  exact absurd htype (by decide)

theorem sealedMem_sealed : SealedWithPublicKey fusedPufs (sealedMem .gcmOnly) 0x1000 := by
  have hhead := (holdsImage_sealedMem .gcmOnly).headAt_eq
  have hpayload : payload (sealedMem .gcmOnly) 0x1000 = sealedText ++ sealedTag :=
    (holdsImage_sealedMem .gcmOnly).payload_eq (by decide)
  -- The loader cuts the payload where the text ends.
  rcases gcm_parts_unique hpayload (by decide) with ⟨-, htext, htag⟩
  refine ⟨by rw [hhead]; rfl, by rw [hhead]; rfl, ?_⟩
  rw [← htext, ← htag]
  decide

/-- As a `GCM_ONLY` image it is accepted, though the owner signed nothing. -/
theorem sealed_image_accepted :
    FuseSet fusedPufs ∧ Unforgeable fusedPufs ∅ ∧
      (∃ plaint, k230BootCheckAndGetPlainData fusedPlatform (sealedMem .gcmOnly) 0x1000 =
        .ok (Plain.decrypted fusedPlatform (sealedMem .gcmOnly) plaint)) ∧
      ¬ Enforced fusedPlatform ∅ (sealedMem .gcmOnly) 0x1000 := by
  have hok : ∃ plaint, k230BootCheckAndGetPlainData fusedPlatform (sealedMem .gcmOnly) 0x1000 =
      .ok (Plain.decrypted fusedPlatform (sealedMem .gcmOnly) plaint) :=
    gcmOnly_accepted rfl fusedPufs_hashTotal sealedMem_sealed
  refine ⟨fusedPufs_fuseSet, fusedPufs_unforgeable, hok, ?_⟩
  intro henforced
  rcases hok with ⟨plaint, hplaint⟩
  rcases henforced _ hplaint with ⟨message, -, hmem⟩
  exact hmem

end Boot
end CanmvK230
