import CanmvK230.Boot.FirmwareHead

/-!
# Check — the verification of a firmware image before it is used

`k230_boot_check_and_get_plain_data` decides from the crypto type of the header which check an image
has to pass and where its plaintext starts afterwards. Both build variants are modelled: with
`CONFIG_K230_PUFS` the three secure types go to `k230_boot_check_and_get_plain_data_securiy`, without
it they reach the end of the function.

The `pufs` library is not part of the tree; it is the parameter `Pufs`. A C function that returns
`0` and sets `*pplain_addr` is an `Except.ok`, a non-zero return value is the `Except.error`.

Above the code stands `Authentic`: what it means that the payload behind a header passed the check its
crypto type calls for. Main results:
* `check_eq_ok_iff`: the code returns `0` in the four ways of `Accepts` and no other;
* `Authentic.accepts`: an authentic image is accepted and its plaintext handed out;
* `Accepts.authentic`: the converse, and what it needs.
-/

namespace CanmvK230
namespace Boot

open Lib

/-! ## The crypto primitives -/

/-- A SHA-256 or SM3 digest. -/
abbrev Digest := { bs : List UInt8 // bs.length = 32 }

def Digest.zero : Digest := ⟨List.replicate 32 0, List.length_replicate⟩

inductive HashAlgo where
  | sha256
  | sm3
deriving DecidableEq, Repr

/-- The two OTP blocks that hold the hash of a public key. -/
inductive PukBlock where
  | rsa
  | sm2
deriving DecidableEq, Repr

/-- The part of the `pufs` library the boot path calls. `none` and `false` are return values other
than `SUCCESS`. -/
structure Pufs where
  /-- The product-misc word of the OTP. -/
  readProductMisc : Option UInt32
  readPukHash : PukBlock → Option Digest
  hash : HashAlgo → List UInt8 → Option Digest
  rsaP1v15Verify : (signature n : List UInt8) → (e : UInt32) → (message : List UInt8) → Bool
  /-- AES-256-GCM with the key of OTP slot 2. -/
  decGcm : (iv text tag : List UInt8) → Option (List UInt8)
  sm2Verify : (r s message id pukx puky : List UInt8) → Bool
  /-- SM4-CBC with the key of OTP slot 4. -/
  decCbc : (iv text : List UInt8) → Option (List UInt8)
  /-- AES-256-GCM with a key that the caller passes. -/
  decGcmPoc : (key iv text tag : List UInt8) → Option (List UInt8)

/-- What a build of the boot loader fixes, and the functions it runs on. -/
structure Platform where
  /-- Whether `CONFIG_K230_PUFS` is defined. -/
  k230Pufs : Bool
  pufs : Pufs
  sha256CsumWd : List UInt8 → Digest
  /-- What the stack holds in `md` before a hash is stored there. -/
  md : Digest
  configMemBaseAddr : Nat
  configMemTotalSize : Nat

def k230GetEncryptedImageLoadAddr (pl : Platform) : Nat :=
  pl.configMemBaseAddr + pl.configMemTotalSize - pl.configMemTotalSize / 3

def k230GetEncryptedImageDecryptAddr (pl : Platform) : Nat :=
  pl.configMemBaseAddr + pl.configMemTotalSize - pl.configMemTotalSize / 3 * 2

/-! ## The constants of the secure path -/

def gcmIv : List UInt8 :=
  [0x9f, 0xf1, 0x85, 0x63, 0xb9, 0x78, 0xec, 0x28, 0x1b, 0x3f, 0x27, 0x94]

def sm4Iv : List UInt8 :=
  [0x00, 0x01, 0x02, 0x03, 0x04, 0x05, 0x06, 0x07, 0x08, 0x09, 0x0a, 0x0b, 0x0c, 0x0d, 0x0e, 0x0f]

def gcmKey : List UInt8 :=
  [0x24, 0x50, 0x1a, 0xd3, 0x84, 0xe4, 0x73, 0x96, 0x3d, 0x47, 0x6e, 0xdc, 0xfe, 0x08, 0x20, 0x52,
    0x37, 0xac, 0xfd, 0x49, 0xb5, 0xb8, 0xf3, 0x38, 0x57, 0xf8, 0x11, 0x4e, 0x86, 0x3f, 0xec, 0x7f]

/-! ## The code -/

/-- The scheme that the comparisons with `pfh->crypto_type` select, if any. -/
def FirmwareHead.scheme (h : FirmwareHead) : Option CryptoType :=
  if h.cryptoType = CryptoType.noneSecurity.code then some .noneSecurity
  else if h.cryptoType = CryptoType.internationalSecurity.code then some .internationalSecurity
  else if h.cryptoType = CryptoType.chineseSecurity.code then some .chineseSecurity
  else if h.cryptoType = CryptoType.gcmOnly.code then some .gcmOnly
  else none

/-- What a successful check leaves: `*pplain_addr` where it was set, and the memory. -/
structure Plain where
  addr : Option Nat
  mem : ByteMem

/-- Go on with the value, or return `ret`. -/
def orRet {α : Type} (ret : Int) : Option α → Except Int α
  | some a => .ok a
  | none => .error ret

/-- Go on if `c` holds, or return `ret`. -/
def checkRet (ret : Int) (c : Bool) : Except Int Unit :=
  if c then .ok () else .error ret

/-- The first half of both signed types: the public key in the header is the one the OTP names. -/
def checkPuk (pufs : Pufs) (block : PukBlock) (algo : HashAlgo) (puk : List UInt8) :
    Except Int Unit := do
  let pukHashOtp ← orRet (-6) (pufs.readPukHash block)
  -- An OTP that was never written holds zeros, which is the hash of no key.
  checkRet (-18) (pukHashOtp != Digest.zero)
  let md ← orRet (-7) (pufs.hash algo puk)
  checkRet (-8) (md == pukHashOtp)

/-- The tag: the pointer `(char *)(pfh + 1) + pfh->length - 16` is 64 bits wide and does not wrap. -/
def gcmTag (m : ByteMem) (pfh : Nat) : List UInt8 :=
  m.read (payloadAddr pfh + (headAt m pfh).length.toNat - 16) 16

/-- The ciphertext: its length `pfh->length - 16` is computed in 32 bits. -/
def gcmText (m : ByteMem) (pfh : Nat) : List UInt8 :=
  m.read (payloadAddr pfh) ((headAt m pfh).length - 16).toNat

/-- The payload of `pfh->length` bytes after the header. -/
def payload (m : ByteMem) (pfh : Nat) : List UInt8 :=
  m.read (payloadAddr pfh) (headAt m pfh).length.toNat

/-- The identity of the SM2 signer, `idlen` bytes from the field `id`. -/
def sm2Id (m : ByteMem) (pfh : Nat) : List UInt8 :=
  m.read (pfh + 16) (headAt m pfh).sm2Idlen.toNat

def decInternational (pufs : Pufs) (m : ByteMem) (pfh : Nat) : Except Int (List UInt8) := do
  let h := headAt m pfh
  -- The hash covers `n` and `e`; the signature covers the tag, and the tag the ciphertext.
  checkPuk pufs .rsa .sha256 (h.field 0 (256 + 4))
  checkRet (-9) (pufs.rsaP1v15Verify h.rsaSignature h.rsaN h.rsaE (gcmTag m pfh))
  orRet (-10) (pufs.decGcm gcmIv (gcmText m pfh) (gcmTag m pfh))

def decChinese (pufs : Pufs) (m : ByteMem) (pfh : Nat) : Except Int (List UInt8) := do
  let h := headAt m pfh
  -- The hash covers everything in front of `r` and `s`; the signature covers the ciphertext.
  checkPuk pufs .sm2 .sm3 (h.field 0 (512 + 4 - 32 - 32))
  checkRet (-11) (pufs.sm2Verify h.sm2R h.sm2S (payload m pfh) (sm2Id m pfh) h.sm2Pukx h.sm2Puky)
  orRet (-12) (pufs.decCbc sm4Iv (payload m pfh))

def decGcmOnly (pufs : Pufs) (m : ByteMem) (pfh : Nat) : Except Int (List UInt8) :=
  -- No key of the OTP is asked for: the key is the constant in the source.
  orRet (-10) (pufs.decGcmPoc gcmKey gcmIv (gcmText m pfh) (gcmTag m pfh))

/-- The plaintext is written to the decryption address, which is handed out. -/
def Plain.decrypted (pl : Platform) (m : ByteMem) (plaint : List UInt8) : Plain :=
  ⟨some (k230GetEncryptedImageDecryptAddr pl), m.write (k230GetEncryptedImageDecryptAddr pl) plaint⟩

def k230BootCheckAndGetPlainDataSecuriy (pl : Platform) (m : ByteMem) (pfh : Nat) :
    Except Int Plain :=
  let h := headAt m pfh
  if h.cryptoType = CryptoType.internationalSecurity.code then
    Plain.decrypted pl m <$> decInternational pl.pufs m pfh
  else if h.cryptoType = CryptoType.chineseSecurity.code then
    Plain.decrypted pl m <$> decChinese pl.pufs m pfh
  else if h.cryptoType = CryptoType.gcmOnly.code then
    Plain.decrypted pl m <$> decGcmOnly pl.pufs m pfh
  else
    .error (-10)

/-- The branch of `NONE_SECURITY`. With the driver the fuse decides whether plain images are
supported, and a hash that could not be computed leaves `md` as the stack had it. -/
def checkNoneSecurity (pl : Platform) (m : ByteMem) (pfh : Nat) : Except Int Unit :=
  let h := headAt m pfh
  if pl.k230Pufs then do
    let otpMsc ← orRet (-4) pl.pufs.readProductMisc
    -- This is the only place where the fuse is read.
    checkRet (-5) (otpMsc &&& 1 == 0)
    let md := (pl.pufs.hash .sha256 (payload m pfh)).getD pl.md
    checkRet (-3) (md.1 == h.noneSecSignature)
  else
    checkRet (-3) ((pl.sha256CsumWd (payload m pfh)).1 == h.noneSecSignature)

def k230BootCheckAndGetPlainData (pl : Platform) (m : ByteMem) (pfh : Nat) : Except Int Plain :=
  let h := headAt m pfh
  if h.magic ≠ k230ImageMagicNum then
    .error 1
  else if h.cryptoType = CryptoType.noneSecurity.code then do
    checkNoneSecurity pl m pfh
    return ⟨some (payloadAddr pfh), m⟩
  else if h.cryptoType = CryptoType.chineseSecurity.code ∨
      h.cryptoType = CryptoType.internationalSecurity.code ∨
      h.cryptoType = CryptoType.gcmOnly.code then
    if pl.k230Pufs then
      k230BootCheckAndGetPlainDataSecuriy pl m pfh
    else
      -- The message "not enable k230 puf driver" is printed and `ret` is still 0.
      .ok ⟨none, m⟩
  else
    .error (-9)

/-! ## When a chain of checks succeeds -/

@[simp] theorem orRet_eq_ok {α : Type} {ret : Int} {o : Option α} {a : α} :
    orRet ret o = .ok a ↔ o = some a := by
  cases o <;> simp [orRet]

@[simp] theorem checkRet_eq_ok {ret : Int} {c : Bool} {u : Unit} :
    checkRet ret c = .ok u ↔ c = true := by
  cases c <;> simp [checkRet]

@[simp] theorem except_bind_eq_ok {α β : Type} {x : Except Int α} {f : α → Except Int β} {b : β} :
    (x >>= f) = .ok b ↔ ∃ a, x = .ok a ∧ f a = .ok b := by
  cases x <;> simp [bind, Except.bind]

@[simp] theorem except_map_eq_ok {α β : Type} {x : Except Int α} {f : α → β} {b : β} :
    f <$> x = .ok b ↔ ∃ a, x = .ok a ∧ f a = b := by
  cases x <;> simp [Functor.map, Except.map]

/-! ## What the checks establish -/

/-- The key in the header hashes to the key hash in the OTP, and the OTP holds one. -/
def PukMatches (pufs : Pufs) (block : PukBlock) (algo : HashAlgo) (puk : List UInt8) : Prop :=
  ∃ d, pufs.readPukHash block = some d ∧ d ≠ Digest.zero ∧ pufs.hash algo puk = some d

/-- Plain images are supported: the product-misc word can be read and its bit 0 is clear. -/
def FuseClear (pufs : Pufs) : Prop :=
  ∃ w, pufs.readProductMisc = some w ∧ w &&& 1 = 0

/-- The digest that a build compares with the one in the header. -/
def noneSecurityDigest (pl : Platform) (message : List UInt8) : Option Digest :=
  if pl.k230Pufs then pl.pufs.hash .sha256 message else some (pl.sha256CsumWd message)

/-- The `pufs` library always computes a hash it is asked for. -/
def Pufs.HashTotal (pufs : Pufs) : Prop :=
  ∀ algo message, ∃ d, pufs.hash algo message = some d

/-- `text` and `tag` are opened the way the header's crypto type says. -/
inductive GcmOpens (pufs : Pufs) (h : FirmwareHead) (text tag : List UInt8) : List UInt8 → Prop
  | international {plaint : List UInt8}
      (htype : h.cryptoType = CryptoType.internationalSecurity.code)
      (hpuk : PukMatches pufs .rsa .sha256 (h.field 0 260))
      (hsig : pufs.rsaP1v15Verify h.rsaSignature h.rsaN h.rsaE tag = true)
      (hdec : pufs.decGcm gcmIv text tag = some plaint) : GcmOpens pufs h text tag plaint
  | gcmOnly {plaint : List UInt8}
      (htype : h.cryptoType = CryptoType.gcmOnly.code)
      (hdec : pufs.decGcmPoc gcmKey gcmIv text tag = some plaint) : GcmOpens pufs h text tag plaint

/-- The payload behind the header at `pfh` passed the check that its crypto type calls for, and
stands for the given plaintext. -/
inductive Authentic (pl : Platform) (m : ByteMem) (pfh : Nat) : List UInt8 → Prop
  | noneSecurity {d : Digest}
      (htype : (headAt m pfh).cryptoType = CryptoType.noneSecurity.code)
      (hfuse : pl.k230Pufs = true → FuseClear pl.pufs)
      (hhash : noneSecurityDigest pl (payload m pfh) = some d)
      (hsig : d.1 = (headAt m pfh).noneSecSignature) : Authentic pl m pfh (payload m pfh)
  | gcm {text tag plaint : List UInt8}
      (hpayload : payload m pfh = text ++ tag) (htag : tag.length = 16)
      (hopens : GcmOpens pl.pufs (headAt m pfh) text tag plaint) : Authentic pl m pfh plaint
  | chinese {plaint : List UInt8}
      (htype : (headAt m pfh).cryptoType = CryptoType.chineseSecurity.code)
      (hpuk : PukMatches pl.pufs .sm2 .sm3 ((headAt m pfh).field 0 452))
      (hsig : pl.pufs.sm2Verify (headAt m pfh).sm2R (headAt m pfh).sm2S (payload m pfh)
        (sm2Id m pfh) (headAt m pfh).sm2Pukx (headAt m pfh).sm2Puky = true)
      (hdec : pl.pufs.decCbc sm4Iv (payload m pfh) = some plaint) : Authentic pl m pfh plaint

/-- The crypto types that need the `pufs` driver. -/
def SecureType (h : FirmwareHead) : Prop :=
  h.cryptoType = CryptoType.chineseSecurity.code ∨
    h.cryptoType = CryptoType.internationalSecurity.code ∨
    h.cryptoType = CryptoType.gcmOnly.code

instance (h : FirmwareHead) : Decidable (SecureType h) :=
  inferInstanceAs (Decidable (_ ∨ _ ∨ _))

/-- What is handed out for an image with that plaintext. -/
def released (pl : Platform) (m : ByteMem) (pfh : Nat) (plaint : List UInt8) : Plain :=
  if (headAt m pfh).cryptoType = CryptoType.noneSecurity.code then ⟨some (payloadAddr pfh), m⟩
  else Plain.decrypted pl m plaint

/-- The start of the plaintext. -/
def plainStart (pl : Platform) (m : ByteMem) (pfh : Nat) : Nat :=
  if (headAt m pfh).cryptoType = CryptoType.noneSecurity.code then payloadAddr pfh
  else k230GetEncryptedImageDecryptAddr pl

/-! ## The parts of the check -/

section
variable {pl : Platform} {pufs : Pufs} {m : ByteMem} {pfh : Nat} {plaint : List UInt8}

theorem checkPuk_eq_ok {block : PukBlock} {algo : HashAlgo} {puk : List UInt8} {u : Unit} :
    checkPuk pufs block algo puk = .ok u ↔ PukMatches pufs block algo puk := by
  constructor
  · intro h
    simp only [checkPuk, except_bind_eq_ok, orRet_eq_ok, checkRet_eq_ok, bne_iff_ne, beq_iff_eq] at h
    rcases h with ⟨d, hread, -, hne, d', hhash, rfl⟩
    exact ⟨d', hread, hne, hhash⟩
  · intro h
    rcases h with ⟨d, hread, hne, hhash⟩
    simp only [checkPuk, except_bind_eq_ok, orRet_eq_ok, checkRet_eq_ok, bne_iff_ne, beq_iff_eq]
    exact ⟨d, hread, (), hne, d, hhash, rfl⟩

theorem decInternational_eq_ok :
    decInternational pufs m pfh = .ok plaint ↔
      PukMatches pufs .rsa .sha256 ((headAt m pfh).field 0 260) ∧
      pufs.rsaP1v15Verify (headAt m pfh).rsaSignature (headAt m pfh).rsaN (headAt m pfh).rsaE
        (gcmTag m pfh) = true ∧
      pufs.decGcm gcmIv (gcmText m pfh) (gcmTag m pfh) = some plaint := by
  simp only [decInternational, except_bind_eq_ok, orRet_eq_ok, checkRet_eq_ok, checkPuk_eq_ok,
    exists_const]

theorem decChinese_eq_ok :
    decChinese pufs m pfh = .ok plaint ↔
      PukMatches pufs .sm2 .sm3 ((headAt m pfh).field 0 452) ∧
      pufs.sm2Verify (headAt m pfh).sm2R (headAt m pfh).sm2S (payload m pfh) (sm2Id m pfh)
        (headAt m pfh).sm2Pukx (headAt m pfh).sm2Puky = true ∧
      pufs.decCbc sm4Iv (payload m pfh) = some plaint := by
  simp only [decChinese, except_bind_eq_ok, orRet_eq_ok, checkRet_eq_ok, checkPuk_eq_ok,
    exists_const]

theorem decGcmOnly_eq_ok :
    decGcmOnly pufs m pfh = .ok plaint ↔
      pufs.decGcmPoc gcmKey gcmIv (gcmText m pfh) (gcmTag m pfh) = some plaint := by
  simp only [decGcmOnly, orRet_eq_ok]

theorem checkNoneSecurity_eq_ok (hhash : pl.pufs.HashTotal) {u : Unit} :
    checkNoneSecurity pl m pfh = .ok u ↔
      (pl.k230Pufs = true → FuseClear pl.pufs) ∧
      ∃ d, noneSecurityDigest pl (payload m pfh) = some d ∧
        d.1 = (headAt m pfh).noneSecSignature := by
  -- A hash that is computed leaves nothing of what the stack held in `md`.
  rcases hhash .sha256 (payload m pfh) with ⟨d, hd⟩
  cases hp : pl.k230Pufs with
  | true =>
      have hassoc : ∀ w, (pl.pufs.readProductMisc = some w ∧ w &&& 1 = 0 ∧
          d.1 = (headAt m pfh).noneSecSignature) ↔
          (pl.pufs.readProductMisc = some w ∧ w &&& 1 = 0) ∧
            d.1 = (headAt m pfh).noneSecSignature := by
        intro w
        exact and_assoc.symm
      simp [checkNoneSecurity, noneSecurityDigest, FuseClear, hp, hd, hassoc]
  | false =>
      simp [checkNoneSecurity, noneSecurityDigest, hp]

/-- A secure scheme in a build with the driver, or the end of the function without it. -/
def ifDriver (pl : Platform) (m : ByteMem) (dec : Except Int (List UInt8)) : Except Int Plain :=
  if pl.k230Pufs then Plain.decrypted pl m <$> dec else .ok ⟨none, m⟩

/-- Behind the magic number, the selected scheme alone decides which check is run. -/
theorem check_eq_scheme (hmagic : (headAt m pfh).magic = k230ImageMagicNum) :
    k230BootCheckAndGetPlainData pl m pfh =
      match (headAt m pfh).scheme with
      | some .noneSecurity => do
          checkNoneSecurity pl m pfh
          return ⟨some (payloadAddr pfh), m⟩
      | some .internationalSecurity => ifDriver pl m (decInternational pl.pufs m pfh)
      | some .chineseSecurity => ifDriver pl m (decChinese pl.pufs m pfh)
      | some .gcmOnly => ifDriver pl m (decGcmOnly pl.pufs m pfh)
      | none => .error (-9) := by
  by_cases hnone : (headAt m pfh).cryptoType = CryptoType.noneSecurity.code
  · simp [k230BootCheckAndGetPlainData, FirmwareHead.scheme, hmagic, hnone]
  by_cases hintl : (headAt m pfh).cryptoType = CryptoType.internationalSecurity.code
  · simp [k230BootCheckAndGetPlainData, k230BootCheckAndGetPlainDataSecuriy, FirmwareHead.scheme,
      ifDriver, hmagic, hintl, CryptoType.code]
  by_cases hchin : (headAt m pfh).cryptoType = CryptoType.chineseSecurity.code
  · simp [k230BootCheckAndGetPlainData, k230BootCheckAndGetPlainDataSecuriy, FirmwareHead.scheme,
      ifDriver, hmagic, hchin, CryptoType.code]
  by_cases hgcm : (headAt m pfh).cryptoType = CryptoType.gcmOnly.code
  · simp [k230BootCheckAndGetPlainData, k230BootCheckAndGetPlainDataSecuriy, FirmwareHead.scheme,
      ifDriver, hmagic, hgcm, CryptoType.code]
  · simp [k230BootCheckAndGetPlainData, FirmwareHead.scheme, hmagic, hnone, hintl, hchin, hgcm]

/-! ## Every way to return 0 -/

/-- The exits of `k230_boot_check_and_get_plain_data` with return value 0, the magic number apart. -/
inductive Accepts (pl : Platform) (m : ByteMem) (pfh : Nat) : Plain → Prop
  | noneSecurity {d : Digest}
      (htype : (headAt m pfh).cryptoType = CryptoType.noneSecurity.code)
      (hfuse : pl.k230Pufs = true → FuseClear pl.pufs)
      (hhash : noneSecurityDigest pl (payload m pfh) = some d)
      (hsig : d.1 = (headAt m pfh).noneSecSignature) :
      Accepts pl m pfh ⟨some (payloadAddr pfh), m⟩
  | gcm {plaint : List UInt8} (hpufs : pl.k230Pufs = true)
      (hopens : GcmOpens pl.pufs (headAt m pfh) (gcmText m pfh) (gcmTag m pfh) plaint) :
      Accepts pl m pfh (Plain.decrypted pl m plaint)
  | chinese {plaint : List UInt8} (hpufs : pl.k230Pufs = true)
      (htype : (headAt m pfh).cryptoType = CryptoType.chineseSecurity.code)
      (hpuk : PukMatches pl.pufs .sm2 .sm3 ((headAt m pfh).field 0 452))
      (hsig : pl.pufs.sm2Verify (headAt m pfh).sm2R (headAt m pfh).sm2S (payload m pfh)
        (sm2Id m pfh) (headAt m pfh).sm2Pukx (headAt m pfh).sm2Puky = true)
      (hdec : pl.pufs.decCbc sm4Iv (payload m pfh) = some plaint) :
      Accepts pl m pfh (Plain.decrypted pl m plaint)
  | unchecked (hpufs : pl.k230Pufs = false) (hsecure : SecureType (headAt m pfh)) :
      Accepts pl m pfh ⟨none, m⟩

theorem SecureType.ne_noneSecurity {h : FirmwareHead} (hsecure : SecureType h) :
    h.cryptoType ≠ CryptoType.noneSecurity.code := by
  rcases hsecure with h | h | h <;> rw [h] <;> decide

theorem GcmOpens.secureType {h : FirmwareHead} {text tag : List UInt8}
    (hopens : GcmOpens pufs h text tag plaint) : SecureType h := by
  cases hopens with
  | international htype _ _ _ => exact .inr (.inl htype)
  | gcmOnly htype _ => exact .inr (.inr htype)

theorem securiy_eq_ok_iff {r : Plain} (hpufs : pl.k230Pufs = true) :
    k230BootCheckAndGetPlainDataSecuriy pl m pfh = .ok r ↔
      (headAt m pfh).cryptoType ≠ CryptoType.noneSecurity.code ∧ Accepts pl m pfh r := by
  constructor
  · intro h
    simp only [k230BootCheckAndGetPlainDataSecuriy] at h
    split_ifs at h with hintl hchin hgcm
    · rcases except_map_eq_ok.1 h with ⟨plaint, hdec, rfl⟩
      rcases decInternational_eq_ok.1 hdec with ⟨hpuk, hsig, hgcm⟩
      exact ⟨SecureType.ne_noneSecurity (.inr (.inl hintl)),
        .gcm hpufs (.international hintl hpuk hsig hgcm)⟩
    · rcases except_map_eq_ok.1 h with ⟨plaint, hdec, rfl⟩
      rcases decChinese_eq_ok.1 hdec with ⟨hpuk, hsig, hcbc⟩
      exact ⟨SecureType.ne_noneSecurity (.inl hchin), .chinese hpufs hchin hpuk hsig hcbc⟩
    · rcases except_map_eq_ok.1 h with ⟨plaint, hdec, rfl⟩
      exact ⟨SecureType.ne_noneSecurity (.inr (.inr hgcm)),
        .gcm hpufs (.gcmOnly hgcm (decGcmOnly_eq_ok.1 hdec))⟩
  · intro h
    rcases h with ⟨hne, haccepts⟩
    cases haccepts with
    | noneSecurity htype _ _ _ => exact absurd htype hne
    | unchecked hno _ => rw [hpufs] at hno; cases hno
    | chinese _ htype hpuk hsig hdec =>
        have hrun := decChinese_eq_ok.2 ⟨hpuk, hsig, hdec⟩
        simp [k230BootCheckAndGetPlainDataSecuriy, htype, CryptoType.code, hrun]
    | gcm _ hopens =>
        cases hopens with
        | international htype hpuk hsig hdec =>
            have hrun := decInternational_eq_ok.2 ⟨hpuk, hsig, hdec⟩
            simp [k230BootCheckAndGetPlainDataSecuriy, htype, hrun]
        | gcmOnly htype hdec =>
            have hrun := decGcmOnly_eq_ok.2 hdec
            simp [k230BootCheckAndGetPlainDataSecuriy, htype, CryptoType.code, hrun]

/-- The check returns 0 exactly when the magic number is right and one of the four exits is taken. -/
theorem check_eq_ok_iff {r : Plain} (hhash : pl.pufs.HashTotal) :
    k230BootCheckAndGetPlainData pl m pfh = .ok r ↔
      (headAt m pfh).magic = k230ImageMagicNum ∧ Accepts pl m pfh r := by
  by_cases hmagic : (headAt m pfh).magic = k230ImageMagicNum
  swap
  · simp [k230BootCheckAndGetPlainData, hmagic]
  -- The type is plain, one of the three secure ones, or unknown.
  by_cases hnone : (headAt m pfh).cryptoType = CryptoType.noneSecurity.code
  · have hcode : k230BootCheckAndGetPlainData pl m pfh = .ok r ↔
        ∃ u, checkNoneSecurity pl m pfh = .ok u ∧
          (.ok ⟨some (payloadAddr pfh), m⟩ : Except Int Plain) = .ok r := by
      simp only [k230BootCheckAndGetPlainData, hmagic, hnone, ne_eq, not_true_eq_false, if_false,
        if_true, except_bind_eq_ok, pure, Except.pure]
    rw [hcode]
    constructor
    · intro h
      rcases h with ⟨u, hrun, hr⟩
      rcases (checkNoneSecurity_eq_ok hhash).1 hrun with ⟨hfuse, d, hd, hsig⟩
      obtain rfl := Except.ok.inj hr
      exact ⟨hmagic, .noneSecurity hnone hfuse hd hsig⟩
    · intro h
      rcases h with ⟨-, haccepts⟩
      cases haccepts with
      | noneSecurity _ hfuse hd hsig =>
          exact ⟨(), (checkNoneSecurity_eq_ok hhash).2 ⟨hfuse, _, hd, hsig⟩, rfl⟩
      | gcm _ hopens => exact absurd hnone hopens.secureType.ne_noneSecurity
      | chinese _ htype _ _ _ => exact absurd hnone (SecureType.ne_noneSecurity (.inl htype))
      | unchecked _ hsecure => exact absurd hnone hsecure.ne_noneSecurity
  by_cases hsecure : SecureType (headAt m pfh)
  · cases hp : pl.k230Pufs with
    | true =>
        have hcode : k230BootCheckAndGetPlainData pl m pfh =
            k230BootCheckAndGetPlainDataSecuriy pl m pfh := by
          simp [k230BootCheckAndGetPlainData, hmagic, hnone, show _ ∨ _ ∨ _ from hsecure, hp]
        rw [hcode, securiy_eq_ok_iff hp]
        simp [hnone, hmagic]
    | false =>
        -- The end of the function is reached with nothing checked.
        have hcode : k230BootCheckAndGetPlainData pl m pfh = .ok ⟨none, m⟩ := by
          simp [k230BootCheckAndGetPlainData, hmagic, hnone, show _ ∨ _ ∨ _ from hsecure, hp]
        rw [hcode]
        constructor
        · intro h
          obtain rfl := Except.ok.inj h
          exact ⟨hmagic, .unchecked hp hsecure⟩
        · intro h
          rcases h with ⟨-, haccepts⟩
          cases haccepts with
          | noneSecurity htype _ _ _ => exact absurd htype hnone
          | gcm hno _ => rw [hp] at hno; cases hno
          | chinese hno _ _ _ _ => rw [hp] at hno; cases hno
          | unchecked _ _ => rfl
  · have hcode : k230BootCheckAndGetPlainData pl m pfh = .error (-9) := by
      simp [k230BootCheckAndGetPlainData, hmagic, hnone, show ¬ (_ ∨ _ ∨ _) from hsecure]
    rw [hcode]
    constructor
    · intro h
      cases h
    · intro h
      rcases h with ⟨-, haccepts⟩
      cases haccepts with
      | noneSecurity htype _ _ _ => exact absurd htype hnone
      | gcm _ hopens => exact absurd hopens.secureType hsecure
      | chinese _ htype _ _ _ => exact absurd (.inl htype) hsecure
      | unchecked _ h => exact absurd h hsecure

/-! ## Authentic images are the accepted ones -/

/-- With room for the tag, ciphertext and tag are the payload cut in two. -/
theorem payload_eq_gcmText_append (h16 : 16 ≤ (headAt m pfh).length.toNat) :
    payload m pfh = gcmText m pfh ++ gcmTag m pfh := by
  have hle : (16 : UInt32) ≤ (headAt m pfh).length := UInt32.le_iff_toNat_le.2 h16
  -- With 16 bytes or more the 32-bit subtraction is the one over the naturals.
  have hsub : ((headAt m pfh).length - 16).toNat = (headAt m pfh).length.toNat - 16 :=
    UInt32.toNat_sub_of_le _ _ hle
  have haddr : payloadAddr pfh + (headAt m pfh).length.toNat - 16 =
      payloadAddr pfh + ((headAt m pfh).length.toNat - 16) := Nat.add_sub_assoc h16 _
  have hlen : (headAt m pfh).length.toNat = (headAt m pfh).length.toNat - 16 + 16 :=
    (Nat.sub_add_cancel h16).symm
  calc
    payload m pfh = m.read (payloadAddr pfh) ((headAt m pfh).length.toNat - 16 + 16) :=
      congrArg (m.read (payloadAddr pfh)) hlen
    _ = m.read (payloadAddr pfh) ((headAt m pfh).length.toNat - 16) ++
          m.read (payloadAddr pfh + ((headAt m pfh).length.toNat - 16)) 16 := m.read_add _ _ _
    _ = gcmText m pfh ++ gcmTag m pfh := by
      rw [gcmText, gcmTag, hsub, haddr]

@[simp] theorem length_payload : (payload m pfh).length = (headAt m pfh).length.toNat :=
  m.length_read _ _

/-- A payload that ends in a tag is cut where the code cuts it. -/
theorem gcm_parts_unique {text tag : List UInt8} (hpayload : payload m pfh = text ++ tag)
    (htag : tag.length = 16) :
    16 ≤ (headAt m pfh).length.toNat ∧ text = gcmText m pfh ∧ tag = gcmTag m pfh := by
  have hlen : (headAt m pfh).length.toNat = text.length + 16 := by
    rw [← length_payload, hpayload, List.length_append, htag]
  have h16 : 16 ≤ (headAt m pfh).length.toNat := by omega
  have hcut : text ++ tag = gcmText m pfh ++ gcmTag m pfh := by
    rw [← hpayload, payload_eq_gcmText_append h16]
  -- Two ways to cut one list that agree on the length of the second part agree.
  have htags : tag.length = (gcmTag m pfh).length := by
    rw [htag, gcmTag, ByteMem.length_read]
  exact ⟨h16, List.append_inj' hcut htags⟩

theorem GcmOpens.unique {h : FirmwareHead} {text tag plaint' : List UInt8}
    (hopens : GcmOpens pufs h text tag plaint) (hopens' : GcmOpens pufs h text tag plaint') :
    plaint = plaint' := by
  cases hopens with
  | international htype _ _ hdec =>
      cases hopens' with
      | international _ _ _ hdec' => exact Option.some.inj (hdec.symm.trans hdec')
      | gcmOnly htype' _ => exact absurd (htype.symm.trans htype') (by decide)
  | gcmOnly htype hdec =>
      cases hopens' with
      | international htype' _ _ _ => exact absurd (htype.symm.trans htype') (by decide)
      | gcmOnly _ hdec' => exact Option.some.inj (hdec.symm.trans hdec')

theorem GcmOpens.ne_chinese {h : FirmwareHead} {text tag : List UInt8}
    (hopens : GcmOpens pufs h text tag plaint) :
    h.cryptoType ≠ CryptoType.chineseSecurity.code := by
  cases hopens with
  | international htype _ _ _ => rw [htype]; decide
  | gcmOnly htype _ => rw [htype]; decide

/-- An image stands for one plaintext. -/
theorem Authentic.unique {plaint' : List UInt8} (h : Authentic pl m pfh plaint)
    (h' : Authentic pl m pfh plaint') : plaint = plaint' := by
  cases h with
  | noneSecurity htype _ _ _ =>
      cases h' with
      | noneSecurity _ _ _ _ => rfl
      | gcm _ _ hopens => exact absurd htype hopens.secureType.ne_noneSecurity
      | chinese htype' _ _ _ => exact absurd (htype.symm.trans htype') (by decide)
  | gcm hpayload htag hopens =>
      rcases gcm_parts_unique hpayload htag with ⟨-, rfl, rfl⟩
      cases h' with
      | noneSecurity htype _ _ _ => exact absurd htype hopens.secureType.ne_noneSecurity
      | gcm hpayload' htag' hopens' =>
          rcases gcm_parts_unique hpayload' htag' with ⟨-, rfl, rfl⟩
          exact hopens.unique hopens'
      | chinese htype' _ _ _ => exact absurd htype' hopens.ne_chinese
  | chinese htype _ _ hdec =>
      cases h' with
      | noneSecurity htype' _ _ _ => exact absurd (htype.symm.trans htype') (by decide)
      | gcm _ _ hopens => exact absurd htype hopens.ne_chinese
      | chinese _ _ _ hdec' => exact Option.some.inj (hdec.symm.trans hdec')

theorem released_of_noneSecurity
    (htype : (headAt m pfh).cryptoType = CryptoType.noneSecurity.code) :
    released pl m pfh plaint = ⟨some (payloadAddr pfh), m⟩ := by
  simp [released, htype]

theorem released_of_secureType (hsecure : SecureType (headAt m pfh)) :
    released pl m pfh plaint = Plain.decrypted pl m plaint := by
  simp [released, hsecure.ne_noneSecurity]

/-- An authentic image takes an exit with return value 0 and its plaintext is handed out. -/
theorem Authentic.accepts (hcfg : SecureType (headAt m pfh) → pl.k230Pufs = true)
    (h : Authentic pl m pfh plaint) : Accepts pl m pfh (released pl m pfh plaint) := by
  cases h with
  | noneSecurity htype hfuse hhash hsig =>
      rw [released_of_noneSecurity htype]
      exact .noneSecurity htype hfuse hhash hsig
  | gcm hpayload htag hopens =>
      rcases gcm_parts_unique hpayload htag with ⟨-, rfl, rfl⟩
      rw [released_of_secureType hopens.secureType]
      exact .gcm (hcfg hopens.secureType) hopens
  | chinese htype hpuk hsig hdec =>
      rw [released_of_secureType (.inl htype)]
      exact .chinese (hcfg (.inl htype)) htype hpuk hsig hdec

/-- Conversely an exit with return value 0 means an authentic image, in a build that can check its
type and unless `pfh->length - 16` wrapped. -/
theorem Accepts.authentic {r : Plain} (hcfg : SecureType (headAt m pfh) → pl.k230Pufs = true)
    (hroom : ∀ plaint, GcmOpens pl.pufs (headAt m pfh) (gcmText m pfh) (gcmTag m pfh) plaint →
      16 ≤ (headAt m pfh).length.toNat)
    (h : Accepts pl m pfh r) :
    ∃ plaint, Authentic pl m pfh plaint ∧ r = released pl m pfh plaint := by
  cases h with
  | noneSecurity htype hfuse hhash hsig =>
      exact ⟨_, .noneSecurity htype hfuse hhash hsig, (released_of_noneSecurity htype).symm⟩
  | gcm _ hopens =>
      have hpayload := payload_eq_gcmText_append (hroom _ hopens)
      exact ⟨_, .gcm hpayload (m.length_read _ _) hopens,
        (released_of_secureType hopens.secureType).symm⟩
  | chinese _ htype hpuk hsig hdec =>
      exact ⟨_, .chinese htype hpuk hsig hdec, (released_of_secureType (.inl htype)).symm⟩
  | unchecked hno hsecure =>
      -- A build that can check the type does not take this exit.
      rw [hcfg hsecure] at hno
      cases hno

theorem released_addr : (released pl m pfh plaint).addr = some (plainStart pl m pfh) := by
  rw [released, plainStart]
  split_ifs <;> rfl

/-- The plaintext stands at the address that was handed out. -/
theorem Authentic.read_released (h : Authentic pl m pfh plaint) :
    (released pl m pfh plaint).mem.read (plainStart pl m pfh) plaint.length = plaint := by
  -- The secure schemes write their plaintext themselves; a plain payload stays where it is.
  have hdecrypted : SecureType (headAt m pfh) →
      (released pl m pfh plaint).mem.read (plainStart pl m pfh) plaint.length = plaint := by
    intro hsecure
    rw [released_of_secureType hsecure, plainStart, if_neg hsecure.ne_noneSecurity]
    exact m.read_write _ _
  cases h with
  | noneSecurity htype _ _ _ =>
      rw [released_of_noneSecurity htype, plainStart, if_pos htype, length_payload]
      rfl
  | gcm _ _ hopens => exact hdecrypted hopens.secureType
  | chinese htype _ _ _ => exact hdecrypted (.inl htype)

/-! ## Images in memory -/

/-- Memory from `pfh` on holds an image: the bytes of its header and a body. -/
def HoldsImage (m : ByteMem) (pfh : Nat) (h : FirmwareHead) (body : List UInt8) : Prop :=
  m.read pfh (h.toBytes ++ body).length = h.toBytes ++ body

theorem HoldsImage.write (m : ByteMem) (pfh : Nat) (h : FirmwareHead) (body : List UInt8) :
    HoldsImage (m.write pfh (h.toBytes ++ body)) pfh h body :=
  m.read_write _ _

theorem HoldsImage.headAt_eq {h : FirmwareHead} {body : List UInt8} (hm : HoldsImage m pfh h body) :
    headAt m pfh = h := by
  apply headAt_of_read
  exact ByteMem.read_part [] body hm (by simp) (by simp) h.length_toBytes

theorem HoldsImage.payload_eq {h : FirmwareHead} {body : List UInt8} (hm : HoldsImage m pfh h body)
    (hlen : body.length = h.length.toNat) : payload m pfh = body := by
  rw [payload, hm.headAt_eq]
  exact ByteMem.read_part h.toBytes [] hm (by simp) (by simp [payloadAddr]) hlen

end

end Boot
end CanmvK230
