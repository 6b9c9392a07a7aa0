import CanmvK230.Boot.FirmwareGen
import CanmvK230.Boot.Load
import CanmvK230.Boot.SecureBoot

/-!
# RoundTrip — images of the script, loaded and checked

The script that writes an image and the loader that reads it agree, or do not, on the layout of the
header, on what the length counts, on what is hashed and on the numbers of the crypto types.

Main results:
* `plain_round_trip`: a plain image is loaded whole, accepted, and its plaintext is the version bytes
  and the input; an image with other hashed bytes is refused, or SHA-256 collides;
* `secure_round_trip_never`: no image of the two encrypted forms is handled by the scheme it was made
  with, because script and loader number the schemes differently.
-/

namespace CanmvK230
namespace Boot

open Lib

section
variable {g : Gen} {pl : Platform} {m : ByteMem} {pfh : Nat} {p file : List UInt8}

/-! ## The check of a plain image -/

/-- The SHA-256 build, by cases on the comparison. -/
theorem check_of_noneSecurity (hbuild : pl.k230Pufs = false)
    (hmagic : (headAt m pfh).magic = k230ImageMagicNum)
    (htype : (headAt m pfh).cryptoType = CryptoType.noneSecurity.code) :
    k230BootCheckAndGetPlainData pl m pfh =
      if (pl.sha256CsumWd (payload m pfh)).1 = (headAt m pfh).noneSecSignature then
        .ok ⟨some (payloadAddr pfh), m⟩
      else .error (-3) := by
  by_cases hsig : (pl.sha256CsumWd (payload m pfh)).1 = (headAt m pfh).noneSecSignature
  · simp [k230BootCheckAndGetPlainData, checkNoneSecurity, checkRet, hbuild, hmagic, htype, hsig,
      bind, Except.bind, pure, Except.pure]
  · simp [k230BootCheckAndGetPlainData, checkNoneSecurity, checkRet, hbuild, hmagic, htype, hsig,
      bind, Except.bind]

/-- The signature field of a plain header is the hash the script computed. -/
theorem noneSecSignature_noneHead :
    (noneHead g p).noneSecSignature = (g.sha256 (genVersion ++ p)).1 := by
  have hlen := (g.sha256 (genVersion ++ p)).2
  rw [FirmwareHead.noneSecSignature, FirmwareHead.field, List.drop_zero]
  exact List.take_left' hlen

theorem length_noneHead (hp : 4 + p.length < 2 ^ 31) :
    (genVersion ++ p).length = (noneHead g p).length.toNat := by
  have hlt : 4 + p.length < 2 ^ 32 := Nat.lt_trans hp (by decide)
  rw [length_genVersion_append]
  exact (UInt32.toNat_ofNat_of_lt' hlt).symm

/-- A plain image in memory is accepted, and its plaintext stands behind the header. -/
theorem check_plain_image (hbuild : pl.k230Pufs = false)
    (hsha : ∀ message, pl.sha256CsumWd message = g.sha256 message) (hp : 4 + p.length < 2 ^ 31)
    (hm : HoldsImage m pfh (noneHead g p) (genVersion ++ p)) :
    k230BootCheckAndGetPlainData pl m pfh = .ok ⟨some (payloadAddr pfh), m⟩ ∧
      m.read (payloadAddr pfh) (4 + p.length) = genVersion ++ p := by
  have hpayload := hm.payload_eq (length_noneHead hp)
  have hhead := hm.headAt_eq
  refine ⟨?_, ?_⟩
  · rw [check_of_noneSecurity hbuild (by rw [hhead]; rfl) (by rw [hhead]; rfl), hpayload, hhead,
      noneSecSignature_noneHead, hsha, if_pos rfl]
  · have hlen : (headAt m pfh).length.toNat = 4 + p.length := by
      rw [hhead, ← length_noneHead hp, length_genVersion_append]
    rw [← hlen]
    exact hpayload

/-- An image with the rest of its header kept and other bytes hashed is refused, or the two byte
strings have one hash. -/
theorem check_changed_image (hbuild : pl.k230Pufs = false)
    (hsha : ∀ message, pl.sha256CsumWd message = g.sha256 message)
    (hmagic : (headAt m pfh).magic = k230ImageMagicNum)
    (htype : (headAt m pfh).cryptoType = CryptoType.noneSecurity.code)
    (hverify : (headAt m pfh).verify = (noneHead g p).verify) :
    k230BootCheckAndGetPlainData pl m pfh = .error (-3) ∨
      g.sha256 (payload m pfh) = g.sha256 (genVersion ++ p) := by
  have hsig : (headAt m pfh).noneSecSignature = (g.sha256 (genVersion ++ p)).1 := by
    rw [← noneSecSignature_noneHead, FirmwareHead.noneSecSignature, FirmwareHead.field, hverify]
    rfl
  -- The comparison is between the hash of what is there now and the hash the script stored.
  rw [check_of_noneSecurity hbuild hmagic htype, hsig, hsha]
  by_cases heq : (g.sha256 (payload m pfh)).1 = (g.sha256 (genVersion ++ p)).1
  · exact .inr (Subtype.ext heq)
  · exact .inl (if_neg heq)

/-! ## A plain image on a device -/

theorem length_plain_file (hp : 4 + p.length < 2 ^ 31)
    (hfile : firmwareGen g [.nonEncryption] p = some file) :
    file = (noneHead g p).toBytes ++ (genVersion ++ p) ∧
      (file.length + blksz - 1) / blksz = sectors (noneHead g p).length := by
  rw [firmwareGen_nonEncryption g hp] at hfile
  obtain rfl := Option.some.inj hfile
  refine ⟨rfl, ?_⟩
  rw [sectors, List.length_append, FirmwareHead.length_toBytes, length_noneHead hp,
    Nat.add_comm headSize]

/-- What holds of a plain image from sector `start` on: `file` is read whole by two adjacent reads,
accepted and unwrapped, and no other hashed bytes are accepted under its header. -/
structure PlainRoundTrip (g : Gen) (pl : Platform) (p file : List UInt8) (m : ByteMem) (d : BlkDesc)
    (start buff : Nat) (run : LoadRun) : Prop where
  ret : run.ret = 0
  /-- The two reads cover `⌈|file| / 512⌉` sectors, one behind the other. -/
  -- The second read starts in the sector, and at the address, where the first one ends.
  reads : run.reads = [⟨d.devnum, start, hdBlkNum, buff⟩,
    ⟨d.devnum, start + hdBlkNum, (file.length + blksz - 1) / blksz - hdBlkNum,
      buff + hdBlkNum * blksz⟩]
  no_underflow : hdBlkNum ≤ (file.length + blksz - 1) / blksz
  mem : run.mem = m.write buff
    (d.content.read (blksz * start) (blksz * ((file.length + blksz - 1) / blksz)))
  accepted : ∃ r addr, k230BootCheckAndGetPlainData pl run.mem buff = .ok r ∧ r.addr = some addr ∧
    r.mem.read addr (4 + p.length) = [0, 0, 0, 0] ++ p
  changed : ∀ m', (headAt m' buff).magic = (headAt run.mem buff).magic →
    (headAt m' buff).cryptoType = (headAt run.mem buff).cryptoType →
    (headAt m' buff).verify = (headAt run.mem buff).verify →
    payload m' buff ≠ payload run.mem buff →
    k230BootCheckAndGetPlainData pl m' buff = .error (-3) ∨
      g.sha256 (payload m' buff) = g.sha256 (payload run.mem buff)

variable {b : Board} {gBootMedium : Nat} {pblkDesc : Option BlkDesc} {sys : BootSys} {buff : Nat}
  {d : BlkDesc}

/-- Memory that holds the sectors of a file holds the file. -/
theorem read_write_sectors (m : ByteMem) (buff : Nat) {start k : Nat} (hle : file.length ≤ blksz * k)
    (hdev : d.content.read (blksz * start) file.length = file) :
    (m.write buff (d.content.read (blksz * start) (blksz * k))).read buff file.length = file := by
  calc
    (m.write buff (d.content.read (blksz * start) (blksz * k))).read buff file.length
        = ((m.write buff (d.content.read (blksz * start) (blksz * k))).read buff (blksz * k)).take
            file.length := (ByteMem.take_read _ _ hle).symm
    _ = (d.content.read (blksz * start) (blksz * k)).take file.length := by
      rw [ByteMem.read_write_of_length _ (ByteMem.length_read _ _ _)]
    _ = d.content.read (blksz * start) file.length := ByteMem.take_read _ _ hle
    _ = file := hdev

theorem plain_round_trip (hbuild : pl.k230Pufs = false)
    (hsha : ∀ message, pl.sha256CsumWd message = g.sha256 message) (hp : 4 + p.length < 2 ^ 31)
    (hfile : firmwareGen g [.nonEncryption] p = some file)
    (hstart : b.getBlkStart sys ≠ imgPartNotExit)
    (hdesc : currentBlkDesc b gBootMedium pblkDesc = .ok d)
    (hdev : d.content.read (blksz * b.getBlkStart sys) file.length = file)
    (hhead : d.dread (b.getBlkStart sys) hdBlkNum = hdBlkNum)
    (hdata : d.dread (b.getBlkStart sys + hdBlkNum)
      ((file.length + blksz - 1) / blksz - hdBlkNum) =
        (file.length + blksz - 1) / blksz - hdBlkNum) :
    PlainRoundTrip g pl p file m d (b.getBlkStart sys) buff
      (k230LoadSysFromMmcOrSd b gBootMedium pblkDesc m sys buff) := by
  rcases length_plain_file hp hfile with ⟨hbytes, hsectors⟩
  have hheadBytes : d.content.read (blksz * b.getBlkStart sys) headSize = (noneHead g p).toBytes :=
    ByteMem.read_part [] (genVersion ++ p) hdev hbytes (by simp)
      (FirmwareHead.length_toBytes _)
  have hrun : k230LoadSysFromMmcOrSd b gBootMedium pblkDesc m sys buff = _ :=
    load_of_reads hstart hdesc hheadBytes rfl hhead (by rw [← hsectors]; exact hdata)
  rw [← hsectors] at hrun
  -- Memory holds the file, hence the image.
  have hle : file.length ≤ blksz * ((file.length + blksz - 1) / blksz) := by
    rw [hsectors, hbytes, List.length_append, FirmwareHead.length_toBytes, length_noneHead hp]
    exact length_le_sectors _
  have hmem := read_write_sectors m buff hle hdev
  have hholds : HoldsImage (m.write buff (d.content.read (blksz * b.getBlkStart sys)
      (blksz * ((file.length + blksz - 1) / blksz)))) buff (noneHead g p) (genVersion ++ p) := by
    rw [HoldsImage, ← hbytes]
    exact hmem
  rcases check_plain_image hbuild hsha hp hholds with ⟨hok, hread⟩
  rw [hrun]
  refine ⟨rfl, rfl, ?_, rfl, ⟨_, _, hok, rfl, hread⟩, ?_⟩
  · rw [hsectors]
    exact hdBlkNum_le_sectors _
  · -- Equal hashes of different bytes are the collision the statement allows for.
    intro m' hmagic htype hverify _
    rw [hholds.headAt_eq] at hmagic htype hverify
    rw [hholds.payload_eq (length_noneHead hp)]
    exact check_changed_image hbuild hsha hmagic htype hverify

/-! ## The encrypted images -/

/-- The image in memory is accepted by the checks of `scheme`, and its plaintext starts with the
version bytes and the input. -/
def UnwrapsBy (pl : Platform) (scheme : CryptoType) (p : List UInt8) (m : ByteMem) (pfh : Nat) :
    Prop :=
  ∃ r addr, k230BootCheckAndGetPlainData pl m pfh = .ok r ∧
    (headAt m pfh).scheme = some scheme ∧ r.addr = some addr ∧
    r.mem.read addr (4 + p.length) = [0, 0, 0, 0] ++ p

/-- Memory that holds a file of the script holds the image it stands for. -/
theorem holdsImage_of_read {h : FirmwareHead} {body : List UInt8}
    (hfile : file = h.toBytes ++ body) (hm : m.read pfh file.length = file) :
    HoldsImage m pfh h body := by
  rw [HoldsImage, ← hfile]
  exact hm

theorem holdsImage_aes (hfile : firmwareGen g [.aes] p = some file)
    (hm : m.read pfh file.length = file) : HoldsImage m pfh (aesHead g p) (aesMessage g p) :=
  holdsImage_of_read (firmwareGen_aes.1 hfile).2 hm

theorem holdsImage_sm4 (hfile : firmwareGen g [.sm4] p = some file)
    (hm : m.read pfh file.length = file) : HoldsImage m pfh (sm4Head g p) (sm4Message g p) :=
  holdsImage_of_read (firmwareGen_sm4.1 hfile).2 hm

/-- The number 2 of an `-a` image means the Chinese scheme to the loader. -/
theorem scheme_aesHead : (aesHead g p).scheme = some .chineseSecurity := by
  have htype : (aesHead g p).cryptoType = CryptoType.chineseSecurity.code := rfl
  simp [FirmwareHead.scheme, htype, CryptoType.code]

/-- The number 1 of an `-s` image means `GCM_ONLY` to the loader. -/
theorem scheme_sm4Head : (sm4Head g p).scheme = some .gcmOnly := by
  have htype : (sm4Head g p).cryptoType = CryptoType.gcmOnly.code := rfl
  simp [FirmwareHead.scheme, htype, CryptoType.code]

/-- Whatever the input, the keys and the OTP: neither image is unwrapped by the scheme it was made
with. -/
theorem secure_round_trip_never {aesFile sm4File : List UInt8} {m' : ByteMem}
    (haes : firmwareGen g [.aes] p = some aesFile) (haesMem : m.read pfh aesFile.length = aesFile)
    (hsm4 : firmwareGen g [.sm4] p = some sm4File) (hsm4Mem : m'.read pfh sm4File.length = sm4File) :
    ¬ UnwrapsBy pl .internationalSecurity p m pfh ∧ ¬ UnwrapsBy pl .chineseSecurity p m' pfh := by
  -- The number in the header decides, before any key or signature is looked at.
  refine ⟨?_, ?_⟩
  · intro h
    rcases h with ⟨_, _, _, hscheme, _⟩
    rw [(holdsImage_aes haes haesMem).headAt_eq, scheme_aesHead] at hscheme
    cases hscheme
  · intro h
    rcases h with ⟨_, _, _, hscheme, _⟩
    rw [(holdsImage_sm4 hsm4 hsm4Mem).headAt_eq, scheme_sm4Head] at hscheme
    cases hscheme

theorem checkPuk_of_ne {pufs : Pufs} {block : PukBlock} {algo : HashAlgo} {puk : List UInt8}
    {d d' : Digest} (hotp : pufs.readPukHash block = some d) (hd : d ≠ Digest.zero)
    (hhash : pufs.hash algo puk = some d') (hne : d' ≠ d) :
    checkPuk pufs block algo puk = .error (-8) := by
  have hdgst : d'.1 ≠ d.1 := fun h => hne (Subtype.ext h)
  simp [checkPuk, orRet, checkRet, hotp, hd, hhash, hdgst, bind, Except.bind]

/-- An `-a` image is refused: its RSA key is not the SM2 key the OTP names. -/
theorem check_aes_image {d d' : Digest} (hpufs : pl.k230Pufs = true)
    (hm : HoldsImage m pfh (aesHead g p) (aesMessage g p))
    (hotp : pl.pufs.readPukHash .sm2 = some d) (hd : d ≠ Digest.zero)
    (hhash : pl.pufs.hash .sm3 ((aesHead g p).field 0 452) = some d') (hne : d' ≠ d) :
    k230BootCheckAndGetPlainData pl m pfh = .error (-8) := by
  have hhead := hm.headAt_eq
  have hmagic : (headAt m pfh).magic = k230ImageMagicNum := by
    rw [hhead]
    rfl
  -- The Chinese branch hashes the first 452 bytes of the union, here key and part of a signature.
  have hpuk : checkPuk pl.pufs .sm2 .sm3 ((headAt m pfh).field 0 (512 + 4 - 32 - 32)) =
      .error (-8) := by
    rw [hhead]
    exact checkPuk_of_ne hotp hd hhash hne
  have hdec : decChinese pl.pufs m pfh = .error (-8) := by
    simp only [decChinese, hpuk, bind, Except.bind]
  rw [check_eq_scheme hmagic, hhead, scheme_aesHead]
  simp only [ifDriver, hpufs, if_true, hdec, Functor.map, Except.map]

/-- An `-s` image is refused unless its SM4 ciphertext happens to be a GCM ciphertext. -/
theorem check_sm4_image (hpufs : pl.k230Pufs = true)
    (hm : HoldsImage m pfh (sm4Head g p) (sm4Message g p))
    (hdec : pl.pufs.decGcmPoc gcmKey gcmIv (gcmText m pfh) (gcmTag m pfh) = none) :
    k230BootCheckAndGetPlainData pl m pfh = .error (-10) := by
  have hhead := hm.headAt_eq
  have hmagic : (headAt m pfh).magic = k230ImageMagicNum := by
    rw [hhead]
    rfl
  have hgcm : decGcmOnly pl.pufs m pfh = .error (-10) := by
    simp only [decGcmOnly, hdec, orRet]
  rw [check_eq_scheme hmagic, hhead, scheme_sm4Head]
  simp only [ifDriver, hpufs, if_true, hgcm, Functor.map, Except.map]

end

/-! ## The two encrypted images of an empty input -/

/-- The RSA signature over `sealedTag` with the private key of the script. -/
def tagSignature : List UInt8 :=
  [0x7e, 0x89, 0xb1, 0xcb, 0x07, 0x2b, 0x19, 0x8c, 0x84, 0x88, 0x23, 0xe9, 0x5d, 0x75, 0x9b, 0xef,
    0x30, 0xcc, 0xdf, 0xd2, 0xba, 0xa9, 0x94, 0x25, 0x8e, 0x8a, 0x1a, 0x9f, 0x1b, 0x73, 0x43, 0x60,
    0x00, 0x23, 0xa0, 0xa9, 0x87, 0xa2, 0xaa, 0xc7, 0x21, 0x9f, 0x54, 0x47, 0x96, 0x1c, 0x5f, 0x06,
    0x38, 0xa0, 0xc0, 0x15, 0x6b, 0xbf, 0x9f, 0x95, 0xcc, 0xda, 0xf5, 0xb1, 0x85, 0x3e, 0x0e, 0xa2,
    0x45, 0x0a, 0xeb, 0x34, 0x7f, 0xf1, 0x7e, 0xc3, 0x6f, 0x2d, 0x61, 0xdd, 0x85, 0x91, 0x35, 0xe7,
    0x88, 0x33, 0x35, 0x43, 0xaf, 0x75, 0xf6, 0x00, 0x03, 0xe1, 0x1b, 0xc3, 0x9a, 0x35, 0x40, 0x83,
    0x2b, 0x78, 0x91, 0xdc, 0xcd, 0x5e, 0x08, 0x1c, 0x9e, 0xeb, 0x75, 0xc1, 0x58, 0x01, 0x01, 0xef,
    0x58, 0x67, 0xac, 0x09, 0xc3, 0x12, 0xc3, 0x60, 0x95, 0x6f, 0x92, 0x7f, 0x5b, 0x82, 0x96, 0x47,
    0x00, 0x51, 0x1d, 0xe3, 0x55, 0xbc, 0x71, 0x11, 0xed, 0x1f, 0x70, 0xb6, 0x67, 0xdf, 0x7c, 0x43,
    0x4b, 0x90, 0x65, 0xbf, 0x97, 0x84, 0xe2, 0x8f, 0xe8, 0xc3, 0xd4, 0x5c, 0x74, 0x4e, 0x99, 0x09,
    0xa3, 0xf4, 0x35, 0xb5, 0xdc, 0xca, 0x73, 0x4c, 0x9d, 0xd2, 0x7d, 0x69, 0xa8, 0x87, 0xf0, 0x84,
    0x44, 0xa4, 0x17, 0xf1, 0xa7, 0xd1, 0x41, 0x13, 0x45, 0x89, 0xb8, 0xf4, 0xd9, 0x22, 0xd2, 0x41,
    0x9d, 0x64, 0x16, 0xf7, 0xdb, 0xce, 0x37, 0x0c, 0xb4, 0xf5, 0x96, 0x44, 0x91, 0xca, 0x5b, 0xe1,
    0x98, 0x09, 0x1d, 0x35, 0xe3, 0xce, 0x18, 0xb7, 0xc9, 0x50, 0x4e, 0x3b, 0x96, 0x05, 0xcc, 0x93,
    0xd0, 0x87, 0x4d, 0x86, 0xab, 0xc9, 0x16, 0x2f, 0x42, 0x22, 0xe0, 0x05, 0x0c, 0x3f, 0x11, 0x8b,
    0xd2, 0x9b, 0x35, 0x46, 0xcc, 0x58, 0x11, 0x27, 0x19, 0x16, 0xd4, 0x17, 0x79, 0x03, 0xd7, 0x50]

/-- The version bytes, padded and encrypted with SM4-CBC. -/
def sm4Text : List UInt8 :=
  [0x24, 0xa7, 0x53, 0xf5, 0x29, 0x89, 0x57, 0x81, 0x7e, 0x6e, 0x8d, 0x45, 0x42, 0x65, 0xb1, 0x21]

/-- The SM2 signature over `sm4Text`. -/
def sm4SignatureR : Digest :=
  ⟨[0xdb, 0x64, 0xfb, 0xe7, 0xc4, 0xca, 0x3d, 0x82, 0xfe, 0x6e, 0x33, 0x54, 0x01, 0xf5, 0x56, 0x00,
    0x9e, 0x5d, 0xa3, 0xeb, 0x0b, 0x91, 0xfe, 0x3b, 0xad, 0x5a, 0xbf, 0x36, 0x94, 0x35, 0x15, 0x86], rfl⟩

def sm4SignatureS : Digest :=
  ⟨[0xf6, 0x62, 0xcf, 0xe4, 0xc6, 0xd0, 0xf3, 0x7d, 0x97, 0x99, 0xff, 0xba, 0x6f, 0x31, 0x08, 0x18,
    0x3a, 0xae, 0x09, 0x2d, 0x09, 0x6a, 0x9e, 0x62, 0xd0, 0x2e, 0xdf, 0x9a, 0xb7, 0x19, 0xf5, 0xc8], rfl⟩

/-- A plain input of one instruction, and the SHA-256 digest of its image. -/
def nopInput : List UInt8 := [0x13, 0, 0, 0]

def nopDigest : Digest :=
  ⟨[0x1b, 0xcc, 0xa6, 0xc0, 0x39, 0x83, 0xf3, 0x0b, 0xcb, 0x66, 0xbc, 0xc6, 0x87, 0x48, 0xf8, 0x97,
    0x7d, 0x34, 0x0c, 0x36, 0x81, 0x20, 0xc2, 0x68, 0xee, 0x98, 0xb1, 0x2e, 0x1c, 0xed, 0xe6, 0x40], rfl⟩

/-- The libraries of the script, tabulated at the empty input and at `nopInput`. -/
def demoGen : Gen where
  sha256 message := if message = genVersion ++ nopInput then nopDigest else Digest.zero
  aesGcmEncrypt data :=
    if data = genVersion then (sealedText, ⟨sealedTag, rfl⟩)
    else (data, ⟨List.replicate 16 0, List.length_replicate⟩)
  rsaSign message :=
    if message = sealedTag then ⟨tagSignature, by decide +kernel⟩
    else ⟨List.replicate 256 0, List.length_replicate⟩
  sm4Encrypt data := if data = genVersion then sm4Text else data
  sm2Sign message :=
    if message = sm4Text then (sm4SignatureR, sm4SignatureS) else (Digest.zero, Digest.zero)

/-- What the SHA-256 build runs on. -/
def nopPlatform : Platform where
  k230Pufs := false
  pufs := fusedPufs
  sha256CsumWd := demoGen.sha256
  md := Digest.zero
  configMemBaseAddr := 0
  configMemTotalSize := 128 * 1024 * 1024

def nopFile : List UInt8 := (noneHead demoGen nopInput).toBytes ++ (genVersion ++ nopInput)

/-- A card with the file in the `uboot` place, that serves every read. -/
def nopCard : BlkDesc where
  devnum := 0
  content := ByteMem.write (fun _ => 0xff) (blksz * ubootSysInImgOffSec) nopFile
  dread _ blkcnt := blkcnt

def nopBoard : Board where
  getBlkStart := getBlkStartByBootFirmreType
  mmcInitDevice _ := false
  findMmcDevice _ := some ⟨false, some nopCard⟩

theorem plain_round_trip_nop :
    PlainRoundTrip demoGen nopPlatform nopInput nopFile (fun _ => 0) nopCard ubootSysInImgOffSec
      (k230GetEncryptedImageLoadAddr nopPlatform)
      (k230LoadSysFromMmcOrSd nopBoard bootMediumSdio0 none (fun _ => 0) .uboot
        (k230GetEncryptedImageLoadAddr nopPlatform)) := by
  have hp : 4 + nopInput.length < 2 ^ 31 := by
    decide
  have hstart : nopBoard.getBlkStart .uboot ≠ imgPartNotExit := by
    decide
  exact plain_round_trip rfl (fun _ => rfl) hp (firmwareGen_nonEncryption demoGen hp) hstart rfl
    (ByteMem.read_write _ _ _) rfl rfl

/-- The SM3 digest of what the loader hashes of the `-a` image. -/
def aesVerifyDigest : Digest :=
  ⟨[0xa7, 0xe7, 0x68, 0x9d, 0xda, 0x03, 0x47, 0x7d, 0x2c, 0x52, 0x63, 0xfa, 0xb4, 0x78, 0x01, 0xbf,
    0x11, 0x50, 0xaa, 0xb7, 0x58, 0x8c, 0x2c, 0x28, 0x24, 0xab, 0x83, 0xab, 0xe4, 0xd0, 0x2f, 0x90], rfl⟩

/-- A board that holds the key hashes the script prints, with the primitives tabulated at the two
images of the empty input. -/
def keyedPufs : Pufs where
  readProductMisc := some 0
  readPukHash
    | .rsa => some rsaPukHash
    | .sm2 => some sm2PukHash
  hash
    | .sha256, message => some (if message = genRsaPuk then rsaPukHash else Digest.zero)
    | .sm3, message => some (if message = (aesHead demoGen []).field 0 452 then aesVerifyDigest
        else if message = genSm2Puk then sm2PukHash else Digest.zero)
  rsaP1v15Verify signature n e message :=
    signature = tagSignature ∧ n = genN ∧ e.toNat = genE ∧ message = sealedTag
  decGcm iv text tag :=
    if iv = gcmIv ∧ text = sealedText ∧ tag = sealedTag then some genVersion else none
  sm2Verify r s message id pukx puky :=
    r = sm4SignatureR.1 ∧ s = sm4SignatureS.1 ∧ message = sm4Text ∧ id = genId ∧
      pukx = genPublicKeyX ∧ puky = genPublicKeyY
  decCbc iv text :=
    if iv = sm4Iv ∧ text = sm4Text then some (genVersion ++ List.replicate 12 12) else none
  decGcmPoc key iv text tag :=
    if key = gcmKey ∧ iv = gcmIv ∧ text = sealedText ∧ tag = sealedTag then some genVersion else none

def keyedPlatform : Platform where
  k230Pufs := true
  pufs := keyedPufs
  sha256CsumWd _ := Digest.zero
  md := Digest.zero
  configMemBaseAddr := 0
  configMemTotalSize := 128 * 1024 * 1024

/-- The board undoes what the script does to the input `p`. -/
structure SecureSetup (g : Gen) (pufs : Pufs) (p : List UInt8) : Prop where
  rsa_hash : PukMatches pufs .rsa .sha256 genRsaPuk
  sm2_hash : PukMatches pufs .sm2 .sm3 genSm2Puk
  rsa : pufs.rsaP1v15Verify (g.rsaSign (g.aesGcmEncrypt (genVersion ++ p)).2.1).1 genN
    (UInt32.ofNat genE) (g.aesGcmEncrypt (genVersion ++ p)).2.1 = true
  gcm : pufs.decGcm gcmIv (g.aesGcmEncrypt (genVersion ++ p)).1
    (g.aesGcmEncrypt (genVersion ++ p)).2.1 = some (genVersion ++ p)
  sm2 : pufs.sm2Verify (g.sm2Sign (sm4Message g p)).1.1 (g.sm2Sign (sm4Message g p)).2.1
    (sm4Message g p) genId genPublicKeyX genPublicKeyY = true
  cbc : ∃ pad, pufs.decCbc sm4Iv (sm4Message g p) = some (genVersion ++ p ++ pad)

theorem keyedPufs_setup : SecureSetup demoGen keyedPufs [] := by
  refine ⟨⟨rsaPukHash, rfl, by decide, ?_⟩, ⟨sm2PukHash, rfl, by decide, ?_⟩, ?_, ?_, ?_, ?_⟩
  · simp [keyedPufs]
  · have hne : genSm2Puk ≠ (aesHead demoGen []).field 0 452 := by
      decide +kernel
    simp [keyedPufs, hne]
  · decide +kernel
  · decide +kernel
  · decide +kernel
  · exact ⟨List.replicate 12 12, by decide +kernel⟩

def aesFile : List UInt8 := (aesHead demoGen []).toBytes ++ aesMessage demoGen []

def sm4File : List UInt8 := (sm4Head demoGen []).toBytes ++ sm4Message demoGen []

def aesMem : ByteMem := ByteMem.write (fun _ => 0) 0x1000 aesFile

def sm4Mem : ByteMem := ByteMem.write (fun _ => 0) 0x1000 sm4File

theorem secure_round_trip_never_empty_input :
    firmwareGen demoGen [.aes] [] = some aesFile ∧ firmwareGen demoGen [.sm4] [] = some sm4File ∧
      ¬ UnwrapsBy keyedPlatform .internationalSecurity [] aesMem 0x1000 ∧
      ¬ UnwrapsBy keyedPlatform .chineseSecurity [] sm4Mem 0x1000 := by
  have haes : firmwareGen demoGen [.aes] [] = some aesFile :=
    firmwareGen_aes.2 ⟨by decide +kernel, rfl⟩
  have hsm4 : firmwareGen demoGen [.sm4] [] = some sm4File :=
    firmwareGen_sm4.2 ⟨by decide +kernel, rfl⟩
  exact ⟨haes, hsm4, secure_round_trip_never haes (ByteMem.read_write _ _ _) hsm4
    (ByteMem.read_write _ _ _)⟩

/-- Made for this very board, both images are refused. -/
theorem secure_images_refused :
    SecureSetup demoGen keyedPufs [] ∧
      k230BootCheckAndGetPlainData keyedPlatform aesMem 0x1000 = .error (-8) ∧
      k230BootCheckAndGetPlainData keyedPlatform sm4Mem 0x1000 = .error (-10) ∧
      ¬ UnwrapsBy keyedPlatform .internationalSecurity [] aesMem 0x1000 ∧
      ¬ UnwrapsBy keyedPlatform .chineseSecurity [] sm4Mem 0x1000 := by
  have haes : k230BootCheckAndGetPlainData keyedPlatform aesMem 0x1000 = .error (-8) := by
    apply check_aes_image rfl (HoldsImage.write _ _ _ _) rfl (by decide : sm2PukHash ≠ Digest.zero)
    · exact congrArg some (if_pos rfl)
    · decide
  have hsm4 : k230BootCheckAndGetPlainData keyedPlatform sm4Mem 0x1000 = .error (-10) := by
    apply check_sm4_image rfl (HoldsImage.write _ _ _ _)
    decide +kernel
  refine ⟨keyedPufs_setup, haes, hsm4, ?_, ?_⟩
  · intro h
    rcases h with ⟨_, _, hok, _⟩
    rw [haes] at hok
    cases hok
  · intro h
    rcases h with ⟨_, _, hok, _⟩
    rw [hsm4] at hok
    cases hok

end Boot
end CanmvK230
