import CanmvK230.Boot.FailClosed

/-!
# Contained — how far the boot path reads behind the verified bytes

The check of a firmware image covers `pfh->length` bytes. What the boot path reads afterwards is
decided by other numbers, all of them in the image: the size in the uImage header, the table of a
multi-file image, which has no length of its own and ends at its first zero word, and the size of the
first component. `Contained` asks that all these reads stay inside the plaintext; `contained_iff`
names the numbers that decide it.

Main results:
* `tableBytes_subset_iff`: the walk over the table stays below an address exactly when a zero word
  stands in front of it;
* `contained_iff`: the accepted images whose reads stay inside their plaintext.
-/

namespace CanmvK230
namespace Boot

open Lib

/-! ## The property -/

/-- `for (i = 0; size[i]; ++i)` looks at word `i` when no word before it is zero. -/
def WordRead (m : ByteMem) (size i : Nat) : Prop :=
  ∀ j, j < i → le32At m (size + 4 * j) ≠ 0

/-- The bytes of the words that `image_multi_count` looks at. -/
def tableBytes (m : ByteMem) (size : Nat) : Set Nat :=
  { a | ∃ i, WordRead m size i ∧ a ∈ Set.Ico (size + 4 * i) (size + 4 * i + 4) }

def IsRtt (m : ByteMem) (pUh : Nat) : Prop :=
  imageCheckMagic m pUh = true ∧ strcmpEq m (imageGetName pUh) "rtt" = true

def IsUboot (m : ByteMem) (pUh : Nat) : Prop :=
  imageCheckMagic m pUh = true ∧ strcmpEq m (imageGetName pUh) "rtt" = false ∧
    strcmpEq m (imageGetName pUh) "uboot" = true

/-- The compression type is one that `k230_boot_decomp_to_load_addr` unpacks. -/
def Unpacks (m : ByteMem) (pUh : Nat) : Prop :=
  imageGetComp m pUh = ihCompGzip ∨ imageGetComp m pUh = ihCompNone

/-- The length of the plaintext: `pfh->length` bytes, less the tag where there is one. -/
def plainLength (h : FirmwareHead) : Nat :=
  if h.cryptoType = CryptoType.internationalSecurity.code ∨
      h.cryptoType = CryptoType.gcmOnly.code then
    h.length.toNat - 16
  else
    h.length.toNat

/-- Whenever the check accepts the image, the plaintext address was set, and what the boot path then
takes from memory as image content, the table of an `rtt` image included, is plaintext. -/
def Contained (pl : Platform) (z : Unzip) (m : ByteMem) (pfh : Nat) : Prop :=
  ∀ r, k230BootCheckAndGetPlainData pl m pfh = .ok r →
    ∃ lo, r.addr = some lo ∧
      (∀ e ∈ (k230ImgBootSysBin pl z m pfh).trace,
        e.source ⊆ Set.Ico lo (lo + plainLength (headAt m pfh))) ∧
      (IsRtt r.mem (lo + 4) →
        tableBytes r.mem (imageGetData (lo + 4)) ⊆ Set.Ico lo (lo + plainLength (headAt m pfh)))

/-! ## The condition -/

/-- The numbers in a plaintext of `len` bytes at `lo` that keep the boot path inside. The uImage header
starts at byte 4 and its data at byte 68. -/
structure Fits (m : ByteMem) (lo len : Nat) : Prop where
  header : 68 ≤ len
  /-- The table has a zero word, and the first component ends in the plaintext. -/
  table : IsRtt m (lo + 4) → ∃ n, le32At m (lo + 68 + 4 * n) = 0 ∧ WordRead m (lo + 68) n ∧
    68 + 4 * (n + 1) ≤ len ∧
    (Unpacks m (lo + 4) → n = 0 ∨ 68 + 4 * (n + 1) + be32At m (lo + 68) ≤ len)
  /-- The size in the header is no larger than what stands behind it. -/
  data : IsUboot m (lo + 4) → Unpacks m (lo + 4) → 68 + imageGetDataSize m (lo + 4) ≤ len

/-- The crypto type is one the build can check, a GCM payload has room for its tag, and the plaintext
fits. -/
structure ContainedWhen (pl : Platform) (m : ByteMem) (pfh : Nat) : Prop where
  driver : SecureType (headAt m pfh) → pl.k230Pufs = true
  room : ∀ plaint, GcmOpens pl.pufs (headAt m pfh) (gcmText m pfh) (gcmTag m pfh) plaint →
    16 ≤ (headAt m pfh).length.toNat
  fits : ∀ plaint, Authentic pl m pfh plaint →
    Fits (released pl m pfh plaint).mem (plainStart pl m pfh) (plainLength (headAt m pfh))

/-! ## The table -/

section
variable {pl : Platform} {z : Unzip} {m : ByteMem} {pfh pUh lo len size n : Nat}
  {plaint : List UInt8}

/-- The walk stays below `hi` exactly when it meets a zero word there. -/
theorem tableBytes_subset_iff {hi : Nat} (hlo : lo ≤ size) :
    tableBytes m size ⊆ Set.Ico lo hi ↔
      ∃ n, le32At m (size + 4 * n) = 0 ∧ WordRead m size n ∧ size + 4 * (n + 1) ≤ hi := by
  constructor
  · intro hsub
    -- The last byte of a word that is read lies below `hi`.
    have hbelow : ∀ i, WordRead m size i → size + 4 * i + 3 < hi := by
      intro i hi
      have hmem : size + 4 * i + 3 ∈ tableBytes m size := ⟨i, hi, by simp, by simp⟩
      exact (hsub hmem).2
    have hex : ∃ n, le32At m (size + 4 * n) = 0 := by
      by_contra hnone
      push Not at hnone
      have hfar := hbelow hi fun j _ => hnone j
      omega
    classical
    have hread : WordRead m size (Nat.find hex) := fun j hj => Nat.find_min hex hj
    have hlast := hbelow _ hread
    exact ⟨Nat.find hex, Nat.find_spec hex, hread, by omega⟩
  · rintro ⟨n, hzero, _, hend⟩ a ⟨i, hi, hle, hlt⟩
    -- No word behind the zero word is read.
    have hin : i ≤ n := by
      by_contra hni
      exact hi n (by omega) hzero
    exact ⟨by omega, by omega⟩

theorem multiGetimg_of_table (pUh : Nat) (hzero : le32At m (imageGetData pUh + 4 * n) = 0)
    (hread : WordRead m (imageGetData pUh) n) (hn : n < 2 ^ 62) :
    imageMultiGetimg m pUh 0 =
      if 0 < n then some (imageGetData pUh + (n + 1) * 4, be32At m (imageGetData pUh))
      else some (0, 0) := by
  have hcount : imageMultiCount m pUh = some n := imageMultiCount_eq_some hn hread hzero
  split
  · rename_i hpos
    exact imageMultiGetimg_zero hcount hpos
  · rename_i hpos
    simp [imageMultiGetimg, hcount, hpos]

/-! ## The ranges of a run -/

theorem bootSource_of_rtt (hrtt : IsRtt m pUh) (hcomp : Unpacks m pUh) :
    bootSource m pUh = imageMultiGetimg m pUh 0 := by
  have hno : ¬ (imageGetComp m pUh ≠ ihCompGzip ∧ imageGetComp m pUh ≠ ihCompNone) := by
    rintro ⟨hgzip, hnone⟩
    rcases hcomp with h | h
    · exact hgzip h
    · exact hnone h
  simp [bootSource, hrtt.1, hno, hrtt.2]

theorem bootSource_of_uboot (huboot : IsUboot m pUh) (hcomp : Unpacks m pUh) :
    bootSource m pUh = some (imageGetData pUh, imageGetDataSize m pUh) := by
  have hno : ¬ (imageGetComp m pUh ≠ ihCompGzip ∧ imageGetComp m pUh ≠ ihCompNone) := by
    rintro ⟨hgzip, hnone⟩
    rcases hcomp with h | h
    · exact hgzip h
    · exact hnone h
  simp [bootSource, huboot.1, hno, huboot.2.1, huboot.2.2]

/-- Only images of the two names, with a supported compression, have something unpacked. -/
theorem cases_of_bootSource {r : Nat × Nat} (h : bootSource m pUh = some r) :
    Unpacks m pUh ∧ (IsRtt m pUh ∨ IsUboot m pUh) := by
  unfold bootSource at h
  split_ifs at h with hmagic hcomp hrtt huboot
  · have hmagic' : imageCheckMagic m pUh = true := Bool.of_not_eq_false hmagic
    have hcomp' : Unpacks m pUh := by
      by_contra hno
      exact hcomp (not_or.1 hno)
    exact ⟨hcomp', .inl ⟨hmagic', hrtt⟩⟩
  · have hmagic' : imageCheckMagic m pUh = true := Bool.of_not_eq_false hmagic
    have hcomp' : Unpacks m pUh := by
      by_contra hno
      exact hcomp (not_or.1 hno)
    exact ⟨hcomp', .inr ⟨hmagic', Bool.eq_false_iff.2 hrtt, huboot⟩⟩

/-- The events of a run stay in a range exactly when the header and the source do. -/
theorem trace_subset_iff {S : Set Nat} :
    (∀ e ∈ (bootPlain z m pUh).trace, e.source ⊆ S) ↔
      Set.Ico pUh (pUh + imageGetHeaderSize) ⊆ S ∧
        ∀ data len, bootSource m pUh = some (data, len) → Set.Ico data (data + len) ⊆ S := by
  constructor
  · intro h
    refine ⟨h _ parseHeader_mem_trace, ?_⟩
    intro data len hsource
    rcases exists_mem_trace_bootPlain (z := z) hsource with ⟨e, he, _, hrange⟩
    have hsub := h e he
    rw [BootEvent.source, hrange] at hsub
    exact hsub
  · rintro ⟨hheader, hsource⟩ e he
    rcases mem_trace_bootPlain he with rfl | ⟨_, hrange⟩
    · exact hheader
    · exact hsource _ _ hrange

/-- A range that starts inside lies inside when it ends inside; an empty one always does. -/
theorem Ico_subset_iff_le {a k : Nat} (hlo : lo ≤ a) (hroom : a ≤ lo + len) :
    Set.Ico a (a + k) ⊆ Set.Ico lo (lo + len) ↔ a + k ≤ lo + len := by
  constructor
  · intro h
    by_cases hk : k = 0
    · omega
    · exact ((Set.Ico_subset_Ico_iff (by omega)).1 h).2
  · intro h
    exact Set.Ico_subset_Ico hlo h

/-- For a plaintext at `lo`, all the reads stay inside exactly when its numbers fit. -/
theorem reads_subset_iff (hlen : len < 2 ^ 62) :
    ((∀ e ∈ (bootPlain z m (lo + 4)).trace, e.source ⊆ Set.Ico lo (lo + len)) ∧
        (IsRtt m (lo + 4) → tableBytes m (imageGetData (lo + 4)) ⊆ Set.Ico lo (lo + len))) ↔
      Fits m lo len := by
  have hdata : imageGetData (lo + 4) = lo + 68 := rfl
  have hheader : Set.Ico (lo + 4) (lo + 4 + imageGetHeaderSize) ⊆ Set.Ico lo (lo + len) ↔
      68 ≤ len := by
    rw [Set.Ico_subset_Ico_iff (by simp [imageGetHeaderSize])]
    simp only [imageGetHeaderSize]
    omega
  rw [trace_subset_iff, hheader, hdata]
  constructor
  · rintro ⟨⟨hhead, hsource⟩, htable⟩
    refine ⟨hhead, ?_, ?_⟩
    · intro hrtt
      rcases (tableBytes_subset_iff (by omega)).1 (htable hrtt) with ⟨n, hzero, hread, hend⟩
      refine ⟨n, hzero, hread, by omega, ?_⟩
      intro hcomp
      by_cases hn : n = 0
      · exact .inl hn
      · have himg := multiGetimg_of_table (lo + 4) hzero hread (by omega)
        rw [if_pos (Nat.pos_of_ne_zero hn), ← bootSource_of_rtt hrtt hcomp, hdata] at himg
        have hcomponent := (Ico_subset_iff_le (by omega) (by omega)).1 (hsource _ _ himg)
        right
        omega
    · intro huboot hcomp
      have hsub := hsource _ _ (bootSource_of_uboot huboot hcomp)
      rw [hdata] at hsub
      have hend := (Ico_subset_iff_le (by omega) (by omega)).1 hsub
      omega
  · intro hfits
    have hhead := hfits.header
    refine ⟨⟨hhead, ?_⟩, ?_⟩
    · intro data k hsource
      rcases cases_of_bootSource hsource with ⟨hcomp, hrtt | huboot⟩
      · rcases hfits.table hrtt with ⟨n, hzero, hread, hend, hcomponent⟩
        have himg := multiGetimg_of_table (lo + 4) hzero hread (by omega)
        rw [← bootSource_of_rtt hrtt hcomp, hsource, hdata] at himg
        rcases hcomponent hcomp with hn | hle
        · -- There is no component, and nothing is taken.
          simp only [hn, Nat.lt_irrefl, if_false, Option.some.injEq, Prod.mk.injEq] at himg
          rw [himg.1, himg.2]
          simp
        · by_cases hn : 0 < n
          · simp only [if_pos hn, Option.some.injEq, Prod.mk.injEq] at himg
            rw [himg.1, himg.2]
            exact (Ico_subset_iff_le (by omega) (by omega)).2 (by omega)
          · simp only [if_neg hn, Option.some.injEq, Prod.mk.injEq] at himg
            rw [himg.1, himg.2]
            simp
      · rw [bootSource_of_uboot huboot hcomp] at hsource
        cases hsource
        have hend := hfits.data huboot hcomp
        rw [hdata]
        exact (Ico_subset_iff_le (by omega) (by omega)).2 (by omega)
    · intro hrtt
      rcases hfits.table hrtt with ⟨n, hzero, hread, hend, _⟩
      exact (tableBytes_subset_iff (by omega)).2 ⟨n, hzero, hread, by omega⟩

/-! ## Accepted images -/

theorem plainLength_lt (h : FirmwareHead) : plainLength h < 2 ^ 62 := by
  have hlt := h.length.toNat_lt
  unfold plainLength
  split
  · omega
  · omega

theorem plainLength_of_gcmOpens {h : FirmwareHead} {text tag : List UInt8}
    (hopens : GcmOpens pl.pufs h text tag plaint) : plainLength h = h.length.toNat - 16 := by
  cases hopens with
  | international htype _ _ _ => simp [plainLength, htype]
  | gcmOnly htype _ => simp [plainLength, htype]

/-- An accepted image whose reads stay inside has a plaintext of at least 68 bytes. -/
theorem Contained.header_le {r : Plain} (hcontained : Contained pl z m pfh)
    (hcheck : k230BootCheckAndGetPlainData pl m pfh = .ok r) : 68 ≤ plainLength (headAt m pfh) := by
  rcases hcontained r hcheck with ⟨lo, haddr, htrace, htable⟩
  have hrun : k230ImgBootSysBin pl z m pfh = bootPlain z r.mem (lo + 4) := by
    simp [k230ImgBootSysBin, hcheck, haddr]
  rw [hrun] at htrace
  exact ((reads_subset_iff (plainLength_lt _)).1 ⟨htrace, htable⟩).header

/-- What the check accepts is read inside its plaintext exactly when `ContainedWhen` holds of it, over
all builds, memories and addresses. -/
theorem contained_iff (hhash : pl.pufs.HashTotal) :
    Contained pl z m pfh ↔
      ((headAt m pfh).magic = k230ImageMagicNum → ContainedWhen pl m pfh) := by
  -- Behind a successful check the run is the one of `bootPlain` on the plaintext.
  have hreads : ∀ plaint,
      k230BootCheckAndGetPlainData pl m pfh = .ok (released pl m pfh plaint) →
      (Fits (released pl m pfh plaint).mem (plainStart pl m pfh) (plainLength (headAt m pfh)) ↔
        (∀ e ∈ (k230ImgBootSysBin pl z m pfh).trace, e.source ⊆ Set.Ico (plainStart pl m pfh)
            (plainStart pl m pfh + plainLength (headAt m pfh))) ∧
          (IsRtt (released pl m pfh plaint).mem (plainStart pl m pfh + 4) →
            tableBytes (released pl m pfh plaint).mem (imageGetData (plainStart pl m pfh + 4)) ⊆
              Set.Ico (plainStart pl m pfh) (plainStart pl m pfh + plainLength (headAt m pfh)))) := by
    intro plaint hcheck
    rw [bootSysBin_of_check_eq hcheck]
    exact (reads_subset_iff (plainLength_lt _)).symm
  constructor
  · intro hcontained hmagic
    have hdriver : SecureType (headAt m pfh) → pl.k230Pufs = true := by
      intro hsecure
      by_contra hno
      have hok : k230BootCheckAndGetPlainData pl m pfh = .ok ⟨none, m⟩ :=
        (check_eq_ok_iff hhash).2 ⟨hmagic, .unchecked (Bool.eq_false_iff.2 hno) hsecure⟩
      rcases hcontained _ hok with ⟨lo, haddr, _⟩
      cases haddr
    refine ⟨hdriver, ?_, ?_⟩
    · intro plaint hopens
      have hok : k230BootCheckAndGetPlainData pl m pfh = .ok (Plain.decrypted pl m plaint) :=
        (check_eq_ok_iff hhash).2 ⟨hmagic, .gcm (hdriver hopens.secureType) hopens⟩
      have hle := hcontained.header_le hok
      rw [plainLength_of_gcmOpens hopens] at hle
      omega
    · intro plaint hauth
      have hcheck := hauth.check_eq hhash hmagic hdriver
      rcases hcontained _ hcheck with ⟨lo, haddr, hinside⟩
      rw [released_addr] at haddr
      cases haddr
      exact (hreads plaint hcheck).2 hinside
  · intro hwhen r hcheck
    rcases (check_eq_ok_iff hhash).1 hcheck with ⟨hmagic, haccepts⟩
    have hw := hwhen hmagic
    rcases haccepts.authentic hw.driver hw.room with ⟨plaint, hauth, rfl⟩
    exact ⟨_, released_addr, (hreads plaint hcheck).1 (hw.fits plaint hauth)⟩

end

/-! ## An image that stays inside, and one that does not -/

theorem plainLength_ubootMem : plainLength (headAt ubootMem 0x1000) = 72 := by
  rw [holdsImage_ubootMem.headAt_eq]
  rfl

theorem fits_ubootMem : Fits ubootMem (0x1000 + 528) 72 := by
  refine ⟨by decide, ?_, ?_⟩
  · intro hrtt
    exact absurd hrtt.2 (by decide +kernel)
  · intro _ _
    decide +kernel

theorem contained_uboot_image :
    demoPufs.HashTotal ∧ Contained (demoPlatform false) demoUnzip ubootMem 0x1000 := by
  refine ⟨demoPufs_hashTotal, (contained_iff demoPufs_hashTotal).2 ?_⟩
  intro _
  refine ⟨?_, ?_, ?_⟩
  · intro hsecure
    exact absurd hsecure not_secureType_ubootMem
  · intro plaint hopens
    exact absurd hopens.secureType not_secureType_ubootMem
  · intro plaint _
    rw [mem_released_ubootMem, plainStart_ubootMem, plainLength_ubootMem]
    exact fits_ubootMem

/-- The payload of 72 bytes once more, with 256 as the size in the uImage header. -/
def longPayload : List UInt8 :=
  [0, 0, 0, 0,
    0x27, 0x05, 0x19, 0x56, 0, 0, 0, 0, 0, 0, 0, 0, 0, 0, 1, 0,
    0x08, 0, 0, 0, 0x08, 0, 0, 0, 0, 0, 0, 0, 17, 26, 5, 0] ++
    ascii "uboot" ++ List.replicate 27 0 ++ [0x13, 0, 0, 0]

/-- Its SHA-256 digest. -/
def longDigest : Digest :=
  ⟨[0xfe, 0x14, 0x78, 0x3f, 0xce, 0x10, 0x5e, 0xd5, 0x4b, 0x2b, 0x87, 0xbe, 0x61, 0xa4, 0xd6, 0x9b,
    0x15, 0x48, 0x1b, 0x03, 0x4d, 0x98, 0x1f, 0x85, 0x19, 0xc7, 0xc1, 0x69, 0x34, 0xce, 0x5b, 0xc5], rfl⟩

def longHead : FirmwareHead where
  magic := k230ImageMagicNum
  length := 72
  cryptoType := CryptoType.noneSecurity.code
  verify := longDigest.1 ++ List.replicate 484 0
  verify_length := by rw [List.length_append, List.length_replicate, longDigest.2]

def longPlatform : Platform :=
  { demoPlatform false with
    sha256CsumWd := fun message => if message = longPayload then longDigest else Digest.zero }

def longMem : ByteMem := ByteMem.write (fun _ => 0) 0x1000 (longHead.toBytes ++ longPayload)

theorem holdsImage_longMem : HoldsImage longMem 0x1000 longHead longPayload :=
  HoldsImage.write _ _ _ _

theorem authentic_longMem : Authentic longPlatform longMem 0x1000 (payload longMem 0x1000) := by
  have hpayload : payload longMem 0x1000 = longPayload := holdsImage_longMem.payload_eq (by decide)
  refine .noneSecurity (d := longDigest) ?_ (fun h => nomatch h) ?_ ?_
  · rw [holdsImage_longMem.headAt_eq]
    rfl
  · rw [hpayload]
    rfl
  · rw [holdsImage_longMem.headAt_eq]
    decide +kernel

/-- The image is accepted, and 256 bytes from byte 68 of its 72 are moved to the load address and
started. -/
theorem long_image_not_contained :
    k230BootCheckAndGetPlainData longPlatform longMem 0x1000 = .ok ⟨some (0x1000 + 528), longMem⟩ ∧
      .memmove 0x8000000 (0x1000 + 596) 256 ∈
        (k230ImgBootSysBin longPlatform demoUnzip longMem 0x1000).trace ∧
      ¬ Contained longPlatform demoUnzip longMem 0x1000 := by
  have hmagic : (headAt longMem 0x1000).magic = k230ImageMagicNum := by
    rw [holdsImage_longMem.headAt_eq]
    rfl
  have hnone : (headAt longMem 0x1000).cryptoType = CryptoType.noneSecurity.code := by
    rw [holdsImage_longMem.headAt_eq]
    rfl
  have hreleased : released longPlatform longMem 0x1000 (payload longMem 0x1000) =
      ⟨some (0x1000 + 528), longMem⟩ := by
    rw [released_of_noneSecurity hnone]
    rfl
  have hcheck := authentic_longMem.check_eq demoPufs_hashTotal hmagic
    fun hsecure => absurd hnone hsecure.ne_noneSecurity
  rw [hreleased] at hcheck
  have hrun : k230ImgBootSysBin longPlatform demoUnzip longMem 0x1000 =
      bootPlain demoUnzip longMem (0x1000 + 532) := by
    simp [k230ImgBootSysBin, hcheck]
  refine ⟨hcheck, ?_, ?_⟩
  · rw [hrun]
    decide +kernel
  · intro hcontained
    have hfits := ((contained_iff demoPufs_hashTotal).1 hcontained hmagic).fits _ authentic_longMem
    have hstart : plainStart longPlatform longMem 0x1000 = 0x1000 + 528 := by
      rw [plainStart, if_pos hnone]
      rfl
    have hlength : plainLength (headAt longMem 0x1000) = 72 := by
      rw [holdsImage_longMem.headAt_eq]
      rfl
    rw [hreleased, hstart, hlength] at hfits
    have hdata := hfits.data ⟨by decide +kernel, by decide +kernel, by decide +kernel⟩
      (by unfold Unpacks; decide +kernel)
    revert hdata
    decide +kernel

end Boot
end CanmvK230
