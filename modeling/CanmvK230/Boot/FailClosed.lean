import CanmvK230.Lib.Extent
import CanmvK230.Boot.BootSys

/-!
# FailClosed — nothing of an image is used before it was verified

A return value of 0 is meant to say that the payload passed the check its crypto type calls for and
that the plaintext address points at it. `FailClosed` says so for one image, together with what the
boot path then does: it parses only verified bytes as a uImage header, and jumps only to verified
bytes, which are those it unpacked from verified bytes or the plaintext itself.

A run that ends in an error jumps nowhere, whatever it looked at. What an unpacking that succeeds took
and stored is `Delivers`, in terms of the image and of what the decompressors answer.

Main results:
* `decomp_of_delivers`, `delivers_of_ret`: `Delivers` is what the code does;
* `failClosed_iff`: for which builds, memories and addresses the boot path is fail-closed;
* `FailClosed.driver`: a build without the `pufs` driver accepts every secure image unchecked.
-/

namespace CanmvK230
namespace Boot

open Lib

/-! ## What an unpacking takes and stores -/

/-- `inflate` stops at the end of its stream, which may be in front of the end of the range it was
given: `totalIn` is the number of bytes it took, and the others do not matter. -/
structure Inflater extends Unzip where
  totalIn : (dst dstlen src len offset : Nat) → ByteMem → Nat
  takes : ∀ dst dstlen src len offset m m',
    (∀ i < totalIn dst dstlen src len offset m, m' (src + offset + i) = m (src + offset + i)) →
      (zunzip dst dstlen src len offset m').1 = (zunzip dst dstlen src len offset m).1 ∧
        (zunzip dst dstlen src len offset m').2.2 = (zunzip dst dstlen src len offset m).2.2 ∧
        ((zunzip dst dstlen src len offset m).1 = 0 →
          ∀ i < (zunzip dst dstlen src len offset m).2.2,
            (zunzip dst dstlen src len offset m').2.1 (dst + i) =
              (zunzip dst dstlen src len offset m).2.1 (dst + i))

/-- The bytes of the image that an event uses. -/
def BootEvent.taken (z : Inflater) (m : ByteMem) : BootEvent → Set Nat
  | .parseHeader pUh => Set.Ico pUh (pUh + imageGetHeaderSize)
  -- the method byte; what follows is another event
  | .gunzip _ _ src _ => {src + 2}
  | .k230PrivUnzip _ _ src len => Set.Ico src (src + len)
  | .zunzip dst dstlen src len offset =>
      Set.Ico src (src + offset + z.totalIn dst dstlen src len offset m)
  | .memmove _ src len => Set.Ico src (src + len)

/-- Where an event puts bytes of the image. -/
def BootEvent.output (z : Inflater) (m : ByteMem) : BootEvent → Set Nat
  | .parseHeader _ => ∅
  | .gunzip _ _ _ _ => ∅
  | .k230PrivUnzip dst dstlen _ _ => Set.Ico dst (dst + dstlen)
  | .zunzip dst dstlen src len offset =>
      Set.Ico dst (dst + (z.zunzip dst dstlen src len offset m).2.2)
  | .memmove dst _ len => Set.Ico dst (dst + len)

def takenOf (z : Inflater) (m : ByteMem) (trace : List BootEvent) : Set Nat :=
  { a | ∃ e ∈ trace, a ∈ e.taken z m }

def outputOf (z : Inflater) (m : ByteMem) (trace : List BootEvent) : Set Nat :=
  { a | ∃ e ∈ trace, a ∈ e.output z m }

/-- The component at `data` can be unpacked: from the bytes `taken`, to `n` bytes at the load address,
and with `after` as the memory afterwards. -/
inductive Delivers (z : Inflater) (m : ByteMem) (pUh data len : Nat) :
    Set Nat → Nat → ByteMem → Prop
  | copied : imageGetComp m pUh = ihCompNone →
      Delivers z m pUh data len (Set.Ico data (data + len)) len
        (m.write (imageGetLoad m pUh) (m.read data len))
  -- the hardware gets the repaired stream, and the size in its last four bytes
  | hardware {after : ByteMem} : imageGetComp m pUh = ihCompGzip → m (data + 2) = 9 →
      sizeWord m data len ≤ 0x6000000 →
      z.k230PrivUnzip (imageGetLoad m pUh) (sizeWord m data len) data len (m.write (data + 2) [8]) =
        (0, after) →
      Delivers z m pUh data len ({data + 2} ∪ Set.Ico data (data + len)) (sizeWord m data len) after
  | software {offset : Int} {n : Nat} {after : ByteMem} : imageGetComp m pUh = ihCompGzip →
      m (data + 2) ≠ 9 → gzipParseHeader m data len = some offset → 0 ≤ offset →
      z.zunzip (imageGetLoad m pUh) 0x6000000 data len offset.toNat m = (0, after, n) →
      Delivers z m pUh data len
        ({data + 2} ∪ Set.Ico data (data + offset.toNat +
          z.totalIn (imageGetLoad m pUh) 0x6000000 data len offset.toNat m)) n after

/-! ## The property -/

/-- The addresses of an image's plaintext. -/
def verifiedRange (pl : Platform) (m : ByteMem) (pfh : Nat) (plaint : List UInt8) : Set Nat :=
  Set.Ico (plainStart pl m pfh) (plainStart pl m pfh + plaint.length)

/-- The bytes an event is given of the image. -/
def BootEvent.source (e : BootEvent) : Set Nat :=
  Set.Ico e.range.1 (e.range.1 + e.range.2)

/-- The byte at `a` is verified: it was unpacked, or it is still the one of the plaintext. -/
def VerifiedAt (plainRange output : Set Nat) (before after : ByteMem) (a : Nat) : Prop :=
  a ∈ output ∨ a ∈ plainRange ∧ after a = before a

structure FailClosed (pl : Platform) (z : Inflater) (m : ByteMem) (pfh : Nat) : Prop where
  /-- Return value 0 means that the check of the crypto type was passed, and the plaintext address is
  where the verified plaintext stands. -/
  checked : ∀ r, k230BootCheckAndGetPlainData pl m pfh = .ok r →
    ∃ plaint, Authentic pl m pfh plaint ∧ r.addr = some (plainStart pl m pfh) ∧
      r.mem.read (plainStart pl m pfh) plaint.length = plaint
  /-- Only verified bytes are parsed as a uImage header. -/
  parsed : ∀ pUh, .parseHeader pUh ∈ (k230ImgBootSysBin pl z.toUnzip m pfh).trace →
    ∃ plaint, Authentic pl m pfh plaint ∧
      Set.Ico pUh (pUh + imageGetHeaderSize) ⊆ verifiedRange pl m pfh plaint
  /-- A run that jumps has used verified bytes only, and jumps to one. -/
  jumped : ∀ r entry, k230BootCheckAndGetPlainData pl m pfh = .ok r →
    (k230ImgBootSysBin pl z.toUnzip m pfh).outcome = .handedOver entry →
    ∃ plaint, Authentic pl m pfh plaint ∧
      takenOf z r.mem (k230ImgBootSysBin pl z.toUnzip m pfh).trace ⊆ verifiedRange pl m pfh plaint ∧
      VerifiedAt (verifiedRange pl m pfh plaint)
        (outputOf z r.mem (k230ImgBootSysBin pl z.toUnzip m pfh).trace) r.mem
        (k230ImgBootSysBin pl z.toUnzip m pfh).mem entry

/-! ## The condition -/

/-- An image that the code treats right: its type is one the build can check, a GCM payload has room
for its tag, the plaintext holds the version bytes and a uImage header, and a component that can be
unpacked stands in the plaintext as far as it is taken and leaves a load address of verified bytes in
the header. -/
structure Guarded (pl : Platform) (z : Inflater) (m : ByteMem) (pfh : Nat) : Prop where
  driver : SecureType (headAt m pfh) → pl.k230Pufs = true
  room : ∀ plaint, GcmOpens pl.pufs (headAt m pfh) (gcmText m pfh) (gcmTag m pfh) plaint →
    16 ≤ (headAt m pfh).length.toNat
  header : ∀ plaint, Authentic pl m pfh plaint → 4 + imageGetHeaderSize ≤ plaint.length
  component : ∀ plaint data len taken n after, Authentic pl m pfh plaint →
    bootSource (released pl m pfh plaint).mem (plainStart pl m pfh + 4) = some (data, len) →
    Delivers z (released pl m pfh plaint).mem (plainStart pl m pfh + 4) data len taken n after →
    taken ⊆ verifiedRange pl m pfh plaint
  entry : ∀ plaint data len taken n after, Authentic pl m pfh plaint →
    bootSource (released pl m pfh plaint).mem (plainStart pl m pfh + 4) = some (data, len) →
    Delivers z (released pl m pfh plaint).mem (plainStart pl m pfh + 4) data len taken n after →
    -- the load address is read again, behind the unpacking
    VerifiedAt (verifiedRange pl m pfh plaint)
      (extent (imageGetLoad (released pl m pfh plaint).mem (plainStart pl m pfh + 4)) n)
      (released pl m pfh plaint).mem after (imageGetLoad after (plainStart pl m pfh + 4))

/-! ## Unpacking -/

section
variable {z : Inflater} {m : ByteMem} {pUh data len n : Nat} {taken : Set Nat} {after : ByteMem}

theorem takenOf_cons (e : BootEvent) (es : List BootEvent) :
    takenOf z m (e :: es) = e.taken z m ∪ takenOf z m es := by
  ext a
  simp [takenOf]

theorem outputOf_cons (e : BootEvent) (es : List BootEvent) :
    outputOf z m (e :: es) = e.output z m ∪ outputOf z m es := by
  ext a
  simp [outputOf]

@[simp] theorem takenOf_nil : takenOf z m [] = ∅ := by
  simp [takenOf]

@[simp] theorem outputOf_nil : outputOf z m [] = ∅ := by
  simp [outputOf]

/-- What can be unpacked is unpacked, from these bytes and to these. -/
theorem decomp_of_delivers (h : Delivers z m pUh data len taken n after) :
    ∃ trace, k230BootDecompToLoadAddr z.toUnzip m pUh 0x6000000 data len =
        ⟨some 0, after, n, trace⟩ ∧
      takenOf z m trace = taken ∧ outputOf z m trace = extent (imageGetLoad m pUh) n := by
  cases h with
  | copied hcomp =>
      have hne : imageGetComp m pUh ≠ ihCompGzip := by
        rw [hcomp]
        decide
      refine ⟨[.memmove (imageGetLoad m pUh) data len], ?_, ?_, ?_⟩
      · rw [k230BootDecompToLoadAddr, if_neg hne, if_pos hcomp]
      · simp [takenOf_cons, BootEvent.taken]
      · simp [outputOf_cons, BootEvent.output, extent]
  | hardware hcomp hnine hsize hans =>
      refine ⟨[.gunzip (imageGetLoad m pUh) 0x6000000 data len,
        .k230PrivUnzip (imageGetLoad m pUh) (sizeWord m data len) data len], ?_, ?_, ?_⟩
      · rw [k230BootDecompToLoadAddr, if_pos hcomp, gunzip_hardware _ _ _ _ hnine,
          if_neg (Nat.not_lt.2 hsize), hans]
        simp
      · simp [takenOf_cons, BootEvent.taken]
      · simp [outputOf_cons, BootEvent.output, extent]
  | @software offset _ _ hcomp hnine hparse hoffset hans =>
      refine ⟨[.gunzip (imageGetLoad m pUh) 0x6000000 data len,
        .zunzip (imageGetLoad m pUh) 0x6000000 data len offset.toNat], ?_, ?_, ?_⟩
      · rw [k230BootDecompToLoadAddr, if_pos hcomp, gunzip_software _ _ _ hnine hparse,
          if_neg (Int.not_lt.2 hoffset), hans]
        simp
      · simp [takenOf_cons, BootEvent.taken]
      · simp [outputOf_cons, BootEvent.output, extent, hans]

/-- A `gunzip` that returns 0 has had its answer from the hardware or from `zunzip`. -/
theorem delivers_of_gunzip (hcomp : imageGetComp m pUh = ihCompGzip)
    (h : (gunzip z.toUnzip m (imageGetLoad m pUh) 0x6000000 data len).ret = some 0) :
    ∃ taken n after, Delivers z m pUh data len taken n after := by
  by_cases hnine : m (data + 2) = 9
  · rw [gunzip_hardware _ _ _ _ hnine] at h
    split_ifs at h with hlong
    · simp at h
    · have hzero := Option.some.inj h
      exact ⟨_, _, _, .hardware hcomp hnine (Nat.not_lt.1 hlong) (Prod.ext hzero rfl)⟩
  · cases hparse : gzipParseHeader m data len with
    | none =>
        rw [gunzip_endless _ _ _ hnine hparse] at h
        cases h
    | some offset =>
        rw [gunzip_software _ _ _ hnine hparse] at h
        split_ifs at h with hneg
        · have hzero := Option.some.inj h
          omega
        · have hzero := Option.some.inj h
          exact ⟨_, _, _, .software hcomp hnine hparse (Int.not_lt.1 hneg) (Prod.ext hzero rfl)⟩

/-- Only what can be unpacked is answered with 0. -/
theorem delivers_of_ret
    (h : (k230BootDecompToLoadAddr z.toUnzip m pUh 0x6000000 data len).ret = some 0) :
    ∃ taken n after, Delivers z m pUh data len taken n after := by
  rcases comp_of_ret_eq_zero h with hgzip | hnone
  · refine delivers_of_gunzip hgzip ?_
    rw [k230BootDecompToLoadAddr, if_pos hgzip] at h
    cases hret : (gunzip z.toUnzip m (imageGetLoad m pUh) 0x6000000 data len).ret with
    | none => simp [hret] at h
    | some ret =>
        by_cases hzero : ret = 0
        · rw [hzero]
        · simp [hret, hzero] at h
  · exact ⟨_, _, _, .copied hnone⟩

/-- The run of a component that can be unpacked. -/
theorem bootPlain_of_delivers (hsource : bootSource m pUh = some (data, len))
    (h : Delivers z m pUh data len taken n after) :
    (bootPlain z.toUnzip m pUh).outcome = .handedOver (imageGetLoad after pUh) ∧
      (bootPlain z.toUnzip m pUh).mem = after ∧
      takenOf z m (bootPlain z.toUnzip m pUh).trace =
        Set.Ico pUh (pUh + imageGetHeaderSize) ∪ taken ∧
      outputOf z m (bootPlain z.toUnzip m pUh).trace = extent (imageGetLoad m pUh) n := by
  rcases decomp_of_delivers h with ⟨trace, hdecomp, htaken, houtput⟩
  rw [bootPlain_of_bootSource hsource]
  simp only [unpackAndRun, hdecomp, takenOf_cons, outputOf_cons, htaken, houtput, BootEvent.taken,
    BootEvent.output, Set.empty_union, if_true, and_self]

end

section
variable {pl : Platform} {z : Inflater} {m : ByteMem} {pfh : Nat} {plaint : List UInt8}

/-! ## Runs of an authentic image -/

theorem Authentic.check_eq (hhash : pl.pufs.HashTotal)
    (hmagic : (headAt m pfh).magic = k230ImageMagicNum)
    (hdriver : SecureType (headAt m pfh) → pl.k230Pufs = true) (h : Authentic pl m pfh plaint) :
    k230BootCheckAndGetPlainData pl m pfh = .ok (released pl m pfh plaint) :=
  (check_eq_ok_iff hhash).2 ⟨hmagic, h.accepts hdriver⟩

/-- Behind the check the header is read four bytes into the plaintext. -/
theorem bootSysBin_of_check_eq {u : Unzip}
    (h : k230BootCheckAndGetPlainData pl m pfh = .ok (released pl m pfh plaint)) :
    k230ImgBootSysBin pl u m pfh =
      bootPlain u (released pl m pfh plaint).mem (plainStart pl m pfh + 4) := by
  simp [k230ImgBootSysBin, h, released_addr]

theorem bootSysBin_of_check_error {u : Unzip} {ret : Int}
    (h : k230BootCheckAndGetPlainData pl m pfh = .error ret) :
    k230ImgBootSysBin pl u m pfh = ⟨.returned ret, m, []⟩ := by
  simp [k230ImgBootSysBin, h]

/-- With enough plaintext behind it, the header is inside the verified bytes. -/
theorem header_subset_iff :
    Set.Ico (plainStart pl m pfh + 4) (plainStart pl m pfh + 4 + imageGetHeaderSize) ⊆
        verifiedRange pl m pfh plaint ↔ 4 + imageGetHeaderSize ≤ plaint.length := by
  rw [verifiedRange, Set.Ico_subset_Ico_iff (by simp [imageGetHeaderSize])]
  omega

/-- The header is parsed at one address. -/
theorem eq_of_parseHeader_mem {u : Unzip} {pUh pUh' : Nat}
    (h : .parseHeader pUh' ∈ (bootPlain u m pUh).trace) : pUh' = pUh := by
  rcases mem_trace_bootPlain h with h | ⟨hdest, _⟩
  · cases h
    rfl
  · cases hdest

/-! ## The condition is enough -/

/-- A guarded image is authentic when it is accepted. -/
theorem Guarded.authentic_of_check (hhash : pl.pufs.HashTotal)
    (hguard : (headAt m pfh).magic = k230ImageMagicNum → Guarded pl z m pfh) {r : Plain}
    (h : k230BootCheckAndGetPlainData pl m pfh = .ok r) :
    Guarded pl z m pfh ∧ ∃ plaint, Authentic pl m pfh plaint ∧ r = released pl m pfh plaint := by
  rcases (check_eq_ok_iff hhash).1 h with ⟨hmagic, haccepts⟩
  have hg := hguard hmagic
  exact ⟨hg, haccepts.authentic hg.driver hg.room⟩

/-- A jump of an authentic, guarded image. -/
theorem Guarded.jumped (hg : Guarded pl z m pfh) (hauth : Authentic pl m pfh plaint) {entry : Nat}
    (hout : (bootPlain z.toUnzip (released pl m pfh plaint).mem (plainStart pl m pfh + 4)).outcome =
      .handedOver entry) :
    takenOf z (released pl m pfh plaint).mem
        (bootPlain z.toUnzip (released pl m pfh plaint).mem (plainStart pl m pfh + 4)).trace ⊆
          verifiedRange pl m pfh plaint ∧
      VerifiedAt (verifiedRange pl m pfh plaint)
        (outputOf z (released pl m pfh plaint).mem
          (bootPlain z.toUnzip (released pl m pfh plaint).mem (plainStart pl m pfh + 4)).trace)
        (released pl m pfh plaint).mem
        (bootPlain z.toUnzip (released pl m pfh plaint).mem (plainStart pl m pfh + 4)).mem entry := by
  rcases exists_range_of_handedOver hout with ⟨data, len, hsource, hret, _⟩
  rcases delivers_of_ret hret with ⟨taken, n, after, hdel⟩
  rcases bootPlain_of_delivers hsource hdel with ⟨hrun, hmem, htaken, houtput⟩
  rw [hrun] at hout
  cases hout
  rw [htaken, houtput, hmem]
  constructor
  · exact Set.union_subset (header_subset_iff.2 (hg.header plaint hauth))
      (hg.component plaint data len taken n after hauth hsource hdel)
  · exact hg.entry plaint data len taken n after hauth hsource hdel

theorem Guarded.failClosed (hhash : pl.pufs.HashTotal)
    (hguard : (headAt m pfh).magic = k230ImageMagicNum → Guarded pl z m pfh) :
    FailClosed pl z m pfh := by
  cases hcheck : k230BootCheckAndGetPlainData pl m pfh with
  | error ret =>
      -- A refused image leaves an empty trace and no jump.
      have hrun := bootSysBin_of_check_error (u := z.toUnzip) hcheck
      refine ⟨?_, ?_, ?_⟩
      · intro r hr
        rw [hcheck] at hr
        cases hr
      · intro pUh he
        rw [hrun] at he
        exact absurd he List.not_mem_nil
      · intro r entry hr
        rw [hcheck] at hr
        cases hr
  | ok r =>
      rcases Guarded.authentic_of_check hhash hguard hcheck with ⟨hg, plaint, hauth, rfl⟩
      have hrun := bootSysBin_of_check_eq (u := z.toUnzip) hcheck
      refine ⟨?_, ?_, ?_⟩
      · intro r hr
        rw [hcheck] at hr
        obtain rfl := Except.ok.inj hr
        exact ⟨plaint, hauth, released_addr, hauth.read_released⟩
      · intro pUh he
        rw [hrun] at he
        obtain rfl := eq_of_parseHeader_mem he
        exact ⟨plaint, hauth, header_subset_iff.2 (hg.header plaint hauth)⟩
      · intro r entry hr hout
        rw [hcheck] at hr
        obtain rfl := Except.ok.inj hr
        rw [hrun] at hout ⊢
        exact ⟨plaint, hauth, hg.jumped hauth hout⟩

/-! ## The condition is needed -/

/-- Without the driver a secure image is accepted and no address is set. -/
theorem FailClosed.driver (hhash : pl.pufs.HashTotal)
    (hmagic : (headAt m pfh).magic = k230ImageMagicNum) (hclosed : FailClosed pl z m pfh)
    (hsecure : SecureType (headAt m pfh)) : pl.k230Pufs = true := by
  by_contra hno
  have hok : k230BootCheckAndGetPlainData pl m pfh = .ok ⟨none, m⟩ :=
    (check_eq_ok_iff hhash).2 ⟨hmagic, .unchecked (Bool.eq_false_iff.2 hno) hsecure⟩
  rcases hclosed.checked _ hok with ⟨_, _, haddr, _⟩
  cases haddr

theorem Authentic.room (hauth : Authentic pl m pfh plaint) {text tag plaint' : List UInt8}
    (hopens : GcmOpens pl.pufs (headAt m pfh) text tag plaint') :
    16 ≤ (headAt m pfh).length.toNat := by
  cases hauth with
  | noneSecurity htype _ _ _ => exact absurd htype hopens.secureType.ne_noneSecurity
  | gcm hpayload htag _ => exact (gcm_parts_unique hpayload htag).1
  | chinese htype _ _ _ => exact absurd htype hopens.ne_chinese

/-- A component that can be unpacked is jumped to, so its bytes have to be verified. -/
theorem FailClosed.component (hhash : pl.pufs.HashTotal)
    (hmagic : (headAt m pfh).magic = k230ImageMagicNum) (hclosed : FailClosed pl z m pfh)
    (hauth : Authentic pl m pfh plaint) {data len n : Nat} {taken : Set Nat} {after : ByteMem}
    (hsource : bootSource (released pl m pfh plaint).mem (plainStart pl m pfh + 4) = some (data, len))
    (hdel : Delivers z (released pl m pfh plaint).mem (plainStart pl m pfh + 4) data len taken n
      after) :
    taken ⊆ verifiedRange pl m pfh plaint ∧
      VerifiedAt (verifiedRange pl m pfh plaint)
        (extent (imageGetLoad (released pl m pfh plaint).mem (plainStart pl m pfh + 4)) n)
        (released pl m pfh plaint).mem after (imageGetLoad after (plainStart pl m pfh + 4)) := by
  have hcheck := hauth.check_eq hhash hmagic (FailClosed.driver hhash hmagic hclosed)
  have hrun := bootSysBin_of_check_eq (u := z.toUnzip) hcheck
  rcases bootPlain_of_delivers hsource hdel with ⟨hout, hmem, htaken, houtput⟩
  rw [← hrun] at hout hmem htaken houtput
  rcases hclosed.jumped _ _ hcheck hout with ⟨plaint', hauth', hsub, hentry⟩
  -- The plaintext of an image is unique.
  rw [← hauth.unique hauth', htaken] at hsub
  rw [← hauth.unique hauth', houtput, hmem] at hentry
  exact ⟨fun a ha => hsub (Or.inr ha), hentry⟩

theorem FailClosed.guarded (hhash : pl.pufs.HashTotal)
    (hmagic : (headAt m pfh).magic = k230ImageMagicNum) (hclosed : FailClosed pl z m pfh) :
    Guarded pl z m pfh := by
  have hdriver := FailClosed.driver hhash hmagic hclosed
  refine ⟨hdriver, ?_, ?_, ?_, ?_⟩
  · -- an image that opens is accepted, and what is accepted has room for its tag
    intro plaint hopens
    have haccepts : Accepts pl m pfh (Plain.decrypted pl m plaint) :=
      .gcm (hdriver hopens.secureType) hopens
    obtain ⟨plaint', hauth, _, _⟩ :=
      hclosed.checked _ ((check_eq_ok_iff hhash).2 ⟨hmagic, haccepts⟩)
    exact hauth.room hopens
  · -- every accepted image has its header parsed
    intro plaint hauth
    have hcheck := hauth.check_eq hhash hmagic hdriver
    have hparse : BootEvent.parseHeader (plainStart pl m pfh + 4) ∈
        (k230ImgBootSysBin pl z.toUnzip m pfh).trace := by
      rw [bootSysBin_of_check_eq hcheck]
      exact parseHeader_mem_trace
    rcases hclosed.parsed _ hparse with ⟨plaint', hauth', hsub⟩
    rw [← hauth.unique hauth'] at hsub
    exact header_subset_iff.1 hsub
  · intro plaint data len taken n after hauth hsource hdel
    exact (hclosed.component hhash hmagic hauth hsource hdel).1
  · intro plaint data len taken n after hauth hsource hdel
    exact (hclosed.component hhash hmagic hauth hsource hdel).2

end

/-! ## An image that boots, and one that should not -/

/-- A plain payload: version bytes, the uImage header of an uncompressed `uboot`, one instruction. -/
def ubootPayload : List UInt8 :=
  [0, 0, 0, 0,
    0x27, 0x05, 0x19, 0x56, 0, 0, 0, 0, 0, 0, 0, 0, 0, 0, 0, 4,
    0x08, 0, 0, 0, 0x08, 0, 0, 0, 0, 0, 0, 0, 17, 26, 5, 0] ++
    ascii "uboot" ++ List.replicate 27 0 ++ [0x13, 0, 0, 0]

/-- Its SHA-256 digest. -/
def ubootDigest : Digest :=
  ⟨[0x78, 0x22, 0x0b, 0x7b, 0x85, 0x41, 0x39, 0x0a, 0x7b, 0xc1, 0x79, 0x25, 0x9f, 0x5a, 0xbf, 0x29,
    0x86, 0x76, 0xb2, 0x1b, 0xd6, 0x1e, 0xe2, 0xd1, 0x92, 0x67, 0x6c, 0x2f, 0x8b, 0x91, 0x57, 0xf9], rfl⟩

def ubootHead : FirmwareHead where
  magic := k230ImageMagicNum
  length := 72
  cryptoType := CryptoType.noneSecurity.code
  verify := ubootDigest.1 ++ List.replicate 484 0
  verify_length := by rw [List.length_append, List.length_replicate, ubootDigest.2]

/-- A board with 128 MiB, its primitives tabulated at the inputs of the examples: the digest of
`ubootPayload` and no valid signature or ciphertext. -/
def demoPufs : Pufs where
  readProductMisc := some 0
  readPukHash _ := some Digest.zero
  hash _ message := some (if message = ubootPayload then ubootDigest else Digest.zero)
  rsaP1v15Verify _ _ _ _ := false
  decGcm _ _ _ := none
  sm2Verify _ _ _ _ _ _ := false
  decCbc _ _ := none
  decGcmPoc _ _ _ _ := none

def demoPlatform (k230Pufs : Bool) : Platform where
  k230Pufs := k230Pufs
  pufs := demoPufs
  sha256CsumWd message := if message = ubootPayload then ubootDigest else Digest.zero
  md := Digest.zero
  configMemBaseAddr := 0
  configMemTotalSize := 128 * 1024 * 1024

/-- No decompressor: every stream is refused. -/
def demoUnzip : Unzip where
  k230PrivUnzip _ _ _ _ m := (1, m)
  zunzip _ _ _ len _ m := (-1, m, len)

/-- It takes nothing of a stream. -/
def demoInflater : Inflater where
  toUnzip := demoUnzip
  totalIn _ _ _ _ _ _ := 0
  takes _ _ _ _ _ _ _ _ := ⟨rfl, rfl, fun h => absurd h (show (-1 : Int) ≠ 0 by decide)⟩

def ubootMem : ByteMem := ByteMem.write (fun _ => 0) 0x1000 (ubootHead.toBytes ++ ubootPayload)

theorem demoPufs_hashTotal : demoPufs.HashTotal := by
  intro algo message
  exact ⟨_, rfl⟩

theorem holdsImage_ubootMem : HoldsImage ubootMem 0x1000 ubootHead ubootPayload :=
  HoldsImage.write _ _ _ _

theorem length_ubootPayload : ubootPayload.length = 72 := by
  decide

theorem payload_ubootMem : payload ubootMem 0x1000 = ubootPayload :=
  holdsImage_ubootMem.payload_eq length_ubootPayload

theorem bootSource_ubootMem : bootSource ubootMem (0x1000 + 532) = some (0x1000 + 596, 4) := by
  decide +kernel

theorem not_secureType_ubootMem : ¬ SecureType (headAt ubootMem 0x1000) := by
  rw [holdsImage_ubootMem.headAt_eq]
  decide

theorem plainStart_ubootMem (k230Pufs : Bool) :
    plainStart (demoPlatform k230Pufs) ubootMem 0x1000 = 0x1000 + 528 := by
  rw [plainStart, holdsImage_ubootMem.headAt_eq]
  rfl

theorem Authentic.eq_ubootPayload {k230Pufs : Bool} {plaint : List UInt8}
    (hauth : Authentic (demoPlatform k230Pufs) ubootMem 0x1000 plaint) : plaint = ubootPayload := by
  cases hauth with
  | noneSecurity _ _ _ _ => exact payload_ubootMem
  | gcm _ _ hopens => exact absurd hopens.secureType not_secureType_ubootMem
  | chinese htype _ _ _ => exact absurd (.inl htype) not_secureType_ubootMem

theorem mem_released_ubootMem (k230Pufs : Bool) (plaint : List UInt8) :
    (released (demoPlatform k230Pufs) ubootMem 0x1000 plaint).mem = ubootMem := by
  rw [released_of_noneSecurity (by rw [holdsImage_ubootMem.headAt_eq]; rfl)]

/-- The instruction is moved to `0x8000000`, far from the header. -/
theorem imageGetLoad_moved_ubootMem :
    imageGetLoad (ubootMem.write (imageGetLoad ubootMem (0x1000 + 532))
      (ubootMem.read (0x1000 + 596) 4)) (0x1000 + 532) = imageGetLoad ubootMem (0x1000 + 532) := by
  decide +kernel

/-- Nothing of the image is compressed. -/
theorem Delivers.eq_ubootMem {data len n : Nat} {taken : Set Nat} {after : ByteMem}
    (h : Delivers demoInflater ubootMem (0x1000 + 532) data len taken n after) :
    taken = Set.Ico data (data + len) ∧ n = len ∧
      after = ubootMem.write (imageGetLoad ubootMem (0x1000 + 532)) (ubootMem.read data len) := by
  have hcomp : imageGetComp ubootMem (0x1000 + 532) ≠ ihCompGzip := by
    decide +kernel
  cases h with
  | copied _ => exact ⟨rfl, rfl, rfl⟩
  | hardware hgzip _ _ _ => exact absurd hgzip hcomp
  | software hgzip _ _ _ _ => exact absurd hgzip hcomp

theorem guarded_ubootMem (k230Pufs : Bool) :
    Guarded (demoPlatform k230Pufs) demoInflater ubootMem 0x1000 := by
  refine ⟨?_, ?_, ?_, ?_, ?_⟩
  · intro hsecure
    exact absurd hsecure not_secureType_ubootMem
  · intro plaint hopens
    exact absurd hopens.secureType not_secureType_ubootMem
  · intro plaint hauth
    rw [hauth.eq_ubootPayload, length_ubootPayload]
    decide
  · intro plaint data len taken n after hauth hsource hdel
    rw [plainStart_ubootMem, mem_released_ubootMem] at hsource hdel
    have hrange := bootSource_ubootMem.symm.trans hsource
    rcases Prod.mk.inj (Option.some.inj hrange) with ⟨rfl, rfl⟩
    rcases hdel.eq_ubootMem with ⟨rfl, _, _⟩
    rw [verifiedRange, plainStart_ubootMem, hauth.eq_ubootPayload, length_ubootPayload]
    exact Set.Ico_subset_Ico (by decide) (by decide)
  · intro plaint data len taken n after _ hsource hdel
    rw [plainStart_ubootMem, mem_released_ubootMem] at hsource hdel ⊢
    have hrange := bootSource_ubootMem.symm.trans hsource
    rcases Prod.mk.inj (Option.some.inj hrange) with ⟨rfl, rfl⟩
    rcases hdel.eq_ubootMem with ⟨_, rfl, rfl⟩
    have hheader : 0x1000 + 528 + 4 = 0x1000 + 532 := rfl
    left
    rw [hheader, imageGetLoad_moved_ubootMem, mem_extent]
    omega

/-- The same image with the crypto type changed to `GCM_ONLY`. -/
def retypedHead : FirmwareHead := { ubootHead with cryptoType := CryptoType.gcmOnly.code }

def retypedMem : ByteMem := ByteMem.write (fun _ => 0) 0x1000 (retypedHead.toBytes ++ ubootPayload)

theorem holdsImage_retypedMem : HoldsImage retypedMem 0x1000 retypedHead ubootPayload :=
  HoldsImage.write _ _ _ _

end Boot
end CanmvK230
