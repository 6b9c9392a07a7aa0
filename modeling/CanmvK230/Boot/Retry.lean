import CanmvK230.Boot.Pack
import CanmvK230.Boot.Windows

/-!
# Retry — what a failed `gunzip` leaves for the next call

`gunzip` repairs the method byte of a hardware stream before it looks at anything else, and stores the
size word in `*lenp` whatever the hardware answers; the software path stores in `*lenp` how far it got.
After an error the stream is therefore no longer taken for a hardware stream, or its length is another.

Main results:
* `gzipParseHeader_congr`: a header inside the source is parsed the same from any equal bytes;
* `gunzip_retry_hardware`, `gunzip_retry_software`: behind an error that left the source alone, a second
  call is like a first one;
* `errorAtomic_iff`: the calls whose error leaves the source alone.
-/

namespace CanmvK230
namespace Boot

open Lib

/-! ## The property -/

/-- The memories hold the same source. -/
def SameSource (src len : Nat) (m m' : ByteMem) : Prop :=
  ∀ a ∈ extent src len, m a = m' a

/-- The same return value and `*lenp`, and after a success the same output. -/
structure SameResult (dst : Nat) (r r' : Unpacked) : Prop where
  ret : r.ret = r'.ret
  len : r.len = r'.len
  output : r'.ret = some 0 → ∀ a ∈ extent dst r'.len, r.mem a = r'.mem a

/-- After an error the source and its length are as before, and calling again, with any destination, is
like calling that way the first time; and the size word is only read from four bytes or more. -/
structure ErrorAtomic (z : Unzip) (m : ByteMem) (dst dstlen src len : Nat) : Prop where
  unchanged : ∀ ret, (gunzip z m dst dstlen src len).ret = some ret → ret ≠ 0 →
    SameSource src len (gunzip z m dst dstlen src len).mem m ∧
      (gunzip z m dst dstlen src len).len = len ∧
      ∀ dst' dstlen', SameResult dst'
        (gunzip z (gunzip z m dst dstlen src len).mem dst' dstlen' src
          (gunzip z m dst dstlen src len).len)
        (gunzip z m dst' dstlen' src len)
  trailer : m (src + 2) = 9 → 4 ≤ len

/-- The decompressors look at their source only, and a success fills the output. -/
structure ReadsSource (z : Unzip) : Prop where
  priv : ∀ dst dstlen src len m m', SameSource src len m m' →
    (z.k230PrivUnzip dst dstlen src len m).1 = (z.k230PrivUnzip dst dstlen src len m').1 ∧
      ((z.k230PrivUnzip dst dstlen src len m').1 = 0 → ∀ a ∈ extent dst dstlen,
        (z.k230PrivUnzip dst dstlen src len m).2 a = (z.k230PrivUnzip dst dstlen src len m').2 a)
  zunzip : ∀ dst dstlen src len offset m m', SameSource src len m m' →
    (z.zunzip dst dstlen src len offset m).1 = (z.zunzip dst dstlen src len offset m').1 ∧
      (z.zunzip dst dstlen src len offset m).2.2 = (z.zunzip dst dstlen src len offset m').2.2 ∧
      ((z.zunzip dst dstlen src len offset m').1 = 0 →
        ∀ a ∈ extent dst (z.zunzip dst dstlen src len offset m').2.2,
          (z.zunzip dst dstlen src len offset m).2.1 a = (z.zunzip dst dstlen src len offset m').2.1 a)

/-! ## The condition -/

/-- The hardware stream is long enough for its size word, which does not exceed the destination, and
the hardware succeeds, or it happens to put the source back with a size word that is the length. -/
structure HardwareKeeps (z : Unzip) (m : ByteMem) (dst dstlen src len : Nat) : Prop where
  trailer : 4 ≤ len
  room : sizeWord m src len ≤ dstlen
  outcome : (z.k230PrivUnzip dst (sizeWord m src len) src len (m.write (src + 2) [8])).1 = 0 ∨
    sizeWord m src len = len ∧
      SameSource src len
        (z.k230PrivUnzip dst (sizeWord m src len) src len (m.write (src + 2) [8])).2 m

/-- Behind a good header `zunzip` succeeds, or it happens to have stored as many bytes as the source
has, and none of them there. -/
def SoftwareKeeps (z : Unzip) (m : ByteMem) (dst dstlen src len : Nat) : Prop :=
  ∀ offset, gzipParseHeader m src len = some offset → 0 ≤ offset →
    (z.zunzip dst dstlen src len offset.toNat m).1 = 0 ∨
      (z.zunzip dst dstlen src len offset.toNat m).2.2 = len ∧
        SameSource src len (z.zunzip dst dstlen src len offset.toNat m).2.1 m

def KeepsSource (z : Unzip) (m : ByteMem) (dst dstlen src len : Nat) : Prop :=
  if m (src + 2) = 9 then HardwareKeeps z m dst dstlen src len
  else SoftwareKeeps z m dst dstlen src len

/-! ## Headers -/

section
variable {z : Unzip} {m m' : ByteMem} {dst dstlen src len : Nat}

theorem SameSource.symm (h : SameSource src len m m') : SameSource src len m' m :=
  fun a ha => (h a ha).symm

theorem SameSource.at (h : SameSource src len m m') {i : Nat} (hi : i < len) :
    m (src + i) = m' (src + i) :=
  h (src + i) (mem_extent.2 ⟨Nat.le_add_right _ _, Nat.add_lt_add_left hi _⟩)

/-- A string that ends in front of `len` ends there in any memory with the same source. -/
theorem skipString_congr (h : SameSource src len m m') {fuel i k : Nat}
    (hskip : skipString m src fuel i = some k) (hk : k ≤ len) :
    i < k ∧ skipString m' src fuel i = some k := by
  induction fuel generalizing i with
  | zero => simp [skipString] at hskip
  | succ fuel ih =>
      rw [skipString] at hskip
      split at hskip
      · rename_i hzero
        cases hskip
        refine ⟨Nat.lt_succ_self i, ?_⟩
        rw [skipString, ← h.at hk, if_pos hzero]
      · rename_i hne
        rcases ih hskip with ⟨hlt, hrest⟩
        refine ⟨by omega, ?_⟩
        rw [skipString, ← h.at (by omega), if_neg hne, hrest]

/-- An optional string of the header. -/
theorem optString_congr (h : SameSource src len m m') {flag : Prop} [Decidable flag] {fuel i k : Nat}
    (hskip : (if flag then skipString m src fuel i else some i) = some k) (hk : k ≤ len) :
    i ≤ k ∧ (if flag then skipString m' src fuel i else some i) = some k := by
  by_cases hflag : flag
  · rw [if_pos hflag] at hskip ⊢
    rcases skipString_congr h hskip hk with ⟨hlt, hrest⟩
    exact ⟨hlt.le, hrest⟩
  · rw [if_neg hflag] at hskip ⊢
    cases hskip
    exact ⟨le_rfl, rfl⟩

/-- The offset behind the extra field. -/
def extraEnd (m : ByteMem) (src : Nat) : Nat :=
  if m (src + 3) &&& 4 ≠ 0 then 12 + (m (src + 10)).toNat + (m (src + 11)).toNat * 2 ^ 8 else 10

/-- The offset behind the checksum. -/
def crcEnd (m : ByteMem) (src i : Nat) : Nat :=
  if m (src + 3) &&& 2 ≠ 0 then i + 2 else i

theorem ten_le_extraEnd (m : ByteMem) (src : Nat) : 10 ≤ extraEnd m src := by
  unfold extraEnd
  split <;> omega

theorem le_crcEnd (m : ByteMem) (src i : Nat) : i ≤ crcEnd m src i := by
  unfold crcEnd
  split <;> omega

theorem extraEnd_congr (h : SameSource src len m m') (hend : extraEnd m src ≤ len) :
    extraEnd m' src = extraEnd m src := by
  have hten := ten_le_extraEnd m src
  have hflags : m' (src + 3) = m (src + 3) := h.symm.at (by omega)
  unfold extraEnd at hend ⊢
  rw [hflags]
  by_cases hextra : m (src + 3) &&& 4 ≠ 0
  · -- the length of the field lies in front of its end
    rw [if_pos hextra] at hend
    rw [if_pos hextra, if_pos hextra, h.symm.at (i := 10) (by omega), h.symm.at (i := 11) (by omega)]
  · rw [if_neg hextra, if_neg hextra]

theorem crcEnd_congr (h : SameSource src len m m') (hlen : 3 < len) (i : Nat) :
    crcEnd m' src i = crcEnd m src i := by
  rw [crcEnd, crcEnd, h.symm.at hlen]

/-- The parts of a header one behind the other. -/
theorem gzipParseHeader_eq (m : ByteMem) (src len : Nat) :
    gzipParseHeader m src len =
      if m (src + 2) ≠ 8 ∨ m (src + 3) &&& 0xe0 ≠ 0 then
        some (-1)
      else
        (if m (src + 3) &&& 8 ≠ 0 then skipString m src (2 ^ 64) (extraEnd m src)
          else some (extraEnd m src)).bind fun i =>
        (if m (src + 3) &&& 0x10 ≠ 0 then skipString m src (2 ^ 64) i else some i).bind fun i =>
          some (if crcEnd m src i ≥ len then -1 else (crcEnd m src i : Int)) := by
  unfold gzipParseHeader
  simp only [Option.bind_eq_bind, Option.pure_def, extraEnd, crcEnd]
  by_cases hname : m (src + 3) &&& 8 ≠ 0
  · by_cases hcomment : m (src + 3) &&& 0x10 ≠ 0
    · simp only [if_pos hname, if_pos hcomment]
      rfl
    · simp only [if_pos hname, if_neg hcomment]
      rfl
  · by_cases hcomment : m (src + 3) &&& 0x10 ≠ 0
    · simp only [if_neg hname, if_pos hcomment]
      rfl
    · simp only [if_neg hname, if_neg hcomment]
      rfl

/-- A header inside the source is parsed the same from any equal bytes. -/
theorem gzipParseHeader_congr (h : SameSource src len m m') {offset : Int} (hpos : 0 ≤ offset)
    (hparse : gzipParseHeader m src len = some offset) :
    10 < len ∧ gzipParseHeader m' src len = some offset := by
  rw [gzipParseHeader_eq] at hparse
  split at hparse
  · cases hparse
    omega
  · rename_i hgood
    rcases Option.bind_eq_some_iff.1 hparse with ⟨i₁, hname, hparse⟩
    rcases Option.bind_eq_some_iff.1 hparse with ⟨i₂, hcomment, hparse⟩
    have hend : crcEnd m src i₂ < len := by
      by_contra hout
      rw [if_pos (Nat.le_of_not_lt hout)] at hparse
      cases hparse
      omega
    have hcrc := le_crcEnd m src i₂
    have hten := ten_le_extraEnd m src
    rcases optString_congr h hcomment (by omega) with ⟨hle₂, hcomment'⟩
    rcases optString_congr h hname (by omega) with ⟨hle₁, hname'⟩
    -- the bytes that the parts depend on lie in front of `len`
    have hmethod : m' (src + 2) = m (src + 2) := h.symm.at (by omega)
    have hflags : m' (src + 3) = m (src + 3) := h.symm.at (by omega)
    have hextra : extraEnd m' src = extraEnd m src := extraEnd_congr h (by omega)
    have hcrc' : crcEnd m' src i₂ = crcEnd m src i₂ := crcEnd_congr h (by omega) i₂
    refine ⟨by omega, ?_⟩
    rw [gzipParseHeader_eq, hmethod, hflags, if_neg hgood, hextra, hname', Option.bind_some,
      hcomment', Option.bind_some, hcrc']
    exact hparse

/-! ## Calling again -/

/-- Repairing the method byte keeps two memories alike. -/
theorem SameSource.write (h : SameSource src len m m') (a : Nat) (bs : List UInt8) :
    SameSource src len (m.write a bs) (m'.write a bs) := by
  intro x hx
  simp only [ByteMem.write, h x hx]

theorem sizeWord_congr (h : SameSource src len m m') (hlen : 4 ≤ len) :
    sizeWord m src len = sizeWord m' src len := by
  have htrailer : trailerAddr src len = src + len - 4 := if_pos (by omega)
  have hread : (m.write (src + 2) [8]).read (trailerAddr src len) 4 =
      (m'.write (src + 2) [8]).read (trailerAddr src len) 4 := by
    apply ByteMem.read_congr
    intro a h₁ h₂
    rw [htrailer] at h₁ h₂
    exact h.write (src + 2) [8] a (mem_extent.2 ⟨by omega, by omega⟩)
  rw [sizeWord, sizeWord, le32At, le32At, hread]

theorem SameResult.of_eq {r r' : Unpacked} (h : r = r') : SameResult dst r r' := by
  subst h
  exact ⟨rfl, rfl, fun _ _ _ => rfl⟩

/-- On another memory with the same hardware stream a call has the same result. -/
theorem gunzip_retry_hardware (hz : ReadsSource z) (h : SameSource src len m m')
    (hnine : m' (src + 2) = 9) (hlen : 4 ≤ len) (dst dstlen : Nat) :
    SameResult dst (gunzip z m dst dstlen src len) (gunzip z m' dst dstlen src len) := by
  have hnine' : m (src + 2) = 9 := (h.at (by omega)).trans hnine
  have hsize := sizeWord_congr h hlen
  rw [gunzip_hardware z dst dstlen len hnine', gunzip_hardware z dst dstlen len hnine, hsize]
  by_cases hlong : sizeWord m' src len > dstlen
  · rw [if_pos hlong, if_pos hlong]
    refine ⟨rfl, rfl, ?_⟩
    intro hret
    cases hret
  · rw [if_neg hlong, if_neg hlong]
    rcases hz.priv dst (sizeWord m' src len) src len _ _ (h.write (src + 2) [8]) with ⟨hret, hout⟩
    refine ⟨congrArg some hret, rfl, ?_⟩
    intro hzero
    exact hout (Option.some.inj hzero)

/-- So has a call on another memory with the same stream behind a good header. -/
theorem gunzip_retry_software (hz : ReadsSource z) (h : SameSource src len m m')
    (hnine : m' (src + 2) ≠ 9) {offset : Int} (hparse : gzipParseHeader m' src len = some offset)
    (hpos : 0 ≤ offset) (dst dstlen : Nat) :
    SameResult dst (gunzip z m dst dstlen src len) (gunzip z m' dst dstlen src len) := by
  rcases gzipParseHeader_congr h.symm hpos hparse with ⟨hlen, hparse'⟩
  have hnine' : m (src + 2) ≠ 9 := by
    rw [h.at (by omega)]
    exact hnine
  have hneg : ¬ offset < 0 := not_lt.2 hpos
  rw [gunzip_software z dst dstlen hnine' hparse', gunzip_software z dst dstlen hnine hparse,
    if_neg hneg, if_neg hneg]
  rcases hz.zunzip dst dstlen src len offset.toNat _ _ h with ⟨hret, hlenp, hout⟩
  refine ⟨congrArg some hret, hlenp, ?_⟩
  intro hzero
  exact hout (Option.some.inj hzero)

/-! ## When an error leaves the source alone -/

theorem patched_eq (m : ByteMem) (src : Nat) : m.write (src + 2) [8] (src + 2) = 8 := by
  simp [ByteMem.write]

/-- A call on a hardware stream. -/
theorem errorAtomic_hardware (hz : ReadsSource z) (hnine : m (src + 2) = 9) :
    ErrorAtomic z m dst dstlen src len ↔ HardwareKeeps z m dst dstlen src len := by
  have hrun := gunzip_hardware z dst dstlen len hnine
  constructor
  · intro h
    have hlen := h.trailer hnine
    have hroom : ¬ sizeWord m src len > dstlen := by
      intro hlong
      rw [if_pos hlong] at hrun
      -- the repaired byte stays behind
      have hsource := (h.unchanged (-4) (by rw [hrun]) (by decide)).1.at (i := 2) (by omega)
      rw [hrun, hnine] at hsource
      exact absurd ((patched_eq m src).symm.trans hsource) (by decide)
    refine ⟨hlen, not_lt.1 hroom, ?_⟩
    rw [if_neg hroom] at hrun
    by_cases hzero : (z.k230PrivUnzip dst (sizeWord m src len) src len
        (m.write (src + 2) [8])).1 = 0
    · exact .inl hzero
    · have hkept := h.unchanged _ (by rw [hrun]) hzero
      rw [hrun] at hkept
      exact .inr ⟨hkept.2.1, hkept.1⟩
  · intro h
    refine ⟨?_, fun _ => h.trailer⟩
    intro ret hret hne
    rw [if_neg (not_lt.2 h.room)] at hrun
    rw [hrun] at hret ⊢
    cases hret
    rcases h.outcome with hzero | ⟨hsize, hsource⟩
    · exact absurd hzero hne
    · refine ⟨hsource, hsize, ?_⟩
      intro dst' dstlen'
      rw [hsize] at hsource ⊢
      exact gunzip_retry_hardware hz hsource hnine h.trailer dst' dstlen'

/-- A call on any other stream. -/
theorem errorAtomic_software (hz : ReadsSource z) (hnine : m (src + 2) ≠ 9) :
    ErrorAtomic z m dst dstlen src len ↔ SoftwareKeeps z m dst dstlen src len := by
  constructor
  · intro h offset hparse hpos
    have hrun := gunzip_software z dst dstlen hnine hparse
    rw [if_neg (not_lt.2 hpos)] at hrun
    by_cases hzero : (z.zunzip dst dstlen src len offset.toNat m).1 = 0
    · exact .inl hzero
    · have hkept := h.unchanged _ (by rw [hrun]) hzero
      rw [hrun] at hkept
      exact .inr ⟨hkept.2.1, hkept.1⟩
  · intro h
    refine ⟨?_, fun hmethod => absurd hmethod hnine⟩
    intro ret hret hne
    cases hparse : gzipParseHeader m src len with
    | none => simp [gunzip, hnine, hparse] at hret
    | some offset =>
        have hrun := gunzip_software z dst dstlen hnine hparse
        by_cases hneg : offset < 0
        · -- the header is refused before anything is stored
          rw [if_pos hneg] at hrun
          rw [hrun]
          exact ⟨fun _ _ => rfl, rfl, fun _ _ => .of_eq rfl⟩
        · rw [if_neg hneg] at hrun
          rw [hrun] at hret ⊢
          cases hret
          rcases h offset hparse (not_lt.1 hneg) with hzero | ⟨hsize, hsource⟩
          · exact absurd hzero hne
          · refine ⟨hsource, hsize, ?_⟩
            intro dst' dstlen'
            simp only [hsize]
            exact gunzip_retry_software hz hsource hnine hparse (not_lt.1 hneg) dst' dstlen'

/-- A call is error-atomic exactly when it keeps its source. -/
theorem errorAtomic_iff (hz : ReadsSource z) (m : ByteMem) (dst dstlen src len : Nat) :
    ErrorAtomic z m dst dstlen src len ↔ KeepsSource z m dst dstlen src len := by
  unfold KeepsSource
  by_cases hnine : m (src + 2) = 9
  · rw [if_pos hnine]
    exact errorAtomic_hardware hz hnine
  · rw [if_neg hnine]
    exact errorAtomic_software hz hnine

end

/-! ## A hardware stream of 4 bytes -/

/-- The packed stream of the `nop` system, 24 bytes with its method byte marked. -/
def nopStream : ByteMem := ByteMem.write (fun _ => 0) 0x1000 (k230Gzip nopGz)

theorem readsSource_nopUnzip : ReadsSource nopUnzip where
  priv dst dstlen src len m m' h := by
    have hread : m.read src len = m'.read src len := ByteMem.read_congr fun a h₁ h₂ => h a ⟨h₁, h₂⟩
    simp only [nopUnzip, hread]
    by_cases hcond : dstlen = nopInput.length ∧ m'.read src len = nopGz
    · rw [if_pos hcond, if_pos hcond]
      refine ⟨rfl, ?_⟩
      intro _ a ha
      rw [hcond.1, mem_extent] at ha
      have hin : a - dst < nopInput.length := by omega
      have heq : dst + (a - dst) = a := by omega
      rw [← heq]
      exact (ByteMem.write_at _ dst hin).trans (ByteMem.write_at _ dst hin).symm
    · rw [if_neg hcond, if_neg hcond]
      exact ⟨rfl, fun hzero => absurd hzero (show (1 : Int) ≠ 0 by decide)⟩
  zunzip dst dstlen src len offset m m' _ := by
    refine ⟨rfl, rfl, ?_⟩
    intro hzero
    cases hzero

/-- With room for the output the call is error-atomic. -/
theorem errorAtomic_nopStream : ErrorAtomic nopUnzip nopStream 0x8000 4 0x1000 24 := by
  refine (errorAtomic_iff readsSource_nopUnzip nopStream 0x8000 4 0x1000 24).2 ?_
  have hnine : nopStream (0x1000 + 2) = 9 := by
    decide
  rw [KeepsSource, if_pos hnine]
  exact ⟨by decide, by decide +kernel, .inl (by decide +kernel)⟩

/-- Without it the call returns -4, and a second one with room finds no hardware stream any more. -/
theorem retry_takes_software_path :
    (gunzip nopUnzip nopStream 0x8000 3 0x1000 24).ret = some (-4) ∧
      (gunzip nopUnzip nopStream 0x8000 4 0x1000 24).ret = some 0 ∧
      (gunzip nopUnzip nopStream 0x8000 4 0x1000 24).mem.read 0x8000 4 = nopInput ∧
      (gunzip nopUnzip (gunzip nopUnzip nopStream 0x8000 3 0x1000 24).mem 0x8000 4 0x1000
        24).ret = some (-1) ∧
      ¬ ErrorAtomic nopUnzip nopStream 0x8000 3 0x1000 24 := by
  have hfirst : (gunzip nopUnzip nopStream 0x8000 3 0x1000 24).ret = some (-4) := by
    decide +kernel
  refine ⟨hfirst, by decide +kernel, by decide +kernel, by decide +kernel, ?_⟩
  intro h
  have hkept := (h.unchanged (-4) hfirst (by decide)).1.at (i := 2) (by decide)
  revert hkept
  decide +kernel

end Boot
end CanmvK230
