import CanmvK230.Boot.Check
import CanmvK230.Boot.UImage

/-!
# BootSys — from a checked firmware image to the jump into it

`k230_img_boot_sys_bin` checks the image, reads the uImage header behind the four version bytes of the
plaintext and starts `rtt` or `uboot`; both unpack one byte range with `gunzip` or `memmove` to the
load address of the header. The hardware decompressor and zlib are the parameter `Unzip`.

A run is kept with a trace of what it read as image content and what it called, so that a statement
about every byte range is a statement about every event of the trace.

Main results:
* `mem_trace_bootPlain`, `exists_mem_trace_bootPlain`: behind a successful check a run reads the uImage
  header and the one byte range `bootSource` that the header determines, whatever the decompressor does;
* `exists_range_of_handedOver`: control is given away only behind such a range, to the load address
  that the header then holds.
-/

namespace CanmvK230
namespace Boot

open Lib

/-! ## Runs -/

/-- The uses a boot run makes of memory as image content. -/
inductive BootEvent where
  | parseHeader (pUh : Nat)
  | gunzip (dst dstlen src len : Nat)
  | k230PrivUnzip (dst dstlen src len : Nat)
  | zunzip (dst dstlen src len offset : Nat)
  | memmove (dst src len : Nat)
deriving DecidableEq, Repr

/-- Address and length of the bytes an event takes from the image. -/
def BootEvent.range : BootEvent → Nat × Nat
  | .parseHeader pUh => (pUh, imageGetHeaderSize)
  | .gunzip _ _ src len => (src, len)
  | .k230PrivUnzip _ _ src len => (src, len)
  | .zunzip _ _ src len _ => (src, len)
  | .memmove _ src len => (src, len)

/-- The address to which an event moves bytes of the image, if it moves any. -/
def BootEvent.dest : BootEvent → Option Nat
  | .parseHeader _ => none
  | .gunzip dst _ _ _ => some dst
  | .k230PrivUnzip dst _ _ _ => some dst
  | .zunzip dst _ _ _ _ => some dst
  | .memmove dst _ _ => some dst

/-- The parts of the decompression that are not C code of the boot path. -/
structure Unzip where
  /-- `k230_priv_unzip`: the return value and the memory afterwards. -/
  k230PrivUnzip : (dst dstlen src len : Nat) → ByteMem → Int × ByteMem
  /-- `zunzip`: the return value, the memory and `*lenp` afterwards. -/
  zunzip : (dst dstlen src len offset : Nat) → ByteMem → Int × ByteMem × Nat

/-- What a decompression step leaves: its return value (`none` when a loop over the image finds no
end), the memory, `*lenp` and its trace. -/
structure Unpacked where
  ret : Option Int
  mem : ByteMem
  len : Nat
  trace : List BootEvent

/-! ## gunzip -/

/-- The loop `while (src[i++] != 0)`, with a bound on the bytes it may look at. -/
def skipString (m : ByteMem) (src : Nat) : Nat → Nat → Option Nat
  | 0, _ => none
  | fuel + 1, i => if m (src + i) = 0 then some (i + 1) else skipString m src fuel (i + 1)

/-- The offset of the compressed data behind a gzip header, or -1. -/
def gzipParseHeader (m : ByteMem) (src len : Nat) : Option Int := do
  let flags := m (src + 3)
  if m (src + 2) ≠ 8 ∨ flags &&& 0xe0 ≠ 0 then
    return -1
  -- The optional parts of the header, by their flags: extra field, name, comment, checksum.
  let i := if flags &&& 4 ≠ 0 then 12 + (m (src + 10)).toNat + (m (src + 11)).toNat * 2 ^ 8 else 10
  let i ← if flags &&& 8 ≠ 0 then skipString m src (2 ^ 64) i else some i
  let i ← if flags &&& 0x10 ≠ 0 then skipString m src (2 ^ 64) i else some i
  let i := if flags &&& 2 ≠ 0 then i + 2 else i
  return if i ≥ len then -1 else i

/-- The pointer `src + (*lenp) - 4`, computed in 64 bits. -/
def trailerAddr (src len : Nat) : Nat :=
  if 4 ≤ src + len then src + len - 4 else src + len + 2 ^ 64 - 4

/-- `gunzip` with `CONFIG_K230_GZIP`. The method byte 9 marks a stream for the hardware; the size of
the output is then read from the last four bytes. -/
def gunzip (z : Unzip) (m : ByteMem) (dst dstlen src len : Nat) : Unpacked :=
  let call := BootEvent.gunzip dst dstlen src len
  if m (src + 2) = 9 then
    -- The stream is repaired in place before the hardware sees it.
    let m' := m.write (src + 2) [8]
    let length := (le32At m' (trailerAddr src len)).toNat
    if length > dstlen then
      ⟨some (-4), m', len, [call]⟩
    else
      let r := z.k230PrivUnzip dst length src len m'
      ⟨some r.1, r.2, length, [call, .k230PrivUnzip dst length src len]⟩
  else
    match gzipParseHeader m src len with
    | none => ⟨none, m, len, [call]⟩
    | some offset =>
        if offset < 0 then
          ⟨some offset, m, len, [call]⟩
        else
          let r := z.zunzip dst dstlen src len offset.toNat m
          ⟨some r.1, r.2.1, r.2.2, [call, .zunzip dst dstlen src len offset.toNat]⟩

/-- The size of the output, from the last four bytes of a hardware stream. -/
def sizeWord (m : ByteMem) (src len : Nat) : Nat :=
  (le32At (m.write (src + 2) [8]) (trailerAddr src len)).toNat

section
variable {m : ByteMem} {src : Nat}

theorem gunzip_hardware (z : Unzip) (dst dstlen len : Nat) (hnine : m (src + 2) = 9) :
    gunzip z m dst dstlen src len =
      if sizeWord m src len > dstlen then
        ⟨some (-4), m.write (src + 2) [8], len, [.gunzip dst dstlen src len]⟩
      else
        ⟨some (z.k230PrivUnzip dst (sizeWord m src len) src len (m.write (src + 2) [8])).1,
          (z.k230PrivUnzip dst (sizeWord m src len) src len (m.write (src + 2) [8])).2,
          sizeWord m src len,
          [.gunzip dst dstlen src len, .k230PrivUnzip dst (sizeWord m src len) src len]⟩ := by
  rw [gunzip, if_pos hnine]
  rfl

theorem gunzip_software (z : Unzip) (dst dstlen : Nat) {len : Nat} (hnine : m (src + 2) ≠ 9)
    {offset : Int} (hparse : gzipParseHeader m src len = some offset) :
    gunzip z m dst dstlen src len =
      if offset < 0 then
        ⟨some offset, m, len, [.gunzip dst dstlen src len]⟩
      else
        ⟨some (z.zunzip dst dstlen src len offset.toNat m).1,
          (z.zunzip dst dstlen src len offset.toNat m).2.1,
          (z.zunzip dst dstlen src len offset.toNat m).2.2,
          [.gunzip dst dstlen src len, .zunzip dst dstlen src len offset.toNat]⟩ := by
  rw [gunzip, if_neg hnine, hparse]

theorem gunzip_endless (z : Unzip) (dst dstlen : Nat) {len : Nat} (hnine : m (src + 2) ≠ 9)
    (hparse : gzipParseHeader m src len = none) :
    gunzip z m dst dstlen src len = ⟨none, m, len, [.gunzip dst dstlen src len]⟩ := by
  rw [gunzip, if_neg hnine, hparse]

end

/-! ## k230_boot.c -/

/-- Every failure of `gunzip` is turned into -1. -/
def k230BootDecompToLoadAddr (z : Unzip) (m : ByteMem) (pUh desLen data len : Nat) : Unpacked :=
  let load := imageGetLoad m pUh
  -- Neither the checksums of the header nor the length of the plaintext are looked at.
  if imageGetComp m pUh = ihCompGzip then
    let r := gunzip z m load desLen data len
    { r with ret := r.ret.map fun ret => if ret ≠ 0 then -1 else ret }
  else if imageGetComp m pUh = ihCompNone then
    ⟨some 0, m.write load (m.read data len), len, [.memmove load data len]⟩
  else
    ⟨some (-2), m, len, []⟩

/-- How a boot run ends: with a return value, by giving control to an address, or, when a loop over
the image finds no end, not at all. -/
inductive Outcome where
  | returned (ret : Int)
  | handedOver (entry : Nat)
  | stuck
deriving DecidableEq, Repr

structure BootRun where
  outcome : Outcome
  mem : ByteMem
  trace : List BootEvent

/-- The common end of both system types: unpack, and on success jump to the load address, which is
read from the header once more. -/
def unpackAndRun (z : Unzip) (m : ByteMem) (pUh data len : Nat) : BootRun :=
  let r := k230BootDecompToLoadAddr z m pUh 0x6000000 data len
  let outcome := match r.ret with
    | none => Outcome.stuck
    | some ret => if ret = 0 then .handedOver (imageGetLoad r.mem pUh) else .returned ret
  ⟨outcome, r.mem, r.trace⟩

def k230BootRttUimage (z : Unzip) (m : ByteMem) (pUh : Nat) : BootRun :=
  match imageMultiGetimg m pUh 0 with
  | none => ⟨.stuck, m, []⟩
  | some (data, len) => unpackAndRun z m pUh data len

def k230BootUbootUimage (z : Unzip) (m : ByteMem) (pUh : Nat) : BootRun :=
  unpackAndRun z m pUh (imageGetData pUh) (imageGetDataSize m pUh)

/-- What follows a successful check: `pUh` is the header behind the version bytes. -/
def bootPlain (z : Unzip) (m : ByteMem) (pUh : Nat) : BootRun :=
  let parsed := [BootEvent.parseHeader pUh]
  if imageCheckMagic m pUh then
    if strcmpEq m (imageGetName pUh) "rtt" then
      let r := k230BootRttUimage z m pUh
      { r with trace := parsed ++ r.trace }
    else if strcmpEq m (imageGetName pUh) "uboot" then
      let r := k230BootUbootUimage z m pUh
      { r with trace := parsed ++ r.trace }
    else
      ⟨.returned (-4), m, parsed⟩
  else
    ⟨.returned (-3), m, parsed⟩

/-- `plain_addr` starts as 0 and keeps that value when the check does not set it. -/
def k230ImgBootSysBin (pl : Platform) (z : Unzip) (m : ByteMem) (fhBUff : Nat) : BootRun :=
  match k230BootCheckAndGetPlainData pl m fhBUff with
  | .error ret => ⟨.returned ret, m, []⟩
  -- The four version bytes in front of the uImage header are not used.
  | .ok plain => bootPlain z plain.mem (plain.addr.getD 0 + 4)

/-! ## The byte ranges of a run -/

/-- The byte range that would be unpacked for the header at `pUh`, if the boot path gets that far. -/
def bootSource (m : ByteMem) (pUh : Nat) : Option (Nat × Nat) :=
  if imageCheckMagic m pUh = false then none
  else if imageGetComp m pUh ≠ ihCompGzip ∧ imageGetComp m pUh ≠ ihCompNone then none
  else if strcmpEq m (imageGetName pUh) "rtt" then imageMultiGetimg m pUh 0
  else if strcmpEq m (imageGetName pUh) "uboot" then
    some (imageGetData pUh, imageGetDataSize m pUh)
  else none

section
variable {z : Unzip} {m : ByteMem} {pUh : Nat}

/-- `gunzip` takes the range it is given, whichever way it goes. -/
theorem mem_trace_gunzip {dst dstlen src len : Nat} {e : BootEvent}
    (he : e ∈ (gunzip z m dst dstlen src len).trace) : e.dest = some dst ∧ e.range = (src, len) := by
  have hcall : e = .gunzip dst dstlen src len → e.dest = some dst ∧ e.range = (src, len) := by
    intro h
    rw [h]
    exact ⟨rfl, rfl⟩
  simp only [gunzip] at he
  -- Hardware stream too long, hardware stream, and the software path with its header errors.
  split_ifs at he with hmethod hlong
  · exact hcall (List.mem_singleton.1 he)
  · rcases List.mem_pair.1 he with h | h
    · exact hcall h
    · rw [h]
      exact ⟨rfl, rfl⟩
  · split at he
    · exact hcall (List.mem_singleton.1 he)
    · split_ifs at he with hneg
      · exact hcall (List.mem_singleton.1 he)
      · rcases List.mem_pair.1 he with h | h
        · exact hcall h
        · rw [h]
          exact ⟨rfl, rfl⟩

theorem gunzip_mem_trace {dst dstlen src len : Nat} :
    BootEvent.gunzip dst dstlen src len ∈ (gunzip z m dst dstlen src len).trace := by
  simp only [gunzip]
  split_ifs
  · simp
  · simp
  · split
    · simp
    · split_ifs <;> simp

theorem mem_trace_decomp {desLen data len : Nat} {e : BootEvent}
    (he : e ∈ (k230BootDecompToLoadAddr z m pUh desLen data len).trace) :
    (imageGetComp m pUh = ihCompGzip ∨ imageGetComp m pUh = ihCompNone) ∧
      e.dest = some (imageGetLoad m pUh) ∧ e.range = (data, len) := by
  simp only [k230BootDecompToLoadAddr] at he
  split_ifs at he with hgzip hnone
  · exact ⟨.inl hgzip, mem_trace_gunzip he⟩
  · obtain rfl := List.mem_singleton.1 he
    exact ⟨.inr hnone, rfl, rfl⟩
  · exact absurd he List.not_mem_nil

theorem exists_mem_trace_decomp (z : Unzip) (desLen data len : Nat)
    (hcomp : imageGetComp m pUh = ihCompGzip ∨ imageGetComp m pUh = ihCompNone) :
    ∃ e ∈ (k230BootDecompToLoadAddr z m pUh desLen data len).trace,
      e.dest = some (imageGetLoad m pUh) ∧ e.range = (data, len) := by
  simp only [k230BootDecompToLoadAddr]
  split_ifs with hgzip hnone
  · exact ⟨_, gunzip_mem_trace, rfl, rfl⟩
  · exact ⟨_, List.mem_singleton.2 rfl, rfl, rfl⟩
  · exact absurd hcomp (by simp [hgzip, hnone])

/-- The jump is reached when the range was unpacked, and goes to the load address that the header
holds afterwards. -/
theorem handedOver_iff {data len entry : Nat} :
    (unpackAndRun z m pUh data len).outcome = .handedOver entry ↔
      (k230BootDecompToLoadAddr z m pUh 0x6000000 data len).ret = some 0 ∧
        entry = imageGetLoad (k230BootDecompToLoadAddr z m pUh 0x6000000 data len).mem pUh := by
  simp only [unpackAndRun]
  cases hret : (k230BootDecompToLoadAddr z m pUh 0x6000000 data len).ret with
  | none => simp
  | some ret =>
      by_cases hzero : ret = 0
      · simp [hzero, eq_comm]
      · simp [hzero]

/-- Without a supported compression type the jump is not reached. -/
theorem comp_of_ret_eq_zero {desLen data len : Nat}
    (h : (k230BootDecompToLoadAddr z m pUh desLen data len).ret = some 0) :
    imageGetComp m pUh = ihCompGzip ∨ imageGetComp m pUh = ihCompNone := by
  by_contra hcomp
  push Not at hcomp
  simp [k230BootDecompToLoadAddr, hcomp.1, hcomp.2] at h

/-- The three ways a run goes on behind a successful check: it stops at the header, it starts to
unpack the range that `bootSource` names, or it does not leave the table of a multi-file image. -/
theorem bootPlain_cases (z : Unzip) (m : ByteMem) (pUh : Nat) :
    (∃ ret, bootPlain z m pUh = ⟨.returned ret, m, [.parseHeader pUh]⟩ ∧ bootSource m pUh = none) ∨
    (bootPlain z m pUh = ⟨.stuck, m, [.parseHeader pUh]⟩ ∧ bootSource m pUh = none) ∨
    (∃ data len, bootPlain z m pUh = { unpackAndRun z m pUh data len with
        trace := .parseHeader pUh :: (unpackAndRun z m pUh data len).trace } ∧
      bootSource m pUh =
        if imageGetComp m pUh = ihCompGzip ∨ imageGetComp m pUh = ihCompNone then some (data, len)
        else none) := by
  -- In the order of the code: magic number, the name `rtt`, the name `uboot`, any other name.
  cases hmagic : imageCheckMagic m pUh with
  | false => exact .inl ⟨-3, by simp [bootPlain, hmagic], by simp [bootSource, hmagic]⟩
  | true =>
      by_cases hrtt : strcmpEq m (imageGetName pUh) "rtt" = true
      · cases himg : imageMultiGetimg m pUh 0 with
        | none =>
            exact .inr (.inl ⟨by simp [bootPlain, k230BootRttUimage, hmagic, hrtt, himg],
              by simp [bootSource, hmagic, hrtt, himg]⟩)
        | some img =>
            refine .inr (.inr ⟨img.1, img.2, ?_, ?_⟩)
            · simp [bootPlain, k230BootRttUimage, hmagic, hrtt, himg]
            · simp only [bootSource, hmagic, hrtt, himg]
              split_ifs <;> simp_all
      by_cases huboot : strcmpEq m (imageGetName pUh) "uboot" = true
      · refine .inr (.inr ⟨imageGetData pUh, imageGetDataSize m pUh, ?_, ?_⟩)
        · simp [bootPlain, k230BootUbootUimage, hmagic, hrtt, huboot]
        · simp only [bootSource, hmagic, hrtt, huboot]
          split_ifs <;> simp_all
      · exact .inl ⟨-4, by simp [bootPlain, hmagic, hrtt, huboot],
          by simp [bootSource, hmagic, hrtt, huboot]⟩

/-- A run behind a successful check takes the header and the range of `bootSource`, no others, and
moves the range to the load address. -/
theorem mem_trace_bootPlain {e : BootEvent} (he : e ∈ (bootPlain z m pUh).trace) :
    e = .parseHeader pUh ∨
      (e.dest = some (imageGetLoad m pUh) ∧ bootSource m pUh = some e.range) := by
  rcases bootPlain_cases z m pUh with ⟨ret, hrun, _⟩ | ⟨hrun, _⟩ |
    ⟨data, len, hrun, hsource⟩
  · rw [hrun] at he
    exact .inl (List.mem_singleton.1 he)
  · rw [hrun] at he
    exact .inl (List.mem_singleton.1 he)
  · rw [hrun] at he
    rcases List.mem_cons.1 he with he | he
    · exact .inl he
    · rcases mem_trace_decomp he with ⟨hcomp, hdest, hrange⟩
      rw [hsource, if_pos hcomp, hrange]
      exact .inr ⟨hdest, rfl⟩

theorem parseHeader_mem_trace : .parseHeader pUh ∈ (bootPlain z m pUh).trace := by
  rcases bootPlain_cases z m pUh with ⟨ret, hrun, _⟩ | ⟨hrun, _⟩ |
    ⟨data, len, hrun, _⟩ <;>
  · rw [hrun]
    exact List.mem_cons_self

/-- A range of `bootSource` is what the run unpacks, behind the header. -/
theorem bootPlain_of_bootSource {data len : Nat} (hsource : bootSource m pUh = some (data, len)) :
    bootPlain z m pUh = { unpackAndRun z m pUh data len with
      trace := .parseHeader pUh :: (k230BootDecompToLoadAddr z m pUh 0x6000000 data len).trace } := by
  rcases bootPlain_cases z m pUh with ⟨ret, _, hnone⟩ | ⟨_, hnone⟩ | ⟨data', len', hrun, hsome⟩
  · rw [hnone] at hsource
    cases hsource
  · rw [hnone] at hsource
    cases hsource
  · rw [hsome] at hsource
    split_ifs at hsource
    cases hsource
    exact hrun

/-- The range of `bootSource` is taken indeed. -/
theorem exists_mem_trace_bootPlain {r : Nat × Nat} (hsource : bootSource m pUh = some r) :
    ∃ e ∈ (bootPlain z m pUh).trace, e.dest = some (imageGetLoad m pUh) ∧ e.range = r := by
  rcases bootPlain_cases z m pUh with ⟨ret, _, hnone⟩ | ⟨_, hnone⟩ |
    ⟨data, len, hrun, hsome⟩
  · rw [hnone] at hsource
    cases hsource
  · rw [hnone] at hsource
    cases hsource
  · rw [hsome] at hsource
    split_ifs at hsource with hcomp
    obtain rfl := Option.some.inj hsource
    rcases exists_mem_trace_decomp z 0x6000000 data len hcomp with ⟨e, he, hmoved⟩
    rw [hrun]
    exact ⟨e, List.mem_cons_of_mem _ he, hmoved⟩

/-- Control is given away only behind an unpacked range, to the load address in the header after the
unpacking. -/
theorem exists_range_of_handedOver {entry : Nat}
    (h : (bootPlain z m pUh).outcome = .handedOver entry) :
    ∃ data len, bootSource m pUh = some (data, len) ∧
      (k230BootDecompToLoadAddr z m pUh 0x6000000 data len).ret = some 0 ∧
      entry = imageGetLoad (k230BootDecompToLoadAddr z m pUh 0x6000000 data len).mem pUh := by
  rcases bootPlain_cases z m pUh with ⟨ret, hrun, _⟩ | ⟨hrun, _⟩ |
    ⟨data, len, hrun, hsource⟩
  · rw [hrun] at h
    cases h
  · rw [hrun] at h
    cases h
  · rw [hrun] at h
    rcases handedOver_iff.1 h with ⟨hret, hentry⟩
    rw [if_pos (comp_of_ret_eq_zero hret)] at hsource
    exact ⟨data, len, hsource, hret, hentry⟩

end

end Boot
end CanmvK230
