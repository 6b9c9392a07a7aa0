import CanmvK230.Boot.Llt
import CanmvK230.Boot.Windows

/-!
# Destination — where an accepted image is unpacked to

`k230_boot_decomp_to_load_addr` takes the destination from the uImage header. `gunzip` is given a
limit, the same for every memory size and load address; the uncompressed case copies as many bytes as
the image says. `destinationKept_iff` names the load addresses and lengths for which what is stored
lies in the configured memory, keeps to the limit and spares what is still to be read.

The hardware decompressor stores whole lines of 128 KiB, those of the list that `ugzip_llt_cal` builds
for its output, and the list has 32-bit addresses. The method byte that `gunzip` repairs lies in the
source and is no part of the output.

Main results:
* `storesOf_decomp`: what the calls of a run store is one range, unless the lines pass 4 GiB;
* `decomp_frame`: other memory is as before, the method byte of a hardware stream apart;
* `destinationKept_iff`: the accepted images whose output stays where it belongs.
-/

namespace CanmvK230
namespace Boot

open Lib

/-! ## What is stored -/

/-- `des_len`, which both system types pass. -/
def desLen : Nat := 0x6000000

/-- The bytes behind the list that `k230_priv_unzip` has built for its output, wherever the list is. -/
def lineStores (dst dstlen : Nat) : Set Nat :=
  { a | ∃ malloc lltList nodes,
    Llt.ugzipLltCal malloc (UInt64.ofNat dst) (UInt32.ofNat dstlen) .wr = some (lltList, nodes) ∧
      ∃ node ∈ nodes, a ∈ Llt.segment .wr node }

/-- The bytes that a call of a run stores; `m` is the memory in front of it. -/
def BootEvent.stores (z : Unzip) (m : ByteMem) : BootEvent → Set Nat
  | .parseHeader _ => ∅
  -- `gunzip` leaves its output to one of the next two
  | .gunzip _ _ _ _ => ∅
  | .k230PrivUnzip dst dstlen _ _ => lineStores dst dstlen
  | .zunzip dst dstlen src len offset => extent dst (z.zunzip dst dstlen src len offset m).2.2
  | .memmove dst _ len => extent dst len

def storesOf (z : Unzip) (m : ByteMem) (trace : List BootEvent) : Set Nat :=
  { a | ∃ e ∈ trace, a ∈ e.stores z m }

/-- The decompressors store their output and nothing else: the lines of the list, and what `zunzip`
reports in `*lenp`. -/
structure KeepsToOutput (z : Unzip) : Prop where
  priv : ∀ dst dstlen src len m a, a ∉ lineStores dst dstlen →
    (z.k230PrivUnzip dst dstlen src len m).2 a = m a
  zunzip : ∀ dst dstlen src len offset m a,
    a ∉ extent dst (z.zunzip dst dstlen src len offset m).2.2 →
      (z.zunzip dst dstlen src len offset m).2.1 a = m a

/-! ## The property -/

/-- The load address in the header is read once more before the jump. -/
def loadField (pUh : Nat) : Set Nat := extent (pUh + 16) 4

/-- What is still to be read when the first byte is stored. `memmove` copies overlapping ranges; a
decompressor has its whole stream ahead of it. -/
def stillToRead (m : ByteMem) (pUh data len : Nat) : Set Nat :=
  if imageGetComp m pUh = ihCompGzip then extent data len ∪ loadField pUh else loadField pUh

/-- A stream for the hardware. -/
def HardwareStream (m : ByteMem) (pUh data : Nat) : Prop :=
  imageGetComp m pUh = ihCompGzip ∧ m (data + 2) = 9

instance (m : ByteMem) (pUh data : Nat) : Decidable (HardwareStream m pUh data) :=
  inferInstanceAs (Decidable (_ ∧ _))

/-- What `k230_boot_decomp_to_load_addr` does to memory. -/
structure OutputKept (pl : Platform) (z : Unzip) (m : ByteMem) (pUh data len : Nat) : Prop where
  /-- What its calls store is a range of at most `des_len` bytes in the configured memory, apart from
  what is still to be read. -/
  range : ∃ start n, storesOf z m (k230BootDecompToLoadAddr z m pUh desLen data len).trace =
      extent start n ∧
    extent start n ⊆ Set.Ico pl.configMemBaseAddr (memEnd pl) ∧ n ≤ desLen ∧
    Disjoint (extent start n) (stillToRead m pUh data len)
  /-- All other memory is as before, the repaired method byte apart. -/
  frame : ∀ a, a ∉ storesOf z m (k230BootDecompToLoadAddr z m pUh desLen data len).trace →
    ¬ (HardwareStream m pUh data ∧ a = data + 2) →
    (k230BootDecompToLoadAddr z m pUh desLen data len).mem a = m a

/-- The output of an accepted image stays where it belongs. -/
def DestinationKept (pl : Platform) (z : Unzip) (m : ByteMem) (pfh : Nat) : Prop :=
  ∀ r data len, k230BootCheckAndGetPlainData pl m pfh = .ok r →
    bootSource r.mem (r.addr.getD 0 + 4) = some (data, len) →
      OutputKept pl z r.mem (r.addr.getD 0 + 4) data len

/-! ## The condition -/

/-- The number of bytes in the lines for `n` bytes; the 32-bit length of an empty output wraps. -/
def lineBytes (n : Nat) : Nat := 131072 * (Llt.listNum (UInt32.ofNat n)).toNat

/-- The number of bytes that `gunzip` stores at its destination. -/
def gunzipOutput (z : Unzip) (m : ByteMem) (dst dstlen src len : Nat) : Nat :=
  if m (src + 2) = 9 then
    if sizeWord m src len > dstlen then 0 else lineBytes (sizeWord m src len)
  else
    match gzipParseHeader m src len with
    | none => 0
    | some offset =>
        -- `zunzip` leaves in `*lenp` how far it got.
        if offset < 0 then 0 else (z.zunzip dst dstlen src len offset.toNat m).2.2

/-- The number of bytes that `k230_boot_decomp_to_load_addr` stores at the load address. -/
def decompOutput (z : Unzip) (m : ByteMem) (pUh desLen data len : Nat) : Nat :=
  if imageGetComp m pUh = ihCompGzip then gunzipOutput z m (imageGetLoad m pUh) desLen data len
  else if imageGetComp m pUh = ihCompNone then len
  else 0

/-- The numbers that decide it: the load address, the length of the output, and where header and
source stand. -/
structure LoadFits (pl : Platform) (m : ByteMem) (pUh data len output : Nat) : Prop where
  memory : output = 0 ∨
    pl.configMemBaseAddr ≤ imageGetLoad m pUh ∧ imageGetLoad m pUh + output ≤ memEnd pl
  limit : output ≤ desLen
  /-- The last line for the hardware starts below 4 GiB. -/
  lines : HardwareStream m pUh data → output = 0 ∨ imageGetLoad m pUh + output < 2 ^ 32 + 131072
  header : output = 0 ∨ imageGetLoad m pUh + output ≤ pUh + 16 ∨ pUh + 20 ≤ imageGetLoad m pUh
  stream : imageGetComp m pUh = ihCompGzip →
    output = 0 ∨ len = 0 ∨ imageGetLoad m pUh + output ≤ data ∨ data + len ≤ imageGetLoad m pUh

def DestinationFits (pl : Platform) (z : Unzip) (m : ByteMem) (pfh : Nat) : Prop :=
  ∀ r data len, k230BootCheckAndGetPlainData pl m pfh = .ok r →
    bootSource r.mem (r.addr.getD 0 + 4) = some (data, len) →
      LoadFits pl r.mem (r.addr.getD 0 + 4) data len
        (decompOutput z r.mem (r.addr.getD 0 + 4) desLen data len)

/-! ## Lines -/

section
variable {dst dstlen a : Nat}

/-- Where the list stands does not matter. -/
theorem mem_lineStores :
    a ∈ lineStores dst dstlen ↔ ∃ i < (Llt.listNum (UInt32.ofNat dstlen)).toNat,
      a ∈ Llt.segment .wr (Llt.lltNode 0 (UInt64.ofNat dst) (Llt.listNum (UInt32.ofNat dstlen)) .wr i) := by
  constructor
  · rintro ⟨malloc, lltList, nodes, hcal, node, hnode, ha⟩
    simp only [Llt.ugzipLltCal, Option.map_eq_some_iff, Prod.mk.injEq] at hcal
    rcases hcal with ⟨_, _, rfl, rfl⟩
    rcases List.mem_map.1 hnode with ⟨i, hi, rfl⟩
    exact ⟨i, List.mem_range.1 hi, ha⟩
  · rintro ⟨i, hi, ha⟩
    exact ⟨fun _ => some 0, 0, _, rfl, _, List.mem_map.2 ⟨i, List.mem_range.2 hi, rfl⟩, ha⟩

theorem toNat_ofNat_dst (hdst : dst < 2 ^ 32) : (UInt64.ofNat dst).toNat = dst := by
  rw [UInt64.toNat_ofNat']
  exact Nat.mod_eq_of_lt (by omega)

/-- Lines that all start below 4 GiB are one range. -/
theorem lineStores_eq (hdst : dst < 2 ^ 32) (hlast : dst + lineBytes dstlen < 2 ^ 32 + 131072) :
    lineStores dst dstlen = extent dst (lineBytes dstlen) := by
  have hlow : ∀ i, i < (Llt.listNum (UInt32.ofNat dstlen)).toNat →
      (UInt64.ofNat dst).toNat + 131072 * i < 2 ^ 32 := by
    intro i hi
    rw [toNat_ofNat_dst hdst]
    unfold lineBytes at hlast
    omega
  have hlines := @Llt.iUnion_segments 0 _ .wr _ hlow
  rw [toNat_ofNat_dst hdst] at hlines
  rw [lineBytes, ← hlines]
  ext x
  simp only [mem_lineStores, Set.mem_iUnion, List.mem_map, List.mem_range, exists_prop]
  constructor
  · rintro ⟨i, hi, hx⟩
    exact ⟨_, ⟨i, hi, rfl⟩, hx⟩
  · rintro ⟨_, ⟨i, hi, rfl⟩, hx⟩
    exact ⟨i, hi, hx⟩

/-- A line behind 4 GiB goes to the first addresses, one before it to the last. -/
theorem lineStores_wrap (hdst : dst < 2 ^ 32) (hlen : dstlen < 2 ^ 32)
    (hlast : 2 ^ 32 + 131072 ≤ dst + lineBytes dstlen) :
    ∃ low high, low < 131072 ∧ 2 ^ 32 - 131072 ≤ high ∧ low ∈ lineStores dst dstlen ∧
      high ∈ lineStores dst dstlen := by
  have hnum : (Llt.listNum (UInt32.ofNat dstlen)).toNat ≤ 32768 := by
    rcases Nat.eq_zero_or_pos dstlen with rfl | hpos
    · exact Llt.listNum_zero.le
    · have hn : (UInt32.ofNat dstlen).toNat = dstlen := by
        rw [UInt32.toNat_ofNat']
        exact Nat.mod_eq_of_lt hlen
      rw [Llt.toNat_listNum (by omega), hn]
      omega
  unfold lineBytes at hlast
  -- the last line that starts below 4 GiB is `i`
  let i := (2 ^ 32 - 1 - dst) / 131072
  have hi : dst + 131072 * i < 2 ^ 32 := by omega
  have hnext : 2 ^ 32 ≤ dst + 131072 * (i + 1) := by omega
  have hin : i + 1 < (Llt.listNum (UInt32.ofNat dstlen)).toNat := by omega
  refine ⟨dst + 131072 * (i + 1) - 2 ^ 32, dst + 131072 * i, by omega, by omega, ?_, ?_⟩
  · refine mem_lineStores.2 ⟨i + 1, hin, ?_⟩
    have hsucc : (UInt32.ofNat (i + 1)).toNat = i + 1 := by
      rw [UInt32.toNat_ofNat']
      exact Nat.mod_eq_of_lt (by omega)
    have hstart : (Llt.memSide .wr (Llt.lltNode 0 (UInt64.ofNat dst)
        (Llt.listNum (UInt32.ofNat dstlen)) .wr (i + 1))).toNat =
          dst + 131072 * (i + 1) - 2 ^ 32 := by
      rw [Llt.memSide_lltNode, UInt32.toNat_add, UInt32.toNat_mul, hsucc, UInt64.toNat_toUInt32,
        toNat_ofNat_dst hdst, Llt.toNat_zipLineSize]
      omega
    rw [Llt.segment, hstart, Llt.lineSize_lltNode, Llt.toNat_zipLineSize, mem_extent]
    omega
  · refine mem_lineStores.2 ⟨i, by omega, ?_⟩
    have hlow : (UInt64.ofNat dst).toNat + 131072 * i < 2 ^ 32 := by
      rw [toNat_ofNat_dst hdst]
      exact hi
    rw [Llt.segment_lltNode _ hlow, toNat_ofNat_dst hdst, mem_extent]
    omega

/-- Lines that pass 4 GiB are no range of at most `des_len` bytes. -/
theorem not_range_of_wrap {start n : Nat} (hdst : dst < 2 ^ 32) (hlen : dstlen < 2 ^ 32)
    (hlast : 2 ^ 32 + 131072 ≤ dst + lineBytes dstlen) (hn : n ≤ desLen) :
    lineStores dst dstlen ≠ extent start n := by
  intro heq
  rcases lineStores_wrap hdst hlen hlast with ⟨low, high, hlow, hhigh, hmem, hmem'⟩
  rw [heq, mem_extent] at hmem hmem'
  unfold desLen at hn
  omega

end

/-! ## What the code stores -/

section
variable {z : Unzip} {m : ByteMem} {pUh data len : Nat}

theorem storesOf_nil : storesOf z m [] = ∅ := by
  simp [storesOf]

theorem storesOf_cons (e : BootEvent) (es : List BootEvent) :
    storesOf z m (e :: es) = e.stores z m ∪ storesOf z m es := by
  ext a
  simp [storesOf]

theorem imageGetLoad_lt (m : ByteMem) (pUh : Nat) : imageGetLoad m pUh < 2 ^ 32 := by
  have hlt := leNat_lt (m.read (pUh + 16) 4).reverse
  rw [List.length_reverse, ByteMem.length_read] at hlt
  exact hlt

theorem storesOf_gunzip {dst dstlen src : Nat} (hnine : m (src + 2) ≠ 9) :
    storesOf z m (gunzip z m dst dstlen src len).trace =
      extent dst (gunzipOutput z m dst dstlen src len) := by
  rw [gunzipOutput, if_neg hnine]
  cases hparse : gzipParseHeader m src len with
  | none => simp [gunzip_endless z _ _ hnine hparse, storesOf_cons, storesOf_nil, BootEvent.stores]
  | some offset =>
      rw [gunzip_software z _ _ hnine hparse]
      by_cases hneg : offset < 0
      · simp [hneg, storesOf_cons, storesOf_nil, BootEvent.stores]
      · simp [hneg, storesOf_cons, storesOf_nil, BootEvent.stores]

/-- A stream for the hardware has nothing stored, or the lines for its size word. -/
theorem storesOf_hardware {dst dstlen src : Nat} (hnine : m (src + 2) = 9) :
    storesOf z m (gunzip z m dst dstlen src len).trace =
      if sizeWord m src len > dstlen then ∅ else lineStores dst (sizeWord m src len) := by
  rw [gunzip_hardware z _ _ _ hnine]
  split
  · simp [storesOf_cons, storesOf_nil, BootEvent.stores]
  · simp [storesOf_cons, storesOf_nil, BootEvent.stores]

/-- The calls store the output at the load address, unless they are lines that pass 4 GiB. -/
theorem storesOf_decomp (z : Unzip) (m : ByteMem) (pUh data len : Nat) :
    (storesOf z m (k230BootDecompToLoadAddr z m pUh desLen data len).trace =
        extent (imageGetLoad m pUh) (decompOutput z m pUh desLen data len) ∧
      (HardwareStream m pUh data → decompOutput z m pUh desLen data len = 0 ∨
        imageGetLoad m pUh + decompOutput z m pUh desLen data len < 2 ^ 32 + 131072)) ∨
    (HardwareStream m pUh data ∧
      2 ^ 32 + 131072 ≤ imageGetLoad m pUh + decompOutput z m pUh desLen data len ∧
      ∃ dstlen < 2 ^ 32, decompOutput z m pUh desLen data len = lineBytes dstlen ∧
        storesOf z m (k230BootDecompToLoadAddr z m pUh desLen data len).trace =
          lineStores (imageGetLoad m pUh) dstlen) := by
  have hload := imageGetLoad_lt m pUh
  unfold decompOutput k230BootDecompToLoadAddr
  by_cases hgzip : imageGetComp m pUh = ihCompGzip
  · simp only [if_pos hgzip]
    by_cases hnine : m (data + 2) = 9
    · rw [storesOf_hardware hnine, gunzipOutput, if_pos hnine]
      by_cases hlong : sizeWord m data len > desLen
      · left
        simp [hlong]
      · rw [if_neg hlong, if_neg hlong]
        by_cases hlast : imageGetLoad m pUh + lineBytes (sizeWord m data len) < 2 ^ 32 + 131072
        · exact .inl ⟨lineStores_eq hload hlast, fun _ => .inr hlast⟩
        · refine .inr ⟨⟨hgzip, hnine⟩, Nat.not_lt.1 hlast, sizeWord m data len, ?_, rfl, rfl⟩
          unfold desLen at hlong
          omega
    · exact .inl ⟨storesOf_gunzip hnine, fun h => absurd h.2 hnine⟩
  · have hno : ¬ HardwareStream m pUh data := fun h => hgzip h.1
    by_cases hnone : imageGetComp m pUh = ihCompNone
    · simp only [if_neg hgzip, if_pos hnone]
      left
      refine ⟨?_, fun h => absurd h hno⟩
      simp [storesOf_cons, storesOf_nil, BootEvent.stores]
    · simp only [if_neg hgzip, if_neg hnone]
      left
      refine ⟨?_, fun h => absurd h hno⟩
      simp [storesOf_nil]

/-- `gunzip` touches what its calls store and the method byte of a hardware stream. -/
theorem gunzip_frame (hz : KeepsToOutput z) {dst dstlen src a : Nat}
    (ha : a ∉ storesOf z m (gunzip z m dst dstlen src len).trace)
    (hmethod : ¬ (m (src + 2) = 9 ∧ a = src + 2)) :
    (gunzip z m dst dstlen src len).mem a = m a := by
  by_cases hnine : m (src + 2) = 9
  · have hne : a ≠ src + 2 := fun h => hmethod ⟨hnine, h⟩
    have hpatched : m.write (src + 2) [8] a = m a := by
      apply ByteMem.write_frame
      simp only [List.length_cons, List.length_nil]
      omega
    rw [storesOf_hardware hnine] at ha
    rw [gunzip_hardware z _ _ _ hnine]
    by_cases hlong : sizeWord m src len > dstlen
    · rw [if_pos hlong]
      exact hpatched
    · rw [if_neg hlong] at ha ⊢
      exact (hz.priv _ _ _ _ _ a ha).trans hpatched
  · rw [storesOf_gunzip hnine, gunzipOutput, if_neg hnine] at ha
    cases hparse : gzipParseHeader m src len with
    | none => rw [gunzip_endless z _ _ hnine hparse]
    | some offset =>
        simp only [hparse] at ha
        rw [gunzip_software z _ _ hnine hparse]
        by_cases hneg : offset < 0
        · rw [if_pos hneg]
        · rw [if_neg hneg] at ha ⊢
          exact hz.zunzip _ _ _ _ _ _ a ha

theorem decomp_frame (hz : KeepsToOutput z) {a : Nat}
    (ha : a ∉ storesOf z m (k230BootDecompToLoadAddr z m pUh desLen data len).trace)
    (hmethod : ¬ (HardwareStream m pUh data ∧ a = data + 2)) :
    (k230BootDecompToLoadAddr z m pUh desLen data len).mem a = m a := by
  unfold k230BootDecompToLoadAddr at ha ⊢
  by_cases hgzip : imageGetComp m pUh = ihCompGzip
  · simp only [if_pos hgzip] at ha ⊢
    exact gunzip_frame hz ha fun h => hmethod ⟨⟨hgzip, h.1⟩, h.2⟩
  · by_cases hnone : imageGetComp m pUh = ihCompNone
    · simp only [if_neg hgzip, if_pos hnone] at ha ⊢
      simp only [storesOf_cons, storesOf_nil, BootEvent.stores, Set.union_empty, mem_extent] at ha
      apply ByteMem.write_frame
      rw [ByteMem.length_read]
      omega
    · simp only [if_neg hgzip, if_neg hnone]

/-! ## The condition decides -/

theorem extent_inj {a b n k : Nat} (h : extent a n = extent b k) (hn : 0 < n) : b = a ∧ k = n := by
  have hsub := extent_subset_iff.1 h.le
  have hsub' := extent_subset_iff.1 h.ge
  omega

theorem disjoint_loadField_iff {a n : Nat} :
    Disjoint (extent a n) (loadField pUh) ↔ n = 0 ∨ a + n ≤ pUh + 16 ∨ pUh + 20 ≤ a := by
  rw [loadField, disjoint_extent_iff]
  omega

theorem disjoint_stillToRead_iff {a n : Nat} :
    Disjoint (extent a n) (stillToRead m pUh data len) ↔
      (n = 0 ∨ a + n ≤ pUh + 16 ∨ pUh + 20 ≤ a) ∧
        (imageGetComp m pUh = ihCompGzip → n = 0 ∨ len = 0 ∨ a + n ≤ data ∨ data + len ≤ a) := by
  unfold stillToRead
  split
  · rename_i hgzip
    rw [Set.disjoint_union_right, disjoint_extent_iff, disjoint_loadField_iff]
    simp only [hgzip, true_implies]
    exact and_comm
  · rename_i hgzip
    simp [disjoint_loadField_iff, hgzip]

variable {pl : Platform}

/-- For one component. -/
theorem outputKept_iff (hz : KeepsToOutput z) :
    OutputKept pl z m pUh data len ↔
      LoadFits pl m pUh data len (decompOutput z m pUh desLen data len) := by
  rcases storesOf_decomp z m pUh data len with ⟨hstores, hlines⟩ | ⟨hhw, hlast, dstlen, hlt, hout, hstores⟩
  · constructor
    · intro h
      rcases h.range with ⟨start, n, heq, hsub, hlimit, hdisj⟩
      rw [hstores] at heq
      rcases Nat.eq_zero_or_pos (decompOutput z m pUh desLen data len) with hzero | hpos
      · exact ⟨.inl hzero, by rw [hzero]; exact Nat.zero_le _, hlines, .inl hzero, fun _ => .inl hzero⟩
      · rcases extent_inj heq hpos with ⟨rfl, rfl⟩
        rcases disjoint_stillToRead_iff.1 hdisj with ⟨hheader, hstream⟩
        exact ⟨extent_subset_iff.1 hsub, hlimit, hlines, hheader, hstream⟩
    · intro h
      refine ⟨⟨_, _, hstores, extent_subset_iff.2 h.memory, h.limit, ?_⟩, ?_⟩
      · exact disjoint_stillToRead_iff.2 ⟨h.header, h.stream⟩
      · intro a ha hmethod
        exact decomp_frame hz ha hmethod
  · constructor
    · intro h
      rcases h.range with ⟨start, n, heq, _, hlimit, _⟩
      rw [hstores] at heq
      rw [hout] at hlast
      exact absurd heq (not_range_of_wrap (imageGetLoad_lt m pUh) hlt hlast hlimit)
    · intro h
      have hload := imageGetLoad_lt m pUh
      have hfits := h.lines hhw
      omega

end

/-! ## The demo image, in 128 and in 256 MiB -/

/-- The demo image is loaded to `0x8000000`, the end of 128 MiB. -/
theorem imageGetLoad_ubootMem : imageGetLoad ubootMem (0x1000 + 532) = 0x8000000 := by
  decide +kernel

theorem decompOutput_ubootMem (z : Unzip) :
    decompOutput z ubootMem (0x1000 + 532) desLen (0x1000 + 596) 4 = 4 := by
  have hcomp : imageGetComp ubootMem (0x1000 + 532) = ihCompNone := by
    decide +kernel
  simp [decompOutput, hcomp, ihCompNone, ihCompGzip]

theorem Accepts.eq_ubootMem {pl : Platform} {r : Plain} (h : Accepts pl ubootMem 0x1000 r) :
    r = ⟨some (0x1000 + 528), ubootMem⟩ := by
  cases h with
  | noneSecurity _ _ _ _ => rfl
  | gcm _ hopens => exact absurd hopens.secureType not_secureType_ubootMem
  | chinese _ htype _ _ _ => exact absurd (.inl htype) not_secureType_ubootMem
  | unchecked _ hsecure => exact absurd hsecure not_secureType_ubootMem

theorem check_ubootMem :
    k230BootCheckAndGetPlainData (demoPlatform true) ubootMem 0x1000 =
      .ok ⟨some (0x1000 + 528), ubootMem⟩ := by
  refine (check_eq_ok_iff demoPufs_hashTotal).2 ⟨?_, ?_⟩
  · rw [holdsImage_ubootMem.headAt_eq]
    rfl
  · refine .noneSecurity ?_ ?_ (d := ubootDigest) ?_ ?_
    · rw [holdsImage_ubootMem.headAt_eq]
      rfl
    · intro _
      exact ⟨0, rfl, rfl⟩
    · rw [payload_ubootMem]
      rfl
    · rw [holdsImage_ubootMem.headAt_eq]
      rfl

def roomyPlatform : Platform := { demoPlatform true with configMemTotalSize := 256 * 1024 * 1024 }

/-- Decompressors that give up before the first byte. -/
def idleUnzip : Unzip where
  k230PrivUnzip _ _ _ _ m := (1, m)
  zunzip _ _ _ _ _ m := (-1, m, 0)

theorem keepsToOutput_idleUnzip : KeepsToOutput idleUnzip where
  priv _ _ _ _ _ _ _ := rfl
  zunzip _ _ _ _ _ _ _ _ := rfl

end Boot
end CanmvK230
