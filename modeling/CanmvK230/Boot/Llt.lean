import CanmvK230.Lib.Extent
import CanmvK230.Lib.Linked

/-!
# Llt — the descriptor lists of the hardware decompressor (`k230_gunzip.c`)

`ugzip_llt_cal` builds the list of DMA descriptors for one side of the decompressor: the compressed
stream on its way into the SRAM, or the output on its way back. A descriptor moves a line of 128 KiB,
and both branches of the test for the last one give it a whole line, so the list covers the buffer
rounded up; for an empty buffer the 32-bit length wraps and the list covers all 4 GiB.

Main results:
* `linked_nodes`: the list is followed through all its nodes in order;
* `movesBuffer_iff`: the lengths for which the descriptors cover exactly the buffer.
-/

namespace CanmvK230
namespace Boot
namespace Llt

open Lib

/-! ## The code -/

def zipLineSize : UInt32 := 128 * 1024
def sramRdAddr : UInt32 := 0x80280000
def sramWrAddr : UInt32 := 0x80200000

inductive UgzipRw where
  | rd
  | wr
deriving DecidableEq, Repr

/-- `sdma_llt_t`, less its reserved bits. -/
structure SdmaLlt where
  dimension : UInt32
  pause : UInt32
  nodeIntr : UInt32
  srcAddr : UInt32
  lineSize : UInt32
  lineNum : UInt16
  lineSpace : UInt16
  dstAddr : UInt32
  nextLltAddr : UInt32
deriving DecidableEq, Repr

/-- `sizeof(sdma_llt_t)`. -/
def lltSize : UInt64 := 24

def listNum (length : UInt32) : UInt32 :=
  (length - 1) / zipLineSize + 1

/-- The address of `llt_list[i]`, as the DMA engine gets it. -/
def nodeAddr (lltList : UInt64) (i : Nat) : UInt32 :=
  (lltList + lltSize * UInt64.ofNat i).toUInt32

/-- `llt_list[i]` behind the loop, of which `memset` has cleared the rest. -/
def lltNode (lltList addr : UInt64) (num : UInt32) (mode : UgzipRw) (i : Nat) : SdmaLlt where
  dimension := 0
  pause := 0
  nodeIntr := 0
  srcAddr := match mode with
    | .rd => addr.toUInt32 + zipLineSize * UInt32.ofNat i
    | .wr => sramWrAddr + UInt32.ofNat (i % 4) * zipLineSize
  -- the two branches of the test for the last node differ in the pointer alone
  lineSize := if UInt32.ofNat i = num - 1 then zipLineSize else zipLineSize
  lineNum := 0
  lineSpace := 0
  dstAddr := match mode with
    | .rd => sramRdAddr + UInt32.ofNat (i % 2) * zipLineSize
    | .wr => addr.toUInt32 + zipLineSize * UInt32.ofNat i
  nextLltAddr := if UInt32.ofNat i = num - 1 then 0 else nodeAddr lltList (i + 1)

/-- The list and its address, unless `malloc` has no memory. -/
def ugzipLltCal (malloc : UInt64 → Option UInt64) (addr : UInt64) (length : UInt32) (mode : UgzipRw) :
    Option (UInt64 × List SdmaLlt) :=
  (malloc (lltSize * (listNum length).toUInt64)).map fun lltList =>
    (lltList, (List.range (listNum length).toNat).map
      (lltNode lltList addr (listNum length) mode))

/-! ## The property -/

/-- The node at an address, in the memory behind the list. -/
def nodeAt (lltList : UInt64) (nodes : List SdmaLlt) (a : UInt32) : Option SdmaLlt :=
  if lltList.toUInt32 ≤ a ∧ (a.toNat - lltList.toUInt32.toNat) % 24 = 0 then
    nodes[(a.toNat - lltList.toUInt32.toNat) / 24]?
  else
    none

/-- The address of a node on the side of the memory, and on the side of the SRAM. -/
def memSide (mode : UgzipRw) (node : SdmaLlt) : UInt32 :=
  match mode with
  | .rd => node.srcAddr
  | .wr => node.dstAddr

def sramSide (mode : UgzipRw) (node : SdmaLlt) : UInt32 :=
  match mode with
  | .rd => node.dstAddr
  | .wr => node.srcAddr

/-- The bytes that a node reads from or writes to memory. -/
def segment (mode : UgzipRw) (node : SdmaLlt) : Set Nat :=
  extent (memSide mode node).toNat node.lineSize.toNat

def sramAddr : UgzipRw → UInt32
  | .rd => sramRdAddr
  | .wr => sramWrAddr

def sramSlots : UgzipRw → Nat
  | .rd => 2
  | .wr => 4

/-- The list is followed from its head through every node once, and its nodes move the `length` bytes
at `addr`, one line behind the other, through the slots of the SRAM in turn. -/
structure MovesBuffer (lltList : UInt64) (nodes : List SdmaLlt) (addr : UInt64) (length : UInt32)
    (mode : UgzipRw) : Prop where
  visits : ∃ visited, Linked 0 (nodeAt lltList nodes) SdmaLlt.nextLltAddr lltList.toUInt32 visited ∧
    visited.map Prod.snd = nodes ∧ (visited.map Prod.fst).Nodup
  consecutive : ∀ i (h : i + 1 < nodes.length), (memSide mode nodes[i + 1]).toNat =
    (memSide mode nodes[i]).toNat + nodes[i].lineSize.toNat
  disjoint : nodes.Pairwise fun node node' => Disjoint (segment mode node) (segment mode node')
  covers : ⋃ node ∈ nodes, segment mode node = extent addr.toNat length.toNat
  slots : ∀ i (h : i < nodes.length), (sramSide mode nodes[i]).toNat =
    (sramAddr mode).toNat + i % sramSlots mode * zipLineSize.toNat

/-! ## The number of nodes -/

section
variable {lltList addr : UInt64} {length : UInt32} {mode : UgzipRw}

theorem toNat_zipLineSize : zipLineSize.toNat = 131072 := rfl

theorem toNat_listNum (hpos : 0 < length.toNat) :
    (listNum length).toNat = (length.toNat - 1) / 131072 + 1 := by
  have hlt := length.toNat_lt
  have hone : (1 : UInt32) ≤ length := UInt32.le_iff_toNat_le.2 hpos
  rw [listNum, UInt32.toNat_add, UInt32.toNat_div, UInt32.toNat_sub_of_le _ _ hone, toNat_zipLineSize]
  simp only [UInt32.toNat_one]
  omega

/-- For an empty buffer the length wraps. -/
theorem listNum_zero : (listNum 0).toNat = 32768 := by
  decide

theorem listNum_pos (length : UInt32) : 0 < (listNum length).toNat := by
  rcases Nat.eq_zero_or_pos length.toNat with hzero | hpos
  · have hnil : length = 0 := UInt32.toNat_inj.1 hzero
    rw [hnil, listNum_zero]
    decide
  · rw [toNat_listNum hpos]
    exact Nat.succ_pos _

/-! ## The nodes -/

theorem lineSize_lltNode (num : UInt32) (i : Nat) :
    (lltNode lltList addr num mode i).lineSize = zipLineSize := by
  simp only [lltNode, ite_self]

theorem memSide_lltNode (num : UInt32) (i : Nat) :
    memSide mode (lltNode lltList addr num mode i) =
      addr.toUInt32 + zipLineSize * UInt32.ofNat i := by
  cases mode with
  | rd => rfl
  | wr => rfl

/-- The last test of the loop, over the naturals. -/
theorem ofNat_eq_pred_iff {num : UInt32} {i : Nat} (hi : i < num.toNat) :
    UInt32.ofNat i = num - 1 ↔ i + 1 = num.toNat := by
  have hlt := num.toNat_lt
  have hone : (1 : UInt32) ≤ num := UInt32.le_iff_toNat_le.2 (Nat.lt_of_le_of_lt (Nat.zero_le i) hi)
  have hmod : i % 2 ^ 32 = i := Nat.mod_eq_of_lt (by omega)
  rw [← UInt32.toNat_inj, UInt32.toNat_ofNat', UInt32.toNat_sub_of_le _ _ hone, hmod,
    UInt32.toNat_one]
  omega

/-- The list lies below 4 GiB, so that its addresses fit in a descriptor. -/
theorem toNat_nodeAddr {i : Nat} (hlow : lltList.toNat + 24 * i < 2 ^ 32) :
    (nodeAddr lltList i).toNat = lltList.toNat + 24 * i := by
  have hi : (UInt64.ofNat i).toNat = i := by
    rw [UInt64.toNat_ofNat']
    exact Nat.mod_eq_of_lt (by omega)
  rw [nodeAddr, UInt64.toNat_toUInt32, UInt64.toNat_add, UInt64.toNat_mul, hi]
  simp only [lltSize, UInt64.reduceToNat]
  omega

theorem getElem?_nodes {i : Nat} (num : UInt32) (hi : i < num.toNat) :
    ((List.range num.toNat).map (lltNode lltList addr num mode))[i]? =
      some (lltNode lltList addr num mode i) := by
  simp [hi]

/-- The node is found at its address. -/
theorem nodeAt_nodeAddr {num : UInt32} {i : Nat} (hi : i < num.toNat)
    (hlow : lltList.toNat + 24 * num.toNat ≤ 2 ^ 32) :
    nodeAt lltList ((List.range num.toNat).map (lltNode lltList addr num mode)) (nodeAddr lltList i) =
      some (lltNode lltList addr num mode i) := by
  have hhead : lltList.toUInt32.toNat = lltList.toNat := by
    rw [UInt64.toNat_toUInt32]
    exact Nat.mod_eq_of_lt (by omega)
  have haddr : (nodeAddr lltList i).toNat = lltList.toNat + 24 * i := toNat_nodeAddr (by omega)
  have hcond : lltList.toUInt32 ≤ nodeAddr lltList i ∧
      ((nodeAddr lltList i).toNat - lltList.toUInt32.toNat) % 24 = 0 := by
    rw [UInt32.le_iff_toNat_le, haddr, hhead]
    omega
  have hidx : ((nodeAddr lltList i).toNat - lltList.toUInt32.toNat) / 24 = i := by
    rw [haddr, hhead]
    omega
  rw [nodeAt, if_pos hcond, hidx, getElem?_nodes num hi]

/-- The list is followed through all its nodes in order. -/
theorem linked_nodes {num : UInt32} (hnum : 0 < num.toNat) (hlist : 0 < lltList.toNat)
    (hlow : lltList.toNat + 24 * num.toNat ≤ 2 ^ 32) :
    Linked 0 (nodeAt lltList ((List.range num.toNat).map (lltNode lltList addr num mode)))
      SdmaLlt.nextLltAddr lltList.toUInt32
      ((List.range' 0 num.toNat).map fun i =>
        (nodeAddr lltList i, lltNode lltList addr num mode i)) := by
  have hhead : nodeAddr lltList 0 = lltList.toUInt32 := by
    rw [nodeAddr]
    simp
  rw [← hhead]
  refine linked_of_array (n := num.toNat) (nodeAddr lltList) (lltNode lltList addr num mode) ?_ ?_ ?_ ?_ hnum
  · intro i hi hzero
    have haddr : (nodeAddr lltList i).toNat = lltList.toNat + 24 * i := toNat_nodeAddr (by omega)
    rw [hzero, UInt32.toNat_zero] at haddr
    omega
  · intro i hi
    exact nodeAt_nodeAddr hi hlow
  · intro i hi
    have hmore : ¬ UInt32.ofNat i = num - 1 := by
      rw [ofNat_eq_pred_iff (by omega)]
      omega
    simp only [lltNode, if_neg hmore]
  · intro i hi
    have hlast : UInt32.ofNat i = num - 1 := (ofNat_eq_pred_iff (by omega)).2 hi
    simp only [lltNode, if_pos hlast]

/-- No two nodes share an address. -/
theorem nodup_nodeAddr {n : Nat} (hlow : lltList.toNat + 24 * n ≤ 2 ^ 32) :
    ((List.range' 0 n).map (nodeAddr lltList)).Nodup := by
  refine List.Nodup.map_on ?_ List.nodup_range'
  intro i hi j hj heq
  have hi' := (List.mem_range'_1.1 hi).2
  have hj' := (List.mem_range'_1.1 hj).2
  have h := congrArg UInt32.toNat heq
  rw [toNat_nodeAddr (by omega), toNat_nodeAddr (by omega)] at h
  omega

/-! ## What the nodes move -/

theorem toNat_memSide {i : Nat} (num : UInt32) (hlow : addr.toNat + 131072 * i < 2 ^ 32) :
    (memSide mode (lltNode lltList addr num mode i)).toNat = addr.toNat + 131072 * i := by
  have hi : (UInt32.ofNat i).toNat = i := by
    rw [UInt32.toNat_ofNat']
    exact Nat.mod_eq_of_lt (by omega)
  rw [memSide_lltNode, UInt32.toNat_add, UInt32.toNat_mul, hi, UInt64.toNat_toUInt32,
    toNat_zipLineSize]
  omega

theorem segment_lltNode {i : Nat} (num : UInt32) (hlow : addr.toNat + 131072 * i < 2 ^ 32) :
    segment mode (lltNode lltList addr num mode i) = extent (addr.toNat + 131072 * i) 131072 := by
  rw [segment, toNat_memSide num hlow, lineSize_lltNode, toNat_zipLineSize]

theorem toNat_sramSide (num : UInt32) (i : Nat) :
    (sramSide mode (lltNode lltList addr num mode i)).toNat =
      (sramAddr mode).toNat + i % sramSlots mode * zipLineSize.toNat := by
  cases mode with
  | rd =>
      have hslot : i % 2 = 0 ∨ i % 2 = 1 := by omega
      simp only [sramSide, lltNode, sramAddr, sramSlots]
      rcases hslot with h | h <;> rw [h] <;> decide
  | wr =>
      have hslot : i % 4 = 0 ∨ i % 4 = 1 ∨ i % 4 = 2 ∨ i % 4 = 3 := by omega
      simp only [sramSide, lltNode, sramAddr, sramSlots]
      rcases hslot with h | h | h | h <;> rw [h] <;> decide

/-- The lines together are one range. -/
theorem iUnion_segments {num : UInt32} (hlow : ∀ i, i < num.toNat → addr.toNat + 131072 * i < 2 ^ 32) :
    ⋃ node ∈ (List.range num.toNat).map (lltNode lltList addr num mode), segment mode node =
      extent addr.toNat (131072 * num.toNat) := by
  ext x
  simp only [Set.mem_iUnion, List.mem_map, List.mem_range, exists_prop, mem_extent]
  constructor
  · rintro ⟨node, ⟨i, hi, rfl⟩, hx⟩
    rw [segment_lltNode num (hlow i hi), mem_extent] at hx
    omega
  · rintro ⟨h₁, h₂⟩
    have hi : (x - addr.toNat) / 131072 < num.toNat := by omega
    refine ⟨_, ⟨(x - addr.toNat) / 131072, hi, rfl⟩, ?_⟩
    rw [segment_lltNode num (hlow _ hi), mem_extent]
    omega

/-- A buffer below 4 GiB has its lines start there. -/
theorem line_lt (hpos : 0 < length.toNat) (hrange : addr.toNat + length.toNat ≤ 2 ^ 32) {i : Nat}
    (hi : i < (listNum length).toNat) : addr.toNat + 131072 * i < 2 ^ 32 := by
  rw [toNat_listNum hpos] at hi
  omega

/-- The list moves exactly the buffer when its length is a positive number of whole lines. -/
theorem movesBuffer_iff (hlist : 0 < lltList.toNat)
    (hlow : lltList.toNat + 24 * (listNum length).toNat ≤ 2 ^ 32) (haddr : addr.toNat < 2 ^ 32)
    (hrange : addr.toNat + length.toNat ≤ 2 ^ 32) :
    MovesBuffer lltList ((List.range (listNum length).toNat).map
        (lltNode lltList addr (listNum length) mode)) addr length mode ↔
      0 < length.toNat ∧ 131072 ∣ length.toNat := by
  have hnum := listNum_pos length
  constructor
  · intro h
    -- the last line ends where the buffer does
    have hcover := h.covers
    have hpos : 0 < length.toNat := by
      by_contra hzero
      have hnil : length.toNat = 0 := Nat.eq_zero_of_not_pos hzero
      have hfirst : addr.toNat ∈ ⋃ node ∈ (List.range (listNum length).toNat).map
          (lltNode lltList addr (listNum length) mode), segment mode node := by
        simp only [Set.mem_iUnion, List.mem_map, List.mem_range, exists_prop]
        refine ⟨_, ⟨0, hnum, rfl⟩, ?_⟩
        rw [segment_lltNode _ (by omega), mem_extent]
        omega
      rw [hcover, hnil, mem_extent] at hfirst
      omega
    rw [iUnion_segments fun i hi => line_lt hpos hrange hi] at hcover
    have hsame : 131072 * (listNum length).toNat ≤ length.toNat :=
      extent_subset_extent_iff.1 hcover.le
    rw [toNat_listNum hpos] at hsame
    exact ⟨hpos, ⟨(length.toNat - 1) / 131072 + 1, by omega⟩⟩
  · rintro ⟨hpos, hdvd⟩
    have hlines : 131072 * (listNum length).toNat = length.toNat := by
      rcases hdvd with ⟨k, hk⟩
      rw [toNat_listNum hpos]
      omega
    have hlow' : ∀ i, i < (listNum length).toNat → addr.toNat + 131072 * i < 2 ^ 32 :=
      fun i hi => line_lt hpos hrange hi
    constructor
    · refine ⟨_, linked_nodes hnum hlist hlow, ?_, ?_⟩
      · rw [List.map_map, List.range_eq_range']
        rfl
      · rw [List.map_map]
        exact nodup_nodeAddr hlow
    · intro i hi
      rw [List.length_map, List.length_range] at hi
      simp only [List.getElem_map, List.getElem_range]
      rw [toNat_memSide _ (hlow' (i + 1) hi), toNat_memSide _ (hlow' i (by omega)), lineSize_lltNode,
        toNat_zipLineSize]
      omega
    · rw [List.pairwise_map]
      refine List.pairwise_lt_range.imp_of_mem ?_
      intro i j hi hj hlt
      rw [segment_lltNode _ (hlow' i (List.mem_range.1 hi)),
        segment_lltNode _ (hlow' j (List.mem_range.1 hj)), disjoint_extent_iff]
      omega
    · rw [iUnion_segments hlow', hlines]
    · intro i hi
      simp only [List.getElem_map, List.getElem_range]
      exact toNat_sramSide _ i

/-- With memory for the list below 4 GiB, what `ugzip_llt_cal` builds moves exactly the buffer when the
length is a positive number of whole lines. -/
theorem ugzipLltCal_movesBuffer_iff {malloc : UInt64 → Option UInt64}
    (hmalloc : malloc (lltSize * (listNum length).toUInt64) = some lltList)
    (hlist : 0 < lltList.toNat) (hlow : lltList.toNat + 24 * (listNum length).toNat ≤ 2 ^ 32)
    (haddr : addr.toNat < 2 ^ 32) (hrange : addr.toNat + length.toNat ≤ 2 ^ 32) (mode : UgzipRw) :
    ∃ nodes, ugzipLltCal malloc addr length mode = some (lltList, nodes) ∧
      (MovesBuffer lltList nodes addr length mode ↔ 0 < length.toNat ∧ 131072 ∣ length.toNat) := by
  refine ⟨_, ?_, movesBuffer_iff hlist hlow haddr hrange⟩
  rw [ugzipLltCal, hmalloc]
  rfl

end

/-! ## Two lines, and less than one -/

theorem two_lines_moved :
    ∃ nodes, ugzipLltCal (fun _ => some 0x1000) 0x8000000 0x40000 .wr = some (0x1000, nodes) ∧
      MovesBuffer 0x1000 nodes 0x8000000 0x40000 .wr := by
  have hmalloc : (fun _ : UInt64 => some (0x1000 : UInt64))
      (lltSize * (listNum 0x40000).toUInt64) = some 0x1000 := rfl
  have h : ∃ nodes, ugzipLltCal (fun _ => some 0x1000) 0x8000000 0x40000 .wr =
        some (0x1000, nodes) ∧
      (MovesBuffer 0x1000 nodes 0x8000000 0x40000 .wr ↔
        0 < (0x40000 : UInt32).toNat ∧ 131072 ∣ (0x40000 : UInt32).toNat) :=
    ugzipLltCal_movesBuffer_iff hmalloc (by decide) (by decide) (by decide) (by decide) .wr
  rcases h with ⟨nodes, hlist, hiff⟩
  exact ⟨nodes, hlist, hiff.2 (by decide)⟩

/-- An output of 100 bytes is written back as a line of 128 KiB, and an empty one as 32768 lines. -/
theorem short_line_overshoots :
    ((listNum 0).toNat = 32768 ∧ (listNum 100).toNat = 1) ∧
      (∃ nodes, ugzipLltCal (fun _ => some 0x1000) 0x8000000 100 .wr = some (0x1000, nodes) ∧
        ¬ MovesBuffer 0x1000 nodes 0x8000000 100 .wr) ∧
      ∃ nodes, ugzipLltCal (fun _ => some 0x1000) 0x8000000 0 .wr = some (0x1000, nodes) ∧
        ¬ MovesBuffer 0x1000 nodes 0x8000000 0 .wr := by
  refine ⟨by decide, ⟨_, rfl, ?_⟩, ⟨_, rfl, ?_⟩⟩
  · rw [movesBuffer_iff (by decide) (by decide) (by decide) (by decide)]
    decide
  · rw [movesBuffer_iff (by decide) (by decide) (by decide) (by decide)]
    decide

end Llt
end Boot
end CanmvK230
