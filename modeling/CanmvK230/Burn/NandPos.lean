import Mathlib.Data.Nat.Size
import CanmvK230.Lib.Radix
import CanmvK230.Burn.NandCore

/-!
# NandPos — positions on a NAND chip (`include/linux/mtd/nand.h`, `drivers/mtd/nand/core.c`)

The MTD layer has offsets, the chip has dies, LUNs, blocks and pages.  A position is the digits of a page
number (`offsToPos_digits`), and going to the next page, block, LUN or die is counting
(`posNextPage_digits`, `posNextEraseblock_digits`).

So the loop of `nanddev_mtd_erase` erases the blocks of its range one after the other, whatever dies and
LUNs they are on (`nanddevMtdErase_blocks`), and the pages of an I/O request are those of its range
(`forEachPage_rule`).  Two pages of a die have different row addresses (`posToRow_inj`).
-/

namespace CanmvK230
namespace Burn

open Lib

/-- `struct nand_memory_organization`, after the test of `nanddev_init` that no field is zero.  The
number of pages is kept in an `unsigned int`. -/
structure MemOrg where
  pagesize : Nat
  oobsize : Nat
  pagesPerEraseblock : Nat
  eraseblocksPerLun : Nat
  planesPerLun : Nat
  lunsPerTarget : Nat
  ntargets : Nat
  pagesize_pos : 0 < pagesize
  pages_pos : 0 < pagesPerEraseblock
  eraseblocks_pos : 0 < eraseblocksPerLun
  planes_pos : 0 < planesPerLun
  luns_pos : 0 < lunsPerTarget
  ntargets_pos : 0 < ntargets
  pages_lt : pagesPerEraseblock * (eraseblocksPerLun * (lunsPerTarget * ntargets)) < 2 ^ 32

/-- `struct nand_pos` -/
structure NandPos where
  target : Nat
  lun : Nat
  plane : Nat
  eraseblock : Nat
  page : Nat
  deriving DecidableEq, Repr

/-! ## `nand.h` -/

section Source

variable (org : MemOrg)

/-- `mtd->erasesize` -/
def MemOrg.erasesize : Nat := org.pagesize * org.pagesPerEraseblock

/-- `nanddev_size` -/
def MemOrg.size : Nat :=
  org.lunsPerTarget * org.eraseblocksPerLun * org.pagesPerEraseblock * org.pagesize * org.ntargets

/-- `nanddev_offs_to_pos`: the offset in the page, and the position. -/
def offsToPos (offs : Nat) : Nat × NandPos :=
  let tmp := offs / org.pagesize
  let page := tmp % org.pagesPerEraseblock
  let tmp := tmp / org.pagesPerEraseblock
  let eraseblock := tmp % org.eraseblocksPerLun
  let tmp := tmp / org.eraseblocksPerLun
  (offs % org.pagesize,
    { target := tmp / org.lunsPerTarget
      lun := tmp % org.lunsPerTarget
      plane := eraseblock % org.planesPerLun
      eraseblock := eraseblock
      page := page })

/-- `nanddev_pos_cmp` -/
def posCmp (a b : NandPos) : Int :=
  if a.target ≠ b.target then
    if a.target < b.target then -1 else 1
  else if a.lun ≠ b.lun then
    if a.lun < b.lun then -1 else 1
  else if a.eraseblock ≠ b.eraseblock then
    if a.eraseblock < b.eraseblock then -1 else 1
  else if a.page ≠ b.page then
    if a.page < b.page then -1 else 1
  else
    0

/-- `nanddev_pos_to_offs` -/
def posToOffs (pos : NandPos) : Nat :=
  let npages := (pos.page + (pos.eraseblock + (pos.lun + pos.target * org.lunsPerTarget) *
    org.eraseblocksPerLun) * org.pagesPerEraseblock) % 2 ^ 32
  npages * org.pagesize

/-- `fls` -/
def fls (x : Nat) : Nat := Nat.size x

/-- `nand->rowconv`, as `nanddev_init` sets it. -/
def eraseblockAddrShift : Nat := fls (org.pagesPerEraseblock - 1)

def lunAddrShift : Nat := fls (org.eraseblocksPerLun - 1) + eraseblockAddrShift org

/-- `nanddev_pos_to_row` -/
def posToRow (pos : NandPos) : Nat :=
  pos.lun <<< lunAddrShift org ||| pos.eraseblock <<< eraseblockAddrShift org ||| pos.page

def posNextTarget (pos : NandPos) : NandPos :=
  { page := 0, plane := 0, eraseblock := 0, lun := 0, target := pos.target + 1 }

def posNextLun (pos : NandPos) : NandPos :=
  if pos.lun ≥ org.lunsPerTarget - 1 then
    posNextTarget pos
  else
    { pos with lun := pos.lun + 1, page := 0, plane := 0, eraseblock := 0 }

def posNextEraseblock (pos : NandPos) : NandPos :=
  if pos.eraseblock ≥ org.eraseblocksPerLun - 1 then
    posNextLun org pos
  else
    { pos with
      eraseblock := pos.eraseblock + 1
      page := 0
      plane := (pos.eraseblock + 1) % org.planesPerLun }

def posNextPage (pos : NandPos) : NandPos :=
  if pos.page ≥ org.pagesPerEraseblock - 1 then
    posNextEraseblock org pos
  else
    { pos with page := pos.page + 1 }

/-- `nanddev_bbt_pos_to_entry` -/
def bbtPosToEntry (pos : NandPos) : Nat :=
  pos.eraseblock + (pos.lun + pos.target * org.lunsPerTarget) * org.eraseblocksPerLun

/-- `while (nanddev_pos_cmp(&pos, &last) <= 0)` of `nanddev_mtd_erase`: the value returned, `fail_addr`
if it has been set, and the device. -/
def nanddevMtdEraseLoop {σ : Type} (erase : σ → NandPos → Int × σ) (last : NandPos) :
    Nat → σ → NandPos → Option (Int × Option Nat × σ)
  | 0, _, _ => none
  | fuel + 1, s, pos =>
      if posCmp pos last ≤ 0 then
        let erased := erase s pos
        if erased.1 ≠ 0 then
          some (erased.1, some (posToOffs org pos), erased.2)
        else
          nanddevMtdEraseLoop erase last fuel erased.2 (posNextEraseblock org pos)
      else
        some (0, none, s)

def nanddevMtdErase {σ : Type} (erase : σ → NandPos → Int × σ) (s : σ) (addr len : Nat) :
    Option (Int × Option Nat × σ) :=
  nanddevMtdEraseLoop org erase (offsToPos org (addr + len - 1)).2 loopBound s
    (offsToPos org addr).2

/-- `struct nand_page_io_req`; the buffers are what has been taken from them. -/
structure IoReq where
  pos : NandPos
  dataoffs : Nat
  datalen : Nat
  databuf : Nat
  ooboffs : Nat
  ooblen : Nat
  oobbuf : Nat
  deriving DecidableEq, Repr

/-- `struct nand_io_iter` -/
structure IoIter where
  req : IoReq
  oobbytesPerPage : Nat
  dataleft : Nat
  oobleft : Nat

/-- `nanddev_io_iter_init` for a request of `len` bytes of data and `ooblen` bytes of OOB; `dataleft` and
`oobleft` are `unsigned int`. -/
def ioIterInit (oobavail offs len ooboffs ooblen : Nat) : IoIter :=
  let pos := offsToPos org offs
  { req :=
      { pos := pos.2
        dataoffs := pos.1
        datalen := min (org.pagesize - pos.1) (len % 2 ^ 32)
        databuf := 0
        ooboffs := ooboffs
        ooblen := min (oobavail - ooboffs) (ooblen % 2 ^ 32)
        oobbuf := 0 }
    oobbytesPerPage := oobavail
    dataleft := len % 2 ^ 32
    oobleft := ooblen % 2 ^ 32 }

def ioIterNextPage (iter : IoIter) : IoIter :=
  let dataleft := iter.dataleft - iter.req.datalen
  let oobleft := iter.oobleft - iter.req.ooblen
  { iter with
    req :=
      { pos := posNextPage org iter.req.pos
        dataoffs := 0
        datalen := min org.pagesize dataleft
        databuf := iter.req.databuf + iter.req.datalen
        ooboffs := 0
        ooblen := min iter.oobbytesPerPage oobleft
        oobbuf := iter.req.oobbuf + iter.req.ooblen }
    dataleft := dataleft
    oobleft := oobleft }

def ioIterEnd (iter : IoIter) : Bool :=
  iter.dataleft == 0 && iter.oobleft == 0

/-- `nanddev_io_for_each_page` with a body that breaks off with a value other than 0. -/
def forEachPage {σ : Type} (body : σ → IoReq → Option (Int × σ)) :
    Nat → IoIter → σ → Option (Int × σ)
  | 0, _, _ => none
  | fuel + 1, iter, s =>
      if ioIterEnd iter = true then
        some (0, s)
      else
        (body s iter.req).bind fun done =>
          if done.1 ≠ 0 then
            some done
          else
            forEachPage body fuel (ioIterNextPage org iter) done.2

end Source

/-! ## Positions are digits -/

section Digits

variable (org : MemOrg)

def MemOrg.pageBases : List Nat :=
  [org.pagesPerEraseblock, org.eraseblocksPerLun, org.lunsPerTarget]

def MemOrg.blockBases : List Nat :=
  [org.eraseblocksPerLun, org.lunsPerTarget]

def NandPos.pageDigits (pos : NandPos) : List Nat :=
  [pos.page, pos.eraseblock, pos.lun, pos.target]

def NandPos.blockDigits (pos : NandPos) : List Nat :=
  [pos.eraseblock, pos.lun, pos.target]

/-- A position with its fields in range; the end of the chip is the die behind the last. -/
structure NandPos.Valid (pos : NandPos) : Prop where
  page : pos.page < org.pagesPerEraseblock
  eraseblock : pos.eraseblock < org.eraseblocksPerLun
  lun : pos.lun < org.lunsPerTarget
  plane : pos.plane = pos.eraseblock % org.planesPerLun

/-- The number of the page, and of the block. -/
def pageOf (pos : NandPos) : Nat := Radix.value org.pageBases pos.pageDigits

def blockOf (pos : NandPos) : Nat := Radix.value org.blockBases pos.blockDigits

/-- The position of a page. -/
def posOfPage (n : Nat) : NandPos := (offsToPos org (n * org.pagesize)).2

variable {org} {pos pos' : NandPos}

theorem NandPos.Valid.blockDigits (h : pos.Valid org) :
    Radix.Valid org.blockBases pos.blockDigits :=
  Radix.Valid.cons h.eraseblock (Radix.Valid.cons h.lun (Radix.Valid.last pos.target))

theorem NandPos.Valid.pageDigits (h : pos.Valid org) : Radix.Valid org.pageBases pos.pageDigits :=
  Radix.Valid.cons h.page h.blockDigits

theorem pageOf_eq (pos : NandPos) :
    pageOf org pos = pos.page + org.pagesPerEraseblock * blockOf org pos := rfl

theorem NandPos.Valid.ext (h : pos.Valid org) (h' : pos'.Valid org)
    (heq : pageOf org pos = pageOf org pos') : pos = pos' := by
  have hdigits := Radix.value_inj h.pageDigits h'.pageDigits heq
  have hp := h.plane
  have hp' := h'.plane
  cases pos
  cases pos'
  simp only [NandPos.pageDigits, List.cons.injEq, and_true] at hdigits
  rcases hdigits with ⟨rfl, rfl, rfl, rfl⟩
  rw [NandPos.mk.injEq]
  simp only at hp hp'
  exact ⟨rfl, rfl, hp.trans hp'.symm, rfl, rfl⟩

/-- The position of an offset has the digits of the page number. -/
theorem offsToPos_digits (offs : Nat) :
    (offsToPos org offs).2.pageDigits = Radix.digits org.pageBases (offs / org.pagesize) := rfl

theorem offsToPos_valid (offs : Nat) : (offsToPos org offs).2.Valid org where
  page := Nat.mod_lt _ org.pages_pos
  eraseblock := Nat.mod_lt _ org.eraseblocks_pos
  lun := Nat.mod_lt _ org.luns_pos
  plane := rfl

theorem pageOf_offsToPos (offs : Nat) : pageOf org (offsToPos org offs).2 = offs / org.pagesize := by
  rw [pageOf, offsToPos_digits, Radix.value_digits]

theorem posOfPage_valid (n : Nat) : (posOfPage org n).Valid org := offsToPos_valid _

theorem pageOf_posOfPage (n : Nat) : pageOf org (posOfPage org n) = n := by
  rw [posOfPage, pageOf_offsToPos, Nat.mul_div_cancel _ org.pagesize_pos]

theorem NandPos.Valid.eq_posOfPage (h : pos.Valid org) : pos = posOfPage org (pageOf org pos) :=
  h.ext (posOfPage_valid _) (pageOf_posOfPage _).symm

theorem posToOffs_eq (pos : NandPos) (h : pageOf org pos < 2 ^ 32) :
    posToOffs org pos = pageOf org pos * org.pagesize := by
  have hvalue : pos.page + (pos.eraseblock + (pos.lun + pos.target * org.lunsPerTarget) *
      org.eraseblocksPerLun) * org.pagesPerEraseblock = pageOf org pos := by
    simp only [pageOf, MemOrg.pageBases, NandPos.pageDigits, Radix.value, List.headD_cons]
    ring
  simp only [posToOffs, hvalue]
  rw [Nat.mod_eq_of_lt h]

theorem bbtPosToEntry_eq (pos : NandPos) : bbtPosToEntry org pos = blockOf org pos := by
  simp only [bbtPosToEntry, blockOf, MemOrg.blockBases, NandPos.blockDigits, Radix.value,
    List.headD_cons]
  ring

/-- The entry of the table for an offset is the number of its block. -/
theorem bbtPosToEntry_offsToPos (offs : Nat) :
    bbtPosToEntry org (offsToPos org offs).2 = offs / org.erasesize := by
  have hpage := @pageOf_offsToPos org offs
  rw [pageOf_eq] at hpage
  have hlt := (@offsToPos_valid org offs).page
  rw [bbtPosToEntry_eq, MemOrg.erasesize, ← Nat.div_div_eq_div_mul, ← hpage,
    Nat.add_mul_div_left _ _ org.pages_pos, Nat.div_eq_of_lt hlt, Nat.zero_add]

/-- Offsets and positions are inverse to each other. -/
theorem posToOffs_offsToPos {offs : Nat} (h : offs / org.pagesize < 2 ^ 32) :
    posToOffs org (offsToPos org offs).2 + (offsToPos org offs).1 = offs := by
  rw [posToOffs_eq _ (by rw [pageOf_offsToPos]; exact h), pageOf_offsToPos]
  exact Nat.div_add_mod' offs org.pagesize

/-! ## Counting -/

theorem posNextEraseblock_digits (h : pos.Valid org) :
    (posNextEraseblock org pos).blockDigits = Radix.next org.blockBases pos.blockDigits ∧
      (posNextEraseblock org pos).page = 0 ∧ (posNextEraseblock org pos).Valid org := by
  have hpages := org.pages_pos
  have hblocks := org.eraseblocks_pos
  have hluns := org.luns_pos
  have heb := h.eraseblock
  have hlun := h.lun
  simp only [MemOrg.blockBases, NandPos.blockDigits, Radix.next]
  unfold posNextEraseblock
  by_cases hcarry : org.eraseblocksPerLun ≤ pos.eraseblock + 1
  · rw [if_pos (show pos.eraseblock ≥ org.eraseblocksPerLun - 1 by omega), if_pos hcarry]
    unfold posNextLun
    by_cases hcarry' : org.lunsPerTarget ≤ pos.lun + 1
    · rw [if_pos (show pos.lun ≥ org.lunsPerTarget - 1 by omega), if_pos hcarry']
      exact ⟨rfl, rfl, ⟨hpages, hblocks, hluns, (Nat.zero_mod _).symm⟩⟩
    · rw [if_neg (show ¬ pos.lun ≥ org.lunsPerTarget - 1 by omega), if_neg hcarry']
      exact ⟨rfl, rfl, ⟨hpages, hblocks, by simp only; omega, (Nat.zero_mod _).symm⟩⟩
  · rw [if_neg (show ¬ pos.eraseblock ≥ org.eraseblocksPerLun - 1 by omega), if_neg hcarry]
    exact ⟨rfl, rfl, ⟨hpages, by simp only; omega, hlun, rfl⟩⟩

theorem blockOf_posNextEraseblock (h : pos.Valid org) :
    blockOf org (posNextEraseblock org pos) = blockOf org pos + 1 := by
  rw [blockOf, (posNextEraseblock_digits h).1, Radix.value_next h.blockDigits]
  rfl

theorem posNextPage_spec (h : pos.Valid org) :
    (posNextPage org pos).Valid org ∧ pageOf org (posNextPage org pos) = pageOf org pos + 1 := by
  have hpage := h.page
  unfold posNextPage
  split
  · rename_i hcarry
    rcases posNextEraseblock_digits h with ⟨_, hzero, hvalid⟩
    refine ⟨hvalid, ?_⟩
    rw [pageOf_eq, pageOf_eq, hzero, blockOf_posNextEraseblock h,
      show pos.page = org.pagesPerEraseblock - 1 by omega, Nat.mul_add]
    omega
  · rename_i hcarry
    refine ⟨⟨by simp only; omega, h.eraseblock, h.lun, h.plane⟩, ?_⟩
    rw [pageOf_eq, pageOf_eq]
    simp only [blockOf, NandPos.blockDigits]
    omega

theorem posNextPage_posOfPage (n : Nat) : posNextPage org (posOfPage org n) = posOfPage org (n + 1) := by
  rcases posNextPage_spec (@posOfPage_valid org n) with ⟨hvalid, hpage⟩
  rw [pageOf_posOfPage] at hpage
  exact hvalid.ext (posOfPage_valid _) (by rw [hpage, pageOf_posOfPage])

/-- One field of `nanddev_pos_cmp`: where it differs it decides. -/
theorem field_cmp_iff (x y : Nat) {r : Int} {o : Ordering} (h : r ≤ 0 ↔ o ≠ .gt) :
    (if x ≠ y then if x < y then -1 else 1 else r) ≤ 0 ↔ (compare x y).then o ≠ .gt := by
  rcases lt_trichotomy x y with hlt | rfl | hgt
  · rw [if_pos (by omega), if_pos hlt, Nat.compare_eq_lt.2 hlt]
    exact iff_of_true (by decide) (show Ordering.lt ≠ .gt by decide)
  · rw [if_neg (by omega), Nat.compare_eq_eq.2 rfl]
    exact h
  · rw [if_pos (by omega), if_neg (by omega), Nat.compare_eq_gt.2 hgt]
    exact iff_of_false (by decide) (fun hne => hne rfl)

/-- `nanddev_pos_cmp` compares page numbers. -/
theorem posCmp_nonpos_iff (h : pos.Valid org) (h' : pos'.Valid org) :
    posCmp pos pos' ≤ 0 ↔ pageOf org pos ≤ pageOf org pos' := by
  have hcmp : posCmp pos pos' ≤ 0 ↔ Radix.cmp pos.pageDigits pos'.pageDigits ≠ .gt := by
    have hpage : (0 : Int) ≤ 0 ↔ Ordering.eq ≠ .gt := iff_of_true (le_refl 0) (by decide)
    have hfields := field_cmp_iff pos.target pos'.target
      (field_cmp_iff pos.lun pos'.lun
        (field_cmp_iff pos.eraseblock pos'.eraseblock (field_cmp_iff pos.page pos'.page hpage)))
    simp only [NandPos.pageDigits, Radix.cmp, Ordering.then_assoc, Ordering.eq_then]
    rw [Ordering.then_eq] at hfields
    exact hfields
  have hvalue : Radix.cmp pos.pageDigits pos'.pageDigits =
      compare (pageOf org pos) (pageOf org pos') := Radix.cmp_eq h.pageDigits h'.pageDigits
  rw [hcmp, hvalue, Nat.compare_ne_gt]

end Digits

/-! ## Erasing a range -/

section Erase

variable (org : MemOrg) {σ : Type}

/-- The blocks of the chip. -/
def MemOrg.nblocks : Nat := org.eraseblocksPerLun * (org.lunsPerTarget * org.ntargets)

/-- The position of the first page of a block. -/
def posOfBlock (block : Nat) : NandPos := posOfPage org (block * org.pagesPerEraseblock)

/-- The `count` blocks from `block` on, one after the other: the value returned, the block that has
failed, and the device. -/
def eraseEach (erase : σ → Nat → Int × σ) : Nat → σ → Nat → Int × Option Nat × σ
  | 0, s, _ => (0, none, s)
  | count + 1, s, block =>
      let erased := erase s block
      if erased.1 ≠ 0 then (erased.1, some block, erased.2)
      else eraseEach erase count erased.2 (block + 1)

variable {org}

theorem erasesize_pos : 0 < org.erasesize := Nat.mul_pos org.pagesize_pos org.pages_pos

theorem size_eq : org.size = org.nblocks * org.erasesize := by
  simp only [MemOrg.size, MemOrg.nblocks, MemOrg.erasesize]
  ring

theorem nblocks_le : org.nblocks ≤ 2 ^ 32 / org.pagesPerEraseblock := by
  rw [Nat.le_div_iff_mul_le org.pages_pos, Nat.mul_comm]
  exact Nat.le_of_lt org.pages_lt

theorem posOfBlock_valid (block : Nat) : (posOfBlock org block).Valid org := posOfPage_valid _

theorem pageOf_posOfBlock (block : Nat) :
    pageOf org (posOfBlock org block) = block * org.pagesPerEraseblock := pageOf_posOfPage _

theorem posOfBlock_spec (block : Nat) :
    (posOfBlock org block).page = 0 ∧ blockOf org (posOfBlock org block) = block := by
  have hvalue := @pageOf_posOfBlock org block
  have hlt := (@posOfBlock_valid org block).page
  have hmod := congrArg (· % org.pagesPerEraseblock) hvalue
  simp only [pageOf_eq, Nat.add_mul_mod_self_left, Nat.mul_mod_left, Nat.mod_eq_of_lt hlt] at hmod
  rw [pageOf_eq, hmod, Nat.zero_add, Nat.mul_comm block] at hvalue
  exact ⟨hmod, Nat.eq_of_mul_eq_mul_left org.pages_pos hvalue⟩

/-- The block lies behind the last die if and only if it lies behind the device. -/
theorem target_posOfBlock (block : Nat) :
    org.ntargets ≤ (posOfBlock org block).target ↔ org.nblocks ≤ block := by
  rcases @posOfBlock_valid org block with ⟨_, hblock, hlun, _⟩
  have hentry := (@posOfBlock_spec org block).2
  rw [← bbtPosToEntry_eq, bbtPosToEntry] at hentry
  have hdie : block / (org.eraseblocksPerLun * org.lunsPerTarget) = (posOfBlock org block).target := by
    have hrest : (posOfBlock org block).eraseblock +
        (posOfBlock org block).lun * org.eraseblocksPerLun <
          org.eraseblocksPerLun * org.lunsPerTarget := by
      calc (posOfBlock org block).eraseblock + (posOfBlock org block).lun * org.eraseblocksPerLun
          < ((posOfBlock org block).lun + 1) * org.eraseblocksPerLun := by
            rw [Nat.add_mul, Nat.one_mul]
            omega
        _ ≤ org.lunsPerTarget * org.eraseblocksPerLun := Nat.mul_le_mul_right _ hlun
        _ = org.eraseblocksPerLun * org.lunsPerTarget := Nat.mul_comm _ _
    have hsum : (posOfBlock org block).eraseblock +
        (posOfBlock org block).lun * org.eraseblocksPerLun +
          org.eraseblocksPerLun * org.lunsPerTarget * (posOfBlock org block).target = block :=
      Eq.trans (by ring) hentry
    refine Nat.div_eq_of_lt_le ?_ ?_
    · rw [Nat.mul_comm]
      omega
    · rw [Nat.add_mul, Nat.one_mul, Nat.mul_comm]
      omega
  have hblocks : org.ntargets * (org.eraseblocksPerLun * org.lunsPerTarget) = org.nblocks := by
    rw [MemOrg.nblocks]
    ring
  rw [← hdie, Nat.le_div_iff_mul_le (Nat.mul_pos org.eraseblocks_pos org.luns_pos), hblocks]

theorem posNextEraseblock_posOfBlock (block : Nat) :
    posNextEraseblock org (posOfBlock org block) = posOfBlock org (block + 1) := by
  rcases posNextEraseblock_digits (@posOfBlock_valid org block) with ⟨_, hzero, hvalid⟩
  refine hvalid.ext (posOfBlock_valid _) ?_
  rw [pageOf_eq, hzero, blockOf_posNextEraseblock (posOfBlock_valid _), (posOfBlock_spec block).2,
    pageOf_posOfBlock]
  ring

theorem offsToPos_block {addr : Nat} (h : org.erasesize ∣ addr) :
    (offsToPos org addr).2 = posOfBlock org (addr / org.erasesize) := by
  rcases h with ⟨block, rfl⟩
  have hpos := @erasesize_pos org
  refine (offsToPos_valid _).ext (posOfBlock_valid _) ?_
  rw [pageOf_offsToPos, pageOf_posOfBlock, Nat.mul_div_cancel_left _ hpos, MemOrg.erasesize,
    Nat.mul_assoc, Nat.mul_div_cancel_left _ org.pagesize_pos, Nat.mul_comm]

/-- The loop over positions is a loop over blocks. -/
theorem nanddevMtdEraseLoop_blocks (erase : σ → NandPos → Int × σ) {last : NandPos}
    (hlast : last.Valid org) (hend : blockOf org last < 2 ^ 32 / org.pagesPerEraseblock) :
    ∀ (count fuel : Nat) (s : σ) (block : Nat), block + count = blockOf org last + 1 → count < fuel →
      nanddevMtdEraseLoop org erase last fuel s (posOfBlock org block) =
        some ((eraseEach (fun s b => erase s (posOfBlock org b)) count s block).1,
          (eraseEach (fun s b => erase s (posOfBlock org b)) count s block).2.1.map
            (· * org.erasesize),
          (eraseEach (fun s b => erase s (posOfBlock org b)) count s block).2.2) := by
  have hpages := org.pages_pos
  have hlow : last.page < org.pagesPerEraseblock := hlast.page
  intro count
  induction count with
  | zero =>
      intro fuel s block hcount hfuel
      rcases Nat.exists_eq_add_of_le' (by omega : 1 ≤ fuel) with ⟨n, rfl⟩
      -- the position is in the block behind the last one
      have hbehind : ¬ posCmp (posOfBlock org block) last ≤ 0 := by
        rw [posCmp_nonpos_iff (posOfBlock_valid _) hlast, pageOf_posOfBlock, pageOf_eq,
          show block = blockOf org last + 1 by omega, Nat.add_mul, Nat.mul_comm (blockOf org last)]
        omega
      rw [nanddevMtdEraseLoop, if_neg hbehind]
      rfl
  | succ count ih =>
      intro fuel s block hcount hfuel
      rcases Nat.exists_eq_add_of_le' (by omega : 1 ≤ fuel) with ⟨n, rfl⟩
      have hle : block * org.pagesPerEraseblock ≤ blockOf org last * org.pagesPerEraseblock :=
        Nat.mul_le_mul_right _ (by omega)
      have hin : posCmp (posOfBlock org block) last ≤ 0 := by
        rw [posCmp_nonpos_iff (posOfBlock_valid _) hlast, pageOf_posOfBlock, pageOf_eq,
          Nat.mul_comm org.pagesPerEraseblock]
        omega
      rw [nanddevMtdEraseLoop, if_pos hin]
      simp only [eraseEach]
      split
      -- `fail_addr`: the rows of the range do not wrap in 32 bits
      · have hoffs : posToOffs org (posOfBlock org block) = block * org.erasesize := by
          have hmul := Nat.div_mul_le_self (2 ^ 32) org.pagesPerEraseblock
          have hlt : blockOf org last * org.pagesPerEraseblock <
              2 ^ 32 / org.pagesPerEraseblock * org.pagesPerEraseblock :=
            Nat.mul_lt_mul_of_pos_right hend hpages
          rw [posToOffs_eq _ (by rw [pageOf_posOfBlock]; omega), pageOf_posOfBlock,
            MemOrg.erasesize]
          ring
        rw [hoffs]
        rfl
      · rw [posNextEraseblock_posOfBlock]
        exact ih n _ (block + 1) (by omega) (by omega)

/-- `nanddev_mtd_erase` erases the blocks of the range in order, up to the first that fails, whose address
is `fail_addr`. -/
theorem nanddevMtdErase_blocks (erase : σ → NandPos → Int × σ) (s : σ) {addr len : Nat}
    (haddr : org.erasesize ∣ addr) (hlen : 0 < len) (hsize : addr + len ≤ org.size) :
    nanddevMtdErase org erase s addr len =
      let done := eraseEach (fun s b => erase s (posOfBlock org b))
        ((addr + len - 1) / org.erasesize + 1 - addr / org.erasesize) s (addr / org.erasesize)
      some (done.1, done.2.1.map (· * org.erasesize), done.2.2) := by
  have hpos := @erasesize_pos org
  have hblock : blockOf org (offsToPos org (addr + len - 1)).2 = (addr + len - 1) / org.erasesize := by
    rw [← bbtPosToEntry_eq, bbtPosToEntry_offsToPos]
  have hin : (addr + len - 1) / org.erasesize < org.nblocks := by
    rw [Nat.div_lt_iff_lt_mul hpos, ← size_eq]
    omega
  have hfirst : addr / org.erasesize ≤ (addr + len - 1) / org.erasesize :=
    Nat.div_le_div_right (by omega)
  have hblocks := @nblocks_le org
  have hdiv : 2 ^ 32 / org.pagesPerEraseblock ≤ 2 ^ 32 := Nat.div_le_self _ _
  have hbound : 2 ^ 33 ≤ loopBound := by
    simp only [loopBound]
    omega
  have hfuel : (addr + len - 1) / org.erasesize + 1 - addr / org.erasesize < loopBound := by
    calc (addr + len - 1) / org.erasesize + 1 - addr / org.erasesize
        ≤ (addr + len - 1) / org.erasesize + 1 := Nat.sub_le _ _
      _ ≤ org.nblocks := hin
      _ ≤ 2 ^ 32 := hblocks.trans hdiv
      _ < loopBound := by omega
  rw [nanddevMtdErase, offsToPos_block haddr]
  exact nanddevMtdEraseLoop_blocks erase (offsToPos_valid _) (by rw [hblock]; omega) _ _ _ _
    (by rw [hblock]; omega) hfuel

/-- The block that has failed is one of those. -/
theorem eraseEach_failed {erase : σ → Nat → Int × σ} :
    ∀ {count : Nat} {s : σ} {block failed : Nat},
      (eraseEach erase count s block).2.1 = some failed → block ≤ failed ∧ failed < block + count := by
  intro count
  induction count with
  | zero =>
      intro s block failed h
      cases h
  | succ count ih =>
      intro s block failed h
      simp only [eraseEach] at h
      split at h
      · cases h
        omega
      · have hrest := ih h
        omega

theorem eraseEach_spiNand {nand : Nand} (ans : ChipAnswers) :
    ∀ (count : Nat) (s : SpiNand) (block : Nat),
      SpiNand.nanddevMtdErase nand ans count s block =
        ((eraseEach (SpiNand.nanddevErase nand ans) count s block).1,
          (eraseEach (SpiNand.nanddevErase nand ans) count s block).2.2) := by
  intro count
  induction count with
  | zero =>
      intro s block
      rfl
  | succ count ih =>
      intro s block
      simp only [SpiNand.nanddevMtdErase, eraseEach]
      split
      · rfl
      · exact ih _ _

/-- The device of `NandCore`, which has blocks where the code has positions, is erased in the same
way. -/
theorem nanddevMtdErase_spiNand {nand : Nand} (hgeo : nand.erasesize = org.erasesize)
    (ans : ChipAnswers) (s : SpiNand) {addr len : Nat} (haddr : org.erasesize ∣ addr) (hlen : 0 < len)
    (hsize : addr + len ≤ org.size) :
    ∃ failed, nanddevMtdErase org
        (fun s pos => SpiNand.nanddevErase nand ans s (bbtPosToEntry org pos)) s addr len =
      some ((SpiNand.nanddevMtdErase nand ans
          ((addr + len - 1) / nand.erasesize + 1 - addr / nand.erasesize) s
          (addr / nand.erasesize)).1, failed,
        (SpiNand.nanddevMtdErase nand ans
          ((addr + len - 1) / nand.erasesize + 1 - addr / nand.erasesize) s
          (addr / nand.erasesize)).2) ∧
      ∀ offs, failed = some offs → org.erasesize ∣ offs ∧ addr ≤ offs ∧ offs < addr + len := by
  have hpos := @erasesize_pos org
  have hentry : (fun (s : SpiNand) b =>
      SpiNand.nanddevErase nand ans s (bbtPosToEntry org (posOfBlock org b))) =
        SpiNand.nanddevErase nand ans := by
    funext s b
    rw [bbtPosToEntry_eq, (posOfBlock_spec b).2]
  rw [nanddevMtdErase_blocks _ s haddr hlen hsize, hgeo, eraseEach_spiNand]
  simp only [hentry]
  refine ⟨_, rfl, ?_⟩
  intro offs hoffs
  rcases Option.map_eq_some_iff.1 hoffs with ⟨failed, hfailed, rfl⟩
  rcases eraseEach_failed hfailed with ⟨hlo, hhi⟩
  have haddr' := Nat.div_mul_cancel haddr
  have hlast := Nat.div_mul_le_self (addr + len - 1) org.erasesize
  have hge : addr / org.erasesize * org.erasesize ≤ failed * org.erasesize :=
    Nat.mul_le_mul_right _ hlo
  have hle : failed * org.erasesize ≤ (addr + len - 1) / org.erasesize * org.erasesize := by
    refine Nat.mul_le_mul_right _ ?_
    generalize (addr + len - 1) / org.erasesize = last at hhi
    omega
  exact ⟨Nat.dvd_mul_left _ _, by omega, by omega⟩

theorem sixtyFour_pos : 0 < 64 := by
  decide

/-- A chip of 64 blocks of 128 KiB, with pages of 2 KiB. -/
def org64 : MemOrg where
  pagesize := 2048
  oobsize := 64
  pagesPerEraseblock := 64
  eraseblocksPerLun := 64
  planesPerLun := 1
  lunsPerTarget := 1
  ntargets := 1
  pagesize_pos := page2k_pos
  pages_pos := sixtyFour_pos
  eraseblocks_pos := sixtyFour_pos
  planes_pos := Nat.one_pos
  luns_pos := Nat.one_pos
  ntargets_pos := Nat.one_pos
  pages_lt := by decide

def nand64 : Nand where
  size := 64 * 131072
  erasesize := 131072
  writesize := 2048
  ntargets := 1
  bad := fun _ => false
  writesize_pos := page2k_pos
  writesize_dvd := page2k_dvd_block
  erasesize_pos := block128k_pos
  erasesize_lt := block128k_lt
  erasesize_dvd := by decide
  size_lt := by decide

/-- The blocks 1 and 2, of which one is marked bad. -/
theorem nanddevMtdErase_two_blocks :
    ∃ failed, nanddevMtdErase org64
        (fun s pos => SpiNand.nanddevErase nand64 SpiNand.allSucceed s (bbtPosToEntry org64 pos))
        SpiNand.oneMark 131072 262144 =
      some ((SpiNand.nanddevMtdErase nand64 SpiNand.allSucceed 2 SpiNand.oneMark 1).1, failed,
        (SpiNand.nanddevMtdErase nand64 SpiNand.allSucceed 2 SpiNand.oneMark 1).2) ∧
      ∀ offs, failed = some offs → org64.erasesize ∣ offs ∧ 131072 ≤ offs ∧ offs < 131072 + 262144 :=
  nanddevMtdErase_spiNand rfl SpiNand.allSucceed SpiNand.oneMark (by decide) (by decide) (by decide)

end Erase

/-! ## Row addresses -/

section Row

variable {org : MemOrg} {pos pos' : NandPos}

theorem le_two_pow_fls {n : Nat} (hpos : 0 < n) : n ≤ 2 ^ fls (n - 1) := by
  have hlt : n - 1 < 2 ^ fls (n - 1) := Nat.lt_size_self _
  omega

/-- The fields of a row address do not overlap. -/
theorem posToRow_eq (h : pos.Valid org) :
    posToRow org pos = Radix.value [2 ^ fls (org.pagesPerEraseblock - 1),
      2 ^ fls (org.eraseblocksPerLun - 1)] [pos.page, pos.eraseblock, pos.lun] := by
  have hpage : pos.page < 2 ^ fls (org.pagesPerEraseblock - 1) :=
    lt_of_lt_of_le h.page (le_two_pow_fls org.pages_pos)
  have hblock : pos.eraseblock < 2 ^ fls (org.eraseblocksPerLun - 1) :=
    lt_of_lt_of_le h.eraseblock (le_two_pow_fls org.eraseblocks_pos)
  rw [posToRow, lunAddrShift, eraseblockAddrShift, Nat.shiftLeft_add, ← Nat.shiftLeft_or_distrib,
    ← Nat.shiftLeft_add_eq_or_of_lt hpage, ← Nat.shiftLeft_add_eq_or_of_lt hblock]
  simp only [Nat.shiftLeft_eq, Radix.value, List.headD_cons]
  ring

/-- Different pages of a die have different rows. -/
theorem posToRow_inj (h : pos.Valid org) (h' : pos'.Valid org) (htarget : pos.target = pos'.target)
    (hrow : posToRow org pos = posToRow org pos') : pos = pos' := by
  have hvalid : ∀ {p : NandPos}, p.Valid org →
      Radix.Valid [2 ^ fls (org.pagesPerEraseblock - 1), 2 ^ fls (org.eraseblocksPerLun - 1)]
        [p.page, p.eraseblock, p.lun] := by
    intro p hp
    exact Radix.Valid.cons (lt_of_lt_of_le hp.page (le_two_pow_fls org.pages_pos))
      (Radix.Valid.cons (lt_of_lt_of_le hp.eraseblock (le_two_pow_fls org.eraseblocks_pos))
        (Radix.Valid.last p.lun))
  rw [posToRow_eq h, posToRow_eq h'] at hrow
  have hdigits := Radix.value_inj (hvalid h) (hvalid h') hrow
  simp only [List.cons.injEq, and_true] at hdigits
  refine h.ext h' ?_
  rw [pageOf, pageOf, NandPos.pageDigits, NandPos.pageDigits, hdigits.1, hdigits.2.1, hdigits.2.2,
    htarget]

theorem posToRow_inj_page_192 : posOfBlock org64 3 = posOfPage org64 192 :=
  posToRow_inj (posOfBlock_valid 3) (posOfPage_valid 192) rfl (by decide)

end Row

/-! ## The pages of a request -/

section Request

variable {org : MemOrg} {oobavail offs len ooboffs ooblen : Nat}

/-- A part of the request: what it takes from the buffers lies where the request has it, in one page and in
its OOB. -/
structure IoPart (org : MemOrg) (oobavail offs len ooboffs ooblen d o : Nat) (req : IoReq) : Prop where
  pos : req.pos.Valid org
  some_part : req.datalen ≠ 0 ∨ req.ooblen ≠ 0
  databuf : req.databuf = d
  oobbuf : req.oobbuf = o
  data_le : d + req.datalen ≤ len
  oob_le : o + req.ooblen ≤ ooblen
  data_page : req.dataoffs + req.datalen ≤ org.pagesize
  oob_page : req.ooblen ≠ 0 → req.ooboffs + req.ooblen ≤ oobavail
  data_at : req.datalen ≠ 0 → pageOf org req.pos * org.pagesize + req.dataoffs = offs + d
  oob_at : req.ooblen ≠ 0 → pageOf org req.pos * oobavail + req.ooboffs =
    offs / org.pagesize * oobavail + ooboffs + o

/-- The iterator when `d` bytes of data and `o` bytes of OOB have been given out. -/
structure IterAt (org : MemOrg) (oobavail offs len ooboffs ooblen d o : Nat) (iter : IoIter) :
    Prop where
  pos : iter.req.pos.Valid org
  perPage : iter.oobbytesPerPage = oobavail
  databuf : iter.req.databuf = d
  oobbuf : iter.req.oobbuf = o
  dataleft : d + iter.dataleft = len
  oobleft : o + iter.oobleft = ooblen
  dataoffs : iter.req.dataoffs < org.pagesize
  data_min : iter.req.datalen = min (org.pagesize - iter.req.dataoffs) iter.dataleft
  oob_lt : iter.oobleft ≠ 0 → iter.req.ooboffs < oobavail
  oob_min : iter.req.ooblen = min (oobavail - iter.req.ooboffs) iter.oobleft
  data_at : iter.dataleft ≠ 0 → pageOf org iter.req.pos * org.pagesize + iter.req.dataoffs = offs + d
  oob_at : iter.oobleft ≠ 0 → pageOf org iter.req.pos * oobavail + iter.req.ooboffs =
    offs / org.pagesize * oobavail + ooboffs + o

theorem iterAt_init (hlen : len < 2 ^ 32) (hooblen : ooblen < 2 ^ 32)
    (hoob : ooblen = 0 ∨ ooboffs < oobavail) :
    IterAt org oobavail offs len ooboffs ooblen 0 0
      (ioIterInit org oobavail offs len ooboffs ooblen) where
  pos := offsToPos_valid offs
  perPage := rfl
  databuf := rfl
  oobbuf := rfl
  dataleft := by
    simp only [ioIterInit]
    rw [Nat.mod_eq_of_lt hlen, Nat.zero_add]
  oobleft := by
    simp only [ioIterInit]
    rw [Nat.mod_eq_of_lt hooblen, Nat.zero_add]
  dataoffs := Nat.mod_lt offs org.pagesize_pos
  data_min := rfl
  oob_lt hne := by
    simp only [ioIterInit] at hne ⊢
    rw [Nat.mod_eq_of_lt hooblen] at hne
    exact hoob.resolve_left hne
  oob_min := rfl
  data_at _ := by
    simp only [ioIterInit]
    rw [pageOf_offsToPos]
    exact Nat.div_add_mod' offs org.pagesize
  oob_at _ := by
    simp only [ioIterInit]
    rw [pageOf_offsToPos]
    rfl

variable {d o : Nat} {iter : IoIter}

/-- Something is given out in each round. -/
theorem IterAt.progress (h : IterAt org oobavail offs len ooboffs ooblen d o iter)
    (hend : ioIterEnd iter ≠ true) : 0 < iter.req.datalen + iter.req.ooblen := by
  have hdata := h.data_min
  have hooblen := h.oob_min
  have hoffs := h.dataoffs
  have hleft : iter.dataleft ≠ 0 ∨ iter.oobleft ≠ 0 := by
    rw [ioIterEnd, Ne, Bool.and_eq_true, beq_iff_eq, beq_iff_eq] at hend
    omega
  rcases hleft with hdl | hol
  · omega
  · have hlt := h.oob_lt hol
    omega

theorem IterAt.part (h : IterAt org oobavail offs len ooboffs ooblen d o iter)
    (hend : ioIterEnd iter ≠ true) : IoPart org oobavail offs len ooboffs ooblen d o iter.req := by
  have hpos := h.progress hend
  have hdata := h.data_min
  have hooblen := h.oob_min
  have hdl := h.dataleft
  have hol := h.oobleft
  have hoffs := h.dataoffs
  refine ⟨h.pos, by omega, h.databuf, h.oobbuf, by omega, by omega, by omega, ?_, ?_, ?_⟩
  · intro hne
    have hlt := h.oob_lt (by omega)
    omega
  · intro hne
    exact h.data_at (by omega)
  · intro hne
    exact h.oob_at (by omega)

theorem IterAt.next (h : IterAt org oobavail offs len ooboffs ooblen d o iter) :
    IterAt org oobavail offs len ooboffs ooblen (d + iter.req.datalen) (o + iter.req.ooblen)
      (ioIterNextPage org iter) := by
  have hdata := h.data_min
  have hooblen := h.oob_min
  have hdl := h.dataleft
  have hol := h.oobleft
  have hoffs := h.dataoffs
  have hpagepos := org.pagesize_pos
  rcases posNextPage_spec h.pos with ⟨hvalid, hpage⟩
  refine ⟨hvalid, h.perPage, ?_, ?_, ?_, ?_, hpagepos, ?_, ?_, ?_, ?_, ?_⟩
  · simp only [ioIterNextPage, h.databuf]
  · simp only [ioIterNextPage, h.oobbuf]
  · simp only [ioIterNextPage]
    omega
  · simp only [ioIterNextPage]
    omega
  · simp only [ioIterNextPage, Nat.sub_zero]
  · simp only [ioIterNextPage]
    intro hne
    have hlt := h.oob_lt (by omega)
    omega
  · simp only [ioIterNextPage, Nat.sub_zero, h.perPage]
  · simp only [ioIterNextPage]
    intro hne
    have hat := h.data_at (by omega)
    rw [hpage, Nat.add_mul]
    omega
  · simp only [ioIterNextPage]
    intro hne
    have hlt := h.oob_lt (by omega)
    have hat := h.oob_at (by omega)
    rw [hpage, Nat.add_mul]
    omega

variable {σ : Type} {body : σ → IoReq → Option (Int × σ)} {I : Nat → Nat → σ → Prop}
  {Q : Int → σ → Prop}

theorem forEachPage_from
    (hbody : ∀ d o s req, I d o s → IoPart org oobavail offs len ooboffs ooblen d o req →
      ∃ r, body s req = some r ∧ (r.1 = 0 → I (d + req.datalen) (o + req.ooblen) r.2) ∧
        (r.1 ≠ 0 → Q r.1 r.2)) :
    ∀ (fuel d o : Nat) (iter : IoIter) (s : σ),
      IterAt org oobavail offs len ooboffs ooblen d o iter → I d o s →
      iter.dataleft + iter.oobleft < fuel →
      ∃ r, forEachPage org body fuel iter s = some r ∧
        (r.1 = 0 → I len ooblen r.2) ∧ (r.1 ≠ 0 → Q r.1 r.2) := by
  intro fuel
  induction fuel with
  | zero =>
      intro d o iter s _ _ hfuel
      omega
  | succ fuel ih =>
      intro d o iter s hat hI hfuel
      have hdl := hat.dataleft
      have hol := hat.oobleft
      rw [forEachPage]
      by_cases hend : ioIterEnd iter = true
      · rw [if_pos hend]
        rw [ioIterEnd, Bool.and_eq_true, beq_iff_eq, beq_iff_eq] at hend
        refine ⟨_, rfl, fun _ => ?_, fun hne => absurd rfl hne⟩
        rw [show len = d by omega, show ooblen = o by omega]
        exact hI
      · rw [if_neg hend]
        rcases hbody d o s iter.req hI (hat.part hend) with ⟨r, hrun, hok, hfail⟩
        rw [hrun, Option.bind_some]
        by_cases hret : r.1 = 0
        · rw [if_neg (not_not.2 hret)]
          have hpos := hat.progress hend
          have hnext := hat.next
          have hdl' := hnext.dataleft
          have hol' := hnext.oobleft
          exact ih _ _ _ _ hnext (hok hret) (by omega)
        · rw [if_pos hret]
          exact ⟨_, rfl, fun h => absurd h hret, hfail⟩

/-- The rule for `nanddev_io_for_each_page`: the loop comes to an end; a body that takes its part keeps
`I`, which in the end has the whole request, and what it leaves behind when it breaks off is `Q`. -/
theorem forEachPage_rule (hlen : len < 2 ^ 32) (hooblen : ooblen < 2 ^ 32)
    (hoob : ooblen = 0 ∨ ooboffs < oobavail)
    (hbody : ∀ d o s req, I d o s → IoPart org oobavail offs len ooboffs ooblen d o req →
      ∃ r, body s req = some r ∧ (r.1 = 0 → I (d + req.datalen) (o + req.ooblen) r.2) ∧
        (r.1 ≠ 0 → Q r.1 r.2))
    {s : σ} (hinit : I 0 0 s) :
    ∃ r, forEachPage org body loopBound (ioIterInit org oobavail offs len ooboffs ooblen) s =
        some r ∧ (r.1 = 0 → I len ooblen r.2) ∧ (r.1 ≠ 0 → Q r.1 r.2) := by
  have hat := @iterAt_init org oobavail offs len ooboffs ooblen hlen hooblen hoob
  have hdl := hat.dataleft
  have hol := hat.oobleft
  have hbound : 2 ^ 34 ≤ loopBound := by
    simp only [loopBound]
    omega
  exact forEachPage_from hbody loopBound 0 0 _ s hat hinit (by omega)

end Request

end Burn
end CanmvK230
