import CanmvK230.Burn.NandBurn

/-!
# Spinand — the environment on SPI-NAND (`env/spinand.c`)

`env_spinand_save` erases the range of the environment, passing over the blocks that `mtd_erase`
names in `fail_addr`, and then writes the image page by page; `env_spinand_load` reads it back.  The
write loop and the read loop pass over the blocks that `mtd_block_isbad` names, so both visit the good
pages of the range in order (`goodPages`, `envLoop_eq`).

What is saved is read back unless a page shows a corrected bit flip, which `readenv` takes for a
failure, or lies in a block whose erase has failed and which still holds a bit that the image needs
set (`saved_env_read_back_iff`).

The boards of the repository have no `CONFIG_ENV_OFFSET_REDUND`: there is one location.
-/

namespace CanmvK230
namespace Env

open Lib Burn

/-! ## The MTD layer -/

def euclean : Int := 117

def mtdFailAddrUnknown : UInt64 := -1

/-- The calls on the device: `mtd_erase` with the `fail_addr` it sets, `mtd_block_isbad`, and
`mtd_write_oob` and `mtd_read_oob` for the data of one page with the `retlen` they set. -/
structure EnvMtdOps (μ : Type) where
  erase : μ → UInt64 → UInt64 → Int × UInt64 × μ
  blockIsbad : μ → UInt64 → Int
  writeOob : μ → UInt64 → List UInt8 → Int × UInt64 × μ
  readOob : μ → UInt64 → UInt64 → Int × UInt64 × List UInt8

/-- `CONFIG_ENV_OFFSET`, `CONFIG_ENV_SIZE` and `CONFIG_ENV_RANGE`. -/
structure EnvConfig where
  envOffset : UInt64
  envSize : UInt64
  envRange : UInt64
  deriving DecidableEq, Repr

/-! ## `env/spinand.c` -/

section Source

variable {μ σ : Type} (cfg : EnvConfig) (mtd : Option MtdInfo) (ops : EnvMtdOps μ)

def mtdOobWriteIsEmpty (datbuf oobbuf : List UInt8) : Bool :=
  datbuf.all (· == 0xff) && oobbuf.all (· == 0xff)

def mtdSpecialWriteOob (mtd : MtdInfo) (m : μ) (off : UInt64) (datbuf : List UInt8)
    (writeEmptyPages : Bool) : Int × UInt64 × μ :=
  if writeEmptyPages = false ∧ mtdOobWriteIsEmpty datbuf [] = true then
    (0, mtd.writesize.toUInt64, m)
  else
    ops.writeOob m off datbuf

-- The loop of `writeenv` and of `readenv`: `moved` is `amount_saved` or `amount_loaded`, and `page`
-- is the call that moves a page.
def envLoop (mtd : MtdInfo) (isbad : σ → UInt64 → Int) (page : σ → UInt64 → UInt64 → Int × UInt64 × σ)
    (stop : UInt64) : Nat → σ → UInt64 → UInt64 → Option (Int × σ)
  | 0, _, _, _ => none
  | fuel + 1, s, offset, moved =>
      if moved < cfg.envSize ∧ offset < stop then
        if isbad s offset ≠ 0 then
          envLoop mtd isbad page stop fuel s (offset + mtd.erasesize.toUInt64) moved
        else
          let done := page s offset moved
          if done.1 ≠ 0 then
            some (1, done.2.2)
          else
            envLoop mtd isbad page stop fuel done.2.2 (offset + done.2.1) (moved + done.2.1)
      else if moved ≠ cfg.envSize then
        some (1, s)
      else
        some (0, s)

def writeenv (m : μ) (offset : UInt64) (buf : ByteMem) : Option (Int × μ) :=
  match mtd with
  | none => some (1, m)
  | some mtd =>
      envLoop cfg mtd ops.blockIsbad
        (fun m offset saved =>
          mtdSpecialWriteOob ops mtd m offset (buf.read saved.toNat mtd.writesize.toNat) false)
        (offset + cfg.envRange) loopBound m offset 0

def readenv (m : μ) (offset : UInt64) (buf : ByteMem) : Option (Int × ByteMem) :=
  match mtd with
  | none => some (1, buf)
  | some mtd =>
      envLoop cfg mtd (fun _ => ops.blockIsbad m)
        (fun buf offset loaded =>
          let data := ops.readOob m offset mtd.writesize.toUInt64
          (data.1, data.2.1, buf.write loaded.toNat data.2.2))
        (offset + cfg.envRange) loopBound buf offset 0

-- `while (erase_op.len)` of `erase_and_write_env`; the result is the last `ret`.
def eraseEnvLoop (mtd : MtdInfo) : Nat → μ → UInt64 → UInt64 → Int → Option (Int × μ)
  | 0, _, _, _, _ => none
  | fuel + 1, m, addr, len, ret =>
      if len = 0 then
        some (ret, m)
      else
        let erased := ops.erase m addr len
        if erased.1 ≠ -eio then
          some (erased.1, erased.2.2)
        else
          -- behind the last, partial block of the range the subtraction wraps
          eraseEnvLoop mtd fuel erased.2.2 (erased.2.1 + mtd.erasesize.toUInt64)
            (len - (erased.2.1 - addr) - mtd.erasesize.toUInt64) erased.1

def eraseAndWriteEnv (m : μ) (envNew : ByteMem) : Option (Int × μ) :=
  match mtd with
  | none => some (1, m)
  | some info =>
      if mtdIsAlignedWithBlockSize info cfg.envOffset = false then
        some (1, m)
      else
        match eraseEnvLoop ops info loopBound m cfg.envOffset cfg.envRange 0 with
        | none => none
        | some (ret, m) =>
            if ret ≠ 0 ∧ ret ≠ -eio then
              some (1, m)
            else
              writeenv cfg mtd ops m cfg.envOffset envNew

/-- `env_spinand_save`; `exported` is the answer of `env_export` and the buffer it has filled. -/
def envSpinandSave (m : μ) (exported : Int × ByteMem) : Option (Int × μ) :=
  if cfg.envRange < cfg.envSize then
    some (1, m)
  else if exported.1 ≠ 0 then
    some (exported.1, m)
  else
    eraseAndWriteEnv cfg mtd ops m exported.2

/-- How `env_spinand_load` ends: with `env_set_default` and an error, or with the call of
`env_import` for a buffer of `CONFIG_ENV_SIZE` bytes. -/
inductive EnvLoaded
  | setDefault (s : String) (ret : Int)
  | imported (buf : List UInt8)
  deriving DecidableEq, Repr

def envSpinandLoad (m : μ) (buf : ByteMem) : Option EnvLoaded :=
  match readenv cfg mtd ops m cfg.envOffset buf with
  | none => none
  | some (ret, buf) =>
      if ret ≠ 0 then
        some (.setDefault "readenv() failed" (-eio))
      else
        some (.imported (buf.read 0 cfg.envSize.toNat))

end Source

/-! ## The device -/

/-- A NAND chip with its answers: to the erase of a block, to the write of a page, and whether a later
read of a page has to correct bit flips. -/
structure EnvChip where
  nand : Nand
  eraseAns : Nat → Int
  writeAns : Nat → Int
  flipped : Nat → Bool

namespace EnvChip

variable (chip : EnvChip)

/-- `nanddev_mtd_erase` over the `count` blocks from `block` on.  A block that could not be erased
keeps its content. -/
def eraseBlocks : Nat → ByteMem → Nat → Int × UInt64 × ByteMem
  | 0, m, _ => (0, mtdFailAddrUnknown, m)
  | count + 1, m, block =>
      if chip.eraseAns block ≠ 0 then
        (chip.eraseAns block, UInt64.ofNat (block * chip.nand.erasesize), m)
      else
        eraseBlocks count (m.fill (block * chip.nand.erasesize) chip.nand.erasesize 0xff) (block + 1)

/-- The calls, with the range checks of `mtdcore.c`.  Bit flips are corrected, so the data of a read is
right even where the answer is `-EUCLEAN`. -/
def ops : EnvMtdOps ByteMem where
  erase := fun m addr len =>
    if addr.toNat > chip.nand.size ∨ len.toNat > chip.nand.size - addr.toNat then
      (-einval, mtdFailAddrUnknown, m)
    else if len = 0 then
      (0, mtdFailAddrUnknown, m)
    else
      let first := addr.toNat / chip.nand.erasesize
      let last := (addr.toNat + len.toNat - 1) / chip.nand.erasesize
      chip.eraseBlocks (last + 1 - first) m first
  blockIsbad := chip.nand.ops.blockIsbad
  writeOob := fun m off data =>
    if off.toNat ≥ 2 ^ 63 ∨ off.toNat + data.length > chip.nand.size then
      (-einval, 0, m)
    else if chip.writeAns off.toNat ≠ 0 then
      (chip.writeAns off.toNat, 0, m)
    else
      (0, UInt64.ofNat data.length, Nand.program m off.toNat data)
  readOob := fun m off len =>
    if off.toNat ≥ 2 ^ 63 ∨ off.toNat + len.toNat > chip.nand.size then
      (-einval, 0, [])
    else
      (if chip.flipped off.toNat = true then -euclean else 0, len, m.read off.toNat len.toNat)

end EnvChip

/-! ## The good pages of a range -/

section Walk

variable (nand : Nand)

/-- The addresses of the pages that start in `[lo, hi)` and lie in a good block, in order. -/
def goodPages (lo hi : Nat) : List Nat :=
  (List.range' lo (hi - lo)).filter fun a => decide (nand.writesize ∣ a ∧ nand.Good a)

theorem mem_goodPages {lo hi p : Nat} (h : p ∈ goodPages nand lo hi) :
    lo ≤ p ∧ p < hi ∧ nand.writesize ∣ p := by
  simp only [goodPages, List.mem_filter, List.mem_range'_1, decide_eq_true_eq] at h
  exact ⟨h.1.1, by omega, h.2.1⟩

theorem goodPages_of_le {lo hi : Nat} (h : hi ≤ lo) : goodPages nand lo hi = [] := by
  simp [goodPages, Nat.sub_eq_zero_of_le h]

theorem goodPages_append {lo mid hi : Nat} (h₁ : lo ≤ mid) (h₂ : mid ≤ hi) :
    goodPages nand lo hi = goodPages nand lo mid ++ goodPages nand mid hi := by
  rw [goodPages, goodPages, goodPages, ← List.filter_append]
  congr 1
  have hsplit := List.range'_append_1 (s := lo) (m := mid - lo) (n := hi - mid)
  rw [show lo + (mid - lo) = mid by omega, show mid - lo + (hi - mid) = hi - lo by omega] at hsplit
  exact hsplit.symm

/-- A bad block has no page in the list. -/
theorem goodPages_bad {lo hi : Nat} (haligned : nand.erasesize ∣ lo) (hbad : ¬ nand.Good lo) :
    goodPages nand lo hi = goodPages nand (lo + nand.erasesize) hi := by
  have hnone : ∀ stop, stop ≤ lo + nand.erasesize → goodPages nand lo stop = [] := by
    intro stop hstop
    refine List.filter_eq_nil_iff.2 ?_
    intro a ha
    rw [List.mem_range'_1] at ha
    have hk := nand.good_add haligned (k := a - lo) (by omega)
    rw [show lo + (a - lo) = a by omega] at hk
    simp [hk, hbad]
  by_cases hle : lo + nand.erasesize ≤ hi
  · rw [goodPages_append nand (Nat.le_add_right lo nand.erasesize) hle, hnone _ (le_refl _),
      List.nil_append]
  · rw [hnone hi (by omega), goodPages_of_le nand (by omega)]

/-- The first page of the list. -/
theorem goodPages_good {lo hi : Nat} (hpage : nand.writesize ∣ lo) (hgood : nand.Good lo)
    (hlt : lo < hi) : goodPages nand lo hi = lo :: goodPages nand (lo + nand.writesize) hi := by
  have hpos := nand.writesize_pos
  -- no other address of the page is a multiple of the page size
  have hone : ∀ k, k < nand.writesize → goodPages nand lo (lo + k + 1) = [lo] := by
    intro k hk
    have htail : (List.range' (lo + 1) k).filter
        (fun a => decide (nand.writesize ∣ a ∧ nand.Good a)) = [] := by
      refine List.filter_eq_nil_iff.2 ?_
      intro a ha
      rw [List.mem_range'_1] at ha
      have hnot : ¬ nand.writesize ∣ a := by
        intro hdvd
        have hsub := Nat.dvd_sub hdvd hpage
        have hle := Nat.le_of_dvd (by omega) hsub
        omega
      simp [hnot]
    rw [goodPages, show lo + k + 1 - lo = k + 1 by omega, List.range'_succ,
      List.filter_cons_of_pos (by simp [hpage, hgood]), htail]
  by_cases hle : lo + nand.writesize ≤ hi
  · have hfirst := hone (nand.writesize - 1) (by omega)
    rw [show lo + (nand.writesize - 1) + 1 = lo + nand.writesize by omega] at hfirst
    rw [goodPages_append nand (Nat.le_add_right lo nand.writesize) hle, hfirst]
    rfl
  · have hall := hone (hi - lo - 1) (by omega)
    rw [show lo + (hi - lo - 1) + 1 = hi by omega] at hall
    rw [hall, goodPages_of_le nand (by omega)]

/-- The pages of the list do not overlap. -/
theorem pairwise_goodPages (lo hi : Nat) :
    (goodPages nand lo hi).Pairwise fun p q => p + nand.writesize ≤ q := by
  have hlt : (goodPages nand lo hi).Pairwise (· < ·) :=
    List.Pairwise.filter _ List.pairwise_lt_range'
  refine hlt.imp_of_mem ?_
  intro p q hp hq hpq
  have hsub := Nat.dvd_sub (mem_goodPages nand hq).2.2 (mem_goodPages nand hp).2.2
  have hle := Nat.le_of_dvd (by omega) hsub
  omega

/-! ## The loop over the pages -/

/-- Moving `n` pages, one for each address of the list: what the two loops do once the bad blocks are
left out. -/
def runPages {σ : Type} (move : σ → Nat → Nat → Int × σ) (writesize : Nat) :
    List Nat → Nat → Nat → σ → Int × σ
  | _, 0, _, s => (0, s)
  | [], _ + 1, _, s => (1, s)
  | p :: ps, n + 1, moved, s =>
      if (move s p moved).1 ≠ 0 then
        (1, (move s p moved).2)
      else
        runPages move writesize ps n (moved + writesize) (move s p moved).2

variable {nand}

/-- The loop of `writeenv` and `readenv` visits the good pages of the range in order, for every call
that moves a page. -/
theorem envLoop_eq {σ : Type} {cfg : EnvConfig} {isbad : σ → UInt64 → Int}
    {page : σ → UInt64 → UInt64 → Int × UInt64 × σ} {move : σ → Nat → Nat → Int × σ} {stop : UInt64}
    (hstop : cfg.envSize ≠ 0 → stop.toNat ≤ nand.size)
    (hbad : ∀ s (off : UInt64), off.toNat < nand.size → (isbad s off = 0 ↔ nand.Good off.toNat))
    (hpage : ∀ s (off moved : UInt64), off.toNat + nand.writesize ≤ nand.size →
      ∃ retlen, page s off moved =
          ((move s off.toNat moved.toNat).1, retlen, (move s off.toNat moved.toNat).2) ∧
        ((move s off.toNat moved.toNat).1 = 0 → retlen.toNat = nand.writesize))
    (fuel : Nat) :
    ∀ (s : σ) (off moved : UInt64) (n : Nat), stop.toNat - off.toNat < fuel → nand.AtPage off.toNat →
      moved.toNat + n * nand.writesize = cfg.envSize.toNat →
      envLoop cfg nand.mtd isbad page stop fuel s off moved =
        some (runPages move nand.writesize (goodPages nand off.toNat stop.toNat) n moved.toNat s) := by
  have hdev := nand.size_lt
  have hpos := nand.writesize_pos
  induction fuel with
  | zero =>
      intro s off moved n hfuel
      omega
  | succ fuel ih =>
      intro s off moved n hfuel hat hsize
      have hsmall := cfg.envSize.toNat_lt
      cases n with
      | zero =>
          -- all of the image is moved
          have hdone : moved = cfg.envSize := UInt64.toNat_inj.1 (by omega)
          simp [envLoop, runPages, hdone]
      | succ n =>
          have hmore : n * nand.writesize + nand.writesize = (n + 1) * nand.writesize := by ring
          have hstop := hstop (by
            intro h0
            rw [h0, UInt64.toNat_zero] at hsize
            omega)
          have hlt : moved < cfg.envSize := UInt64.lt_iff_toNat_lt.2 (by omega)
          have hne : moved ≠ cfg.envSize := by
            intro h
            rw [h] at hsize
            omega
          by_cases hend : off < stop
          · have hend' := UInt64.lt_iff_toNat_lt.1 hend
            simp only [envLoop, if_pos (And.intro hlt hend)]
            by_cases hgood : nand.Good off.toNat
            · -- a page is moved
              have hfit := nand.page_le hat.1 (by omega)
              rcases hpage s off moved hfit with ⟨retlen, hrun, hretlen⟩
              rw [if_neg (not_not.2 ((hbad s off (by omega)).2 hgood)), hrun,
                goodPages_good nand hat.1 hgood hend']
              by_cases hret : (move s off.toNat moved.toNat).1 = 0
              · have hlen := hretlen hret
                have hoff : (off + retlen).toNat = off.toNat + nand.writesize := by
                  rw [UInt64.toNat_add, hlen]
                  exact Nat.mod_eq_of_lt (by omega)
                have hmoved : (moved + retlen).toNat = moved.toNat + nand.writesize := by
                  rw [UInt64.toNat_add, hlen]
                  exact Nat.mod_eq_of_lt (by omega)
                have hrest := ih (move s off.toNat moved.toNat).2 (off + retlen) (moved + retlen) n
                  (by omega) (by rw [hoff]; exact nand.atPage_next hat hgood) (by omega)
                rw [hoff, hmoved] at hrest
                simp [runPages, hret, hrest]
              · simp [runPages, hret]
            · -- the block is passed over, possibly beyond the end of the range
              have hblock : nand.erasesize ∣ off.toNat := hat.2.resolve_right hgood
              have hfit := nand.block_le hblock (by omega)
              have hoff := nand.toNat_add_erasesize hfit
              have hnext : nand.erasesize ∣ off.toNat + nand.erasesize :=
                Dvd.dvd.add hblock (dvd_refl _)
              have hwide := nand.erasesize_pos
              have hrest := ih s (off + nand.mtd.erasesize.toUInt64) moved (n + 1) (by omega)
                (by rw [hoff]; exact nand.atPage_of_block hnext) hsize
              rw [hoff] at hrest
              rw [if_pos (fun h => hgood ((hbad s off (by omega)).1 h)), hrest,
                goodPages_bad nand hblock hgood]
          · have hnone := goodPages_of_le nand (UInt64.le_iff_toNat_le.1 (UInt64.not_lt.1 hend))
            simp [envLoop, runPages, hend, hne, hnone]

end Walk

/-! ## Behind a block -/

section Blocks

variable (nand : Nand)

/-- The last byte of the range lies in the last of its `n` blocks. -/
theorem last_block {addr len block n : Nat} (haddr : addr = block * nand.erasesize) (hpos : 0 < len)
    (hle : len ≤ n * nand.erasesize) (hlt : n * nand.erasesize < len + nand.erasesize) :
    (addr + len - 1) / nand.erasesize + 1 = block + n := by
  have hn : n ≠ 0 := by
    rintro rfl
    omega
  rcases Nat.exists_eq_succ_of_ne_zero hn with ⟨k, rfl⟩
  have hmul : (k + 1) * nand.erasesize = k * nand.erasesize + nand.erasesize := by ring
  have hin : addr + len - 1 = nand.erasesize * (block + k) + (len - 1 - k * nand.erasesize) := by
    rw [haddr, Nat.mul_add, Nat.mul_comm nand.erasesize block, Nat.mul_comm nand.erasesize k]
    simp only [Nat.succ_eq_add_one] at *
    omega
  rw [hin, Nat.mul_add_div nand.erasesize_pos,
    Nat.div_eq_of_lt (by simp only [Nat.succ_eq_add_one] at *; omega)]
  omega

/-- The address and the rest behind the block `block + j` that has failed: the rest is what is left of
the range, or it has wrapped, where the range ends inside that block. -/
theorem behind_failed {addr len : UInt64} {block j : Nat} (haddr : addr.toNat = block * nand.erasesize)
    (hj : j * nand.erasesize < len.toNat) (hrange : addr.toNat + len.toNat ≤ nand.size) :
    let failAddr := UInt64.ofNat ((block + j) * nand.erasesize)
    let addr' := failAddr + nand.mtd.erasesize.toUInt64
    let len' := len - (failAddr - addr) - nand.mtd.erasesize.toUInt64
    addr'.toNat = (block + j + 1) * nand.erasesize ∧
      (failAddr - addr).toNat = j * nand.erasesize ∧
      ((j + 1) * nand.erasesize ≤ len.toNat → len'.toNat + (j + 1) * nand.erasesize = len.toNat) ∧
      (len.toNat < (j + 1) * nand.erasesize → len' ≠ 0 ∧ nand.size < addr'.toNat + len'.toNat) := by
  intro failAddr addr' len'
  have hpos := nand.erasesize_pos
  have hdev := nand.size_lt
  have hwide := nand.erasesize_lt
  have hblock : (block + j) * nand.erasesize = addr.toNat + j * nand.erasesize := by
    rw [haddr, Nat.add_mul]
  have hmul : (block + j + 1) * nand.erasesize =
      addr.toNat + j * nand.erasesize + nand.erasesize := by
    rw [Nat.add_mul, hblock, Nat.one_mul]
  have hmul' : (j + 1) * nand.erasesize = j * nand.erasesize + nand.erasesize := by
    rw [Nat.add_mul, Nat.one_mul]
  have hfail : failAddr.toNat = addr.toNat + j * nand.erasesize := by
    rw [UInt64.toNat_ofNat', hblock]
    exact Nat.mod_eq_of_lt (by omega)
  have hnext : addr'.toNat = (block + j + 1) * nand.erasesize := by
    rw [UInt64.toNat_add, hfail, nand.toNat_erasesize, hmul]
    exact Nat.mod_eq_of_lt (by omega)
  have hskip : (failAddr - addr).toNat = j * nand.erasesize := by
    rw [UInt64.toNat_sub_of_le, hfail, Nat.add_sub_cancel_left]
    rw [UInt64.le_iff_toNat_le, hfail]
    omega
  have hrest : (len - (failAddr - addr)).toNat = len.toNat - j * nand.erasesize := by
    rw [UInt64.toNat_sub_of_le, hskip]
    rw [UInt64.le_iff_toNat_le, hskip]
    omega
  refine ⟨hnext, hskip, ?_, ?_⟩
  · intro hwhole
    rw [UInt64.toNat_sub_of_le, hrest, nand.toNat_erasesize]
    · omega
    · rw [UInt64.le_iff_toNat_le, hrest, nand.toNat_erasesize]
      omega
  · intro hpart
    have hlen' : len'.toNat = 2 ^ 64 - nand.erasesize + (len.toNat - j * nand.erasesize) := by
      rw [UInt64.toNat_sub, hrest, nand.toNat_erasesize]
      exact Nat.mod_eq_of_lt (by omega)
    refine ⟨?_, by omega⟩
    intro h0
    rw [h0, UInt64.toNat_zero] at hlen'
    omega

end Blocks

namespace EnvChip

variable (chip : EnvChip)

/-! ## The erase pass -/

/-- The device after the erase of the `n` blocks from `block` on. -/
def erasedBlocks (m : ByteMem) (block n : Nat) : ByteMem := fun a =>
  if block ≤ a / chip.nand.erasesize ∧ a / chip.nand.erasesize < block + n ∧
      chip.eraseAns (a / chip.nand.erasesize) = 0 then
    0xff
  else
    m a

@[simp] theorem erasedBlocks_zero (m : ByteMem) (block : Nat) : chip.erasedBlocks m block 0 = m := by
  funext a
  have hno : ¬ (block ≤ a / chip.nand.erasesize ∧ a / chip.nand.erasesize < block + 0 ∧
      chip.eraseAns (a / chip.nand.erasesize) = 0) := by omega
  rw [erasedBlocks, if_neg hno]

theorem erasedBlocks_add (m : ByteMem) (block k n : Nat) :
    chip.erasedBlocks (chip.erasedBlocks m block k) (block + k) n =
      chip.erasedBlocks m block (k + n) := by
  funext a
  simp only [erasedBlocks]
  -- a block of the joint range is one of the first `k` or one of the other `n`
  by_cases hans : chip.eraseAns (a / chip.nand.erasesize) = 0
  · simp only [hans, and_true]
    split_ifs <;> first | rfl | omega
  · simp [hans]

/-- One block. -/
theorem erasedBlocks_one (m : ByteMem) (block : Nat) :
    chip.erasedBlocks m block 1 =
      if chip.eraseAns block = 0 then
        m.fill (block * chip.nand.erasesize) chip.nand.erasesize 0xff
      else
        m := by
  have hpos := chip.nand.erasesize_pos
  funext a
  have hin : (block ≤ a / chip.nand.erasesize ∧ a / chip.nand.erasesize < block + 1) ↔
      (block * chip.nand.erasesize ≤ a ∧
        a < block * chip.nand.erasesize + chip.nand.erasesize) := by
    rw [Nat.le_div_iff_mul_le hpos, Nat.div_lt_iff_lt_mul hpos, Nat.add_mul, Nat.one_mul]
  by_cases hblock : block ≤ a / chip.nand.erasesize ∧ a / chip.nand.erasesize < block + 1
  · have heq : a / chip.nand.erasesize = block := by omega
    by_cases hans : chip.eraseAns block = 0
    · simp [erasedBlocks, ByteMem.fill, heq, hans, hin.1 hblock]
    · simp [erasedBlocks, heq, hans]
  · have hno : ¬ (block ≤ a / chip.nand.erasesize ∧ a / chip.nand.erasesize < block + 1 ∧
        chip.eraseAns (a / chip.nand.erasesize) = 0) := fun h => hblock ⟨h.1, h.2.1⟩
    by_cases hans : chip.eraseAns block = 0
    · simp only [erasedBlocks, if_neg hno, if_pos hans, ByteMem.fill, if_neg (mt hin.2 hblock)]
    · simp only [erasedBlocks, if_neg hno, if_neg hans]

/-- `nanddev_mtd_erase` erases all its blocks, or all in front of the one that `fail_addr` names. -/
theorem eraseBlocks_cases (count : Nat) :
    ∀ (m : ByteMem) (block : Nat),
      chip.eraseBlocks count m block =
          (0, mtdFailAddrUnknown, chip.erasedBlocks m block count) ∨
        ∃ j < count, chip.eraseAns (block + j) ≠ 0 ∧
          chip.eraseBlocks count m block =
            (chip.eraseAns (block + j), UInt64.ofNat ((block + j) * chip.nand.erasesize),
              chip.erasedBlocks m block (j + 1)) := by
  induction count with
  | zero =>
      intro m block
      left
      simp [eraseBlocks]
  | succ count ih =>
      intro m block
      have hone := chip.erasedBlocks_one m block
      by_cases hans : chip.eraseAns block = 0
      · -- the block is erased, and the others follow
        rw [if_pos hans] at hone
        have hrest := ih (chip.erasedBlocks m block 1) (block + 1)
        have hrun : chip.eraseBlocks (count + 1) m block =
            chip.eraseBlocks count (chip.erasedBlocks m block 1) (block + 1) := by
          rw [hone]
          simp [eraseBlocks, hans]
        rw [hrun]
        rcases hrest with hall | ⟨j, hj, hfail, hstop⟩
        · left
          rw [hall, chip.erasedBlocks_add, Nat.add_comm 1 count]
        · right
          refine ⟨j + 1, by omega, ?_, ?_⟩
          · rwa [show block + (j + 1) = block + 1 + j by omega]
          · rw [hstop, chip.erasedBlocks_add, show block + (j + 1) = block + 1 + j by omega,
              Nat.add_comm 1 (j + 1)]
      · right
        rw [if_neg hans] at hone
        refine ⟨0, by omega, hans, ?_⟩
        rw [Nat.add_zero, Nat.zero_add, hone]
        simp [eraseBlocks, hans]

/-- A request that reaches the chip starts and ends inside the device. -/
theorem erase_eq (m : ByteMem) {addr len : UInt64} {block n : Nat}
    (haddr : addr.toNat = block * chip.nand.erasesize) (hne : len ≠ 0)
    (hle : len.toNat ≤ n * chip.nand.erasesize)
    (hlt : n * chip.nand.erasesize < len.toNat + chip.nand.erasesize)
    (hrange : addr.toNat + len.toNat ≤ chip.nand.size) :
    chip.ops.erase m addr len = chip.eraseBlocks n m block := by
  have hin : ¬ (addr.toNat > chip.nand.size ∨ len.toNat > chip.nand.size - addr.toNat) := by omega
  have hfirst : addr.toNat / chip.nand.erasesize = block := by
    rw [haddr, Nat.mul_div_cancel _ chip.nand.erasesize_pos]
  have hlast := last_block chip.nand haddr (toNat_pos_of_ne_zero hne) hle hlt
  simp only [ops, if_neg hin, if_neg hne, hlast, hfirst, Nat.add_sub_cancel_left]

theorem erase_out_of_range (m : ByteMem) {addr len : UInt64}
    (h : chip.nand.size < addr.toNat + len.toNat) :
    chip.ops.erase m addr len = (-einval, mtdFailAddrUnknown, m) := by
  have hout : addr.toNat > chip.nand.size ∨ len.toNat > chip.nand.size - addr.toNat := by omega
  simp only [ops, if_pos hout]

/-- The erase loop ends without an error only when it has tried every block of the range once. -/
theorem eraseEnvLoop_done (fuel : Nat) :
    ∀ (m : ByteMem) (addr len : UInt64) (ret : Int) (block n : Nat) (ret' : Int) (m' : ByteMem),
      addr.toNat = block * chip.nand.erasesize → len.toNat ≤ n * chip.nand.erasesize →
      n * chip.nand.erasesize < len.toNat + chip.nand.erasesize →
      eraseEnvLoop chip.ops chip.nand.mtd fuel m addr len ret = some (ret', m') →
      ret' = 0 ∨ ret' = -eio →
      m' = chip.erasedBlocks m block n ∧ (len ≠ 0 → addr.toNat + len.toNat ≤ chip.nand.size) := by
  induction fuel with
  | zero =>
      intro m addr len ret block n ret' m' _ _ _ h
      cases h
  | succ fuel ih =>
      intro m addr len ret block n ret' m' haddr hle hlt h hret
      simp only [eraseEnvLoop] at h
      by_cases hzero : len = 0
      · rw [if_pos hzero] at h
        cases h
        have hn : n = 0 := by
          have hsmall : n * chip.nand.erasesize < 1 * chip.nand.erasesize := by
            simpa [hzero] using hlt
          have := Nat.lt_of_mul_lt_mul_right hsmall
          omega
        exact ⟨by simp [hn], fun hne => absurd hzero hne⟩
      · rw [if_neg hzero] at h
        by_cases hrange : addr.toNat + len.toNat ≤ chip.nand.size
        · refine ⟨?_, fun _ => hrange⟩
          rw [chip.erase_eq m haddr hzero hle hlt hrange] at h
          rcases chip.eraseBlocks_cases n m block with hall | ⟨j, hj, hans, hstop⟩
          · rw [hall] at h
            simp only [eio, ne_eq] at h
            cases h
            rfl
          · rw [hstop] at h
            dsimp only at h
            by_cases heio : chip.eraseAns (block + j) = -eio
            · rw [if_neg (not_not.2 heio)] at h
              -- the walk goes on behind the block that failed
              rcases Nat.exists_eq_add_of_lt hj with ⟨k, hk⟩
              have hsplit : n * chip.nand.erasesize =
                  (j + 1) * chip.nand.erasesize + k * chip.nand.erasesize := by
                rw [hk]
                ring
              have hmul : (j + 1) * chip.nand.erasesize =
                  j * chip.nand.erasesize + chip.nand.erasesize := by ring
              rcases behind_failed chip.nand haddr (j := j) (by omega) hrange with
                ⟨haddr', _, hwhole, hpart⟩
              by_cases hfit : (j + 1) * chip.nand.erasesize ≤ len.toNat
              · have hlen' := hwhole hfit
                have hnext := ih _ _ _ _ (block + j + 1) k ret' m' haddr' (by omega) (by omega) h hret
                rw [hnext.1, Nat.add_assoc block j 1, chip.erasedBlocks_add, hk]
                congr 1
                omega
              · -- a wrapped length is refused
                exfalso
                rcases hpart (not_le.1 hfit) with ⟨hnz, hwrap⟩
                cases fuel with
                | zero => cases h
                | succ fuel =>
                    simp only [eraseEnvLoop, if_neg hnz, chip.erase_out_of_range _ hwrap] at h
                    cases h
                    simp [eio, einval] at hret
            · rw [if_pos heio] at h
              cases h
              rcases hret with hret | hret
              · exact absurd hret hans
              · exact absurd hret heio
        · -- the request is refused
          exfalso
          rw [chip.erase_out_of_range m (by omega)] at h
          cases h
          simp [eio, einval] at hret

/-! ## The write pass -/

variable (image : ByteMem)

/-- One page of `writeenv`. -/
def writePage (m : ByteMem) (p saved : Nat) : Int × ByteMem :=
  if chip.writeAns p ≠ 0 ∧ mtdPageIsEmpty (image.read saved chip.nand.writesize) = false then
    (chip.writeAns p, m)
  else
    (0, Nand.program m p (image.read saved chip.nand.writesize))

theorem program_apply {m : ByteMem} {p : Nat} {data : List UInt8} {j : Nat} (h : j < data.length) :
    Nand.program m p data (p + j) = m (p + j) &&& data[j] := by
  simp [Nand.program, h]

theorem program_frame {m : ByteMem} {p : Nat} {data : List UInt8} {a : Nat}
    (h : a < p ∨ p + data.length ≤ a) : Nand.program m p data a = m a := by
  by_cases hle : p ≤ a
  · have hidx : data.length ≤ a - p := by omega
    simp [Nand.program, hle, List.getElem?_eq_none hidx, Nand.and_ff]
  · simp [Nand.program, hle]

/-- Programming `0xff` changes nothing. -/
theorem program_empty {m : ByteMem} {p : Nat} {data : List UInt8} (h : mtdPageIsEmpty data = true) :
    Nand.program m p data = m := by
  funext a
  by_cases hin : p ≤ a ∧ a < p + data.length
  · rcases Nat.exists_eq_add_of_le hin.1 with ⟨j, rfl⟩
    have hj : j < data.length := by omega
    have hff := beq_iff_eq.1 (List.all_eq_true.1 h _ (List.getElem_mem hj))
    rw [program_apply hj, hff, Nand.and_ff]
  · exact program_frame (by omega)

theorem specialWriteOob_eq (m : ByteMem) (off saved : UInt64)
    (hfit : off.toNat + chip.nand.writesize ≤ chip.nand.size) :
    ∃ retlen, mtdSpecialWriteOob chip.ops chip.nand.mtd m off
        (image.read saved.toNat chip.nand.mtd.writesize.toNat) false =
          ((chip.writePage image m off.toNat saved.toNat).1, retlen,
            (chip.writePage image m off.toNat saved.toNat).2) ∧
      ((chip.writePage image m off.toNat saved.toNat).1 = 0 →
        retlen.toNat = chip.nand.writesize) := by
  have hdev := chip.nand.size_lt
  have hin : ¬ (off.toNat ≥ 2 ^ 63 ∨ off.toNat + chip.nand.writesize > chip.nand.size) := by omega
  have hws : chip.nand.mtd.writesize.toNat = chip.nand.writesize := by
    rw [← UInt32.toNat_toUInt64, chip.nand.toNat_writesize]
  rw [hws]
  cases hempty : mtdPageIsEmpty (image.read saved.toNat chip.nand.writesize) with
  | true =>
      refine ⟨chip.nand.mtd.writesize.toUInt64, ?_, fun _ => chip.nand.toNat_writesize⟩
      have hskip : mtdOobWriteIsEmpty (image.read saved.toNat chip.nand.writesize) [] = true := by
        simpa [mtdOobWriteIsEmpty, mtdPageIsEmpty] using hempty
      simp [mtdSpecialWriteOob, writePage, hskip, hempty, program_empty hempty]
  | false =>
      have hnot : mtdOobWriteIsEmpty (image.read saved.toNat chip.nand.writesize) [] = false := by
        simpa [mtdOobWriteIsEmpty, mtdPageIsEmpty] using hempty
      have hwrite : chip.ops.writeOob m off (image.read saved.toNat chip.nand.writesize) =
          if chip.writeAns off.toNat ≠ 0 then
            (chip.writeAns off.toNat, 0, m)
          else
            (0, UInt64.ofNat chip.nand.writesize,
              Nand.program m off.toNat (image.read saved.toNat chip.nand.writesize)) := by
        simp only [ops, ByteMem.length_read, if_neg hin]
      by_cases hans : chip.writeAns off.toNat = 0
      · refine ⟨UInt64.ofNat chip.nand.writesize, ?_, ?_⟩
        · simp [mtdSpecialWriteOob, writePage, hnot, hempty, hans, hwrite]
        · intro _
          rw [UInt64.toNat_ofNat']
          exact Nat.mod_eq_of_lt (by omega)
      · refine ⟨0, ?_, ?_⟩
        · simp [mtdSpecialWriteOob, writePage, hnot, hempty, hans, hwrite]
        · simp [writePage, hans, hempty]

/-- Where the write pass has gone through, each page holds what was left of it after the erase pass,
less the bits that the image has cleared. -/
theorem writePages_done (ps : List Nat) :
    ∀ (n saved : Nat) (m m' : ByteMem), ps.Pairwise (fun p q => p + chip.nand.writesize ≤ q) →
      runPages (chip.writePage image) chip.nand.writesize ps n saved m = (0, m') →
      n ≤ ps.length ∧
        (∀ i p, i < n → ps[i]? = some p → ∀ j < chip.nand.writesize,
          m' (p + j) = m (p + j) &&& image (saved + i * chip.nand.writesize + j)) ∧
        ∀ a, (∀ p ∈ ps, a < p ∨ p + chip.nand.writesize ≤ a) → m' a = m a := by
  induction ps with
  | nil =>
      intro n saved m m' _ h
      cases n with
      | zero =>
          cases h
          exact ⟨le_refl _, fun i p hi => absurd hi (Nat.not_lt_zero i), fun _ _ => rfl⟩
      | succ n => simp [runPages] at h
  | cons p ps ih =>
      intro n saved m m' hpairs h
      cases n with
      | zero =>
          cases h
          exact ⟨Nat.zero_le _, fun i p hi => absurd hi (Nat.not_lt_zero i), fun _ _ => rfl⟩
      | succ n =>
          rcases List.pairwise_cons.1 hpairs with ⟨hfirst, hrest⟩
          by_cases hret : (chip.writePage image m p saved).1 = 0
          · have hpage : (chip.writePage image m p saved).2 =
                Nand.program m p (image.read saved chip.nand.writesize) := by
              unfold writePage at hret ⊢
              split
              · rename_i hfail
                rw [if_pos hfail] at hret
                exact absurd hret hfail.1
              · rfl
            rw [runPages, if_neg (not_not.2 hret), hpage] at h
            rcases ih n _ _ m' hrest h with ⟨hlen, hpages, hframe⟩
            have houter : ∀ a, a < p ∨ p + chip.nand.writesize ≤ a →
                Nand.program m p (image.read saved chip.nand.writesize) a = m a := by
              intro a ha
              exact program_frame (by rwa [ByteMem.length_read])
            refine ⟨by simpa using hlen, ?_, ?_⟩
            · intro i q hi hq j hj
              cases i with
              | zero =>
                  -- no later page touches the first one
                  have hqp : p = q := by simpa using hq
                  subst hqp
                  have hkeep := hframe (p + j) (fun q hq => Or.inl (by have := hfirst q hq; omega))
                  rw [hkeep, program_apply (by simpa using hj)]
                  simp
              | succ i =>
                  have hq' : ps[i]? = some q := by simpa using hq
                  have hmem := hfirst q (List.mem_of_getElem? hq')
                  rw [hpages i q (by omega) hq' j hj, houter (q + j) (Or.inr (by omega))]
                  congr 2
                  ring
            · intro a ha
              rw [hframe a (fun q hq => ha q (List.mem_cons_of_mem p hq))]
              exact houter a (ha p List.mem_cons_self)
          · rw [runPages, if_pos hret] at h
            cases h

/-! ## The read pass -/

/-- One page of `readenv`. -/
def readPage (m buf : ByteMem) (p loaded : Nat) : Int × ByteMem :=
  (if chip.flipped p = true then -euclean else 0, buf.write loaded (m.read p chip.nand.writesize))

theorem readOob_eq (m buf : ByteMem) (off loaded : UInt64)
    (hfit : off.toNat + chip.nand.writesize ≤ chip.nand.size) :
    ∃ retlen,
      ((chip.ops.readOob m off chip.nand.mtd.writesize.toUInt64).1,
        (chip.ops.readOob m off chip.nand.mtd.writesize.toUInt64).2.1,
        buf.write loaded.toNat (chip.ops.readOob m off chip.nand.mtd.writesize.toUInt64).2.2) =
          ((chip.readPage m buf off.toNat loaded.toNat).1, retlen,
            (chip.readPage m buf off.toNat loaded.toNat).2) ∧
      ((chip.readPage m buf off.toNat loaded.toNat).1 = 0 → retlen.toNat = chip.nand.writesize) := by
  have hdev := chip.nand.size_lt
  have hin : ¬ (off.toNat ≥ 2 ^ 63 ∨ off.toNat + chip.nand.writesize > chip.nand.size) := by omega
  refine ⟨chip.nand.mtd.writesize.toUInt64, ?_, fun _ => chip.nand.toNat_writesize⟩
  simp only [ops, chip.nand.toNat_writesize, if_neg hin, readPage]

/-- The read pass goes through when no page of it has flips, and then the buffer holds the pages. -/
theorem readPages_done (m : ByteMem) (ps : List Nat) :
    ∀ (n loaded : Nat) (buf : ByteMem), n ≤ ps.length →
      (∀ i p, i < n → ps[i]? = some p → chip.flipped p = false) →
      ∃ buf', runPages (chip.readPage m) chip.nand.writesize ps n loaded buf = (0, buf') ∧
        (∀ a < loaded, buf' a = buf a) ∧
        ∀ i p, i < n → ps[i]? = some p → ∀ j < chip.nand.writesize,
          buf' (loaded + i * chip.nand.writesize + j) = m (p + j) := by
  induction ps with
  | nil =>
      intro n loaded buf hlen _
      have hn : n = 0 := by simpa using hlen
      subst hn
      exact ⟨buf, rfl, fun _ _ => rfl, fun i p hi => absurd hi (Nat.not_lt_zero i)⟩
  | cons p ps ih =>
      intro n loaded buf hlen hflips
      cases n with
      | zero => exact ⟨buf, rfl, fun _ _ => rfl, fun i p hi => absurd hi (Nat.not_lt_zero i)⟩
      | succ n =>
          have hclean : chip.flipped p = false := hflips 0 p (by omega) rfl
          rcases ih n (loaded + chip.nand.writesize)
            (buf.write loaded (m.read p chip.nand.writesize)) (by simpa using hlen)
            (fun i q hi hq => hflips (i + 1) q (by omega) (by simpa using hq)) with
            ⟨buf', hrun, hbefore, hpages⟩
          refine ⟨buf', ?_, ?_, ?_⟩
          · simpa [runPages, readPage, hclean] using hrun
          · intro a ha
            rw [hbefore a (by omega), ByteMem.write_of_lt _ _ ha]
          · intro i q hi hq j hj
            cases i with
            | zero =>
                have hqp : p = q := by simpa using hq
                subst hqp
                rw [Nat.zero_mul, Nat.add_zero, hbefore _ (by omega),
                  ByteMem.write_at _ _ (by simpa using hj)]
                simp
            | succ i =>
                have hstep := hpages i q (by omega) (by simpa using hq) j hj
                rw [← hstep]
                congr 1
                ring

/-- A page with flips ends the read pass. -/
theorem readPages_flipped (m : ByteMem) (ps : List Nat) :
    ∀ (n loaded : Nat) (buf buf' : ByteMem),
      runPages (chip.readPage m) chip.nand.writesize ps n loaded buf = (0, buf') →
      ∀ i p, i < n → ps[i]? = some p → chip.flipped p = false := by
  induction ps with
  | nil =>
      intro n loaded buf buf' _ i p _ hp
      simp at hp
  | cons p ps ih =>
      intro n loaded buf buf' h i q hi hq
      cases n with
      | zero => omega
      | succ n =>
          cases hflip : chip.flipped p with
          | true => simp [runPages, readPage, hflip, euclean] at h
          | false =>
              cases i with
              | zero =>
                  have hqp : p = q := by simpa using hq
                  rw [← hqp, hflip]
              | succ i =>
                  have hrest : runPages (chip.readPage m) chip.nand.writesize ps n
                      (loaded + chip.nand.writesize)
                      (buf.write loaded (m.read p chip.nand.writesize)) = (0, buf') := by
                    simpa [runPages, readPage, hflip] using h
                  exact ih n _ _ buf' hrest i q (by omega) (by simpa using hq)

/-! ## Saving and loading -/

section SaveLoad

variable {chip image} {cfg : EnvConfig} {m m' : ByteMem}

/-- The number of pages of an image. -/
def imagePages (chip : EnvChip) (cfg : EnvConfig) : Nat :=
  cfg.envSize.toNat / chip.nand.writesize

/-- The good pages of the range of the environment. -/
def envPages (chip : EnvChip) (cfg : EnvConfig) : List Nat :=
  goodPages chip.nand cfg.envOffset.toNat (cfg.envOffset + cfg.envRange).toNat

theorem lt_loopBound (x y : UInt64) : x.toNat - y.toNat < loopBound := by
  have hlt := x.toNat_lt
  simp only [loopBound]
  omega

theorem writeenv_eq (hsize : chip.nand.writesize ∣ cfg.envSize.toNat)
    (hoffset : chip.nand.erasesize ∣ cfg.envOffset.toNat)
    (hstop : cfg.envSize ≠ 0 → (cfg.envOffset + cfg.envRange).toNat ≤ chip.nand.size) (m : ByteMem) :
    writeenv cfg (some chip.nand.mtd) chip.ops m cfg.envOffset image =
      some (runPages (chip.writePage image) chip.nand.writesize (chip.envPages cfg)
        (chip.imagePages cfg) 0 m) := by
  refine envLoop_eq hstop (fun m off hoff => chip.nand.blockIsbad_eq_zero_iff m hoff)
    (fun m off saved hfit => chip.specialWriteOob_eq image m off saved hfit) loopBound m cfg.envOffset
    0 _ (lt_loopBound _ _) (chip.nand.atPage_of_block hoffset) ?_
  rw [UInt64.toNat_zero, Nat.zero_add]
  exact Nat.div_mul_cancel hsize

theorem readenv_eq (hsize : chip.nand.writesize ∣ cfg.envSize.toNat)
    (hoffset : chip.nand.erasesize ∣ cfg.envOffset.toNat)
    (hstop : cfg.envSize ≠ 0 → (cfg.envOffset + cfg.envRange).toNat ≤ chip.nand.size)
    (m buf : ByteMem) :
    readenv cfg (some chip.nand.mtd) chip.ops m cfg.envOffset buf =
      some (runPages (chip.readPage m) chip.nand.writesize (chip.envPages cfg)
        (chip.imagePages cfg) 0 buf) := by
  refine envLoop_eq hstop (fun _ off hoff => chip.nand.blockIsbad_eq_zero_iff m hoff)
    (fun buf off loaded hfit => chip.readOob_eq m buf off loaded hfit) loopBound buf cfg.envOffset
    0 _ (lt_loopBound _ _) (chip.nand.atPage_of_block hoffset) ?_
  rw [UInt64.toNat_zero, Nat.zero_add]
  exact Nat.div_mul_cancel hsize

/-- What a successful save has done before it writes. -/
theorem save_cases {exported : Int × ByteMem}
    (h : envSpinandSave cfg (some chip.nand.mtd) chip.ops m exported = some (0, m')) :
    chip.nand.erasesize ∣ cfg.envOffset.toNat ∧
      (cfg.envSize ≠ 0 → cfg.envOffset.toNat + cfg.envRange.toNat ≤ chip.nand.size) ∧
      writeenv cfg (some chip.nand.mtd) chip.ops
        (chip.erasedBlocks m (cfg.envOffset.toNat / chip.nand.erasesize)
          ((cfg.envRange.toNat + chip.nand.erasesize - 1) / chip.nand.erasesize))
        cfg.envOffset exported.2 = some (0, m') := by
  have hpos := chip.nand.erasesize_pos
  unfold envSpinandSave at h
  split at h
  · simp at h
  · rename_i hrange
    split at h
    · rename_i hexport
      simp only [Option.some.injEq, Prod.mk.injEq] at h
      exact absurd h.1 hexport
    · simp only [eraseAndWriteEnv] at h
      split at h
      · simp at h
      · rename_i haligned
        have hoffset : chip.nand.erasesize ∣ cfg.envOffset.toNat :=
          (chip.nand.isAlignedWithBlockSize_iff _).1 (Bool.not_eq_false _ ▸ haligned)
        split at h
        · cases h
        · rename_i ret me herase
          split at h
          · simp at h
          · rename_i hfatal
            have hret : ret = 0 ∨ ret = -eio := by
              by_cases h0 : ret = 0
              · exact Or.inl h0
              · exact Or.inr (not_not.1 fun h1 => hfatal ⟨h0, h1⟩)
            have hdiv := Nat.div_add_mod (cfg.envRange.toNat + chip.nand.erasesize - 1)
              chip.nand.erasesize
            have hmod := Nat.mod_lt (cfg.envRange.toNat + chip.nand.erasesize - 1) hpos
            rw [Nat.mul_comm] at hdiv
            rcases chip.eraseEnvLoop_done loopBound m cfg.envOffset cfg.envRange 0
              (cfg.envOffset.toNat / chip.nand.erasesize)
              ((cfg.envRange.toNat + chip.nand.erasesize - 1) / chip.nand.erasesize) ret me
              (Nat.div_mul_cancel hoffset).symm (by omega) (by omega) herase hret with ⟨hme, hin⟩
            refine ⟨hoffset, ?_, hme ▸ h⟩
            intro hne
            refine hin ?_
            rintro h0
            rw [h0] at hrange
            exact hrange (UInt64.pos_iff_ne_zero.2 hne)

/-- Each page of the image can be read back: it shows no bit flip, and its block was erased or held
no bit that the image had to set. -/
def ReadsBack (chip : EnvChip) (cfg : EnvConfig) (m image : ByteMem) : Prop :=
  ∀ i p, i < cfg.envSize.toNat / chip.nand.writesize →
    (goodPages chip.nand cfg.envOffset.toNat (cfg.envOffset.toNat + cfg.envRange.toNat))[i]? = some p →
    chip.flipped p = false ∧
      (chip.eraseAns (p / chip.nand.erasesize) = 0 ∨
        ∀ j < chip.nand.writesize,
          m (p + j) &&& image (i * chip.nand.writesize + j) = image (i * chip.nand.writesize + j))

theorem toNat_stop (hin : cfg.envOffset.toNat + cfg.envRange.toNat ≤ chip.nand.size) :
    (cfg.envOffset + cfg.envRange).toNat = cfg.envOffset.toNat + cfg.envRange.toNat := by
  have hdev := chip.nand.size_lt
  rw [UInt64.toNat_add]
  exact Nat.mod_eq_of_lt (by omega)

/-- What a successful save leaves in a page, and when it is the page of the image. -/
theorem stored_iff {exported : Int × ByteMem} (hsize : chip.nand.writesize ∣ cfg.envSize.toNat)
    (h : envSpinandSave cfg (some chip.nand.mtd) chip.ops m exported = some (0, m')) :
    chip.imagePages cfg ≤ (chip.envPages cfg).length ∧
      ∀ i p, i < chip.imagePages cfg → (chip.envPages cfg)[i]? = some p →
        ((∀ j < chip.nand.writesize, m' (p + j) = exported.2 (i * chip.nand.writesize + j)) ↔
          chip.eraseAns (p / chip.nand.erasesize) = 0 ∨ ∀ j < chip.nand.writesize,
            m (p + j) &&& exported.2 (i * chip.nand.writesize + j) =
              exported.2 (i * chip.nand.writesize + j)) := by
  have hpos := chip.nand.erasesize_pos
  rcases save_cases h with ⟨hoffset, hin, hwrite⟩
  rw [writeenv_eq hsize hoffset (fun hne => by rw [toNat_stop (hin hne)]; exact hin hne)] at hwrite
  rcases chip.writePages_done exported.2 _ _ _ _ m' (pairwise_goodPages chip.nand _ _)
    (Option.some.inj hwrite) with ⟨hlen, hpages, _⟩
  refine ⟨hlen, ?_⟩
  intro i p hi hp
  have hne : cfg.envSize ≠ 0 := by
    intro h0
    simp [imagePages, h0] at hi
  rcases mem_goodPages chip.nand (List.mem_of_getElem? hp) with ⟨hlo, hhi, hpage⟩
  rw [toNat_stop (hin hne)] at hhi
  -- the block of the page is one of the blocks of the erase pass
  have hblock : cfg.envOffset.toNat / chip.nand.erasesize ≤ p / chip.nand.erasesize ∧
      p / chip.nand.erasesize < cfg.envOffset.toNat / chip.nand.erasesize +
        (cfg.envRange.toNat + chip.nand.erasesize - 1) / chip.nand.erasesize := by
    refine ⟨Nat.div_le_div_right hlo, ?_⟩
    rcases hoffset with ⟨b, hb⟩
    rw [hb, Nat.mul_div_cancel_left _ hpos, Nat.div_lt_iff_lt_mul hpos, Nat.add_mul]
    have hdiv := Nat.div_add_mod (cfg.envRange.toNat + chip.nand.erasesize - 1) chip.nand.erasesize
    have hmod := Nat.mod_lt (cfg.envRange.toNat + chip.nand.erasesize - 1) hpos
    rw [Nat.mul_comm] at hdiv hb
    omega
  have hold : ∀ j < chip.nand.writesize,
      chip.erasedBlocks m (cfg.envOffset.toNat / chip.nand.erasesize)
        ((cfg.envRange.toNat + chip.nand.erasesize - 1) / chip.nand.erasesize) (p + j) =
          if chip.eraseAns (p / chip.nand.erasesize) = 0 then 0xff else m (p + j) := by
    intro j hj
    simp [erasedBlocks, chip.nand.page_block hpage hj, hblock]
  have hpage' := hpages i p hi hp
  simp only [Nat.zero_add] at hpage'
  by_cases hans : chip.eraseAns (p / chip.nand.erasesize) = 0
  · refine iff_of_true ?_ (Or.inl hans)
    intro j hj
    rw [hpage' j hj, hold j hj, if_pos hans, UInt8.and_comm, Nand.and_ff]
  · simp only [hans, false_or]
    refine forall₂_congr fun j hj => ?_
    rw [hpage' j hj, hold j hj, if_neg hans]

/-- Two buffers hold the same image when they agree page by page. -/
theorem read_eq_iff_pages (hsize : chip.nand.writesize ∣ cfg.envSize.toNat) (buf image : ByteMem) :
    buf.read 0 cfg.envSize.toNat = image.read 0 cfg.envSize.toNat ↔
      ∀ i < chip.imagePages cfg, ∀ j < chip.nand.writesize,
        buf (i * chip.nand.writesize + j) = image (i * chip.nand.writesize + j) := by
  have hpos := chip.nand.writesize_pos
  have hbytes : buf.read 0 cfg.envSize.toNat = image.read 0 cfg.envSize.toNat ↔
      ∀ k < cfg.envSize.toNat, buf k = image k := by
    have hiff : buf.read 0 (image.read 0 cfg.envSize.toNat).length = image.read 0 cfg.envSize.toNat ↔
        _ := ByteMem.read_eq_iff
    simpa using hiff
  rw [hbytes]
  constructor
  · intro h i hi j hj
    refine h _ ?_
    calc
      i * chip.nand.writesize + j < (i + 1) * chip.nand.writesize := by rw [Nat.add_mul]; omega
      _ ≤ chip.imagePages cfg * chip.nand.writesize := Nat.mul_le_mul_right _ hi
      _ = cfg.envSize.toNat := Nat.div_mul_cancel hsize
  · intro h k hk
    have hi : k / chip.nand.writesize < chip.imagePages cfg := Nat.div_lt_div_of_lt_of_dvd hsize hk
    have hat := h _ hi _ (Nat.mod_lt k hpos)
    rwa [Nat.div_add_mod'] at hat

/-- A saved environment is read back and imported exactly when each of its pages can be. -/
theorem saved_env_read_back_iff (chip : EnvChip) (cfg : EnvConfig)
    (hsize : chip.nand.writesize ∣ cfg.envSize.toNat) (exported : Int × ByteMem) (m m' buf : ByteMem)
    (hsave : envSpinandSave cfg (some chip.nand.mtd) chip.ops m exported = some (0, m')) :
    ((∃ buf', readenv cfg (some chip.nand.mtd) chip.ops m' cfg.envOffset buf = some (0, buf') ∧
          buf'.read 0 cfg.envSize.toNat = exported.2.read 0 cfg.envSize.toNat) ∧
        envSpinandLoad cfg (some chip.nand.mtd) chip.ops m' buf =
          some (.imported (exported.2.read 0 cfg.envSize.toNat))) ↔
      chip.ReadsBack cfg m exported.2 := by
  rcases save_cases hsave with ⟨hoffset, hin, _⟩
  rcases stored_iff hsize hsave with ⟨hlen, hstored⟩
  have hread := readenv_eq hsize hoffset (fun hne => by rw [toNat_stop (hin hne)]; exact hin hne) m'
    buf
  -- the pages of the condition are the pages of the loops
  have hpages : chip.imagePages cfg ≠ 0 → chip.envPages cfg =
      goodPages chip.nand cfg.envOffset.toNat (cfg.envOffset.toNat + cfg.envRange.toNat) := by
    intro hne
    have hne' : cfg.envSize ≠ 0 := fun h0 => hne (by simp [imagePages, h0])
    rw [envPages, toNat_stop (hin hne')]
  have hsome : ∀ i < chip.imagePages cfg, ∃ p, (chip.envPages cfg)[i]? = some p := fun i hi =>
    ⟨_, List.getElem?_eq_getElem (lt_of_lt_of_le hi hlen)⟩
  constructor
  · rintro ⟨⟨buf', hrun, himage⟩, _⟩
    rw [hread] at hrun
    intro i p hi hp
    rw [← hpages (Nat.ne_zero_of_lt hi)] at hp
    have hclean := chip.readPages_flipped m' _ _ _ _ _ (Option.some.inj hrun)
    refine ⟨hclean i p hi hp, (hstored i p hi hp).1 ?_⟩
    intro j hj
    -- the buffer holds the page, and the page of the image
    rcases chip.readPages_done m' _ _ 0 buf hlen hclean with ⟨buf₁, hrun₁, _, hpage⟩
    rw [hrun₁] at hrun
    cases hrun
    have hat := hpage i p hi hp j hj
    rw [Nat.zero_add] at hat
    rw [← hat]
    exact (read_eq_iff_pages hsize _ _).1 himage i hi j hj
  · intro h
    have hback : ∀ i p, i < chip.imagePages cfg → (chip.envPages cfg)[i]? = some p → _ :=
      fun i p hi hp => h i p hi (by rwa [← hpages (Nat.ne_zero_of_lt hi)])
    rcases chip.readPages_done m' _ _ 0 buf hlen (fun i p hi hp => (hback i p hi hp).1) with
      ⟨buf', hrun, _, hpage⟩
    rw [hrun] at hread
    have himage : buf'.read 0 cfg.envSize.toNat = exported.2.read 0 cfg.envSize.toNat := by
      refine (read_eq_iff_pages hsize _ _).2 ?_
      intro i hi j hj
      rcases hsome i hi with ⟨p, hp⟩
      have hat := hpage i p hi hp j hj
      rw [Nat.zero_add] at hat
      rw [hat]
      exact (hstored i p hi hp).2 (hback i p hi hp).2 j hj
    refine ⟨⟨buf', hread, himage⟩, ?_⟩
    simp [envSpinandLoad, hread, himage]

/-- Four blocks of two pages, of two bytes each. -/
def smallChip (bad : Nat → Bool) (eraseAns : Nat → Int) (flipped : Nat → Bool) : EnvChip where
  nand :=
    { size := 16
      erasesize := 4
      writesize := 2
      ntargets := 1
      bad := bad
      writesize_pos := by decide
      writesize_dvd := by decide
      erasesize_pos := by decide
      erasesize_lt := by decide
      erasesize_dvd := by decide
      size_lt := by decide }
  eraseAns := eraseAns
  writeAns := fun _ => 0
  flipped := flipped

/-- An environment of two pages in the first two blocks. -/
def smallConfig : EnvConfig where
  envOffset := 0
  envSize := 4
  envRange := 8

def smallImage : ByteMem := fun a => UInt8.ofNat (a + 1)

/-- Saving to a device of zeros and reading back: the two answers and what was read. -/
def saveAndRead (chip : EnvChip) : Option (Int × Int × List UInt8) :=
  (envSpinandSave smallConfig (some chip.nand.mtd) chip.ops (fun _ => 0) (0, smallImage)).bind
    fun saved =>
      (readenv smallConfig (some chip.nand.mtd) chip.ops saved.2 smallConfig.envOffset
        (fun _ => 0)).map fun loaded => (saved.1, loaded.1, loaded.2.read 0 4)

theorem exists_of_saveAndRead {chip : EnvChip} {r₁ r₂ : Int} {bs : List UInt8}
    (h : saveAndRead chip = some (r₁, r₂, bs)) :
    ∃ m' buf',
      envSpinandSave smallConfig (some chip.nand.mtd) chip.ops (fun _ => 0) (0, smallImage) =
        some (r₁, m') ∧
      readenv smallConfig (some chip.nand.mtd) chip.ops m' smallConfig.envOffset (fun _ => 0) =
        some (r₂, buf') ∧
      buf'.read 0 4 = bs := by
  rcases Option.bind_eq_some_iff.1 h with ⟨⟨r, m'⟩, hsave, hrest⟩
  rcases Option.map_eq_some_iff.1 hrest with ⟨⟨r', buf'⟩, hread, heq⟩
  cases heq
  exact ⟨m', buf', hsave, hread, rfl⟩

/-- A chip whose first block is bad. -/
def badBlockChip (flipped : Nat → Bool) : EnvChip :=
  smallChip (fun b => b == 0) (fun b => if b = 0 then -eio else 0) flipped

/-- The environment moves to the second block and is read back from there. -/
theorem saved_env_read_back_second_block :
    ∃ m', envSpinandSave smallConfig (some (badBlockChip fun _ => false).nand.mtd)
        (badBlockChip fun _ => false).ops (fun _ => 0) (0, smallImage) = some (0, m') ∧
      ∀ buf, envSpinandLoad smallConfig (some (badBlockChip fun _ => false).nand.mtd)
        (badBlockChip fun _ => false).ops m' buf = some (.imported [1, 2, 3, 4]) := by
  have hrun : saveAndRead (badBlockChip fun _ => false) = some (0, 0, [1, 2, 3, 4]) := by
    decide +kernel
  rcases exists_of_saveAndRead hrun with ⟨m', _, hsave, _⟩
  refine ⟨m', hsave, fun buf => ?_⟩
  have hback : (badBlockChip fun _ => false).ReadsBack smallConfig (fun _ => 0) smallImage := by
    intro i p _ hp
    have hpages : goodPages (badBlockChip fun _ => false).nand 0 8 = [4, 6] := by decide +kernel
    have hmem : p ∈ [4, 6] := by
      rw [← hpages]
      exact List.mem_of_getElem? hp
    have hsecond : p / 4 = 1 := by
      simp only [List.mem_cons, List.not_mem_nil, or_false] at hmem
      omega
    refine ⟨rfl, Or.inl ?_⟩
    show (if p / 4 = 0 then -eio else 0) = 0
    rw [hsecond]
    rfl
  exact ((saved_env_read_back_iff _ smallConfig (by decide) (0, smallImage) _ m' buf hsave).2
    hback).2

/-- Two ways to lose a saved environment: a corrected bit flip in one of its pages, and a block that
is not marked bad but cannot be erased. -/
theorem saved_env_not_read_back :
    (∃ m' buf', envSpinandSave smallConfig (some (badBlockChip (· == 6)).nand.mtd)
          (badBlockChip (· == 6)).ops (fun _ => 0) (0, smallImage) = some (0, m') ∧
        readenv smallConfig (some (badBlockChip (· == 6)).nand.mtd) (badBlockChip (· == 6)).ops m'
          smallConfig.envOffset (fun _ => 0) = some (1, buf')) ∧
      ∃ m' buf',
        envSpinandSave smallConfig
            (some (smallChip (fun _ => false) (fun b => if b = 0 then -eio else 0)
              fun _ => false).nand.mtd)
            (smallChip (fun _ => false) (fun b => if b = 0 then -eio else 0) fun _ => false).ops
            (fun _ => 0) (0, smallImage) = some (0, m') ∧
          readenv smallConfig
            (some (smallChip (fun _ => false) (fun b => if b = 0 then -eio else 0)
              fun _ => false).nand.mtd)
            (smallChip (fun _ => false) (fun b => if b = 0 then -eio else 0) fun _ => false).ops m'
            smallConfig.envOffset (fun _ => 0) = some (0, buf') ∧
          buf'.read 0 4 ≠ smallImage.read 0 4 := by
  constructor
  · have hrun : saveAndRead (badBlockChip (· == 6)) = some (0, 1, [1, 2, 3, 4]) := by
      decide +kernel
    rcases exists_of_saveAndRead hrun with ⟨m', buf', hsave, hread, _⟩
    exact ⟨m', buf', hsave, hread⟩
  · have hrun : saveAndRead (smallChip (fun _ => false) (fun b => if b = 0 then -eio else 0)
        fun _ => false) = some (0, 0, [0, 0, 0, 0]) := by
      decide +kernel
    rcases exists_of_saveAndRead hrun with ⟨m', buf', hsave, hread, hbytes⟩
    refine ⟨m', buf', hsave, hread, ?_⟩
    rw [hbytes]
    decide

end SaveLoad

end EnvChip

end Env
end CanmvK230
