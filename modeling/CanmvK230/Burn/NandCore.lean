import CanmvK230.Burn.MtdLog

/-!
# NandCore — bad blocks below the NAND back end (`drivers/mtd/nand/core.c`, `bbt.c`)

The NAND back end relies on the layer below to protect bad blocks: its erase loop passes over a block
when `mtd_erase` answers `-EIO`.  This file has that layer: the table of block states that
`nanddev_isbad` fills in on demand from the factory marks, `nanddev_erase`, and the calls of
`mtdcore.c` on top of them (`SpiNand.ops`), with the commands that reach the chip on record.

`nanddev_erase` does not refuse a bad block; it forgets that the block is bad and erases it, mark
included (`bad_block_erased`).  What remains true is about runs that never touch one:
`bad_marks_survive`.
-/

namespace CanmvK230
namespace Burn

open Lib

/-! ## The table of block states -/

/-- `enum nand_bbt_block_status`. -/
inductive BbtStatus
  | unknown
  | good
  | worn
  | reserved
  | factoryBad
  deriving DecidableEq, Repr

/-- A command that reached the chip: a block erase, or a program of the page at `off`. -/
inductive ChipEvent
  | erase (block : Nat)
  | program (off : Nat)
  deriving DecidableEq, Repr

/-- The state of a SPI-NAND device: the table in memory, the marks in the spare area of the blocks,
and the commands that have changed the chip, oldest first. -/
structure SpiNand where
  bbt : Nat → BbtStatus
  marker : Nat → Bool
  events : List ChipEvent

/-- How the chip answers the commands of one call: 0, `-EIO` for a failed status, or another error. -/
structure ChipAnswers where
  erase : Nat → Int
  write : Nat → Int

namespace SpiNand

variable (nand : Nand) (ans : ChipAnswers)

/-- The blocks of the device. -/
def nblocks : Nat := nand.size / nand.erasesize

/-- `nanddev_neraseblocks`: the blocks of one die, multiplied by the pages of a block where it means
the dies. -/
def neraseblocks : Nat := nblocks nand / nand.ntargets * (nand.erasesize / nand.writesize) % 2 ^ 32

/-- `nanddev_bbt_set_block_status`; `-ERANGE` is ignored by the callers. -/
def setBlockStatus (s : SpiNand) (entry : Nat) (status : BbtStatus) : SpiNand :=
  if neraseblocks nand ≤ entry then s else { s with bbt := Function.update s.bbt entry status }

/-- `spinand_isbad`: the mark on the chip.  A block behind the last die is not read; the `-EINVAL` of
`spinand_select_target` comes back as `true`. -/
def spinandIsbad (s : SpiNand) (entry : Nat) : Bool :=
  if nblocks nand ≤ entry then true else s.marker entry

/-- `nanddev_isbad`.  Behind the table `nanddev_bbt_get_block_status` answers `-ERANGE`, which is no
state that counts as bad. -/
def nanddevIsbad (s : SpiNand) (entry : Nat) : Bool × SpiNand :=
  if neraseblocks nand ≤ entry then
    (false, s)
  else
    match s.bbt entry with
    | .unknown =>
        -- the state is read from the chip once
        let bad := spinandIsbad nand s entry
        let status := if bad = true then BbtStatus.factoryBad else BbtStatus.good
        (bad, setBlockStatus nand s entry status)
    | .worn => (true, s)
    | .factoryBad => (true, s)
    | .good => (false, s)
    | .reserved => (false, s)

def nanddevIsreserved (s : SpiNand) (entry : Nat) : Bool :=
  if neraseblocks nand ≤ entry then false else s.bbt entry == .reserved

/-- `spinand_erase`: a block that was erased has lost its mark. -/
def spinandErase (s : SpiNand) (block : Nat) : Int × SpiNand :=
  (ans.erase block,
    { s with
      marker := if ans.erase block = 0 then Function.update s.marker block false else s.marker
      events := s.events ++ [.erase block] })

def nanddevErase (s : SpiNand) (block : Nat) : Int × SpiNand :=
  let isbad := nanddevIsbad nand s block
  if isbad.1 = true ∨ nanddevIsreserved nand isbad.2 block = true then
    if nanddevIsreserved nand isbad.2 block = true then
      (-eio, isbad.2)
    else
      -- "remove bad block from BBT", and go on
      spinandErase ans (setBlockStatus nand isbad.2 block .unknown) block
  else
    spinandErase ans isbad.2 block

/-- `nanddev_mtd_erase` over the `count` blocks from `block` on. -/
def nanddevMtdErase : Nat → SpiNand → Nat → Int × SpiNand
  | 0, s, _ => (0, s)
  | count + 1, s, block =>
      let erased := nanddevErase nand ans s block
      if erased.1 ≠ 0 then erased else nanddevMtdErase count erased.2 (block + 1)

/-- The MTD calls of a SPI-NAND device, with the range checks of `mtdcore.c`.  The device has neither
`_lock` nor `_unlock`; `mtd_block_isbad` also fills the table, which `nanddevIsbad_twice`
shows to be invisible. -/
def ops : MtdOps SpiNand where
  erase := fun s addr len =>
    if addr.toNat > nand.size ∨ len.toNat > nand.size - addr.toNat then
      (-einval, s)
    else
      let first := addr.toNat / nand.erasesize
      let last := (addr.toNat + len.toNat - 1) / nand.erasesize
      if len = 0 then (0, s) else nanddevMtdErase nand ans (last + 1 - first) s first
  blockIsbad := fun s ofs =>
    if ofs.toNat ≥ 2 ^ 63 ∨ ofs.toNat > nand.size then
      -einval
    else if (nanddevIsbad nand s (ofs.toNat / nand.erasesize)).1 = true then
      1
    else
      0
  writeOob := fun s off data =>
    if off.toNat ≥ 2 ^ 63 ∨ off.toNat + data.length > nand.size then
      (-einval, 0, s)
    else
      (ans.write off.toNat, UInt64.ofNat data.length,
        { s with events := s.events ++ [.program off.toNat] })
  unlock := fun s _ _ => (-eopnotsupp, s)
  lock := fun s _ _ => s

/-! ## Marks -/

/-- The block is marked bad: on the chip, or by its state in the table. -/
def Marked (s : SpiNand) (block : Nat) : Prop :=
  s.marker block = true ∨ s.bbt block = .worn ∨ s.bbt block = .factoryBad

/-- The table does not contradict the chip, as after `nanddev_bbt_init`, when it knows nothing. -/
def Settled (s : SpiNand) : Prop :=
  ∀ b, s.bbt b = .good ∨ s.bbt b = .reserved → s.marker b = false

/-- From `s` to `t` the commands `evs` reached the chip, no mark changed, and the table learned at
most what the marks say. -/
structure Touched (s : SpiNand) (evs : List ChipEvent) (t : SpiNand) : Prop where
  marker : t.marker = s.marker
  bbt : ∀ b, t.bbt b = s.bbt b ∨
    (s.bbt b = .unknown ∧ t.bbt b = if s.marker b = true then .factoryBad else .good)
  events : t.events = s.events ++ evs

variable {nand ans} {s t u : SpiNand} {evs evs' : List ChipEvent} {b : Nat}

theorem Touched.refl (s : SpiNand) : Touched s [] s :=
  ⟨rfl, fun _ => Or.inl rfl, by simp⟩

theorem Touched.trans (h : Touched s evs t) (h' : Touched t evs' u) : Touched s (evs ++ evs') u := by
  refine ⟨h'.marker.trans h.marker, ?_, ?_⟩
  · intro b
    rcases h'.bbt b with hu | ⟨ht, hu⟩
    · rw [hu]
      exact h.bbt b
    · -- what is unknown in `t` was unknown in `s`
      have hs : s.bbt b = .unknown := by
        rcases h.bbt b with hs | ⟨hs, _⟩
        · rw [← hs, ht]
        · exact hs
      right
      rw [hu, h.marker]
      exact ⟨hs, rfl⟩
  · rw [h'.events, h.events, List.append_assoc]

theorem Touched.marked_iff (h : Touched s evs t) (b : Nat) : Marked t b ↔ Marked s b := by
  unfold Marked
  rw [h.marker]
  rcases h.bbt b with hb | ⟨hs, ht⟩
  · rw [hb]
  · rw [hs, ht]
    by_cases hm : s.marker b = true
    · simp [hm]
    · simp [hm]

theorem Touched.reserved (h : Touched s evs t) (b : Nat) :
    nanddevIsreserved nand t b = nanddevIsreserved nand s b := by
  unfold nanddevIsreserved
  rcases h.bbt b with hb | ⟨hs, ht⟩
  · rw [hb]
  · rw [hs, ht]
    by_cases hm : s.marker b = true
    · rw [if_pos hm]
      rfl
    · rw [if_neg hm]
      rfl

theorem spinandIsbad_eq (hb : b < nblocks nand) : spinandIsbad nand s b = s.marker b :=
  if_neg (Nat.not_le.2 hb)

/-- Asking for the state of a block leaves the chip alone. -/
theorem touched_nanddevIsbad (s : SpiNand) (hb : b < nblocks nand) :
    Touched s [] (nanddevIsbad nand s b).2 := by
  unfold nanddevIsbad
  rw [spinandIsbad_eq hb]
  split
  · exact Touched.refl s
  · rename_i hb
    split
    · rename_i hunknown
      refine ⟨by simp [setBlockStatus, hb], ?_, by simp [setBlockStatus, hb]⟩
      intro b'
      by_cases hbb : b' = b
      · subst hbb
        exact Or.inr ⟨hunknown, by simp [setBlockStatus, hb]⟩
      · exact Or.inl (by simp [setBlockStatus, hb, Function.update_of_ne hbb])
    · exact Touched.refl s
    · exact Touched.refl s
    · exact Touched.refl s
    · exact Touched.refl s

/-- A block of the device that counts as bad is marked. -/
theorem marked_of_nanddevIsbad (hb : b < nblocks nand) (h : (nanddevIsbad nand s b).1 = true) :
    Marked s b := by
  unfold nanddevIsbad at h
  rw [spinandIsbad_eq hb] at h
  split at h
  · cases h
  · unfold Marked
    cases hbbt : s.bbt b with
    | unknown => exact Or.inl (by rwa [hbbt] at h)
    | worn => exact Or.inr (Or.inl rfl)
    | factoryBad => exact Or.inr (Or.inr rfl)
    | good =>
        rw [hbbt] at h
        cases h
    | reserved =>
        rw [hbbt] at h
        cases h

/-- A marked block counts as bad, where the table does not contradict the chip. -/
theorem nanddevIsbad_of_marked (hs : Settled s) (hb : b < nblocks nand)
    (hin : ¬ neraseblocks nand ≤ b) (h : Marked s b) : (nanddevIsbad nand s b).1 = true := by
  unfold Marked at h
  rw [nanddevIsbad, if_neg hin, spinandIsbad_eq hb]
  cases hbbt : s.bbt b with
  | unknown => simpa [hbbt] using h
  | worn => simp
  | factoryBad => simp
  | good => simp [hs b (Or.inl hbbt), hbbt] at h
  | reserved => simp [hs b (Or.inr hbbt), hbbt] at h

/-- The table filled by an answer gives the same answer again. -/
theorem nanddevIsbad_twice (nand : Nand) (s : SpiNand) (b b' : Nat) :
    (nanddevIsbad nand (nanddevIsbad nand s b').2 b).1 = (nanddevIsbad nand s b).1 := by
  by_cases hin : neraseblocks nand ≤ b'
  · have hsame : (nanddevIsbad nand s b').2 = s := by rw [nanddevIsbad, if_pos hin]
    rw [hsame]
  · cases hbbt : s.bbt b' with
    | unknown =>
        -- the entry that was filled holds what the chip has said
        have hfilled : (nanddevIsbad nand s b').2 = setBlockStatus nand s b'
            (if spinandIsbad nand s b' = true then BbtStatus.factoryBad else BbtStatus.good) := by
          simp only [nanddevIsbad, if_neg hin, hbbt]
        rw [hfilled, setBlockStatus, if_neg hin]
        by_cases hbb : b = b'
        · subst hbb
          cases hbad : spinandIsbad nand s b with
          | true => simp [nanddevIsbad, hin, hbbt, hbad]
          | false => simp [nanddevIsbad, hin, hbbt, hbad]
        · simp only [nanddevIsbad, Function.update_of_ne hbb, spinandIsbad]
          split
          · rfl
          · cases s.bbt b with
            | unknown => rfl
            | worn => rfl
            | factoryBad => rfl
            | good => rfl
            | reserved => rfl
    | worn => simp only [nanddevIsbad, if_neg hin, hbbt]
    | factoryBad => simp only [nanddevIsbad, if_neg hin, hbbt]
    | good => simp only [nanddevIsbad, if_neg hin, hbbt]
    | reserved => simp only [nanddevIsbad, if_neg hin, hbbt]

/-! ## One block -/

variable (ans) in
/-- A block that is not marked is erased, unless it is reserved. -/
theorem nanddevErase_unmarked (hb : b < nblocks nand) (hgood : ¬ Marked s b) :
    (nanddevIsreserved nand s b = true ∧ ∃ t, nanddevErase nand ans s b = (-eio, t) ∧
        Touched s [] t) ∨
      (nanddevIsreserved nand s b = false ∧ ∃ t, nanddevErase nand ans s b = (ans.erase b, t) ∧
        Touched s [.erase b] t) := by
  have hnot : ¬ (nanddevIsbad nand s b).1 = true := mt (marked_of_nanddevIsbad hb) hgood
  have htouched := touched_nanddevIsbad s hb
  have hmarker : s.marker b = false := by
    refine Bool.eq_false_iff.2 fun h => hgood (Or.inl h)
  simp only [nanddevErase, htouched.reserved, hnot]
  cases hres : nanddevIsreserved nand s b with
  | true =>
      left
      exact ⟨rfl, _, by simp, htouched⟩
  | false =>
      right
      refine ⟨rfl, _, by simp [spinandErase]; rfl, ?_⟩
      -- the mark that a successful erase would remove is not there
      refine ⟨?_, htouched.bbt, ?_⟩
      · dsimp only
        rw [htouched.marker]
        split
        · rw [← hmarker, Function.update_eq_self]
        · rfl
      · dsimp only
        rw [htouched.events, List.append_nil]

/-- The block of an aligned address. -/
theorem block_lt {a : Nat} (ha : nand.erasesize ∣ a) (hlt : a < nand.size) :
    a / nand.erasesize < nblocks nand := by
  rcases nand.erasesize_dvd with ⟨n, hn⟩
  rcases ha with ⟨i, rfl⟩
  have hi : i < n := by
    rw [hn] at hlt
    exact Nat.lt_of_mul_lt_mul_left hlt
  rw [nblocks, hn, Nat.mul_div_cancel_left _ nand.erasesize_pos,
    Nat.mul_div_cancel_left _ nand.erasesize_pos]
  exact hi

variable (ans s) in
/-- `mtd_erase` for one block of the device. -/
theorem erase_eq {addr : UInt64} (ha : nand.erasesize ∣ addr.toNat) (hlt : addr.toNat < nand.size) :
    (ops nand ans).erase s addr nand.mtd.erasesize.toUInt64 =
      nanddevErase nand ans s (addr.toNat / nand.erasesize) := by
  have hpos := nand.erasesize_pos
  have hfit := nand.block_le ha hlt
  have hin : ¬ (addr.toNat > nand.size ∨ nand.erasesize > nand.size - addr.toNat) := by omega
  have hne : nand.mtd.erasesize.toUInt64 ≠ 0 := by
    intro h0
    have hzero := congrArg UInt64.toNat h0
    rw [nand.toNat_erasesize] at hzero
    exact absurd hzero (by simpa using hpos.ne')
  -- the first and the last block of the request are the same
  have hlast : (addr.toNat + nand.erasesize - 1) / nand.erasesize = addr.toNat / nand.erasesize := by
    rcases ha with ⟨i, hi⟩
    rw [hi, Nat.mul_div_cancel_left _ hpos, Nat.add_sub_assoc hpos, Nat.mul_add_div hpos,
      Nat.div_eq_of_lt (by omega), Nat.add_zero]
  have honce : ∀ r : Int × SpiNand, (if r.1 ≠ 0 then r else (0, r.2)) = r := by
    intro r
    split
    · rfl
    · rename_i h
      exact Prod.ext (not_not.1 h).symm rfl
  simp only [ops, nand.toNat_erasesize, if_neg hin, if_neg hne, hlast, Nat.add_sub_cancel_left,
    nanddevMtdErase, honce]

variable (ans) in
/-- `mtd_erase` for one block that is not marked. -/
theorem erase_unmarked {addr : UInt64} (ha : nand.erasesize ∣ addr.toNat)
    (hlt : addr.toNat < nand.size) (hgood : ¬ Marked s (addr.toNat / nand.erasesize)) :
    ∃ ret evs t,
      (ops nand ans).erase s addr nand.mtd.erasesize.toUInt64 = (ret, t) ∧ Touched s evs t ∧
      ((ret = -eio ∧ nanddevIsreserved nand s (addr.toNat / nand.erasesize) = true ∧ evs = []) ∨
        (ret = ans.erase (addr.toNat / nand.erasesize) ∧
          evs = [.erase (addr.toNat / nand.erasesize)])) := by
  rw [erase_eq ans s ha hlt]
  rcases nanddevErase_unmarked ans (block_lt ha hlt) hgood with
    ⟨hres, t, hrun, ht⟩ | ⟨_, t, hrun, ht⟩
  · exact ⟨_, _, t, hrun, ht, Or.inl ⟨rfl, hres, rfl⟩⟩
  · exact ⟨_, _, t, hrun, ht, Or.inr ⟨rfl, rfl⟩⟩

/-! ## The erase pass -/

/-- The commands `evs` erase blocks from `lo` up to `hi` that are not marked in `s`. -/
def ErasesUnmarked (s : SpiNand) (lo hi : Nat) (evs : List ChipEvent) : Prop :=
  ∀ e ∈ evs, ∃ b, e = .erase b ∧ lo ≤ b ∧ b < hi ∧ ¬ Marked s b

/-- No mark stands in the blocks from `lo` up to `hi` that the device has. -/
def NoMark (nand : Nand) (s : SpiNand) (lo hi : Nat) : Prop :=
  ∀ b, lo ≤ b → b < hi → b < nblocks nand → ¬ Marked s b

/-- What the erase loop over the blocks from `lo` up to `hi` has done when it returns `ret`: it has
erased some of them and changed no mark; where it was not stopped, the blocks are all there and each
of them was erased, except reserved ones. -/
structure ErasePass (nand : Nand) (s : SpiNand) (lo hi : Nat) (ret : Int) (evs : List ChipEvent)
    (t : SpiNand) : Prop where
  touched : Touched s evs t
  unmarked : ErasesUnmarked s lo hi evs
  inside : ret = 0 ∨ ret = -eio → lo < hi → hi ≤ nblocks nand
  all : ret = 0 ∨ ret = -eio → ∀ b, lo ≤ b → b < hi → nanddevIsreserved nand s b = false →
    .erase b ∈ evs

/-- One block in front of the others. -/
theorem ErasePass.cons {lo hi : Nat} {ret : Int} {evs evs' : List ChipEvent}
    (h : ErasePass nand t (lo + 1) hi ret evs' u) (htouched : Touched s evs t)
    (hend : lo < nblocks nand) (hhi : lo < hi) (hgood : ¬ Marked s lo)
    (hevs : (nanddevIsreserved nand s lo = true ∧ evs = []) ∨ evs = [.erase lo]) :
    ErasePass nand s lo hi ret (evs ++ evs') u where
  touched := htouched.trans h.touched
  unmarked := by
    intro e he
    rcases List.mem_append.1 he with he | he
    · rcases hevs with ⟨_, rfl⟩ | rfl
      · cases he
      · exact ⟨lo, List.mem_singleton.1 he, le_rfl, hhi, hgood⟩
    · rcases h.unmarked e he with ⟨b, hb, hlo, hbhi, hm⟩
      exact ⟨b, hb, by omega, hbhi, fun hms => hm ((htouched.marked_iff b).2 hms)⟩
  inside := by
    intro hret _
    by_cases hlast : lo + 1 < hi
    · exact h.inside hret hlast
    · omega
  all := by
    intro hret b hlo hbhi hres
    rcases Nat.eq_or_lt_of_le hlo with rfl | hlt
    · rcases hevs with ⟨hres', _⟩ | rfl
      · rw [hres] at hres'
        cases hres'
      · simp
    · refine List.mem_append_right _ (h.all hret b hlt hbhi ?_)
      rw [htouched.reserved]
      exact hres

/-- A pass that an error has stopped. -/
theorem ErasePass.of_fatal {lo hi : Nat} {ret : Int} {evs : List ChipEvent}
    (hfatal : ret ≠ 0 ∧ ret ≠ -eio) (htouched : Touched s evs t)
    (hevs : ErasesUnmarked s lo hi evs) : ErasePass nand s lo hi ret evs t where
  touched := htouched
  unmarked := hevs
  inside := fun h _ => absurd hfatal (Nand.not_fatal h)
  all := fun h => absurd hfatal (Nand.not_fatal h)

theorem nblocks_mul (nand : Nand) : nblocks nand * nand.erasesize = nand.size :=
  Nat.div_mul_cancel nand.erasesize_dvd

variable (ans s) in
/-- Behind the end of the device the call answers `-EINVAL`, which ends the loop. -/
theorem eraseLoop_behind {addr size : UInt64} (hge : nand.size ≤ addr.toNat) (hne : size ≠ 0)
    (ret : Int) (fuel : Nat) :
    mtdEraseLoop nand.mtd (ops nand ans) (fuel + 1) s addr size ret = some (-einval, s) := by
  have hpos := nand.erasesize_pos
  have hout : addr.toNat > nand.size ∨ nand.erasesize > nand.size - addr.toNat := by omega
  have hcall : (ops nand ans).erase s addr nand.mtd.erasesize.toUInt64 = (-einval, s) := by
    simp only [ops, nand.toNat_erasesize, if_pos hout]
  have hfatal : (-einval : Int) ≠ 0 ∧ (-einval : Int) ≠ -eio := by decide
  simp only [mtdEraseLoop, if_neg hne, hcall, if_pos hfatal]

variable (ans) in
theorem eraseLoop_unmarked (n : Nat) :
    ∀ (s : SpiNand) (addr size : UInt64) (ret : Int) (fuel lo : Nat),
      addr.toNat = lo * nand.erasesize → size.toNat = n * nand.erasesize →
      NoMark nand s lo (lo + n) → n < fuel →
      ∃ ret' evs t, mtdEraseLoop nand.mtd (ops nand ans) fuel s addr size ret = some (ret', t) ∧
        ErasePass nand s lo (lo + n) ret' evs t ∧
        ((ret = 0 ∨ ret = -eio) → lo + n ≤ nblocks nand →
          (∀ b, lo ≤ b → b < lo + n → ans.erase b = 0 ∨ ans.erase b = -eio) →
          ret' = 0 ∨ ret' = -eio) := by
  induction n with
  | zero =>
      intro s addr size ret fuel lo _ hsize _ hfuel
      have hzero : size = 0 := UInt64.toNat_inj.1 (by simpa using hsize)
      cases fuel with
      | zero => omega
      | succ fuel =>
          refine ⟨ret, [], s, by simp [mtdEraseLoop, hzero], ?_, fun h _ _ => h⟩
          exact
            { touched := Touched.refl s
              unmarked := by simp [ErasesUnmarked]
              inside := by omega
              all := by
                intro _ b h₁ h₂
                omega }
  | succ n ih =>
      intro s addr size ret fuel lo haddr hsize hmark hfuel
      have hpos := nand.erasesize_pos
      have hdev := nand.size_lt
      have hcap := nblocks_mul nand
      rcases Nand.first_unit nand.erasesize_pos hsize with ⟨hne, hblock⟩
      have hlo : addr.toNat / nand.erasesize = lo := by
        rw [haddr, Nat.mul_div_cancel _ hpos]
      cases fuel with
      | zero => omega
      | succ fuel =>
          by_cases hend : lo < nblocks nand
          · -- the block is there: it is erased, or reserved
            have hlt : addr.toNat < nand.size := by
              rw [haddr, ← hcap]
              exact Nat.mul_lt_mul_of_pos_right hend hpos
            have hdvd : nand.erasesize ∣ addr.toNat := ⟨lo, by rw [haddr, Nat.mul_comm]⟩
            have hgood : ¬ Marked s (addr.toNat / nand.erasesize) := by
              rw [hlo]
              exact hmark lo le_rfl (by omega) hend
            have hfit := nand.block_le hdvd hlt
            rcases erase_unmarked ans hdvd hlt hgood with ⟨ret₁, evs₁, s₁, hcall, htouched, hans⟩
            rw [hlo] at hans
            by_cases hfatal : ret₁ ≠ 0 ∧ ret₁ ≠ -eio
            · -- another error stops the loop
              have hevs : evs₁ = [.erase lo] ∧ ret₁ = ans.erase lo := by
                rcases hans with ⟨h, _, _⟩ | ⟨h, hevs⟩
                · exact absurd h hfatal.2
                · exact ⟨hevs, h⟩
              refine ⟨ret₁, evs₁, s₁, by simp only [mtdEraseLoop, if_neg hne, hcall, if_pos hfatal], ?_,
                ?_⟩
              · refine ErasePass.of_fatal hfatal htouched ?_
                intro e he
                rw [hevs.1, List.mem_singleton] at he
                exact ⟨lo, he, le_rfl, by omega, hmark lo le_rfl (by omega) hend⟩
              · intro _ _ hanswers
                rw [hevs.2]
                exact hanswers lo le_rfl (by omega)
            · rcases nand.next_block addr hblock (by omega) with ⟨haddr', hsize'⟩
              rcases ih s₁ (addr + nand.mtd.erasesize.toUInt64) (size - nand.mtd.erasesize.toUInt64) ret₁
                fuel (lo + 1) (by rw [haddr', haddr]; ring) hsize'
                (fun b h₁ h₂ h₃ hm => hmark b (by omega) (by omega) h₃ ((htouched.marked_iff b).1 hm))
                (by omega) with ⟨ret₂, evs₂, t, hloop, hpass, hret₂⟩
              refine ⟨ret₂, evs₁ ++ evs₂, t, ?_, ?_, ?_⟩
              · simp only [mtdEraseLoop, if_neg hne, hcall, if_neg hfatal, hloop]
              · rw [show lo + 1 + n = lo + (n + 1) by omega] at hpass
                exact hpass.cons htouched hend (by omega) (hmark lo le_rfl (by omega) hend)
                  (by
                    rcases hans with ⟨_, hres, hevs⟩ | ⟨_, hevs⟩
                    · exact Or.inl ⟨hres, hevs⟩
                    · exact Or.inr hevs)
              · intro _ hroom hanswers
                refine hret₂ (Nand.fatal_or ret₁ hfatal) (by omega) ?_
                intro b h₁ h₂
                exact hanswers b (by omega) (by omega)
          · have hge : nand.size ≤ addr.toNat := by
              rw [haddr, ← hcap]
              exact Nat.mul_le_mul_right _ (Nat.not_lt.1 hend)
            refine ⟨-einval, [], s, eraseLoop_behind ans s hge hne ret fuel, ?_, ?_⟩
            · exact ErasePass.of_fatal (by decide) (Touched.refl s) (by simp [ErasesUnmarked])
            · intro _ hroom _
              omega

/-! ## The write pass -/

theorem blockIsbad_unmarked {ofs : UInt64} (hlt : ofs.toNat < nand.size)
    (hgood : ¬ Marked s (ofs.toNat / nand.erasesize)) : (ops nand ans).blockIsbad s ofs = 0 := by
  have hdev := nand.size_lt
  have hin : ¬ (ofs.toNat ≥ 2 ^ 63 ∨ ofs.toNat > nand.size) := by omega
  have hb : ofs.toNat / nand.erasesize < nblocks nand := by
    refine (Nat.div_lt_iff_lt_mul nand.erasesize_pos).2 ?_
    rw [nblocks_mul]
    exact hlt
  have hnot : ¬ (nanddevIsbad nand s (ofs.toNat / nand.erasesize)).1 = true :=
    mt (marked_of_nanddevIsbad hb) hgood
  simp only [ops, if_neg hin, if_neg hnot]

/-- The commands `evs` program pages between `lo` and `hi`. -/
def ProgramsBetween (lo hi : Nat) (evs : List ChipEvent) : Prop :=
  ∀ e ∈ evs, ∃ off, e = .program off ∧ lo ≤ off ∧ off < hi

variable (nand ans s) in
/-- One page of the write pass: passed over, or programmed once. -/
theorem page_unmarked {off remaining : UInt64} (datbuf : ByteMem)
    (hdvd : nand.writesize ∣ remaining.toNat) (hne : remaining ≠ 0)
    (hrange : off.toNat + nand.writesize ≤ nand.size) :
    ∃ ret retlen evs t, retlen.toNat = nand.writesize ∧ Touched s evs t ∧
      (evs = [] ∨ evs = [.program off.toNat]) ∧
      (if nand.mtd.hasPages = true ∧
          mtdPageIsEmpty (datbuf.read 0 (ioLen nand.mtd remaining).toNat) = true then
        ((0 : Int), nand.mtd.writesize.toUInt64, s)
      else (ops nand ans).writeOob s off (datbuf.read 0 (ioLen nand.mtd remaining).toNat)) =
        (ret, retlen, t) := by
  have hlen := nand.toNat_ioLen hdvd hne
  have hdev := nand.size_lt
  rw [hlen]
  split
  · exact ⟨0, _, [], s, nand.toNat_writesize, Touched.refl s, Or.inl rfl, rfl⟩
  · have hin : ¬ (off.toNat ≥ 2 ^ 63 ∨ off.toNat + nand.writesize > nand.size) := by
      have := nand.writesize_pos
      omega
    simp only [ops, ByteMem.length_read, if_neg hin]
    refine ⟨_, _, [.program off.toNat], _, ?_, ?_, Or.inr rfl, rfl⟩
    · rw [UInt64.toNat_ofNat', Nat.mod_eq_of_lt]
      omega
    · exact ⟨rfl, fun _ => Or.inl rfl, rfl⟩

theorem writeLoop_unmarked (fuel : Nat) :
    ∀ (s : SpiNand) (off remaining : UInt64) (datbuf : ByteMem) (ret ret' : Int) (t : SpiNand),
      nand.writesize ∣ remaining.toNat → off.toNat + remaining.toNat ≤ nand.size →
      (∀ a, off.toNat ≤ a → a < off.toNat + remaining.toNat → ¬ Marked s (a / nand.erasesize)) →
      mtdWriteLoop nand.mtd (ops nand ans) fuel s off remaining datbuf ret = some (ret', t) →
      ∃ evs, Touched s evs t ∧
        ProgramsBetween off.toNat (off.toNat + remaining.toNat) evs := by
  induction fuel with
  | zero =>
      intro s off remaining datbuf ret ret' t _ _ _ h
      cases h
  | succ fuel ih =>
      intro s off remaining datbuf ret ret' t hdvd hrange hgood h
      simp only [mtdWriteLoop] at h
      by_cases hne : remaining = 0
      · rw [if_pos hne] at h
        cases h
        exact ⟨[], Touched.refl s, by simp [ProgramsBetween]⟩
      · have hpos : 0 < remaining.toNat := toNat_pos_of_ne_zero hne
        have hws := nand.writesize_pos
        have hle : nand.writesize ≤ remaining.toNat := Nat.le_of_dvd hpos hdvd
        have hokay : (ops nand ans).blockIsbad s off = 0 :=
          blockIsbad_unmarked (by omega) (hgood _ le_rfl (by omega))
        rw [if_neg hne, if_neg (fun h => h.2 hokay)] at h
        rcases page_unmarked nand ans s datbuf hdvd hne
          (show off.toNat + nand.writesize ≤ nand.size by omega) with
          ⟨ret₁, retlen, evs₁, s₁, hretlen, htouched, hevs₁, hpage⟩
        have hfirst : ProgramsBetween off.toNat (off.toNat + remaining.toNat) evs₁ := by
          intro e he
          rcases hevs₁ with rfl | rfl
          · cases he
          · exact ⟨off.toNat, List.mem_singleton.1 he, le_rfl, by omega⟩
        rw [hpage] at h
        dsimp only at h
        split at h
        · cases h
          exact ⟨evs₁, htouched, hfirst⟩
        · have hoff := nand.toNat_add_retlen off hretlen (by omega)
          have hrem := nand.toNat_sub_retlen hretlen hle
          rcases ih s₁ _ _ _ _ _ _
            (by rw [hrem]; exact Nat.dvd_sub hdvd (dvd_refl _)) (by omega)
            (fun a h₁ h₂ hm => hgood a (by omega) (by omega) ((htouched.marked_iff _).1 hm)) h with
            ⟨evs₂, htouched₂, hevs₂⟩
          refine ⟨evs₁ ++ evs₂, htouched.trans htouched₂, ?_⟩
          intro e he
          rcases List.mem_append.1 he with he | he
          · exact hfirst e he
          · rcases hevs₂ e he with ⟨p, hp, hlo, hhi⟩
            exact ⟨p, hp, by omega, by omega⟩

/-! ## The two operations of the burner -/

/-- An operation of the burner, as the gadget asks for it. -/
inductive BurnOp
  | erase (offset len : UInt64)
  | write (offset : UInt64) (buf : ByteMem) (len : UInt64)

def BurnOp.offset : BurnOp → UInt64
  | .erase offset _ => offset
  | .write offset _ _ => offset

def BurnOp.len : BurnOp → UInt64
  | .erase _ len => len
  | .write _ _ len => len

/-- The operation is carried out, with the chip's answers to its commands. -/
def BurnStep (nand : Nand) (s : SpiNand) (op : BurnOp × ChipAnswers) (t : SpiNand) : Prop :=
  match op.1 with
  | .erase offset len =>
      ∃ ret len', mtdEraseMedium nand.mtd (ops nand op.2) s offset len = some (ret, len', t)
  | .write offset buf len =>
      ∃ ret len', mtdWriteMedium nand.mtd (ops nand op.2) s offset buf len = some (ret, len', t)

/-- The nominal range of the operation, when it is one that is carried out, has no marked block. -/
def Clear (nand : Nand) (s : SpiNand) (op : BurnOp) : Prop :=
  nand.erasesize ∣ op.offset.toNat → nand.erasesize ∣ op.len.toNat →
    NoMark nand s (op.offset.toNat / nand.erasesize)
      ((op.offset.toNat + op.len.toNat) / nand.erasesize)

/-- No command of `evs` touches a block that is marked in `s`. -/
def Spares (nand : Nand) (s : SpiNand) (evs : List ChipEvent) : Prop :=
  ∀ b, Marked s b → .erase b ∉ evs ∧ ∀ off, off / nand.erasesize = b → .program off ∉ evs

theorem spares_of_erases {lo hi : Nat} (h : ErasesUnmarked s lo hi evs) : Spares nand s evs := by
  intro b hb
  refine ⟨?_, ?_⟩
  · intro he
    rcases h _ he with ⟨b', heq, _, _, hm⟩
    cases heq
    exact hm hb
  · intro off _ he
    rcases h _ he with ⟨b', heq, _⟩
    cases heq

theorem spares_append (h : Spares nand s evs) (h' : Spares nand s evs') :
    Spares nand s (evs ++ evs') := by
  intro b hb
  refine ⟨?_, ?_⟩
  · rw [List.mem_append, not_or]
    exact ⟨(h b hb).1, (h' b hb).1⟩
  · intro off hoff
    rw [List.mem_append, not_or]
    exact ⟨(h b hb).2 off hoff, (h' b hb).2 off hoff⟩

theorem Touched.spares (h : Touched s evs t) (hsp : Spares nand t evs') : Spares nand s evs' := by
  intro b hb
  exact hsp b ((h.marked_iff b).2 hb)

/-- Every good block of an aligned request inside the device was erased, unless the chip answered one
of the commands with more than a failed status. -/
def ErasesAll (nand : Nand) (s : SpiNand) (op : BurnOp × ChipAnswers) (evs : List ChipEvent) : Prop :=
  ∀ offset len, op.1 = .erase offset len → nand.erasesize ∣ offset.toNat →
    nand.erasesize ∣ len.toNat → offset.toNat + len.toNat ≤ nand.size →
    (∀ b, op.2.erase b = 0 ∨ op.2.erase b = -eio) →
    ∀ b, offset.toNat / nand.erasesize ≤ b → b < (offset.toNat + len.toNat) / nand.erasesize →
      ¬ Marked s b → nanddevIsreserved nand s b = false → .erase b ∈ evs

variable (ans) in
/-- `mtd_erase_medium` on a range without marks. -/
theorem eraseMedium_clear (offset len : UInt64)
    (hclear : Clear nand s (.erase offset len)) :
    ∃ ret evs t, mtdEraseMedium nand.mtd (ops nand ans) s offset len = some (ret, len, t) ∧
      Touched s evs t ∧ Spares nand s evs ∧ ErasesAll nand s (.erase offset len, ans) evs ∧
      (ret = 0 → len ≠ 0 → nand.erasesize ∣ offset.toNat ∧ nand.erasesize ∣ len.toNat ∧
        offset.toNat + len.toNat ≤ nand.size) := by
  have hpos := nand.erasesize_pos
  by_cases hblocks : nand.erasesize ∣ offset.toNat ∧ nand.erasesize ∣ len.toNat
  · rcases hblocks with ⟨ho, hl⟩
    have hmark := hclear ho hl
    have hlo : offset.toNat = offset.toNat / nand.erasesize * nand.erasesize :=
      (Nat.div_mul_cancel ho).symm
    have hn : len.toNat = len.toNat / nand.erasesize * nand.erasesize := (Nat.div_mul_cancel hl).symm
    have hhi : (offset.toNat + len.toNat) / nand.erasesize =
        offset.toNat / nand.erasesize + len.toNat / nand.erasesize := Nat.add_div_of_dvd_right ho
    have hfuel : len.toNat / nand.erasesize < loopBound :=
      Nand.lt_loopBound hpos (Nat.mul_div_cancel' hl).symm
    simp only [BurnOp.offset, BurnOp.len] at hmark
    rw [hhi] at hmark
    rcases eraseLoop_unmarked ans _ s offset len 0 loopBound _ hlo hn hmark hfuel with
      ⟨ret, evs, t, hloop, hpass, hret⟩
    have hcap := nblocks_mul nand
    refine ⟨_, evs, t, nand.eraseMedium_blocks _ ho hl hloop, hpass.touched,
      spares_of_erases hpass.unmarked, ?_, ?_⟩
    · intro offset' len' heq _ _ hrange hanswers b h₁ h₂ _ hres
      cases heq
      have hroom : offset.toNat / nand.erasesize + len.toNat / nand.erasesize ≤
          nblocks nand := by
        rw [← hhi]
        exact Nat.div_le_div_right hrange
      rw [hhi] at h₂
      exact hpass.all (hret (Or.inl rfl) hroom fun b _ _ => hanswers b) b h₁ h₂ hres
    · intro hzero hne
      have hok : ret = 0 ∨ ret = -eio := by
        refine Nand.fatal_or ret ?_
        intro hfatal
        rw [if_pos hfatal] at hzero
        exact absurd hzero (by decide)
      have hlen : 0 < len.toNat / nand.erasesize :=
        Nat.div_pos (Nat.le_of_dvd (toNat_pos_of_ne_zero hne) hl) hpos
      have hinside := hpass.inside hok (by omega)
      refine ⟨ho, hl, ?_⟩
      rw [hlo, hn, ← Nat.add_mul, ← hcap]
      exact Nat.mul_le_mul_right _ hinside
  · refine ⟨-1, [], s, nand.eraseMedium_unaligned _ s hblocks, Touched.refl s, by simp [Spares], ?_, ?_⟩
    · intro offset' len' heq ho hl _
      cases heq
      exact absurd ⟨ho, hl⟩ hblocks
    · intro h
      exact absurd h (by decide)

/-- `mtd_write_medium` on a range without marks. -/
theorem writeMedium_clear {offset len : UInt64} {buf : ByteMem} {ret : Int}
    {len' : UInt64} (hclear : Clear nand s (.write offset buf len))
    (h : mtdWriteMedium nand.mtd (ops nand ans) s offset buf len = some (ret, len', t)) :
    ∃ evs, Touched s evs t ∧ Spares nand s evs := by
  rcases eraseMedium_clear ans offset len hclear with
    ⟨ret₁, evs₁, s₁, herase, htouched, hspares, _, hrange⟩
  have hnothing : ∃ evs, Touched s evs s ∧ Spares nand s evs :=
    ⟨[], Touched.refl s, by simp [Spares]⟩
  have hunlock : (ops nand ans).unlock s offset len = (-eopnotsupp, s) := rfl
  cases writeReturns_of_eq h with
  | unaligned => exact hnothing
  | locked hret hlock => exact hnothing
  | notErased hrun hret =>
      rw [hunlock, herase] at hrun
      cases hrun
      exact ⟨evs₁, htouched, hspares⟩
  | @written _ off _ _ _ _ hrun hskip hwrite hret =>
      rw [hunlock, herase] at hrun
      cases hrun
      by_cases hne : len = 0
      · -- nothing to write
        rcases Nand.exists_loopBound with ⟨fuel, hfuel⟩
        rw [hfuel, mtdWriteLoop, if_pos hne] at hwrite
        cases hwrite
        exact ⟨evs₁, htouched, hspares⟩
      · rcases hrange rfl hne with ⟨ho, hl, hroom⟩
        have hpos : 0 < len.toNat := toNat_pos_of_ne_zero hne
        have hcap := nblocks_mul nand
        have hends : nand.erasesize ∣ offset.toNat + len.toNat := Dvd.dvd.add ho hl
        have hblocks : ∀ a, offset.toNat ≤ a → a < offset.toNat + len.toNat →
            ¬ Marked s (a / nand.erasesize) := by
          intro a h₁ h₂
          refine hclear ho hl _ (Nat.div_le_div_right h₁) ?_ ?_
          · refine (Nat.div_lt_iff_lt_mul nand.erasesize_pos).2 ?_
            dsimp only [BurnOp.offset, BurnOp.len]
            rw [Nat.div_mul_cancel hends]
            exact h₂
          · refine (Nat.div_lt_iff_lt_mul nand.erasesize_pos).2 ?_
            omega
        have hblocks₁ : ∀ a, offset.toNat ≤ a → a < offset.toNat + len.toNat →
            ¬ Marked s₁ (a / nand.erasesize) :=
          fun a h₁ h₂ hm => hblocks a h₁ h₂ ((htouched.marked_iff _).1 hm)
        -- the search for a good block ends where it starts
        have hoff : off = offset := by
          have hokay : (ops nand ans).blockIsbad s₁ offset = 0 :=
            blockIsbad_unmarked (by omega) (hblocks₁ _ le_rfl (by omega))
          rcases Nand.exists_loopBound with ⟨fuel, hfuel⟩
          rw [hfuel, mtdSkipBad, if_neg (not_not.2 hokay)] at hskip
          cases hskip
          rfl
        subst hoff
        rcases writeLoop_unmarked loopBound s₁ off len buf _ _ _
          (dvd_trans nand.writesize_dvd hl) hroom hblocks₁ hwrite with ⟨evs₂, htouched₂, hevs₂⟩
        refine ⟨evs₁ ++ evs₂, htouched.trans htouched₂, spares_append hspares ?_⟩
        intro b hb
        refine ⟨?_, ?_⟩
        · intro he
          rcases hevs₂ _ he with ⟨p, heq, _⟩
          cases heq
        · rintro p rfl he
          rcases hevs₂ _ he with ⟨p', heq, hlo, hhi⟩
          cases heq
          exact hblocks p hlo hhi hb

/-! ## Runs -/

/-- One operation on a range without marks. -/
theorem burnStep_clear {op : BurnOp × ChipAnswers} (hclear : Clear nand s op.1)
    (h : BurnStep nand s op t) :
    ∃ evs, Touched s evs t ∧ Spares nand s evs ∧ ErasesAll nand s op evs := by
  rcases op with ⟨op, ans⟩
  cases op with
  | erase offset len =>
      rcases h with ⟨ret, len', hrun⟩
      rcases eraseMedium_clear ans offset len hclear with
        ⟨ret', evs, t', hrun', htouched, hspares, hall, _⟩
      rw [hrun'] at hrun
      cases hrun
      exact ⟨evs, htouched, hspares, hall⟩
  | write offset buf len =>
      rcases h with ⟨ret, len', hrun⟩
      rcases writeMedium_clear hclear hrun with ⟨evs, htouched, hspares⟩
      refine ⟨evs, htouched, hspares, ?_⟩
      intro offset' len' heq
      cases heq

/-- What is to be kept from `s` on: no marked block was erased or programmed, its mark and what the
table says of it are as they were, and so are the unmarked ones. -/
structure MarksKept (nand : Nand) (s t : SpiNand) : Prop where
  spared : ∃ evs, t.events = s.events ++ evs ∧ Spares nand s evs
  marker : t.marker = s.marker
  marked : ∀ b, Marked t b ↔ Marked s b

/-- Every operation of the run meets a range without marks. -/
def ClearRun (nand : Nand) (s : SpiNand) (ops : List (BurnOp × ChipAnswers)) : Prop :=
  ∀ pre op post u, ops = pre ++ op :: post → Run (BurnStep nand) s pre u → Clear nand u op.1

theorem touched_run {ops : List (BurnOp × ChipAnswers)}
    (hrun : Run (BurnStep nand) s ops t) (hclear : ClearRun nand s ops) :
    ∃ evs, Touched s evs t ∧ Spares nand s evs := by
  refine hrun.snoc_induction
    (P := fun ops t => ClearRun nand s ops → ∃ evs, Touched s evs t ∧ Spares nand s evs)
    (fun _ => ⟨[], Touched.refl s, by simp [Spares]⟩) ?_ hclear
  intro ops u op v hpre ih hstep hclear
  have hfront : ClearRun nand s ops := by
    intro pre op' post w hsplit
    exact hclear pre op' (post ++ [op]) w (by simp [hsplit])
  rcases ih hfront with ⟨evs, htouched, hspares⟩
  rcases burnStep_clear (hclear ops op [] u rfl hpre) hstep with
    ⟨evs', htouched', hspares', _⟩
  exact ⟨evs ++ evs', htouched.trans htouched', spares_append hspares (htouched.spares hspares')⟩

/-- In every run whose operations meet no marked block in their nominal ranges, every state reached
has all the marks of the first one, with no command on a marked block, and every erase operation has
erased the good blocks of its range. -/
theorem bad_marks_survive (nand : Nand) (s : SpiNand)
    (ops : List (BurnOp × ChipAnswers)) (hclear : ClearRun nand s ops) :
    (∀ pre post u, ops = pre ++ post → Run (BurnStep nand) s pre u → MarksKept nand s u) ∧
      ∀ pre op post u v, ops = pre ++ op :: post → Run (BurnStep nand) s pre u →
        BurnStep nand u op v → ∃ evs, v.events = u.events ++ evs ∧ ErasesAll nand u op evs := by
  have hkept : ∀ pre post u, ops = pre ++ post → Run (BurnStep nand) s pre u →
      ∃ evs, Touched s evs u ∧ Spares nand s evs := by
    intro pre post u hsplit hpre
    refine touched_run hpre ?_
    intro pre' op post' w hsplit'
    exact hclear pre' op (post' ++ post) w (by simp [hsplit, hsplit'])
  constructor
  · intro pre post u hsplit hpre
    rcases hkept pre post u hsplit hpre with ⟨evs, htouched, hspares⟩
    exact ⟨⟨evs, htouched.events, hspares⟩, htouched.marker, htouched.marked_iff⟩
  · intro pre op post u v hsplit hpre hstep
    rcases hkept pre (op :: post) u hsplit hpre with ⟨evs, htouched, _⟩
    rcases burnStep_clear (hclear pre op post u hsplit hpre) hstep with
      ⟨evs', htouched', _, hall⟩
    exact ⟨evs', htouched'.events, hall⟩

/-! ## A marked block in the range -/

variable (ans) in
/-- `nanddev_erase` on a marked block whose erase succeeds: the block is erased, and it is neither
marked on the chip nor known as bad any more. -/
theorem nanddevErase_marked (hs : Settled s) (hb : b < nblocks nand)
    (hin : ¬ neraseblocks nand ≤ b) (hmarked : Marked s b) (hans : ans.erase b = 0) :
    ∃ t, nanddevErase nand ans s b = (0, t) ∧ t.events = s.events ++ [.erase b] ∧ ¬ Marked t b ∧
      (nanddevIsbad nand t b).1 = false := by
  have hbad := nanddevIsbad_of_marked hs hb hin hmarked
  have htouched := touched_nanddevIsbad s hb
  -- a settled table has no mark on a reserved block
  have hres : nanddevIsreserved nand s b = false := by
    simp only [nanddevIsreserved, if_neg hin, beq_eq_false_iff_ne]
    intro h
    rcases hmarked with hm | hm | hm
    · rw [hs b (Or.inr h)] at hm
      cases hm
    · rw [h] at hm
      cases hm
    · rw [h] at hm
      cases hm
  refine ⟨_, by simp [nanddevErase, hbad, htouched.reserved, hres, spinandErase, hans]; rfl, ?_, ?_, ?_⟩
  · simp [setBlockStatus, hin, htouched.events]
  · simp [Marked, setBlockStatus, hin]
  · simp [nanddevIsbad, setBlockStatus, hin, spinandIsbad_eq hb]

/-- A chip whose block 1 carries a factory mark that nobody has looked at yet. -/
def oneMark : SpiNand :=
  { bbt := fun _ => .unknown, marker := fun b => b == 1, events := [] }

def allSucceed : ChipAnswers :=
  { erase := fun _ => 0, write := fun _ => 0 }

theorem settled_oneMark : Settled oneMark := by
  intro b h
  simp [oneMark] at h

end SpiNand

open SpiNand in
/-- Erasing the first block of the chip leaves the mark of the second alone. -/
theorem bad_marks_survive_first_block :
    ClearRun (fourBlocks fun _ => false) oneMark [(.erase 0 131072, allSucceed)] ∧
      ∀ u, Run (BurnStep (fourBlocks fun _ => false)) oneMark [(.erase 0 131072, allSucceed)] u →
        MarksKept (fourBlocks fun _ => false) oneMark u := by
  have hclear : ClearRun (fourBlocks fun _ => false) oneMark [(.erase 0 131072, allSucceed)] := by
    intro pre op post u hsplit hpre
    cases pre with
    | nil =>
        cases hsplit
        rw [hpre.nil_inv]
        intro _ _ b hlo hhi _ hm
        have hzero : b = 0 := by
          have hone : b < 1 := hhi
          omega
        subst hzero
        simp [Marked, oneMark] at hm
    | cons a pre => simp at hsplit
  refine ⟨hclear, ?_⟩
  intro u hrun
  exact (bad_marks_survive (fourBlocks fun _ => false) oneMark _ hclear).1 _ [] u
    (by simp) hrun

open SpiNand in
/-- Erasing the second block erases it and its mark with it: afterwards it counts as good. -/
theorem bad_block_erased :
    ∃ t, Run (BurnStep (fourBlocks fun _ => false)) oneMark [(.erase 131072 131072, allSucceed)] t ∧
      Marked oneMark 1 ∧ .erase 1 ∈ t.events ∧
      (nanddevIsbad (fourBlocks fun _ => false) t 1).1 = false ∧
      ¬ MarksKept (fourBlocks fun _ => false) oneMark t := by
  have hmarked : Marked oneMark 1 := Or.inl rfl
  have hblock : 1 < nblocks (fourBlocks fun _ => false) := by decide
  have htable : ¬ neraseblocks (fourBlocks fun _ => false) ≤ 1 := by decide
  rcases nanddevErase_marked allSucceed settled_oneMark hblock htable hmarked rfl with
    ⟨t, herase, hevents, hlost, hgood⟩
  have hcall : (ops (fourBlocks fun _ => false) allSucceed).erase oneMark 131072
      (fourBlocks fun _ => false).mtd.erasesize.toUInt64 = (0, t) := by
    rw [erase_eq allSucceed oneMark (by decide) (by decide)]
    exact herase
  have hloop : mtdEraseLoop (fourBlocks fun _ => false).mtd (ops (fourBlocks fun _ => false) allSucceed)
      loopBound oneMark 131072 131072 0 = some (0, t) := by
    obtain ⟨fuel, hfuel⟩ : ∃ fuel, loopBound = fuel + 2 := ⟨2 ^ 128 - 2, by simp [loopBound]⟩
    have hrest : (131072 : UInt64) - (fourBlocks fun _ => false).mtd.erasesize.toUInt64 = 0 := by decide
    rw [hfuel]
    simp [mtdEraseLoop, hcall, hrest]
  have hstep : BurnStep (fourBlocks fun _ => false) oneMark (.erase 131072 131072, allSucceed) t := by
    refine ⟨0, 131072, ?_⟩
    have haligned : mtdIsAlignedWithBlockSize (fourBlocks fun _ => false).mtd 131072 = true := by decide
    simp [mtdEraseMedium, haligned, hloop]
  refine ⟨t, Run.cons hstep (Run.nil t), hmarked, ?_, ?_, ?_⟩
  · rw [hevents]
    simp
  · exact hgood
  · intro hkept
    exact hlost ((hkept.marked 1).2 hmarked)

end Burn
end CanmvK230
