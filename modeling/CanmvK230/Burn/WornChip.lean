import CanmvK230.Burn.EraseFirst

/-!
# WornChip — when one write to a NAND chip erases what it programs

A chip that takes no write at all has the first page of the walk on record.  With data that is empty
up to a block of one's choice, that page is in this block; so the claim, read for such data, gives the
condition of `ErasesWhatItWrites` part by part.  Together with the other direction this is
`erase_before_program_iff`.
-/

namespace CanmvK230
namespace Burn

open Lib

namespace Nand

variable {nand : Nand} {eraseAns : Nat → Int}

/-! ## A worn chip -/

/-- A layer that takes as many writes as its state says.  At zero its record names the first page that
the walk would program. -/
def wornOps (nand : Nand) (eraseAns : Nat → Int) : MtdOps Nat where
  erase n addr _ :=
    (if addr.toNat < nand.size then eraseAns (addr.toNat / nand.erasesize) else -einval, n)
  blockIsbad _ ofs := if nand.Stop ofs.toNat then 0 else 1
  writeOob n off data :=
    if n = 0 ∨ nand.size < off.toNat + data.length then
      (-eio, 0, n)
    else
      (0, UInt64.ofNat data.length, n - 1)
  unlock n _ _ := (0, n)
  lock n _ _ := n

theorem answers_wornOps (nand : Nand) (eraseAns : Nat → Int) :
    nand.Answers eraseAns (nand.wornOps eraseAns) where
  erase _ _ _ hlt := if_pos hlt
  erase_end _ _ hend := if_neg (Nat.not_lt.2 hend)
  blockIsbad _ ofs _ := by
    by_cases hstop : nand.Stop ofs.toNat
    · simp [wornOps, hstop]
    · simp [wornOps, hstop]
  writeOob n off data h := by
    have hdev := nand.size_lt
    by_cases hfail : n = 0 ∨ nand.size < off.toNat + data.length
    · simp only [wornOps, if_pos hfail] at h
      exact absurd h (by decide)
    · simp only [wornOps, if_neg hfail, UInt64.toNat_ofNat']
      rw [not_or] at hfail
      exact ⟨Nat.mod_eq_of_lt (by omega), by omega⟩

/-- Erasing wears nothing. -/
theorem eraseLoop_worn (fuel : Nat) :
    ∀ (s : Nat × List MtdEvent) (addr size : UInt64) (ret ret' : Int) (t : Nat × List MtdEvent),
      mtdEraseLoop nand.mtd (logged (nand.wornOps eraseAns)) fuel s addr size ret = some (ret', t) →
      t.1 = s.1 := by
  induction fuel with
  | zero =>
      intro s addr size ret ret' t h
      cases h
  | succ fuel ih =>
      intro s addr size ret ret' t h
      simp only [mtdEraseLoop] at h
      split at h
      · cases h
        rfl
      · split at h
        · cases h
          rfl
        · have hrest := ih _ _ _ _ ret' t h
          exact hrest

/-- An erase pass that meets no fatal answer. -/
theorem eraseMedium_worn {n : Nat} {log : List MtdEvent} {offset len : UInt64} (ho : nand.erasesize ∣ offset.toNat) (hl : nand.erasesize ∣ len.toNat)
    (hrange : offset.toNat + len.toNat ≤ nand.size)
    (hanswers : ∀ a, offset.toNat ≤ a → a < offset.toNat + len.toNat →
      eraseAns (a / nand.erasesize) = 0 ∨ eraseAns (a / nand.erasesize) = -eio) :
    mtdEraseMedium nand.mtd (logged (nand.wornOps eraseAns)) (n, log) offset len =
      some (0, len, n, log ++ nand.eraseEvents eraseAns (offset.toNat / nand.erasesize)
        (len.toNat / nand.erasesize)) := by
  have hans := answers_wornOps nand eraseAns
  have herase : ∀ (s : Nat × List MtdEvent) (addr : UInt64), nand.erasesize ∣ addr.toNat →
      offset.toNat ≤ addr.toNat → addr.toNat < offset.toNat + len.toNat →
      ((logged (nand.wornOps eraseAns)).erase s addr nand.mtd.erasesize.toUInt64).1 = 0 ∨
        ((logged (nand.wornOps eraseAns)).erase s addr nand.mtd.erasesize.toUInt64).1 = -eio := by
    intro s addr haddr hlo hhi
    have hanswer : ((logged (nand.wornOps eraseAns)).erase s addr nand.mtd.erasesize.toUInt64).1 =
        eraseAns (addr.toNat / nand.erasesize) := hans.erase s.1 addr haddr (by omega)
    rw [hanswer]
    exact hanswers addr.toNat hlo hhi
  rcases eraseMedium_succeeds (n, log) ho hl hrange herase with ⟨ret, t, hloop, hmedium⟩
  rcases eraseMedium_log hans hmedium with ⟨evs, hlog, _, hzero⟩
  rcases hzero rfl with ⟨_, _, _, rfl⟩
  have hstate : t.1 = n := eraseLoop_worn _ _ _ _ _ _ _ hloop
  rw [hmedium, ← hlog, ← hstate]

/-- Data that is empty for `k` bytes and then zero. -/
def emptyFor (k : Nat) : ByteMem := fun i => if i < k then 0xff else 0

theorem isEmpty_emptyFor {k j n : Nat} (h : j + n ≤ k) :
    mtdPageIsEmpty ((emptyFor k).read j n) = true := by
  refine List.all_eq_true.2 ?_
  intro x hx
  rcases List.mem_map.1 hx with ⟨i, hi, rfl⟩
  have hlt := List.mem_range.1 hi
  rw [emptyFor, if_pos (by omega)]
  rfl

theorem not_isEmpty_emptyFor {k n : Nat} (hn : 0 < n) :
    ¬ mtdPageIsEmpty ((emptyFor k).read k n) = true := by
  intro hempty
  have hfirst : emptyFor k k ∈ (emptyFor k).read k n :=
    List.mem_map.2 ⟨0, List.mem_range.2 hn, rfl⟩
  have hff := beq_iff_eq.1 (List.all_eq_true.1 hempty _ hfirst)
  rw [emptyFor, if_neg (Nat.lt_irrefl k)] at hff
  exact absurd hff (by decide)

/-! ## What the claim says of the first page with data -/

section Necessary

variable {offset len : UInt64} {buf : ByteMem}

/-- The record of a call that ends at the first page with data. -/
def RefusedAt (nand : Nand) (b : Nat) (log log' : List MtdEvent) : Prop :=
  ∃ (o : UInt64) (data : List UInt8), o.toNat = b ∧ data.length = nand.writesize ∧
    log' = log ++ [.program o data (-eio)]

/-- The write pass ends at the block where byte `k` goes, the first that is not empty. -/
theorem writeLoop_refused (hwhole : nand.erasesize ∣ 2 ^ 64) {log : List MtdEvent} {off : UInt64}
    {ret : Int} {b k : Nat} (hl : nand.writesize ∣ len.toNat) (hwalk : nand.InWalk off.toNat)
    (hstop : nand.Stop b) (hplace : nand.place off.toNat k = some b) (hk : k < len.toNat)
    (hpage : nand.writesize ∣ k) :
    ∃ t, mtdWriteLoop nand.mtd (logged (nand.wornOps eraseAns)) loopBound (0, log) off len
        (emptyFor k) ret = some (-eio, t) ∧ t.1 = 0 ∧ nand.RefusedAt b log t.2 := by
  have hWpos := nand.writesize_pos
  have hreports := (answers_wornOps nand eraseAns).reportsBad_logged
  have hrun : ∃ r t, mtdWriteLoop nand.mtd (logged (nand.wornOps eraseAns)) loopBound (0, log) off len
      (emptyFor k) ret = some (r, t) ∧ r = -eio ∧ t.1 = 0 ∧ nand.RefusedAt b log t.2 := by
    -- until then nothing is on record, and byte `k` is still to come
    refine writeLoop_total hwhole ⟨b, hstop⟩ hl
      (J := fun off j _ t => t = (0, log) ∧ j ≤ k ∧ nand.place off (k - j) = some b)
      (R := fun r t => r = -eio ∧ t.1 = 0 ∧ nand.RefusedAt b log t.2) (fun _ _ _ t _ => hreports t)
      ?_ ?_ ?_ hwalk rfl ⟨rfl, Nat.zero_le k, hplace⟩
    · rintro off j _ t ⟨rfl, hle, hplace⟩ hoff hblock hbad
      exact ⟨rfl, hle, by rwa [place_skip hwhole hoff hblock hbad]⟩
    · rintro off j _ t ⟨rfl, hle, hplace⟩ hat hhere hj _
      rcases place_page hat hhere with ⟨hfirst, hbehind⟩
      dsimp only
      rw [writePage]
      by_cases hlast : j = k
      · rw [hlast, Nat.sub_self, hfirst] at hplace
        have hdata := not_isEmpty_emptyFor (k := k) hWpos
        have hwrite : (logged (nand.wornOps eraseAns)).writeOob (0, log) off
            ((emptyFor k).read k nand.writesize) =
              (-eio, 0, 0, log ++ [.program off ((emptyFor k).read k nand.writesize) (-eio)]) := rfl
        have hfail : -eio ≠ (0 : Int) := by decide
        rw [hlast, if_neg hdata, hwrite, if_pos hfail]
        exact ⟨rfl, rfl, off, _, Option.some.inj hplace, ByteMem.length_read _ _ _, rfl⟩
      · have hnext := Nat.le_of_dvd (by omega) (Nat.dvd_sub hpage hj)
        rw [if_pos (isEmpty_emptyFor (by omega)), if_neg (not_not.2 rfl)]
        refine ⟨nand.toNat_writesize, rfl, by omega, ?_⟩
        rw [← hbehind, show nand.writesize + (k - (j + nand.writesize)) = k - j by omega]
        exact hplace
    · rintro off _ t ⟨_, hle, _⟩
      omega
  rcases hrun with ⟨r, t, hloop, rfl, hend⟩
  exact ⟨t, hloop, hend⟩

/-- The whole call. -/
theorem writeMedium_refused {b k : Nat} (hwhole : nand.erasesize ∣ 2 ^ 64)
    (ho : nand.erasesize ∣ offset.toNat) (hl : nand.erasesize ∣ len.toNat)
    (hrange : offset.toNat + len.toNat ≤ nand.size)
    (hanswers : ∀ a, offset.toNat ≤ a → a < offset.toNat + len.toNat →
      eraseAns (a / nand.erasesize) = 0 ∨ eraseAns (a / nand.erasesize) = -eio)
    (hstop : nand.Stop b) (hplace : nand.place offset.toNat k = some b) (hk : k < len.toNat)
    (hpage : nand.writesize ∣ k) :
    ∃ (o : UInt64) (data : List UInt8), o.toNat = b ∧ data.length = nand.writesize ∧
      mtdWriteMedium nand.mtd (logged (nand.wornOps eraseAns)) (0, []) offset (emptyFor k) len =
        some (-1, len, 0, nand.erasePass eraseAns offset len 0 ++
          [.program o data (-eio), .lock offset len]) := by
  have hreports := (answers_wornOps nand eraseAns).reportsBad_logged
  have herase : mtdEraseMedium nand.mtd (logged (nand.wornOps eraseAns))
      (0, [.unlock offset len 0]) offset len =
        some (0, len, 0, nand.erasePass eraseAns offset len 0) :=
    eraseMedium_worn ho hl hrange hanswers
  rcases HasGood.block ⟨b, hstop⟩ with ⟨g, hg, hgood⟩
  rcases skipBad_place hwhole (hreports (0, nand.erasePass eraseAns offset len 0)) hg hgood loopBound
    offset ho (skipDist_lt_loopBound hgood.1 _) with ⟨off, hskip, hwalk, hsame⟩
  rw [← hsame] at hplace
  have hrun : ∃ t, mtdWriteLoop nand.mtd (logged (nand.wornOps eraseAns)) loopBound
      (0, nand.erasePass eraseAns offset len 0) off len (emptyFor k) 0 = some (-eio, t) ∧ t.1 = 0 ∧
        nand.RefusedAt b (nand.erasePass eraseAns offset len 0) t.2 :=
    writeLoop_refused hwhole (dvd_trans nand.writesize_dvd hl) hwalk hstop hplace hk hpage
  rcases hrun with ⟨⟨_, log⟩, hloop, rfl, o, data, hat, hlen, rfl⟩
  refine ⟨o, data, hat, hlen, ?_⟩
  have hstart : ((logged (nand.wornOps eraseAns)).unlock (0, []) offset len).1 = 0 := rfl
  have hfinish : mtdWriteMedium nand.mtd (logged (nand.wornOps eraseAns)) (0, []) offset (emptyFor k)
      len = finishWrite (logged (nand.wornOps eraseAns)) offset len
        (mtdWriteLoop nand.mtd (logged (nand.wornOps eraseAns)) loopBound
          (0, nand.erasePass eraseAns offset len 0) off len (emptyFor k) 0) :=
    writeMedium_finish (emptyFor k) (nand.isAlignedWithMinIoSize_of_block ho)
      (nand.isAlignedWithMinIoSize_of_block hl) (Or.inl hstart) herase hskip
  have hfail : -eio ≠ (0 : Int) := by decide
  rw [hfinish, hloop, finishWrite, if_pos hfail]
  simp only [logged, wornOps, List.append_assoc]
  rfl

/-- On this layer the claim holds of the call, whatever the data. -/
def WornErasesFirst (nand : Nand) (eraseAns : Nat → Int) (offset len : UInt64) : Prop :=
  ∀ buf ret len' t, mtdWriteMedium nand.mtd (logged (nand.wornOps eraseAns)) (0, []) offset buf len =
    some (ret, len', t) → nand.ErasedFirst offset len t.2

section Parts

variable (hfirst : nand.WornErasesFirst eraseAns offset len) (hwhole : nand.erasesize ∣ 2 ^ 64)
  (ho : nand.erasesize ∣ offset.toNat)
  (hl : nand.erasesize ∣ len.toNat) (hrange : offset.toNat + len.toNat ≤ nand.size)
  (hanswers : ∀ a, offset.toNat ≤ a → a < offset.toNat + len.toNat →
    eraseAns (a / nand.erasesize) = 0 ∨ eraseAns (a / nand.erasesize) = -eio)

include hfirst hwhole ho hl hrange hanswers

/-- The claim puts a block to which some page of the data goes into the range and among the erased
ones. -/
theorem erased_of_place {b k : Nat} (hblock : nand.erasesize ∣ b) (hstop : nand.Stop b)
    (hplace : nand.place offset.toNat k = some b) (hk : k < len.toNat) (hpage : nand.writesize ∣ k) :
    offset.toNat ≤ b ∧ b < offset.toNat + len.toNat ∧ eraseAns (b / nand.erasesize) = 0 := by
  have hWpos := nand.writesize_pos
  have hpos := nand.erasesize_pos
  have hdev := nand.size_lt
  rcases writeMedium_refused hwhole ho hl hrange hanswers hstop hplace hk hpage with
    ⟨o, data, rfl, hlen, hrun⟩
  rcases hfirst _ _ _ _ hrun _ o data (-eio) [.lock offset len] rfl with
    ⟨hlo, hhi, addr, herased, hstart, hend⟩
  refine ⟨hlo, by omega, ?_⟩
  -- the erase on record is the one of the block
  have hin : MtdEvent.erase addr nand.mtd.erasesize.toUInt64 0 ∈
      nand.eraseEvents eraseAns (offset.toNat / nand.erasesize) (len.toNat / nand.erasesize) := by
    rcases List.mem_cons.1 herased with h | h
    · cases h
    · exact h
  rcases List.mem_map.1 hin with ⟨i, hi, hevent⟩
  injection hevent with hat _ hanswer
  have hrange' := (List.mem_range'_1.1 hi).2
  have haddr : i * nand.erasesize = addr.toNat := by
    have hle := Nat.mul_le_mul_right nand.erasesize (Nat.succ_le_of_lt hrange')
    rw [Nat.succ_eq_add_one, Nat.add_mul i, Nat.add_mul, Nat.div_mul_cancel ho,
      Nat.div_mul_cancel hl, Nat.one_mul] at hle
    rw [← hat, UInt64.toNat_ofNat']
    exact (Nat.mod_eq_of_lt (by omega)).symm
  have hself : i = o.toNat / nand.erasesize := by
    rcases hblock with ⟨k, hk⟩
    rw [hk, Nat.mul_comm] at hstart hend ⊢
    rw [Nat.mul_div_cancel k hpos]
    rw [← haddr] at hstart hend
    have h₁ : i ≤ k := Nat.le_of_mul_le_mul_right hstart hpos
    have h₂ : k < i + 1 := by
      refine Nat.lt_of_mul_lt_mul_right (a := nand.erasesize) ?_
      rw [Nat.add_mul, Nat.one_mul]
      omega
    omega
  rwa [← hself]

/-- A good block of the range is programmed at its first page. -/
theorem erased_of_good {a : Nat} (h₁ : offset.toNat ≤ a) (h₂ : a < offset.toNat + len.toNat)
    (hgood : nand.Good a) : eraseAns (a / nand.erasesize) = 0 := by
  have hpos := nand.erasesize_pos
  have hblock : nand.erasesize ∣ a / nand.erasesize * nand.erasesize := Dvd.intro_left _ rfl
  have hle := Nat.div_mul_le_self a nand.erasesize
  have hlo : offset.toNat ≤ a / nand.erasesize * nand.erasesize := by
    rw [← Nat.div_mul_cancel ho]
    exact Nat.mul_le_mul_right _ (Nat.div_le_div_right h₁)
  have hstop : nand.Stop (a / nand.erasesize * nand.erasesize) := by
    refine ⟨by omega, ?_⟩
    rw [Nand.Good, Nat.mul_div_cancel _ hpos]
    exact hgood
  have hbefore := nand.room_add_le offset.toNat (a / nand.erasesize * nand.erasesize - offset.toNat)
    (by omega)
  rw [Nat.add_sub_cancel' hlo] at hbefore
  have herased := (erased_of_place hfirst hwhole ho hl hrange hanswers hblock hstop
    (place_of_room hblock hlo hstop) (by omega)
    (Nat.dvd_sub (dvd_room _ _ le_rfl ho) (dvd_room _ _ le_rfl hblock))).2.2
  rwa [Nat.mul_div_cancel _ hpos] at herased

/-- With a bad block in the range, the first good block behind it is programmed. -/
theorem noneBehind_of_bad (hbad : (nand.goodAddrs offset.toNat len.toNat).length < len.toNat) :
    ∀ a, offset.toNat + len.toNat ≤ a → ¬ nand.Stop a := by
  rintro a h₁ ⟨h₂, hgood⟩
  have hcount := nand.room_eq hrange
  rcases exists_first_good (Dvd.dvd.add ho hl) h₁ h₂ hgood with ⟨b, hblock, hlo, hba, hgood', hroom⟩
  have hstop : nand.Stop b := ⟨by omega, hgood'⟩
  have hin := (erased_of_place hfirst hwhole ho hl hrange hanswers hblock hstop
    (place_of_room hblock (by omega) hstop) (by omega)
    (Nat.dvd_sub (dvd_room _ _ le_rfl ho) (dvd_room _ _ le_rfl hblock))).2.1
  omega

/-- With a bad block in the range and no good one behind it, the first good block of the device is
programmed. -/
theorem noneBefore_of_bad (hbad : (nand.goodAddrs offset.toNat len.toNat).length < len.toNat)
    (hbehind : ∀ a, offset.toNat + len.toNat ≤ a → ¬ nand.Stop a) :
    ∀ a, a < offset.toNat → ¬ nand.Stop a := by
  rintro a hlt ⟨hin, hgood⟩
  have hcount := nand.room_eq hrange
  have hnone := room_to_end hbehind
  rcases exists_first_good (dvd_zero _) (Nat.zero_le a) hin hgood with
    ⟨b, hblock, _, hba, hgood', hroom⟩
  have hstop : nand.Stop b := ⟨by omega, hgood'⟩
  have hlo := (erased_of_place hfirst hwhole ho hl hrange hanswers hblock hstop
    (place_around hblock hstop hroom) (by omega) (dvd_room _ _ le_rfl ho)).1
  omega

end Parts

/-- The condition is necessary. -/
theorem condition_of_erasedFirst (hwhole : nand.erasesize ∣ 2 ^ 64)
    (hfirst : nand.WornErasesFirst eraseAns offset len) :
    nand.ErasesWhatItWrites eraseAns offset.toNat len.toNat := by
  intro ho hl hrange hanswers
  refine ⟨fun a h₁ h₂ hgood => erased_of_good hfirst hwhole ho hl hrange hanswers h₁ h₂ hgood, ?_⟩
  by_cases hall : ∀ a, offset.toNat ≤ a → a < offset.toNat + len.toNat → nand.Good a
  · exact Or.inl hall
  · have hfewer : (nand.goodAddrs offset.toNat len.toNat).length < len.toNat := by
      push Not at hall
      rcases hall with ⟨a, h₁, h₂, hbad⟩
      exact nand.length_goodAddrs_lt h₁ h₂ hbad
    have hbehind := noneBehind_of_bad hfirst hwhole ho hl hrange hanswers hfewer
    have hbefore := noneBefore_of_bad hfirst hwhole ho hl hrange hanswers hfewer hbehind
    refine Or.inr fun a hstop => ⟨?_, ?_⟩
    · exact Nat.le_of_not_lt fun h => hbefore a h hstop
    · exact Nat.lt_of_not_le fun h => hbehind a h hstop

end Necessary

/-! ## The theorem -/

/-- Whatever the data and whatever the layer does with it: what a call programs it has erased. -/
def ErasesFirst (nand : Nand) (eraseAns : Nat → Int) (offset len : UInt64) : Prop :=
  ∀ (μ : Type) (ops : MtdOps μ) (m : μ) (buf : ByteMem) (ret : Int) (len' : UInt64)
    (t : μ × List MtdEvent), nand.Answers eraseAns ops →
    mtdWriteMedium nand.mtd (logged ops) (m, []) offset buf len = some (ret, len', t) →
    nand.ErasedFirst offset len t.2

/-- For every map of bad blocks, every range and every pattern of erase answers: a call programs only
what it has unlocked and erased, if and only if its two passes agree.  The block size of a chip is a
power of two, so that blocks do not straddle the end of the address space. -/
theorem erase_before_program_iff (nand : Nand) (hwhole : nand.erasesize ∣ 2 ^ 64)
    (eraseAns : Nat → Int) (offset len : UInt64) :
    nand.ErasesFirst eraseAns offset len ↔
      nand.ErasesWhatItWrites eraseAns offset.toNat len.toNat := by
  constructor
  · intro h
    refine condition_of_erasedFirst hwhole ?_
    intro buf ret len' t hrun
    exact h Nat _ 0 buf ret len' t (answers_wornOps nand eraseAns) hrun
  · intro hcond μ ops m buf ret len' t hans hrun
    exact erasedFirst_of_condition hans hwhole hcond hrun

/-- All four blocks of a chip, the second of which is bad and cannot be erased: the data of the last
block goes around to the first one, which the call has erased. -/
theorem erase_before_program_around :
    (fourBlocks (· == 1)).ErasesFirst (fun b => if b = 1 then -eio else 0) 0 524288 := by
  refine (erase_before_program_iff (fourBlocks (· == 1)) ⟨2 ^ 47, rfl⟩ _ 0 524288).2 ?_
  intro _ _ _ _
  refine ⟨fun a _ _ hgood => if_neg ?_, Or.inr fun a hstop => ⟨Nat.zero_le a, ?_⟩⟩
  · intro hone
    rw [Nand.Good, hone] at hgood
    exact absurd hgood (by decide)
  · exact hstop.1

/-- The first block of a chip whose first block is bad: its second block takes a page, though it is
neither in the range nor was it erased. -/
theorem program_without_erase :
    ¬ (fourBlocks (· == 0)).ErasesFirst (fun b => if b = 0 then -eio else 0) 0 131072 := by
  intro h
  have hrun : mtdWriteMedium (fourBlocks (· == 0)).mtd
      (logged ((fourBlocks (· == 0)).wornOps fun b => if b = 0 then -eio else 0)) (1, []) 0
      (fun _ => 0) 131072 =
        some (-1, 131072, 0, [.unlock 0 131072 0, .erase 0 131072 (-eio),
          .program 131072 (List.replicate 2048 0) 0, .program 133120 (List.replicate 2048 0) (-eio),
          .lock 0 131072]) := by
    decide +kernel
  have hpage := h Nat _ 1 _ _ _ _ (answers_wornOps _ _) hrun
    [.unlock 0 131072 0, .erase 0 131072 (-eio)] 131072 (List.replicate 2048 0) 0 _ rfl
  have hout : ¬ (131072 : UInt64).toNat + (List.replicate 2048 (0 : UInt8)).length ≤
      (0 : UInt64).toNat + (131072 : UInt64).toNat := by
    rw [List.length_replicate]
    decide
  exact hout hpage.2.1

end Nand

end Burn
end CanmvK230
