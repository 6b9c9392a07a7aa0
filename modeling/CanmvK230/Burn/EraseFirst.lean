import CanmvK230.Burn.Complete

/-!
# EraseFirst — whether one write to a NAND chip erases what it programs

`mtd_write_medium` erases the nominal range of its data, taking `-EIO` for a bad block, and then walks
over the good blocks from the offset on.  The two passes agree on the blocks only by luck: the walk
leaves the range by as many blocks as the range has bad ones, and from the end of the device it goes on
with the first good block of the chip.

`ErasesWhatItWrites` says when they agree, for every map of bad blocks and every pattern of erase
answers; here it is shown to be enough (`erasedFirst_of_condition`).
-/

namespace CanmvK230
namespace Burn

open Lib

namespace Nand

/-! ## The chip and the property -/

/-- The MTD layer of a chip: `mtd_erase` answers for a block by `eraseAns` and refuses a block behind
the device, `mtd_block_isbad` knows the map, and a write that succeeds is a whole one inside the
device.  What the layer does otherwise, and how it answers to writes, is left open. -/
structure Answers {μ : Type} (nand : Nand) (eraseAns : Nat → Int) (ops : MtdOps μ) : Prop where
  erase : ∀ m (addr : UInt64), nand.erasesize ∣ addr.toNat → addr.toNat < nand.size →
    (ops.erase m addr nand.mtd.erasesize.toUInt64).1 = eraseAns (addr.toNat / nand.erasesize)
  erase_end : ∀ m (addr : UInt64), nand.size ≤ addr.toNat →
    (ops.erase m addr nand.mtd.erasesize.toUInt64).1 = -einval
  blockIsbad : nand.ReportsBad ops
  writeOob : ∀ m (off : UInt64) (data : List UInt8), (ops.writeOob m off data).1 = 0 →
    (ops.writeOob m off data).2.1.toNat = data.length ∧ off.toNat + data.length ≤ nand.size

/-- Each page on record that was programmed lies in the unlocked range and in a block that was erased,
with success, earlier in the same call.  A program that failed counts, as it may have changed the
page. -/
def ErasedFirst (nand : Nand) (offset len : UInt64) (log : List MtdEvent) : Prop :=
  ∀ pre off data ret post, log = pre ++ .program off data ret :: post →
    offset.toNat ≤ off.toNat ∧ off.toNat + data.length ≤ offset.toNat + len.toNat ∧
      ∃ addr : UInt64, .erase addr nand.mtd.erasesize.toUInt64 0 ∈ pre ∧
        addr.toNat ≤ off.toNat ∧ off.toNat + data.length ≤ addr.toNat + nand.erasesize

/-- When the passes agree.  Nothing is programmed unless the range is aligned and inside the device
and no erase fails fatally.  Then every good block of the range must be erased; and the range has no
bad block, or the chip has no good block outside of the range. -/
def ErasesWhatItWrites (nand : Nand) (eraseAns : Nat → Int) (offset len : Nat) : Prop :=
  nand.erasesize ∣ offset → nand.erasesize ∣ len → offset + len ≤ nand.size →
    (∀ a, offset ≤ a → a < offset + len →
      eraseAns (a / nand.erasesize) = 0 ∨ eraseAns (a / nand.erasesize) = -eio) →
    (∀ a, offset ≤ a → a < offset + len → nand.Good a → eraseAns (a / nand.erasesize) = 0) ∧
      ((∀ a, offset ≤ a → a < offset + len → nand.Good a) ∨
        ∀ a, nand.Stop a → offset ≤ a ∧ a < offset + len)

variable {μ : Type} {nand : Nand} {eraseAns : Nat → Int} {ops : MtdOps μ}

theorem Answers.reportsBad_logged (hans : nand.Answers eraseAns ops) :
    nand.ReportsBad (logged ops) :=
  fun s => hans.blockIsbad s.1

/-! ## The erase pass -/

variable (nand eraseAns) in
/-- The record of an erase pass over the `n` blocks from `block` on. -/
def eraseEvents (block n : Nat) : List MtdEvent :=
  (List.range' block n).map fun b =>
    .erase (UInt64.ofNat (b * nand.erasesize)) nand.mtd.erasesize.toUInt64 (eraseAns b)

theorem noProgram_eraseEvents (block n : Nat) : NoProgram (nand.eraseEvents eraseAns block n) := by
  intro e he off data ret
  rcases List.mem_map.1 he with ⟨b, _, rfl⟩
  exact erase_ne_program _ _ _ off data ret

/-- However the erase pass ends, it programs nothing. -/
theorem eraseLoop_noProgram (ops : MtdOps μ) (fuel : Nat) :
    ∀ (s : μ × List MtdEvent) (addr size : UInt64) (ret ret' : Int) (t : μ × List MtdEvent),
      mtdEraseLoop nand.mtd (logged ops) fuel s addr size ret = some (ret', t) →
      ∃ evs, t.2 = s.2 ++ evs ∧ NoProgram evs := by
  induction fuel with
  | zero =>
      intro s addr size ret ret' t h
      cases h
  | succ fuel ih =>
      intro s addr size ret ret' t h
      simp only [mtdEraseLoop] at h
      split at h
      · cases h
        exact ⟨[], by simp, noProgram_nil⟩
      · split at h
        · cases h
          exact ⟨_, rfl, noProgram_nil.cons (erase_ne_program _ _ _)⟩
        · rcases ih _ _ _ _ ret' t h with ⟨evs, hlog, hevs⟩
          refine ⟨.erase addr nand.mtd.erasesize.toUInt64
            (ops.erase s.1 addr nand.mtd.erasesize.toUInt64).1 :: evs, ?_,
            hevs.cons (erase_ne_program _ _ _)⟩
          rw [hlog]
          exact List.append_assoc _ [_] evs

/-- An erase pass that ends without a fatal error has asked every block of the range, all of which
lie in the device. -/
theorem eraseLoop_log (hans : nand.Answers eraseAns ops) (n : Nat) :
    ∀ (m : μ) (log : List MtdEvent) (addr size : UInt64) (ret : Int) (fuel : Nat) (ret' : Int)
      (t : μ × List MtdEvent), nand.erasesize ∣ addr.toNat → size.toNat = n * nand.erasesize →
      mtdEraseLoop nand.mtd (logged ops) fuel (m, log) addr size ret = some (ret', t) →
      (ret' = 0 ∨ ret' = -eio) →
      t.2 = log ++ nand.eraseEvents eraseAns (addr.toNat / nand.erasesize) n ∧
        ∀ i < n, addr.toNat + i * nand.erasesize < nand.size ∧
          (eraseAns (addr.toNat / nand.erasesize + i) = 0 ∨
            eraseAns (addr.toNat / nand.erasesize + i) = -eio) := by
  have hpos := nand.erasesize_pos
  have hdev := nand.size_lt
  induction n with
  | zero =>
      intro m log addr size ret fuel ret' t _ hsize h _
      have hzero : size = 0 := UInt64.toNat_inj.1 (by simpa using hsize)
      cases fuel with
      | zero => cases h
      | succ fuel =>
          simp only [mtdEraseLoop, hzero, if_true] at h
          cases h
          exact ⟨by simp [eraseEvents], fun i hi => absurd hi (Nat.not_lt_zero i)⟩
  | succ n ih =>
      intro m log addr size ret fuel ret' t haddr hsize h hret
      rcases Nand.first_unit nand.erasesize_pos hsize with ⟨hne, hblock⟩
      cases fuel with
      | zero => cases h
      | succ fuel =>
          simp only [mtdEraseLoop, if_neg hne] at h
          by_cases hlt : addr.toNat < nand.size
          · have hanswer : ((logged ops).erase (m, log) addr nand.mtd.erasesize.toUInt64).1 =
                eraseAns (addr.toNat / nand.erasesize) := hans.erase m addr haddr hlt
            split at h
            · -- a fatal answer is the result of the loop
              rename_i hfatal
              cases h
              exact absurd hfatal (not_fatal hret)
            · rename_i hgo
              have hgo' : eraseAns (addr.toNat / nand.erasesize) = 0 ∨
                  eraseAns (addr.toNat / nand.erasesize) = -eio := by
                rw [hanswer] at hgo
                exact fatal_or _ hgo
              rcases nand.next_block addr hblock (by have := nand.block_le haddr hlt; omega) with
                ⟨haddr', hsize'⟩
              have hnext : (addr.toNat + nand.erasesize) / nand.erasesize =
                  addr.toNat / nand.erasesize + 1 := Nat.add_div_right _ hpos
              rcases ih _ _ _ _ _ fuel ret' t (by rw [haddr']; exact Dvd.dvd.add haddr (dvd_refl _))
                hsize' h hret with ⟨hlog, hall⟩
              rw [haddr', hnext] at hlog hall
              constructor
              · have hself : UInt64.ofNat (addr.toNat / nand.erasesize * nand.erasesize) = addr := by
                  rw [Nat.div_mul_cancel haddr, UInt64.ofNat_toNat]
                rw [hlog]
                simp only [eraseEvents, List.range'_succ, List.map_cons, hself,
                  hans.erase m addr haddr hlt, List.append_assoc]
                rfl
              · intro i hi
                cases i with
                | zero => exact ⟨by simpa using hlt, hgo'⟩
                | succ i =>
                    rcases hall i (by omega) with ⟨hin, hanswer'⟩
                    constructor
                    · rw [Nat.add_mul, Nat.one_mul]
                      omega
                    · rwa [show addr.toNat / nand.erasesize + (i + 1) =
                        addr.toNat / nand.erasesize + 1 + i by omega]
          · -- behind the device the request is refused
            exfalso
            have hrefused : ((logged ops).erase (m, log) addr nand.mtd.erasesize.toUInt64).1 = -einval :=
              hans.erase_end m addr (by omega)
            rw [if_pos (by rw [hrefused]; decide)] at h
            have hret' : -einval = ret' := hrefused.symm.trans (congrArg Prod.fst (Option.some.inj h))
            rw [← hret'] at hret
            exact absurd hret (by decide)

/-! ## The walk -/

/-- A record of whole pages at positions that are `Ok`. -/
def ProgramsAt (nand : Nand) (Ok : Nat → Prop) (evs : List MtdEvent) : Prop :=
  ∀ e ∈ evs, ∃ (off : UInt64) (data : List UInt8) (ret : Int), e = .program off data ret ∧
    data.length = nand.writesize ∧ Ok off.toNat

theorem programsAt_snoc {Ok : Nat → Prop} {off : UInt64} {data : List UInt8} {ret : Int}
    {evs : List MtdEvent} (hlen : data.length = nand.writesize) (hok : Ok off.toNat)
    (hevs : nand.ProgramsAt Ok evs) : nand.ProgramsAt Ok (evs ++ [.program off data ret]) := by
  intro e he
  rcases List.mem_append.1 he with he | he
  · exact hevs e he
  · exact ⟨off, data, ret, List.mem_singleton.1 he, hlen, hok⟩

/-- A page of the walk: a byte of the data goes to its start. -/
def PageOf (nand : Nand) (offset len off : Nat) : Prop :=
  nand.writesize ∣ off ∧ nand.Stop off ∧ ∃ j < len, nand.place offset j = some off

/-- The write pass programs pages of its walk only. -/
theorem writePass_log (hans : nand.Answers eraseAns ops) (hwhole : nand.erasesize ∣ 2 ^ 64)
    {s t : μ × List MtdEvent} {offset len off : UInt64} {buf : ByteMem} {ret ret' : Int}
    (ho : nand.erasesize ∣ offset.toNat) (hl : nand.erasesize ∣ len.toNat)
    (hskip : mtdSkipBad nand.mtd (logged ops) loopBound s offset = some off)
    (hloop : mtdWriteLoop nand.mtd (logged ops) loopBound s off len buf ret = some (ret', t)) :
    ∃ evs, t.2 = s.2 ++ evs ∧ nand.ProgramsAt (nand.PageOf offset.toNat len.toNat) evs := by
  have hWpos := nand.writesize_pos
  have hreports := hans.reportsBad_logged
  -- the search for the first good block has found one
  rcases HasGood.block ⟨_, stop_of_skipBad hwhole (hreports s) loopBound ho hskip⟩ with ⟨g, hg, hgood⟩
  rcases skipBad_place hwhole (hreports s) hg hgood loopBound offset ho
    (skipDist_lt_loopBound hgood.1 _) with ⟨off', hskip', hwalk, hplace⟩
  rw [hskip] at hskip'
  cases hskip'
  have hrun : ∃ r u, mtdWriteLoop nand.mtd (logged ops) loopBound s off len buf ret = some (r, u) ∧
      ∃ evs, u.2 = s.2 ++ evs ∧ nand.ProgramsAt (nand.PageOf offset.toNat len.toNat) evs := by
    -- from each position of the walk the rest of the data goes where it would from the offset
    refine writeLoop_total hwhole ⟨g, hgood⟩ (dvd_trans nand.writesize_dvd hl)
      (J := fun off j _ u => (∃ evs, u.2 = s.2 ++ evs ∧
        nand.ProgramsAt (nand.PageOf offset.toNat len.toNat) evs) ∧
        ∀ i, nand.place off i = nand.place offset.toNat (j + i))
      (R := fun _ u => ∃ evs, u.2 = s.2 ++ evs ∧
        nand.ProgramsAt (nand.PageOf offset.toNat len.toNat) evs)
      (fun _ _ _ u _ => hreports u) ?_ ?_ (fun _ _ _ hJ => hJ.1) hwalk rfl
      ⟨⟨[], (List.append_nil s.2).symm, by simp [ProgramsAt]⟩,
        fun i => by rw [hplace, Nat.zero_add]⟩
    · rintro off j _ u ⟨hevs, hrest⟩ hoff hblock hbad
      exact ⟨hevs, fun i => by rw [place_skip hwhole hoff hblock hbad, hrest]⟩
    · rintro off j _ u ⟨⟨evs, hlog, hevs⟩, hrest⟩ hpage hstop _ hfit
      have hlen := ByteMem.length_read buf j nand.writesize
      rcases place_page hpage hstop with ⟨hhere, hbehind⟩
      have hnext : ∀ i, nand.place (off.toNat + nand.writesize) i =
          nand.place offset.toNat (j + nand.writesize + i) := fun i => by
        rw [← hbehind, hrest, Nat.add_assoc]
      have hok : nand.PageOf offset.toNat len.toNat off.toNat :=
        ⟨hpage, hstop, j, by omega, by rw [← hhere, hrest, Nat.add_zero]⟩
      have hcall : ∃ evs, u.2 ++ [MtdEvent.program off (buf.read j nand.writesize)
          (ops.writeOob u.1 off (buf.read j nand.writesize)).1] = s.2 ++ evs ∧
            nand.ProgramsAt (nand.PageOf offset.toNat len.toNat) evs :=
        ⟨_, by rw [hlog, List.append_assoc], programsAt_snoc hlen hok hevs⟩
      dsimp only
      rw [writePage]
      split
      · rw [if_neg (not_not.2 rfl)]
        exact ⟨nand.toNat_writesize, ⟨evs, hlog, hevs⟩, hnext⟩
      · split
        · exact hcall
        · rename_i hret
          have hretlen := (hans.writeOob u.1 off _ (not_not.1 hret)).1
          rw [hlen] at hretlen
          exact ⟨hretlen, hcall, hnext⟩
  rcases hrun with ⟨r, u, hrun, hevs⟩
  rw [hloop] at hrun
  cases hrun
  exact hevs

/-- The record in front of the write pass. -/
def erasePass (nand : Nand) (eraseAns : Nat → Int) (offset len : UInt64) (ret : Int) : List MtdEvent :=
  .unlock offset len ret ::
    nand.eraseEvents eraseAns (offset.toNat / nand.erasesize) (len.toNat / nand.erasesize)

theorem noProgram_erasePass (offset len : UInt64) (ret : Int) :
    NoProgram (nand.erasePass eraseAns offset len ret) :=
  (noProgram_eraseEvents _ _).cons (unlock_ne_program _ _ _)

/-- The record of the erase pass, and what its success means. -/
theorem eraseMedium_log (hans : nand.Answers eraseAns ops) {m : μ} {log : List MtdEvent}
    {offset len : UInt64} {ret : Int} {len' : UInt64} {t : μ × List MtdEvent}
    (h : mtdEraseMedium nand.mtd (logged ops) (m, log) offset len = some (ret, len', t)) :
    ∃ evs, t.2 = log ++ evs ∧ NoProgram evs ∧
      (ret = 0 → nand.erasesize ∣ offset.toNat ∧ nand.erasesize ∣ len.toNat ∧
        (∀ i < len.toNat / nand.erasesize, offset.toNat + i * nand.erasesize < nand.size ∧
          (eraseAns (offset.toNat / nand.erasesize + i) = 0 ∨
            eraseAns (offset.toNat / nand.erasesize + i) = -eio)) ∧
        evs = nand.eraseEvents eraseAns (offset.toNat / nand.erasesize)
          (len.toNat / nand.erasesize)) := by
  unfold mtdEraseMedium at h
  split at h
  · cases h
    exact ⟨[], by simp, noProgram_nil, fun h0 => absurd h0 (by decide)⟩
  · rename_i ho
    split at h
    · cases h
      exact ⟨[], by simp, noProgram_nil, fun h0 => absurd h0 (by decide)⟩
    · rename_i hl
      have ho' := (nand.isAlignedWithBlockSize_iff offset).1 (Bool.not_eq_false _ ▸ ho)
      have hl' := (nand.isAlignedWithBlockSize_iff len).1 (Bool.not_eq_false _ ▸ hl)
      split at h
      · cases h
      · rename_i r m₁ hloop
        rcases eraseLoop_noProgram ops _ _ _ _ _ _ _ hloop with ⟨evs, hlog, hevs⟩
        split at h
        · cases h
          exact ⟨evs, hlog, hevs, fun h0 => absurd h0 (by decide)⟩
        · rename_i hgo
          cases h
          refine ⟨evs, hlog, hevs, fun _ => ⟨ho', hl', ?_⟩⟩
          have hret : r = 0 ∨ r = -eio := fatal_or r hgo
          rcases eraseLoop_log hans (len.toNat / nand.erasesize) _ _ _ _ _ _ _ _ ho'
            (Nat.div_mul_cancel hl').symm hloop hret with ⟨hlog', hall⟩
          exact ⟨hall, List.append_cancel_left (hlog.symm.trans hlog')⟩

/-- A call that returns has programmed nothing, or its record is that of the erase pass, of the write
pass and of the final lock. -/
theorem writeMedium_log (hans : nand.Answers eraseAns ops) {m : μ} {offset len : UInt64}
    {buf : ByteMem} {ret : Int} {len' : UInt64} {t : μ × List MtdEvent}
    (h : mtdWriteMedium nand.mtd (logged ops) (m, []) offset buf len = some (ret, len', t)) :
    NoProgram t.2 ∨
      (nand.erasesize ∣ offset.toNat ∧ nand.erasesize ∣ len.toNat ∧
        (∀ i < len.toNat / nand.erasesize, offset.toNat + i * nand.erasesize < nand.size ∧
          (eraseAns (offset.toNat / nand.erasesize + i) = 0 ∨
            eraseAns (offset.toNat / nand.erasesize + i) = -eio)) ∧
        ∃ r m₁ off ret' t₁,
          mtdSkipBad nand.mtd (logged ops) loopBound (m₁, nand.erasePass eraseAns offset len r) offset =
            some off ∧
          mtdWriteLoop nand.mtd (logged ops) loopBound (m₁, nand.erasePass eraseAns offset len r) off len
            buf r = some (ret', t₁) ∧
          t.2 = t₁.2 ++ [.lock offset len]) := by
  cases writeReturns_of_eq h with
  | unaligned => exact Or.inl noProgram_nil
  | locked hret hlock => exact Or.inl (noProgram_nil.cons (unlock_ne_program _ _ _))
  | notErased herase hret =>
      left
      rcases eraseMedium_log hans herase with ⟨evs, hlog, hevs, _⟩
      simp only [logged, hlog, List.nil_append]
      exact (hevs.cons (unlock_ne_program _ _ _)).append (noProgram_nil.cons (lock_ne_program _ _))
  | @written _ off m₁ t₁ r _ herase hskip hloop hret =>
      right
      rcases eraseMedium_log hans herase with ⟨evs, hlog, _, hzero⟩
      rcases hzero rfl with ⟨ho, hl, hall, rfl⟩
      have hstate : m₁ = (m₁.1, nand.erasePass eraseAns offset len (ops.unlock m offset len).1) :=
        Prod.ext rfl hlog
      rw [hstate] at hskip hloop
      exact ⟨ho, hl, hall, (ops.unlock m offset len).1, m₁.1, off, r, t₁, hskip, hloop, rfl⟩

/-! ## What the record shows -/

/-- A good page of the range. -/
def GoodPage (nand : Nand) (offset len off : Nat) : Prop :=
  nand.writesize ∣ off ∧ offset ≤ off ∧ off < offset + len ∧ nand.Good off

/-- A program stands behind a part of the record that programs nothing. -/
theorem program_behind {pass rest pre post : List MtdEvent} {off : UInt64} {data : List UInt8}
    {ret : Int} (hpass : NoProgram pass)
    (h : pass ++ rest = pre ++ .program off data ret :: post) :
    pass <+: pre ∧ .program off data ret ∈ rest := by
  rcases List.append_eq_append_iff.1 h with ⟨x, hpre, hrest⟩ | ⟨x, hpre, hrest⟩
  · refine ⟨⟨x, hpre.symm⟩, ?_⟩
    rw [hrest]
    simp
  · cases x with
    | nil =>
        refine ⟨⟨[], by simpa using hpre⟩, ?_⟩
        rw [List.nil_append] at hrest
        rw [← hrest]
        simp
    | cons e x =>
        have he : .program off data ret = e := (List.cons.inj hrest).1
        refine absurd he.symm (hpass e ?_ off data ret)
        rw [hpre]
        simp

/-- A write pass that programs good pages of the range only has programmed what was erased. -/
theorem erasedFirst_of_goodPages {offset len : UInt64} {ret : Int} {evs : List MtdEvent}
    (ho : nand.erasesize ∣ offset.toNat) (hl : nand.erasesize ∣ len.toNat)
    (hrange : offset.toNat + len.toNat ≤ nand.size)
    (hgood : ∀ a, offset.toNat ≤ a → a < offset.toNat + len.toNat → nand.Good a →
      eraseAns (a / nand.erasesize) = 0)
    (hevs : nand.ProgramsAt (nand.GoodPage offset.toNat len.toNat) evs) :
    nand.ErasedFirst offset len
      (nand.erasePass eraseAns offset len ret ++ (evs ++ [.lock offset len])) := by
  have hpos := nand.erasesize_pos
  have hdev := nand.size_lt
  intro pre off data r post hsplit
  rcases program_behind (noProgram_erasePass offset len ret) hsplit with ⟨hpass, hin⟩
  have hmem : MtdEvent.program off data r ∈ evs := by
    rcases List.mem_append.1 hin with hin | hin
    · exact hin
    · exact absurd (List.mem_singleton.1 hin).symm (lock_ne_program _ _ _ _ _)
  rcases hevs _ hmem with ⟨off', data', r', heq, hlen, hdvd, hlo, hhi, hgoodoff⟩
  cases heq
  -- the block of the page
  have hlast := nand.page_block hdvd (j := nand.writesize - 1) (by have := nand.writesize_pos; omega)
  have hdiv := Nat.div_add_mod (off.toNat + (nand.writesize - 1)) nand.erasesize
  have hmod := Nat.mod_lt (off.toNat + (nand.writesize - 1)) hpos
  have hstart := Nat.div_mul_le_self off.toNat nand.erasesize
  have hwpos := nand.writesize_pos
  rw [hlast, Nat.mul_comm] at hdiv
  have hblock : offset.toNat / nand.erasesize ≤ off.toNat / nand.erasesize ∧
      off.toNat / nand.erasesize <
        offset.toNat / nand.erasesize + len.toNat / nand.erasesize := by
    refine ⟨Nat.div_le_div_right hlo, ?_⟩
    rw [Nat.div_lt_iff_lt_mul hpos, Nat.add_mul, Nat.div_mul_cancel ho, Nat.div_mul_cancel hl]
    exact hhi
  have hend : (off.toNat / nand.erasesize + 1) * nand.erasesize ≤ offset.toNat + len.toNat := by
    have hle := Nat.mul_le_mul_right nand.erasesize hblock.2
    rw [Nat.succ_eq_add_one, Nat.add_mul (offset.toNat / nand.erasesize), Nat.div_mul_cancel ho,
      Nat.div_mul_cancel hl] at hle
    exact hle
  rw [Nat.add_mul, Nat.one_mul] at hend
  have haddr : (UInt64.ofNat (off.toNat / nand.erasesize * nand.erasesize)).toNat =
      off.toNat / nand.erasesize * nand.erasesize := by
    rw [UInt64.toNat_ofNat']
    exact Nat.mod_eq_of_lt (by omega)
  refine ⟨hlo, by omega, UInt64.ofNat (off.toNat / nand.erasesize * nand.erasesize), ?_, ?_, ?_⟩
  · refine hpass.subset (List.mem_cons_of_mem _ (List.mem_map.2 ⟨off.toNat / nand.erasesize, ?_, ?_⟩))
    · exact List.mem_range'_1.2 hblock
    · rw [hgood off.toNat hlo hhi hgoodoff]
  · rw [haddr]
    exact hstart
  · rw [haddr]
    omega

/-! ## Two ways to stay in the range -/

section Sufficient

variable {m : μ} {log : List MtdEvent} {offset len : UInt64} {buf : ByteMem} {ret : Int}
  {t : μ × List MtdEvent}

/-- Without a bad block in the range the walk ends with the range, and a chip whose good blocks all lie
in the range has no other pages. -/
theorem goodPage_of_pageOf {offset len off : Nat} (hrange : offset + len ≤ nand.size)
    (hcases : (∀ a, offset ≤ a → a < offset + len → nand.Good a) ∨
      ∀ a, nand.Stop a → offset ≤ a ∧ a < offset + len) (h : nand.PageOf offset len off) :
    nand.GoodPage offset len off := by
  rcases h with ⟨hpage, hstop, j, hj, hplace⟩
  rcases hcases with hgood | hinside
  · rw [place_of_good hrange hgood hj] at hplace
    cases hplace
    exact ⟨hpage, by omega, by omega, hstop.2⟩
  · rcases hinside off hstop with ⟨hlo, hhi⟩
    exact ⟨hpage, hlo, hhi, hstop.2⟩

theorem erasedFirst_of_noProgram (h : NoProgram log) : nand.ErasedFirst offset len log := by
  intro pre off data ret post hsplit
  refine absurd rfl (h (.program off data ret) ?_ off data ret)
  rw [hsplit]
  simp

/-- The condition is enough. -/
theorem erasedFirst_of_condition (hans : nand.Answers eraseAns ops) (hwhole : nand.erasesize ∣ 2 ^ 64)
    (hcond : nand.ErasesWhatItWrites eraseAns offset.toNat len.toNat) {len' : UInt64}
    (h : mtdWriteMedium nand.mtd (logged ops) (m, []) offset buf len = some (ret, len', t)) :
    nand.ErasedFirst offset len t.2 := by
  have hpos := nand.erasesize_pos
  rcases writeMedium_log hans h with hnone | ⟨ho, hl, hall, r, m₁, off, ret', t₁, hskip, hloop, hlog⟩
  · exact erasedFirst_of_noProgram hnone
  by_cases hne : len = 0
  · -- nothing to write
    have hstate : t₁.2 = nand.erasePass eraseAns offset len r := by
      rcases exists_loopBound with ⟨fuel, hfuel⟩
      rw [hfuel] at hloop
      simp only [mtdWriteLoop, if_pos hne] at hloop
      cases hloop
      rfl
    refine erasedFirst_of_noProgram ?_
    rw [hlog, hstate]
    exact (noProgram_erasePass offset len r).append (noProgram_nil.cons (lock_ne_program _ _))
  have hlen := toNat_pos_of_ne_zero hne
  have hblocks : len.toNat / nand.erasesize * nand.erasesize = len.toNat := Nat.div_mul_cancel hl
  have hfirst : offset.toNat / nand.erasesize * nand.erasesize = offset.toNat :=
    Nat.div_mul_cancel ho
  -- the last block of the range lies in the device
  have hrange : offset.toNat + len.toNat ≤ nand.size := by
    have hcount : 0 < len.toNat / nand.erasesize := by
      refine Nat.pos_of_ne_zero fun h0 => ?_
      rw [h0, Nat.zero_mul] at hblocks
      omega
    have hlast := (hall (len.toNat / nand.erasesize - 1) (by omega)).1
    have hfit := nand.block_le (Dvd.dvd.add ho (Dvd.intro_left _ rfl)) hlast
    rw [Nat.sub_mul, Nat.one_mul] at hfit
    have hone : nand.erasesize ≤ len.toNat := Nat.le_of_dvd hlen hl
    omega
  have hanswers : ∀ a, offset.toNat ≤ a → a < offset.toNat + len.toNat →
      eraseAns (a / nand.erasesize) = 0 ∨ eraseAns (a / nand.erasesize) = -eio := by
    intro a h₁ h₂
    have hlo : offset.toNat / nand.erasesize ≤ a / nand.erasesize := Nat.div_le_div_right h₁
    have hhi : a / nand.erasesize < offset.toNat / nand.erasesize + len.toNat / nand.erasesize := by
      rw [Nat.div_lt_iff_lt_mul hpos, Nat.add_mul, hfirst, hblocks]
      exact h₂
    have hblock := (hall (a / nand.erasesize - offset.toNat / nand.erasesize) (by omega)).2
    rwa [Nat.add_sub_cancel' hlo] at hblock
  rcases hcond ho hl hrange hanswers with ⟨hgood, hcases⟩
  rcases writePass_log hans hwhole ho hl hskip hloop with ⟨evs, hevs, hprograms⟩
  rw [hlog, hevs, List.append_assoc]
  refine erasedFirst_of_goodPages ho hl hrange hgood ?_
  intro e he
  rcases hprograms e he with ⟨off, data, r, rfl, hlength, hpage⟩
  exact ⟨off, data, r, rfl, hlength, goodPage_of_pageOf hrange hcases hpage⟩

end Sufficient

end Nand

end Burn
end CanmvK230
