import CanmvK230.Burn.NandBurn

/-!
# MtdLog — one write to a NAND chip, call by call

The MTD calls of `kburn_mtd.c` are recorded by an instrumented copy of the layer below (`logged`).
Two results are about one call of `mtd_write_medium`:

* `relocked_of_returns`: whatever the layer answers, a call that got past `mtd_unlock` ends with
  `mtd_lock` on the same range;
* `nand_write_exact`: on a chip that works (`Works`), a range of whole good blocks is stored, each of
  its pages is programmed at most once, and nothing else changes.
-/

namespace CanmvK230
namespace Burn

open Lib

/-! ## The record -/

inductive MtdEvent
  | unlock (ofs len : UInt64) (ret : Int)
  | lock (ofs len : UInt64)
  | erase (addr len : UInt64) (ret : Int)
  | program (off : UInt64) (data : List UInt8) (ret : Int)
  deriving DecidableEq, Repr

/-- The layer `ops` with every call that can change the device on record. -/
def logged {μ : Type} (ops : MtdOps μ) : MtdOps (μ × List MtdEvent) where
  erase s addr len :=
    let r := ops.erase s.1 addr len
    (r.1, r.2, s.2 ++ [.erase addr len r.1])
  blockIsbad s ofs := ops.blockIsbad s.1 ofs
  writeOob s off data :=
    let r := ops.writeOob s.1 off data
    (r.1, r.2.1, r.2.2, s.2 ++ [.program off data r.1])
  unlock s ofs len :=
    let r := ops.unlock s.1 ofs len
    (r.1, r.2, s.2 ++ [.unlock ofs len r.1])
  lock s ofs len := (ops.lock s.1 ofs len, s.2 ++ [.lock ofs len])

/-- `mtd_unlock` did what it was asked, or the device has no lock. -/
def Unlocked (ret : Int) : Prop :=
  ret = 0 ∨ ret = -eopnotsupp

section Lock

variable {μ : Type}

/-- A call that unlocks its range at first and locks it again at last. -/
def LocksAgain (offset len : UInt64) (log : List MtdEvent) : Prop :=
  ∃ ret calls, Unlocked ret ∧ log = .unlock offset len ret :: (calls ++ [.lock offset len])

/-- How a call that returns can end: before `mtd_unlock`, because of it, or with `mtd_lock` on the
range that was unlocked. -/
def Relocked (offset len : UInt64) (log : List MtdEvent) : Prop :=
  log = [] ∨ (∃ ret, ¬ Unlocked ret ∧ log = [.unlock offset len ret]) ∨ LocksAgain offset len log

/-- What the erase loop has done is on record behind what was there. -/
theorem eraseLoop_grows (mtd : MtdInfo) (ops : MtdOps μ) (fuel : Nat) :
    ∀ {s t : μ × List MtdEvent} {addr size : UInt64} {ret ret' : Int},
      mtdEraseLoop mtd (logged ops) fuel s addr size ret = some (ret', t) →
      ∃ calls, t.2 = s.2 ++ calls := by
  induction fuel with
  | zero =>
      intro s t addr size ret ret' h
      cases h
  | succ fuel ih =>
      intro s t addr size ret ret' h
      simp only [mtdEraseLoop] at h
      split at h
      · cases h
        exact ⟨[], (List.append_nil _).symm⟩
      · split at h
        · cases h
          exact ⟨_, rfl⟩
        · rcases ih h with ⟨calls, hlog⟩
          exact ⟨_ :: calls, hlog.trans (List.append_assoc _ [_] calls)⟩

theorem eraseMedium_grows (mtd : MtdInfo) (ops : MtdOps μ) {s t : μ × List MtdEvent}
    {offset len len' : UInt64} {ret : Int}
    (h : mtdEraseMedium mtd (logged ops) s offset len = some (ret, len', t)) :
    ∃ calls, t.2 = s.2 ++ calls := by
  have hnothing : ∃ calls, s.2 = s.2 ++ calls := ⟨[], (List.append_nil _).symm⟩
  unfold mtdEraseMedium at h
  split at h
  · cases h
    exact hnothing
  · split at h
    · cases h
      exact hnothing
    · split at h
      · cases h
      · rename_i hloop
        split at h
        · cases h
          exact eraseLoop_grows mtd ops loopBound hloop
        · cases h
          exact eraseLoop_grows mtd ops loopBound hloop

/-- And so is what the write loop has done. -/
theorem writeLoop_grows (mtd : MtdInfo) (ops : MtdOps μ) (fuel : Nat) :
    ∀ {s t : μ × List MtdEvent} {off remaining : UInt64} {datbuf : ByteMem} {ret ret' : Int},
      mtdWriteLoop mtd (logged ops) fuel s off remaining datbuf ret = some (ret', t) →
      ∃ calls, t.2 = s.2 ++ calls := by
  induction fuel with
  | zero =>
      intro s t off remaining datbuf ret ret' h
      cases h
  | succ fuel ih =>
      intro s t off remaining datbuf ret ret' h
      simp only [mtdWriteLoop] at h
      split at h
      · cases h
        exact ⟨[], (List.append_nil _).symm⟩
      · split at h
        · exact ih h
        · by_cases hempty : mtd.hasPages = true ∧
              mtdPageIsEmpty (datbuf.read 0 (ioLen mtd remaining).toNat) = true
          · simp only [if_pos hempty, ne_eq, not_true_eq_false, if_false] at h
            exact ih h
          · simp only [if_neg hempty] at h
            split at h
            · cases h
              exact ⟨_, rfl⟩
            · rcases ih h with ⟨calls, hlog⟩
              exact ⟨_ :: calls, hlog.trans (List.append_assoc _ [_] calls)⟩

theorem unlocked_of_go {ret : Int} (h : ¬ (ret ≠ 0 ∧ ret ≠ -eopnotsupp)) : Unlocked ret := by
  by_cases hzero : ret = 0
  · exact Or.inl hzero
  · exact Or.inr (not_not.1 fun hno => h ⟨hzero, hno⟩)

variable {ops : MtdOps μ} {m : μ} {offset len len' : UInt64} {buf : ByteMem} {ret : Int}
  {t : μ × List MtdEvent} {mtd : MtdInfo}

theorem ends_of_returns
    (h : mtdWriteMedium mtd (logged ops) (m, []) offset buf len = some (ret, len', t)) :
    (¬ (mtdIsAlignedWithMinIoSize mtd offset = true ∧ mtdIsAlignedWithMinIoSize mtd len = true) ∧
        t.2 = []) ∨
      (¬ Unlocked (ops.unlock m offset len).1 ∧
        t.2 = [.unlock offset len (ops.unlock m offset len).1]) ∨
      LocksAgain offset len t.2 := by
  cases writeReturns_of_eq h with
  | unaligned halign => exact Or.inl ⟨halign, rfl⟩
  | locked hret hlock =>
      refine Or.inr (Or.inl ⟨?_, rfl⟩)
      rintro (h | h)
      · exact hret h
      · exact hlock h
  | @notErased _ _ m₁ herase hret hgo =>
      rcases eraseMedium_grows mtd ops herase with ⟨calls, hlog⟩
      refine Or.inr (Or.inr ⟨_, calls, unlocked_of_go hgo, ?_⟩)
      change m₁.2 ++ [.lock offset len] = _
      rw [hlog]
      rfl
  | @written _ _ m₁ m₂ _ _ herase hskip hloop hret hgo =>
      rcases eraseMedium_grows mtd ops herase with ⟨calls, hlog⟩
      rcases writeLoop_grows mtd ops loopBound hloop with ⟨calls', hlog'⟩
      refine Or.inr (Or.inr ⟨_, calls ++ calls', unlocked_of_go hgo, ?_⟩)
      change m₂.2 ++ [.lock offset len] = _
      rw [hlog', hlog]
      simp only [logged, List.nil_append, List.append_assoc, List.cons_append]

/-- Whatever the layer answers: behind an `mtd_unlock` that lets the call go on, the last thing the
call does is to lock the same range. -/
theorem relocked_of_returns
    (h : mtdWriteMedium mtd (logged ops) (m, []) offset buf len = some (ret, len', t)) :
    Relocked offset len t.2 := by
  rcases ends_of_returns h with ⟨_, hlog⟩ | ⟨hno, hlog⟩ | hlocks
  · exact Or.inl hlog
  · exact Or.inr (Or.inl ⟨_, hno, hlog⟩)
  · exact Or.inr (Or.inr hlocks)

/-- So does a call for whole pages whose range is unlocked. -/
theorem locksAgain_of_returns (ho : mtdIsAlignedWithMinIoSize mtd offset = true)
    (hl : mtdIsAlignedWithMinIoSize mtd len = true) (hunlock : Unlocked (ops.unlock m offset len).1)
    (h : mtdWriteMedium mtd (logged ops) (m, []) offset buf len = some (ret, len', t)) :
    LocksAgain offset len t.2 := by
  rcases ends_of_returns h with ⟨hno, _⟩ | ⟨hno, _⟩ | hlocks
  · exact absurd ⟨ho, hl⟩ hno
  · exact absurd hunlock hno
  · exact hlocks

/-- How a call ends, from what its write loop has returned. -/
def finishWrite (ops : MtdOps μ) (offset len : UInt64) :
    Option (Int × μ) → Option (Int × UInt64 × μ)
  | none => none
  | some (ret, m) =>
      if ret ≠ 0 then
        some (-1, len, ops.lock m offset len)
      else
        some (0, len, ops.lock m offset len)

/-- `mtd_write_medium`, once its range is unlocked and erased and the first good block is found. -/
theorem writeMedium_finish {mtd : MtdInfo} {ops : MtdOps μ} {m m₁ : μ} {offset len off : UInt64}
    (buf : ByteMem) (ho : mtdIsAlignedWithMinIoSize mtd offset = true)
    (hl : mtdIsAlignedWithMinIoSize mtd len = true) (hunlock : Unlocked (ops.unlock m offset len).1)
    (herase : mtdEraseMedium mtd ops (ops.unlock m offset len).2 offset len = some (0, len, m₁))
    (hskip : mtdSkipBad mtd ops loopBound m₁ offset = some off) :
    mtdWriteMedium mtd ops m offset buf len =
      finishWrite ops offset len
        (mtdWriteLoop mtd ops loopBound m₁ off len buf (ops.unlock m offset len).1) := by
  have hgo : ¬ ((ops.unlock m offset len).1 ≠ 0 ∧ (ops.unlock m offset len).1 ≠ -eopnotsupp) := by
    rintro ⟨h₁, h₂⟩
    rcases hunlock with h | h
    · exact h₁ h
    · exact h₂ h
  cases hloop : mtdWriteLoop mtd ops loopBound m₁ off len buf (ops.unlock m offset len).1 with
  | none =>
      simp only [mtdWriteMedium, ho, hl, Bool.true_eq_false, if_false, if_neg hgo, herase, ne_eq,
        not_true_eq_false, hskip, hloop, finishWrite]
  | some p =>
      rcases p with ⟨ret, m₂⟩
      simp only [mtdWriteMedium, ho, hl, Bool.true_eq_false, if_false, if_neg hgo, herase, ne_eq,
        not_true_eq_false, hskip, hloop, finishWrite]

end Lock

/-! ## A chip that works -/

namespace Nand

variable (nand : Nand)

/-- The MTD layer of a chip of this geometry and with these bad blocks, on which no erase and no
program of a good block fails; unlocking succeeds or is not supported, and leaves the data alone. -/
structure Works (ops : MtdOps ByteMem) : Prop where
  erase : ∀ m (addr : UInt64), nand.erasesize ∣ addr.toNat → addr.toNat < nand.size →
    nand.Good addr.toNat →
    ops.erase m addr nand.mtd.erasesize.toUInt64 =
      (0, m.fill addr.toNat nand.erasesize 0xff)
  blockIsbad : ∀ m (ofs : UInt64), ofs.toNat < nand.size →
    (ops.blockIsbad m ofs = 0 ↔ nand.Good ofs.toNat)
  writeOob : ∀ m (off : UInt64) (data : List UInt8), nand.writesize ∣ off.toNat →
    data.length = nand.writesize → off.toNat + nand.writesize ≤ nand.size → nand.Good off.toNat →
    ops.writeOob m off data = (0, nand.mtd.writesize.toUInt64, program m off.toNat data)
  unlock : ∀ m ofs len, Unlocked (ops.unlock m ofs len).1 ∧ (ops.unlock m ofs len).2 = m
  lock : ∀ m ofs len, ops.lock m ofs len = m

variable {nand} {ops : MtdOps ByteMem}

theorem fill_add (m : ByteMem) (off k len : Nat) (b : UInt8) :
    (m.fill off k b).fill (off + k) len b = m.fill off (k + len) b := by
  funext a
  simp only [ByteMem.fill]
  by_cases hall : off ≤ a ∧ a < off + (k + len)
  · rw [if_pos hall]
    by_cases hback : off + k ≤ a ∧ a < off + k + len
    · rw [if_pos hback]
    · rw [if_neg hback, if_pos (by omega)]
  · rw [if_neg hall, if_neg (by omega), if_neg (by omega)]

@[simp] theorem fill_zero (m : ByteMem) (off : Nat) (b : UInt8) : m.fill off 0 b = m := by
  funext a
  rw [ByteMem.fill, if_neg (by omega)]

/-- Erasing a range and storing all of it is storing it. -/
theorem write_filled (m : ByteMem) (off len : Nat) (buf : ByteMem) (b : UInt8) :
    (m.fill off len b).write off (buf.read 0 len) = m.write off (buf.read 0 len) := by
  funext a
  by_cases hin : off ≤ a ∧ a < off + len
  · have hidx : a - off < (buf.read 0 len).length := by
      rw [ByteMem.length_read]
      omega
    have hleft := (m.fill off len b).write_at off hidx
    have hright := m.write_at off hidx
    rw [Nat.add_sub_cancel' hin.1] at hleft hright
    rw [hleft, hright]
  · have hframe : a < off ∨ off + (buf.read 0 len).length ≤ a := by
      rw [ByteMem.length_read]
      omega
    rw [ByteMem.write_frame _ hframe, ByteMem.write_frame _ hframe, ByteMem.fill, if_neg hin]

/-- No call on the record programs a page. -/
def NoProgram (log : List MtdEvent) : Prop :=
  ∀ e ∈ log, ∀ off data ret, e ≠ .program off data ret

theorem noProgram_nil : NoProgram [] :=
  fun _ he => absurd he List.not_mem_nil

theorem NoProgram.cons {e : MtdEvent} {es : List MtdEvent}
    (he : ∀ off data ret, e ≠ .program off data ret) (h : NoProgram es) : NoProgram (e :: es) :=
  List.forall_mem_cons.2 ⟨he, h⟩

theorem NoProgram.append {es es' : List MtdEvent} (h : NoProgram es) (h' : NoProgram es') :
    NoProgram (es ++ es') :=
  List.forall_mem_append.2 ⟨h, h'⟩

theorem unlock_ne_program (ofs len : UInt64) (r : Int) (off : UInt64) (data : List UInt8) (ret : Int) :
    MtdEvent.unlock ofs len r ≠ .program off data ret := by
  intro h
  cases h

theorem lock_ne_program (ofs len off : UInt64) (data : List UInt8) (ret : Int) :
    MtdEvent.lock ofs len ≠ .program off data ret := by
  intro h
  cases h

theorem erase_ne_program (addr len : UInt64) (r : Int) (off : UInt64) (data : List UInt8) (ret : Int) :
    MtdEvent.erase addr len r ≠ .program off data ret := by
  intro h
  cases h

/-- The loop erases the `n` good blocks from `addr` on. -/
theorem eraseLoop_works (hworks : nand.Works ops) {n fuel : Nat} (m : ByteMem) (log : List MtdEvent)
    {addr size : UInt64} (haddr : nand.erasesize ∣ addr.toNat)
    (hsize : size.toNat = n * nand.erasesize) (hrange : addr.toNat + size.toNat ≤ nand.size)
    (hgood : ∀ a, addr.toNat ≤ a → a < addr.toNat + size.toNat → nand.Good a) (hfuel : n < fuel) :
    ∃ ret' es, (ret' = 0 ∨ ret' = -eio) ∧ NoProgram es ∧
      mtdEraseLoop nand.mtd (logged ops) fuel (m, log) addr size 0 =
        some (ret', m.fill addr.toNat size.toNat 0xff, log ++ es) := by
  have hstep : ∀ (s : ByteMem × List MtdEvent) (a : UInt64), nand.erasesize ∣ a.toNat →
      addr.toNat ≤ a.toNat → a.toNat < addr.toNat + size.toNat →
      (∃ es, NoProgram es ∧ s = (m.fill addr.toNat (a.toNat - addr.toNat) 0xff, log ++ es)) →
      (((logged ops).erase s a nand.mtd.erasesize.toUInt64).1 = 0 ∨
        ((logged ops).erase s a nand.mtd.erasesize.toUInt64).1 = -eio) ∧
      ∃ es, NoProgram es ∧ ((logged ops).erase s a nand.mtd.erasesize.toUInt64).2 =
        (m.fill addr.toNat (a.toNat + nand.erasesize - addr.toNat) 0xff, log ++ es) := by
    rintro s a ha hlo hlt ⟨es, hes, rfl⟩
    have hjoin := fill_add m addr.toNat (a.toNat - addr.toNat) nand.erasesize 0xff
    rw [Nat.add_sub_cancel' hlo, ← Nat.sub_add_comm hlo] at hjoin
    have herase : (logged ops).erase (m.fill addr.toNat (a.toNat - addr.toNat) 0xff, log ++ es) a
          nand.mtd.erasesize.toUInt64 =
        (0, m.fill addr.toNat (a.toNat + nand.erasesize - addr.toNat) 0xff,
          log ++ (es ++ [.erase a nand.mtd.erasesize.toUInt64 0])) := by
      simp only [logged, hworks.erase _ a ha (by omega) (hgood _ hlo hlt), hjoin, List.append_assoc]
    rw [herase]
    exact ⟨Or.inl rfl, _, hes.append (noProgram_nil.cons (erase_ne_program _ _ _)), rfl⟩
  rcases nand.eraseLoop_rule hrange
    (fun a s => ∃ es, NoProgram es ∧ s = (m.fill addr.toNat (a - addr.toNat) 0xff, log ++ es)) hstep n
    (m, log) addr size 0 fuel (Or.inl rfl) haddr le_rfl hsize le_rfl hfuel
    ⟨[], noProgram_nil, by rw [Nat.sub_self, fill_zero, List.append_nil]⟩ with
    ⟨ret', t, hret', hloop, es, hes, ht⟩
  rw [Nat.add_sub_cancel_left] at ht
  exact ⟨ret', es, hret', hes, by rw [hloop, ht]⟩

/-- The pages that `es` programs, between `lo` and `hi`: whole pages, none of them twice. -/
structure PagesOnce (nand : Nand) (lo hi : Nat) (es : List MtdEvent) : Prop where
  page : ∀ e ∈ es, ∃ (off : UInt64) (data : List UInt8), e = .program off data 0 ∧
    nand.writesize ∣ off.toNat ∧ data.length = nand.writesize ∧ lo ≤ off.toNat ∧
    off.toNat + nand.writesize ≤ hi
  once : es.Pairwise fun e e' =>
    ∀ off data ret off' data' ret', e = .program off data ret → e' = .program off' data' ret' →
      off.toNat + nand.writesize ≤ off'.toNat

theorem PagesOnce.nil (lo hi : Nat) : PagesOnce nand lo hi [] :=
  ⟨by simp, List.Pairwise.nil⟩

/-- One page in front of the others. -/
theorem PagesOnce.cons {lo hi : Nat} {es : List MtdEvent} {off : UInt64} {data : List UInt8}
    (h : PagesOnce nand (lo + nand.writesize) hi es) (hoff : off.toNat = lo)
    (hdvd : nand.writesize ∣ lo) (hlen : data.length = nand.writesize)
    (hroom : lo + nand.writesize ≤ hi) : PagesOnce nand lo hi (.program off data 0 :: es) := by
  refine ⟨?_, List.Pairwise.cons ?_ h.once⟩
  · intro e he
    rcases List.mem_cons.1 he with rfl | he
    · exact ⟨off, data, rfl, by rwa [hoff], hlen, hoff.ge, by omega⟩
    · rcases h.page e he with ⟨off', data', rfl, hdvd', hlen', hlo, hhi⟩
      exact ⟨off', data', rfl, hdvd', hlen', by omega, hhi⟩
  · intro e' he' o d r o' d' r' heq heq'
    cases heq
    rcases h.page e' he' with ⟨off', data', rfl, _, _, hlo, _⟩
    cases heq'
    omega

theorem PagesOnce.mono {lo lo' hi : Nat} {es : List MtdEvent} (h : PagesOnce nand lo' hi es)
    (hle : lo ≤ lo') : PagesOnce nand lo hi es := by
  refine ⟨?_, h.once⟩
  intro e he
  rcases h.page e he with ⟨off, data, heq, hdvd, hlen, hlo, hhi⟩
  exact ⟨off, data, heq, hdvd, hlen, le_trans hle hlo, hhi⟩

/-- One page of a good, erased block: stored, by programming it once or by leaving it erased. -/
theorem page_works (hworks : nand.Works ops) {m : ByteMem} (log : List MtdEvent)
    {off remaining : UInt64} (datbuf : ByteMem) (hdvd : nand.writesize ∣ remaining.toNat)
    (hne : remaining ≠ 0) (hoff : nand.writesize ∣ off.toNat)
    (hrange : off.toNat + nand.writesize ≤ nand.size) (hgood : nand.Good off.toNat)
    (hff : ∀ a, off.toNat ≤ a → a < off.toNat + nand.writesize → m a = 0xff) :
    ∃ es, (es = [] ∨ es = [.program off (datbuf.read 0 nand.writesize) 0]) ∧
      (if nand.mtd.hasPages = true ∧
          mtdPageIsEmpty (datbuf.read 0 (ioLen nand.mtd remaining).toNat) = true then
        ((0 : Int), nand.mtd.writesize.toUInt64, (m, log))
      else (logged ops).writeOob (m, log) off (datbuf.read 0 (ioLen nand.mtd remaining).toNat)) =
        (0, nand.mtd.writesize.toUInt64, m.write off.toNat (datbuf.read 0 nand.writesize),
          log ++ es) := by
  have hff' : ∀ a, off.toNat ≤ a → a < off.toNat + (datbuf.read 0 nand.writesize).length →
      m a = 0xff := by
    simpa using hff
  rw [nand.toNat_ioLen hdvd hne]
  by_cases hempty : mtdPageIsEmpty (datbuf.read 0 nand.writesize) = true
  · refine ⟨[], Or.inl rfl, ?_⟩
    rw [if_pos ⟨nand.hasPages_mtd, hempty⟩, write_of_empty hempty hff', List.append_nil]
  · refine ⟨[.program off (datbuf.read 0 nand.writesize) 0], Or.inr rfl, ?_⟩
    rw [if_neg (fun h => hempty h.2)]
    simp only [logged, hworks.writeOob m off _ hoff (ByteMem.length_read _ _ _) hrange hgood,
      program_erased hff']

/-- The pages of an erased range of good blocks are stored one after the other. -/
theorem writeLoop_works (hworks : nand.Works ops) (n : Nat) :
    ∀ (m : ByteMem) (log : List MtdEvent) (off remaining : UInt64) (datbuf : ByteMem) (ret : Int)
      (fuel : Nat), nand.writesize ∣ off.toNat → remaining.toNat = n * nand.writesize →
      off.toNat + remaining.toNat ≤ nand.size →
      (∀ a, off.toNat ≤ a → a < off.toNat + remaining.toNat → nand.Good a) →
      (∀ a, off.toNat ≤ a → a < off.toNat + remaining.toNat → m a = 0xff) → n < fuel →
      ∃ es, PagesOnce nand off.toNat (off.toNat + remaining.toNat) es ∧
        mtdWriteLoop nand.mtd (logged ops) fuel (m, log) off remaining datbuf ret =
          some (if n = 0 then ret else 0, m.write off.toNat (datbuf.read 0 remaining.toNat),
            log ++ es) := by
  induction n with
  | zero =>
      intro m log off remaining datbuf ret fuel _ hrem _ _ _ hfuel
      have hzero : remaining = 0 := UInt64.toNat_inj.1 (by simpa using hrem)
      cases fuel with
      | zero => omega
      | succ fuel =>
          refine ⟨[], PagesOnce.nil _ _, ?_⟩
          simp [mtdWriteLoop, hzero]
  | succ n ih =>
      intro m log off remaining datbuf ret fuel hoff hrem hrange hgood hff hfuel
      rcases first_unit nand.writesize_pos hrem with ⟨hne, hpage⟩
      have hpos := nand.writesize_pos
      have hdvd : nand.writesize ∣ remaining.toNat := ⟨n + 1, by rw [hrem, Nat.mul_comm]⟩
      cases fuel with
      | zero => omega
      | succ fuel =>
          have hokay : (logged ops).blockIsbad (m, log) off = 0 :=
            (hworks.blockIsbad m off (by omega)).2 (hgood _ le_rfl (by omega))
          rcases page_works hworks log datbuf hdvd hne hoff (by omega)
            (hgood _ le_rfl (by omega)) (fun a h₁ h₂ => hff a h₁ (by omega)) with ⟨es₁, hes₁, hstored⟩
          have hoff' := nand.toNat_add_retlen off nand.toNat_writesize (by omega)
          have hrem' := nand.toNat_sub_retlen nand.toNat_writesize (show nand.writesize ≤ remaining.toNat by omega)
          have hpageLen : (datbuf.read 0 nand.writesize).length = nand.writesize :=
            ByteMem.length_read _ _ _
          -- the range behind the page is as it was
          rcases ih (m.write off.toNat (datbuf.read 0 nand.writesize)) (log ++ es₁)
            (off + nand.mtd.writesize.toUInt64) (remaining - nand.mtd.writesize.toUInt64)
            (datbuf.shift nand.mtd.writesize.toUInt64.toNat) 0 fuel
            (by rw [hoff']; exact Dvd.dvd.add hoff (dvd_refl _)) (by rw [hrem']; omega)
            (by rw [hoff', hrem']; omega) (fun a h₁ h₂ => hgood a (by omega) (by omega))
            (fun a h₁ h₂ => by
              rw [m.write_of_le (by rw [hpageLen]; omega)]
              exact hff a (by omega) (by omega)) (by omega) with ⟨es₂, hes₂, hloop⟩
          have hhi : off.toNat + nand.writesize + (remaining.toNat - nand.writesize) =
              off.toNat + remaining.toNat := by omega
          rw [hoff', hrem', hhi] at hes₂
          refine ⟨es₁ ++ es₂, ?_, ?_⟩
          · rcases hes₁ with rfl | rfl
            · exact hes₂.mono (Nat.le_add_right _ _)
            · exact hes₂.cons rfl hoff hpageLen (by omega)
          · have hjoin := m.write_read_add datbuf off.toNat 0 nand.writesize
              (remaining.toNat - nand.writesize)
            rw [Nat.zero_add, Nat.add_sub_cancel' (by omega)] at hjoin
            simp only [mtdWriteLoop, if_neg hne, hokay, ne_eq, not_true_eq_false, and_false, if_false,
              hstored, hloop]
            rw [hoff', hrem', ByteMem.read_shift, nand.toNat_writesize, Nat.add_zero, hjoin,
              List.append_assoc]
            simp

variable (nand) in
/-- What one call of `mtd_write_medium` does on a chip that works, for a range of whole good blocks:
it returns 0, the range holds the buffer and the rest of the chip is as it was; this is what
programming the whole buffer over the erased range would give; between the unlock and the final lock
each page is programmed at most once. -/
theorem writeMedium_works (hworks : nand.Works ops) (m : ByteMem) (offset len : UInt64)
    (buf : ByteMem) (ho : nand.erasesize ∣ offset.toNat) (hl : nand.erasesize ∣ len.toNat)
    (hne : len ≠ 0) (hrange : offset.toNat + len.toNat ≤ nand.size)
    (hgood : ∀ a, offset.toNat ≤ a → a < offset.toNat + len.toNat → nand.Good a) :
    ∃ ret erases programs, Unlocked ret ∧ NoProgram erases ∧
      PagesOnce nand offset.toNat (offset.toNat + len.toNat) programs ∧
      mtdWriteMedium nand.mtd (logged ops) (m, []) offset buf len =
        some (0, len, m.write offset.toNat (buf.read 0 len.toNat),
          [.unlock offset len ret] ++ erases ++ programs ++ [.lock offset len]) := by
  have hpos : 0 < len.toNat := toNat_pos_of_ne_zero hne
  have hunlock := hworks.unlock m offset len
  -- the erase pass
  rcases hl with ⟨n, hn⟩
  have hl : nand.erasesize ∣ len.toNat := ⟨n, hn⟩
  have hcount : n < loopBound := lt_loopBound nand.erasesize_pos hn
  rcases eraseLoop_works hworks m [.unlock offset len (ops.unlock m offset len).1] ho
    (by rw [hn, Nat.mul_comm]) hrange hgood hcount with ⟨ret₁, erases, hret₁, herases, herase⟩
  -- the write pass, over the erased range
  have hff : ∀ a, offset.toNat ≤ a → a < offset.toNat + len.toNat →
      (m.fill offset.toNat len.toNat 0xff) a = 0xff := by
    intro a h₁ h₂
    rw [ByteMem.fill, if_pos ⟨h₁, h₂⟩]
  rcases dvd_trans nand.writesize_dvd hl with ⟨k, hk⟩
  have hpages : k < loopBound := lt_loopBound nand.writesize_pos hk
  rcases writeLoop_works hworks k (m.fill offset.toNat len.toNat 0xff)
    ([.unlock offset len (ops.unlock m offset len).1] ++ erases) offset len buf
    (ops.unlock m offset len).1 loopBound (dvd_trans nand.writesize_dvd ho)
    (by rw [hk, Nat.mul_comm]) hrange hgood hff hpages with ⟨programs, hprograms, hwrite⟩
  have hk0 : k ≠ 0 := by
    rintro rfl
    omega
  have hskip : mtdSkipBad nand.mtd (logged ops) loopBound
      (m.fill offset.toNat len.toNat 0xff,
        [.unlock offset len (ops.unlock m offset len).1] ++ erases) offset = some offset := by
    have hfirst : (logged ops).blockIsbad (m.fill offset.toNat len.toNat 0xff,
        [.unlock offset len (ops.unlock m offset len).1] ++ erases) offset = 0 :=
      (hworks.blockIsbad _ offset (by omega)).2 (hgood _ le_rfl (by omega))
    rcases exists_loopBound with ⟨fuel, hfuel⟩
    rw [hfuel, mtdSkipBad, if_neg (not_not.2 hfirst)]
  refine ⟨(ops.unlock m offset len).1, erases, programs, hunlock.1, herases, hprograms, ?_⟩
  have herased : mtdEraseMedium nand.mtd (logged ops)
      (m, [.unlock offset len (ops.unlock m offset len).1]) offset len =
        some (0, len, m.fill offset.toNat len.toNat 0xff,
          [.unlock offset len (ops.unlock m offset len).1] ++ erases) := by
    rw [nand.eraseMedium_blocks (logged ops) ho hl herase, if_neg (not_fatal hret₁)]
  have hunlocked : (logged ops).unlock (m, []) offset len =
      ((ops.unlock m offset len).1, m, [.unlock offset len (ops.unlock m offset len).1]) := by
    simp only [logged, hunlock.2, List.nil_append]
  rw [writeMedium_finish buf (nand.isAlignedWithMinIoSize_of_block ho)
    (nand.isAlignedWithMinIoSize_of_block hl) (by rw [hunlocked]; exact hunlock.1)
    (by rw [hunlocked]; exact herased) hskip, hunlocked, hwrite]
  simp only [finishWrite, if_neg hk0, ne_eq, not_true_eq_false, if_false, logged, hworks.lock,
    write_filled]

/-- The pages that the calls on a record program, in order. -/
def programmedPages (nand : Nand) (log : List MtdEvent) : List Nat :=
  log.filterMap fun e =>
    match e with
    | .program off _ _ => some (off.toNat / nand.writesize)
    | _ => none

theorem programmedPages_append (es es' : List MtdEvent) :
    programmedPages nand (es ++ es') = programmedPages nand es ++ programmedPages nand es' :=
  List.filterMap_append

theorem programmedPages_of_noProgram {es : List MtdEvent} (h : NoProgram es) :
    programmedPages nand es = [] := by
  refine List.filterMap_eq_nil_iff.2 ?_
  intro e he
  cases e with
  | program off data ret => exact absurd rfl (h _ he off data ret)
  | unlock ofs len ret => rfl
  | lock ofs len => rfl
  | erase addr len ret => rfl

/-- Pages that lie behind each other have different numbers. -/
theorem PagesOnce.nodup {lo hi : Nat} {es : List MtdEvent} (h : PagesOnce nand lo hi es) :
    (programmedPages nand es).Nodup := by
  refine List.Pairwise.filterMap _ ?_ h.once
  intro e e' hlt p hp p' hp'
  cases e with
  | program off data ret =>
      cases e' with
      | program off' data' ret' =>
          have hnext := hlt off data ret off' data' ret' rfl rfl
          cases hp
          cases hp'
          have hstep := Nat.div_le_div_right (c := nand.writesize) hnext
          rw [Nat.add_div_right _ nand.writesize_pos] at hstep
          omega
      | unlock ofs len ret => cases hp'
      | lock ofs len => cases hp'
      | erase addr len ret => cases hp'
  | unlock ofs len ret => cases hp
  | lock ofs len => cases hp
  | erase addr len ret => cases hp

/-- What a write of the range to a chip should do: return 0, store the buffer and nothing else, as if
every page had been programmed over the erased range, program whole pages, no page twice, and lock
the range again. -/
structure StoredExactly (nand : Nand) (ops : MtdOps ByteMem) (offset len : UInt64) (m : ByteMem)
    (buf : ByteMem) (m' : ByteMem) (log : List MtdEvent) : Prop where
  returns : mtdWriteMedium nand.mtd (logged ops) (m, []) offset buf len = some (0, len, m', log)
  stored : m'.read offset.toNat len.toNat = buf.read 0 len.toNat
  frame : ∀ a, a < offset.toNat ∨ offset.toNat + len.toNat ≤ a → m' a = m a
  everyPage : m' = program (m.fill offset.toNat len.toNat 0xff) offset.toNat (buf.read 0 len.toNat)
  wholePages : ∀ off data ret, MtdEvent.program off data ret ∈ log →
    nand.writesize ∣ off.toNat ∧ data.length = nand.writesize
  once : (programmedPages nand log).Nodup
  relocked : LocksAgain offset len log

/-- A range of whole good blocks on a chip that works is stored exactly; and whatever chip and range
it is, a call that unlocks the range locks it again, on every exit. -/
theorem nand_write_exact (nand : Nand) (ops : MtdOps ByteMem) (hworks : nand.Works ops)
    (offset len : UInt64) (ho : nand.erasesize ∣ offset.toNat) (hl : nand.erasesize ∣ len.toNat)
    (hne : len ≠ 0) (hrange : offset.toNat + len.toNat ≤ nand.size)
    (hgood : ∀ a, offset.toNat ≤ a → a < offset.toNat + len.toNat → nand.Good a) :
    (∀ m buf, ∃ m' log, StoredExactly nand ops offset len m buf m' log) ∧
      ∀ (μ : Type) (mtd : MtdInfo) (layer : MtdOps μ) m offset buf len ret len' t,
        mtdWriteMedium mtd (logged layer) (m, []) offset buf len = some (ret, len', t) →
          Relocked offset len t.2 := by
  refine ⟨?_, fun _ _ _ _ _ _ _ _ _ _ h => relocked_of_returns h⟩
  intro m buf
  rcases nand.writeMedium_works hworks m offset len buf ho hl hne hrange hgood with
    ⟨ret, erases, programs, hunlocked, herases, hprograms, hrun⟩
  have hlen : (buf.read 0 len.toNat).length = len.toNat := ByteMem.length_read _ _ _
  refine ⟨m.write offset.toNat (buf.read 0 len.toNat),
    [.unlock offset len ret] ++ erases ++ programs ++ [.lock offset len], ?_⟩
  exact
    { returns := hrun
      stored := ByteMem.read_write_of_length _ hlen
      frame := by
        intro a ha
        exact ByteMem.write_frame _ (by rwa [hlen])
      everyPage := by
        rw [program_erased, write_filled]
        intro a h₁ h₂
        rw [hlen] at h₂
        rw [ByteMem.fill, if_pos ⟨h₁, h₂⟩]
      wholePages := by
        intro off data ret' hmem
        have hin : MtdEvent.program off data ret' ∈ programs := by
          simp only [List.mem_append, List.mem_singleton, reduceCtorEq, false_or, or_false] at hmem
          rcases hmem with hmem | hmem
          · exact absurd rfl (herases _ hmem off data ret')
          · exact hmem
        rcases hprograms.page _ hin with ⟨off', data', heq, hdvd, hdata, _⟩
        cases heq
        exact ⟨hdvd, hdata⟩
      once := by
        have hpages : programmedPages nand
            ([.unlock offset len ret] ++ erases ++ programs ++ [.lock offset len]) =
              programmedPages nand programs := by
          have hfront : NoProgram ([.unlock offset len ret] ++ erases) :=
            herases.cons (unlock_ne_program _ _ _)
          have hback : NoProgram [.lock offset len] := noProgram_nil.cons (lock_ne_program _ _)
          rw [programmedPages_append, programmedPages_append, programmedPages_of_noProgram hfront,
            programmedPages_of_noProgram hback, List.nil_append, List.append_nil]
        rw [hpages]
        exact hprograms.nodup
      relocked := ⟨ret, erases ++ programs, hunlocked, by simp⟩ }

/-- The chip of the NAND back end works. -/
theorem works_ops (nand : Nand) : nand.Works nand.ops where
  erase := by
    intro m addr haddr hlt hgood
    have hfit := nand.block_le haddr hlt
    have hin : ¬ (addr.toNat > nand.size ∨ nand.erasesize > nand.size - addr.toNat) := by omega
    simp only [ops, nand.toNat_erasesize, if_neg hin, if_pos hgood]
  blockIsbad := by
    intro m ofs hlt
    exact nand.blockIsbad_eq_zero_iff m hlt
  writeOob := by
    intro m off data _ hlen hroom _
    have hdev := nand.size_lt
    have hin : ¬ (off.toNat ≥ 2 ^ 63 ∨ off.toNat + nand.writesize > nand.size) := by omega
    have hretlen : UInt64.ofNat nand.writesize = nand.mtd.writesize.toUInt64 := by
      refine UInt64.toNat_inj.1 ?_
      rw [nand.toNat_writesize, UInt64.toNat_ofNat', Nat.mod_eq_of_lt]
      omega
    simp only [ops, hlen, if_neg hin, hretlen]
  unlock := fun _ _ _ => ⟨Or.inr rfl, rfl⟩
  lock := fun _ _ _ => rfl

end Nand

/-- Counting bytes into the second block of a chip of four blocks, full of zeros, the last of which is
bad. -/
theorem nand_write_exact_second_block :
    ∃ m' log, Nand.StoredExactly (fourBlocks (· == 3)) (fourBlocks (· == 3)).ops 131072 131072
      (fun _ => 0) UInt8.ofNat m' log := by
  have hgood : ∀ a, (131072 : UInt64).toNat ≤ a →
      a < (131072 : UInt64).toNat + (131072 : UInt64).toNat → (fourBlocks (· == 3)).Good a := by
    intro a h₁ h₂
    exact good_fourBlocks (i := 1) (by simpa using h₁) (by simpa using h₂) rfl
  exact (Nand.nand_write_exact (fourBlocks (· == 3)) (fourBlocks (· == 3)).ops
    (Nand.works_ops _) 131072 131072 (by decide) (by decide) (by decide) (by decide) hgood).1
    (fun _ => 0) UInt8.ofNat

end Burn
end CanmvK230
