import CanmvK230.Burn.Mtd
import CanmvK230.Burn.Download

/-!
# NandBurn — burning a NAND chip across its bad blocks

The gadget advances its offset by what it has taken of the data; the NAND back end passes over bad
blocks inside a chunk and erases the nominal range of the chunk only.  The two agree as long as the
nominal range of the download has no bad block (`nand_burn_iff`).
-/

namespace CanmvK230
namespace Burn

open Lib

namespace Nand

variable (nand : Nand)

/-! ## Arithmetic of the geometry -/

theorem toNat_erasesize : nand.mtd.erasesize.toUInt64.toNat = nand.erasesize := by
  simp only [mtd, UInt32.toNat_toUInt64, UInt32.toNat_ofNat']
  exact Nat.mod_eq_of_lt nand.erasesize_lt

theorem writesize_le : nand.writesize ≤ nand.erasesize :=
  Nat.le_of_dvd nand.erasesize_pos nand.writesize_dvd

theorem toNat_writesize : nand.mtd.writesize.toUInt64.toNat = nand.writesize := by
  simp only [mtd, UInt32.toNat_toUInt64, UInt32.toNat_ofNat']
  exact Nat.mod_eq_of_lt (lt_of_le_of_lt nand.writesize_le nand.erasesize_lt)

theorem isAlignedWithBlockSize_iff (x : UInt64) :
    mtdIsAlignedWithBlockSize nand.mtd x = true ↔ nand.erasesize ∣ x.toNat := by
  simp only [mtdIsAlignedWithBlockSize, beq_iff_eq, ← UInt64.toNat_inj, UInt64.toNat_mod,
    nand.toNat_erasesize, UInt64.toNat_zero]
  exact (Nat.dvd_iff_mod_eq_zero ..).symm

theorem isAlignedWithMinIoSize_iff (x : UInt64) :
    mtdIsAlignedWithMinIoSize nand.mtd x = true ↔ nand.writesize ∣ x.toNat := by
  simp only [mtdIsAlignedWithMinIoSize, beq_iff_eq, ← UInt64.toNat_inj, UInt64.toNat_mod,
    nand.toNat_writesize, UInt64.toNat_zero]
  exact (Nat.dvd_iff_mod_eq_zero ..).symm

/-- The start of a block is the start of a page. -/
theorem isAlignedWithMinIoSize_of_block {x : UInt64} (hx : nand.erasesize ∣ x.toNat) :
    mtdIsAlignedWithMinIoSize nand.mtd x = true :=
  (nand.isAlignedWithMinIoSize_iff x).2 (dvd_trans nand.writesize_dvd hx)

theorem size_lt_loopBound : nand.size < loopBound := by
  have hdev := nand.size_lt
  simp only [loopBound]
  omega

theorem lt_loopBound {x : UInt64} {n k : Nat} (hk : 0 < k) (h : x.toNat = k * n) : n < loopBound := by
  have hle : n ≤ k * n := Nat.le_mul_of_pos_left n hk
  have hlt := x.toNat_lt
  simp only [loopBound]
  omega

/-- A whole block fits behind an aligned address inside the device. -/
theorem block_le {a : Nat} (ha : nand.erasesize ∣ a) (hlt : a < nand.size) :
    a + nand.erasesize ≤ nand.size := by
  rcases ha with ⟨i, rfl⟩
  rcases nand.erasesize_dvd with ⟨n, hn⟩
  rw [hn] at hlt ⊢
  have hi : i < n := Nat.lt_of_mul_lt_mul_left hlt
  calc
    nand.erasesize * i + nand.erasesize = nand.erasesize * (i + 1) := by ring
    _ ≤ nand.erasesize * n := Nat.mul_le_mul_left _ hi

/-- The bytes of a block are good or bad together. -/
theorem good_add {a k : Nat} (ha : nand.erasesize ∣ a) (hk : k < nand.erasesize) :
    nand.Good (a + k) ↔ nand.Good a := by
  rcases ha with ⟨i, rfl⟩
  have hblock : (nand.erasesize * i + k) / nand.erasesize = i := by
    rw [Nat.mul_add_div nand.erasesize_pos, Nat.div_eq_of_lt hk, Nat.add_zero]
  have hblock' : nand.erasesize * i / nand.erasesize = i := Nat.mul_div_cancel_left i nand.erasesize_pos
  rw [Good, Good, hblock, hblock']

/-- The bytes of a page lie in one block. -/
theorem page_block {p j : Nat} (hp : nand.writesize ∣ p) (hj : j < nand.writesize) :
    (p + j) / nand.erasesize = p / nand.erasesize := by
  rcases nand.writesize_dvd with ⟨k, hk⟩
  rcases hp with ⟨i, rfl⟩
  rw [hk, ← Nat.div_div_eq_div_mul, ← Nat.div_div_eq_div_mul, Nat.mul_add_div nand.writesize_pos,
    Nat.div_eq_of_lt hj, Nat.add_zero, Nat.mul_div_cancel_left i nand.writesize_pos]

/-- A page of a good block is good. -/
theorem good_of_page {p a : Nat} (hp : nand.writesize ∣ p) (hgood : nand.Good p) (hle : p ≤ a)
    (hlt : a < p + nand.writesize) : nand.Good a := by
  have hblock := nand.page_block hp (j := a - p) (by omega)
  rw [Nat.add_sub_cancel' hle] at hblock
  rw [Good, hblock]
  exact hgood

theorem page_le {p : Nat} (hp : nand.writesize ∣ p) (hlt : p < nand.size) :
    p + nand.writesize ≤ nand.size := by
  have hdvd := dvd_trans nand.writesize_dvd nand.erasesize_dvd
  have hle := Nat.le_of_dvd (by omega) (Nat.dvd_sub hdvd hp)
  omega

/-- A walk over the pages is at the start of a page, and at the start of the block if the block is bad. -/
def AtPage (off : Nat) : Prop :=
  nand.writesize ∣ off ∧ (nand.erasesize ∣ off ∨ nand.Good off)

theorem atPage_of_block {off : Nat} (h : nand.erasesize ∣ off) : nand.AtPage off :=
  ⟨dvd_trans nand.writesize_dvd h, Or.inl h⟩

theorem atPage_next {off : Nat} (h : nand.AtPage off) (hgood : nand.Good off) :
    nand.AtPage (off + nand.writesize) := by
  have hpage := h.1
  have hnext : nand.writesize ∣ off + nand.writesize := Dvd.dvd.add hpage (dvd_refl _)
  refine ⟨hnext, ?_⟩
  by_cases hblock : nand.erasesize ∣ off + nand.writesize
  · exact Or.inl hblock
  · -- the next page is not the first of its block, so the block is the same
    right
    have hpos := nand.writesize_pos
    have hlast := nand.page_block hpage (j := nand.writesize - 1) (by omega)
    have hsame : (off + nand.writesize) / nand.erasesize = off / nand.erasesize := by
      have hstep := Nat.succ_div_of_not_dvd (a := off + (nand.writesize - 1)) (b := nand.erasesize)
        (by rwa [show off + (nand.writesize - 1) + 1 = off + nand.writesize by omega])
      rw [show off + (nand.writesize - 1) + 1 = off + nand.writesize by omega] at hstep
      rw [hstep, hlast]
    rw [Nand.Good, hsame]
    exact hgood

/-! ## Erasing the nominal range -/

/-- The device after its good blocks inside `[off, off + len)` were erased. -/
def erased (m : ByteMem) (off len : Nat) : ByteMem := fun a =>
  if off ≤ a ∧ a < off + len ∧ nand.Good a then 0xff else m a

@[simp] theorem erased_zero (m : ByteMem) (off : Nat) : nand.erased m off 0 = m := by
  funext a
  have hno : ¬ (off ≤ a ∧ a < off + 0 ∧ nand.Good a) := by omega
  rw [erased, if_neg hno]

theorem erased_add (m : ByteMem) (off k len : Nat) :
    nand.erased (nand.erased m off k) (off + k) len = nand.erased m off (k + len) := by
  funext a
  simp only [erased]
  -- an address of the joint range lies in one of the two parts
  split_ifs with h₁ h₂ h₃ h₄
  · rfl
  · exact absurd ⟨by omega, by omega, h₁.2.2⟩ h₂
  · rfl
  · exact absurd ⟨h₃.1, by omega, h₃.2.2⟩ h₄
  · rename_i h₅
    by_cases hlow : a < off + k
    · exact absurd ⟨h₅.1, hlow, h₅.2.2⟩ h₃
    · exact absurd ⟨by omega, by omega, h₅.2.2⟩ h₁
  · rfl

/-- Erasing one block. -/
theorem erase_block (m : ByteMem) {addr : UInt64} (ha : nand.erasesize ∣ addr.toNat)
    (hlt : addr.toNat < nand.size) :
    ∃ ret, (ret = 0 ∨ ret = -eio) ∧
      nand.ops.erase m addr nand.mtd.erasesize.toUInt64 =
        (ret, nand.erased m addr.toNat nand.erasesize) := by
  have hfit := nand.block_le ha hlt
  have hin : ¬ (addr.toNat > nand.size ∨ nand.erasesize > nand.size - addr.toNat) := by omega
  have hblock : ∀ a, addr.toNat ≤ a → a < addr.toNat + nand.erasesize →
      (nand.Good a ↔ nand.Good addr.toNat) := by
    intro a hle hlt'
    have hk := nand.good_add ha (k := a - addr.toNat) (by omega)
    rwa [show addr.toNat + (a - addr.toNat) = a by omega] at hk
  simp only [ops, nand.toNat_erasesize, if_neg hin]
  -- a good block is filled; a bad one is left alone, which is what `erased` says of it
  by_cases hgood : nand.Good addr.toNat
  · refine ⟨0, Or.inl rfl, ?_⟩
    rw [if_pos hgood]
    refine Prod.ext rfl ?_
    funext a
    by_cases ha' : addr.toNat ≤ a ∧ a < addr.toNat + nand.erasesize
    · have hgood' : nand.Good a := (hblock a ha'.1 ha'.2).2 hgood
      simp [erased, ByteMem.fill, ha', hgood']
    · have hno : ¬ (addr.toNat ≤ a ∧ a < addr.toNat + nand.erasesize ∧ nand.Good a) := by
        rintro ⟨h₁, h₂, _⟩
        exact ha' ⟨h₁, h₂⟩
      simp [erased, ByteMem.fill, ha', hno]
  · refine ⟨-eio, Or.inr rfl, ?_⟩
    rw [if_neg hgood]
    refine Prod.ext rfl ?_
    funext a
    have hno : ¬ (addr.toNat ≤ a ∧ a < addr.toNat + nand.erasesize ∧ nand.Good a) := by
      rintro ⟨h₁, h₂, hgood'⟩
      exact hgood ((hblock a h₁ h₂).1 hgood')
    simp [erased, hno]

theorem not_fatal {ret : Int} (h : ret = 0 ∨ ret = -eio) : ¬ (ret ≠ 0 ∧ ret ≠ -eio) := by
  rintro ⟨h₁, h₂⟩
  rcases h with h | h
  · exact h₁ h
  · exact h₂ h

theorem fatal_or (ret : Int) (h : ¬ (ret ≠ 0 ∧ ret ≠ -eio)) : ret = 0 ∨ ret = -eio := by
  by_contra hne
  exact h (not_or.1 hne)

/-- There is a first one of `n + 1` blocks, or pages. -/
theorem first_unit {size : UInt64} {k n : Nat} (hpos : 0 < k) (hsize : size.toNat = (n + 1) * k) :
    size ≠ 0 ∧ size.toNat = n * k + k := by
  rw [Nat.add_mul, Nat.one_mul] at hsize
  refine ⟨?_, hsize⟩
  rintro rfl
  rw [UInt64.toNat_zero] at hsize
  omega

/-- The address and the rest after one of `n + 1` blocks. -/
theorem next_block (addr : UInt64) {size : UInt64} {n : Nat}
    (hblock : size.toNat = n * nand.erasesize + nand.erasesize)
    (hroom : addr.toNat + nand.erasesize < 2 ^ 64) :
    (addr + nand.mtd.erasesize.toUInt64).toNat = addr.toNat + nand.erasesize ∧
      (size - nand.mtd.erasesize.toUInt64).toNat = n * nand.erasesize := by
  constructor
  · rw [UInt64.toNat_add, nand.toNat_erasesize]
    exact Nat.mod_eq_of_lt hroom
  · rw [UInt64.toNat_sub_of_le, nand.toNat_erasesize]
    · omega
    · rw [UInt64.le_iff_toNat_le, nand.toNat_erasesize]
      omega

/-- The rule for the erase loop over the blocks of `[lo, hi)`: what each of them keeps, with an answer
that lets the loop go on, holds at the end. -/
theorem eraseLoop_rule {μ : Type} {ops : MtdOps μ} {lo hi : Nat} (hhi : hi ≤ nand.size)
    (P : Nat → μ → Prop)
    (hstep : ∀ (s : μ) (addr : UInt64), nand.erasesize ∣ addr.toNat → lo ≤ addr.toNat →
      addr.toNat < hi → P addr.toNat s →
      ((ops.erase s addr nand.mtd.erasesize.toUInt64).1 = 0 ∨
        (ops.erase s addr nand.mtd.erasesize.toUInt64).1 = -eio) ∧
      P (addr.toNat + nand.erasesize) (ops.erase s addr nand.mtd.erasesize.toUInt64).2) (n : Nat) :
    ∀ (s : μ) (addr size : UInt64) (ret : Int) (fuel : Nat), (ret = 0 ∨ ret = -eio) →
      nand.erasesize ∣ addr.toNat → lo ≤ addr.toNat → size.toNat = n * nand.erasesize →
      addr.toNat + size.toNat ≤ hi → n < fuel → P addr.toNat s →
      ∃ ret' t, (ret' = 0 ∨ ret' = -eio) ∧
        mtdEraseLoop nand.mtd ops fuel s addr size ret = some (ret', t) ∧
        P (addr.toNat + size.toNat) t := by
  induction n with
  | zero =>
      intro s addr size ret fuel hret _ _ hsize _ hfuel hP
      have hzero : size = 0 := UInt64.toNat_inj.1 (by simpa using hsize)
      cases fuel with
      | zero => omega
      | succ fuel =>
          refine ⟨ret, s, hret, by rw [mtdEraseLoop, if_pos hzero], ?_⟩
          rw [hzero]
          exact hP
  | succ n ih =>
      intro s addr size ret fuel hret haddr hlo hsize hrange hfuel hP
      rcases Nand.first_unit nand.erasesize_pos hsize with ⟨hne, hblock⟩
      have hpos := nand.erasesize_pos
      have hdev := nand.size_lt
      cases fuel with
      | zero => omega
      | succ fuel =>
          -- one block now, the other `n` by induction from the next address
          rcases hstep s addr haddr hlo (by omega) hP with ⟨hret₁, hP₁⟩
          rcases nand.next_block addr hblock (by omega) with ⟨haddr', hsize'⟩
          rw [← haddr'] at hP₁
          rcases ih (ops.erase s addr nand.mtd.erasesize.toUInt64).2
            (addr + nand.mtd.erasesize.toUInt64) (size - nand.mtd.erasesize.toUInt64)
            (ops.erase s addr nand.mtd.erasesize.toUInt64).1 fuel hret₁
            (by rw [haddr']; exact Dvd.dvd.add haddr (dvd_refl _)) (by omega) hsize'
            (by rw [haddr', hsize']; omega) (by omega) hP₁ with ⟨ret₂, t, hret₂, hloop, hP₂⟩
          refine ⟨ret₂, t, hret₂, ?_, ?_⟩
          · simp only [mtdEraseLoop, if_neg hne, if_neg (not_fatal hret₁), hloop]
          · have hend : addr.toNat + size.toNat = addr.toNat + nand.erasesize + n * nand.erasesize := by
              omega
            rw [haddr', hsize'] at hP₂
            rw [hend]
            exact hP₂

/-- The loop erases every good block of the range, and bad blocks do not stop it. -/
theorem eraseLoop_eq {n fuel : Nat} (m : ByteMem) {addr size : UInt64}
    (haddr : nand.erasesize ∣ addr.toNat) (hsize : size.toNat = n * nand.erasesize)
    (hrange : addr.toNat + size.toNat ≤ nand.size) (hfuel : n < fuel) :
    ∃ ret', (ret' = 0 ∨ ret' = -eio) ∧
      mtdEraseLoop nand.mtd nand.ops fuel m addr size 0 =
        some (ret', nand.erased m addr.toNat size.toNat) := by
  have hstep : ∀ (s : ByteMem) (a : UInt64), nand.erasesize ∣ a.toNat → addr.toNat ≤ a.toNat →
      a.toNat < addr.toNat + size.toNat → s = nand.erased m addr.toNat (a.toNat - addr.toNat) →
      ((nand.ops.erase s a nand.mtd.erasesize.toUInt64).1 = 0 ∨
        (nand.ops.erase s a nand.mtd.erasesize.toUInt64).1 = -eio) ∧
      (nand.ops.erase s a nand.mtd.erasesize.toUInt64).2 =
        nand.erased m addr.toNat (a.toNat + nand.erasesize - addr.toNat) := by
    rintro s a ha hlo hlt rfl
    rcases nand.erase_block (nand.erased m addr.toNat (a.toNat - addr.toNat)) ha (by omega) with
      ⟨ret, hret, herase⟩
    rw [herase]
    refine ⟨hret, ?_⟩
    have hjoin := nand.erased_add m addr.toNat (a.toNat - addr.toNat) nand.erasesize
    rw [Nat.add_sub_cancel' hlo, ← Nat.sub_add_comm hlo] at hjoin
    exact hjoin
  rcases nand.eraseLoop_rule hrange (fun a s => s = nand.erased m addr.toNat (a - addr.toNat)) hstep n
    m addr size 0 fuel (Or.inl rfl) haddr le_rfl hsize le_rfl hfuel
    (by rw [Nat.sub_self, erased_zero]) with ⟨ret', t, hret', hloop, ht⟩
  rw [Nat.add_sub_cancel_left] at ht
  exact ⟨ret', hret', by rw [hloop, ht]⟩

/-- A request that is not made of whole blocks is refused. -/
theorem eraseMedium_unaligned {μ : Type} (ops : MtdOps μ) (m : μ) {offset len : UInt64}
    (h : ¬ (nand.erasesize ∣ offset.toNat ∧ nand.erasesize ∣ len.toNat)) :
    mtdEraseMedium nand.mtd ops m offset len = some (-1, len, m) := by
  have ho := nand.isAlignedWithBlockSize_iff offset
  have hl := nand.isAlignedWithBlockSize_iff len
  unfold mtdEraseMedium
  split
  · rfl
  · rename_i ho'
    have hl' : mtdIsAlignedWithBlockSize nand.mtd len = false :=
      Bool.eq_false_iff.2 fun hl' => h ⟨ho.1 (Bool.not_eq_false _ ▸ ho'), hl.1 hl'⟩
    rw [if_pos hl']

/-- Any other one ends as its loop does, for which a bad block is no error. -/
theorem eraseMedium_blocks {μ : Type} (ops : MtdOps μ) {m m' : μ} {offset len : UInt64} {ret : Int}
    (ho : nand.erasesize ∣ offset.toNat) (hl : nand.erasesize ∣ len.toNat)
    (hloop : mtdEraseLoop nand.mtd ops loopBound m offset len 0 = some (ret, m')) :
    mtdEraseMedium nand.mtd ops m offset len =
      some (if ret ≠ 0 ∧ ret ≠ -eio then -1 else 0, len, m') := by
  simp only [mtdEraseMedium, (nand.isAlignedWithBlockSize_iff offset).2 ho,
    (nand.isAlignedWithBlockSize_iff len).2 hl, Bool.true_eq_false, if_false, hloop]
  split
  · rfl
  · rfl

theorem eraseMedium_eq (m : ByteMem) {offset len : UInt64} (ho : nand.erasesize ∣ offset.toNat)
    (hl : nand.erasesize ∣ len.toNat) (hrange : offset.toNat + len.toNat ≤ nand.size) :
    mtdEraseMedium nand.mtd nand.ops m offset len =
      some (0, len, nand.erased m offset.toNat len.toNat) := by
  rcases hl with ⟨n, hn⟩
  rcases nand.eraseLoop_eq m ho (by rw [hn, Nat.mul_comm]) hrange (lt_loopBound nand.erasesize_pos hn)
    with ⟨ret, hret, hloop⟩
  rw [nand.eraseMedium_blocks nand.ops ho ⟨n, hn⟩ hloop, if_neg (not_fatal hret)]

/-! ## Writing a range without bad blocks -/

theorem blockIsbad_eq_zero_iff (m : ByteMem) {ofs : UInt64} (h : ofs.toNat < nand.size) :
    nand.ops.blockIsbad m ofs = 0 ↔ nand.Good ofs.toNat := by
  have hdev := nand.size_lt
  have hin : ¬ (ofs.toNat ≥ 2 ^ 63 ∨ ofs.toNat > nand.size) := by omega
  simp only [ops, if_neg hin, h, true_and]
  by_cases hgood : nand.Good ofs.toNat
  · simp [hgood]
  · simp [hgood]

theorem hasPages_mtd : nand.mtd.hasPages = true := rfl

/-- The data of one operation is one page. -/
theorem toNat_ioLen {remaining : UInt64} (hdvd : nand.writesize ∣ remaining.toNat)
    (hne : remaining ≠ 0) : (ioLen nand.mtd remaining).toNat = nand.writesize := by
  have hpos : 0 < remaining.toNat := toNat_pos_of_ne_zero hne
  have hle : nand.writesize ≤ remaining.toNat := Nat.le_of_dvd hpos hdvd
  unfold ioLen
  by_cases hgt : remaining > nand.mtd.writesize.toUInt64
  · rw [if_pos ⟨nand.hasPages_mtd, hgt⟩, nand.toNat_writesize]
  · rw [if_neg (fun h => hgt h.2)]
    have hge : remaining.toNat ≤ nand.mtd.writesize.toUInt64.toNat :=
      UInt64.le_iff_toNat_le.1 (UInt64.not_lt.1 hgt)
    rw [nand.toNat_writesize] at hge
    omega

theorem and_ff (x : UInt8) : x &&& 0xff = x := by
  refine UInt8.toNat_inj.1 ?_
  rw [UInt8.toNat_and]
  calc
    x.toNat &&& (2 ^ 8 - 1) = x.toNat % 2 ^ 8 := Nat.and_two_pow_sub_one_eq_mod x.toNat 8
    _ = x.toNat := Nat.mod_eq_of_lt x.toNat_lt

/-- A page programmed where the device is erased. -/
theorem program_erased {m : ByteMem} {off : Nat} {data : List UInt8}
    (h : ∀ a, off ≤ a → a < off + data.length → m a = 0xff) :
    program m off data = m.write off data := by
  funext a
  by_cases hin : off ≤ a ∧ a < off + data.length
  · have hidx : a - off < data.length := by omega
    have hff := h a hin.1 hin.2
    simp [program, ByteMem.write, hin.1, hidx, hff, UInt8.and_comm 0xff, and_ff]
  · by_cases hle : off ≤ a
    · have hidx : data.length ≤ a - off := by omega
      simp [program, ByteMem.write, hle, List.getElem?_eq_none hidx, and_ff]
    · simp [program, ByteMem.write, hle]

theorem write_of_eq {m : ByteMem} {off : Nat} {data : List UInt8} (h : m.read off data.length = data) :
    m.write off data = m := by
  funext a
  by_cases hin : off ≤ a ∧ a < off + data.length
  · have hidx : a - off < data.length := by omega
    have hat := ByteMem.read_eq_iff.1 h (a - off) hidx
    have hwrite := m.write_at off hidx
    rw [show off + (a - off) = a by omega] at hat hwrite
    rw [hwrite, hat]
  · exact m.write_frame (by omega)

/-- A page of `0xff` is on an erased range already. -/
theorem write_of_empty {m : ByteMem} {off : Nat} {data : List UInt8} (hempty : mtdPageIsEmpty data = true)
    (hff : ∀ a, off ≤ a → a < off + data.length → m a = 0xff) : m.write off data = m := by
  refine write_of_eq (ByteMem.read_eq_iff.2 ?_)
  intro i hi
  rw [hff _ (by omega) (by omega)]
  have hall := List.all_eq_true.1 hempty _ (List.getElem_mem hi)
  exact (beq_iff_eq.1 hall).symm

/-- One page of a good, erased block is stored, whether it is programmed or passed over. -/
theorem page_stored {m : ByteMem} {off remaining : UInt64} (datbuf : ByteMem)
    (hdvd : nand.writesize ∣ remaining.toNat) (hne : remaining ≠ 0)
    (hrange : off.toNat + remaining.toNat ≤ nand.size)
    (hff : ∀ a, off.toNat ≤ a → a < off.toNat + remaining.toNat → m a = 0xff) :
    ∃ retlen, retlen.toNat = nand.writesize ∧
      (if nand.mtd.hasPages = true ∧
          mtdPageIsEmpty (datbuf.read 0 (ioLen nand.mtd remaining).toNat) = true then
        ((0 : Int), nand.mtd.writesize.toUInt64, m)
      else nand.ops.writeOob m off (datbuf.read 0 (ioLen nand.mtd remaining).toNat)) =
        (0, retlen, m.write off.toNat (datbuf.read 0 nand.writesize)) := by
  have hlen := nand.toNat_ioLen hdvd hne
  have hpos : 0 < remaining.toNat := toNat_pos_of_ne_zero hne
  have hle : nand.writesize ≤ remaining.toNat := Nat.le_of_dvd hpos hdvd
  have hff' : ∀ a, off.toNat ≤ a → a < off.toNat + (datbuf.read 0 nand.writesize).length →
      m a = 0xff := by
    intro a h₁ h₂
    rw [ByteMem.length_read] at h₂
    exact hff a h₁ (by omega)
  rw [hlen]
  by_cases hempty : mtdPageIsEmpty (datbuf.read 0 nand.writesize) = true
  · refine ⟨nand.mtd.writesize.toUInt64, nand.toNat_writesize, ?_⟩
    rw [if_pos ⟨nand.hasPages_mtd, hempty⟩]
    -- what would be written is there already
    rw [write_of_empty hempty hff']
  · refine ⟨UInt64.ofNat nand.writesize, ?_, ?_⟩
    · rw [UInt64.toNat_ofNat']
      refine Nat.mod_eq_of_lt ?_
      have := nand.writesize_le
      have := nand.erasesize_lt
      omega
    · have hdev := nand.size_lt
      have hin : ¬ (off.toNat ≥ 2 ^ 63 ∨ off.toNat + nand.writesize > nand.size) := by omega
      rw [if_neg (fun h => hempty h.2)]
      simp only [ops, ByteMem.length_read, if_neg hin]
      rw [program_erased hff']

theorem toNat_add_retlen (off : UInt64) {retlen : UInt64} (hretlen : retlen.toNat = nand.writesize)
    (hrange : off.toNat + nand.writesize ≤ nand.size) :
    (off + retlen).toNat = off.toNat + nand.writesize := by
  have hdev := nand.size_lt
  rw [UInt64.toNat_add, hretlen]
  exact Nat.mod_eq_of_lt (by omega)

theorem toNat_sub_retlen {remaining retlen : UInt64} (hretlen : retlen.toNat = nand.writesize)
    (hle : nand.writesize ≤ remaining.toNat) :
    (remaining - retlen).toNat = remaining.toNat - nand.writesize := by
  rw [UInt64.toNat_sub_of_le, hretlen]
  rw [UInt64.le_iff_toNat_le, hretlen]
  exact hle

/-- The pages of an erased range without bad blocks are stored one after the other. -/
theorem writeLoop_good (fuel : Nat) :
    ∀ (m : ByteMem) (off remaining : UInt64) (datbuf : ByteMem) (ret : Int) (m' : ByteMem),
      nand.writesize ∣ remaining.toNat → off.toNat + remaining.toNat ≤ nand.size →
      (∀ a, off.toNat ≤ a → a < off.toNat + remaining.toNat → nand.Good a) →
      (∀ a, off.toNat ≤ a → a < off.toNat + remaining.toNat → m a = 0xff) →
      mtdWriteLoop nand.mtd nand.ops fuel m off remaining datbuf ret = some (0, m') →
      m' = m.write off.toNat (datbuf.read 0 remaining.toNat) := by
  induction fuel with
  | zero =>
      intro m off remaining datbuf ret m' _ _ _ _ h
      cases h
  | succ fuel ih =>
      intro m off remaining datbuf ret m' hdvd hrange hgood hff h
      simp only [mtdWriteLoop] at h
      by_cases hne : remaining = 0
      · rw [if_pos hne] at h
        cases h
        simp [hne]
      · have hpos : 0 < remaining.toNat := toNat_pos_of_ne_zero hne
        have hle : nand.writesize ≤ remaining.toNat := Nat.le_of_dvd hpos hdvd
        have hokay : nand.ops.blockIsbad m off = 0 :=
          (nand.blockIsbad_eq_zero_iff m (by omega)).2 (hgood _ (le_refl _) (by omega))
        rw [if_neg hne, if_neg (fun h => h.2 hokay)] at h
        -- one page is stored, and the range behind it is still erased
        rcases nand.page_stored datbuf hdvd hne hrange hff with ⟨retlen, hretlen, hpage⟩
        rw [hpage] at h
        simp only [ne_eq, not_true_eq_false, if_false] at h
        have hoff := nand.toNat_add_retlen off hretlen (by omega)
        have hrem := nand.toNat_sub_retlen hretlen hle
        have hpageLen : (datbuf.read 0 nand.writesize).length = nand.writesize :=
          ByteMem.length_read _ _ _
        have hrest := ih _ _ _ _ _ _ (by rw [hrem]; exact Nat.dvd_sub hdvd (dvd_refl _))
          (by omega) (fun a h₁ h₂ => hgood a (by omega) (by omega))
          (fun a h₁ h₂ => by
            rw [m.write_of_le (by rw [hpageLen]; omega)]
            exact hff a (by omega) (by omega)) h
        rw [hrest, hoff, hrem, ByteMem.read_shift, hretlen, Nat.add_zero]
        have hjoin := m.write_read_add datbuf off.toNat 0 nand.writesize
          (remaining.toNat - nand.writesize)
        rw [Nat.zero_add, Nat.add_sub_cancel' hle] at hjoin
        exact hjoin

theorem exists_loopBound : ∃ fuel, loopBound = fuel + 1 :=
  Nat.exists_eq_succ_of_ne_zero (by simp [loopBound])

/-- Erasing a range and storing all of it is storing it. -/
theorem write_erased (m : ByteMem) (off : Nat) (data : List UInt8) :
    (nand.erased m off data.length).write off data = m.write off data := by
  funext a
  by_cases hin : off ≤ a ∧ a < off + data.length
  · have hidx : a - off < data.length := by omega
    have hleft := (nand.erased m off data.length).write_at off hidx
    have hright := m.write_at off hidx
    rw [show off + (a - off) = a by omega] at hleft hright
    rw [hleft, hright]
  · have hframe : a < off ∨ off + data.length ≤ a := by omega
    have hno : ¬ (off ≤ a ∧ a < off + data.length ∧ nand.Good a) := by
      rintro ⟨h₁, h₂, _⟩
      exact hin ⟨h₁, h₂⟩
    rw [ByteMem.write_frame _ hframe, ByteMem.write_frame _ hframe, erased, if_neg hno]

/-- `mtd_write_medium` once its range is known to be aligned and inside the device. -/
theorem writeMedium_eq {m : ByteMem} {offset len : UInt64} (buf : ByteMem)
    (ho : nand.erasesize ∣ offset.toNat) (hl : nand.erasesize ∣ len.toNat)
    (hrange : offset.toNat + len.toNat ≤ nand.size) :
    nand.writeMedium m offset buf len =
      match mtdSkipBad nand.mtd nand.ops loopBound (nand.erased m offset.toNat len.toNat) offset with
      | none => none
      | some off =>
          match mtdWriteLoop nand.mtd nand.ops loopBound (nand.erased m offset.toNat len.toNat) off len
            buf (-eopnotsupp) with
          | none => none
          | some (ret, m) => if ret ≠ 0 then some (-1, len, m) else some (0, len, m) := by
  have hW : ∀ x : UInt64, nand.erasesize ∣ x.toNat →
      ¬ mtdIsAlignedWithMinIoSize nand.mtd x = false := by
    intro x hx
    simp [nand.isAlignedWithMinIoSize_of_block hx]
  have herase := nand.eraseMedium_eq m ho hl hrange
  have hunlock : nand.ops.unlock m offset len = (-eopnotsupp, m) := rfl
  simp only [writeMedium, mtdWriteMedium, if_neg (hW offset ho), if_neg (hW len hl), hunlock, herase,
    ne_eq, not_true_eq_false, and_false, if_false]
  cases mtdSkipBad nand.mtd nand.ops loopBound (nand.erased m offset.toNat len.toNat) offset with
  | none => rfl
  | some off =>
      dsimp only
      cases mtdWriteLoop nand.mtd nand.ops loopBound (nand.erased m offset.toNat len.toNat) off len buf
        (-eopnotsupp) with
      | none => rfl
      | some p => rfl

/-- In a range without bad blocks an acknowledged write has stored exactly its data. -/
theorem writeMedium_good {m m' : ByteMem} {offset len : UInt64} {buf : ByteMem}
    (ho : nand.erasesize ∣ offset.toNat) (hl : nand.erasesize ∣ len.toNat)
    (hrange : offset.toNat + len.toNat ≤ nand.size)
    (hgood : ∀ a, offset.toNat ≤ a → a < offset.toNat + len.toNat → nand.Good a)
    (h : nand.writeMedium m offset buf len = some (0, len, m')) :
    m' = m.write offset.toNat (buf.read 0 len.toNat) := by
  rw [nand.writeMedium_eq buf ho hl hrange] at h
  rcases exists_loopBound with ⟨fuel, hfuel⟩
  by_cases hzero : len = 0
  · -- nothing is programmed, and the answer of `mtd_unlock` is taken for a failure
    split at h
    · cases h
    · rw [hfuel] at h
      simp [mtdWriteLoop, hzero, eopnotsupp] at h
  · have hpos : 0 < len.toNat := toNat_pos_of_ne_zero hzero
    have hfirst : nand.ops.blockIsbad (nand.erased m offset.toNat len.toNat) offset = 0 :=
      (nand.blockIsbad_eq_zero_iff _ (by omega)).2 (hgood _ (le_refl _) (by omega))
    have hskip : mtdSkipBad nand.mtd nand.ops loopBound (nand.erased m offset.toNat len.toNat) offset =
        some offset := by
      rw [hfuel]
      simp [mtdSkipBad, hfirst]
    rw [hskip] at h
    dsimp only at h
    split at h
    · cases h
    · rename_i ret m₁ hloop
      split at h
      · simp at h
      · rename_i hret
        have hret' : ret = 0 := not_not.1 hret
        cases h
        rw [hret'] at hloop
        have hff : ∀ a, offset.toNat ≤ a → a < offset.toNat + len.toNat →
            nand.erased m offset.toNat len.toNat a = 0xff := by
          intro a h₁ h₂
          rw [erased, if_pos ⟨h₁, h₂, hgood a h₁ h₂⟩]
        have hstored := nand.writeLoop_good loopBound _ _ _ _ _ _
          (dvd_trans nand.writesize_dvd hl) hrange hgood hff hloop
        have hlen : (buf.read 0 len.toNat).length = len.toNat := ByteMem.length_read _ _ _
        rw [hstored]
        rw [← hlen, hlen, ← nand.write_erased m offset.toNat (buf.read 0 len.toNat), hlen]

/-! ## Writing `0xff` across bad blocks -/

theorem goodAddrs_add (off k l : Nat) :
    nand.goodAddrs off (k + l) = nand.goodAddrs off k ++ nand.goodAddrs (off + k) l := by
  rw [goodAddrs, goodAddrs, goodAddrs, ← List.filter_append]
  congr 1
  exact List.range'_append_1.symm

/-- Where no block is bad, every address counts. -/
theorem goodAddrs_of_good {off len : Nat} (h : ∀ a, off ≤ a → a < off + len → nand.Good a) :
    nand.goodAddrs off len = List.range' off len := by
  refine List.filter_eq_self.2 ?_
  intro a ha
  rw [List.mem_range'_1] at ha
  simpa using h a ha.1 ha.2

/-- Where every block is bad, none does. -/
theorem goodAddrs_of_bad {off len : Nat} (h : ∀ a, off ≤ a → a < off + len → ¬ nand.Good a) :
    nand.goodAddrs off len = [] := by
  refine List.filter_eq_nil_iff.2 ?_
  intro a ha
  rw [List.mem_range'_1] at ha
  simpa using h a ha.1 ha.2

/-- A bad block leaves fewer good bytes than there are. -/
theorem length_goodAddrs_lt {off len a : Nat} (h₁ : off ≤ a) (h₂ : a < off + len)
    (hbad : ¬ nand.Good a) : (nand.goodAddrs off len).length < len := by
  have hexists : ∃ a ∈ List.range' off len, ¬ decide (nand.Good a) = true :=
    ⟨a, List.mem_range'_1.2 ⟨h₁, h₂⟩, by simpa using hbad⟩
  have hless := List.length_filter_lt_length_iff_exists.2 hexists
  rwa [List.length_range'] at hless

theorem length_goodAddrs_le (off len : Nat) : (nand.goodAddrs off len).length ≤ len := by
  refine le_trans (List.length_filter_le _ _) ?_
  rw [List.length_range']

/-- How many bytes the good blocks from `off` to the end of the device hold. -/
def room (off : Nat) : Nat :=
  (nand.goodAddrs off (nand.size - off)).length

theorem room_le (off : Nat) : nand.room off ≤ nand.size - off :=
  nand.length_goodAddrs_le _ _

theorem lt_size_of_room {off : Nat} (h : 0 < nand.room off) : off < nand.size := by
  have := nand.room_le off
  omega

theorem room_eq {off k : Nat} (h : off + k ≤ nand.size) :
    nand.room off = (nand.goodAddrs off k).length + nand.room (off + k) := by
  rw [room, show nand.size - off = k + (nand.size - (off + k)) by omega, goodAddrs_add,
    List.length_append, room]

/-- A bad block has no room. -/
theorem room_of_bad {off : Nat} (haligned : nand.erasesize ∣ off) (hlt : off < nand.size)
    (hbad : ¬ nand.Good off) : nand.room (off + nand.erasesize) = nand.room off := by
  have hnone : nand.goodAddrs off nand.erasesize = [] := by
    refine nand.goodAddrs_of_bad ?_
    intro a h₁ h₂ hgood
    have hk := nand.good_add haligned (k := a - off) (by omega)
    rw [show off + (a - off) = a by omega] at hk
    exact hbad (hk.1 hgood)
  rw [nand.room_eq (nand.block_le haligned hlt), hnone]
  simp

/-- A page of a good block is room. -/
theorem room_of_page {off : Nat} (hpage : nand.writesize ∣ off) (hlt : off < nand.size)
    (hgood : nand.Good off) : nand.room off = nand.writesize + nand.room (off + nand.writesize) := by
  have hall : ∀ a, off ≤ a → a < off + nand.writesize → nand.Good a :=
    fun a hle hlt => nand.good_of_page hpage hgood hle hlt
  rw [nand.room_eq (nand.page_le hpage hlt), nand.goodAddrs_of_good hall, List.length_range']

theorem room_add_le (off k : Nat) (h : off + k ≤ nand.size) :
    nand.room off ≤ k + nand.room (off + k) := by
  rw [nand.room_eq h]
  exact Nat.add_le_add_right (nand.length_goodAddrs_le off k) _

theorem toNat_add_erasesize {off : UInt64} (h : off.toNat + nand.erasesize ≤ nand.size) :
    (off + nand.mtd.erasesize.toUInt64).toNat = off.toNat + nand.erasesize := by
  have hdev := nand.size_lt
  rw [UInt64.toNat_add, nand.toNat_erasesize]
  exact Nat.mod_eq_of_lt (by omega)

/-- The search for the first good block ends where there is room. -/
theorem skipBad_eq (m : ByteMem) (fuel : Nat) :
    ∀ off : UInt64, nand.erasesize ∣ off.toNat → 0 < nand.room off.toNat →
      nand.size - off.toNat < fuel →
      ∃ off', mtdSkipBad nand.mtd nand.ops fuel m off = some off' ∧ nand.erasesize ∣ off'.toNat ∧
        nand.room off'.toNat = nand.room off.toNat := by
  induction fuel with
  | zero =>
      intro off _ _ hfuel
      omega
  | succ fuel ih =>
      intro off haligned hroom hfuel
      have hlt := nand.lt_size_of_room hroom
      have hblock := nand.block_le haligned hlt
      have hpos := nand.erasesize_pos
      by_cases hgood : nand.Good off.toNat
      · have hzero := (nand.blockIsbad_eq_zero_iff m hlt).2 hgood
        exact ⟨off, by simp [mtdSkipBad, hzero], haligned, rfl⟩
      · -- a bad block has no room, so there is as much behind it as before
        have hbad : nand.ops.blockIsbad m off ≠ 0 :=
          fun h0 => hgood ((nand.blockIsbad_eq_zero_iff m hlt).1 h0)
        have hoff := nand.toNat_add_erasesize hblock
        have hsame := nand.room_of_bad haligned hlt hgood
        rcases ih (off + nand.mtd.erasesize.toUInt64)
          (by rw [hoff]; exact Dvd.dvd.add haligned (dvd_refl _)) (by rw [hoff, hsame]; exact hroom)
          (by omega) with ⟨off', hskip, haligned', hroom'⟩
        refine ⟨off', ?_, haligned', ?_⟩
        · simp only [mtdSkipBad, if_pos hbad]
          exact hskip
        · rw [hroom', hoff, hsame]

/-- Pages of `0xff` are never programmed: the loop only walks over the good blocks. -/
theorem writeLoop_ff (m : ByteMem) (fuel : Nat) :
    ∀ (off remaining : UInt64) (datbuf : ByteMem) (ret : Int), nand.writesize ∣ off.toNat →
      nand.writesize ∣ remaining.toNat → remaining.toNat ≤ nand.room off.toNat →
      (∀ i, i < remaining.toNat → datbuf i = 0xff) → nand.size - off.toNat < fuel →
      (ret = 0 ∨ remaining ≠ 0) →
      mtdWriteLoop nand.mtd nand.ops fuel m off remaining datbuf ret = some (0, m) := by
  induction fuel with
  | zero =>
      intro off remaining datbuf ret _ _ _ _ hfuel _
      omega
  | succ fuel ih =>
      intro off remaining datbuf ret hoffW hremW hroom hff hfuel hret
      simp only [mtdWriteLoop]
      by_cases hne : remaining = 0
      · rcases hret with rfl | h
        · rw [if_pos hne]
        · exact absurd hne h
      · have hpos : 0 < remaining.toNat := toNat_pos_of_ne_zero hne
        have hlt := nand.lt_size_of_room (lt_of_lt_of_le hpos hroom)
        have hEpos := nand.erasesize_pos
        have hWpos := nand.writesize_pos
        rw [if_neg hne]
        by_cases hskip : mtdIsAlignedWithBlockSize nand.mtd off = true ∧
            nand.ops.blockIsbad m off ≠ 0
        · -- a bad block
          have haligned := (nand.isAlignedWithBlockSize_iff off).1 hskip.1
          have hbad : ¬ nand.Good off.toNat :=
            fun h => hskip.2 ((nand.blockIsbad_eq_zero_iff m hlt).2 h)
          have hoff := nand.toNat_add_erasesize (nand.block_le haligned hlt)
          have hsame := nand.room_of_bad haligned hlt hbad
          rw [if_pos hskip]
          refine ih _ _ _ _ ?_ hremW ?_ hff (by omega) hret
          · rw [hoff]
            exact Dvd.dvd.add hoffW nand.writesize_dvd
          · rw [hoff, hsame]
            exact hroom
        · -- a page of a good block
          have hpage := nand.page_le hoffW hlt
          have hle : nand.writesize ≤ remaining.toNat := Nat.le_of_dvd hpos hremW
          have hempty : mtdPageIsEmpty (datbuf.read 0 (ioLen nand.mtd remaining).toNat) = true := by
            rw [nand.toNat_ioLen hremW hne]
            refine List.all_eq_true.2 ?_
            intro x hx
            rcases List.mem_map.1 hx with ⟨i, hi, rfl⟩
            have hi' := List.mem_range.1 hi
            rw [Nat.zero_add, hff i (by omega)]
            rfl
          have hoff := nand.toNat_add_retlen _ nand.toNat_writesize hpage
          have hrem := nand.toNat_sub_retlen nand.toNat_writesize hle
          have hroom' := nand.room_add_le _ _ hpage
          rw [if_neg hskip]
          simp only [nand.hasPages_mtd, hempty, and_self, if_true, ne_eq, not_true_eq_false, if_false]
          refine ih _ _ _ _ ?_ ?_ ?_ ?_ (by omega) (Or.inl rfl)
          · rw [hoff]
            exact Dvd.dvd.add hoffW (dvd_refl _)
          · rw [hrem]
            exact Nat.dvd_sub hremW (dvd_refl _)
          · rw [hoff, hrem]
            omega
          · intro i hi
            rw [hrem] at hi
            rw [ByteMem.shift, nand.toNat_writesize]
            exact hff _ (by omega)

/-- A chunk of `0xff` is acknowledged, and all that has happened is the erasing. -/
theorem writeMedium_ff (m : ByteMem) {offset len : UInt64} (buf : ByteMem)
    (ho : nand.erasesize ∣ offset.toNat) (hl : nand.erasesize ∣ len.toNat) (hne : len ≠ 0)
    (hrange : offset.toNat + len.toNat ≤ nand.size) (hroom : len.toNat ≤ nand.room offset.toNat)
    (hff : ∀ i, i < len.toNat → buf i = 0xff) :
    nand.writeMedium m offset buf len = some (0, len, nand.erased m offset.toNat len.toNat) := by
  have hpos : 0 < len.toNat := toNat_pos_of_ne_zero hne
  have hdev := nand.size_lt
  have hfuel := nand.size_lt_loopBound
  rcases nand.skipBad_eq (nand.erased m offset.toNat len.toNat) loopBound offset ho (by omega)
    (by omega) with ⟨off, hskip, haligned, hsame⟩
  have hloop := nand.writeLoop_ff (nand.erased m offset.toNat len.toNat) loopBound off len buf
    (-eopnotsupp) (dvd_trans nand.writesize_dvd haligned) (dvd_trans nand.writesize_dvd hl)
    (by rw [hsame]; exact hroom) hff (by omega) (Or.inr hne)
  rw [nand.writeMedium_eq buf ho hl hrange, hskip]
  simp [hloop]

end Nand

/-! ## The delivery -/

section Delivery

variable {μ : Type} {board : Board μ} {t u v : KburnUsb μ} {c : Completion} {cs : List Completion}
  {size : Nat}

/-- A data packet whose chunk the medium has acknowledged. -/
def StoredStep (board : Board μ) (u : KburnUsb μ) (c : Completion) (v : KburnUsb μ) : Prop :=
  DataStep board u c v ∧ ¬ ChunkFails u c

/-- The data comes in full requests: 128 KiB each, and what is left in the last one. -/
def FullDelivery (size : Nat) (cs : List Completion) : Prop :=
  ∀ pre c post, cs = pre ++ c :: post →
    c.data.length = min usbEpBufferSize (size - (received pre).length)

theorem fullDelivery_snoc (cs : List Completion) (c : Completion) :
    FullDelivery size (cs ++ [c]) ↔
      FullDelivery size cs ∧ c.data.length = min usbEpBufferSize (size - (received cs).length) := by
  constructor
  · intro h
    refine ⟨?_, h cs c [] rfl⟩
    intro pre c' post hsplit
    exact h pre c' (post ++ [c]) (by simp [hsplit])
  · -- the packet in question is the last one, or one of the earlier delivery
    rintro ⟨h, hc⟩ pre c' post hsplit
    rcases List.eq_nil_or_concat post with rfl | ⟨post', c'', rfl⟩
    · have hlast : cs = pre ∧ c = c' := by simpa using hsplit
      rw [← hlast.1, ← hlast.2]
      exact hc
    · have hinit : cs ++ [c] = (pre ++ c' :: post') ++ [c''] := by simpa using hsplit
      exact h pre c' post' (List.append_inj_left' hinit rfl)

/-- As long as the data is not complete, whole requests were delivered. -/
theorem dvd_of_fullDelivery (h : FullDelivery size cs) (hlt : (received cs).length < size) :
    usbEpBufferSize ∣ (received cs).length := by
  induction cs using List.reverseRecOn with
  | nil => simp
  | append_singleton cs c ih =>
      rcases (fullDelivery_snoc cs c).1 h with ⟨hcs, hc⟩
      simp only [received_snoc, List.length_append] at hlt ⊢
      -- the last packet did not complete the data, so it was a full request
      have hfull : c.data.length = usbEpBufferSize := by omega
      rw [hfull]
      exact Dvd.dvd.add (ih hcs (by omega)) (dvd_refl _)

end Delivery

/-! ## Downloads that never finish -/

section Unfinished

variable {μ : Type} {board : Board μ} {job : Job μ} {t u v : KburnUsb μ} {c : Completion}
  {cs : List Completion} {w : WriteMedium μ}

theorem not_completed_of_inProgress (h : InProgress u v) : ¬ Completed c u v := by
  rintro ⟨_, req, hout, hcmd, _⟩
  rcases h with ⟨_, req', hout', hdata⟩
  rw [hout] at hout'
  cases hout'
  simp [hcmd] at hdata

/-- `2 ^ 32` missing bytes never become fewer, so `WRITE DONE` is never sent. -/
theorem not_completed_of_large (hw : job.burner.writeMedium = some w) (hlarge : 2 ^ 32 ≤ job.size)
    (hstart : Loading job (fun _ _ => True) board [] t) (hrun : Run (StoredStep board) t cs u)
    (hstep : StoredStep board u c v) : ¬ Completed c u v := by
  have hstores : Stores job (fun _ _ => True) w (fun _ _ => True) := by
    intro _ _ _ _ _ _ _ _ _ _ _
    trivial
  -- one more packet leaves `2 ^ 32` bytes missing
  have hnext : ∀ got u c v, Loading job (fun _ _ => True) board got u →
      2 ^ 32 ≤ job.size - got.length → StoredStep board u c v →
      InProgress u v ∧ ∃ got', Loading job (fun _ _ => True) board got' v ∧
        2 ^ 32 ≤ job.size - got'.length := by
    intro got u c v hload hmissing hstep
    have hlen : (taken job.size got c.data).length ≤ got.length + (job.size - got.length) % 2 ^ 32 := by
      simp only [taken, chunkOf, List.length_append, List.length_take]
      omega
    have hstill : 2 ^ 32 ≤ job.size - (taken job.size got c.data).length := by omega
    rcases loading_step hstores hload hw trivial hstep.1 with hbad | ⟨hge, _⟩ | ⟨_, hprogress, hload'⟩
    · exact absurd hbad hstep.2
    · omega
    · exact ⟨hprogress, _, hload', hstill⟩
  have hinv : ∃ got, Loading job (fun _ _ => True) board got u ∧ 2 ^ 32 ≤ job.size - got.length := by
    refine hrun.invariant (I := fun u => ∃ got, Loading job (fun _ _ => True) board got u ∧
      2 ^ 32 ≤ job.size - got.length) ⟨[], hstart, by simpa using hlarge⟩ ?_
    rintro u c v ⟨got, hload, hmissing⟩ hstep
    exact (hnext got u c v hload hmissing hstep).2
  rcases hinv with ⟨got, hload, hmissing⟩
  exact not_completed_of_inProgress (hnext got u c v hload hmissing hstep).1

end Unfinished

/-! ## The NAND chip behind the gadget -/

section NandBurn

variable {nand : Nand} {board : Board ByteMem} {job : Job ByteMem} {base : ByteMem}
  {t u v : KburnUsb ByteMem} {c : Completion} {cs : List Completion}

/-- A chunk that is not a number of blocks is refused. -/
theorem Nand.writeMedium_unaligned {m : ByteMem} {offset len : UInt64} (buf : ByteMem)
    (ho : nand.erasesize ∣ offset.toNat) (hl : ¬ nand.erasesize ∣ len.toNat) :
    nand.writeMedium m offset buf len = some (-1, len, m) := by
  have hoW : ¬ mtdIsAlignedWithMinIoSize nand.mtd offset = false := by
    simp [nand.isAlignedWithMinIoSize_of_block ho]
  have hunlock : nand.ops.unlock m offset len = (-eopnotsupp, m) := rfl
  have herase : mtdEraseMedium nand.mtd nand.ops m offset len = some (-1, len, m) :=
    nand.eraseMedium_unaligned nand.ops m fun h => hl h.2
  simp only [Nand.writeMedium, mtdWriteMedium, if_neg hoW, hunlock, herase, ne_eq, not_true_eq_false,
    and_false, if_false]
  split
  · rfl
  · rfl

theorem chunkFails_of_unaligned {Holds : List UInt8 → ByteMem → Prop} {got : List UInt8}
    (hw : job.burner.writeMedium = some nand.writeMedium)
    (ho : nand.erasesize ∣ job.offset + got.length)
    (hload : Loading job Holds board got u) (hstep : DataStep board u c v)
    (hl : ¬ nand.erasesize ∣ (chunkOf job.size got c.data).length) : ChunkFails u c := by
  rcases hstep with ⟨req, hmay, _⟩
  have hcall := chunkCall_of_loading hload hmay
  have hans := mediumAnswer_of_loading hload hw (arrived c req)
  rw [nand.writeMedium_unaligned _ (by rw [hcall.offset]; exact ho)
    (by rw [hcall.len]; exact hl)] at hans
  exact ⟨req, _, _, _, hmay, hans, Or.inl (by decide)⟩

/-- The chunks of a full delivery: they start and end at block boundaries. -/
structure WholeBlocks (nand : Nand) (size : Nat) (got chunk : List UInt8) : Prop where
  start : nand.erasesize ∣ got.length
  length : nand.erasesize ∣ chunk.length
  pos : 0 < chunk.length
  fits : got.length + chunk.length ≤ size

theorem wholeBlocks_of_fullDelivery (hsize : nand.erasesize ∣ job.size) (hlt : job.size < 2 ^ 32)
    (hblock : job.size ≤ usbEpBufferSize ∨ nand.erasesize ∣ usbEpBufferSize)
    (hfull : FullDelivery job.size (cs ++ [c])) (hopen : (received cs).length < job.size) :
    chunkOf job.size (received cs) c.data = c.data ∧
      WholeBlocks nand job.size (received cs) c.data := by
  rcases (fullDelivery_snoc cs c).1 hfull with ⟨hcs, hc⟩
  have hdvd := dvd_of_fullDelivery hcs hopen
  have hpos : 0 < usbEpBufferSize := by simp [usbEpBufferSize]
  have hstart : nand.erasesize ∣ (received cs).length := by
    rcases hblock with hsmall | hblock
    · -- a single request: nothing was received before it
      have hzero : (received cs).length = 0 := Nat.eq_zero_of_dvd_of_lt hdvd (by omega)
      rw [hzero]
      exact dvd_zero _
    · exact dvd_trans hblock hdvd
  have hlength : nand.erasesize ∣ c.data.length := by
    rw [hc]
    by_cases hlast : job.size - (received cs).length ≤ usbEpBufferSize
    · rw [Nat.min_eq_right hlast]
      exact Nat.dvd_sub hsize hstart
    · rw [Nat.min_eq_left (by omega)]
      rcases hblock with hsmall | hblock
      · omega
      · exact hblock
  refine ⟨?_, hstart, hlength, by omega, by omega⟩
  rw [chunkOf, Nat.mod_eq_of_lt (by omega)]
  exact List.take_of_length_le (by omega)

/-! ### Without bad blocks -/

variable (base) in
theorem stores_nand (hoffset : nand.erasesize ∣ job.offset)
    (hrange : job.offset + job.size ≤ nand.size)
    (hgood : ∀ a, job.offset ≤ a → a < job.offset + job.size → nand.Good a) :
    Stores job (Written base job.offset) nand.writeMedium (WholeBlocks nand job.size) := by
  intro got chunk m offset buf len m' hblocks hholds hcall h
  have hfits := hblocks.fits
  have hm := nand.writeMedium_good
    (by rw [hcall.offset]; exact Dvd.dvd.add hoffset hblocks.start)
    (by rw [hcall.len]; exact hblocks.length) (by rw [hcall.offset, hcall.len]; omega)
    (by
      intro a h₁ h₂
      rw [hcall.offset] at h₁ h₂
      rw [hcall.len] at h₂
      exact hgood a (by omega) (by omega)) h
  rw [Written, hm, hcall.offset, hcall.len, hcall.buf, hholds, ← ByteMem.write_append]

/-- Reading a range without bad blocks while skipping bad blocks. -/
theorem readSkippingBad_of_good {m : ByteMem} {offset size : Nat} (hrange : offset + size ≤ nand.size)
    (hgood : ∀ a, offset ≤ a → a < offset + size → nand.Good a) :
    (nand.readSkippingBad m offset).take size = m.read offset size := by
  have hsplit : nand.size - offset = size + (nand.size - (offset + size)) := by omega
  rw [Nand.readSkippingBad, hsplit, nand.goodAddrs_add, nand.goodAddrs_of_good hgood, List.map_append,
    List.take_append_of_le_length (by simp), List.take_of_length_le (by simp)]
  refine List.ext_getElem (by simp) ?_
  intro i h₁ h₂
  simp

/-! ### With a bad block: `0xff` written to a chip full of zeros -/

/-- All bytes are `0xff`. -/
def AllFf (data : List UInt8) : Prop :=
  ∀ x ∈ data, x = 0xff

/-- The chip was full of zeros; the good blocks behind `got` are erased. -/
def Blanked (nand : Nand) (offset : Nat) (got : List UInt8) (m : ByteMem) : Prop :=
  m = nand.erased (fun _ => 0) offset got.length

theorem writeMedium_of_allFf (hoffset : nand.erasesize ∣ job.offset)
    (hrange : job.offset + job.size ≤ nand.size) (hroom : job.size ≤ nand.room job.offset)
    {got chunk : List UInt8} (m : ByteMem) {offset : UInt64} {buf : ByteMem} {len : UInt64}
    (hblocks : WholeBlocks nand job.size got chunk) (hff : AllFf chunk)
    (hcall : ChunkCall job got chunk offset buf len) :
    nand.writeMedium m offset buf len =
      some (0, len, nand.erased m (job.offset + got.length) chunk.length) := by
  have hfits := hblocks.fits
  have hpos := hblocks.pos
  -- what the earlier chunks left of the room is enough
  have hroom' := nand.room_add_le job.offset got.length (by omega)
  have hne : len ≠ 0 := by
    intro h0
    have hlen := hcall.len
    rw [h0] at hlen
    simp at hlen
    omega
  have hbuf : ∀ i, i < len.toNat → buf i = 0xff := by
    intro i hi
    rw [hcall.len] at hi
    have hget := ByteMem.read_eq_iff.1 hcall.buf i hi
    rw [Nat.zero_add] at hget
    rw [hget]
    exact hff _ (List.getElem_mem hi)
  have h := nand.writeMedium_ff m buf
    (by rw [hcall.offset]; exact Dvd.dvd.add hoffset hblocks.start)
    (by rw [hcall.len]; exact hblocks.length) hne (by rw [hcall.offset, hcall.len]; omega)
    (by rw [hcall.offset, hcall.len]; omega) hbuf
  rw [h, hcall.offset, hcall.len]

theorem stores_blanked (hoffset : nand.erasesize ∣ job.offset)
    (hrange : job.offset + job.size ≤ nand.size) (hroom : job.size ≤ nand.room job.offset) :
    Stores job (Blanked nand job.offset) nand.writeMedium
      fun got chunk => WholeBlocks nand job.size got chunk ∧ AllFf chunk := by
  rintro got chunk m offset buf len m' ⟨hblocks, hff⟩ hholds hcall h
  rw [writeMedium_of_allFf hoffset hrange hroom m hblocks hff hcall] at h
  cases h
  rw [Blanked, hholds, nand.erased_add, List.length_append]

theorem acks_blanked (hoffset : nand.erasesize ∣ job.offset)
    (hrange : job.offset + job.size ≤ nand.size) (hroom : job.size ≤ nand.room job.offset) :
    Acks job (Blanked nand job.offset) nand.writeMedium
      fun got chunk => WholeBlocks nand job.size got chunk ∧ AllFf chunk := by
  rintro got chunk m offset buf len ⟨hblocks, hff⟩ _ hcall
  exact ⟨_, writeMedium_of_allFf hoffset hrange hroom m hblocks hff hcall⟩

variable (nand) in
/-- The host can send `0xff` to the end: every chunk is acknowledged, and `WRITE DONE` is sent.  The
induction is on what is missing. -/
theorem exists_blank_delivery (hw : job.burner.writeMedium = some nand.writeMedium)
    (hoffset : nand.erasesize ∣ job.offset) (hsize : nand.erasesize ∣ job.size)
    (hrange : job.offset + job.size ≤ nand.size) (hroom : job.size ≤ nand.room job.offset)
    (hlt : job.size < 2 ^ 32)
    (hblock : job.size ≤ usbEpBufferSize ∨ nand.erasesize ∣ usbEpBufferSize) :
    ∀ n cs u, job.size - (received cs).length = n →
      Loading job (Blanked nand job.offset) board (received cs) u → FullDelivery job.size cs →
      AllFf (received cs) → Run (StoredStep board) t cs u →
      ∃ cs c u v, FullDelivery job.size (cs ++ [c]) ∧ Run (StoredStep board) t cs u ∧
        StoredStep board u c v ∧ Completed c u v ∧ AllFf (received (cs ++ [c])) ∧
        (received (cs ++ [c])).length = job.size ∧
        v.medium = nand.erased (fun _ => 0) job.offset job.size := by
  intro n
  induction n using Nat.strong_induction_on with
  | _ n ih =>
      intro cs u hn hload hcs hff hrun
      have hopen := hload.unfinished
      let data : List UInt8 := List.replicate (min usbEpBufferSize (job.size - (received cs).length)) 0xff
      have hlen : data.length = min usbEpBufferSize (job.size - (received cs).length) :=
        List.length_replicate
      let c : Completion := hostSends data
      have hfull : FullDelivery job.size (cs ++ [c]) := (fullDelivery_snoc cs c).2 ⟨hcs, hlen⟩
      have hdataFf : AllFf data := fun x hx => (List.mem_replicate.1 hx).2
      rcases wholeBlocks_of_fullDelivery hsize hlt hblock hfull hopen with ⟨hchunk, hblocks⟩
      have hP : WholeBlocks nand job.size (received cs) (chunkOf job.size (received cs) c.data) ∧
          AllFf (chunkOf job.size (received cs) c.data) := by
        rw [hchunk]
        exact ⟨hblocks, hdataFf⟩
      rcases exists_dataStep (acks_blanked hoffset hrange hroom) hload hw _ hlen hP with ⟨v, hstep⟩
      have hgood : ¬ ChunkFails u c := not_chunkFails (acks_blanked hoffset hrange hroom) hload hw hP
      have htaken : taken job.size (received cs) c.data = received (cs ++ [c]) := by
        rw [taken, hchunk, received_snoc]
      have hff' : AllFf (received (cs ++ [c])) := by
        intro x hx
        rw [received_snoc, List.mem_append] at hx
        rcases hx with hx | hx
        · exact hff x hx
        · exact hdataFf x hx
      have hlen' : (received (cs ++ [c])).length = (received cs).length + data.length := by
        rw [received_snoc, List.length_append]
        rfl
      rcases loading_step (stores_blanked hoffset hrange hroom) hload hw hP hstep with
        hbad | ⟨hge, hdone, hholds⟩ | ⟨hopen', _, hload'⟩
      · exact absurd hbad hgood
      · rw [htaken] at hge hholds
        have hall : (received (cs ++ [c])).length = job.size := by
          have := hblocks.fits
          omega
        refine ⟨cs, c, u, v, hfull, hrun, ⟨hstep, hgood⟩, hdone, hff', hall, ?_⟩
        rw [Blanked, hall] at hholds
        exact hholds
      · rw [htaken] at hload'
        have hpos := hblocks.pos
        refine ih (job.size - (received (cs ++ [c])).length) ?_ (cs ++ [c]) v rfl hload' hfull hff'
          (hrun.snoc ⟨hstep, hgood⟩)
        have hcdata : c.data.length = data.length := rfl
        omega

/-- With a bad block in the range, the last good blocks that should hold the data lie behind the
range, and there the chip still holds zeros. -/
theorem readSkippingBad_erased_ne {offset size : Nat} (a₀ : Nat) (hrange : offset + size ≤ nand.size)
    (hroom : size ≤ nand.room offset) (h₁ : offset ≤ a₀) (h₂ : a₀ < offset + size)
    (hbad : ¬ nand.Good a₀) {data : List UInt8} (hff : AllFf data) (hlen : data.length = size) :
    (nand.readSkippingBad (nand.erased (fun _ => 0) offset size) offset).take size ≠ data := by
  intro heq
  -- the range has fewer good bytes than the data, so the next good byte lies behind it
  have hfew := nand.length_goodAddrs_lt h₁ h₂ hbad
  have hsplit : nand.goodAddrs offset (nand.size - offset) =
      nand.goodAddrs offset size ++ nand.goodAddrs (offset + size) (nand.size - (offset + size)) := by
    rw [← nand.goodAddrs_add]
    congr 1
    omega
  have hmore : (nand.goodAddrs offset size).length <
      (nand.goodAddrs offset (nand.size - offset)).length :=
    lt_of_lt_of_le hfew hroom
  have hbehind : (nand.goodAddrs offset (nand.size - offset))[(nand.goodAddrs offset size).length] ∈
      nand.goodAddrs (offset + size) (nand.size - (offset + size)) := by
    simp only [hsplit]
    rw [List.getElem_append_right (le_refl _)]
    exact List.getElem_mem _
  -- the byte read there
  have hread : ((nand.readSkippingBad (nand.erased (fun _ => 0) offset size) offset).take size)[
      (nand.goodAddrs offset size).length]? = some 0 := by
    rw [List.getElem?_take_of_lt hfew, Nand.readSkippingBad, List.getElem?_map,
      List.getElem?_eq_getElem hmore]
    have hge := (List.mem_range'_1.1 (List.mem_filter.1 hbehind).1).1
    rw [Option.map_some, Nand.erased, if_neg (by omega)]
  have hidx : (nand.goodAddrs offset size).length < data.length := by omega
  rw [heq, List.getElem?_eq_getElem hidx, hff _ (List.getElem_mem hidx)] at hread
  cases hread

/-! ## The theorem -/

/-- What a burn is for: if every chunk is acknowledged and `WRITE DONE` is sent, reading the device
from the offset while skipping bad blocks returns the delivered data. -/
def BurnCorrect (nand : Nand) (board : Board ByteMem) (offset size : UInt64) (t : KburnUsb ByteMem) :
    Prop :=
  ∀ cs c u v, FullDelivery size.toNat (cs ++ [c]) → Run (StoredStep board) t cs u →
    StoredStep board u c v → Completed c u v →
    (nand.readSkippingBad v.medium offset.toNat).take size.toNat = received (cs ++ [c])

theorem burnCorrect_of_good (hw : job.burner.writeMedium = some nand.writeMedium)
    (hoffset : nand.erasesize ∣ job.offset) (hsize : nand.erasesize ∣ job.size)
    (hrange : job.offset + job.size ≤ nand.size) (hlt : job.size < 2 ^ 32)
    (hblock : job.size ≤ usbEpBufferSize ∨ nand.erasesize ∣ usbEpBufferSize)
    (hgood : ∀ a, job.offset ≤ a → a < job.offset + job.size → nand.Good a)
    (hstart : Loading job (Written base job.offset) board [] t)
    (hfull : FullDelivery job.size (cs ++ [c])) (hrun : Run (StoredStep board) t cs u)
    (hstep : StoredStep board u c v) (hdone : Completed c u v) :
    (nand.readSkippingBad v.medium job.offset).take job.size = received (cs ++ [c]) := by
  have hstores := stores_nand base hoffset hrange hgood
  have hload : Loading job (Written base job.offset) board (received cs) u := by
    rcases hstep.1 with ⟨req, hmay, hmode, _⟩
    refine loading_of_open ?_ hmay hmode
    exact loading_run (Q := FullDelivery job.size) (fun _ _ _ h => h.1) hstores hw hlt
      (fun cs c h => ((fullDelivery_snoc cs c).1 h).1)
      (fun cs c h hopen => by
        rcases wholeBlocks_of_fullDelivery hsize hlt hblock h hopen with ⟨hchunk, hblocks⟩
        rw [hchunk]
        exact hblocks)
      (fun _ _ _ _ _ _ h => h.2) hstart hrun ((fullDelivery_snoc cs c).1 hfull).1
  rcases wholeBlocks_of_fullDelivery hsize hlt hblock hfull hload.unfinished with ⟨hchunk, hblocks⟩
  have htaken : taken job.size (received cs) c.data = received (cs ++ [c]) := by
    rw [taken, hchunk, received_snoc]
  rcases loading_step hstores hload hw (by rw [hchunk]; exact hblocks) hstep.1 with
    hbad | ⟨hge, _, hholds⟩ | ⟨_, hprogress, _⟩
  · exact absurd hbad hstep.2
  · rw [htaken] at hge hholds
    have hall : (received (cs ++ [c])).length = job.size := by
      have hfits := hblocks.fits
      rw [received_snoc, List.length_append] at hge ⊢
      omega
    rw [readSkippingBad_of_good hrange hgood, hholds, ← hall]
    exact ByteMem.read_write _ _ _
  · exact absurd hdone (not_completed_of_inProgress hprogress)

/-- A first chunk that is not a number of blocks is refused, so nothing is ever completed. -/
theorem not_storedStep_of_unaligned {Holds : List UInt8 → ByteMem → Prop}
    (hw : job.burner.writeMedium = some nand.writeMedium) (hoffset : nand.erasesize ∣ job.offset)
    (hlt : job.size < 2 ^ 32) (hbig : usbEpBufferSize < job.size)
    (hblock : ¬ nand.erasesize ∣ usbEpBufferSize) (hstart : Loading job Holds board [] t)
    (hfull : c.data.length = min usbEpBufferSize job.size) : ¬ StoredStep board t c u := by
  rintro ⟨hstep, hgood⟩
  refine hgood (chunkFails_of_unaligned hw (by simpa using hoffset) hstart hstep ?_)
  have hlen : (chunkOf job.size [] c.data).length = usbEpBufferSize := by
    simp only [chunkOf, List.length_nil, Nat.sub_zero, Nat.mod_eq_of_lt hlt, List.length_take]
    omega
  rw [hlen]
  exact hblock

/-- A burn of whole blocks that fit is correct, whatever the chip held and whatever is delivered, if
and only if no block of its nominal range is bad, or it is one that is never completed: its size does
not fit in 32 bits, or its chunks are not whole blocks. -/
theorem nand_burn_iff (nand : Nand) (board : Board ByteMem) (s : KburnUsb ByteMem) (c₀ : Completion)
    (offset size : UInt64) (b : Kburn ByteMem) (hburner : s.burner = some b)
    (hw : b.writeMedium = some nand.writeMedium) (hoffset : nand.erasesize ∣ offset.toNat)
    (hsize : nand.erasesize ∣ size.toNat) (hroom : size.toNat ≤ nand.room offset.toNat)
    (haccepted : ∃ t, WriteAccepted board s c₀ offset size t) :
    (∀ base t, WriteAccepted board { s with medium := base } c₀ offset size t →
        BurnCorrect nand board offset size t) ↔
      (∀ a, offset.toNat ≤ a → a < offset.toNat + size.toNat → nand.Good a) ∨
        2 ^ 32 ≤ size.toNat ∨
        (usbEpBufferSize < size.toNat ∧ ¬ nand.erasesize ∣ usbEpBufferSize) := by
  rcases haccepted with ⟨t₀, hacc₀⟩
  have hpos := hacc₀.size_pos
  have hle := nand.room_le offset.toNat
  have hrange : offset.toNat + size.toNat ≤ nand.size := by omega
  have hwrap : offset.toNat + size.toNat < 2 ^ 64 := by
    have := nand.size_lt
    omega
  constructor
  · intro hcorrect
    by_contra hnot
    rw [not_or, not_or] at hnot
    rcases hnot with ⟨hnot, hlt, hblock⟩
    push Not at hnot
    rcases hnot with ⟨a₀, h₁, h₂, hbad⟩
    have hblock' : size.toNat ≤ usbEpBufferSize ∨ nand.erasesize ∣ usbEpBufferSize := by
      by_contra h
      rw [not_or] at h
      exact hblock ⟨by omega, h.2⟩
    -- `0xff` burnt to a chip full of zeros shows which blocks were erased
    rcases hacc₀.with_medium (fun _ => 0) with ⟨t, hacc⟩
    have hload := loading_of_writeAccepted (Blanked nand offset.toNat)
      (s := { s with medium := fun _ => 0 }) hburner hwrap hacc (nand.erased_zero _ _).symm
    rcases exists_blank_delivery nand hw hoffset hsize hrange hroom (Nat.lt_of_not_le hlt) hblock' _ [] t
      rfl hload (fun _ _ _ h => by simp at h) (fun _ h => by simp at h) (Run.nil t) with
      ⟨cs, c, u, v, hfull, hrun, hstep, hdone, hff, hall, hmedium⟩
    have hread := hcorrect _ t hacc cs c u v hfull hrun hstep hdone
    rw [hmedium] at hread
    exact readSkippingBad_erased_ne a₀ hrange hroom h₁ h₂ hbad hff hall hread
  · intro hcond base t hacc cs c u v hfull hrun hstep hdone
    have hload : ∀ Holds : List UInt8 → ByteMem → Prop, Holds [] base →
        Loading (jobOf b offset size hwrap) Holds board [] t := by
      intro Holds hbase
      exact loading_of_writeAccepted Holds (s := { s with medium := base }) hburner hwrap hacc hbase
    by_cases hlarge : 2 ^ 32 ≤ size.toNat
    · exact absurd hdone (not_completed_of_large hw hlarge (hload _ trivial) hrun hstep)
    · have hlt : size.toNat < 2 ^ 32 := Nat.lt_of_not_le hlarge
      by_cases hblock : size.toNat ≤ usbEpBufferSize ∨ nand.erasesize ∣ usbEpBufferSize
      · have hgood : ∀ a, offset.toNat ≤ a → a < offset.toNat + size.toNat → nand.Good a := by
          rcases hcond with hgood | hcond | ⟨hbig, hcond⟩
          · exact hgood
          · exact absurd hcond hlarge
          · rcases hblock with hsmall | hblock
            · omega
            · exact absurd hblock hcond
        exact burnCorrect_of_good hw hoffset hsize hrange hlt hblock hgood
          (hload (Written base offset.toNat) (ByteMem.write_nil _ _).symm) hfull hrun hstep hdone
      · -- already the first chunk is refused
        rw [not_or] at hblock
        have hbig : usbEpBufferSize < size.toNat := Nat.lt_of_not_le hblock.1
        cases hrun with
        | nil =>
            refine absurd hstep (not_storedStep_of_unaligned hw hoffset hlt hbig hblock.2
              (hload (fun _ _ => True) trivial) ?_)
            exact hfull [] c [] rfl
        | @cons _ _ _ e es hfirst _ =>
            refine absurd hfirst (not_storedStep_of_unaligned hw hoffset hlt hbig hblock.2
              (hload (fun _ _ => True) trivial) ?_)
            exact hfull [] e (es ++ [c]) rfl

/-! A chip of four blocks of 128 KiB, with pages of 2 KiB. -/

theorem page2k_pos : 0 < 2048 := by
  decide

theorem page2k_dvd_block : 2048 ∣ 131072 := by
  decide

theorem block128k_pos : 0 < 131072 := by
  decide

theorem block128k_lt : 131072 < 2 ^ 32 := by
  decide

def fourBlocks (bad : Nat → Bool) : Nand where
  size := 4 * 131072
  erasesize := 131072
  writesize := 2048
  ntargets := 1
  bad := bad
  writesize_pos := page2k_pos
  writesize_dvd := page2k_dvd_block
  erasesize_pos := block128k_pos
  erasesize_lt := block128k_lt
  erasesize_dvd := by decide
  size_lt := by decide

def nandBurner (nand : Nand) : Kburn ByteMem :=
  (kburnGetMediumInfo (Kburn.ofProbe (kburnMtdProbe nand.mtd nand.ops))).2

def nandBoard (nand : Nand) : Board ByteMem where
  configKburnMmc := false
  configKburnSf := false
  configKburnMtd := true
  kburnMmcProbe := fun m _ => (none, m)
  kburnSfProbe := fun m => (none, m)
  kburnMtdProbe := fun m => (some (kburnMtdProbe nand.mtd nand.ops), m)
  maxpacket := 512
  maxpacket_pos := maxpacket_high_pos

/-- The gadget that waits for commands with the chip behind it, full of zeros. -/
def nandReady (nand : Nand) : KburnUsb ByteMem :=
  { kburnSetAlt configured (kburnAdd (fun _ => 0) 4096) with burner := some (nandBurner nand) }

theorem idle_nandReady (nand : Nand) :
    Idle (some (nandBurner nand)) (fun _ => 0) (nandReady nand) :=
  { idle_configured (fun _ => 0) 4096 (by decide) with burner := rfl }

theorem Nand.le_room_of_good {off k : Nat} (h : off + k ≤ nand.size)
    (hgood : ∀ a, off ≤ a → a < off + k → nand.Good a) : k ≤ nand.room off := by
  rw [nand.room_eq h, nand.goodAddrs_of_good hgood, List.length_range']
  exact Nat.le_add_right _ _

theorem good_fourBlocks {bad : Nat → Bool} {a i : Nat} (h₁ : i * 131072 ≤ a)
    (h₂ : a < i * 131072 + 131072) (hi : bad i = false) : (fourBlocks bad).Good a := by
  have hblock : a / 131072 = i := by omega
  have hgood : bad (a / 131072) = false := by rw [hblock, hi]
  exact hgood

/-- The first block, on a chip whose last block is bad. -/
theorem nand_burn_first_block :
    (∃ t, WriteAccepted (nandBoard (fourBlocks (· == 3))) (nandReady (fourBlocks (· == 3)))
        (hostSends (lbaPkt .writeLba 0 131072)) 0 131072 t) ∧
      ∀ base t, WriteAccepted (nandBoard (fourBlocks (· == 3)))
          { nandReady (fourBlocks (· == 3)) with medium := base }
          (hostSends (lbaPkt .writeLba 0 131072)) 0 131072 t →
        BurnCorrect (fourBlocks (· == 3)) (nandBoard (fourBlocks (· == 3))) 0 131072 t := by
  have hacc := (idle_nandReady (fourBlocks (· == 3))).writeAccepted
    (nandBoard (fourBlocks (· == 3))) 0 131072 rfl (by decide) (by decide)
  have hgood : ∀ a, (0 : UInt64).toNat ≤ a → a < (0 : UInt64).toNat + (131072 : UInt64).toNat →
      (fourBlocks (· == 3)).Good a := by
    intro a _ h
    exact good_fourBlocks (i := 0) (by omega) (by simpa using h) rfl
  refine ⟨hacc, ?_⟩
  exact (nand_burn_iff (fourBlocks (· == 3)) (nandBoard (fourBlocks (· == 3)))
    (nandReady (fourBlocks (· == 3))) (hostSends (lbaPkt .writeLba 0 131072)) 0 131072
    (nandBurner (fourBlocks (· == 3))) rfl rfl (by decide) (by decide)
    (Nand.le_room_of_good (by decide) hgood) hacc).2 (Or.inl hgood)

/-- The first block, on a chip full of zeros whose first block is bad: all is acknowledged, but the
second block, where the data should be, was never erased. -/
theorem nand_burn_bad_first_block :
    ∃ t cs c u v, WriteAccepted (nandBoard (fourBlocks (· == 0))) (nandReady (fourBlocks (· == 0)))
        (hostSends (lbaPkt .writeLba 0 131072)) 0 131072 t ∧
      FullDelivery 131072 (cs ++ [c]) ∧
      Run (StoredStep (nandBoard (fourBlocks (· == 0)))) t cs u ∧
      StoredStep (nandBoard (fourBlocks (· == 0))) u c v ∧ Completed c u v ∧
      ((fourBlocks (· == 0)).readSkippingBad v.medium 0).take 131072 ≠ received (cs ++ [c]) := by
  rcases (idle_nandReady (fourBlocks (· == 0))).writeAccepted (nandBoard (fourBlocks (· == 0)))
    0 131072 rfl (by decide) (by decide) with ⟨t, hacc⟩
  have hload := loading_of_writeAccepted (Blanked (fourBlocks (· == 0)) 0)
    (b := nandBurner (fourBlocks (· == 0))) rfl (by decide) hacc (Nand.erased_zero _ _ _).symm
  have hbad : ¬ (fourBlocks (· == 0)).Good 0 := by decide
  have hroom : 131072 ≤ (fourBlocks (· == 0)).room 0 := by
    rw [← Nand.room_of_bad _ (dvd_zero _) (by decide) hbad]
    refine Nand.le_room_of_good (by decide) ?_
    intro a h₁ h₂
    exact good_fourBlocks (i := 1) (by simpa [fourBlocks] using h₁) (by simpa [fourBlocks] using h₂) rfl
  rcases exists_blank_delivery (fourBlocks (· == 0)) rfl (by decide) (by decide) (by decide)
    hroom (by decide) (Or.inl (by decide)) _ [] t rfl hload (fun _ _ _ h => by simp at h)
    (fun _ h => by simp at h) (Run.nil t) with
    ⟨cs, c, u, v, hfull, hrun, hstep, hdone, hff, hall, hmedium⟩
  refine ⟨t, cs, c, u, v, hacc, hfull, hrun, hstep, hdone, ?_⟩
  rw [hmedium]
  exact readSkippingBad_erased_ne 0 (by decide) hroom (by decide) (by decide) hbad hff hall

end NandBurn

end Burn
end CanmvK230
