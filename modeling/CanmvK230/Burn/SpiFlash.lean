import CanmvK230.Burn.Mtd

/-!
# SpiFlash — the SPI-NOR back end (`kburn_sf.c`)

`sf_write_medium` erases the range of a chunk with one call and then writes the chunk in pieces of
4 KiB, leaving out the pieces that look empty.  The functions are generic in the layer below
(`SfOps`); of `spi_flash_erase` the alignment test of `sf_probe.c` is part of the model.

Each function of the pair that checks the alignment is named after the size the other one uses.
-/

namespace CanmvK230
namespace Burn

open Lib

/-- The fields of `struct spi_nor` that the burner reads. -/
structure SpiFlash where
  size : UInt32
  eraseSize : UInt32
  pageSize : UInt32
  eraseSize_pos : 0 < eraseSize.toNat
  pageSize_pos : 0 < pageSize.toNat

/-- `mtd->_erase` and `mtd->_write` of the flash. -/
structure SfOps (μ : Type) where
  erase : μ → UInt32 → UInt64 → Int × μ
  write : μ → UInt32 → UInt64 → ByteMem → Int × μ

section Source

variable {μ : Type} (flash : SpiFlash) (ops : SfOps μ)

-- `do { … } while (pdata++ < pend)` over `n` elements: the element at `pend` is looked at, too.
def sfScan (isFf : Nat → Bool) : Nat → Nat → Bool
  | 0, i => isFf i
  | n + 1, i => if isFf i = false then false else sfScan isFf n (i + 1)

/-- `sf_page_is_empty` for the buffer at the address `addr`. -/
def sfPageIsEmpty (addr : UInt64) (buf : ByteMem) (size : UInt64) : Bool :=
  if addr &&& 0x07 = 0 ∧ size % 8 = 0 then
    sfScan (fun i => (buf.read (8 * i) 8).all (· == 0xff)) (size / 8).toNat 0
  else
    sfScan (fun i => buf i == 0xff) size.toNat 0

def sfIsAlignedWithMinIoSize (size : UInt64) : Bool :=
  size % flash.eraseSize.toUInt64 == 0

def sfIsAlignedWithBlockSize (size : UInt64) : Bool :=
  size % flash.pageSize.toUInt64 == 0

/-- `spi_flash_std_erase`. -/
def spiFlashErase (m : μ) (offset : UInt32) (len : UInt64) : Int × μ :=
  if offset % flash.eraseSize ≠ 0 ∨ len % flash.eraseSize.toUInt64 ≠ 0 then
    (-einval, m)
  else
    ops.erase m offset len

/-- `send_len`. -/
def sfSendLen (remaining : UInt64) : UInt64 :=
  if remaining > 4096 then 4096 else remaining

-- `while (remaining)` of `sf_write_medium`; `buffer` is the memory seen from the pointer `addr`.
def sfWriteLoop : Nat → μ → UInt64 → UInt64 → UInt64 → ByteMem → Int → Option (Int × μ)
  | 0, _, _, _, _, _, _ => none
  | fuel + 1, m, off, remaining, addr, buffer, rc =>
      if remaining = 0 then
        some (if rc ≠ 0 then -1 else 0, m)
      else
        let sendLen := sfSendLen remaining
        if sfPageIsEmpty addr buffer sendLen = true then
          sfWriteLoop fuel m (off + sendLen) (remaining - sendLen) (addr + sendLen)
            (buffer.shift sendLen.toNat) rc
        else
          let written := ops.write m off.toUInt32 sendLen buffer
          if written.1 ≠ 0 then
            some (-1, written.2)
          else
            sfWriteLoop fuel written.2 (off + sendLen) (remaining - sendLen) (addr + sendLen)
              (buffer.shift sendLen.toNat) written.1

/-- `sf_write_medium` for a buffer at the address `addr`.  The gadget has two buffers that lie
128 KiB apart, so that both have the same address modulo 8. -/
def sfWriteMedium (addr : UInt64) : WriteMedium μ := fun m offset buf len =>
  if sfIsAlignedWithMinIoSize flash offset = false then
    some (-1, len, m)
  else if sfIsAlignedWithBlockSize flash len = false then
    some (-1, len, m)
  else
    let erased := spiFlashErase flash ops m offset.toUInt32 len
    if erased.1 ≠ 0 then
      some (-1, len, erased.2)
    else
      match sfWriteLoop ops loopBound erased.2 offset len addr buf erased.1 with
      | none => none
      | some (ret, m) => some (ret, len, m)

def sfEraseMedium : EraseMedium μ := fun m offset len =>
  let erased := spiFlashErase flash ops m offset.toUInt32 len
  some (erased.1, len, erased.2)

/-- What `kburn_sf_probe` fills in. -/
def kburnSfProbe (addr : UInt64) : KburnOps μ where
  desc :=
    { capacity := flash.size.toUInt64
      blkSize := flash.pageSize.toUInt64
      eraseSize := flash.eraseSize.toUInt64
      wp := 0 }
  getMediumInfo := some sfGetMediumInfo
  writeMedium := some (sfWriteMedium flash ops addr)
  eraseMedium := some (sfEraseMedium flash ops)
  destory := some fun m => (0, m)

end Source

/-! ## A flash that works -/

namespace SpiFlash

variable {μ : Type} {flash : SpiFlash} {ops : SfOps μ}

/-- No erase of whole sectors and no write inside the flash fails. -/
structure Works (flash : SpiFlash) (ops : SfOps μ) : Prop where
  erase : ∀ m (offset : UInt32) (len : UInt64), flash.eraseSize.toNat ∣ offset.toNat →
    flash.eraseSize.toNat ∣ len.toNat → offset.toNat + len.toNat ≤ flash.size.toNat →
    (ops.erase m offset len).1 = 0
  write : ∀ m (offset : UInt32) (len : UInt64) buf, offset.toNat + len.toNat ≤ flash.size.toNat →
    (ops.write m offset len buf).1 = 0

theorem mod_eq_zero_iff (x : UInt64) (y : UInt32) : x % y.toUInt64 = 0 ↔ y.toNat ∣ x.toNat := by
  rw [← UInt64.toNat_inj, UInt64.toNat_mod, UInt32.toNat_toUInt64, UInt64.toNat_zero]
  exact (Nat.dvd_iff_mod_eq_zero ..).symm

theorem toNat_toUInt32 {x : UInt64} (h : x.toNat < 2 ^ 32) : x.toUInt32.toNat = x.toNat := by
  rw [UInt64.toNat_toUInt32]
  exact Nat.mod_eq_of_lt h

theorem toNat_add_of_range (flash : SpiFlash) {x y : UInt64} (h : x.toNat + y.toNat ≤ flash.size.toNat) :
    (x + y).toNat = x.toNat + y.toNat := by
  have hdev := flash.size.toNat_lt
  rw [UInt64.toNat_add]
  exact Nat.mod_eq_of_lt (by omega)

theorem sfSendLen_bounds {remaining : UInt64} (hpos : 0 < remaining.toNat) :
    0 < (sfSendLen remaining).toNat ∧ (sfSendLen remaining).toNat ≤ remaining.toNat := by
  unfold sfSendLen
  split
  · rename_i hgt
    exact ⟨by decide, (UInt64.lt_iff_toNat_lt.1 hgt).le⟩
  · exact ⟨hpos, le_refl _⟩

theorem toNat_sub_sfSendLen {remaining : UInt64} (hpos : 0 < remaining.toNat) :
    (remaining - sfSendLen remaining).toNat = remaining.toNat - (sfSendLen remaining).toNat :=
  UInt64.toNat_sub_of_le _ _ (UInt64.le_iff_toNat_le.2 (sfSendLen_bounds hpos).2)

/-- The pieces are written or left out one after the other, and none fails. -/
theorem sfWriteLoop_works (hworks : Works flash ops) (fuel : Nat) :
    ∀ (m : μ) (off remaining addr : UInt64) (buffer : ByteMem), remaining.toNat < fuel →
      off.toNat + remaining.toNat ≤ flash.size.toNat →
      ∃ m', sfWriteLoop ops fuel m off remaining addr buffer 0 = some (0, m') := by
  have hdev := flash.size.toNat_lt
  induction fuel with
  | zero =>
      intro m off remaining addr buffer hfuel
      omega
  | succ fuel ih =>
      intro m off remaining addr buffer hfuel hrange
      by_cases hzero : remaining = 0
      · exact ⟨m, by simp [sfWriteLoop, hzero]⟩
      · have hpos := toNat_pos_of_ne_zero hzero
        have hsend := sfSendLen_bounds hpos
        have hrem := toNat_sub_sfSendLen hpos
        have hoff : (off + sfSendLen remaining).toNat = off.toNat + (sfSendLen remaining).toNat :=
          toNat_add_of_range flash (by omega)
        have hwrite := hworks.write m off.toUInt32 (sfSendLen remaining) buffer
          (by rw [toNat_toUInt32 (by omega)]; omega)
        simp only [sfWriteLoop, if_neg hzero, hwrite, ne_eq, not_true_eq_false, if_false]
        split
        · exact ih _ _ _ _ _ (by omega) (by omega)
        · exact ih _ _ _ _ _ (by omega) (by omega)

/-- A chunk inside a flash that works is acknowledged exactly when its offset and its length are
multiples of the erase size and its length one of the page size. -/
theorem sfWriteMedium_acks_iff (hworks : Works flash ops) (addr : UInt64) (m : μ) {offset len : UInt64}
    (buf : ByteMem) (hrange : offset.toNat + len.toNat ≤ flash.size.toNat) :
    (∃ m', sfWriteMedium flash ops addr m offset buf len = some (0, len, m')) ↔
      flash.eraseSize.toNat ∣ offset.toNat ∧ flash.eraseSize.toNat ∣ len.toNat ∧
        flash.pageSize.toNat ∣ len.toNat := by
  have hdev := flash.size.toNat_lt
  have hlow : offset.toUInt32.toNat = offset.toNat := toNat_toUInt32 (by omega)
  have hoff : sfIsAlignedWithMinIoSize flash offset = false ↔
      ¬ flash.eraseSize.toNat ∣ offset.toNat := by
    rw [← mod_eq_zero_iff, ← Bool.not_eq_true, sfIsAlignedWithMinIoSize, beq_iff_eq]
  have hlen : sfIsAlignedWithBlockSize flash len = false ↔ ¬ flash.pageSize.toNat ∣ len.toNat := by
    rw [← mod_eq_zero_iff, ← Bool.not_eq_true, sfIsAlignedWithBlockSize, beq_iff_eq]
  have hoff' : offset.toUInt32 % flash.eraseSize = 0 ↔ flash.eraseSize.toNat ∣ offset.toNat := by
    rw [← UInt32.toNat_inj, UInt32.toNat_mod, hlow, UInt32.toNat_zero]
    exact (Nat.dvd_iff_mod_eq_zero ..).symm
  constructor
  · -- each of the three tests ends the call with an error
    rintro ⟨m', h⟩
    unfold sfWriteMedium at h
    split at h
    · simp at h
    · rename_i h₁
      split at h
      · simp at h
      · rename_i h₂
        have ho := not_not.1 (mt hoff.2 h₁)
        refine ⟨ho, ?_, not_not.1 (mt hlen.2 h₂)⟩
        by_contra hl
        have hbad : offset.toUInt32 % flash.eraseSize ≠ 0 ∨
            len % flash.eraseSize.toUInt64 ≠ 0 :=
          Or.inr fun h0 => hl ((mod_eq_zero_iff _ _).1 h0)
        simp [spiFlashErase, if_pos hbad, einval] at h
  · rintro ⟨ho, hl, hp⟩
    have herase : (spiFlashErase flash ops m offset.toUInt32 len).1 = 0 := by
      have hok : ¬ (offset.toUInt32 % flash.eraseSize ≠ 0 ∨
          len % flash.eraseSize.toUInt64 ≠ 0) := by
        rw [not_or, not_not, not_not]
        exact ⟨hoff'.2 ho, (mod_eq_zero_iff _ _).2 hl⟩
      rw [spiFlashErase, if_neg hok]
      exact hworks.erase m _ len (by rwa [hlow]) hl (by rwa [hlow])
    have hfuel : len.toNat < loopBound := by
      have := len.toNat_lt
      simp only [loopBound]
      omega
    rcases sfWriteLoop_works hworks loopBound (spiFlashErase flash ops m offset.toUInt32 len).2 offset len
      addr buf hfuel hrange with ⟨m', hloop⟩
    refine ⟨m', ?_⟩
    simp only [sfWriteMedium, if_neg (fun h => hoff.1 h ho), if_neg (fun h => hlen.1 h hp), herase,
      ne_eq, not_true_eq_false, if_false, hloop]

end SpiFlash

end Burn
end CanmvK230
