import CanmvK230.Burn.SpiFlash
import CanmvK230.Burn.NandBurn

/-!
# NorWrite — what a chunk leaves on the SPI-NOR flash

`sf_write_medium` leaves out the pieces that `sf_page_is_empty` takes for empty.  The test may look
at more than the piece, so that it may answer no for an empty piece, and it never answers yes for
another one.  The content after a chunk is therefore the one that writing every piece gives.
-/

namespace CanmvK230
namespace Burn

open Lib

/-! ## The emptiness test -/

theorem sfScan_iff (isFf : Nat → Bool) (n i : Nat) :
    sfScan isFf n i = true ↔ ∀ j, i ≤ j → j ≤ i + n → isFf j = true := by
  induction n generalizing i with
  | zero =>
      constructor
      · intro h j h₁ h₂
        rwa [show j = i by omega]
      · intro h
        exact h i le_rfl le_rfl
  | succ n ih =>
      cases hi : isFf i with
      | false =>
          simp only [sfScan, hi, if_true, Bool.false_eq_true, false_iff]
          intro h
          rw [h i le_rfl (by omega)] at hi
          cases hi
      | true =>
          simp only [sfScan, hi, Bool.true_eq_false, if_false, ih]
          constructor
          · intro h j h₁ h₂
            rcases eq_or_lt_of_le h₁ with rfl | hlt
            · exact hi
            · exact h j hlt (by omega)
          · intro h j h₁ h₂
            exact h j (by omega) (by omega)

/-- The size of the elements that the scan compares. -/
def sfElemSize (addr size : UInt64) : Nat :=
  if addr &&& 0x07 = 0 ∧ size % 8 = 0 then 8 else 1

/-- The scan looks at one element more than the piece has. -/
theorem sfPageIsEmpty_iff (addr : UInt64) (buf : ByteMem) (size : UInt64) :
    sfPageIsEmpty addr buf size = true ↔
      ∀ i, i < size.toNat + sfElemSize addr size → buf i = 0xff := by
  unfold sfPageIsEmpty sfElemSize
  by_cases hwords : addr &&& 0x07 = 0 ∧ size % 8 = 0
  · have hsize : size.toNat = 8 * (size / 8).toNat := by
      have hmod : size.toNat % 8 = 0 := by
        have h := congrArg UInt64.toNat hwords.2
        rwa [UInt64.toNat_mod] at h
      rw [UInt64.toNat_div]
      exact (Nat.mul_div_cancel' (Nat.dvd_of_mod_eq_zero hmod)).symm
    rw [if_pos hwords, if_pos hwords, sfScan_iff]
    simp only [ByteMem.read, List.all_map, List.all_eq_true, List.mem_range, Function.comp_apply,
      beq_iff_eq, Nat.zero_le, Nat.zero_add, true_implies]
    constructor
    · intro h i hi
      have hat := h (i / 8) (by omega) (i % 8) (Nat.mod_lt _ (by decide))
      rwa [Nat.div_add_mod] at hat
    · intro h j hj k hk
      exact h _ (by omega)
  · rw [if_neg hwords, if_neg hwords, sfScan_iff]
    simp only [beq_iff_eq, Nat.zero_le, Nat.zero_add, true_implies, Nat.lt_succ_iff]

/-- No false positives. -/
theorem read_of_sfPageIsEmpty {addr : UInt64} {buf : ByteMem} {size : UInt64}
    (h : sfPageIsEmpty addr buf size = true) : mtdPageIsEmpty (buf.read 0 size.toNat) = true := by
  rw [mtdPageIsEmpty, List.all_eq_true]
  intro b hb
  rcases List.mem_map.1 hb with ⟨i, hi, rfl⟩
  have hi' : i < size.toNat := List.mem_range.1 hi
  rw [(sfPageIsEmpty_iff addr buf size).1 h (0 + i) (by omega), beq_self_eq_true]

/-! ## Writing every piece -/

namespace SpiFlash

/-- The bytes `data` written from `off` in pieces of 4 KiB, none left out. -/
def writePieces (m : ByteMem) (off : Nat) (data : List UInt8) : ByteMem :=
  if data = [] then
    m
  else
    writePieces (Nand.program m off (data.take 4096)) (off + 4096) (data.drop 4096)
termination_by data.length
decreasing_by
  rename_i hne
  have hpos := List.length_pos_iff.2 hne
  simp only [List.length_drop]
  omega

/-- On an erased range the pieces together are one write. -/
theorem writePieces_erased {m : ByteMem} {off : Nat} {data : List UInt8}
    (hff : ∀ a, off ≤ a → a < off + data.length → m a = 0xff) :
    writePieces m off data = m.write off data := by
  induction m, off, data using writePieces.induct with
  | case1 m off => rw [writePieces, if_pos rfl, ByteMem.write_nil]
  | case2 m off data hne ih =>
      have hlen : (data.take 4096).length ≤ data.length := List.length_take_le' _ _
      have hhead : Nand.program m off (data.take 4096) = m.write off (data.take 4096) :=
        Nand.program_erased fun a h₁ h₂ => hff a h₁ (by omega)
      rw [writePieces, if_neg hne]
      rw [hhead] at ih ⊢
      by_cases hlast : data.length ≤ 4096
      · -- the last piece
        rw [List.drop_eq_nil_of_le hlast, List.take_of_length_le hlast, writePieces, if_pos rfl]
      · have htake : (data.take 4096).length = 4096 := by
          rw [List.length_take]
          omega
        have hdrop : (data.drop 4096).length = data.length - 4096 := List.length_drop
        rw [ih]
        · calc (m.write off (data.take 4096)).write (off + 4096) (data.drop 4096)
              = (m.write off (data.take 4096)).write (off + (data.take 4096).length)
                  (data.drop 4096) := by rw [htake]
            _ = m.write off (data.take 4096 ++ data.drop 4096) := (m.write_append _ _ _).symm
            _ = m.write off data := by rw [List.take_append_drop]
        · intro a h₁ h₂
          rw [m.write_frame (Or.inr (by omega))]
          exact hff a (by omega) (by omega)

/-! ## The loop -/

variable {μ : Type} {flash : SpiFlash} {ops : SfOps μ} {content : μ → ByteMem}

/-- What the back end relies on: a call that reports success has erased, or has cleared the bits of,
exactly its range. -/
structure Exact (flash : SpiFlash) (ops : SfOps μ) (content : μ → ByteMem) : Prop where
  erase : ∀ m (offset : UInt32) (len : UInt64), offset.toNat + len.toNat ≤ flash.size.toNat →
    (ops.erase m offset len).1 = 0 →
      content (ops.erase m offset len).2 = (content m).fill offset.toNat len.toNat 0xff
  write : ∀ m (offset : UInt32) (len : UInt64) buf, offset.toNat + len.toNat ≤ flash.size.toNat →
    (ops.write m offset len buf).1 = 0 →
      content (ops.write m offset len buf).2 =
        Nand.program (content m) offset.toNat (buf.read 0 len.toNat)

/-- A piece is written to an erased range, or it is empty and the range has its bytes already. -/
theorem piece_stored (hflash : Exact flash ops content) {m m' : μ} {off n addr : UInt64}
    {buffer : ByteMem} (hrange : off.toNat + n.toNat ≤ flash.size.toNat)
    (hff : ∀ a, off.toNat ≤ a → a < off.toNat + n.toNat → content m a = 0xff)
    (hpiece : sfPageIsEmpty addr buffer n = true ∧ m' = m ∨
      (ops.write m off.toUInt32 n buffer).1 = 0 ∧ m' = (ops.write m off.toUInt32 n buffer).2) :
    content m' = (content m).write off.toNat (buffer.read 0 n.toNat) := by
  have hdev := flash.size.toNat_lt
  have hlow : off.toUInt32.toNat = off.toNat := toNat_toUInt32 (by omega)
  have hff' : ∀ a, off.toNat ≤ a → a < off.toNat + (buffer.read 0 n.toNat).length →
      content m a = 0xff := by
    rw [ByteMem.length_read]
    exact hff
  rcases hpiece with ⟨hempty, rfl⟩ | ⟨hok, rfl⟩
  · exact (Nand.write_of_empty (read_of_sfPageIsEmpty hempty) hff').symm
  · rw [hflash.write m _ n buffer (by rwa [hlow]) hok, hlow]
    exact Nand.program_erased hff'

/-- Enough fuel for every run: each round takes a piece off the rest. -/
theorem sfWriteLoop_returns (ops : SfOps μ) (fuel : Nat) :
    ∀ (m : μ) (off remaining addr : UInt64) (buffer : ByteMem) (rc : Int),
      remaining.toNat < fuel →
      ∃ r, sfWriteLoop ops fuel m off remaining addr buffer rc = some r := by
  induction fuel with
  | zero =>
      intro m off remaining addr buffer rc hfuel
      omega
  | succ fuel ih =>
      intro m off remaining addr buffer rc hfuel
      by_cases hzero : remaining = 0
      · exact ⟨_, by rw [sfWriteLoop, if_pos hzero]⟩
      · have hsend := sfSendLen_bounds (toNat_pos_of_ne_zero hzero)
        have hrem := toNat_sub_sfSendLen (toNat_pos_of_ne_zero hzero)
        simp only [sfWriteLoop, if_neg hzero]
        split
        · exact ih _ _ _ _ _ _ (by omega)
        · split
          · exact ⟨_, rfl⟩
          · exact ih _ _ _ _ _ _ (by omega)

/-- On an erased range the loop stores the buffer and changes nothing else. -/
theorem sfWriteLoop_stores (hflash : Exact flash ops content) (fuel : Nat) :
    ∀ (m m' : μ) (off remaining addr : UInt64) (buffer : ByteMem) (rc : Int),
      off.toNat + remaining.toNat ≤ flash.size.toNat →
      (∀ a, off.toNat ≤ a → a < off.toNat + remaining.toNat → content m a = 0xff) →
      sfWriteLoop ops fuel m off remaining addr buffer rc = some (0, m') →
      content m' = (content m).write off.toNat (buffer.read 0 remaining.toNat) := by
  have hdev := flash.size.toNat_lt
  induction fuel with
  | zero =>
      intro m m' off remaining addr buffer rc hrange hff h
      simp [sfWriteLoop] at h
  | succ fuel ih =>
      intro m m' off remaining addr buffer rc hrange hff h
      by_cases hzero : remaining = 0
      · rw [sfWriteLoop, if_pos hzero] at h
        have hm : m = m' := (Prod.mk.inj (Option.some.inj h)).2
        rw [hzero, UInt64.toNat_zero, ByteMem.read_zero, ByteMem.write_nil, hm]
      · have hsend := sfSendLen_bounds (toNat_pos_of_ne_zero hzero)
        have hrem := toNat_sub_sfSendLen (toNat_pos_of_ne_zero hzero)
        have hoff : (off + sfSendLen remaining).toNat =
            off.toNat + (sfSendLen remaining).toNat :=
          toNat_add_of_range flash (by omega)
        -- the state after this piece, and the rest of the run from it
        have hstep : ∃ m₁ rc₁, (sfPageIsEmpty addr buffer (sfSendLen remaining) = true ∧ m₁ = m ∨
              (ops.write m off.toUInt32 (sfSendLen remaining) buffer).1 = 0 ∧
                m₁ = (ops.write m off.toUInt32 (sfSendLen remaining) buffer).2) ∧
            sfWriteLoop ops fuel m₁ (off + sfSendLen remaining) (remaining - sfSendLen remaining)
              (addr + sfSendLen remaining) (buffer.shift (sfSendLen remaining).toNat) rc₁ =
                some (0, m') := by
          simp only [sfWriteLoop, if_neg hzero] at h
          split at h
          · rename_i hempty
            exact ⟨m, rc, Or.inl ⟨hempty, rfl⟩, h⟩
          · split at h
            · cases h
            · rename_i hok
              exact ⟨_, _, Or.inr ⟨not_not.1 hok, rfl⟩, h⟩
        rcases hstep with ⟨m₁, rc₁, hpiece, hrest⟩
        have hstored := piece_stored hflash (by omega) (fun a h₁ h₂ => hff a h₁ (by omega)) hpiece
        have hff₁ : ∀ a, (off + sfSendLen remaining).toNat ≤ a →
            a < (off + sfSendLen remaining).toNat + (remaining - sfSendLen remaining).toNat →
            content m₁ a = 0xff := by
          intro a h₁ h₂
          rw [hstored, ByteMem.write_frame _ (Or.inr (by rw [ByteMem.length_read]; omega))]
          exact hff a (by omega) (by omega)
        have htotal : (sfSendLen remaining).toNat + (remaining.toNat - (sfSendLen remaining).toNat) =
            remaining.toNat := Nat.add_sub_cancel' hsend.2
        calc content m'
            = (content m₁).write (off + sfSendLen remaining).toNat
                ((buffer.shift (sfSendLen remaining).toNat).read 0
                  (remaining - sfSendLen remaining).toNat) :=
              ih _ _ _ _ _ _ _ (by omega) hff₁ hrest
          _ = ((content m).write off.toNat (buffer.read 0 (sfSendLen remaining).toNat)).write
                (off.toNat + (sfSendLen remaining).toNat)
                (buffer.read (0 + (sfSendLen remaining).toNat)
                  (remaining.toNat - (sfSendLen remaining).toNat)) := by
              rw [hstored, hoff, hrem, ByteMem.read_shift, Nat.zero_add, Nat.add_zero]
          _ = (content m).write off.toNat (buffer.read 0 remaining.toNat) := by
              rw [ByteMem.write_read_add, htotal]

/-! ## A chunk -/

/-- A chunk that is acknowledged is erased and stored. -/
theorem sfWriteMedium_content (hflash : Exact flash ops content) {addr offset len : UInt64} {m m' : μ}
    {buf : ByteMem} (hrange : offset.toNat + len.toNat ≤ flash.size.toNat)
    (h : sfWriteMedium flash ops addr m offset buf len = some (0, len, m')) :
    content m' = ((content m).fill offset.toNat len.toNat 0xff).write offset.toNat
      (buf.read 0 len.toNat) := by
  have hdev := flash.size.toNat_lt
  have hlow : offset.toUInt32.toNat = offset.toNat := toNat_toUInt32 (by omega)
  unfold sfWriteMedium at h
  split at h
  · simp at h
  · split at h
    · simp at h
    · by_cases herase : (spiFlashErase flash ops m offset.toUInt32 len).1 = 0
      · -- the erase went through to the chip
        have hcall : spiFlashErase flash ops m offset.toUInt32 len =
            ops.erase m offset.toUInt32 len := by
          unfold spiFlashErase at herase ⊢
          split
          · rename_i hbad
            rw [if_pos hbad] at herase
            cases herase
          · rfl
        have herased : content (ops.erase m offset.toUInt32 len).2 =
            (content m).fill offset.toNat len.toNat 0xff := by
          rw [hcall] at herase
          rw [hflash.erase m _ len (by rwa [hlow]) herase, hlow]
        rw [hcall] at herase h
        simp only [herase, ne_eq, not_true_eq_false, if_false] at h
        cases hloop : sfWriteLoop ops loopBound (ops.erase m offset.toUInt32 len).2 offset len addr
            buf 0 with
        | none => simp [hloop] at h
        | some r =>
            rcases r with ⟨ret, m₁⟩
            simp only [hloop, Option.some.injEq, Prod.mk.injEq, true_and] at h
            rcases h with ⟨rfl, rfl⟩
            rw [sfWriteLoop_stores hflash loopBound _ _ _ _ _ _ _ hrange ?_ hloop, herased]
            intro a h₁ h₂
            rw [herased, ByteMem.fill, if_pos ⟨h₁, h₂⟩]
      · simp [if_pos herase] at h

/-- The call returns, whatever the chip answers. -/
theorem sfWriteMedium_returns (flash : SpiFlash) (ops : SfOps μ) (addr : UInt64) (m : μ)
    (offset : UInt64) (buf : ByteMem) (len : UInt64) :
    ∃ ret m', sfWriteMedium flash ops addr m offset buf len = some (ret, len, m') := by
  have hfuel : len.toNat < loopBound := by
    have := len.toNat_lt
    simp only [loopBound]
    omega
  unfold sfWriteMedium
  split
  · exact ⟨_, _, rfl⟩
  · split
    · exact ⟨_, _, rfl⟩
    · dsimp only
      split
      · exact ⟨_, _, rfl⟩
      · rcases sfWriteLoop_returns ops loopBound
          (spiFlashErase flash ops m offset.toUInt32 len).2 offset len addr buf
          (spiFlashErase flash ops m offset.toUInt32 len).1 hfuel with ⟨⟨ret, m'⟩, hloop⟩
        exact ⟨ret, m', by rw [hloop]⟩

/-- The call returns, and a chunk it acknowledges is on the flash, with every other byte as before;
leaving out the pieces that look empty makes no difference. -/
theorem sfWriteMedium_stores (hflash : Exact flash ops content) (addr : UInt64) (m : μ)
    (buf : ByteMem) {offset len : UInt64} (hrange : offset.toNat + len.toNat ≤ flash.size.toNat) :
    ∃ ret m', sfWriteMedium flash ops addr m offset buf len = some (ret, len, m') ∧
      (ret = 0 →
        (content m').read offset.toNat len.toNat = buf.read 0 len.toNat ∧
        (∀ a, a < offset.toNat ∨ offset.toNat + len.toNat ≤ a → content m' a = content m a) ∧
        content m' = writePieces ((content m).fill offset.toNat len.toNat 0xff) offset.toNat
          (buf.read 0 len.toNat)) := by
  rcases sfWriteMedium_returns flash ops addr m offset buf len with ⟨ret, m', h⟩
  refine ⟨ret, m', h, ?_⟩
  rintro rfl
  have hcontent := sfWriteMedium_content hflash hrange h
  refine ⟨?_, ?_, ?_⟩
  · rw [hcontent, ByteMem.read_write_of_length _ (ByteMem.length_read _ _ _)]
  · intro a ha
    rw [hcontent, ByteMem.write_frame _ (by rwa [ByteMem.length_read]), ByteMem.fill,
      if_neg (by omega)]
  · rw [hcontent, writePieces_erased]
    intro a h₁ h₂
    rw [ByteMem.length_read] at h₂
    rw [ByteMem.fill, if_pos ⟨h₁, h₂⟩]

/-- A chip of 16 KiB that never fails. -/
def smallFlash : SpiFlash where
  size := 0x4000
  eraseSize := 0x1000
  pageSize := 0x100
  eraseSize_pos := by decide
  pageSize_pos := by decide

def exactOps : SfOps ByteMem where
  erase m offset len := (0, m.fill offset.toNat len.toNat 0xff)
  write m offset len buf := (0, Nand.program m offset.toNat (buf.read 0 len.toNat))

theorem exact_exactOps : Exact smallFlash exactOps id where
  erase _ _ _ _ _ := rfl
  write _ _ _ _ _ _ := rfl

theorem works_exactOps : Works smallFlash exactOps where
  erase _ _ _ _ _ _ := rfl
  write _ _ _ _ _ := rfl

-- two blocks, of which the first is empty, over a flash of zeros
theorem sfWriteMedium_stores_twoBlocks :
    ∃ m', sfWriteMedium smallFlash exactOps 0 (fun _ => 0) 0x1000
        (fun i => if i < 4096 then 0xff else 7) 0x2000 = some (0, 0x2000, m') ∧
      m'.read 4096 8192 = ByteMem.read (fun i => if i < 4096 then 0xff else 7) 0 8192 ∧
      m' 0 = 0 := by
  have hrange : (0x1000 : UInt64).toNat + (0x2000 : UInt64).toNat ≤ smallFlash.size.toNat := by
    decide
  rcases (sfWriteMedium_acks_iff works_exactOps 0 (fun _ => 0)
    (fun i => if i < 4096 then 0xff else 7) hrange).2 (by decide) with ⟨m', hm'⟩
  rcases sfWriteMedium_stores exact_exactOps 0 (fun _ => 0)
    (fun i => if i < 4096 then 0xff else 7) hrange with ⟨ret, m₁, hm₁, hstores⟩
  rw [hm'] at hm₁
  rcases Prod.mk.inj (Option.some.inj hm₁) with ⟨rfl, hpair⟩
  rcases Prod.mk.inj hpair with ⟨-, rfl⟩
  rcases hstores rfl with ⟨hread, hframe, -⟩
  exact ⟨m', hm', hread, hframe 0 (Or.inl (by decide))⟩

end SpiFlash

end Burn
end CanmvK230
