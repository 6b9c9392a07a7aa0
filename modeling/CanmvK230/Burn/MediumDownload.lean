import CanmvK230.Burn.MtdLog
import CanmvK230.Burn.NorCore
import CanmvK230.Burn.MmcCore

/-!
# MediumDownload — a download to a medium behind a driver

What the gadget needs of a back end is that a chunk it acknowledges is stored, and that it touches nothing
outside the range of the download, acknowledged or not (`KeepsRange`).  From this follows what the data phase
does, packet by packet, with a chunk that fails at any point (`download_keepsRange`).

The back end of `kburn_mmc.c` on the commands of a card is such a medium (`mmc_download`), and so is the one
of `kburn_sf.c` on those of a NOR flash (`sf_download`).
-/

namespace CanmvK230
namespace Burn

open Lib

section Range

variable {μ : Type}

/-- What the back end does with a chunk inside `[lo, hi)` at a whole block: it answers, and nothing outside
of the range is touched; a chunk that it acknowledges is of whole blocks, and stored. -/
structure KeepsRange (w : WriteMedium μ) (view : μ → ByteMem) (block lo hi : Nat) : Prop where
  contained : ∀ m (offset : UInt64) buf (len : UInt64), block ∣ offset.toNat → lo ≤ offset.toNat →
    offset.toNat + len.toNat ≤ hi → ∃ ret len' m', w m offset buf len = some (ret, len', m') ∧
      ∀ a, a < lo ∨ hi ≤ a → view m' a = view m a
  stored : ∀ m (offset : UInt64) buf (len : UInt64) m', block ∣ offset.toNat → lo ≤ offset.toNat →
    offset.toNat + len.toNat ≤ hi → w m offset buf len = some (0, len, m') →
      block ∣ len.toNat ∧ view m' = (view m).write offset.toNat (buf.read 0 len.toNat)

/-- What the medium holds after whole blocks of the download. -/
structure Stored (view : μ → ByteMem) (base : ByteMem) (block lo : Nat) (got : List UInt8) (m : μ) :
    Prop where
  dvd : block ∣ got.length
  content : view m = base.write lo got

/-- The data phase at a medium that can fail.  As long as no chunk has failed, the handler returns for whatever
comes next, and nothing outside of the range has been touched.  Unless that chunk fails too, the medium has
what was received, up to the announced size, and `WRITE DONE` is answered when the size is reached and not
before. -/
def DownloadKeeps (board : Board μ) (view : μ → ByteMem) (base : ByteMem) (offset size : Nat)
    (t : KburnUsb μ) : Prop :=
  ∀ cs u c req, Run (StoredStep board) t cs u → MayComplete u c req →
    req.complete = .rxWriteLbaHandler → c.status = 0 → 0 < c.data.length →
    ∃ v, outComplete board c u = .ok v ∧
      (∀ a, a < offset ∨ offset + size ≤ a → view v.medium a = base a) ∧
      (¬ ChunkFails u c →
        view v.medium = base.write offset ((received (cs ++ [c])).take size) ∧
        if size ≤ (received (cs ++ [c])).length then Completed c u v else InProgress u v)

variable {board : Board μ} {job : Job μ} {w : WriteMedium μ} {view : μ → ByteMem} {base : ByteMem}
  {block : Nat} {c : Completion} {got : List UInt8} {t u : KburnUsb μ} {req : UsbRequest}

/-- The gadget never takes more than it was told to expect. -/
theorem chunkOf_fits (size : Nat) (data : List UInt8) (h : got.length ≤ size) :
    got.length + (chunkOf size got data).length ≤ size := by
  have hle := length_taken_le data h
  rwa [taken, List.length_append] at hle

variable (hkeeps : KeepsRange w view block job.offset (job.offset + job.size))
  (hblock : block ∣ job.offset)
include hkeeps hblock

theorem stores_keepsRange :
    Stores job (Stored view base block job.offset) w
      fun got chunk => got.length + chunk.length ≤ job.size := by
  intro got chunk m offset buf len m' hfits hstored hcall hrun
  have hoffset : block ∣ offset.toNat := by
    rw [hcall.offset]
    exact Dvd.dvd.add hblock hstored.dvd
  have hlo := hcall.offset
  have hlen := hcall.len
  rcases hkeeps.stored m offset buf len m' hoffset (by omega) (by omega) hrun with ⟨hdvd, hcontent⟩
  rw [hlen] at hdvd
  constructor
  · rw [List.length_append]
    exact Dvd.dvd.add hstored.dvd hdvd
  · rw [hcontent, hlo, hlen, hcall.buf, hstored.content, ← ByteMem.write_append]

/-- The back end answers the chunk of the next packet. -/
theorem mediumAnswer_keepsRange (h : Loading job (Stored view base block job.offset) board got t)
    (hw : job.burner.writeMedium = some w) (hmay : MayComplete t c req) :
    ∃ ret len' m', mediumAnswer t (arrived c req) = some (ret, len', m') ∧
      ∀ a, a < job.offset ∨ job.offset + job.size ≤ a → view m' a = view t.medium a := by
  have hcall := chunkCall_of_loading h hmay
  have hoffset : block ∣ t.offset.toNat := by
    rw [hcall.offset]
    exact Dvd.dvd.add hblock h.medium.dvd
  have hfits := chunkOf_fits job.size c.data h.unfinished.le
  have hlo := hcall.offset
  have hlen := hcall.len
  rw [mediumAnswer_of_loading h hw]
  exact hkeeps.contained _ _ _ _ hoffset (by omega) (by omega)

/-- No data packet stops the handler. -/
theorem outComplete_keepsRange (h : Loading job (Stored view base block job.offset) board got t)
    (hw : job.burner.writeMedium = some w) (hmay : MayComplete t c req) (hstatus : c.status = 0) :
    ∃ u, outComplete board c t = .ok u := by
  have hmode : req.complete = .rxWriteLbaHandler := by
    rcases h.outReq with ⟨req', hout, hmode', _⟩
    rw [hmay.1] at hout
    cases hout
    exact hmode'
  rcases mediumAnswer_keepsRange hkeeps hblock h hw hmay with ⟨ret, len', m, hans, _⟩
  -- the handler has three ends: the chunk has failed, the size is reached, or it waits for more
  by_cases hbad : ret ≠ 0 ∨ len' ≠ (transferSize t (arrived c req).actual).toUInt64
  · rcases rxWriteLbaHandler_failed board h.bufHead hstatus hans hbad with ⟨v, hhandler⟩
    exact ⟨_, outComplete_of_data hmay.1 hmode hhandler⟩
  · rw [not_or, not_not, not_not] at hbad
    rw [hbad.1, hbad.2] at hans
    by_cases hdone : t.dlSize ≤ t.dlBytes + (transferSize t (arrived c req).actual).toUInt64
    · have hhandler := rxWriteLbaHandler_done board h.bufHead hstatus hans hdone
      exact ⟨_, outComplete_of_data hmay.1 hmode hhandler⟩
    · have hhandler := rxWriteLbaHandler_more board h.bufHead hstatus hans hdone
      exact ⟨_, outComplete_of_data hmay.1 hmode hhandler⟩

/-- The medium after a data packet is what the back end has made of it. -/
theorem medium_of_dataStep (h : Loading job (Stored view base block job.offset) board got t)
    (hw : job.burner.writeMedium = some w) (hstep : DataStep board t c u) :
    ∀ a, a < job.offset ∨ job.offset + job.size ≤ a → view u.medium a = view t.medium a := by
  rcases hstep with ⟨req, hmay, hmode, hstatus, _, hrun⟩
  rcases mediumAnswer_keepsRange hkeeps hblock h hw hmay with ⟨ret, len', m', hans', hframe⟩
  rcases outComplete_data hmay.1 hmode hrun with ⟨v, req', hhandler, rfl⟩
  rcases rxWriteLbaHandler_effect hhandler with ⟨t₁, hget, heffect⟩
  rw [getKburnUsb_of_bufHead_ne_zero h.bufHead] at hget
  cases hget
  cases heffect with
  | refused hbad _ => exact absurd hstatus hbad
  | failed r x m _ hans _ hlost =>
      rw [hans] at hans'
      cases hans'
      rw [hlost.medium]
      exact hframe
  | done m _ hans _ htaken _ _ _ _ _ =>
      rw [hans] at hans'
      cases hans'
      rw [htaken.medium]
      exact hframe
  | more m _ hans _ htaken _ _ _ _ _ =>
      rw [hans] at hans'
      cases hans'
      rw [htaken.medium]
      exact hframe

/-- The data phase, packet by packet. -/
theorem loading_keepsRange (hw : job.burner.writeMedium = some w) (hlt : job.size < 2 ^ 32)
    (hstart : Loading job (Stored view base block job.offset) board [] t) :
    DownloadKeeps board view base job.offset job.size t := by
  intro cs u c req hrun hmay hmode hstatus hpos
  have hstores := @stores_keepsRange _ job w view base block hkeeps hblock
  -- no chunk has failed in the run, so that the medium has all that was received
  have hload : Loading job (Stored view base block job.offset) board (received cs) u := by
    refine loading_of_open ?_ hmay hmode
    exact loading_run (Q := fun _ => True) (fun _ _ _ h => h.1) hstores hw hlt (fun _ _ _ => trivial)
      (fun _ c _ hopen => chunkOf_fits job.size c.data hopen.le) (fun _ _ _ _ _ _ h => h.2) hstart hrun
      trivial
  rcases outComplete_keepsRange hkeeps hblock hload hw hmay hstatus with ⟨v, hv⟩
  have hstep : DataStep board u c v := ⟨req, hmay, hmode, hstatus, hpos, hv⟩
  refine ⟨v, hv, fun a ha => ?_, fun hgood => ?_⟩
  · have hlen := hload.unfinished
    rw [medium_of_dataStep hkeeps hblock hload hw hstep a ha, hload.medium.content,
      ByteMem.write_frame _ (by omega)]
  · -- of the last packet the gadget takes what is missing
    have htake : taken job.size (received cs) c.data = (received (cs ++ [c])).take job.size := by
      rw [received_snoc]
      exact taken_eq_take c.data hload.unfinished.le (lt_of_le_of_lt (Nat.sub_le _ _) hlt)
    have hlen : (taken job.size (received cs) c.data).length =
        min job.size (received (cs ++ [c])).length := by
      rw [htake, List.length_take]
    rcases loading_step hstores hload hw (chunkOf_fits job.size c.data hload.unfinished.le) hstep with
      hbad | ⟨hge, hcompleted, hholds⟩ | ⟨hopen, hprogress, hload'⟩
    · exact absurd hbad hgood
    · rw [htake] at hholds
      rw [if_pos (by omega)]
      exact ⟨hholds.content, hcompleted⟩
    · have hholds := hload'.medium
      rw [htake] at hholds
      rw [if_neg (by omega)]
      exact ⟨hholds.content, hprogress⟩

omit hkeeps hblock in
/-- A `WRITE_LBA` that is accepted for a range the back end keeps to. -/
theorem download_keepsRange {b : Kburn μ} (hw : b.writeMedium = some w) {s : KburnUsb μ}
    {c₀ : Completion} {offset size : UInt64} (hburner : s.burner = some b)
    (haccepted : WriteAccepted board s c₀ offset size t) (hblock : block ∣ offset.toNat)
    (hwrap : offset.toNat + size.toNat < 2 ^ 64) (hlt : size.toNat < 2 ^ 32)
    (hkeeps : KeepsRange w view block offset.toNat (offset.toNat + size.toNat)) :
    DownloadKeeps board view (view s.medium) offset.toNat size.toNat t := by
  have hstart := loading_of_writeAccepted (Stored view (view s.medium) block offset.toNat) hburner hwrap
    haccepted ⟨Nat.dvd_zero _, (ByteMem.write_nil _ _).symm⟩
  exact @loading_keepsRange _ board (jobOf b offset size hwrap) w view (view s.medium) block t hkeeps hblock
    hw hlt hstart

end Range

/-! ## The card -/

section Card

variable {σ : Type} {mmc : Mmc} {bus : MmcBus σ} {v : MmcView σ} {board : Board σ}
  {s t : KburnUsb σ}

/-- `mmc_op` works with the rounded length only. -/
theorem mmcOp_alignUp (desc : MmcDesc σ) (op : UInt64 → UInt64 → UInt64 × σ) (m : σ)
    (offset len : UInt64) :
    mmcOp desc op m offset len = mmcOp desc op m offset (alignUp len desc.blksz) := by
  have hself : alignUp (alignUp len desc.blksz) desc.blksz = alignUp len desc.blksz := by
    rw [alignUp_eq_self_iff, toNat_alignUp]
    exact Nat.dvd_mul_left _ _
  simp only [mmcOp, hself]

/-- `*len` comes back rounded. -/
theorem mmcOp_len (desc : MmcDesc σ) (op : UInt64 → UInt64 → UInt64 × σ) (m : σ) (offset len : UInt64) :
    (mmcOp desc op m offset len).2.1 = alignUp len desc.blksz := by
  simp only [mmcOp]
  split
  · rfl
  · split
    · rfl
    · rfl

/-- A length that ends in front of a whole block is not rounded over it. -/
theorem alignUp_le {desc : MmcDesc σ} {len : UInt64} {n : Nat} (hdvd : desc.blksz.toNat ∣ n)
    (hle : len.toNat ≤ n) (hlt : n + desc.blksz.toNat ≤ 2 ^ 64) :
    desc.blksz.toNat ∣ (alignUp len desc.blksz).toNat ∧ (alignUp len desc.blksz).toNat ≤ n := by
  have hpos := blksz_pos desc
  rw [toNat_alignUp, Nat.mod_eq_of_lt (by omega)]
  refine ⟨Nat.dvd_mul_left _ _, ?_⟩
  obtain ⟨q, rfl⟩ := hdvd
  have hquot : (len.toNat + (desc.blksz.toNat - 1)) / desc.blksz.toNat < q + 1 := by
    rw [Nat.div_lt_iff_lt_mul hpos, Nat.add_mul, Nat.one_mul, Nat.mul_comm q]
    omega
  calc (len.toNat + (desc.blksz.toNat - 1)) / desc.blksz.toNat * desc.blksz.toNat
      ≤ q * desc.blksz.toNat := Nat.mul_le_mul_right _ (Nat.lt_succ_iff.1 hquot)
    _ = desc.blksz.toNat * q := Nat.mul_comm _ _

/-- A range of the card is one of addresses. -/
theorem range_lt_of_fits (hfits : mmc.Fits) {k : Nat} (hk : k < 32) {n : Nat}
    (hrange : n ≤ mmc.lba.toNat * 2 ^ k) : n < 2 ^ 64 := by
  have hlba := hfits.lba_lt
  calc n
      ≤ mmc.lba.toNat * 2 ^ k := hrange
    _ ≤ (2 ^ 32 - 1) * 2 ^ 32 := Nat.mul_le_mul hlba.le (Nat.pow_le_pow_right (by decide) hk.le)
    _ < 2 ^ 64 := by decide

variable (hcard : MmcCard mmc bus v)
include hcard

/-- A range of whole blocks of the card. -/
theorem keepsRange_mmc (hfits : mmc.Fits) {k : Nat} (hk : k < 32) (hbl : mmc.writeBlLen.toNat = 2 ^ k)
    (lo : Nat) {hi : Nat} (hhi : 2 ^ k ∣ hi) (hrange : hi ≤ mmc.lba.toNat * 2 ^ k) :
    KeepsRange (mmcWriteMedium (coreDesc mmc bus k hk)) v.content (2 ^ k) lo hi := by
  have hblksz : (coreDesc mmc bus k hk).blksz.toNat = 2 ^ k := toNat_blksz _
  -- rounding up does not wrap
  have hroom : hi + 2 ^ k ≤ 2 ^ 64 := by
    have hlba := hfits.lba_lt
    calc hi + 2 ^ k
        ≤ (mmc.lba.toNat + 1) * 2 ^ k := by
          rw [Nat.add_mul, Nat.one_mul]
          omega
      _ ≤ 2 ^ 32 * 2 ^ 32 := Nat.mul_le_mul (by omega) (Nat.pow_le_pow_right (by decide) hk.le)
      _ = 2 ^ 64 := by decide
  refine ⟨fun m offset buf len hoffset hlo hin => ?_, fun m offset buf len m' hoffset hlo hin hrun => ?_⟩
  · -- the length is rounded to whole blocks, which are still in the range
    have hrest : 2 ^ k ∣ hi - offset.toNat := Nat.dvd_sub hhi hoffset
    rcases @alignUp_le _ (coreDesc mmc bus k hk) len (hi - offset.toNat) (by rwa [hblksz]) (by omega)
      (by rw [hblksz]; omega) with ⟨hdvd, hle⟩
    rw [hblksz] at hdvd
    rcases mmcWriteMedium_core hcard hfits hk hbl m buf hoffset hdvd (by omega) with
      ⟨ret, m', hrun, hframe, _⟩
    have hsame : mmcWriteMedium (coreDesc mmc bus k hk) m offset buf len =
        mmcWriteMedium (coreDesc mmc bus k hk) m offset buf (alignUp len (coreDesc mmc bus k hk).blksz) :=
      congrArg some (mmcOp_alignUp _ _ _ _ _)
    exact ⟨ret, _, m', hsame.trans hrun, fun a ha => hframe a (by omega)⟩
  · -- a chunk of another length comes back with the rounded one
    have hself : alignUp len (coreDesc mmc bus k hk).blksz = len := by
      have hop := Option.some.inj hrun
      rw [← mmcOp_len, hop]
    have hdvd := (alignUp_eq_self_iff _ len).1 hself
    rw [hblksz] at hdvd
    rcases mmcWriteMedium_core hcard hfits hk hbl m buf hoffset hdvd (by omega) with
      ⟨ret, m'', hrun', _, hstored⟩
    rw [hrun'] at hrun
    cases hrun
    exact ⟨hdvd, hstored rfl⟩

/-- A download of whole blocks to a card, whatever the lengths of the packets, and whatever the card
answers. -/
theorem mmc_download (hfits : mmc.Fits) {k : Nat} (hk : k < 32) (hbl : mmc.writeBlLen.toNat = 2 ^ k)
    {b : Kburn σ} (hw : b.writeMedium = some (mmcWriteMedium (coreDesc mmc bus k hk)))
    {c₀ : Completion} {offset size : UInt64} (hburner : s.burner = some b)
    (haccepted : WriteAccepted board s c₀ offset size t) (hoffset : 2 ^ k ∣ offset.toNat)
    (hsize : 2 ^ k ∣ size.toNat) (hrange : offset.toNat + size.toNat ≤ mmc.lba.toNat * 2 ^ k)
    (hlt : size.toNat < 2 ^ 32) :
    DownloadKeeps board v.content (v.content s.medium) offset.toNat size.toNat t := by
  exact download_keepsRange hw hburner haccepted hoffset (range_lt_of_fits hfits hk hrange) hlt
    (keepsRange_mmc hcard hfits hk hbl offset.toNat (Dvd.dvd.add hoffset hsize) hrange)

/-- The back end of a card of 64 blocks that takes three at a time. -/
def ramCardWrite : WriteMedium RamCard :=
  mmcWriteMedium (coreDesc smallMmc ramCardBus 9 (by decide))

/-- The gadget that waits for commands with this card behind it. -/
def ramCardReady : KburnUsb RamCard :=
  { kburnSetAlt configured (kburnAdd ⟨fun _ => 0, 0, 0⟩ 4096) with
    burner := some (cardBurner 32768 ramCardWrite) }

omit hcard in
theorem idle_ramCardReady :
    Idle (some (cardBurner 32768 ramCardWrite)) ⟨fun _ => 0, 0, 0⟩ ramCardReady :=
  { idle_configured (⟨fun _ => 0, 0, 0⟩ : RamCard) 4096 (by decide) with burner := rfl }

omit hcard in
/-- Two kilobytes, from the third block of the card on. -/
theorem mmc_download_two_kilobytes :
    ∃ t, WriteAccepted (cardBoard 32768 ramCardWrite) ramCardReady
        (hostSends (lbaPkt .writeLba 1024 2048)) 1024 2048 t ∧
      DownloadKeeps (cardBoard 32768 ramCardWrite) RamCard.bytes (fun _ => 0) 1024 2048 t := by
  rcases idle_ramCardReady.writeAccepted (cardBoard 32768 ramCardWrite) 1024 2048 rfl (by decide) (by decide)
    with ⟨t, hacc⟩
  have hkeeps := mmc_download card_ramCardBus fits_smallMmc (by decide) (by decide)
    (b := cardBurner 32768 ramCardWrite) rfl rfl hacc (by decide) (by decide) (by decide) (by decide)
  exact ⟨t, hacc, hkeeps⟩

end Card

/-! ## The NOR flash -/

section Flash

variable {μ : Type} {flash : SpiFlash} {bus : NorBus μ} {content : μ → ByteMem} {latched : μ → Prop}
  {board : Board μ} {s t : KburnUsb μ}

variable (hchip : Chip flash bus content latched) (hwren : ∀ m, (bus.writeEnable m).1 = 0)
include hchip hwren

/-- A range of the flash.  A chunk that is not of whole sectors is refused. -/
theorem keepsRange_sf (ret : Int) (addr : UInt64) (lo : Nat) {hi : Nat} (hrange : hi ≤ flash.size.toNat) :
    KeepsRange (sfWriteMedium flash (norOps flash bus ret) addr) content 1 lo hi := by
  rw [← sfWriteMedium_stdOps]
  refine ⟨fun m offset buf len _ hlo hin => ?_, fun m offset buf len m' _ hlo hin hrun => ?_⟩
  · rcases SpiFlash.sfWriteMedium_returns flash (stdOps flash (norOps flash bus ret)) addr m offset buf len
      with ⟨ret', m', hrun⟩
    refine ⟨ret', len, m', hrun, fun a ha => ?_⟩
    exact sfWriteMedium_framed (norOps_framed hchip ret) (by omega) hrun (by omega)
  · have hcontent := SpiFlash.sfWriteMedium_content (norOps_exact hchip hwren ret) (by omega) hrun
    rw [hcontent, Nand.write_filled]
    exact ⟨Nat.one_dvd _, rfl⟩

/-- A download to a NOR flash, whatever the lengths of the packets, and whatever the chip answers. -/
theorem sf_download {b : Kburn μ} {ret : Int} {addr : UInt64}
    (hw : b.writeMedium = some (sfWriteMedium flash (norOps flash bus ret) addr)) {c₀ : Completion}
    {offset size : UInt64} (hburner : s.burner = some b)
    (haccepted : WriteAccepted board s c₀ offset size t)
    (hrange : offset.toNat + size.toNat ≤ flash.size.toNat) :
    DownloadKeeps board content (content s.medium) offset.toNat size.toNat t := by
  have hdev := flash.size.toNat_lt
  exact download_keepsRange hw hburner haccepted (Nat.one_dvd _) (by omega) (by omega)
    (keepsRange_sf hchip hwren ret addr offset.toNat hrange)

/-- The back end of a flash of four sectors behind a bus that moves 100 bytes at a time. -/
def smallFlashKburnOps : KburnOps (ByteMem × Bool) :=
  kburnSfProbe SpiFlash.smallFlash (norOps SpiFlash.smallFlash smallBus 0) 0

/-- A board with this flash only. -/
def smallFlashBoard : Board (ByteMem × Bool) where
  configKburnMmc := false
  configKburnSf := true
  configKburnMtd := false
  kburnMmcProbe := fun m _ => (none, m)
  kburnSfProbe := fun m => (some smallFlashKburnOps, m)
  kburnMtdProbe := fun m => (none, m)
  maxpacket := 512
  maxpacket_pos := maxpacket_high_pos

def smallFlashBurner : Kburn (ByteMem × Bool) :=
  (kburnGetMediumInfo (Kburn.ofProbe smallFlashKburnOps)).2

/-- The gadget that waits for commands with the flash behind it. -/
def smallFlashReady : KburnUsb (ByteMem × Bool) :=
  { kburnSetAlt configured (kburnAdd (fun _ => 0, false) 4096) with burner := some smallFlashBurner }

omit hchip hwren in
theorem idle_smallFlashReady : Idle (some smallFlashBurner) (fun _ => 0, false) smallFlashReady :=
  { idle_configured ((fun _ => 0, false) : ByteMem × Bool) 4096 (by decide) with burner := rfl }

omit hchip hwren in
/-- Two sectors, from the second one on. -/
theorem sf_download_two_sectors :
    ∃ t, WriteAccepted smallFlashBoard smallFlashReady (hostSends (lbaPkt .writeLba 4096 8192)) 4096 8192 t ∧
      DownloadKeeps smallFlashBoard Prod.fst (fun _ => 0) 4096 8192 t := by
  rcases idle_smallFlashReady.writeAccepted smallFlashBoard 4096 8192 rfl (by decide) (by decide) with
    ⟨t, hacc⟩
  have hkeeps := sf_download chip_smallBus (fun _ => rfl) (b := smallFlashBurner) rfl rfl hacc (by decide)
  exact ⟨t, hacc, hkeeps⟩

end Flash

end Burn
end CanmvK230
