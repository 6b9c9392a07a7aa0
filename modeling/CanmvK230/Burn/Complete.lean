import CanmvK230.Burn.Walk
import CanmvK230.Burn.Mmc
import CanmvK230.Burn.SpiFlash

/-!
# Complete — which accepted downloads reach `WRITE DONE`

`cb_write_lba` looks at the size and the capacity only.  Each back end has rules of its own for the
chunks of a download, and a chunk that breaks them ends the download with `WRITE ERROR`, possibly
after other chunks were stored.

The first part is about any back end: if the size fits in 32 bits and the back end takes every chunk,
a full delivery ends with `WRITE DONE` (`complete_of_takesChunks`), and if a delivery of zeros does,
the back end has taken its chunks (`takesZeros_of_complete`).  The second part says which chunks the
three back ends take when nothing below them fails (`Medium.takes_iff`), and the main theorem puts the
two together (`Medium.admission_complete_iff`).
-/

namespace CanmvK230
namespace Burn

open Lib

/-! ## Full deliveries -/

section Delivery

variable {μ : Type} {board : Board μ} {job : Job μ} {w : WriteMedium μ} {t u v : KburnUsb μ}
  {c : Completion} {cs : List Completion} {size : Nat}

/-- A chunk of a full delivery: a request, or what is left behind a number of requests. -/
structure FullChunk (size : Nat) (got chunk : List UInt8) : Prop where
  start : usbEpBufferSize ∣ got.length
  unfinished : got.length < size
  length : chunk.length = min usbEpBufferSize (size - got.length)

/-- Below `2 ^ 32` the gadget takes each packet of a full delivery as a whole. -/
theorem fullChunk_of_fullDelivery (hlt : size < 2 ^ 32) (hfull : FullDelivery size (cs ++ [c]))
    (hopen : (received cs).length < size) :
    chunkOf size (received cs) c.data = c.data ∧ FullChunk size (received cs) c.data := by
  rcases (fullDelivery_snoc cs c).1 hfull with ⟨hcs, hc⟩
  refine ⟨?_, dvd_of_fullDelivery hcs hopen, hopen, hc⟩
  rw [chunkOf, Nat.mod_eq_of_lt (by omega)]
  exact List.take_of_length_le (by omega)

/-- What an accepted request is promised: whatever is delivered in full requests, every chunk is
acknowledged and the last packet is answered `WRITE DONE`; and no chunk is refused on the way. -/
structure AdmissionComplete (board : Board μ) (size : Nat) (t : KburnUsb μ) : Prop where
  done : ∀ cs c, FullDelivery size (cs ++ [c]) → (received (cs ++ [c])).length = size →
    (∀ x ∈ cs ++ [c], x.status = 0 ∧ 0 < x.data.length) →
    ∃ u v, Run (StoredStep board) t cs u ∧ StoredStep board u c v ∧ Completed c u v
  notRefused : ∀ cs c u v, FullDelivery size (cs ++ [c]) → Run (StoredStep board) t cs u →
    DataStep board u c v → ¬ ChunkFails u c

theorem stores_nothing (job : Job μ) (w : WriteMedium μ) (P : List UInt8 → List UInt8 → Prop) :
    Stores job (fun _ _ => True) w P := by
  intro _ _ _ _ _ _ _ _ _ _ _
  trivial

/-- The open downloads of a run whose chunks were all acknowledged. -/
theorem loading_of_storedRun (hw : job.burner.writeMedium = some w) (hlt : job.size < 2 ^ 32)
    (hstart : Loading job (fun _ _ => True) board [] t) (hrun : Run (StoredStep board) t cs u)
    (hstep : DataStep board u c v) : Loading job (fun _ _ => True) board (received cs) u := by
  rcases hstep with ⟨req, hmay, hmode, _⟩
  refine loading_of_open ?_ hmay hmode
  exact loading_run (Q := fun _ => True) (fun _ _ _ h => h.1) (stores_nothing job w fun _ _ => True) hw
    hlt (fun _ _ _ => trivial) (fun _ _ _ _ => trivial) (fun _ _ _ _ _ _ h => h.2) hstart hrun trivial

/-! ### A back end that takes every chunk -/

/-- The back end takes the chunks of a full delivery, whatever the medium holds. -/
def TakesChunks (job : Job μ) (w : WriteMedium μ) : Prop :=
  Acks job (fun _ _ => True) w (FullChunk job.size)

/-- As long as the data is not complete, each packet of a full delivery is taken. -/
theorem exists_storedRun (hw : job.burner.writeMedium = some w) (hlt : job.size < 2 ^ 32)
    (htakes : TakesChunks job w) (hstart : Loading job (fun _ _ => True) board [] t) :
    FullDelivery job.size cs → (∀ x ∈ cs, x.status = 0 ∧ 0 < x.data.length) →
      (received cs).length < job.size →
      ∃ u, Run (StoredStep board) t cs u ∧ Loading job (fun _ _ => True) board (received cs) u := by
  induction cs using List.reverseRecOn with
  | nil => exact fun _ _ _ => ⟨t, Run.nil t, hstart⟩
  | append_singleton cs c ih =>
      intro hfull hok hopen
      have hbefore : (received cs).length < job.size := by
        rw [received_snoc, List.length_append] at hopen
        omega
      rcases (fullDelivery_snoc cs c).1 hfull with ⟨hcs, hc⟩
      rcases ih hcs (fun x hx => hok x (List.mem_append_left _ hx)) hbefore with ⟨u, hrun, hload⟩
      rcases fullChunk_of_fullDelivery hlt hfull hbefore with ⟨hchunk, hP⟩
      have hP' : FullChunk job.size (received cs) (chunkOf job.size (received cs) c.data) := by
        rwa [hchunk]
      rcases hok c (by simp) with ⟨hstatus, hpos⟩
      rcases exists_dataStep_of_loading htakes hload hw hstatus hpos hc.le hP' with ⟨v, hstep⟩
      have hstored : StoredStep board u c v := ⟨hstep, not_chunkFails htakes hload hw hP'⟩
      have htaken : taken job.size (received cs) c.data = received (cs ++ [c]) := by
        rw [taken, hchunk, received_snoc]
      rcases loading_step (stores_nothing job w _) hload hw hP' hstep with
        hbad | ⟨hge, _, _⟩ | ⟨_, _, hload'⟩
      · exact absurd hbad hstored.2
      · rw [htaken] at hge
        omega
      · rw [htaken] at hload'
        exact ⟨v, hrun.snoc hstored, hload'⟩

theorem complete_of_takesChunks (hw : job.burner.writeMedium = some w) (hlt : job.size < 2 ^ 32)
    (htakes : TakesChunks job w) (hstart : Loading job (fun _ _ => True) board [] t) :
    AdmissionComplete board job.size t := by
  constructor
  · intro cs c hfull hall hok
    rcases hok c (by simp) with ⟨hstatus, hpos⟩
    have hopen : (received cs).length < job.size := by
      rw [received_snoc, List.length_append] at hall
      omega
    rcases (fullDelivery_snoc cs c).1 hfull with ⟨hcs, hc⟩
    rcases exists_storedRun hw hlt htakes hstart hcs (fun x hx => hok x (List.mem_append_left _ hx))
      hopen with ⟨u, hrun, hload⟩
    rcases fullChunk_of_fullDelivery hlt hfull hopen with ⟨hchunk, hP⟩
    have hP' : FullChunk job.size (received cs) (chunkOf job.size (received cs) c.data) := by
      rwa [hchunk]
    rcases exists_dataStep_of_loading htakes hload hw hstatus hpos hc.le hP' with ⟨v, hstep⟩
    have hstored : StoredStep board u c v := ⟨hstep, not_chunkFails htakes hload hw hP'⟩
    have htaken : taken job.size (received cs) c.data = received (cs ++ [c]) := by
      rw [taken, hchunk, received_snoc]
    rcases loading_step (stores_nothing job w _) hload hw hP' hstep with
      hbad | ⟨_, hdone, _⟩ | ⟨hmore, _, _⟩
    · exact absurd hbad hstored.2
    · exact ⟨u, v, hrun, hstored, hdone⟩
    · rw [htaken, hall] at hmore
      omega
  · intro cs c u v hfull hrun hstep
    have hload := loading_of_storedRun hw hlt hstart hrun hstep
    rcases fullChunk_of_fullDelivery hlt hfull hload.unfinished with ⟨hchunk, hP⟩
    exact not_chunkFails htakes hload hw (by rwa [hchunk])

/-! ### A delivery of zeros -/

/-- The first `k` packets of a delivery of zeros. -/
def zeroPackets (size k : Nat) : List Completion :=
  (List.range k).map fun i =>
    hostSends (List.replicate (min usbEpBufferSize (size - i * usbEpBufferSize)) 0)

theorem zeroPackets_succ (size k : Nat) :
    zeroPackets size (k + 1) = zeroPackets size k ++
      [hostSends (List.replicate (min usbEpBufferSize (size - k * usbEpBufferSize)) 0)] := by
  simp [zeroPackets, List.range_succ]

theorem received_zeroPackets (size k : Nat) :
    received (zeroPackets size k) = List.replicate (min (k * usbEpBufferSize) size) 0 := by
  induction k with
  | zero => simp [zeroPackets]
  | succ k ih =>
      rw [zeroPackets_succ, received_snoc, ih, hostSends, List.replicate_append_replicate]
      congr 1
      rw [Nat.add_mul, Nat.one_mul]
      omega

theorem fullDelivery_zeroPackets (size k : Nat) : FullDelivery size (zeroPackets size k) := by
  induction k with
  | zero =>
      intro pre c post h
      simp [zeroPackets] at h
  | succ k ih =>
      rw [zeroPackets_succ, fullDelivery_snoc, received_zeroPackets]
      refine ⟨ih, ?_⟩
      simp only [hostSends, List.length_replicate]
      omega

theorem zeroPackets_ok {k : Nat} (h : (k - 1) * usbEpBufferSize < size) :
    ∀ x ∈ zeroPackets size k, x.status = 0 ∧ 0 < x.data.length := by
  intro x hx
  simp only [zeroPackets, List.mem_map, List.mem_range] at hx
  rcases hx with ⟨i, hi, rfl⟩
  have hle : i * usbEpBufferSize ≤ (k - 1) * usbEpBufferSize := Nat.mul_le_mul_right _ (by omega)
  refine ⟨rfl, ?_⟩
  simp only [hostSends, List.length_replicate, usbEpBufferSize] at h hle ⊢
  omega

/-- A chunk that was acknowledged. -/
theorem answer_of_storedStep (hload : Loading job (fun _ _ => True) board (received cs) u)
    (hw : job.burner.writeMedium = some w) (hstep : StoredStep board u c v) :
    ∃ m offset buf len m',
      ChunkCall job (received cs) (chunkOf job.size (received cs) c.data) offset buf len ∧
        w m offset buf len = some (0, len, m') := by
  rcases hstep with ⟨⟨req, hmay, hmode, hstatus, _, hrun⟩, hgood⟩
  have hcall := chunkCall_of_loading hload hmay
  have hanswer := mediumAnswer_of_loading hload hw (arrived c req)
  rcases outComplete_data hmay.1 hmode hrun with ⟨v, req', hhandler, rfl⟩
  rcases rxWriteLbaHandler_effect hhandler with ⟨t₁, hget, heffect⟩
  rw [getKburnUsb_of_bufHead_ne_zero hload.bufHead] at hget
  cases hget
  cases heffect with
  | refused hbad _ => exact absurd hstatus hbad
  | failed r x m _ hans hbad _ => exact absurd ⟨req, r, x, m, hmay, hans, hbad⟩ hgood
  | done m _ hans => exact ⟨_, _, _, _, m, hcall, hanswer.symm.trans hans⟩
  | more m _ hans => exact ⟨_, _, _, _, m, hcall, hanswer.symm.trans hans⟩

/-- A download that is complete has a size below `2 ^ 32`, and its back end has taken every chunk of
the delivery of zeros. -/
theorem takesZeros_of_complete (hw : job.burner.writeMedium = some w)
    (hstart : Loading job (fun _ _ => True) board [] t) (h : AdmissionComplete board job.size t) :
    job.size < 2 ^ 32 ∧ ∀ k, k * usbEpBufferSize < job.size →
      ∃ m offset buf len m',
        ChunkCall job (List.replicate (k * usbEpBufferSize) 0)
          (List.replicate (min usbEpBufferSize (job.size - k * usbEpBufferSize)) 0) offset buf len ∧
        w m offset buf len = some (0, len, m') := by
  have hpos : 0 < usbEpBufferSize := by simp [usbEpBufferSize]
  have hsize := hstart.unfinished
  rw [List.length_nil] at hsize
  -- the number of packets in front of the last one
  have hdiv := Nat.div_add_mod (job.size - 1) usbEpBufferSize
  have hmod := Nat.mod_lt (job.size - 1) hpos
  rw [Nat.mul_comm] at hdiv
  have hlast : (job.size - 1) / usbEpBufferSize * usbEpBufferSize < job.size := by omega
  have hsplit := zeroPackets_succ job.size ((job.size - 1) / usbEpBufferSize)
  have hfull := fullDelivery_zeroPackets job.size ((job.size - 1) / usbEpBufferSize + 1)
  have hok := zeroPackets_ok (k := (job.size - 1) / usbEpBufferSize + 1)
    (by rw [Nat.add_sub_cancel]; exact hlast)
  have hall : (received (zeroPackets job.size ((job.size - 1) / usbEpBufferSize + 1))).length =
      job.size := by
    rw [received_zeroPackets, List.length_replicate, Nat.add_mul, Nat.one_mul]
    omega
  rw [hsplit] at hfull hok hall
  rcases h.done _ _ hfull hall hok with ⟨u, v, hrun, hstep, hdone⟩
  have hlt : job.size < 2 ^ 32 := by
    by_contra hlarge
    exact not_completed_of_large hw (Nat.le_of_not_lt hlarge) hstart hrun hstep hdone
  refine ⟨hlt, ?_⟩
  intro k hk
  -- the run up to packet `k`, and the step that takes it
  have hle : k ≤ (job.size - 1) / usbEpBufferSize := by
    refine (Nat.le_div_iff_mul_le hpos).2 ?_
    omega
  have hrun' : Run (StoredStep board) t (zeroPackets job.size ((job.size - 1) / usbEpBufferSize + 1)) v := by
    rw [hsplit]
    exact hrun.snoc hstep
  have hprefix : ∃ rest, zeroPackets job.size ((job.size - 1) / usbEpBufferSize + 1) =
      zeroPackets job.size (k + 1) ++ rest := by
    rcases Nat.exists_eq_add_of_le (Nat.succ_le_succ hle) with ⟨d, hd⟩
    rw [Nat.succ_eq_add_one] at hd
    rw [hd, zeroPackets, List.range_add, List.map_append]
    exact ⟨_, rfl⟩
  rcases hprefix with ⟨rest, hrest⟩
  rw [hrest] at hrun'
  rcases hrun'.append_inv with ⟨v', hfront, _⟩
  rw [zeroPackets_succ] at hfront
  rcases hfront.snoc_inv with ⟨u', hrunk, hstepk⟩
  have hload := loading_of_storedRun hw hlt hstart hrunk hstepk.1
  rcases answer_of_storedStep hload hw hstepk with ⟨m, offset, buf, len, m', hcall, hans⟩
  have hfullk := fullDelivery_zeroPackets job.size (k + 1)
  rw [zeroPackets_succ] at hfullk
  rw [(fullChunk_of_fullDelivery hlt hfullk hload.unfinished).1, received_zeroPackets,
    Nat.min_eq_left hk.le] at hcall
  exact ⟨m, offset, buf, len, m', hcall, hans⟩

end Delivery

/-! ## The chunks an MMC takes -/

section Mmc

variable {μ : Type} {desc : MmcDesc μ}

/-- `blk_dwrite` writes all the blocks it is given, as long as they lie on the card. -/
def MmcDesc.Works (desc : MmcDesc μ) : Prop :=
  ∀ m (start count : UInt64) buf, start.toNat + count.toNat ≤ desc.lba.toNat →
    (desc.blkDwrite m start count buf).1 = count

/-- A chunk on a card that works is acknowledged exactly when its length is a number of blocks: any
other length is rounded up, and the gadget takes the rounding for an error.  The offset is not
looked at. -/
theorem mmcWriteMedium_acks_iff (hworks : desc.Works) (m : μ) {offset len : UInt64} (buf : ByteMem)
    (hrange : offset.toNat + len.toNat ≤ desc.lba.toNat * desc.blksz.toNat) :
    (∃ m', mmcWriteMedium desc m offset buf len = some (0, len, m')) ↔
      desc.blksz.toNat ∣ len.toNat := by
  have hpos := blksz_pos desc
  constructor
  · rintro ⟨m', h⟩
    have hround : alignUp len desc.blksz = len := by
      have hlen := congrArg (fun r : Int × UInt64 × μ => r.2.1) (Option.some.inj h)
      simp only [mmcOp] at hlen
      split at hlen
      · exact hlen
      · split at hlen
        · exact hlen
        · exact hlen
    exact (alignUp_eq_self_iff desc len).1 hround
  · intro hdvd
    have hround := (alignUp_eq_self_iff desc len).2 hdvd
    have hblocks := blocksOf_of_dvd hdvd
    -- the blocks of the chunk lie on the card
    have hsum : offset.toNat / desc.blksz.toNat + len.toNat / desc.blksz.toNat ≤ desc.lba.toNat := by
      refine Nat.le_of_mul_le_mul_right ?_ hpos
      calc
        (offset.toNat / desc.blksz.toNat + len.toNat / desc.blksz.toNat) * desc.blksz.toNat
            = offset.toNat / desc.blksz.toNat * desc.blksz.toNat +
                len.toNat / desc.blksz.toNat * desc.blksz.toNat := Nat.add_mul _ _ _
        _ ≤ offset.toNat + len.toNat :=
            Nat.add_le_add (Nat.div_mul_le_self _ _) (Nat.div_mul_le_self _ _)
        _ ≤ desc.lba.toNat * desc.blksz.toNat := hrange
    have hstart := toNat_blkStart desc offset
    have hcount := toNat_blkCount desc len
    rw [hblocks] at hcount
    have hmod₁ := Nat.mod_le (offset.toNat / desc.blksz.toNat) (2 ^ 32)
    have hmod₂ := Nat.mod_le (len.toNat / desc.blksz.toNat) (2 ^ 32)
    have hwrite := hworks m (blkStart desc offset).toUInt64
      (blkCount desc (alignUp len desc.blksz)).toUInt64 buf
      (by rw [UInt32.toNat_toUInt64, UInt32.toNat_toUInt64, hstart, hcount]; omega)
    have hnot : ¬ Refused desc offset len := by
      rw [Refused, hblocks]
      have hmod₃ := Nat.mod_le (offset.toNat / desc.blksz.toNat % 2 ^ 32 +
        len.toNat / desc.blksz.toNat % 2 ^ 32) (2 ^ 32)
      omega
    rcases mmcOp_of_count desc (fun start count => desc.blkDwrite m start count buf) m offset len
      hwrite with ⟨href, _⟩ | ⟨_, hop⟩
    · exact absurd href hnot
    · rw [hround] at hop
      exact ⟨_, congrArg some hop⟩

end Mmc

/-! ## The chunks a NAND chip takes -/

namespace Nand

variable {μ : Type} {nand : Nand} {ops : MtdOps μ}

/-- The MTD layer of a chip of this geometry and with these bad blocks.  Inside the device no
operation fails, except that a bad block need not be erasable; the block behind its end is bad. -/
structure Succeeds (nand : Nand) (ops : MtdOps μ) : Prop where
  whole : nand.erasesize ∣ 2 ^ 64
  erase : ∀ m (addr : UInt64), nand.erasesize ∣ addr.toNat → addr.toNat < nand.size →
    (ops.erase m addr nand.mtd.erasesize.toUInt64).1 = 0 ∨
      ((ops.erase m addr nand.mtd.erasesize.toUInt64).1 = -eio ∧ ¬ nand.Good addr.toNat)
  blockIsbad : nand.ReportsBad ops
  writeOob : ∀ m (off : UInt64) (data : List UInt8), nand.writesize ∣ off.toNat →
    data.length = nand.writesize → off.toNat + nand.writesize ≤ nand.size → nand.Good off.toNat →
    (ops.writeOob m off data).1 = 0 ∧
      (ops.writeOob m off data).2.1 = nand.mtd.writesize.toUInt64
  unlock : ∀ m ofs len, Unlocked (ops.unlock m ofs len).1

/-- An erase pass that meets no fatal answer reports success. -/
theorem eraseMedium_succeeds (m : μ) {offset len : UInt64} (ho : nand.erasesize ∣ offset.toNat)
    (hl : nand.erasesize ∣ len.toNat) (hrange : offset.toNat + len.toNat ≤ nand.size)
    (herase : ∀ m (addr : UInt64), nand.erasesize ∣ addr.toNat → offset.toNat ≤ addr.toNat →
      addr.toNat < offset.toNat + len.toNat →
      (ops.erase m addr nand.mtd.erasesize.toUInt64).1 = 0 ∨
        (ops.erase m addr nand.mtd.erasesize.toUInt64).1 = -eio) :
    ∃ ret m', mtdEraseLoop nand.mtd ops loopBound m offset len 0 = some (ret, m') ∧
      mtdEraseMedium nand.mtd ops m offset len = some (0, len, m') := by
  rcases hl with ⟨n, hn⟩
  have hl : nand.erasesize ∣ len.toNat := ⟨n, hn⟩
  rcases nand.eraseLoop_rule hrange (fun _ _ => True)
    (fun s addr hdvd hlo hlt _ => ⟨herase s addr hdvd hlo hlt, trivial⟩) n m offset len 0 loopBound
    (Or.inl rfl) ho le_rfl (by rw [hn, Nat.mul_comm]) le_rfl (lt_loopBound nand.erasesize_pos hn)
    trivial with ⟨ret, m', hret, hloop, _⟩
  refine ⟨ret, m', hloop, ?_⟩
  rw [nand.eraseMedium_blocks ops ho hl hloop, if_neg (not_fatal hret)]

/-- On a chip that works and has a good block, the data is written to the end. -/
theorem writeLoop_takes (hok : nand.Succeeds ops) (hgood : nand.HasGood) (m : μ)
    {off remaining : UInt64} (buf : ByteMem) (ret : Int) (hwalk : nand.InWalk off.toNat)
    (hdvd : nand.writesize ∣ remaining.toNat) (hne : remaining ≠ 0) :
    ∃ m', mtdWriteLoop nand.mtd ops loopBound m off remaining buf ret = some (0, m') := by
  have hpos := toNat_pos_of_ne_zero hne
  -- behind the first page the last answer is 0
  have hrun : ∃ ret' m', mtdWriteLoop nand.mtd ops loopBound m off remaining buf ret =
      some (ret', m') ∧ ret' = 0 := by
    refine writeLoop_total hok.whole hgood hdvd (J := fun _ j ret _ => j = 0 ∨ ret = 0)
      (R := fun ret _ => ret = 0) (fun _ _ _ m _ => hok.blockIsbad m)
      (fun _ _ _ _ hJ _ _ _ => hJ) ?_ (fun _ _ _ hJ => hJ.resolve_left hpos.ne') hwalk rfl (Or.inl rfl)
    intro off j ret m _ hpage hstop _ _
    have hfit := nand.page_le hpage hstop.1
    dsimp only
    rw [writePage]
    split
    · rw [if_neg (not_not.2 rfl)]
      exact ⟨nand.toNat_writesize, Or.inr rfl⟩
    · rcases hok.writeOob m off _ hpage (ByteMem.length_read _ _ _) hfit hstop.2 with ⟨hret, hretlen⟩
      rw [if_neg (not_not.2 hret), hretlen]
      exact ⟨nand.toNat_writesize, Or.inr rfl⟩
  rcases hrun with ⟨ret', m', hloop, rfl⟩
  exact ⟨m', hloop⟩

/-- The chunks of whole blocks, on a chip with a good one. -/
structure TakesRange (nand : Nand) (offset len : Nat) : Prop where
  start : nand.erasesize ∣ offset
  length : nand.erasesize ∣ len
  block : nand.HasGood

theorem writeMedium_takes (hok : nand.Succeeds ops) (m : μ) {offset len : UInt64} (buf : ByteMem)
    (hne : len ≠ 0) (hrange : offset.toNat + len.toNat ≤ nand.size)
    (htakes : nand.TakesRange offset.toNat len.toNat) :
    ∃ m', mtdWriteMedium nand.mtd ops m offset buf len = some (0, len, m') := by
  have hanswer : ∀ m (addr : UInt64), nand.erasesize ∣ addr.toNat → offset.toNat ≤ addr.toNat →
      addr.toNat < offset.toNat + len.toNat →
      (ops.erase m addr nand.mtd.erasesize.toUInt64).1 = 0 ∨
        (ops.erase m addr nand.mtd.erasesize.toUInt64).1 = -eio := by
    intro m addr haddr _ hlt
    rcases hok.erase m addr haddr (by omega) with h | ⟨h, _⟩
    · exact Or.inl h
    · exact Or.inr h
  rcases eraseMedium_succeeds (ops.unlock m offset len).2 htakes.start htakes.length hrange hanswer with
    ⟨_, m₁, _, herased⟩
  rcases htakes.block.block with ⟨g, hg, hstop⟩
  rcases skipBad_place hok.whole (hok.blockIsbad m₁) hg hstop loopBound offset htakes.start
    (skipDist_lt_loopBound hstop.1 _) with ⟨off, hskip, hwalk, _⟩
  rcases writeLoop_takes hok htakes.block m₁ buf (ops.unlock m offset len).1 hwalk
    (dvd_trans nand.writesize_dvd htakes.length) hne with ⟨m₂, hloop⟩
  refine ⟨ops.lock m₂ offset len, ?_⟩
  rw [writeMedium_finish buf (nand.isAlignedWithMinIoSize_of_block htakes.start)
    (nand.isAlignedWithMinIoSize_of_block htakes.length) (hok.unlock m offset len) herased hskip, hloop]
  simp [finishWrite]

theorem takesRange_of_writeMedium (hok : nand.Succeeds ops) {m m' : μ} {offset len : UInt64}
    {buf : ByteMem} (h : mtdWriteMedium nand.mtd ops m offset buf len = some (0, len, m')) :
    nand.TakesRange offset.toNat len.toNat := by
  cases writeReturns_of_eq h with
  | written herase hskip hloop hret =>
      -- the erase pass refuses what is not a number of blocks
      have haligned : nand.erasesize ∣ offset.toNat ∧ nand.erasesize ∣ len.toNat := by
        by_contra hbad
        rw [nand.eraseMedium_unaligned ops _ hbad] at herase
        cases herase
      have hstop := stop_of_skipBad hok.whole (hok.blockIsbad _) _ haligned.1 hskip
      exact ⟨haligned.1, haligned.2, _, hstop⟩

end Nand

/-! ## The three media -/

/-- A medium with the layer below its back end. -/
inductive Medium (μ : Type)
  | mmc (desc : MmcDesc μ)
  | spiNand (nand : Nand) (ops : MtdOps μ)
  | spiNor (flash : SpiFlash) (ops : SfOps μ) (addr : UInt64)

namespace Medium

variable {μ : Type}

def writeMedium : Medium μ → WriteMedium μ
  | mmc desc => mmcWriteMedium desc
  | spiNand nand ops => mtdWriteMedium nand.mtd ops
  | spiNor flash ops addr => sfWriteMedium flash ops addr

/-- The capacity that `get_medium_info` stores. -/
def capacity : Medium μ → UInt64
  | mmc desc => desc.lba * desc.blksz
  | spiNand nand _ => nand.mtd.size
  | spiNor flash _ _ => flash.size.toUInt64

/-- No operation on an aligned argument inside the device fails. -/
def Works : Medium μ → Prop
  | mmc desc => desc.Works
  | spiNand nand ops => nand.Succeeds ops
  | spiNor flash ops _ => flash.Works ops

/-- The rule of the back end for a chunk of `len` bytes at `offset`. -/
def TakesChunk : Medium μ → Nat → Nat → Prop
  | mmc desc, _, len => desc.blksz.toNat ∣ len
  | spiNand nand _, offset, len => nand.TakesRange offset len
  | spiNor flash _ _, offset, len =>
      flash.eraseSize.toNat ∣ offset ∧ flash.eraseSize.toNat ∣ len ∧ flash.pageSize.toNat ∣ len

/-- A chunk inside the medium is acknowledged if and only if it follows the rule, whatever its bytes
are. -/
theorem takes_iff {medium : Medium μ} (hworks : medium.Works) {offset len : UInt64} (hne : len ≠ 0)
    (hrange : offset.toNat + len.toNat ≤ medium.capacity.toNat) :
    (medium.TakesChunk offset.toNat len.toNat →
        ∀ m buf, ∃ m', medium.writeMedium m offset buf len = some (0, len, m')) ∧
      ∀ m buf m', medium.writeMedium m offset buf len = some (0, len, m') →
        medium.TakesChunk offset.toNat len.toNat := by
  cases medium with
  | mmc desc =>
      have hrange' : offset.toNat + len.toNat ≤ desc.lba.toNat * desc.blksz.toNat := by
        refine le_trans hrange ?_
        rw [capacity, UInt64.toNat_mul]
        exact Nat.mod_le _ _
      constructor
      · intro htakes m buf
        exact (mmcWriteMedium_acks_iff hworks m buf hrange').2 htakes
      · intro m buf m' h
        exact (mmcWriteMedium_acks_iff hworks m buf hrange').1 ⟨m', h⟩
  | spiNand nand ops =>
      have hrange' : offset.toNat + len.toNat ≤ nand.size := by
        refine le_trans hrange ?_
        rw [capacity, Nand.mtd, UInt64.toNat_ofNat']
        exact Nat.mod_le _ _
      constructor
      · intro htakes m buf
        exact Nand.writeMedium_takes hworks m buf hne hrange' htakes
      · intro m buf m' h
        exact Nand.takesRange_of_writeMedium hworks h
  | spiNor flash ops addr =>
      have hrange' : offset.toNat + len.toNat ≤ flash.size.toNat := by
        rwa [capacity, UInt32.toNat_toUInt64] at hrange
      constructor
      · intro htakes m buf
        exact (SpiFlash.sfWriteMedium_acks_iff hworks addr m buf hrange').2 htakes
      · intro m buf m' h
        exact (SpiFlash.sfWriteMedium_acks_iff hworks addr m buf hrange').1 ⟨m', h⟩

/-- What the probe fills in for the medium; of a card it also reads the size of its erase groups and
its write protection. -/
def probe (eraseGrpSize : UInt32) (wp : BitVec 8) : Medium μ → KburnOps μ
  | mmc desc => kburnMmcProbe desc eraseGrpSize wp
  | spiNand nand ops => kburnMtdProbe nand.mtd ops
  | spiNor flash ops addr => kburnSfProbe flash ops addr

/-- The burner that `cb_probe_device` installs writes to the medium and knows its capacity. -/
theorem burner_of_probe (medium : Medium μ) (eraseGrpSize : UInt32) (wp : BitVec 8) :
    (kburnGetMediumInfo (Kburn.ofProbe (medium.probe eraseGrpSize wp))).2.writeMedium =
        some medium.writeMedium ∧
      (kburnGetMediumInfo (Kburn.ofProbe (medium.probe eraseGrpSize wp))).2.mediumInfo.capacity =
        medium.capacity := by
  cases medium with
  | mmc desc => exact ⟨rfl, rfl⟩
  | spiNand nand ops => exact ⟨rfl, rfl⟩
  | spiNor flash ops addr => exact ⟨rfl, rfl⟩

variable {medium : Medium μ} {job : Job μ} {board : Board μ} {t : KburnUsb μ}

/-- Every chunk of the job follows the rule of the back end. -/
def TakesAll (medium : Medium μ) (offset size : Nat) : Prop :=
  ∀ k, k * usbEpBufferSize < size →
    medium.TakesChunk (offset + k * usbEpBufferSize)
      (min usbEpBufferSize (size - k * usbEpBufferSize))

theorem takesChunks_of_takesAll (hworks : medium.Works)
    (hrange : job.offset + job.size ≤ medium.capacity.toNat)
    (h : medium.TakesAll job.offset job.size) : TakesChunks job medium.writeMedium := by
  intro got chunk m offset buf len hchunk _ hcall
  have hopen := hchunk.unfinished
  have hlength := hchunk.length
  have hne : len ≠ 0 := by
    intro h0
    have hlen := hcall.len
    rw [h0, UInt64.toNat_zero, hlength, usbEpBufferSize] at hlen
    omega
  refine (takes_iff hworks hne ?_).1 ?_ m buf
  · rw [hcall.offset, hcall.len]
    omega
  · rcases hchunk.start with ⟨k, hk⟩
    rw [Nat.mul_comm] at hk
    rw [hcall.offset, hcall.len, hlength, hk]
    exact h k (by omega)

theorem takesAll_of_complete (hworks : medium.Works)
    (hw : job.burner.writeMedium = some medium.writeMedium)
    (hrange : job.offset + job.size ≤ medium.capacity.toNat)
    (hstart : Loading job (fun _ _ => True) board [] t) (h : AdmissionComplete board job.size t) :
    job.size < 2 ^ 32 ∧ medium.TakesAll job.offset job.size := by
  rcases takesZeros_of_complete hw hstart h with ⟨hlt, hzeros⟩
  refine ⟨hlt, ?_⟩
  intro k hk
  rcases hzeros k hk with ⟨m, offset, buf, len, m', hcall, hans⟩
  have hoffset := hcall.offset
  have hlen := hcall.len
  rw [List.length_replicate] at hoffset hlen
  have hne : len ≠ 0 := by
    intro h0
    rw [h0, UInt64.toNat_zero, usbEpBufferSize] at hlen
    rw [usbEpBufferSize] at hk
    omega
  have htakes := (takes_iff hworks hne (by rw [hoffset, hlen]; omega)).2 m buf m' hans
  rwa [hoffset, hlen] at htakes

/-- The admission of a download is complete if and only if its size fits in 32 bits and each of its
chunks, 128 KiB long but for the last, follows the rule of the back end: a number of blocks for an
MMC, a number of erase blocks at an aligned offset for a NAND chip, which has to have a good block, a
number of sectors and of pages at an aligned offset for a NOR flash. -/
theorem admission_complete_iff (medium : Medium μ) (hworks : medium.Works) (board : Board μ)
    (s t : KburnUsb μ) (c₀ : Completion) (offset size : UInt64) (b : Kburn μ)
    (hburner : s.burner = some b) (hw : b.writeMedium = some medium.writeMedium)
    (hcapacity : b.mediumInfo.capacity = medium.capacity)
    (hrange : offset.toNat + size.toNat ≤ b.mediumInfo.capacity.toNat)
    (haccepted : WriteAccepted board s c₀ offset size t) :
    AdmissionComplete board size.toNat t ↔
      size.toNat < 2 ^ 32 ∧ medium.TakesAll offset.toNat size.toNat := by
  have hwrap : offset.toNat + size.toNat < 2 ^ 64 :=
    lt_of_le_of_lt hrange b.mediumInfo.capacity.toNat_lt
  have hstart := loading_of_writeAccepted (fun _ _ => True) hburner hwrap haccepted trivial
  rw [hcapacity] at hrange
  constructor
  · intro h
    refine takesAll_of_complete hworks ?_ ?_ hstart h
    · exact hw
    · exact hrange
  · rintro ⟨hlt, hall⟩
    have htakes : TakesChunks (jobOf b offset size hwrap) medium.writeMedium :=
      takesChunks_of_takesAll hworks hrange hall
    exact complete_of_takesChunks hw hlt htakes hstart

end Medium

theorem Nand.succeeds_ops (nand : Nand) (hwhole : nand.erasesize ∣ 2 ^ 64) :
    nand.Succeeds nand.ops where
  whole := hwhole
  erase := by
    intro m addr haddr hlt
    have hfit := nand.block_le haddr hlt
    have hin : ¬ (addr.toNat > nand.size ∨ nand.erasesize > nand.size - addr.toNat) := by omega
    simp only [Nand.ops, nand.toNat_erasesize, if_neg hin]
    by_cases hgood : nand.Good addr.toNat
    · exact Or.inl (by rw [if_pos hgood])
    · exact Or.inr ⟨by rw [if_neg hgood], hgood⟩
  blockIsbad := by
    intro m ofs _
    by_cases hlt : ofs.toNat < nand.size
    · rw [nand.blockIsbad_eq_zero_iff m hlt, stop_iff_good hlt]
    · refine iff_of_false ?_ (fun hstop => hlt hstop.1)
      simp only [Nand.ops, hlt, false_and, if_false]
      split
      · decide
      · decide
  writeOob := by
    intro m off data hpage hlen hfit hgood
    rw [(works_ops nand).writeOob m off data hpage hlen hfit hgood]
    exact ⟨rfl, rfl⟩
  unlock := fun _ _ _ => Or.inr rfl

/-- A chip of four good blocks. -/
def goodChip : Nand := fourBlocks fun _ => false

def goodChipMedium : Medium ByteMem := .spiNand goodChip goodChip.ops

theorem works_goodChip : goodChipMedium.Works :=
  goodChip.succeeds_ops (by decide)

/-- One block, on a chip of four good ones. -/
theorem admission_complete_one_block :
    ∃ t, WriteAccepted (nandBoard goodChip) (nandReady goodChip)
        (hostSends (lbaPkt .writeLba 0 131072)) 0 131072 t ∧
      AdmissionComplete (nandBoard goodChip) (131072 : UInt64).toNat t := by
  rcases (idle_nandReady goodChip).writeAccepted (nandBoard goodChip) 0 131072 rfl (by decide)
    (by decide) with ⟨t, hacc⟩
  refine ⟨t, hacc, ?_⟩
  refine (Medium.admission_complete_iff goodChipMedium works_goodChip (nandBoard goodChip)
    (nandReady goodChip) t _ 0 131072 (nandBurner goodChip) rfl rfl rfl (by decide) hacc).2
    ⟨by decide, ?_⟩
  intro k hk
  have hk0 : k = 0 := by
    simp only [usbEpBufferSize, UInt64.reduceToNat] at hk
    omega
  subst hk0
  exact ⟨by decide, by decide, 0, by decide, rfl⟩

/-- A block and a page: accepted, but only the block is ever written. -/
theorem page_behind_block_refused :
    ∃ t, WriteAccepted (nandBoard goodChip) (nandReady goodChip)
        (hostSends (lbaPkt .writeLba 0 133120)) 0 133120 t ∧
      ¬ AdmissionComplete (nandBoard goodChip) (133120 : UInt64).toNat t := by
  rcases (idle_nandReady goodChip).writeAccepted (nandBoard goodChip) 0 133120 rfl (by decide)
    (by decide) with ⟨t, hacc⟩
  refine ⟨t, hacc, ?_⟩
  intro h
  have hstart := loading_of_writeAccepted (fun _ _ => True) (b := nandBurner goodChip) rfl (by decide)
    hacc trivial
  have hall : goodChipMedium.TakesAll 0 133120 := by
    refine (Medium.takesAll_of_complete works_goodChip ?_ ?_ hstart h).2
    · rfl
    · decide
  have hsecond : goodChip.TakesRange (0 + 1 * usbEpBufferSize)
      (min usbEpBufferSize (133120 - 1 * usbEpBufferSize)) := hall 1 (by decide)
  exact absurd hsecond.length (by decide)

end Burn
end CanmvK230
