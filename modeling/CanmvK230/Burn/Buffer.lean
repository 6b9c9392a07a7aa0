import CanmvK230.Burn.Requeue

/-!
# Buffer — the double buffer of a download, over every run of the gadget

A download owns two buffers: the OUT request the controller fills, 128 KiB, and the double buffer the
data is copied into, 256 KiB.  Five fields say where it stands: the offset, the two counters, the
write pointer and the head of the double buffer.  They are set up by `cb_write_lba`, moved on by
`rx_write_lba_handler`, and the buffer under them is freed by `kburn_disable` and allocated again by
`get_kburn_usb`.

The host's view of the download is a ghost, `Download`: the range of the accepted `WRITE_LBA` and what
is left of it.  `bufferInv_step` shows that each event keeps the two views together, whatever the
endpoints' packet size at that moment; `download_buffer_invariant` is the run-level result.
-/

namespace CanmvK230
namespace Burn

open Lib

section

variable {μ : Type} {board : Board μ} {c : Completion} {s t : KburnUsb μ} {req req' : UsbRequest}

/-! ## The two sides -/

/-- The download the host believes in: the accepted range, and how many bytes of it have not been
handed to the medium. -/
structure Download where
  offset : UInt64
  size : UInt64
  left : Nat

open Classical in
/-- A download starts with an accepted `WRITE_LBA`.  It ends when its last byte is handed to the
medium, when the medium refuses a chunk, and when the request that carries it is given up. -/
noncomputable def downloadAfter (s : KburnUsb μ) (d : Option Download) : Event → Option Download
  | .setAlt a => if a.enableOut = 0 then none else d
  | .disable => none
  | .outComplete c =>
      match s.outReq with
      | none => d
      | some req =>
          if c.status ≠ 0 then
            d
          else
            match req.complete with
            | .rxCommandHandler =>
                if ∃ b, AcceptsWrite c s (arrived c req) b then
                  some
                    { offset := lbaOffset (arrived c req)
                      size := lbaSize (arrived c req)
                      left := (lbaSize (arrived c req)).toNat }
                else
                  d
            | .rxWriteLbaHandler =>
                let n := (transferSize s (arrived c req).actual).toNat
                if WriteFails c s then
                  none
                else
                  d.bind fun dl => if dl.left ≤ n then none else some { dl with left := dl.left - n }

/-- The speed of the bus, which decides `ep->maxpacket` at each event. -/
inductive Speed
  | full
  | high
  deriving DecidableEq, Repr

def Board.at (board : Board μ) : Speed → Board μ
  | .full => { board with maxpacket := 64, maxpacket_pos := by decide }
  | .high => { board with maxpacket := 512, maxpacket_pos := maxpacket_high_pos }

/-- One event, with the speed it happens at, followed on both sides. -/
def DownloadStep (board : Board μ) (x : KburnUsb μ × Option Download) (e : Speed × Event)
    (y : KburnUsb μ × Option Download) : Prop :=
  GadgetStep (board.at e.1) x.1 e.2 y.1 ∧ y.2 = downloadAfter x.1 x.2 e.2

/-- The write pointer is at the head of one half of the double buffer, when there is one. -/
def TwoHalves (s : KburnUsb μ) : Prop :=
  s.bufHead ≠ 0 → s.buf = s.bufHead ∨ s.buf = s.bufHead + usbEpBufferSize

/-- The request asks for no more than its buffer holds, and for all that is missing if that fits. -/
structure LengthFits (s : KburnUsb μ) (req : UsbRequest) : Prop where
  pos : 0 < req.length
  le : req.length ≤ 131072
  enough : min (s.dlSize - s.dlBytes).toNat 131072 ≤ req.length.toNat

/-- The gadget in the middle of the download `dl`. -/
structure InDownload (s : KburnUsb μ) (dl : Download) : Prop where
  unfinished : s.dlBytes < s.dlSize
  range : s.offset + (s.dlSize - s.dlBytes) = dl.offset + dl.size
  bufHead : s.bufHead ≠ 0
  buf : s.buf = s.bufHead ∨ s.buf = s.bufHead + usbEpBufferSize
  outReq : ∃ req, s.outReq = some req ∧ req.complete = .rxWriteLbaHandler ∧ LengthFits s req

/-- `memcpy(buf, req->buf, transfer_size)` stays in the double buffer and in the request's buffer. -/
structure CopyFits (s : KburnUsb μ) (req : UsbRequest) : Prop where
  start : s.bufHead ≤ s.buf
  finish : s.buf + (transferSize s req.actual).toNat ≤ s.bufHead + usbBufferSize
  source : (transferSize s req.actual).toNat ≤ usbEpBufferSize

/-- What holds of both sides between two events. -/
structure BufferInv (x : KburnUsb μ × Option Download) : Prop where
  halves : TwoHalves x.1
  download : ∀ dl, x.2 = some dl → InDownload x.1 dl ∧ x.1.dlBytes.toNat + dl.left = x.1.dlSize.toNat
  -- a request that can still bring data belongs to a download
  data : ∀ req, x.1.outReq = some req → req.queued ≤ 1 ∧
    (req.complete = .rxWriteLbaHandler → 0 < req.queued → ∃ dl, x.2 = some dl)

/-! ## The write pointer -/

theorem TwoHalves.congr (h : TwoHalves s) (hhead : t.bufHead = s.bufHead) (hbuf : t.buf = s.buf) :
    TwoHalves t := by
  intro hne
  rw [hhead] at hne ⊢
  rw [hbuf]
  exact h hne

theorem TwoHalves.getKburnUsb (h : TwoHalves s) (hget : getKburnUsb c s = some t) : TwoHalves t := by
  rcases getKburnUsb_cases hget with ⟨_, rfl⟩ | ⟨_, rfl⟩
  · exact h
  · exact fun _ => Or.inl rfl

theorem TwoHalves.getD (h : TwoHalves s) (c : Completion) :
    TwoHalves ((Burn.getKburnUsb c s).getD s) := by
  cases hget : Burn.getKburnUsb c s with
  | none => exact h
  | some t => exact h.getKburnUsb hget

theorem TwoHalves.kburnTxResult (h : TwoHalves s) (cmd : KburnPktCmd) (result : KburnPktResult)
    (data : List UInt8) : TwoHalves (kburnTxResult c cmd result data s) := by
  refine h.congr (bufHead_kburnTxResult _ _ _ _) ?_
  unfold Burn.kburnTxResult
  split
  · rfl
  · rfl

theorem cbProbeDevice_halves (hs : TwoHalves s) (h : cbProbeDevice board c s req = .ok (t, req')) :
    TwoHalves t := by
  unfold cbProbeDevice at h
  dsimp only at h
  split at h
  · cases h
    exact (hs.getD c).kburnTxResult _ _ _
  · cases hget : getKburnUsb c s with
    | none => simp [hget] at h
    | some s₁ =>
        simp only [hget] at h
        have hs₁ : TwoHalves s₁ := hs.getKburnUsb hget
        split at h
        · cases h
          refine TwoHalves.kburnTxResult ?_ _ _ _
          exact hs₁.congr rfl rfl
        · cases h
          refine TwoHalves.kburnTxResult ?_ _ _ _
          exact hs₁.congr rfl rfl

theorem cbGetDeviceInfo_halves (hs : TwoHalves s) (h : cbGetDeviceInfo c s req = .ok (t, req')) :
    TwoHalves t := by
  unfold cbGetDeviceInfo at h
  cases hget : getKburnUsb c s with
  | none => simp [hget] at h
  | some s₁ =>
      simp only [hget] at h
      have hs₁ : TwoHalves s₁ := hs.getKburnUsb hget
      split at h
      · cases h
        refine TwoHalves.kburnTxResult ?_ _ _ _
        exact hs₁.congr rfl rfl
      · cases h
        exact hs₁.kburnTxResult _ _ _

theorem cbWriteLba_halves (hs : TwoHalves s) (h : cbWriteLba board c s req = .ok (t, req')) :
    TwoHalves t := by
  unfold cbWriteLba at h
  dsimp only at h
  split at h
  · cases h
    exact (hs.getD c).kburnTxResult _ _ _
  · cases hget : getKburnUsb c s with
    | none => simp [hget] at h
    | some s₁ =>
        simp only [hget] at h
        have hs₁ : TwoHalves s₁ := hs.getKburnUsb hget
        split at h
        · cases h
        · -- the three refusals, and the acceptance, which does not move the pointer either
          split_ifs at h
          · cases h
            exact hs₁.kburnTxResult _ _ _
          · cases h
            exact hs₁.kburnTxResult _ _ _
          · cases h
            exact hs₁.kburnTxResult _ _ _
          · cases h
            unfold startDl kburnTxStringResult
            refine TwoHalves.kburnTxResult ?_ _ _ _
            exact hs₁.congr rfl rfl

theorem cbEraseLba_halves (hs : TwoHalves s) (h : cbEraseLba c s req = .ok (t, req')) :
    TwoHalves t := by
  unfold cbEraseLba at h
  dsimp only at h
  split at h
  · cases h
    exact (hs.getD c).kburnTxResult _ _ _
  · cases hget : getKburnUsb c s with
    | none => simp [hget] at h
    | some s₁ =>
        simp only [hget] at h
        have hs₁ : TwoHalves s₁ := hs.getKburnUsb hget
        split at h
        · cases h
          exact hs₁.kburnTxResult _ _ _
        · split at h
          · cases h
            exact hs₁.kburnTxResult _ _ _
          · split at h
            · cases h
            · cases h
              refine TwoHalves.kburnTxResult ?_ _ _ _
              exact hs₁.congr rfl rfl

theorem dispatch_halves (hs : TwoHalves s) (h : dispatch board c s req = .ok (t, req')) :
    TwoHalves t := by
  unfold dispatch at h
  rw [find_pktHandlers] at h
  by_cases hfits : req.actual < req.length
  · simp only [if_pos hfits] at h
    split_ifs at h
    · cases h
      exact hs.kburnTxResult _ _ _
    · cases h
      exact hs.kburnTxResult _ _ _
    · exact cbProbeDevice_halves hs h
    · exact cbGetDeviceInfo_halves hs h
    · exact cbWriteLba_halves hs h
    · exact cbEraseLba_halves hs h
    · cases h
      exact hs.kburnTxResult _ _ _
  · have hreply : ∃ msg, t = kburnTxErrorString c msg s := by
      split_ifs at h <;> simp only [Except.ok.injEq, Prod.mk.injEq] at h <;> exact ⟨_, h.1.symm⟩
    rcases hreply with ⟨msg, rfl⟩
    exact hs.kburnTxResult _ _ _

theorem rxWriteLbaHandler_halves (hs : TwoHalves s)
    (h : rxWriteLbaHandler board c s req = .ok (t, req')) : TwoHalves t := by
  unfold rxWriteLbaHandler at h
  cases hget : getKburnUsb c s with
  | none => simp [hget] at h
  | some s₁ =>
      simp only [hget] at h
      have hs₁ : TwoHalves s₁ := hs.getKburnUsb hget
      split at h
      · cases h
        exact hs₁.kburnTxResult _ _ _
      · split at h
        · cases h
        · split at h
          · cases h
            refine TwoHalves.kburnTxResult ?_ _ _ _
            exact hs₁.congr rfl rfl
          · split at h
            · cases h
              refine TwoHalves.kburnTxResult ?_ _ _ _
              exact fun _ => Or.inl rfl
            · -- the pointer moves to the other half
              cases h
              intro _
              dsimp only
              split
              · exact Or.inr rfl
              · exact Or.inl rfl

/-! ## The requested length -/

/-- 64 and 512 divide the size of the request's buffer, so rounding up never leaves it. -/
theorem lengthFits_of_expected {speed : Speed} (hopen : t.dlBytes < t.dlSize)
    (hlen : req.length = rxBytesExpected (board.at speed) t) : LengthFits t req := by
  have hvalue := toNat_rxBytesExpected (board.at speed) t
  have hremain : 0 < (t.dlSize - t.dlBytes).toNat := by
    have hlt := UInt64.lt_iff_toNat_lt.1 hopen
    rw [UInt64.toNat_sub_of_le _ _ (UInt64.le_of_lt hopen)]
    omega
  rw [← hlen] at hvalue
  have hbounds : 0 < req.length.toNat ∧ req.length.toNat ≤ 131072 ∧
      min (t.dlSize - t.dlBytes).toNat 131072 ≤ req.length.toNat := by
    cases speed with
    | full =>
        have hmax : (board.at .full).maxpacket.toNat = 64 := rfl
        rw [hmax] at hvalue
        split at hvalue <;> omega
    | high =>
        have hmax : (board.at .high).maxpacket.toNat = 512 := rfl
        rw [hmax] at hvalue
        split at hvalue <;> omega
  exact
    { pos := UInt32.lt_iff_toNat_lt.2 hbounds.1
      le := UInt32.le_iff_toNat_le.2 hbounds.2.1
      enough := hbounds.2.2 }

/-- What the handler copies is never more than what arrived. -/
theorem transferSize_le (hmay : MayComplete s c req) :
    (transferSize s (arrived c req).actual).toNat ≤ req.length.toNat := by
  have hactual : (arrived c req).actual.toNat = c.data.length := by
    exact toNat_actual_arrived (lt_of_le_of_lt hmay.2.2 req.length.toNat_lt)
  rw [toNat_transferSize, hactual]
  exact le_trans (Nat.min_le_left _ _) hmay.2.2

/-! ## One event -/

/-- Nothing is in progress, and no data can arrive. -/
theorem bufferInv_none (hhalves : TwoHalves t)
    (hout : ∀ req, t.outReq = some req →
      req.queued ≤ 1 ∧ (req.complete = .rxCommandHandler ∨ req.queued = 0)) :
    BufferInv (t, none) where
  halves := hhalves
  download := fun dl hdl => nomatch hdl
  data := by
    intro req hreq
    refine ⟨(hout req hreq).1, ?_⟩
    intro hmode hqueued
    rcases (hout req hreq).2 with hcmd | hzero
    · simp [hcmd] at hmode
    · omega

/-- A download is in progress, and its request waits at most once. -/
theorem bufferInv_some {dl : Download} (hin : InDownload t dl)
    (hcount : t.dlBytes.toNat + dl.left = t.dlSize.toNat)
    (hqueued : ∀ req, t.outReq = some req → req.queued ≤ 1) : BufferInv (t, some dl) where
  halves := fun _ => hin.buf
  download := by
    intro dl' hdl
    cases Option.some.inj hdl
    exact ⟨hin, hcount⟩
  data := fun req hreq => ⟨hqueued req hreq, fun _ _ => ⟨dl, rfl⟩⟩

/-- The commands are heard only when no download is in progress. -/
theorem BufferInv.none_of_command {d : Option Download} (hx : BufferInv (s, d))
    (hout : s.outReq = some req) (hmode : req.complete = .rxCommandHandler) : d = none := by
  cases d with
  | none => rfl
  | some dl =>
      rcases (hx.download dl rfl).1.outReq with ⟨req', hout', hdata, _⟩
      have hout'' : s.outReq = some req' := hout'
      rw [hout] at hout''
      cases hout''
      simp [hmode] at hdata

theorem bufferInv_accepted {speed : Speed} (hhalves : TwoHalves t)
    (hacc : Accepted (board.at speed) s req t req') (hsize : lbaSize req ≠ 0)
    (hzero : req.queued = 0) :
    BufferInv ({ t with outReq := some (requeued req') },
      some ⟨lbaOffset req, lbaSize req, (lbaSize req).toNat⟩) := by
  have hopen : t.dlBytes < t.dlSize := by
    rw [hacc.dlBytes, hacc.dlSize]
    exact UInt64.pos_iff_ne_zero.2 hsize
  have hrange : t.offset + (t.dlSize - t.dlBytes) = lbaOffset req + lbaSize req := by
    rw [hacc.offset, hacc.dlSize, hacc.dlBytes, UInt64.sub_zero]
  have hfits : LengthFits t (requeued req') := lengthFits_of_expected hopen hacc.length
  refine bufferInv_some ⟨hopen, hrange, hacc.bufHead, hhalves hacc.bufHead, requeued req', rfl,
    hacc.complete, hfits.pos, hfits.le, hfits.enough⟩ ?_ ?_
  · simp [hacc.dlSize, hacc.dlBytes]
  · intro req'' hout
    cases Option.some.inj hout
    simp [requeued, usbEpQueue, hacc.queued, hzero]

theorem downloadAfter_accepted {d : Option Download} {b : Kburn μ} (hout : s.outReq = some req)
    (hmode : req.complete = .rxCommandHandler) (hstatus : c.status = 0)
    (haccepts : AcceptsWrite c s (arrived c req) b) :
    downloadAfter s d (.outComplete c) =
      some ⟨lbaOffset (arrived c req), lbaSize (arrived c req),
        (lbaSize (arrived c req)).toNat⟩ := by
  have hyes : ∃ b, AcceptsWrite c s (arrived c req) b := ⟨b, haccepts⟩
  simp only [downloadAfter, hout, hmode, hstatus, ne_eq, not_true_eq_false, if_false, if_pos hyes]

theorem bufferInv_command {d : Option Download} {speed : Speed} (hx : BufferInv (s, d))
    (hmay : MayComplete s c req) (hmode : req.complete = .rxCommandHandler)
    (hrun : outComplete (board.at speed) c s = .ok t) :
    BufferInv (t, downloadAfter s d (.outComplete c)) := by
  have hnone := hx.none_of_command hmay.1 hmode
  have hone : req.queued ≤ 1 := (hx.data req hmay.1).1
  have hzero : (arrived c req).queued = 0 := by
    simp only [arrived]
    omega
  subst hnone
  by_cases hskip : c.status ≠ 0 ∨ req.length = 0
  · -- the handler returns at once, and the request is not queued again
    have hafter : downloadAfter s none (.outComplete c) = none := by
      have hrefused : c.status = 0 → ∀ b, ¬ AcceptsWrite c s (arrived c req) b := by
        intro hstatus b haccepts
        have hfits := UInt32.lt_iff_toNat_lt.1 haccepts.fits
        rcases hskip with hbad | hlen
        · exact hbad hstatus
        · simp [arrived, hlen] at hfits
      simp only [downloadAfter, hmay.1, hmode]
      split_ifs with hstatus haccepts
      · rfl
      · rcases haccepts with ⟨b, haccepts⟩
        exact absurd haccepts (hrefused (not_not.1 hstatus) b)
      · rfl
    have hhandler : rxCommandHandler (board.at speed) c s (arrived c req) = .ok (s, arrived c req) := by
      simp only [rxCommandHandler]
      exact if_pos hskip
    rcases outComplete_command hmay.1 hmode hrun with ⟨v, req', hhandler', rfl⟩
    rw [hhandler] at hhandler'
    cases hhandler'
    rw [hafter]
    refine bufferInv_none (hx.halves.congr rfl rfl) ?_
    intro req' hout
    cases Option.some.inj hout
    exact ⟨by omega, Or.inl hmode⟩
  · push Not at hskip
    rcases hskip with ⟨hstatus, hlen⟩
    rcases outComplete_command_cases hmay.1 hmode hstatus hlen hrun with
      ⟨v, req₁, hdispatch, rfl, ⟨b, haccepts, hacc⟩ | ⟨hsame, hrefused⟩⟩
    · -- the accepted range is what the fields were set to
      rw [downloadAfter_accepted hmay.1 hmode hstatus haccepts]
      exact bufferInv_accepted (dispatch_halves hx.halves hdispatch) hacc haccepts.size hzero
    · have hafter : downloadAfter s none (.outComplete c) = none := by
        have hno : ¬ ∃ b, AcceptsWrite c s (arrived c req) b := not_exists.2 hrefused
        simp only [downloadAfter, hmay.1, hmode, hstatus, ne_eq, not_true_eq_false, if_false,
          if_neg hno]
      rw [hafter]
      refine bufferInv_none ((dispatch_halves hx.halves hdispatch).congr rfl rfl) ?_
      intro req' hout
      cases Option.some.inj hout
      refine ⟨?_, Or.inl (hsame.complete.trans hmode)⟩
      simp [requeued, usbEpQueue, hsame.queued, hzero]

/-- A chunk moves the offset and the counter by the same amount. -/
theorem range_chunk (offset size bytes n : UInt64) :
    offset + n + (size - (bytes + n)) = offset + (size - bytes) := by
  grind

/-- A packet that is refused leaves the download where it is. -/
theorem InDownload.refused {dl : Download} (h : InDownload s dl) (hout : s.outReq = some req)
    (hmode : req.complete = .rxWriteLbaHandler) (hq : Quiet s t) (hhead : t.bufHead = s.bufHead)
    (hhalves : TwoHalves t) : InDownload { t with outReq := some (arrived c req) } dl := by
  rcases h.outReq with ⟨req', hout', _, hfits⟩
  cases Option.some.inj (hout.symm.trans hout')
  have hhead' : t.bufHead ≠ 0 := hhead.trans_ne h.bufHead
  refine ⟨?_, ?_, hhead', hhalves hhead', arrived c req, rfl, hmode, hfits.pos, hfits.le, ?_⟩
  · simp only [hq.dlBytes, hq.dlSize]
    exact h.unfinished
  · simp only [hq.offset, hq.dlBytes, hq.dlSize]
    exact h.range
  · simp only [hq.dlBytes, hq.dlSize]
    exact hfits.enough

/-- A chunk that is not the last one leaves the rest of the same range. -/
theorem InDownload.more {dl : Download} {m : μ} {speed : Speed} (h : InDownload s dl)
    (htaken : ChunkTaken s req m t) (hsize : t.dlSize = s.dlSize)
    (hmore : ¬ s.dlSize ≤ s.dlBytes + (transferSize s req.actual).toUInt64) (hhalves : TwoHalves t)
    (hmode : req'.complete = .rxWriteLbaHandler)
    (hlen : req'.length = rxBytesExpected (board.at speed) t) (left : Nat) :
    InDownload { t with outReq := some req' } { dl with left := left } := by
  have hopen : t.dlBytes < t.dlSize := by
    rw [htaken.dlBytes, hsize]
    exact UInt64.not_le.1 hmore
  have hrange : t.offset + (t.dlSize - t.dlBytes) = dl.offset + dl.size := by
    rw [htaken.offset, htaken.dlBytes, hsize, range_chunk]
    exact h.range
  have hhead : t.bufHead ≠ 0 := htaken.bufHead.trans_ne h.bufHead
  have hfits : LengthFits t req' := lengthFits_of_expected hopen hlen
  exact ⟨hopen, hrange, hhead, hhalves hhead, req', rfl, hmode, hfits.pos, hfits.le, hfits.enough⟩

/-- A chunk never overshoots, so the gadget finishes exactly when nothing is missing any more. -/
theorem done_iff {n : Nat} (hcounted : s.dlBytes.toNat + n = s.dlSize.toNat) (actual : UInt32) :
    (transferSize s actual).toNat ≤ n ∧
      (s.dlBytes + (transferSize s actual).toUInt64).toNat =
        s.dlBytes.toNat + (transferSize s actual).toNat ∧
      (s.dlSize ≤ s.dlBytes + (transferSize s actual).toUInt64 ↔
        n ≤ (transferSize s actual).toNat) := by
  have hle : s.dlBytes ≤ s.dlSize := by
    rw [UInt64.le_iff_toNat_le]
    omega
  -- the 64-bit difference is exact; what is kept of it in 32 bits can only be less
  have hremain : (s.dlSize - s.dlBytes).toNat = n := by
    rw [UInt64.toNat_sub_of_le _ _ hle]
    omega
  have htransfer : (transferSize s actual).toNat ≤ n := by
    rw [toNat_transferSize, hremain]
    exact le_trans (Nat.min_le_right _ _) (Nat.mod_le _ _)
  have hbound : s.dlSize.toNat < 2 ^ 64 := s.dlSize.toNat_lt
  have hsum : (s.dlBytes + (transferSize s actual).toUInt64).toNat =
      s.dlBytes.toNat + (transferSize s actual).toNat := by
    rw [UInt64.toNat_add, UInt32.toNat_toUInt64]
    omega
  refine ⟨htransfer, hsum, ?_⟩
  rw [UInt64.le_iff_toNat_le, hsum]
  omega

theorem bufferInv_data {dl : Download} {speed : Speed} (hx : BufferInv (s, some dl))
    (hmay : MayComplete s c req) (hmode : req.complete = .rxWriteLbaHandler)
    (hrun : outComplete (board.at speed) c s = .ok t) :
    BufferInv (t, downloadAfter s (some dl) (.outComplete c)) := by
  rcases hx.download dl rfl with ⟨hin, hcount⟩
  dsimp only at hin hcount
  have hone : req.queued ≤ 1 := (hx.data req hmay.1).1
  have hzero : (arrived c req).queued = 0 := by
    simp only [arrived]
    omega
  rcases outComplete_data hmay.1 hmode hrun with ⟨v, req', hhandler, rfl⟩
  have hhalves : TwoHalves v := rxWriteLbaHandler_halves hx.halves hhandler
  rcases done_iff hcount (arrived c req).actual with ⟨hle, hsum, hdone_iff⟩
  rcases rxWriteLbaHandler_effect hhandler with ⟨s₁, hget, heffect⟩
  -- the double buffer is there, so `get_kburn_usb` changes nothing
  rw [getKburnUsb_of_bufHead_ne_zero hin.bufHead] at hget
  cases hget
  cases heffect with
  | refused hstatus hq =>
      -- only a reply was sent; the request stays with the data handler but is not queued
      have hafter : downloadAfter s (some dl) (.outComplete c) = some dl := by
        simp only [downloadAfter, hmay.1, if_pos hstatus]
      have hhead : v.bufHead = s.bufHead := by
        simp only [rxWriteLbaHandler, getKburnUsb_of_bufHead_ne_zero hin.bufHead, if_pos hstatus,
          Except.ok.injEq, Prod.mk.injEq] at hhandler
        rw [← hhandler.1]
        exact bufHead_kburnTxResult _ _ _ _
      rw [hafter]
      refine bufferInv_some (hin.refused hmay.1 hmode hq hhead hhalves) ?_ ?_
      · simp only [hq.dlBytes, hq.dlSize]
        exact hcount
      · intro req'' hout
        cases Option.some.inj hout
        omega
  | failed r x m hstatus hans hbad _ =>
      have hfails : WriteFails c s :=
        ⟨req, s, r, x, m, hmay.1, hmode, getKburnUsb_of_bufHead_ne_zero hin.bufHead, hans, hbad⟩
      have hafter : downloadAfter s (some dl) (.outComplete c) = none := by
        simp only [downloadAfter, hmay.1, hmode, hstatus, ne_eq, not_true_eq_false, if_false,
          if_pos hfails]
      rw [hafter]
      refine bufferInv_none (hhalves.congr rfl rfl) ?_
      intro req'' hout
      cases Option.some.inj hout
      exact ⟨by omega, Or.inr hzero⟩
  | done m hstatus hans hdone _ _ _ hcmd _ hcnt =>
      have hfails := not_writeFails hmay.1 hin.bufHead hans
      have hend : dl.left ≤ (transferSize s (arrived c req).actual).toNat := hdone_iff.1 hdone
      have hafter : downloadAfter s (some dl) (.outComplete c) = none := by
        simp only [downloadAfter, hmay.1, hmode, hstatus, ne_eq, not_true_eq_false, if_false,
          if_neg hfails, Option.bind_some, if_pos hend]
      rw [hafter]
      refine bufferInv_none (hhalves.congr rfl rfl) ?_
      intro req'' hout
      cases Option.some.inj hout
      exact ⟨by omega, Or.inl hcmd⟩
  | more m hstatus hans hmore htaken hsize _ hcmd hlen hcnt =>
      have hfails := not_writeFails hmay.1 hin.bufHead hans
      have hrest : ¬ dl.left ≤ (transferSize s (arrived c req).actual).toNat := fun hend =>
        hmore (hdone_iff.2 hend)
      have hafter : downloadAfter s (some dl) (.outComplete c) =
          some { dl with left := dl.left - (transferSize s (arrived c req).actual).toNat } := by
        simp only [downloadAfter, hmay.1, hmode, hstatus, ne_eq, not_true_eq_false, if_false,
          if_neg hfails, Option.bind_some, if_neg hrest]
      rw [hafter]
      refine bufferInv_some (hin.more htaken hsize hmore hhalves (hcmd.trans hmode) hlen _) ?_ ?_
      · simp only [htaken.dlBytes, hsize, hsum]
        omega
      · intro req'' hout
        cases Option.some.inj hout
        omega

theorem bufferInv_disable (s : KburnUsb μ) : BufferInv (kburnDisable s, none) := by
  refine bufferInv_none (fun h => absurd rfl h) ?_
  intro req hout
  simp [kburnDisable] at hout

theorem bufferInv_setAlt {d : Option Download} (hx : BufferInv (s, d)) (a : SetAlt) :
    BufferInv (kburnSetAlt a s, downloadAfter s d (.setAlt a)) := by
  by_cases hfail : a.enableOut = 0
  · simp only [kburnSetAlt, downloadAfter, hfail, ne_eq, not_true_eq_false, if_false, if_true]
    split
    · exact bufferInv_disable s
    · -- a fresh request, with `rx_command_handler`
      refine bufferInv_none (hx.halves.congr rfl rfl) ?_
      intro req hout
      cases Option.some.inj hout
      exact ⟨le_rfl, Or.inl rfl⟩
  · simp only [kburnSetAlt, downloadAfter, ne_eq, hfail, not_false_eq_true, if_true, if_false]
    exact hx

theorem bufferInv_step {x y : KburnUsb μ × Option Download} {e : Speed × Event} (hx : BufferInv x)
    (hstep : DownloadStep board x e y) : BufferInv y := by
  rcases x with ⟨s, d⟩
  rcases y with ⟨t, d'⟩
  rcases e with ⟨speed, e⟩
  rcases hstep with ⟨hstep, hd⟩
  dsimp only at hstep hd
  subst hd
  cases e with
  | setAlt a =>
      cases hstep
      exact bufferInv_setAlt hx a
  | disable =>
      cases hstep
      exact bufferInv_disable s
  | outComplete c =>
      rcases hstep with ⟨req, hmay, hrun⟩
      cases hmode : req.complete with
      | rxCommandHandler => exact bufferInv_command hx hmay hmode hrun
      | rxWriteLbaHandler =>
          rcases (hx.data req hmay.1).2 hmode hmay.2.1 with ⟨dl, hdl⟩
          dsimp only at hdl
          subst hdl
          exact bufferInv_data hx hmay hmode hrun

/-! ## Whole runs -/

theorem bufferInv_run {m : μ} {bufHead : Nat} {es : List (Speed × Event)}
    {d : Option Download} (hrun : Run (DownloadStep board) (kburnAdd m bufHead, none) es (s, d)) :
    BufferInv (s, d) := by
  refine hrun.invariant ?_ fun x e y hx hstep => bufferInv_step hx hstep
  refine bufferInv_none (fun _ => Or.inl rfl) ?_
  intro req hout
  simp [kburnAdd] at hout

/-- The write pointer and the length of the request bound the copy. -/
theorem copyFits_of_inDownload {dl : Download} (hin : InDownload s dl) (hmay : MayComplete s c req) :
    CopyFits s (arrived c req) := by
  rcases hin.outReq with ⟨req', hout, _, hfits⟩
  cases Option.some.inj (hmay.1.symm.trans hout)
  have hlen : req.length.toNat ≤ 131072 := UInt32.le_iff_toNat_le.1 hfits.le
  have hcopy : (transferSize s (arrived c req).actual).toNat ≤ usbEpBufferSize :=
    le_trans (transferSize_le hmay) hlen
  refine ⟨?_, ?_, hcopy⟩
  · rcases hin.buf with hbuf | hbuf
    · exact hbuf.ge
    · rw [hbuf]
      exact Nat.le_add_right _ _
  · simp only [usbBufferSize]
    rcases hin.buf with hbuf | hbuf
    · rw [hbuf]
      omega
    · rw [hbuf]
      omega

/-- In every state of every run, at whatever speeds, a download in progress is `InDownload`; and
whenever data arrives, `rx_write_lba_handler` finds the double buffer in place and copies within the
two buffers. -/
theorem download_buffer_invariant (board : Board μ) (m : μ) (bufHead : Nat)
    (es : List (Speed × Event)) (s : KburnUsb μ) (d : Option Download)
    (hrun : Run (DownloadStep board) (kburnAdd m bufHead, none) es (s, d)) :
    (∀ dl, d = some dl → InDownload s dl) ∧
      ∀ c req, MayComplete s c req → req.complete = .rxWriteLbaHandler →
        (∃ dl, d = some dl) ∧ getKburnUsb c s = some s ∧ CopyFits s (arrived c req) := by
  have hinv := bufferInv_run hrun
  refine ⟨fun dl hdl => (hinv.download dl hdl).1, ?_⟩
  intro c req hmay hmode
  rcases (hinv.data req hmay.1).2 hmode hmay.2.1 with ⟨dl, hdl⟩
  have hin : InDownload s dl := (hinv.download dl hdl).1
  exact ⟨⟨dl, hdl⟩, getKburnUsb_of_bufHead_ne_zero hin.bufHead, copyFits_of_inDownload hin hmay⟩

/-- Every run of the gadget is followed by the host's view. -/
theorem exists_downloadRun {es : List (Speed × Event)} {d : Option Download}
    (hrun : Run (fun s (e : Speed × Event) t => GadgetStep (board.at e.1) s e.2 t) s es t) :
    ∃ d', Run (DownloadStep board) (s, d) es (t, d') := by
  induction hrun generalizing d with
  | nil s => exact ⟨d, Run.nil _⟩
  | cons hstep _ ih =>
      rcases ih with ⟨d', hrest⟩
      exact ⟨d', Run.cons ⟨hstep, rfl⟩ hrest⟩

end

/-- A card that stores whatever it is given. -/
def storingCard : Board Unit :=
  cardBoard 4096 fun m _ _ len => some (0, len, m)

/-- A download of 1000 bytes to the second sector, right after it was accepted. -/
theorem download_buffer_second_sector :
    ∃ es s dl, Run (DownloadStep storingCard) (kburnAdd () 4096, none) es (s, some dl) ∧
      dl.offset = 512 ∧ dl.size = 1000 ∧ InDownload s dl := by
  rcases exists_cardReady 4096 (fun (m : Unit) _ _ len => some (0, len, m)) () with
    ⟨s₁, s₂, hstep₁, hstep₂, hidle⟩
  rcases hidle.accepts storingCard 512 1000 rfl (by decide) (by decide) _ rfl with
    ⟨req, v, req', hmay, hmode, _, haccepts, _, hcomplete⟩
  -- at high speed `maxpacket` is the 512 of the board itself
  have hready : Run (fun s (e : Speed × Event) t => GadgetStep (storingCard.at e.1) s e.2 t)
      (kburnAdd () 4096)
      [(.high, .setAlt configured),
        (.high, .outComplete (hostSends (cmdPkt .devProbe [KburnMediaType.eMMC.code, 0]))),
        (.high, .outComplete (hostSends (cmdPkt .devGetInfo [])))] s₂ :=
    Run.cons rfl (Run.cons hstep₁ (Run.cons hstep₂ (Run.nil s₂)))
  rcases exists_downloadRun (d := none) hready with ⟨d, htracked⟩
  have hoffset : lbaOffset (arrived (hostSends (lbaPkt .writeLba 512 1000)) req) = 512 :=
    lbaOffset_arrived rfl
  have hsize : lbaSize (arrived (hostSends (lbaPkt .writeLba 512 1000)) req) = 1000 :=
    lbaSize_arrived rfl
  have hafter : downloadAfter s₂ d (.outComplete (hostSends (lbaPkt .writeLba 512 1000))) =
      some ⟨512, 1000, (1000 : UInt64).toNat⟩ := by
    rw [downloadAfter_accepted hmay.1 hmode rfl haccepts, hoffset, hsize]
  have hstep : DownloadStep storingCard (s₂, d)
      (.high, .outComplete (hostSends (lbaPkt .writeLba 512 1000)))
      ({ v with outReq := some (requeued req') }, some ⟨512, 1000, (1000 : UInt64).toNat⟩) :=
    ⟨⟨req, hmay, hcomplete⟩, hafter.symm⟩
  have hrun := htracked.snoc hstep
  exact ⟨_, _, _, hrun, rfl, rfl,
    (download_buffer_invariant storingCard () 4096 _ _ _ hrun).1 _ rfl⟩

end Burn
end CanmvK230
