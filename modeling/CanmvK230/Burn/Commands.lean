import CanmvK230.Burn.Gadget

/-!
# Commands — what one command packet can do to the gadget

`rx_command_handler` looks the command up in `pkt_handlers` and runs one of six callbacks, each with
several early returns.  `CommandEffect` lists, once, everything that can have happened when it
returns:

* `quiet`: a reply at most (an error, an unknown command, a refused request);
* `probe` and `info`: the burner was replaced, or its medium information filled in;
* `accept`: a `WRITE_LBA` was accepted, and the OUT request now carries data;
* `erase`: the medium was asked to erase a range.

Every property of the command state machine is a case analysis on it (`rxCommandHandler_effect`).
-/

namespace CanmvK230
namespace Burn

open Lib

section

variable {μ : Type} {board : Board μ} {c : Completion} {s t u : KburnUsb μ} {req req' : UsbRequest}

/-! ## Steps that only reply -/

/-- Nothing but the replies and the allocation of the double buffer differs. -/
structure Quiet (s t : KburnUsb μ) : Prop where
  -- `bufHead`, `buf` and `bufMem` are left out: `get_kburn_usb` may have allocated them again
  medium : t.medium = s.medium
  burner : t.burner = s.burner
  offset : t.offset = s.offset
  dlSize : t.dlSize = s.dlSize
  dlBytes : t.dlBytes = s.dlBytes
  calls : t.calls = s.calls
  outReq : t.outReq = s.outReq

theorem Quiet.refl (s : KburnUsb μ) : Quiet s s :=
  ⟨rfl, rfl, rfl, rfl, rfl, rfl, rfl⟩

theorem Quiet.trans (h : Quiet s t) (h' : Quiet t u) : Quiet s u :=
  ⟨h'.medium.trans h.medium, h'.burner.trans h.burner, h'.offset.trans h.offset,
    h'.dlSize.trans h.dlSize, h'.dlBytes.trans h.dlBytes, h'.calls.trans h.calls,
    h'.outReq.trans h.outReq⟩

theorem quiet_kburnTxResult (cmd : KburnPktCmd) (result : KburnPktResult) (data : List UInt8)
    (s : KburnUsb μ) : Quiet s (kburnTxResult c cmd result data s) := by
  unfold kburnTxResult
  split
  · exact Quiet.refl s
  · exact ⟨rfl, rfl, rfl, rfl, rfl, rfl, rfl⟩

@[simp] theorem bufHead_kburnTxResult (cmd : KburnPktCmd) (result : KburnPktResult)
    (data : List UInt8) (s : KburnUsb μ) :
    (kburnTxResult c cmd result data s).bufHead = s.bufHead := by
  unfold kburnTxResult
  split
  · rfl
  · rfl

theorem replies_kburnTxResult (cmd : KburnPktCmd) (result : KburnPktResult) (data : List UInt8)
    (s : KburnUsb μ) (h : data.length ≤ 58) :
    (kburnTxResult c cmd result data s).replies = s.replies ++ [csw c cmd.code result.code data] := by
  have hfit : ¬ usbPktSize - KburnUsbPkt.sizeof < data.length := by
    simpa [usbPktSize, KburnUsbPkt.sizeof] using h
  simp [kburnTxResult, hfit, kburnTxWrite]

/-- `get_kburn_usb` returns the gadget as it is, or with a new double buffer. -/
theorem getKburnUsb_cases (h : getKburnUsb c s = some t) :
    (s.bufHead ≠ 0 ∧ t = s) ∨
      (c.heap ≠ 0 ∧
        t =
          { s with
            bufHead := c.heap
            buf := c.heap
            bufMem := s.bufMem.fill c.heap usbBufferSize 0 }) := by
  unfold getKburnUsb at h
  split at h
  · split at h
    · cases h
    · rename_i hheap
      cases h
      exact Or.inr ⟨hheap, rfl⟩
  · rename_i hhead
    cases h
    exact Or.inl ⟨hhead, rfl⟩

theorem quiet_of_getKburnUsb (h : getKburnUsb c s = some t) : Quiet s t := by
  rcases getKburnUsb_cases h with ⟨_, rfl⟩ | ⟨_, rfl⟩
  · exact Quiet.refl t
  · exact ⟨rfl, rfl, rfl, rfl, rfl, rfl, rfl⟩

theorem quiet_getD_getKburnUsb (c : Completion) (s : KburnUsb μ) :
    Quiet s ((getKburnUsb c s).getD s) := by
  cases h : getKburnUsb c s with
  | none => exact Quiet.refl s
  | some t => exact quiet_of_getKburnUsb h

theorem replies_of_getKburnUsb (h : getKburnUsb c s = some t) : t.replies = s.replies := by
  rcases getKburnUsb_cases h with ⟨_, rfl⟩ | ⟨_, rfl⟩
  · rfl
  · rfl

theorem replies_getD_getKburnUsb (c : Completion) (s : KburnUsb μ) :
    ((getKburnUsb c s).getD s).replies = s.replies := by
  cases h : getKburnUsb c s with
  | none => rfl
  | some t => exact replies_of_getKburnUsb h

theorem bufHead_ne_zero_of_getKburnUsb (h : getKburnUsb c s = some t) : t.bufHead ≠ 0 := by
  rcases getKburnUsb_cases h with ⟨hhead, rfl⟩ | ⟨hheap, rfl⟩
  · exact hhead
  · exact hheap

theorem getKburnUsb_of_bufHead_ne_zero (h : s.bufHead ≠ 0) : getKburnUsb c s = some s := by
  simp [getKburnUsb, h]

/-! ## The packet a callback sees -/

/-- `buf[req->actual] = 0`, done before the callback reads the packet again. -/
def terminated (req : UsbRequest) : UsbRequest :=
  { req with buf := req.buf.write req.actual.toNat [0] }

def pktCmd (req : UsbRequest) : UInt16 :=
  (KburnUsbPkt.ofBuf req.buf).cmd

def pktDataSize (req : UsbRequest) : UInt8 :=
  (KburnUsbPkt.ofBuf (terminated req).buf).dataSize

def lbaOffset (req : UsbRequest) : UInt64 :=
  getUnalignedLe64 (KburnUsbPkt.ofBuf (terminated req).buf).data 0

def lbaSize (req : UsbRequest) : UInt64 :=
  getUnalignedLe64 (KburnUsbPkt.ofBuf (terminated req).buf).data 8

/-- Length, handler and queue count of the request are the same. -/
structure SameMode (req req' : UsbRequest) : Prop where
  length : req'.length = req.length
  complete : req'.complete = req.complete
  queued : req'.queued = req.queued

theorem sameMode_terminated (req : UsbRequest) : SameMode req (terminated req) :=
  ⟨rfl, rfl, rfl⟩

theorem SameMode.refl (req : UsbRequest) : SameMode req req :=
  ⟨rfl, rfl, rfl⟩

/-! ## The effects -/

/-- `WRITE_LBA` is accepted: what `cb_write_lba` checks, in the arithmetic it checks it in. -/
structure AcceptsWrite (c : Completion) (s : KburnUsb μ) (req : UsbRequest) (b : Kburn μ) : Prop where
  buffer : getKburnUsb c s ≠ none
  cmd : pktCmd req = KburnPktCmd.writeLba.code
  fits : req.actual < req.length
  dataSize : pktDataSize req = 16
  burner : s.burner = some b
  valid : b.mediumInfo.valid = 1
  size : lbaSize req ≠ 0
  inRange : ¬ lbaOffset req + lbaSize req > b.mediumInfo.capacity

/-- `ERASE_LBA` reaches the medium: `cb_erase_lba` tests the burner and the size, and no more. -/
structure Erases (c : Completion) (s : KburnUsb μ) (req : UsbRequest) (b : Kburn μ) : Prop where
  buffer : getKburnUsb c s ≠ none
  cmd : pktCmd req = KburnPktCmd.eraseLba.code
  fits : req.actual < req.length
  dataSize : pktDataSize req = 16
  burner : s.burner = some b
  size : lbaSize req ≠ 0

/-- The gadget right after the acceptance. -/
structure Accepted (board : Board μ) (s : KburnUsb μ) (req : UsbRequest) (t : KburnUsb μ)
    (req' : UsbRequest) : Prop where
  medium : t.medium = s.medium
  burner : t.burner = s.burner
  offset : t.offset = lbaOffset req
  dlSize : t.dlSize = lbaSize req
  dlBytes : t.dlBytes = 0
  calls : t.calls = s.calls
  bufHead : t.bufHead ≠ 0
  length : req'.length = rxBytesExpected board t
  complete : req'.complete = .rxWriteLbaHandler
  queued : req'.queued = req.queued

/-- Everything one command can have done when its callback returns. -/
inductive CommandEffect (board : Board μ) (c : Completion) (s : KburnUsb μ) (req : UsbRequest) :
    KburnUsb μ → UsbRequest → Prop
  | quiet {t : KburnUsb μ} {req' : UsbRequest} :
      Quiet s t → SameMode req req' → CommandEffect board c s req t req'
  | probe {t : KburnUsb μ} {req' : UsbRequest} (type : UInt8) :
      Quiet
          { s with
            burner := (kburnProbeMedia board type (kburnDestory s.burner s.medium)).1
            medium := (kburnProbeMedia board type (kburnDestory s.burner s.medium)).2 } t →
        SameMode req req' → CommandEffect board c s req t req'
  | info {t : KburnUsb μ} {req' : UsbRequest} (b : Kburn μ) :
      s.burner = some b → Quiet { s with burner := some (kburnGetMediumInfo b).2 } t →
        SameMode req req' → CommandEffect board c s req t req'
  | accept {t : KburnUsb μ} {req' : UsbRequest} (b : Kburn μ) :
      AcceptsWrite c s req b → Accepted board s req t req' → CommandEffect board c s req t req'
  | erase {t : KburnUsb μ} {req' : UsbRequest} (b : Kburn μ) (result : Int) (size' : UInt64)
      (m : μ) :
      Erases c s req b →
        kburnEraseMedium s.burner s.medium (lbaOffset req) (lbaSize req) = some (result, size', m) →
        Quiet
          { s with
            medium := m
            calls := s.calls ++ [.erase (lbaOffset req) (lbaSize req)] } t →
        SameMode req req' → CommandEffect board c s req t req'

/-! ## One lemma for each callback -/

theorem cbNotSupport_effect (h : cbNotSupport c s (terminated req) = .ok (t, req')) :
    CommandEffect board c s req t req' := by
  cases h
  exact .quiet (quiet_kburnTxResult _ _ _ _) (sameMode_terminated req)

theorem cbProbeDevice_effect (h : cbProbeDevice board c s (terminated req) = .ok (t, req')) :
    CommandEffect board c s req t req' := by
  unfold cbProbeDevice at h
  dsimp only at h
  split at h
  · -- the data size is tested before the pointer, so a missing double buffer does no harm here
    cases h
    exact .quiet ((quiet_getD_getKburnUsb c s).trans (quiet_kburnTxResult _ _ _ _))
      (sameMode_terminated req)
  · cases hget : getKburnUsb c s with
    | none => simp [hget] at h
    | some s₁ =>
        have hq := quiet_of_getKburnUsb hget
        simp only [hget] at h
        -- both replies leave the new burner in place, whether the probe found a device or not
        have hprobe : ∀ (result : KburnPktResult) (data : List UInt8),
            Quiet
              { s with
                burner := (kburnProbeMedia board
                  ((KburnUsbPkt.ofBuf (terminated req).buf).data 0)
                  (kburnDestory s.burner s.medium)).1
                medium := (kburnProbeMedia board
                  ((KburnUsbPkt.ofBuf (terminated req).buf).data 0)
                  (kburnDestory s.burner s.medium)).2 }
              (kburnTxResult c .devProbe result data
                { s₁ with
                  burner := (kburnProbeMedia board
                    ((KburnUsbPkt.ofBuf (terminated req).buf).data 0)
                    (kburnDestory s₁.burner s₁.medium)).1
                  medium := (kburnProbeMedia board
                    ((KburnUsbPkt.ofBuf (terminated req).buf).data 0)
                    (kburnDestory s₁.burner s₁.medium)).2 }) := by
          intro result data
          refine Quiet.trans ?_ (quiet_kburnTxResult _ _ _ _)
          exact ⟨by rw [hq.burner, hq.medium], by rw [hq.burner, hq.medium], hq.offset, hq.dlSize,
            hq.dlBytes, hq.calls, hq.outReq⟩
        split at h
        · cases h
          exact .probe _ (hprobe _ _) (sameMode_terminated req)
        · cases h
          exact .probe _ (hprobe _ _) (sameMode_terminated req)

theorem cbGetDeviceInfo_effect (h : cbGetDeviceInfo c s (terminated req) = .ok (t, req')) :
    CommandEffect board c s req t req' := by
  unfold cbGetDeviceInfo at h
  cases hget : getKburnUsb c s with
  | none => simp [hget] at h
  | some s₁ =>
      have hq := quiet_of_getKburnUsb hget
      simp only [hget] at h
      cases hb : s₁.burner with
      | none =>
          simp only [hb, Except.ok.injEq, Prod.mk.injEq] at h
          rcases h with ⟨rfl, rfl⟩
          exact .quiet (hq.trans (quiet_kburnTxResult _ _ _ _)) (sameMode_terminated req)
      | some b =>
          simp only [hb, Except.ok.injEq, Prod.mk.injEq] at h
          rcases h with ⟨rfl, rfl⟩
          refine .info b (hq.burner.symm.trans hb) ?_ (sameMode_terminated req)
          refine Quiet.trans ?_ (quiet_kburnTxResult _ _ _ _)
          exact ⟨hq.medium, rfl, hq.offset, hq.dlSize, hq.dlBytes, hq.calls, hq.outReq⟩

theorem accepted_startDl (hq : Quiet s t) (hhead : t.bufHead ≠ 0) :
    Accepted board s req (startDl c (lbaOffset req) (lbaSize req) t)
      { terminated req with
        complete := .rxWriteLbaHandler
        length := rxBytesExpected board (startDl c (lbaOffset req) (lbaSize req) t) } := by
  have htx : Quiet { t with offset := lbaOffset req, dlSize := lbaSize req, dlBytes := 0 }
      (startDl c (lbaOffset req) (lbaSize req) t) := by
    unfold startDl kburnTxStringResult
    exact quiet_kburnTxResult _ _ _ _
  have hhead' : (startDl c (lbaOffset req) (lbaSize req) t).bufHead = t.bufHead := by
    unfold startDl kburnTxStringResult
    exact bufHead_kburnTxResult _ _ _ _
  exact
    { medium := htx.medium.trans hq.medium
      burner := htx.burner.trans hq.burner
      offset := htx.offset
      dlSize := htx.dlSize
      dlBytes := htx.dlBytes
      calls := htx.calls.trans hq.calls
      bufHead := by rw [hhead']; exact hhead
      length := by dsimp only
      complete := rfl
      queued := rfl }

theorem cbWriteLba_effect (hcmd : pktCmd req = KburnPktCmd.writeLba.code)
    (hfits : req.actual < req.length)
    (h : cbWriteLba board c s (terminated req) = .ok (t, req')) :
    CommandEffect board c s req t req' := by
  unfold cbWriteLba at h
  dsimp only at h
  split at h
  · cases h
    exact .quiet ((quiet_getD_getKburnUsb c s).trans (quiet_kburnTxResult _ _ _ _))
      (sameMode_terminated req)
  · rename_i hsize
    cases hget : getKburnUsb c s with
    | none => simp [hget] at h
    | some s₁ =>
        have hq := quiet_of_getKburnUsb hget
        simp only [hget] at h
        cases hb : s₁.burner with
        | none =>
            -- the NULL burner was dereferenced: the callback did not return
            simp [hb] at h
        | some b =>
            -- the three refusals come in the order of the source: info, size, range
            simp only [hb] at h
            split at h
            · cases h
              exact .quiet (hq.trans (quiet_kburnTxResult _ _ _ _)) (sameMode_terminated req)
            · rename_i hvalid
              split at h
              · cases h
                exact .quiet (hq.trans (quiet_kburnTxResult _ _ _ _)) (sameMode_terminated req)
              · rename_i hzero
                split at h
                · cases h
                  exact .quiet (hq.trans (quiet_kburnTxResult _ _ _ _)) (sameMode_terminated req)
                · rename_i hrange
                  cases h
                  exact .accept b
                    { buffer := by simp [hget]
                      cmd := hcmd
                      fits := hfits
                      dataSize := not_not.1 hsize
                      burner := hq.burner.symm.trans hb
                      valid := not_not.1 hvalid
                      size := hzero
                      inRange := hrange }
                    (accepted_startDl hq (bufHead_ne_zero_of_getKburnUsb hget))

theorem cbEraseLba_effect (hcmd : pktCmd req = KburnPktCmd.eraseLba.code)
    (hfits : req.actual < req.length) (h : cbEraseLba c s (terminated req) = .ok (t, req')) :
    CommandEffect board c s req t req' := by
  unfold cbEraseLba at h
  dsimp only at h
  split at h
  · cases h
    exact .quiet ((quiet_getD_getKburnUsb c s).trans (quiet_kburnTxResult _ _ _ _))
      (sameMode_terminated req)
  · rename_i hsize
    cases hget : getKburnUsb c s with
    | none => simp [hget] at h
    | some s₁ =>
        have hq := quiet_of_getKburnUsb hget
        simp only [hget] at h
        cases hb : s₁.burner with
        | none =>
            simp only [hb, Except.ok.injEq, Prod.mk.injEq] at h
            rcases h with ⟨rfl, rfl⟩
            exact .quiet (hq.trans (quiet_kburnTxResult _ _ _ _)) (sameMode_terminated req)
        | some b =>
            simp only [hb] at h
            split at h
            · cases h
              exact .quiet (hq.trans (quiet_kburnTxResult _ _ _ _)) (sameMode_terminated req)
            · rename_i hzero
              -- no test of the range stands between the size and the call of the medium
              split at h
              · cases h
              · rename_i result size' m herase
                cases h
                have herases : Erases c s req b :=
                  { buffer := by simp [hget]
                    cmd := hcmd
                    fits := hfits
                    dataSize := not_not.1 hsize
                    burner := hq.burner.symm.trans hb
                    size := hzero }
                refine .erase b result size' m herases ?_ ?_ (sameMode_terminated req)
                · rw [← hq.burner, ← hq.medium, hb]
                  exact herase
                · refine Quiet.trans ?_ (quiet_kburnTxResult _ _ _ _)
                  exact ⟨rfl, hb.symm.trans hq.burner, hq.offset, hq.dlSize, hq.dlBytes,
                    congrArg (· ++ _) hq.calls, hq.outReq⟩

/-! ## The command handler -/

/-- The lookup in `pkt_handlers`, command by command. -/
theorem find_pktHandlers (cmd : UInt16) :
    (pktHandlers board c).find? (fun h => h.1.code == cmd) =
      if cmd = KburnPktCmd.none.code then some (.none, cbNotSupport c)
      else if cmd = KburnPktCmd.max.code then some (.max, cbNotSupport c)
      else if cmd = KburnPktCmd.devProbe.code then some (.devProbe, cbProbeDevice board c)
      else if cmd = KburnPktCmd.devGetInfo.code then some (.devGetInfo, cbGetDeviceInfo c)
      else if cmd = KburnPktCmd.writeLba.code then some (.writeLba, cbWriteLba board c)
      else if cmd = KburnPktCmd.eraseLba.code then some (.eraseLba, cbEraseLba c)
      else none := by
  have hbeq : ∀ a : UInt16, (a == cmd) = decide (cmd = a) := by
    intro a
    by_cases h : cmd = a
    · simp [h]
    · simp [h, Ne.symm h]
  simp only [pktHandlers, List.find?_cons, hbeq, List.find?_nil]
  split_ifs <;> simp_all

/-- The callback the handler runs, or the error reply it sends instead. -/
def dispatch (board : Board μ) (c : Completion) (s : KburnUsb μ) (req : UsbRequest) :
    Except Fault (KburnUsb μ × UsbRequest) :=
  match (pktHandlers board c).find? (fun h => h.1.code == pktCmd req) with
  | none => .ok (kburnTxErrorString c "FAILunknown command" s, req)
  | some (_, funcCb) =>
      if req.actual < req.length then
        funcCb s (terminated req)
      else
        .ok (kburnTxErrorString c "FAILbuffer overflow" s, req)

/-- `*cmdbuf = '\0'; req->actual = 0; usb_ep_queue(ep, req, 0)`. -/
def requeued (req : UsbRequest) : UsbRequest :=
  usbEpQueue { req with buf := req.buf.write 0 [0], actual := 0 }

variable (board) in
theorem rxCommandHandler_eq (hstatus : c.status = 0) (hlen : req.length ≠ 0) :
    rxCommandHandler board c s req =
      match dispatch board c s req with
      | .error f => .error f
      | .ok (t, req') => .ok (t, requeued req') := by
  have hgo : ¬ (c.status ≠ 0 ∨ req.length = 0) := by simp [hstatus, hlen]
  simp only [rxCommandHandler, if_neg hgo]
  rfl

theorem dispatch_effect (h : dispatch board c s req = .ok (t, req')) :
    CommandEffect board c s req t req' := by
  unfold dispatch at h
  rw [find_pktHandlers] at h
  by_cases hfits : req.actual < req.length
  · -- one goal for each row of the table, and one for a command that is not in it
    split_ifs at h with h1 h2 h3 h4 h5 h6
    · exact cbNotSupport_effect (by simpa [hfits] using h)
    · exact cbNotSupport_effect (by simpa [hfits] using h)
    · exact cbProbeDevice_effect (by simpa [hfits] using h)
    · exact cbGetDeviceInfo_effect (by simpa [hfits] using h)
    · exact cbWriteLba_effect h5 hfits (by simpa [hfits] using h)
    · exact cbEraseLba_effect h6 hfits (by simpa [hfits] using h)
    · cases h
      exact .quiet (quiet_kburnTxResult _ _ _ _) (SameMode.refl req)
  · -- nothing is dispatched: the reply says that the buffer overflowed or that nothing matched
    have hreply : ∃ msg, t = kburnTxErrorString c msg s ∧ req' = req := by
      split_ifs at h <;> simp only [Except.ok.injEq, Prod.mk.injEq] at h <;>
        exact ⟨_, h.1.symm, h.2.symm⟩
    rcases hreply with ⟨msg, rfl, rfl⟩
    exact .quiet (quiet_kburnTxResult _ _ _ _) (SameMode.refl req')

/-- A packet with the code of a row reaches the callback of that row: no two rows share a code. -/
theorem dispatch_of_row {cmd : KburnPktCmd} {funcCb : Callback μ}
    (hrow : (cmd, funcCb) ∈ pktHandlers board c) (hcmd : pktCmd req = cmd.code)
    (hfits : req.actual < req.length) : dispatch board c s req = funcCb s (terminated req) := by
  have hfind : (pktHandlers board c).find? (fun h => h.1.code == pktCmd req) =
      some (cmd, funcCb) := by
    rw [hcmd, find_pktHandlers]
    simp only [pktHandlers, List.mem_cons, Prod.mk.injEq, List.not_mem_nil, or_false] at hrow
    rcases hrow with ⟨rfl, rfl⟩ | ⟨rfl, rfl⟩ | ⟨rfl, rfl⟩ | ⟨rfl, rfl⟩ | ⟨rfl, rfl⟩ | ⟨rfl, rfl⟩ <;>
      rfl
  simp only [dispatch, hfind, if_pos hfits]

variable (board) in
/-- An acceptable `WRITE_LBA` is accepted. -/
theorem dispatch_of_acceptsWrite {b : Kburn μ} (h : AcceptsWrite c s req b) :
    ∃ t req', dispatch board c s req = .ok (t, req') ∧ req'.complete = .rxWriteLbaHandler := by
  have hrun : dispatch board c s req = cbWriteLba board c s (terminated req) :=
    dispatch_of_row (by simp [pktHandlers]) h.cmd h.fits
  cases hget : getKburnUsb c s with
  | none => exact absurd hget h.buffer
  | some s₁ =>
      have hburner : s₁.burner = some b := (quiet_of_getKburnUsb hget).burner.trans h.burner
      have hsize : ¬ (KburnUsbPkt.ofBuf (terminated req).buf).dataSize ≠ 16 :=
        not_not.2 h.dataSize
      have hvalid : ¬ b.mediumInfo.valid ≠ 1 := not_not.2 h.valid
      have hzero : ¬ getUnalignedLe64 (KburnUsbPkt.ofBuf (terminated req).buf).data 8 = 0 := h.size
      have hrange : ¬ getUnalignedLe64 (KburnUsbPkt.ofBuf (terminated req).buf).data 0 +
          getUnalignedLe64 (KburnUsbPkt.ofBuf (terminated req).buf).data 8 >
            b.mediumInfo.capacity := h.inRange
      refine ⟨startDl c (lbaOffset req) (lbaSize req) s₁,
        { terminated req with
          complete := .rxWriteLbaHandler
          length := rxBytesExpected board (startDl c (lbaOffset req) (lbaSize req) s₁) }, ?_, rfl⟩
      rw [hrun]
      simp only [cbWriteLba, if_neg hsize, hget, hburner, if_neg hvalid, if_neg hzero,
        if_neg hrange]
      rfl

variable (board) in
/-- What `cb_erase_lba` does once it calls the medium. -/
theorem dispatch_of_erases {b : Kburn μ} (h : Erases c s req b) :
    (kburnEraseMedium (some b) s.medium (lbaOffset req) (lbaSize req) = none ∧
        dispatch board c s req = .error .noReturn) ∨
      ∃ t, dispatch board c s req = .ok (t, terminated req) ∧
        t.calls = s.calls ++ [.erase (lbaOffset req) (lbaSize req)] := by
  have hrun : dispatch board c s req = cbEraseLba c s (terminated req) :=
    dispatch_of_row (by simp [pktHandlers]) h.cmd h.fits
  cases hget : getKburnUsb c s with
  | none => exact absurd hget h.buffer
  | some s₁ =>
      have hq := quiet_of_getKburnUsb hget
      have hburner : s₁.burner = some b := hq.burner.trans h.burner
      have hsize : ¬ (KburnUsbPkt.ofBuf (terminated req).buf).dataSize ≠ 16 :=
        not_not.2 h.dataSize
      have hzero : ¬ getUnalignedLe64 (KburnUsbPkt.ofBuf (terminated req).buf).data 8 = 0 := h.size
      simp only [cbEraseLba, if_neg hsize, hget, hburner, if_neg hzero, hq.medium] at hrun
      -- whatever the medium answers, the call itself is recorded; only a hang leaves no state
      cases herase : kburnEraseMedium (some b) s.medium (lbaOffset req) (lbaSize req) with
      | none =>
          left
          refine ⟨rfl, hrun.trans ?_⟩
          unfold lbaOffset lbaSize at herase
          rw [herase]
      | some answer =>
          right
          unfold lbaOffset lbaSize at herase
          rw [herase] at hrun
          refine ⟨_, hrun, ?_⟩
          exact (quiet_kburnTxResult _ _ _ _).calls.trans (congrArg (· ++ _) hq.calls)

/-! ## Where a callback can fault -/

theorem cbProbeDevice_error {f : Fault} (h : cbProbeDevice board c s req = .error f) :
    f = .nullKburnUsb ∧ getKburnUsb c s = none := by
  unfold cbProbeDevice at h
  dsimp only at h
  split at h
  · cases h
  · cases hget : getKburnUsb c s with
    | none =>
        simp only [hget, Except.error.injEq] at h
        exact ⟨h.symm, rfl⟩
    | some s₁ =>
        simp only [hget] at h
        split at h <;> cases h

theorem cbGetDeviceInfo_error {f : Fault} (h : cbGetDeviceInfo c s req = .error f) :
    f = .nullKburnUsb ∧ getKburnUsb c s = none := by
  unfold cbGetDeviceInfo at h
  cases hget : getKburnUsb c s with
  | none =>
      simp only [hget, Except.error.injEq] at h
      exact ⟨h.symm, rfl⟩
  | some s₁ =>
      simp only [hget] at h
      split at h <;> cases h

theorem cbWriteLba_error {f : Fault} (h : cbWriteLba board c s (terminated req) = .error f) :
    (f = .nullKburnUsb ∧ getKburnUsb c s = none) ∨
      (f = .nullBurner ∧ pktDataSize req = 16 ∧ s.burner = none) := by
  unfold cbWriteLba at h
  dsimp only at h
  split at h
  · cases h
  · rename_i hsize
    cases hget : getKburnUsb c s with
    | none =>
        simp only [hget, Except.error.injEq] at h
        exact Or.inl ⟨h.symm, rfl⟩
    | some s₁ =>
        simp only [hget] at h
        split at h
        · -- the only fault that a host can provoke with a well-formed packet
          rename_i hnone
          cases h
          exact Or.inr ⟨rfl, not_not.1 hsize, (quiet_of_getKburnUsb hget).burner.symm.trans hnone⟩
        · split_ifs at h

theorem cbEraseLba_error {f : Fault} (hcmd : pktCmd req = KburnPktCmd.eraseLba.code)
    (hfits : req.actual < req.length) (h : cbEraseLba c s (terminated req) = .error f) :
    (f = .nullKburnUsb ∧ getKburnUsb c s = none) ∨ (f = .noReturn ∧ ∃ b, Erases c s req b) := by
  unfold cbEraseLba at h
  dsimp only at h
  split at h
  · cases h
  · rename_i hsize
    cases hget : getKburnUsb c s with
    | none =>
        simp only [hget, Except.error.injEq] at h
        exact Or.inl ⟨h.symm, rfl⟩
    | some s₁ =>
        simp only [hget] at h
        split at h
        · cases h
        · rename_i b hb
          split at h
          · cases h
          · rename_i hzero
            split at h
            · cases h
              refine Or.inr ⟨rfl, b, ?_⟩
              exact
                { buffer := by simp [hget]
                  cmd := hcmd
                  fits := hfits
                  dataSize := not_not.1 hsize
                  burner := (quiet_of_getKburnUsb hget).burner.symm.trans hb
                  size := hzero }
            · cases h

theorem dispatch_error {f : Fault} (h : dispatch board c s req = .error f) :
    req.actual < req.length ∧
      ((f = .nullKburnUsb ∧ getKburnUsb c s = none) ∨
        (f = .nullBurner ∧ pktCmd req = KburnPktCmd.writeLba.code ∧ pktDataSize req = 16 ∧
          s.burner = none) ∨
        (f = .noReturn ∧ ∃ b, Erases c s req b)) := by
  unfold dispatch at h
  rw [find_pktHandlers] at h
  by_cases hfits : req.actual < req.length
  · refine ⟨hfits, ?_⟩
    simp only [if_pos hfits] at h
    split_ifs at h with h1 h2 h3 h4 h5 h6
    · cases h
    · cases h
    · exact Or.inl (cbProbeDevice_error h)
    · exact Or.inl (cbGetDeviceInfo_error h)
    · rcases cbWriteLba_error h with hbuf | ⟨hf, hsize, hburner⟩
      · exact Or.inl hbuf
      · exact Or.inr (Or.inl ⟨hf, h5, hsize, hburner⟩)
    · rcases cbEraseLba_error h6 hfits h with hbuf | herase
      · exact Or.inl hbuf
      · exact Or.inr (Or.inr herase)
  · split_ifs at h

theorem rxCommandHandler_effect (hstatus : c.status = 0) (hlen : req.length ≠ 0)
    (h : rxCommandHandler board c s req = .ok (t, req')) :
    ∃ req₁, CommandEffect board c s req t req₁ ∧ req' = requeued req₁ := by
  rw [rxCommandHandler_eq board hstatus hlen] at h
  cases hd : dispatch board c s req with
  | error f => simp [hd] at h
  | ok p =>
      rcases p with ⟨t₁, req₁⟩
      simp only [hd, Except.ok.injEq, Prod.mk.injEq] at h
      rcases h with ⟨rfl, rfl⟩
      exact ⟨req₁, dispatch_effect hd, rfl⟩

end

end Burn
end CanmvK230
