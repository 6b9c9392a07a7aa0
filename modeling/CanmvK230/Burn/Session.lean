import CanmvK230.Burn.Data

/-!
# Session — how a host gets the gadget ready to burn

The host configures the interface, sends `DEV_PROBE` and `DEV_GET_INFO`, and can then write or erase.
The packets are written down as the host fills them in, and read back as the callbacks read them
(`pktCmd_arrived`, `read_data_arrived`, `lbaOffset_arrived`, `lbaSize_arrived`).  `exists_ready`
chains the three steps: whatever medium a probe finds, the gadget gets ready to burn it.
-/

namespace CanmvK230
namespace Burn

open Lib

/-! ## Packets, from the host's side -/

/-- A 64-byte command packet with the result field left at zero. -/
def cmdPkt (cmd : KburnPktCmd) (data : List UInt8) : List UInt8 :=
  -- command, result, data size, and 59 bytes of data padded with zeros
  toLe 2 cmd.code.toNat ++ toLe 2 0 ++ [UInt8.ofNat data.length] ++ data ++
    List.replicate (59 - data.length) 0

def lbaPkt (cmd : KburnPktCmd) (offset size : UInt64) : List UInt8 :=
  cmdPkt cmd (toLe 8 offset.toNat ++ toLe 8 size.toNat)

/-- The OUT request completes with a packet of the host. -/
def hostSends (data : List UInt8) : Completion :=
  { status := 0, data := data, stack := fun _ => 0, heap := 0 }

theorem length_cmdPkt (cmd : KburnPktCmd) {data : List UInt8} (h : data.length ≤ 59) :
    (cmdPkt cmd data).length = usbPktSize := by
  simp only [cmdPkt, List.length_append, length_toLe, List.length_singleton,
    List.length_replicate, usbPktSize]
  omega

@[simp] theorem length_lbaPkt (cmd : KburnPktCmd) (offset size : UInt64) :
    (lbaPkt cmd offset size).length = usbPktSize := by
  refine length_cmdPkt cmd ?_
  simp

section Decoding

variable {c : Completion} {req : UsbRequest} {cmd : KburnPktCmd} {data : List UInt8}

theorem toNat_actual_arrived (h : c.data.length < 2 ^ 32) :
    (arrived c req).actual.toNat = c.data.length := by
  simp only [arrived, UInt32.toNat_ofNat']
  exact Nat.mod_eq_of_lt h

/-- The terminating zero is written behind the packet. -/
theorem read_terminated {i len : Nat} (h : i + len ≤ req.actual.toNat) :
    (terminated req).buf.read i len = req.buf.read i len := by
  exact ByteMem.read_write_disjoint _ (Or.inr h)

theorem read_arrived_part {i len : Nat} (pre : List UInt8) {mid : List UInt8} (post : List UInt8)
    (hdata : c.data = pre ++ mid ++ post) (hi : i = pre.length) (hlen : mid.length = len) :
    (arrived c req).buf.read i len = mid := by
  have hpart : (req.buf.write 0 c.data).read i len = mid :=
    ByteMem.read_write_part req.buf pre post hdata (by rw [hi, Nat.zero_add]) hlen
  exact hpart

theorem actual_arrived_cmdPkt (hpkt : c.data = cmdPkt cmd data) (hlen : data.length ≤ 59) :
    (arrived c req).actual.toNat = usbPktSize := by
  have h64 : c.data.length = usbPktSize := by rw [hpkt, length_cmdPkt cmd hlen]
  rw [toNat_actual_arrived (by simp [h64, usbPktSize]), h64]

theorem pktCmd_arrived (hpkt : c.data = cmdPkt cmd data) : pktCmd (arrived c req) = cmd.code := by
  have hread : (arrived c req).buf.read 0 2 = toLe 2 cmd.code.toNat := by
    refine read_arrived_part [] (toLe 2 0 ++ [UInt8.ofNat data.length] ++ data ++
      List.replicate (59 - data.length) 0) ?_ rfl (length_toLe 2 _)
    simp [hpkt, cmdPkt]
  have hlt : cmd.code.toNat < 256 ^ 2 := cmd.code.toNat_lt
  rw [pktCmd, KburnUsbPkt.ofBuf, hread, leNat_toLe_of_lt hlt, UInt16.ofNat_toNat]

theorem pktDataSize_arrived (hpkt : c.data = cmdPkt cmd data) (hlen : data.length ≤ 59) :
    pktDataSize (arrived c req) = UInt8.ofNat data.length := by
  have hread : (arrived c req).buf.read 4 1 = [UInt8.ofNat data.length] := by
    refine read_arrived_part (toLe 2 cmd.code.toNat ++ toLe 2 0)
      (data ++ List.replicate (59 - data.length) 0) ?_ (by simp) rfl
    simp [hpkt, cmdPkt]
  -- byte 4 lies in front of the terminating zero
  have hin : 4 + 1 ≤ (arrived c req).actual.toNat := by
    rw [actual_arrived_cmdPkt hpkt hlen]
    decide
  rw [← read_terminated hin, ByteMem.read_one] at hread
  exact List.singleton_injective hread

variable (req) in
/-- What a callback reads of the data is what the host put there. -/
theorem read_data_arrived (hpkt : c.data = cmdPkt cmd data) (hlen : data.length ≤ 59)
    (pre mid post : List UInt8) (hdata : data = pre ++ mid ++ post) :
    (KburnUsbPkt.ofBuf (terminated (arrived c req)).buf).data.read pre.length mid.length = mid := by
  -- the data of a packet starts at byte 5, behind command, result and size
  have hread : (arrived c req).buf.read (5 + pre.length) mid.length = mid := by
    refine read_arrived_part
      (toLe 2 cmd.code.toNat ++ toLe 2 0 ++ [UInt8.ofNat data.length] ++ pre)
      (post ++ List.replicate (59 - data.length) 0) ?_ (by simp; omega) rfl
    simp [hpkt, cmdPkt, hdata]
  have hin : 5 + pre.length + mid.length ≤ (arrived c req).actual.toNat := by
    rw [actual_arrived_cmdPkt hpkt hlen]
    simp only [hdata, List.length_append] at hlen
    simp only [usbPktSize]
    omega
  rw [KburnUsbPkt.ofBuf, ByteMem.read_shift, read_terminated hin]
  exact hread

variable {offset size : UInt64}

theorem pktDataSize_lbaPkt (hpkt : c.data = lbaPkt cmd offset size) :
    pktDataSize (arrived c req) = 16 := by
  rw [pktDataSize_arrived hpkt (by simp)]
  simp

theorem lbaOffset_arrived (hpkt : c.data = lbaPkt cmd offset size) :
    lbaOffset (arrived c req) = offset := by
  have hread := read_data_arrived req hpkt (by simp) [] (toLe 8 offset.toNat)
    (toLe 8 size.toNat) rfl
  have hlt : offset.toNat < 256 ^ 8 := offset.toNat_lt
  simp only [List.length_nil, length_toLe] at hread
  rw [lbaOffset, getUnalignedLe64, hread, leNat_toLe_of_lt hlt, UInt64.ofNat_toNat]

theorem lbaSize_arrived (hpkt : c.data = lbaPkt cmd offset size) :
    lbaSize (arrived c req) = size := by
  have hread := read_data_arrived req hpkt (by simp) (toLe 8 offset.toNat)
    (toLe 8 size.toNat) [] (by simp)
  have hlt : size.toNat < 256 ^ 8 := size.toNat_lt
  simp only [length_toLe] at hread
  rw [lbaSize, getUnalignedLe64, hread, leNat_toLe_of_lt hlt, UInt64.ofNat_toNat]

end Decoding

/-! ## Getting ready -/

section Ready

variable {μ : Type} {board : Board μ} {c : Completion} {s : KburnUsb μ} {req : UsbRequest}
  {burner : Option (Kburn μ)} {m : μ}

/-- The gadget waits for a command: one OUT request is queued, and `rx_command_handler` gets it. -/
structure Idle (burner : Option (Kburn μ)) (m : μ) (s : KburnUsb μ) : Prop where
  burner : s.burner = burner
  medium : s.medium = m
  bufHead : s.bufHead ≠ 0
  outReq : ∃ req, s.outReq = some req ∧ req.complete = .rxCommandHandler ∧ req.length = 131072 ∧
    req.queued = 1

/-- A configured interface. -/
def configured : SetAlt :=
  { enableOut := 0, startOut := true, enableIn := 0, startIn := true, queueOut := 0 }

theorem idle_configured (m : μ) (bufHead : Nat) (h : bufHead ≠ 0) :
    Idle none m (kburnSetAlt configured (kburnAdd m bufHead)) where
  burner := rfl
  medium := rfl
  bufHead := h
  outReq := ⟨usbEpQueue kburnStartEp, rfl, rfl, rfl, rfl⟩

/-- A packet of the host may complete the request of an idle gadget. -/
theorem Idle.mayComplete (h : Idle burner m s) (data : List UInt8) (hlen : data.length ≤ 131072) :
    ∃ req, MayComplete s (hostSends data) req ∧ req.complete = .rxCommandHandler ∧
      req.length = 131072 ∧ req.queued = 1 := by
  rcases h.outReq with ⟨req, hout, hmode, hlength, hqueued⟩
  refine ⟨req, ⟨hout, by omega, ?_⟩, hmode, hlength, hqueued⟩
  rw [hlength]
  exact hlen

variable (board) in
/-- Once the callback of a packet is known, so is the step. -/
theorem Idle.step (h : Idle burner m s) (data : List UInt8) (hlen : data.length ≤ 131072)
    {P : KburnUsb μ → Prop}
    (hdispatch : ∀ req, s.outReq = some req → req.length = 131072 →
      ∃ t req', dispatch board (hostSends data) s (arrived (hostSends data) req) = .ok (t, req') ∧
        SameMode (arrived (hostSends data) req) req' ∧ t.bufHead ≠ 0 ∧ P t)
    (hP : ∀ t out, P t → P { t with outReq := out }) :
    ∃ t, GadgetStep board s (.outComplete (hostSends data)) t ∧ P t ∧
      Idle t.burner t.medium t := by
  rcases h.mayComplete data hlen with ⟨req, hmay, hmode, hlength, hqueued⟩
  rcases hdispatch req hmay.1 hlength with ⟨t, req', hrun, hsame, hhead, hPt⟩
  have hne : (arrived (hostSends data) req).length ≠ 0 := by
    simp [arrived, hlength]
  have hcomplete := outComplete_dispatch board hmay.1 hmode rfl hne
  rw [hrun] at hcomplete
  refine ⟨{ t with outReq := some (requeued req') }, ⟨req, hmay, hcomplete⟩, hP t _ hPt, rfl, rfl,
    hhead, ?_⟩
  -- the completion took the request off the queue, and the handler put it back
  refine ⟨requeued req', rfl, hsame.complete.trans hmode, hsame.length.trans hlength, ?_⟩
  have hcount : req'.queued = 0 := by
    rw [hsame.queued]
    simp [arrived, hqueued]
  simp [requeued, usbEpQueue, hcount]

theorem actual_lt_length (hpkt : c.data.length = usbPktSize) (hlength : req.length = 131072) :
    (arrived c req).actual < (arrived c req).length := by
  have hactual : (arrived c req).actual.toNat = usbPktSize := by
    rw [toNat_actual_arrived (by simp [hpkt, usbPktSize]), hpkt]
  have hlen : (arrived c req).length.toNat = 131072 := by
    simp [arrived, hlength]
  refine UInt32.lt_iff_toNat_lt.2 ?_
  rw [hactual, hlen]
  decide

variable (board) in
/-- `DEV_PROBE` replaces the burner by what the probe finds. -/
theorem dispatch_devProbe (hcmd : pktCmd req = KburnPktCmd.devProbe.code)
    (hfits : req.actual < req.length) (hsize : pktDataSize req = 2) (hhead : s.bufHead ≠ 0)
    {type : UInt8} (htype : (KburnUsbPkt.ofBuf (terminated req).buf).data 0 = type) :
    ∃ t, dispatch board c s req = .ok (t, terminated req) ∧ t.bufHead = s.bufHead ∧
      t.burner = (kburnProbeMedia board type (kburnDestory s.burner s.medium)).1 ∧
      t.medium = (kburnProbeMedia board type (kburnDestory s.burner s.medium)).2 := by
  have hrun : dispatch board c s req = cbProbeDevice board c s (terminated req) :=
    dispatch_of_row (by simp [pktHandlers]) hcmd hfits
  have hsize' : ¬ (KburnUsbPkt.ofBuf (terminated req).buf).dataSize ≠ 2 := not_not.2 hsize
  rw [hrun]
  simp only [cbProbeDevice, if_neg hsize', getKburnUsb_of_bufHead_ne_zero hhead, htype]
  cases hprobe : (kburnProbeMedia board type (kburnDestory s.burner s.medium)).1 with
  | none =>
      refine ⟨_, rfl, bufHead_kburnTxResult _ _ _ _, ?_, ?_⟩
      · exact (quiet_kburnTxResult _ _ _ _).burner
      · exact (quiet_kburnTxResult _ _ _ _).medium
  | some b =>
      refine ⟨_, rfl, bufHead_kburnTxResult _ _ _ _, ?_, ?_⟩
      · exact (quiet_kburnTxResult _ _ _ _).burner
      · exact (quiet_kburnTxResult _ _ _ _).medium

variable (board req) in
/-- `DEV_GET_INFO` fills in the medium information of the burner. -/
theorem dispatch_devGetInfo (hcmd : pktCmd req = KburnPktCmd.devGetInfo.code)
    (hfits : req.actual < req.length) (hhead : s.bufHead ≠ 0) {b : Kburn μ}
    (hburner : s.burner = some b) :
    ∃ t, dispatch board c s req = .ok (t, terminated req) ∧ t.bufHead = s.bufHead ∧
      t.burner = some (kburnGetMediumInfo b).2 ∧ t.medium = s.medium := by
  have hrun : dispatch board c s req = cbGetDeviceInfo c s (terminated req) :=
    dispatch_of_row (by simp [pktHandlers]) hcmd hfits
  rw [hrun]
  simp only [cbGetDeviceInfo, getKburnUsb_of_bufHead_ne_zero hhead, hburner]
  refine ⟨_, rfl, bufHead_kburnTxResult _ _ _ _, ?_, ?_⟩
  · exact (quiet_kburnTxResult _ _ _ _).burner
  · exact (quiet_kburnTxResult _ _ _ _).medium

theorem Idle.probe (h : Idle burner m s) (board : Board μ) (type : UInt8) :
    ∃ t, GadgetStep board s (.outComplete (hostSends (cmdPkt .devProbe [type, 0]))) t ∧
      Idle (kburnProbeMedia board type (kburnDestory burner m)).1
        (kburnProbeMedia board type (kburnDestory burner m)).2 t := by
  have hshort : [type, 0].length ≤ 59 := by simp
  have h64 := length_cmdPkt .devProbe hshort
  have hstep := h.step board (cmdPkt .devProbe [type, 0]) (by rw [h64]; decide)
    (P := fun t => t.burner = (kburnProbeMedia board type (kburnDestory burner m)).1 ∧
      t.medium = (kburnProbeMedia board type (kburnDestory burner m)).2)
  refine Exists.imp ?_ (hstep ?_ fun _ _ ht => ht)
  · rintro t ⟨hstep, ⟨hburner, hmedium⟩, hidle⟩
    rw [hburner, hmedium] at hidle
    exact ⟨hstep, hidle⟩
  · intro req _ hlength
    -- the two bytes of data are the type of the medium and its slot
    have htype := read_data_arrived (c := hostSends (cmdPkt .devProbe [type, 0])) req rfl
      hshort [] [type] [0] rfl
    rcases dispatch_devProbe board (pktCmd_arrived rfl) (actual_lt_length h64 hlength)
      (pktDataSize_arrived rfl hshort) h.bufHead (List.singleton_injective htype) with
      ⟨t, hrun, hhead, hburner, hmedium⟩
    rw [h.burner, h.medium] at hburner hmedium
    exact ⟨t, _, hrun, sameMode_terminated _, hhead.trans_ne h.bufHead, hburner, hmedium⟩

theorem Idle.getInfo {b : Kburn μ} (h : Idle (some b) m s) (board : Board μ) :
    ∃ t, GadgetStep board s (.outComplete (hostSends (cmdPkt .devGetInfo []))) t ∧
      Idle (some (kburnGetMediumInfo b).2) m t := by
  have h64 := length_cmdPkt .devGetInfo (show ([] : List UInt8).length ≤ 59 by simp)
  have hstep := h.step board (cmdPkt .devGetInfo []) (by rw [h64]; decide)
    (P := fun t => t.burner = some (kburnGetMediumInfo b).2 ∧ t.medium = m)
  refine Exists.imp ?_ (hstep ?_ fun _ _ ht => ht)
  · rintro t ⟨hstep, ⟨hburner, hmedium⟩, hidle⟩
    rw [hburner, hmedium] at hidle
    exact ⟨hstep, hidle⟩
  · intro req _ hlength
    rcases dispatch_devGetInfo board (c := hostSends (cmdPkt .devGetInfo []))
      (arrived (hostSends (cmdPkt .devGetInfo [])) req) (pktCmd_arrived rfl)
      (actual_lt_length h64 hlength) h.bufHead h.burner with ⟨t, hrun, hhead, hburner, hmedium⟩
    exact ⟨t, _, hrun, sameMode_terminated _, hhead.trans_ne h.bufHead, hburner,
      hmedium.trans h.medium⟩

/-- A medium that a probe finds can be burnt: the host configures the interface, probes, asks for the
medium information, and the gadget is idle with a burner that is ready. -/
theorem exists_ready (board : Board μ) (m : μ) (type : UInt8) {b : Kburn μ}
    (hprobe : (kburnProbeMedia board type m).1 = some b) :
    ∃ s, Reachable board s ∧
      Idle (some (kburnGetMediumInfo b).2) (kburnProbeMedia board type m).2 s := by
  have hidle := idle_configured m 4096 (by decide)
  have hconf : GadgetStep board (kburnAdd m 4096) (.setAlt configured)
      (kburnSetAlt configured (kburnAdd m 4096)) := rfl
  rcases hidle.probe board type with ⟨s₁, hstep₁, hidle₁⟩
  -- there is no burner of an earlier probe to destroy
  have hnothing : kburnDestory none m = m := rfl
  rw [hnothing, hprobe] at hidle₁
  rcases hidle₁.getInfo board with ⟨s₂, hstep₂, hidle₂⟩
  have hrun := Run.cons hconf (Run.cons hstep₁ (Run.cons hstep₂ (Run.nil s₂)))
  exact ⟨s₂, ⟨m, 4096, _, by decide, hrun⟩, hidle₂⟩

/-- An idle gadget with a ready burner accepts every `WRITE_LBA` that passes its checks. -/
theorem Idle.accepts {b : Kburn μ} (h : Idle (some b) m s) (board : Board μ) (offset size : UInt64)
    (hvalid : b.mediumInfo.valid = 1) (hsize : size ≠ 0)
    (hrange : ¬ offset + size > b.mediumInfo.capacity) (c : Completion)
    (hc : c = hostSends (lbaPkt .writeLba offset size)) :
    ∃ req v req', MayComplete s c req ∧ req.complete = .rxCommandHandler ∧ req.queued = 1 ∧
      AcceptsWrite c s (arrived c req) b ∧ Accepted board s (arrived c req) v req' ∧
      outComplete board c s = .ok { v with outReq := some (requeued req') } := by
  have hpkt : c.data = lbaPkt .writeLba offset size := congrArg Completion.data hc
  have hstatus : c.status = 0 := congrArg Completion.status hc
  have h64 : c.data.length = usbPktSize := by
    rw [hpkt, length_lbaPkt]
  rcases h.mayComplete c.data (by rw [h64]; decide) with
    ⟨req, hmay, hmode, hlength, hqueued⟩
  have haccepts : AcceptsWrite c s (arrived c req) b :=
    { buffer := by simp [getKburnUsb_of_bufHead_ne_zero h.bufHead]
      cmd := pktCmd_arrived hpkt
      fits := actual_lt_length h64 hlength
      dataSize := pktDataSize_lbaPkt hpkt
      burner := h.burner
      valid := hvalid
      size := by rwa [lbaSize_arrived hpkt]
      inRange := by rwa [lbaOffset_arrived hpkt, lbaSize_arrived hpkt] }
  rcases dispatch_of_acceptsWrite board haccepts with ⟨v, req', hdispatch, hdata⟩
  have hacc : Accepted board s (arrived c req) v req' := by
    have hcmd : (arrived c req).complete = .rxCommandHandler := hmode
    -- the handler has changed, which no other effect of a command does
    have hother : ¬ SameMode (arrived c req) req' := by
      intro hsame
      simp [hsame.complete, hcmd] at hdata
    cases dispatch_effect hdispatch with
    | quiet _ hsame => exact absurd hsame hother
    | probe _ _ hsame => exact absurd hsame hother
    | info _ _ _ hsame => exact absurd hsame hother
    | erase _ _ _ _ _ _ _ hsame => exact absurd hsame hother
    | accept _ _ hacc => exact hacc
  have hlen : (arrived c req).length ≠ 0 := by
    simp [arrived, hlength]
  have hcomplete := outComplete_dispatch board hmay.1 hmode hstatus hlen
  rw [hdispatch] at hcomplete
  exact ⟨req, v, req', ⟨hmay.1, hmay.2.1, hmay.2.2⟩, hmode, hqueued, haccepts, hacc, hcomplete⟩

end Ready

/-! ## A card on mmc0 -/

section Card

variable {μ : Type}

/-- The operations of a card whose writes are answered by `w`. -/
def cardOps (capacity : UInt64) (w : WriteMedium μ) : KburnOps μ where
  desc := { capacity := capacity, blkSize := 512, eraseSize := 512, wp := 0 }
  getMediumInfo := some mmcGetMediumInfo
  writeMedium := some w
  eraseMedium := some fun m _ len => some (0, len, m)
  destory := none

def cardBoard (capacity : UInt64) (w : WriteMedium μ) : Board μ where
  configKburnMmc := true
  configKburnSf := false
  configKburnMtd := false
  kburnMmcProbe := fun m _ => (some (cardOps capacity w), m)
  kburnSfProbe := fun m => (none, m)
  kburnMtdProbe := fun m => (none, m)
  maxpacket := 512
  maxpacket_pos := maxpacket_high_pos

def cardBurner (capacity : UInt64) (w : WriteMedium μ) : Kburn μ :=
  (kburnGetMediumInfo (Kburn.ofProbe (cardOps capacity w))).2

/-- The host gets the card ready with the packets `DEV_PROBE` and `DEV_GET_INFO`. -/
theorem exists_cardReady (capacity : UInt64) (w : WriteMedium μ) (m : μ) :
    ∃ s₁ s₂, GadgetStep (cardBoard capacity w) (kburnSetAlt configured (kburnAdd m 4096))
        (.outComplete (hostSends (cmdPkt .devProbe [KburnMediaType.eMMC.code, 0]))) s₁ ∧
      GadgetStep (cardBoard capacity w) s₁ (.outComplete (hostSends (cmdPkt .devGetInfo []))) s₂ ∧
      Idle (some (cardBurner capacity w)) m s₂ := by
  have hidle := idle_configured m 4096 (by decide)
  rcases hidle.probe (cardBoard capacity w) KburnMediaType.eMMC.code with ⟨s₁, hstep₁, hidle₁⟩
  have hfound : kburnProbeMedia (cardBoard capacity w) KburnMediaType.eMMC.code
      (kburnDestory none m) = (some (Kburn.ofProbe (cardOps capacity w)), m) := rfl
  rw [hfound] at hidle₁
  rcases hidle₁.getInfo (cardBoard capacity w) with ⟨s₂, hstep₂, hidle₂⟩
  exact ⟨s₁, s₂, hstep₁, hstep₂, hidle₂⟩

end Card

end Burn
end CanmvK230
