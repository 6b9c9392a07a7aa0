import CanmvK230.Burn.Admission

/-!
# Packet — what a command packet alone decides, and what memory left behind decides with it

A command should be a function of its packet.  Two things stand in the way in `f_kburn.c`:

* the callbacks copy 64 bytes of the OUT buffer whatever the received length, so that a short packet
  is completed by the bytes of an earlier one (`stale_bytes_choose_the_erased_range`);
* a reply is built in an uninitialised buffer on the stack and always sent whole: five bytes of
  header and at most 58 bytes of data leave its last byte unset (`csw_last_byte`).

`dispatch_replies` says what a command does with the stack: it ends in one call of `kburn_tx_result`
on a state the stack had no part in.  `packet_never_determined` follows, for every packet that is
handled.
-/

namespace CanmvK230
namespace Burn

open Lib

section

variable {μ : Type} {board : Board μ} {c : Completion} {s t : KburnUsb μ} {req req' : UsbRequest}

/-! ## The property -/

/-- What `rx_command_handler` and the callbacks read of a packet: the command, the data size, the
media type and the range. -/
structure PktArgs where
  cmd : UInt16
  dataSize : UInt8
  mediaType : UInt8
  offset : UInt64
  size : UInt64
  deriving DecidableEq, Repr

def pktArgs (req : UsbRequest) : PktArgs :=
  { cmd := pktCmd req
    dataSize := pktDataSize req
    mediaType := (KburnUsbPkt.ofBuf (terminated req).buf).data 0
    offset := lbaOffset req
    size := lbaSize req }

/-- Burner, medium and transfer fields are equal. -/
structure SameFields (s t : KburnUsb μ) : Prop where
  burner : t.burner = s.burner
  medium : t.medium = s.medium
  offset : t.offset = s.offset
  dlSize : t.dlSize = s.dlSize
  dlBytes : t.dlBytes = s.dlBytes
  bufHead : t.bufHead = s.bufHead
  buf : t.buf = s.buf

/-- A packet of the host, completing the OUT request of a gadget that waits for commands. -/
structure Delivered (board : Board μ) (s : KburnUsb μ) (c : Completion) (req : UsbRequest)
    (t : KburnUsb μ) : Prop where
  reachable : Reachable board s
  may : MayComplete s c req
  mode : req.complete = .rxCommandHandler
  status : c.status = 0
  returns : outComplete board c s = .ok t

/-- Handling the packet `data` is a function of the packet: after any two histories with the fields
of `s`, the arguments read, the fields afterwards and the reply are the same.  What `memalign` would
return is not left to the histories. -/
def PacketDetermined (board : Board μ) (s : KburnUsb μ) (data : List UInt8) : Prop :=
  ∀ s₁ s₂ c₁ c₂ req₁ req₂ t₁ t₂, SameFields s s₁ → SameFields s s₂ →
    Delivered board s₁ c₁ req₁ t₁ → Delivered board s₂ c₂ req₂ t₂ →
    c₁.data = data → c₂.data = data → c₁.heap = c₂.heap →
    pktArgs (arrived c₁ req₁) = pktArgs (arrived c₂ req₂) ∧ SameFields t₁ t₂ ∧
      ∃ reply, t₁.replies = s₁.replies ++ [reply] ∧ t₂.replies = s₂.replies ++ [reply]

theorem SameFields.refl (s : KburnUsb μ) : SameFields s s :=
  ⟨rfl, rfl, rfl, rfl, rfl, rfl, rfl⟩

/-! ## What the stack decides -/

/-- The same completion with another content of the uninitialised stack. -/
def Completion.onStack (c : Completion) (stack : ByteMem) : Completion :=
  { c with stack := stack }

/-- The callback ends in one call of `kburn_tx_result`, with the same data whatever the stack holds. -/
def RepliesOnce (c : Completion) (s : KburnUsb μ)
    (run : Completion → Except Fault (KburnUsb μ × UsbRequest)) : Prop :=
  ∃ cmd result data v req', data.length ≤ 58 ∧ v.replies = s.replies ∧
    ∀ stack, run (c.onStack stack) = .ok (kburnTxResult (c.onStack stack) cmd result data v, req')

/-- Allocating the double buffer has nothing to do with the stack. -/
theorem getKburnUsb_onStack (stack : ByteMem) : getKburnUsb (c.onStack stack) s = getKburnUsb c s :=
  rfl

theorem length_mediumInfo_bytes (i : KburnMediumInfo) : i.bytes.length = 32 := by
  simp [KburnMediumInfo.bytes]

theorem cbNotSupport_replies (c : Completion) (s : KburnUsb μ) (req : UsbRequest) :
    RepliesOnce c s fun c => cbNotSupport c s req :=
  ⟨.none, .errorMsg, ascii "NOT SUPPORT FUNC", s, req, by decide, rfl, fun _ => rfl⟩

theorem cbProbeDevice_replies (h : cbProbeDevice board c s req = .ok (t, req')) :
    RepliesOnce c s fun c => cbProbeDevice board c s req := by
  unfold cbProbeDevice at h
  dsimp only at h
  split at h
  · rename_i hsize
    refine ⟨.devProbe, .errorMsg, ascii "ERROR DATA SIZE", (getKburnUsb c s).getD s, req, by decide,
      replies_getD_getKburnUsb c s, ?_⟩
    intro stack
    simp only [cbProbeDevice, if_pos hsize, getKburnUsb_onStack]
    rfl
  · rename_i hsize
    cases hget : getKburnUsb c s with
    | none => simp [hget] at h
    | some s₁ =>
        -- what the probe finds decides which of the two replies is sent
        let probed := kburnProbeMedia board ((KburnUsbPkt.ofBuf req.buf).data 0)
          (kburnDestory s₁.burner s₁.medium)
        let v : KburnUsb μ := { s₁ with burner := probed.1, medium := probed.2 }
        have hv : v.replies = s.replies := (replies_of_getKburnUsb hget : s₁.replies = s.replies)
        cases hfound : probed.1 with
        | none =>
            refine ⟨.devProbe, .errorMsg, ascii "PROBE FAILED", v, req, by decide, hv, ?_⟩
            intro stack
            simp only [cbProbeDevice, if_neg hsize, getKburnUsb_onStack, hget]
            simp only [probed] at hfound
            simp only [hfound, v, probed]
            rfl
        | some b =>
            refine ⟨.devProbe, .ok, toLe 8 usbEpBufferSize, v, req, by simp, hv, ?_⟩
            intro stack
            simp only [cbProbeDevice, if_neg hsize, getKburnUsb_onStack, hget]
            simp only [probed] at hfound
            simp only [hfound, v, probed]

theorem cbGetDeviceInfo_replies (h : cbGetDeviceInfo c s req = .ok (t, req')) :
    RepliesOnce c s fun c => cbGetDeviceInfo c s req := by
  unfold cbGetDeviceInfo at h
  cases hget : getKburnUsb c s with
  | none => simp [hget] at h
  | some s₁ =>
      have hs₁ : s₁.replies = s.replies := replies_of_getKburnUsb hget
      cases hb : s₁.burner with
      | none =>
          refine ⟨.devGetInfo, .errorMsg, ascii "RUNTIME ERROR", s₁, req, by decide, hs₁, ?_⟩
          intro stack
          simp only [cbGetDeviceInfo, getKburnUsb_onStack, hget, hb]
          rfl
      | some b =>
          refine ⟨.devGetInfo, if (kburnGetMediumInfo b).1 = 0 then .ok else .error,
            (kburnGetMediumInfo b).2.mediumInfo.bytes,
            { s₁ with burner := some (kburnGetMediumInfo b).2 }, req, ?_, hs₁, ?_⟩
          · rw [length_mediumInfo_bytes]
            decide
          · intro stack
            simp only [cbGetDeviceInfo, getKburnUsb_onStack, hget, hb]

theorem cbWriteLba_replies (h : cbWriteLba board c s req = .ok (t, req')) :
    RepliesOnce c s fun c => cbWriteLba board c s req := by
  unfold cbWriteLba at h
  dsimp only at h
  split at h
  · rename_i hsize
    refine ⟨.writeLba, .errorMsg, ascii "ERROR DATA SIZE", (getKburnUsb c s).getD s, req, by decide,
      replies_getD_getKburnUsb c s, ?_⟩
    intro stack
    simp only [cbWriteLba, if_pos hsize, getKburnUsb_onStack]
    rfl
  · rename_i hsize
    cases hget : getKburnUsb c s with
    | none => simp [hget] at h
    | some s₁ =>
        have hs₁ : s₁.replies = s.replies := replies_of_getKburnUsb hget
        simp only [hget] at h
        cases hb : s₁.burner with
        | none => simp [hb] at h
        | some b =>
            simp only [hb] at h
            -- one case for each refusal, in the order of the source, and the acceptance
            split at h
            · rename_i hvalid
              refine ⟨.writeLba, .errorMsg, ascii "MEDIUM INFO INVALID", s₁, req, by decide, hs₁, ?_⟩
              intro stack
              simp only [cbWriteLba, if_neg hsize, getKburnUsb_onStack, hget, hb, if_pos hvalid]
              rfl
            · rename_i hvalid
              split at h
              · rename_i hzero
                refine ⟨.writeLba, .errorMsg, ascii "DATA SIZE INVALID", s₁, req, by decide, hs₁, ?_⟩
                intro stack
                simp only [cbWriteLba, if_neg hsize, getKburnUsb_onStack, hget, hb, if_neg hvalid,
                  if_pos hzero]
                rfl
              · rename_i hzero
                split at h
                · rename_i hrange
                  refine ⟨.writeLba, .errorMsg, ascii "DATA SIZE EXCEED", s₁, req, by decide, hs₁, ?_⟩
                  intro stack
                  simp only [cbWriteLba, if_neg hsize, getKburnUsb_onStack, hget, hb, if_neg hvalid,
                    if_neg hzero, if_pos hrange]
                  rfl
                · rename_i hrange
                  let v : KburnUsb μ :=
                    { s₁ with
                      offset := getUnalignedLe64 (KburnUsbPkt.ofBuf req.buf).data 0
                      dlSize := getUnalignedLe64 (KburnUsbPkt.ofBuf req.buf).data 8
                      dlBytes := 0 }
                  refine ⟨.writeLba, .ok, ascii "START DL", v,
                    { req with complete := .rxWriteLbaHandler, length := rxBytesExpected board v },
                    by decide, hs₁, ?_⟩
                  intro stack
                  simp only [cbWriteLba, if_neg hsize, getKburnUsb_onStack, hget, hb, if_neg hvalid,
                    if_neg hzero, if_neg hrange]
                  rfl

theorem cbEraseLba_replies (h : cbEraseLba c s req = .ok (t, req')) :
    RepliesOnce c s fun c => cbEraseLba c s req := by
  unfold cbEraseLba at h
  dsimp only at h
  split at h
  · rename_i hsize
    refine ⟨.eraseLba, .errorMsg, ascii "ERROR DATA SIZE", (getKburnUsb c s).getD s, req, by decide,
      replies_getD_getKburnUsb c s, ?_⟩
    intro stack
    simp only [cbEraseLba, if_pos hsize, getKburnUsb_onStack]
    rfl
  · rename_i hsize
    let offset := getUnalignedLe64 (KburnUsbPkt.ofBuf req.buf).data 0
    let size := getUnalignedLe64 (KburnUsbPkt.ofBuf req.buf).data 8
    cases hget : getKburnUsb c s with
    | none => simp [hget] at h
    | some s₁ =>
        have hs₁ : s₁.replies = s.replies := replies_of_getKburnUsb hget
        simp only [hget] at h
        cases hb : s₁.burner with
        | none =>
            refine ⟨.eraseLba, .errorMsg, ascii "RUNTIME ERROR", s₁, req, by decide, hs₁, ?_⟩
            intro stack
            simp only [cbEraseLba, if_neg hsize, getKburnUsb_onStack, hget, hb]
            rfl
        | some b =>
            simp only [hb] at h
            split at h
            · rename_i hzero
              refine ⟨.eraseLba, .error, toLe 8 offset.toNat ++ toLe 8 size.toNat, s₁, req, by simp,
                hs₁, ?_⟩
              intro stack
              simp only [cbEraseLba, if_neg hsize, getKburnUsb_onStack, hget, hb, if_pos hzero]
              rfl
            · rename_i hzero
              split at h
              · cases h
              · rename_i result size' m herase
                refine ⟨.eraseLba, if result = 0 then .ok else .error,
                  toLe 8 offset.toNat ++ toLe 8 size'.toNat,
                  { s₁ with medium := m, calls := s₁.calls ++ [.erase offset size] }, req, by simp,
                  hs₁, ?_⟩
                intro stack
                simp only [cbEraseLba, if_neg hsize, getKburnUsb_onStack, hget, hb, if_neg hzero,
                  herase]
                rfl

/-- A command that is handled ends in one reply, built from the same data whatever the stack holds. -/
theorem dispatch_replies (h : dispatch board c s req = .ok (t, req')) :
    RepliesOnce c s fun c => dispatch board c s req := by
  simp only [dispatch, find_pktHandlers] at h ⊢
  by_cases hfits : req.actual < req.length
  · simp only [if_pos hfits] at h ⊢
    split_ifs at h ⊢
    · exact cbNotSupport_replies c s _
    · exact cbNotSupport_replies c s _
    · exact cbProbeDevice_replies h
    · exact cbGetDeviceInfo_replies h
    · exact cbWriteLba_replies h
    · exact cbEraseLba_replies h
    · exact ⟨.none, .errorMsg, ascii "FAILunknown command", s, req, by decide, rfl, fun _ => rfl⟩
  · -- nothing is dispatched, and one of the two error strings is sent
    have herror : ∀ msg, (ascii msg).length ≤ 58 →
        RepliesOnce c s fun c => .ok (kburnTxErrorString c msg s, req) :=
      fun msg hmsg => ⟨.none, .errorMsg, ascii msg, s, req, hmsg, rfl, fun _ => rfl⟩
    simp only [if_neg hfits]
    split_ifs <;> exact herror _ (by decide)

/-- The last byte of every reply is the stack's. -/
theorem csw_last_byte (c : Completion) (cmd result : UInt16) {data : List UInt8}
    (h : data.length ≤ 58) : (csw c cmd result data)[63]? = some (c.stack 63) := by
  have hshort : (toLe 2 (0x8000 ||| cmd).toNat ++ toLe 2 result.toNat ++
      [UInt8.ofNat data.length] ++ data).length ≤ 63 := by
    simp only [List.length_append, length_toLe, List.length_singleton]
    omega
  have hlast : (csw c cmd result data)[63]? =
      some ((c.stack.write 0 (toLe 2 (0x8000 ||| cmd).toNat ++ toLe 2 result.toNat ++
        [UInt8.ofNat data.length] ++ data)) 63) := by
    simp [csw, usbPktSize, ByteMem.read]
  rw [hlast, ByteMem.write_of_le _ (by omega)]

/-- Whatever packet is handled, another content of the stack gives another reply. -/
theorem exists_other_reply (hmay : MayComplete s c req) (hmode : req.complete = .rxCommandHandler)
    (hstatus : c.status = 0) (hpos : 0 < c.data.length) (hrun : outComplete board c s = .ok t) :
    ∃ stack t', outComplete board (c.onStack stack) s = .ok t' ∧
      ∃ reply reply', t.replies = s.replies ++ [reply] ∧ t'.replies = s.replies ++ [reply'] ∧
        reply ≠ reply' := by
  have hlen : (arrived c req).length ≠ 0 := (length_ne_zero_of_mayComplete hmay hpos : req.length ≠ 0)
  have houter := outComplete_dispatch board hmay.1 hmode hstatus hlen
  rw [houter] at hrun
  cases hd : dispatch board c s (arrived c req) with
  | error f => simp [hd] at hrun
  | ok p =>
      rcases p with ⟨v₀, req₀⟩
      rcases dispatch_replies hd with ⟨cmd, result, data, v, req', hdata, hreplies, hall⟩
      -- the run at hand is the one on its own stack
      have hown : dispatch board c s (arrived c req) = .ok (kburnTxResult c cmd result data v, req') :=
        hall c.stack
      let other : ByteMem := fun i => c.stack i + 1
      have hother := outComplete_dispatch board (c := c.onStack other) hmay.1 hmode hstatus hlen
      rw [show dispatch board (c.onStack other) s (arrived (c.onStack other) req) =
        .ok (kburnTxResult (c.onStack other) cmd result data v, req') from hall other] at hother
      simp only [hown, Except.ok.injEq] at hrun
      refine ⟨other, _, hother, csw c cmd.code result.code data,
        csw (c.onStack other) cmd.code result.code data, ?_, ?_, ?_⟩
      · rw [← hrun, ← hreplies]
        exact replies_kburnTxResult _ _ _ _ hdata
      · rw [← hreplies]
        exact replies_kburnTxResult _ _ _ _ hdata
      · intro heq
        have hbyte := congrArg (·[63]?) heq
        simp only [csw_last_byte _ _ _ hdata, Option.some.injEq] at hbyte
        -- a byte is not its own successor
        have hne : ∀ b : UInt8, b ≠ b + 1 := by
          intro b hb
          simp at hb
        exact hne _ hbyte

/-- No packet that is handled is handled as a function of the packet, in no state of the gadget. -/
theorem packet_never_determined (board : Board μ) (s : KburnUsb μ) (c : Completion)
    (req : UsbRequest) (t : KburnUsb μ) (h : Delivered board s c req t) (hpos : 0 < c.data.length)
    (_hshort : c.data.length < usbEpBufferSize) : ¬ PacketDetermined board s c.data := by
  intro hdet
  rcases exists_other_reply h.may h.mode h.status hpos h.returns with
    ⟨stack, t', hrun', reply, reply', ht, ht', hne⟩
  have h' : Delivered board s (c.onStack stack) req t' :=
    { reachable := h.reachable, may := h.may, mode := h.mode, status := h.status, returns := hrun' }
  rcases hdet s s c (c.onStack stack) req req t t' (SameFields.refl s) (SameFields.refl s) h h' rfl
    rfl rfl with ⟨_, _, r, hr, hr'⟩
  have hreply : reply = r := by
    simpa using ht.symm.trans hr
  have hreply' : reply' = r := by
    simpa using ht'.symm.trans hr'
  exact hne (hreply.trans hreply'.symm)

end

/-! ## What an earlier packet decides -/

section Stale

variable {μ : Type} {board : Board μ} {s : KburnUsb μ} {req : UsbRequest}

/-- A packet of no known command, with 16 bytes of data behind its header. -/
def junkPkt (a : UInt8) : List UInt8 :=
  [0xFF, 0xFF, 0, 0, 16] ++ List.replicate 16 a

/-- The header of an `ERASE_LBA` packet, and nothing behind it. -/
def shortErase : List UInt8 := [0x21, 0, 0, 0, 16]

/-- The gadget after a junk packet: only the OUT buffer and the replies have changed. -/
def afterJunk (a : UInt8) (s : KburnUsb μ) (req : UsbRequest) : KburnUsb μ :=
  { kburnTxErrorString (hostSends (junkPkt a)) "FAILunknown command" s with
    outReq := some (requeued (arrived (hostSends (junkPkt a)) req)) }

theorem outComplete_junk (a : UInt8) (hout : s.outReq = some req)
    (hmode : req.complete = .rxCommandHandler) (hlen : req.length ≠ 0) :
    outComplete board (hostSends (junkPkt a)) s = .ok (afterJunk a s req) := by
  have hread : (arrived (hostSends (junkPkt a)) req).buf.read 0 2 = [0xFF, 0xFF] :=
    read_arrived_part [] ([0, 0, 16] ++ List.replicate 16 a) rfl rfl rfl
  have hcmd : pktCmd (arrived (hostSends (junkPkt a)) req) = 0xFFFF := by
    simp [pktCmd, KburnUsbPkt.ofBuf, hread, leNat]
  have hunknown : dispatch board (hostSends (junkPkt a)) s (arrived (hostSends (junkPkt a)) req) =
      .ok (kburnTxErrorString (hostSends (junkPkt a)) "FAILunknown command" s,
        arrived (hostSends (junkPkt a)) req) := by
    have hnone : (pktHandlers board (hostSends (junkPkt a))).find?
        (fun h => h.1.code == (0xFFFF : UInt16)) = none := by
      rw [find_pktHandlers]
      simp [KburnPktCmd.code]
    simp only [dispatch, hcmd, hnone]
  rw [outComplete_dispatch board hout hmode rfl hlen, hunknown]
  rfl

/-- The range in a packet of `a`s whose first byte was overwritten by the terminating zero. -/
def staleOffset (a : UInt8) : UInt64 := UInt64.ofNat (leNat (0 :: List.replicate 7 a))

def staleSize (a : UInt8) : UInt64 := UInt64.ofNat (leNat (List.replicate 8 a))

def staleArgs (a : UInt8) : PktArgs :=
  { cmd := KburnPktCmd.eraseLba.code
    dataSize := 16
    mediaType := 0
    offset := staleOffset a
    size := staleSize a }

/-- A junk packet leaves the fields of an idle gadget as they are, and the range of the short packet
in its OUT buffer. -/
theorem Idle.junk {burner : Option (Kburn μ)} {m : μ} (h : Idle burner m s) (board : Board μ)
    (a : UInt8) :
    ∃ s₁ req₁, GadgetStep board s (.outComplete (hostSends (junkPkt a))) s₁ ∧ SameFields s s₁ ∧
      MayComplete s₁ (hostSends shortErase) req₁ ∧ req₁.complete = .rxCommandHandler ∧
      req₁.length = 131072 ∧ pktArgs (arrived (hostSends shortErase) req₁) = staleArgs a := by
  rcases h.mayComplete (junkPkt a) (by simp [junkPkt]) with ⟨req, hmay, hmode, hlength, _⟩
  have hlen : req.length ≠ 0 := by
    rw [hlength]
    decide
  have hjunk : outComplete board (hostSends (junkPkt a)) s = .ok (afterJunk a s req) :=
    outComplete_junk a hmay.1 hmode hlen
  have hq : Quiet s (kburnTxErrorString (hostSends (junkPkt a)) "FAILunknown command" s) :=
    quiet_kburnTxResult _ _ _ _
  refine ⟨afterJunk a s req, requeued (arrived (hostSends (junkPkt a)) req), ⟨req, hmay, hjunk⟩, ?_,
    ⟨rfl, ?_, ?_⟩, hmode, hlength, rfl⟩
  · exact ⟨hq.burner, hq.medium, hq.offset, hq.dlSize, hq.dlBytes, bufHead_kburnTxResult _ _ _ _, rfl⟩
  · simp [requeued, usbEpQueue]
  · have hlength' : (requeued (arrived (hostSends (junkPkt a)) req)).length = 131072 := hlength
    rw [hlength']
    decide

/-- Whatever stands in the OUT buffer of an idle gadget with a card: after a junk packet the short
`ERASE_LBA` makes the card erase a range that is in no packet of that command. -/
theorem exists_stale_erase {s : KburnUsb Unit} (a : UInt8)
    (hidle : Idle (some (cardBurner 8192 ackWrite)) () s)
    (hreach : Reachable (cardBoard 8192 ackWrite) s) (ha : staleSize a ≠ 0) :
    ∃ s₁ req₁ t, Delivered (cardBoard 8192 ackWrite) s₁ (hostSends shortErase) req₁ t ∧
      SameFields s s₁ ∧ pktArgs (arrived (hostSends shortErase) req₁) = staleArgs a ∧
      t.calls = s₁.calls ++ [.erase (staleOffset a) (staleSize a)] := by
  rcases hidle.junk (cardBoard 8192 ackWrite) a with
    ⟨s₁, req₁, hstep, hsame, hmay, hmode, hlength, hargs⟩
  have hreach₁ : Reachable (cardBoard 8192 ackWrite) s₁ := by
    rcases hreach with ⟨m, bufHead, es, hne, hrun⟩
    exact ⟨m, bufHead, _, hne, hrun.snoc hstep⟩
  have hread := hargs
  simp only [pktArgs, staleArgs, PktArgs.mk.injEq] at hread
  rcases hread with ⟨hcmd, hdataSize, _, hoffset, hsize⟩
  have hfits : (arrived (hostSends shortErase) req₁).actual <
      (arrived (hostSends shortErase) req₁).length := by
    simp only [arrived, hlength, hostSends, shortErase, List.length_cons, List.length_nil]
    decide
  have hhead : s₁.bufHead ≠ 0 := hsame.bufHead.trans_ne hidle.bufHead
  have herases : Erases (hostSends shortErase) s₁ (arrived (hostSends shortErase) req₁)
      (cardBurner 8192 ackWrite) :=
    { buffer := by simp [getKburnUsb_of_bufHead_ne_zero hhead]
      cmd := hcmd
      fits := hfits
      dataSize := hdataSize
      burner := hsame.burner.trans hidle.burner
      size := by rwa [hsize] }
  have hne : (arrived (hostSends shortErase) req₁).length ≠ 0 := by
    simp [arrived, hlength]
  have hanswers : ∀ m offset len,
      kburnEraseMedium (some (cardBurner 8192 ackWrite)) m offset len = some (0, len, m) :=
    fun _ _ _ => rfl
  rcases dispatch_of_erases (cardBoard 8192 ackWrite) herases with ⟨hnone, _⟩ | ⟨v, hrun, hcalls⟩
  · rw [hanswers] at hnone
    exact absurd hnone (by simp)
  · rw [hoffset, hsize] at hcalls
    have hcomplete := outComplete_dispatch (cardBoard 8192 ackWrite) hmay.1 hmode rfl hne
    rw [hrun] at hcomplete
    exact ⟨s₁, req₁, _, ⟨hreach₁, hmay, hmode, rfl, hcomplete⟩, hsame, hargs, hcalls⟩

theorem short_erase_never_determined :
    ∃ s req t, Delivered (cardBoard 8192 ackWrite) s (hostSends shortErase) req t ∧
      ¬ PacketDetermined (cardBoard 8192 ackWrite) s shortErase := by
  rcases exists_ready (cardBoard 8192 ackWrite) () KburnMediaType.eMMC.code rfl with
    ⟨s, hreach, hidle⟩
  rcases exists_stale_erase 1 hidle hreach (by decide) with ⟨s₁, req₁, t₁, hdel, _⟩
  exact ⟨s₁, req₁, t₁, hdel, packet_never_determined _ _ _ _ _ hdel (by decide) (by decide)⟩

/-- The five bytes `21 00 00 00 10` make a card of 8192 bytes erase two different ranges after two
histories that leave the gadget with the same fields: the range is what an earlier packet left. -/
theorem stale_bytes_choose_the_erased_range :
    ∃ s s₁ s₂ req₁ req₂ t₁ t₂, SameFields s s₁ ∧ SameFields s s₂ ∧
      Delivered (cardBoard 8192 ackWrite) s₁ (hostSends shortErase) req₁ t₁ ∧
      Delivered (cardBoard 8192 ackWrite) s₂ (hostSends shortErase) req₂ t₂ ∧
      t₁.calls = s₁.calls ++ [.erase (staleOffset 1) (staleSize 1)] ∧
      t₂.calls = s₂.calls ++ [.erase (staleOffset 2) (staleSize 2)] ∧
      ¬ PacketDetermined (cardBoard 8192 ackWrite) s shortErase := by
  rcases exists_ready (cardBoard 8192 ackWrite) () KburnMediaType.eMMC.code rfl with
    ⟨s, hreach, hidle⟩
  rcases exists_stale_erase 1 hidle hreach (by decide) with
    ⟨s₁, req₁, t₁, hdel₁, hsame₁, hargs₁, hcalls₁⟩
  rcases exists_stale_erase 2 hidle hreach (by decide) with
    ⟨s₂, req₂, t₂, hdel₂, hsame₂, hargs₂, hcalls₂⟩
  refine ⟨s, s₁, s₂, req₁, req₂, t₁, t₂, hsame₁, hsame₂, hdel₁, hdel₂, hcalls₁, hcalls₂, ?_⟩
  intro hdet
  have hargs := (hdet s₁ s₂ _ _ req₁ req₂ t₁ t₂ hsame₁ hsame₂ hdel₁ hdel₂ rfl rfl rfl).1
  rw [hargs₁, hargs₂] at hargs
  exact absurd hargs (by decide)

end Stale

end Burn
end CanmvK230
