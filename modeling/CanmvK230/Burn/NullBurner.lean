import CanmvK230.Burn.Session

/-!
# NullBurner — commands that arrive before a medium was probed

`kburn_usb->burner` is NULL until a probe succeeds, and again after a probe that fails.  A
`WRITE_LBA` or `ERASE_LBA` should then be answered with an error and nothing else (`Safe`).
`cb_erase_lba` tests the pointer, `cb_write_lba` does not: `null_burner_iff` says, for every sequence
of packets a host can send, that it is handled safely exactly when no well-formed request of this
kind reaches `cb_write_lba` (or finds no memory for the double buffer).
-/

namespace CanmvK230
namespace Burn

open Lib

section

variable {μ : Type} {board : Board μ} {c : Completion} {s t : KburnUsb μ} {req : UsbRequest}

/-! ## What should happen, and when it does not -/

/-- The packet is answered with an error message and changes no other state: not the medium, the
burner or the transfer, and the OUT request comes back as it was. -/
structure AnsweredWithError (c : Completion) (s : KburnUsb μ) (req : UsbRequest) (t : KburnUsb μ) :
    Prop where
  reply : ∃ (cmd : KburnPktCmd) (msg : String),
    t.replies = s.replies ++ [csw c cmd.code KburnPktResult.errorMsg.code (ascii msg)]
  rest : Quiet s { t with outReq := s.outReq }
  outReq : ∃ req', t.outReq = some req' ∧ req'.length = req.length ∧
    req'.complete = req.complete ∧ req'.queued = req.queued

/-- `WRITE_LBA` or `ERASE_LBA` handled by `rx_command_handler` while no medium is probed. -/
structure WithoutMedium (c : Completion) (s : KburnUsb μ) (req : UsbRequest) : Prop where
  mode : req.complete = .rxCommandHandler
  status : c.status = 0
  length : req.length ≠ 0
  burner : s.burner = none
  cmd : pktCmd (arrived c req) = KburnPktCmd.writeLba.code ∨
    pktCmd (arrived c req) = KburnPktCmd.eraseLba.code

/-- No NULL burner is dereferenced, and requests without a medium are refused. -/
def Safe (board : Board μ) (c : Completion) (s : KburnUsb μ) (req : UsbRequest) : Prop :=
  outComplete board c s ≠ .error .nullBurner ∧
    (WithoutMedium c s req → ∃ t, outComplete board c s = .ok t ∧ AnsweredWithError c s req t)

/-- The request that `cb_write_lba` does not survive: it is well formed and there is no medium.
`cb_erase_lba` only fails if, besides, the double buffer is gone and cannot be allocated. -/
structure NullBurnerRequest (c : Completion) (s : KburnUsb μ) (req : UsbRequest) : Prop where
  request : WithoutMedium c s req
  fits : (arrived c req).actual < (arrived c req).length
  dataSize : pktDataSize (arrived c req) = 16
  unguarded : pktCmd (arrived c req) = KburnPktCmd.writeLba.code ∨ getKburnUsb c s = none

/-! ## One packet -/

/-- An error reply, seen from the gadget before the command. -/
structure ErrorReply (c : Completion) (s t : KburnUsb μ) : Prop where
  reply : ∃ (cmd : KburnPktCmd) (msg : String),
    t.replies = s.replies ++ [csw c cmd.code KburnPktResult.errorMsg.code (ascii msg)]
  quiet : Quiet s t

theorem errorReply_kburnTxResult (hq : Quiet s t) (hreplies : t.replies = s.replies)
    (cmd : KburnPktCmd) (msg : String) (hlen : (ascii msg).length ≤ 58) :
    ErrorReply c s (kburnTxResult c cmd .errorMsg (ascii msg) t) where
  reply := ⟨cmd, msg, by rw [replies_kburnTxResult _ _ _ _ hlen, hreplies]⟩
  quiet := hq.trans (quiet_kburnTxResult _ _ _ _)

variable (board req) in
theorem cbWriteLba_without_burner (hburner : s.burner = none) :
    (pktDataSize req ≠ 16 ∧ ∃ t, cbWriteLba board c s (terminated req) = .ok (t, terminated req) ∧
        ErrorReply c s t) ∨
      (pktDataSize req = 16 ∧ ∃ f, cbWriteLba board c s (terminated req) = .error f) := by
  by_cases hsize : pktDataSize req = 16
  · refine Or.inr ⟨hsize, ?_⟩
    have hsize' : ¬ (KburnUsbPkt.ofBuf (terminated req).buf).dataSize ≠ 16 := not_not.2 hsize
    -- whether the double buffer is there or not, a NULL pointer is read through
    cases hget : getKburnUsb c s with
    | none =>
        refine ⟨.nullKburnUsb, ?_⟩
        simp only [cbWriteLba, if_neg hsize', hget]
    | some s₁ =>
        have hnone : s₁.burner = none := (quiet_of_getKburnUsb hget).burner.trans hburner
        refine ⟨.nullBurner, ?_⟩
        simp only [cbWriteLba, if_neg hsize', hget, hnone]
  · refine Or.inl ⟨hsize, ?_⟩
    have hsize' : (KburnUsbPkt.ofBuf (terminated req).buf).dataSize ≠ 16 := hsize
    refine ⟨_, by simp only [cbWriteLba, if_pos hsize']; rfl, ?_⟩
    exact errorReply_kburnTxResult (quiet_getD_getKburnUsb c s) (replies_getD_getKburnUsb c s) _ _
      (by decide)

variable (req) in
theorem cbEraseLba_without_burner (hburner : s.burner = none) :
    ((pktDataSize req ≠ 16 ∨ getKburnUsb c s ≠ none) ∧
        ∃ t, cbEraseLba c s (terminated req) = .ok (t, terminated req) ∧ ErrorReply c s t) ∨
      (pktDataSize req = 16 ∧ getKburnUsb c s = none ∧
        ∃ f, cbEraseLba c s (terminated req) = .error f) := by
  by_cases hsize : pktDataSize req = 16
  · have hsize' : ¬ (KburnUsbPkt.ofBuf (terminated req).buf).dataSize ≠ 16 := not_not.2 hsize
    -- here the burner is tested, and only the double buffer can be missing
    cases hget : getKburnUsb c s with
    | none =>
        refine Or.inr ⟨hsize, rfl, .nullKburnUsb, ?_⟩
        simp only [cbEraseLba, if_neg hsize', hget]
    | some s₁ =>
        have hnone : s₁.burner = none := (quiet_of_getKburnUsb hget).burner.trans hburner
        refine Or.inl ⟨Or.inr (by simp), ?_⟩
        refine ⟨_, by simp only [cbEraseLba, if_neg hsize', hget, hnone]; rfl, ?_⟩
        exact errorReply_kburnTxResult (quiet_of_getKburnUsb hget) (replies_of_getKburnUsb hget) _ _
          (by decide)
  · refine Or.inl ⟨Or.inl hsize, ?_⟩
    have hsize' : (KburnUsbPkt.ofBuf (terminated req).buf).dataSize ≠ 16 := hsize
    refine ⟨_, by simp only [cbEraseLba, if_pos hsize']; rfl, ?_⟩
    exact errorReply_kburnTxResult (quiet_getD_getKburnUsb c s) (replies_getD_getKburnUsb c s) _ _
      (by decide)

variable (board) in
/-- Without a medium, a request is refused or faults, and it faults exactly on the requests of
`NullBurnerRequest`. -/
theorem dispatch_without_medium (h : WithoutMedium c s req) :
    (¬ NullBurnerRequest c s req ∧ ∃ t req', dispatch board c s (arrived c req) = .ok (t, req') ∧
        ErrorReply c s t ∧ SameMode (arrived c req) req') ∨
      (NullBurnerRequest c s req ∧ ∃ f, dispatch board c s (arrived c req) = .error f) := by
  by_cases hfits : (arrived c req).actual < (arrived c req).length
  · rcases h.cmd with hcmd | hcmd
    · have hrun : dispatch board c s (arrived c req) =
          cbWriteLba board c s (terminated (arrived c req)) :=
        dispatch_of_row (by simp [pktHandlers]) hcmd hfits
      rw [hrun]
      rcases cbWriteLba_without_burner board (c := c) (arrived c req) h.burner with
        ⟨hsize, t, ht, hreply⟩ | ⟨hsize, hfault⟩
      · refine Or.inl ⟨fun hbad => hsize hbad.dataSize, t, _, ht, hreply, ?_⟩
        exact sameMode_terminated _
      · exact Or.inr ⟨⟨h, hfits, hsize, Or.inl hcmd⟩, hfault⟩
    · have hrun : dispatch board c s (arrived c req) =
          cbEraseLba c s (terminated (arrived c req)) :=
        dispatch_of_row (by simp [pktHandlers]) hcmd hfits
      rw [hrun]
      have hother : pktCmd (arrived c req) ≠ KburnPktCmd.writeLba.code := by
        rw [hcmd]
        decide
      rcases cbEraseLba_without_burner (c := c) (arrived c req) h.burner with
        ⟨hguard, t, ht, hreply⟩ | ⟨hsize, hget, hfault⟩
      · refine Or.inl ⟨?_, t, _, ht, hreply, sameMode_terminated _⟩
        intro hbad
        rcases hguard with hsize | hget
        · exact hsize hbad.dataSize
        · rcases hbad.unguarded with hwrite | hnone
          · exact hother hwrite
          · exact hget hnone
      · exact Or.inr ⟨⟨h, hfits, hsize, Or.inr hget⟩, hfault⟩
  · -- the packet fills the whole request and is not dispatched
    refine Or.inl ⟨fun hbad => hfits hbad.fits, _, arrived c req, ?_,
      errorReply_kburnTxResult (Quiet.refl s) rfl .none "FAILbuffer overflow" (by decide),
      SameMode.refl _⟩
    rcases h.cmd with hcmd | hcmd
    · simp only [dispatch, find_pktHandlers, hcmd, if_neg hfits]
      rfl
    · simp only [dispatch, find_pktHandlers, hcmd, if_neg hfits]
      rfl

/-- The data handler tests the burner in `kburn_write_medium`. -/
theorem rxWriteLbaHandler_ne_nullBurner :
    rxWriteLbaHandler board c s req ≠ .error .nullBurner := by
  intro h
  unfold rxWriteLbaHandler at h
  cases hget : getKburnUsb c s with
  | none => simp [hget] at h
  | some s₁ =>
      simp only [hget] at h
      split at h
      · cases h
      · split at h
        · cases h
        · split_ifs at h

theorem ne_nullBurner (hout : s.outReq = some req) (h : ¬ NullBurnerRequest c s req) :
    outComplete board c s ≠ .error .nullBurner := by
  intro hfault
  cases hmode : req.complete with
  | rxWriteLbaHandler =>
      simp only [outComplete, hout, hmode] at hfault
      cases hrun : rxWriteLbaHandler board c s (arrived c req) with
      | error f =>
          rw [hrun] at hfault
          cases hfault
          exact rxWriteLbaHandler_ne_nullBurner hrun
      | ok p => simp [hrun] at hfault
  | rxCommandHandler =>
      by_cases hgo : c.status ≠ 0 ∨ (arrived c req).length = 0
      · -- the handler returns before it looks at the packet
        simp only [outComplete, hout, hmode, rxCommandHandler, if_pos hgo] at hfault
        cases hfault
      · rw [not_or, not_not] at hgo
        rw [outComplete_dispatch _ hout hmode hgo.1 hgo.2] at hfault
        cases hdispatch : dispatch board c s (arrived c req) with
        | ok p => simp [hdispatch] at hfault
        | error f =>
            rw [hdispatch] at hfault
            cases hfault
            -- of the callbacks only `cb_write_lba` reads through the pointer
            rcases dispatch_error hdispatch with ⟨hfits, ⟨hf, _⟩ | ⟨_, hcmd, hsize, hburner⟩ | ⟨hf, _⟩⟩
            · cases hf
            · exact h ⟨⟨hmode, hgo.1, hgo.2, hburner, Or.inl hcmd⟩, hfits, hsize, Or.inl hcmd⟩
            · cases hf

theorem safe_iff (hmay : MayComplete s c req) :
    Safe board c s req ↔ ¬ NullBurnerRequest c s req := by
  constructor
  · rintro ⟨_, hanswer⟩ hbad
    have hlen : (arrived c req).length ≠ 0 := hbad.request.length
    have hrun := outComplete_dispatch board hmay.1 hbad.request.mode hbad.request.status
      hlen
    rcases hanswer hbad.request with ⟨t, ht, _⟩
    rcases dispatch_without_medium board hbad.request with ⟨hgood, _⟩ | ⟨_, f, hf⟩
    · exact hgood hbad
    · rw [hrun, hf] at ht
      cases ht
  · intro hgood
    refine ⟨ne_nullBurner hmay.1 hgood, ?_⟩
    intro h
    have hlen : (arrived c req).length ≠ 0 := h.length
    have hrun := outComplete_dispatch board hmay.1 h.mode h.status hlen
    rcases dispatch_without_medium board h with
      ⟨_, t, req', hdispatch, hreply, hsame⟩ | ⟨hbad, _⟩
    · rw [hdispatch] at hrun
      refine ⟨_, hrun, hreply.reply, ?_, requeued req', rfl, hsame.length, hsame.complete, ?_⟩
      · exact ⟨hreply.quiet.medium, hreply.quiet.burner, hreply.quiet.offset, hreply.quiet.dlSize,
          hreply.quiet.dlBytes, hreply.quiet.calls, rfl⟩
      · -- one completion less, one `usb_ep_queue` more
        have hqueued : req'.queued = req.queued - 1 := hsame.queued
        have hpos := hmay.2.1
        simp only [requeued, usbEpQueue, hqueued]
        omega
    · exact absurd hbad hgood

/-! ## Every sequence of packets -/

/-- A packet of the host, whatever its status and contents, whose handler returns. -/
def HostStep (board : Board μ) (s : KburnUsb μ) (c : Completion) (t : KburnUsb μ) : Prop :=
  ∃ req, MayComplete s c req ∧ outComplete board c s = .ok t

/-- Whatever packets the host sends once the interface is configured: all of them are handled safely,
exactly when none of them is a request that `cb_write_lba` does not survive. -/
theorem null_burner_iff (board : Board μ) (s : KburnUsb μ) (packets : List Completion) :
    (∀ pre c post t req, packets = pre ++ c :: post →
        Run (HostStep board) (kburnSetAlt configured s) pre t → MayComplete t c req →
        Safe board c t req) ↔
      ∀ pre c post t req, packets = pre ++ c :: post →
        Run (HostStep board) (kburnSetAlt configured s) pre t → MayComplete t c req →
        ¬ NullBurnerRequest c t req := by
  constructor
  · intro h pre c post t req hsplit hrun hmay
    exact (safe_iff hmay).1 (h pre c post t req hsplit hrun hmay)
  · intro h pre c post t req hsplit hrun hmay
    exact (safe_iff hmay).2 (h pre c post t req hsplit hrun hmay)

/-- The first packet of the host is a `WRITE_LBA`: the gadget reads through the NULL pointer. -/
theorem null_burner_first_write :
    ∃ req, MayComplete (kburnSetAlt configured (kburnAdd () 4096))
        (hostSends (lbaPkt .writeLba 0 512)) req ∧
      outComplete (cardBoard 1024 fun m _ _ len => some (0, len, m))
          (hostSends (lbaPkt .writeLba 0 512)) (kburnSetAlt configured (kburnAdd () 4096)) =
        .error .nullBurner ∧
      ¬ Safe (cardBoard 1024 fun m _ _ len => some (0, len, m))
        (hostSends (lbaPkt .writeLba 0 512)) (kburnSetAlt configured (kburnAdd () 4096)) req := by
  have hidle := idle_configured () 4096 (by decide)
  rcases hidle.mayComplete (lbaPkt .writeLba 0 512) (by rw [length_lbaPkt]; decide) with
    ⟨req, hmay, hmode, hlength, _⟩
  have hlen : (arrived (hostSends (lbaPkt .writeLba 0 512)) req).length ≠ 0 := by
    simp [arrived, hlength]
  have hfault : NullBurnerRequest (hostSends (lbaPkt .writeLba 0 512))
      (kburnSetAlt configured (kburnAdd () 4096)) req :=
    { request :=
        { mode := hmode
          status := rfl
          length := hlen
          burner := rfl
          cmd := Or.inl (pktCmd_arrived rfl) }
      fits := actual_lt_length (length_lbaPkt _ _ _) hlength
      dataSize := pktDataSize_lbaPkt rfl
      unguarded := Or.inl (pktCmd_arrived rfl) }
  have hnull : outComplete (cardBoard 1024 fun m _ _ len => some (0, len, m))
      (hostSends (lbaPkt .writeLba 0 512)) (kburnSetAlt configured (kburnAdd () 4096)) =
        .error .nullBurner := by
    rw [outComplete_dispatch _ hmay.1 hmode rfl hlen]
    rcases dispatch_without_medium (cardBoard 1024 fun m _ _ len => some (0, len, m))
      hfault.request with ⟨hgood, _⟩ | ⟨_, f, hf⟩
    · exact absurd hfault hgood
    · rw [hf]
      -- the double buffer is there, and nothing is erased
      rcases dispatch_error hf with ⟨_, ⟨_, hget⟩ | ⟨rfl, _⟩ | ⟨_, b, herases⟩⟩
      · rw [getKburnUsb_of_bufHead_ne_zero hidle.bufHead] at hget
        cases hget
      · rfl
      · exact absurd herases.burner (by simp [kburnSetAlt, configured, kburnAdd])
  exact ⟨req, hmay, hnull, fun hsafe => hsafe.1 hnull⟩

end

end Burn
end CanmvK230
