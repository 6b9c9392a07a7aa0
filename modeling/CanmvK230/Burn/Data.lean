import CanmvK230.Burn.Commands

/-!
# Data — what one data packet can do to the gadget

The counterpart of `Commands` for `rx_write_lba_handler`.  A data packet is refused because of its
status, or a chunk of it goes to the medium; the medium then fails, or the chunk was the last one, or
more is to come (`DataEffect`).  The chunk is copied into one half of the double buffer first, so the
medium sees the copy: `read_chunkBuf` says that the copy is the received data.
-/

namespace CanmvK230
namespace Burn

open Lib

section

variable {μ : Type} {board : Board μ} {c : Completion} {s t : KburnUsb μ} {req req' : UsbRequest}

/-! ## The chunk -/

/-- The double buffer after the copy, seen from `buf`. -/
def chunkBuf (s : KburnUsb μ) (req : UsbRequest) : ByteMem :=
  (s.bufMem.write s.buf (req.buf.read 0 (transferSize s req.actual).toNat)).shift s.buf

theorem read_chunkBuf (s : KburnUsb μ) (req : UsbRequest) :
    (chunkBuf s req).read 0 (transferSize s req.actual).toNat =
      req.buf.read 0 (transferSize s req.actual).toNat := by
  rw [chunkBuf, ByteMem.read_shift, Nat.add_zero]
  exact ByteMem.read_write_of_length _ (by simp)

/-- What the medium answers to the chunk. -/
def mediumAnswer (s : KburnUsb μ) (req : UsbRequest) : Option (Int × UInt64 × μ) :=
  kburnWriteMedium s.burner s.medium s.offset (chunkBuf s req)
    (transferSize s req.actual).toUInt64

/-- The handler's call of the medium, under its name. -/
theorem kburnWriteMedium_chunk (s : KburnUsb μ) (req : UsbRequest) :
    kburnWriteMedium s.burner s.medium s.offset
        ((s.bufMem.write s.buf (req.buf.read 0 (transferSize s req.actual).toNat)).shift s.buf)
        (transferSize s req.actual).toUInt64 = mediumAnswer s req :=
  rfl

theorem toNat_transferSize (s : KburnUsb μ) (actual : UInt32) :
    (transferSize s actual).toNat = min actual.toNat ((s.dlSize - s.dlBytes).toNat % 2 ^ 32) := by
  have hrem : (s.dlSize - s.dlBytes).toUInt32.toNat = (s.dlSize - s.dlBytes).toNat % 2 ^ 32 := by
    exact UInt64.toNat_toUInt32 _
  unfold transferSize
  dsimp only
  by_cases hlt : actual < (s.dlSize - s.dlBytes).toUInt32
  · -- all that arrived is taken; in the other case only what is missing, modulo 2 ^ 32
    have hlt' : actual.toNat < (s.dlSize - s.dlBytes).toUInt32.toNat := UInt32.lt_iff_toNat_lt.1 hlt
    rw [if_pos hlt]
    omega
  · have hge : (s.dlSize - s.dlBytes).toUInt32.toNat ≤ actual.toNat :=
      UInt32.le_iff_toNat_le.1 (UInt32.not_lt.1 hlt)
    rw [if_neg hlt]
    omega

/-- The allocation in `get_kburn_usb` leaves the counters alone. -/
theorem transferSize_of_getKburnUsb {s₁ : KburnUsb μ} (h : getKburnUsb c s = some s₁)
    (actual : UInt32) : transferSize s₁ actual = transferSize s actual := by
  have hq := quiet_of_getKburnUsb h
  unfold transferSize
  rw [hq.dlSize, hq.dlBytes]

/-! ## The effects -/

/-- The chunk is on the medium and the counters have moved on. -/
structure ChunkTaken (s : KburnUsb μ) (req : UsbRequest) (m : μ) (t : KburnUsb μ) : Prop where
  medium : t.medium = m
  burner : t.burner = s.burner
  offset : t.offset = s.offset + (transferSize s req.actual).toUInt64
  dlBytes : t.dlBytes = s.dlBytes + (transferSize s req.actual).toUInt64
  bufHead : t.bufHead = s.bufHead
  calls : t.calls = s.calls ++ [.write s.offset (transferSize s req.actual).toUInt64]

/-- The medium refused the chunk: it was counted, but the offset stays. -/
structure ChunkLost (s : KburnUsb μ) (req : UsbRequest) (m : μ) (t : KburnUsb μ) : Prop where
  medium : t.medium = m
  burner : t.burner = s.burner
  offset : t.offset = s.offset
  dlSize : t.dlSize = s.dlSize
  dlBytes : t.dlBytes = s.dlBytes + (transferSize s req.actual).toUInt64
  calls : t.calls = s.calls ++ [.write s.offset (transferSize s req.actual).toUInt64]

/-- Everything one data packet can have done when `rx_write_lba_handler` returns; `s` is the gadget
after `get_kburn_usb`. -/
inductive DataEffect (board : Board μ) (c : Completion) (s : KburnUsb μ) (req : UsbRequest) :
    KburnUsb μ → UsbRequest → Prop
  -- the request is neither queued nor changed in the first two cases
  | refused {t : KburnUsb μ} : c.status ≠ 0 → Quiet s t → DataEffect board c s req t req
  | failed {t : KburnUsb μ} (result : Int) (xferSize : UInt64) (m : μ) :
      c.status = 0 → mediumAnswer s req = some (result, xferSize, m) →
        (result ≠ 0 ∨ xferSize ≠ (transferSize s req.actual).toUInt64) → ChunkLost s req m t →
        DataEffect board c s req t req
  | done {t : KburnUsb μ} {req' : UsbRequest} (m : μ) :
      c.status = 0 → mediumAnswer s req = some (0, (transferSize s req.actual).toUInt64, m) →
        s.dlSize ≤ s.dlBytes + (transferSize s req.actual).toUInt64 → ChunkTaken s req m t →
        t.dlSize = 0 →
        t.replies =
          s.replies ++ [csw c KburnPktCmd.writeLba.code KburnPktResult.ok.code (ascii "WRITE DONE")] →
        req'.complete = .rxCommandHandler → req'.length = 131072 → req'.queued = req.queued + 1 →
        DataEffect board c s req t req'
  | more {t : KburnUsb μ} {req' : UsbRequest} (m : μ) :
      c.status = 0 → mediumAnswer s req = some (0, (transferSize s req.actual).toUInt64, m) →
        ¬ s.dlSize ≤ s.dlBytes + (transferSize s req.actual).toUInt64 → ChunkTaken s req m t →
        t.dlSize = s.dlSize → t.replies = s.replies →
        req'.complete = req.complete → req'.length = rxBytesExpected board t →
        req'.queued = req.queued + 1 →
        DataEffect board c s req t req'

/-- The gadget after a chunk that is not the last one. -/
def moreState (s : KburnUsb μ) (req : UsbRequest) (m : μ) : KburnUsb μ :=
  let transfer := (transferSize s req.actual).toUInt64
  { s with
    bufMem := s.bufMem.write s.buf (req.buf.read 0 (transferSize s req.actual).toNat)
    dlBytes := s.dlBytes + transfer
    medium := m
    calls := s.calls ++ [.write s.offset transfer]
    offset := s.offset + transfer
    buf := if s.buf = s.bufHead then s.bufHead + usbEpBufferSize else s.bufHead }

/-- The gadget after the last chunk, before the reply. -/
def doneState (s : KburnUsb μ) (req : UsbRequest) (m : μ) : KburnUsb μ :=
  { moreState s req m with buf := s.bufHead, dlSize := 0 }

theorem chunkTaken_moreState (s : KburnUsb μ) (req : UsbRequest) (m : μ) :
    ChunkTaken s req m (moreState s req m) :=
  ⟨rfl, rfl, rfl, rfl, rfl, rfl⟩

theorem ChunkTaken.quiet {m : μ} {u : KburnUsb μ} (h : ChunkTaken s req m t) (hq : Quiet t u)
    (hhead : u.bufHead = t.bufHead) : ChunkTaken s req m u :=
  ⟨hq.medium.trans h.medium, hq.burner.trans h.burner, hq.offset.trans h.offset,
    hq.dlBytes.trans h.dlBytes, hhead.trans h.bufHead, hq.calls.trans h.calls⟩

/-- What is expected next depends on the two counters only. -/
theorem rxBytesExpected_congr (hsize : t.dlSize = s.dlSize) (hbytes : t.dlBytes = s.dlBytes) :
    rxBytesExpected board t = rxBytesExpected board s := by
  unfold rxBytesExpected
  rw [hsize, hbytes]

/-- The length asked for next: a full buffer, or the rest rounded up to whole packets. -/
theorem toNat_rxBytesExpected (board : Board μ) (s : KburnUsb μ) :
    (rxBytesExpected board s).toNat =
      if 131072 < (s.dlSize - s.dlBytes).toNat then 131072
      else (s.dlSize - s.dlBytes).toNat +
        (board.maxpacket.toNat - (s.dlSize - s.dlBytes).toNat % board.maxpacket.toNat) %
          board.maxpacket.toNat := by
  have hpos : 0 < board.maxpacket.toNat := UInt16.lt_iff_toNat_lt.1 board.maxpacket_pos
  have hbound : board.maxpacket.toNat < 2 ^ 16 := board.maxpacket.toNat_lt
  have hmp : board.maxpacket.toUInt64.toNat = board.maxpacket.toNat := UInt16.toNat_toUInt64 _
  unfold rxBytesExpected
  dsimp only
  generalize s.dlSize - s.dlBytes = remain
  have hmod : (remain % board.maxpacket.toUInt64).toNat = remain.toNat % board.maxpacket.toNat := by
    rw [UInt64.toNat_mod, hmp]
  have hlt : remain.toNat % board.maxpacket.toNat < board.maxpacket.toNat := Nat.mod_lt _ hpos
  by_cases hzero : remain = 0
  · simp [hzero]
  by_cases hlarge : remain > 131072
  · have hlarge' : 131072 < remain.toNat := UInt64.lt_iff_toNat_lt.1 hlarge
    simp [hzero, hlarge, hlarge']
  have hsmall : ¬ 131072 < remain.toNat := fun h => hlarge (UInt64.lt_iff_toNat_lt.2 h)
  rw [if_neg hzero, if_neg hlarge, if_neg hsmall]
  split
  · -- rounded up: the difference is below `maxpacket`, so neither sum wraps
    rename_i hrem
    have hrem' : 0 < remain.toNat % board.maxpacket.toNat := by
      rw [← hmod]
      exact UInt64.lt_iff_toNat_lt.1 hrem
    have hround : (board.maxpacket.toUInt64 - remain % board.maxpacket.toUInt64).toNat =
        board.maxpacket.toNat - remain.toNat % board.maxpacket.toNat := by
      rw [UInt64.toNat_sub_of_le, hmp, hmod]
      rw [UInt64.le_iff_toNat_le, hmp, hmod]
      exact hlt.le
    rw [UInt64.toNat_toUInt32, UInt64.toNat_add, hround, Nat.mod_eq_of_lt (by omega : _ - _ < _)]
    omega
  · rename_i hrem
    have hrem' : remain.toNat % board.maxpacket.toNat = 0 := by
      rw [← hmod]
      exact Nat.eq_zero_of_not_pos fun h => hrem (UInt64.lt_iff_toNat_lt.2 h)
    rw [UInt64.toNat_toUInt32, hrem', Nat.sub_zero, Nat.mod_self]
    omega

theorem rxWriteLbaHandler_effect (h : rxWriteLbaHandler board c s req = .ok (t, req')) :
    ∃ s₁, getKburnUsb c s = some s₁ ∧ DataEffect board c s₁ req t req' := by
  unfold rxWriteLbaHandler at h
  cases hget : getKburnUsb c s with
  | none => simp [hget] at h
  | some s₁ =>
      refine ⟨s₁, rfl, ?_⟩
      simp only [hget] at h
      split at h
      · rename_i hstatus
        cases h
        exact .refused hstatus (quiet_kburnTxResult _ _ _ _)
      · rename_i hstatus
        have hstatus' : c.status = 0 := not_not.1 hstatus
        split at h
        · cases h
        · rename_i result xferSize m hans
          have hans' : mediumAnswer s₁ req = some (result, xferSize, m) := hans
          split at h
          · -- `dl_bytes` was advanced before the call, `offset` would have been after it
            rename_i hbad
            cases h
            have hq := quiet_kburnTxResult (c := c) .writeLba .errorMsg (ascii "WRITE ERROR")
              { moreState s₁ req m with offset := s₁.offset, buf := s₁.buf }
            exact .failed result xferSize m hstatus' hans' hbad
              ⟨hq.medium, hq.burner, hq.offset, hq.dlSize, hq.dlBytes, hq.calls⟩
          · rename_i hgood
            -- the medium stored the chunk: both answers are as asked
            have hres : result = 0 := by
              by_contra hne
              exact hgood (Or.inl hne)
            have hxfer : xferSize = (transferSize s₁ req.actual).toUInt64 := by
              by_contra hne
              exact hgood (Or.inr hne)
            subst hres
            subst hxfer
            split at h
            · rename_i hdone
              cases h
              have hq := quiet_kburnTxResult (c := c) .writeLba .ok (ascii "WRITE DONE")
                (doneState s₁ req m)
              have htaken : ChunkTaken s₁ req m (doneState s₁ req m) := ⟨rfl, rfl, rfl, rfl, rfl, rfl⟩
              exact .done m hstatus' hans' hdone
                (htaken.quiet hq (bufHead_kburnTxResult _ _ _ _)) hq.dlSize
                (replies_kburnTxResult _ _ _ _ (by decide)) rfl rfl rfl
            · rename_i hmore
              cases h
              -- the length asked for next is computed before `buf` moves to the other half
              refine .more m hstatus' hans' hmore (chunkTaken_moreState s₁ req m) rfl rfl rfl ?_ rfl
              exact rxBytesExpected_congr rfl rfl

/-! ## The handler, run forwards -/

variable (board) in
/-- A chunk the medium stores and that is not the last one. -/
theorem rxWriteLbaHandler_more {m : μ} (hhead : s.bufHead ≠ 0) (hstatus : c.status = 0)
    (hans : mediumAnswer s req = some (0, (transferSize s req.actual).toUInt64, m))
    (hmore : ¬ s.dlSize ≤ s.dlBytes + (transferSize s req.actual).toUInt64) :
    rxWriteLbaHandler board c s req =
      .ok (moreState s req m,
        usbEpQueue { req with length := rxBytesExpected board (moreState s req m), actual := 0 }) := by
  have hmore' : ¬ s.dlBytes + (transferSize s req.actual).toUInt64 ≥ s.dlSize := hmore
  simp only [rxWriteLbaHandler, getKburnUsb_of_bufHead_ne_zero hhead, hstatus, ne_eq,
    not_true_eq_false, if_false, kburnWriteMedium_chunk, hans, or_self, if_neg hmore']
  congr 2

variable (board) in
/-- The last chunk, when the medium stores it. -/
theorem rxWriteLbaHandler_done {m : μ} (hhead : s.bufHead ≠ 0) (hstatus : c.status = 0)
    (hans : mediumAnswer s req = some (0, (transferSize s req.actual).toUInt64, m))
    (hdone : s.dlSize ≤ s.dlBytes + (transferSize s req.actual).toUInt64) :
    rxWriteLbaHandler board c s req =
      .ok (kburnTxStringResult c .writeLba .ok "WRITE DONE" (doneState s req m),
        usbEpQueue { req with complete := .rxCommandHandler, length := 131072, actual := 0 }) := by
  have hdone' : s.dlBytes + (transferSize s req.actual).toUInt64 ≥ s.dlSize := hdone
  simp only [rxWriteLbaHandler, getKburnUsb_of_bufHead_ne_zero hhead, hstatus, ne_eq,
    not_true_eq_false, if_false, kburnWriteMedium_chunk, hans, or_self, if_pos hdone']
  rfl

variable (board) in
/-- A chunk the medium does not store: the request comes back as it was. -/
theorem rxWriteLbaHandler_failed {result : Int} {xferSize : UInt64} {m : μ} (hhead : s.bufHead ≠ 0)
    (hstatus : c.status = 0) (hans : mediumAnswer s req = some (result, xferSize, m))
    (hbad : result ≠ 0 ∨ xferSize ≠ (transferSize s req.actual).toUInt64) :
    ∃ t, rxWriteLbaHandler board c s req = .ok (t, req) := by
  simp only [rxWriteLbaHandler, getKburnUsb_of_bufHead_ne_zero hhead, hstatus, ne_eq,
    not_true_eq_false, if_false, kburnWriteMedium_chunk, hans, if_pos hbad]
  exact ⟨_, rfl⟩

/-! ## The completion of the OUT request, by its handler -/

/-- A request that can complete with data has a length. -/
theorem length_ne_zero_of_mayComplete (h : MayComplete s c req) (hpos : 0 < c.data.length) :
    req.length ≠ 0 := by
  intro h0
  have hle := h.2.2
  rw [h0] at hle
  simp at hle
  simp [hle] at hpos

/-- The function that a completion handler stands for. -/
def runHandler (board : Board μ) (c : Completion) : RxHandler → Callback μ
  | .rxCommandHandler => rxCommandHandler board c
  | .rxWriteLbaHandler => rxWriteLbaHandler board c

/-- A completion returns when its handler does, and keeps the request the handler returned. -/
theorem outComplete_eq_ok_iff (hout : s.outReq = some req) :
    outComplete board c s = .ok t ↔
      ∃ v req', runHandler board c req.complete s (arrived c req) = .ok (v, req') ∧
        t = { v with outReq := some req' } := by
  have hrun : outComplete board c s =
      (runHandler board c req.complete s (arrived c req)).map
        fun p => { p.1 with outReq := some p.2 } := by
    simp only [outComplete, hout]
    cases req.complete with
    | rxCommandHandler =>
        simp only [runHandler]
        cases rxCommandHandler board c s (arrived c req) <;> rfl
    | rxWriteLbaHandler =>
        simp only [runHandler]
        cases rxWriteLbaHandler board c s (arrived c req) <;> rfl
  rw [hrun]
  cases runHandler board c req.complete s (arrived c req) with
  | error f => simp [Except.map]
  | ok p => simp [Except.map, Prod.ext_iff, eq_comm]

theorem outComplete_command (hout : s.outReq = some req) (hmode : req.complete = .rxCommandHandler)
    (h : outComplete board c s = .ok t) :
    ∃ v req', rxCommandHandler board c s (arrived c req) = .ok (v, req') ∧
      t = { v with outReq := some req' } := by
  have hrun := (outComplete_eq_ok_iff hout).1 h
  rw [hmode] at hrun
  exact hrun

theorem outComplete_data (hout : s.outReq = some req) (hmode : req.complete = .rxWriteLbaHandler)
    (h : outComplete board c s = .ok t) :
    ∃ v req', rxWriteLbaHandler board c s (arrived c req) = .ok (v, req') ∧
      t = { v with outReq := some req' } := by
  have hrun := (outComplete_eq_ok_iff hout).1 h
  rw [hmode] at hrun
  exact hrun

variable (board) in
/-- A command packet, down to the callback it runs. -/
theorem outComplete_dispatch (hout : s.outReq = some req) (hmode : req.complete = .rxCommandHandler)
    (hstatus : c.status = 0) (hlen : (arrived c req).length ≠ 0) :
    outComplete board c s =
      match dispatch board c s (arrived c req) with
      | .error f => .error f
      | .ok (t, req') => .ok { t with outReq := some (requeued req') } := by
  have hhandler := rxCommandHandler_eq board (s := s) hstatus hlen
  simp only [outComplete, hout, hmode, hhandler]
  cases dispatch board c s (arrived c req) with
  | error f => rfl
  | ok p => rfl

/-- A command packet hands the OUT request over exactly when it is a `WRITE_LBA` that is accepted. -/
theorem outComplete_command_cases (hout : s.outReq = some req)
    (hmode : req.complete = .rxCommandHandler) (hstatus : c.status = 0)
    (hlen : (arrived c req).length ≠ 0) (hrun : outComplete board c s = .ok t) :
    ∃ v req₁, dispatch board c s (arrived c req) = .ok (v, req₁) ∧
      t = { v with outReq := some (requeued req₁) } ∧
      ((∃ b, AcceptsWrite c s (arrived c req) b ∧ Accepted board s (arrived c req) v req₁) ∨
        (SameMode (arrived c req) req₁ ∧ ∀ b, ¬ AcceptsWrite c s (arrived c req) b)) := by
  rw [outComplete_dispatch board hout hmode hstatus hlen] at hrun
  cases hdispatch : dispatch board c s (arrived c req) with
  | error f => simp [hdispatch] at hrun
  | ok p =>
      rcases p with ⟨v, req₁⟩
      simp only [hdispatch, Except.ok.injEq] at hrun
      refine ⟨v, req₁, rfl, hrun.symm, ?_⟩
      -- a request that keeps its mode was not handed to the data handler
      have hsame : SameMode (arrived c req) req₁ → ∀ b, ¬ AcceptsWrite c s (arrived c req) b := by
        intro h b haccepts
        rcases dispatch_of_acceptsWrite board haccepts with ⟨v', req', hrun', hdata⟩
        rw [hdispatch] at hrun'
        cases hrun'
        have hcmd : req₁.complete = .rxCommandHandler := h.complete.trans hmode
        simp [hdata] at hcmd
      cases dispatch_effect hdispatch with
      | quiet _ h => exact Or.inr ⟨h, hsame h⟩
      | probe _ _ h => exact Or.inr ⟨h, hsame h⟩
      | info _ _ _ h => exact Or.inr ⟨h, hsame h⟩
      | erase _ _ _ _ _ _ _ h => exact Or.inr ⟨h, hsame h⟩
      | accept b haccepts hacc => exact Or.inl ⟨b, haccepts, hacc⟩

theorem outComplete_of_data (hout : s.outReq = some req)
    (hmode : req.complete = .rxWriteLbaHandler)
    (h : rxWriteLbaHandler board c s (arrived c req) = .ok (t, req')) :
    outComplete board c s = .ok { t with outReq := some req' } := by
  rw [outComplete_eq_ok_iff hout, hmode]
  exact ⟨t, req', h, rfl⟩

end

end Burn
end CanmvK230
