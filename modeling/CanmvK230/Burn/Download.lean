import CanmvK230.Burn.Session

/-!
# Download — the data phase of `WRITE_LBA`, from the acceptance to `WRITE DONE`

The purpose of the data phase is simple to say: the bytes the host sends go to the medium in order,
from the accepted offset, and the packet that completes the announced size is answered `WRITE DONE`
(`DownloadCorrect`).  The gadget keeps the size and what it has taken of it in 64-bit counters, but
computes what it takes of a packet in 32 bits.  `loading_step` says what a packet really does, for
every size; `download_correct_iff` draws the line: the data phase is correct for the sizes below
`2 ^ 32`, and for every size from there on some delivery loses data.

The lemmas are about any medium that stores what it acknowledges (`Stores`), so that they can be used
for a back end as well as for the plain byte store of the main theorem.
-/

namespace CanmvK230
namespace Burn

open Lib

/-! ## Data completions and what they bring -/

section Steps

variable {μ : Type}

/-- A completion of the OUT request handled by `rx_write_lba_handler`, with status 0. -/
def DataStep (board : Board μ) (s : KburnUsb μ) (c : Completion) (t : KburnUsb μ) : Prop :=
  ∃ req, MayComplete s c req ∧ req.complete = .rxWriteLbaHandler ∧ c.status = 0 ∧
    0 < c.data.length ∧ outComplete board c s = .ok t

/-- All the bytes a sequence of completions brought, in order. -/
def received (cs : List Completion) : List UInt8 :=
  (cs.map Completion.data).flatten

@[simp] theorem received_nil : received [] = [] := rfl

@[simp] theorem received_snoc (cs : List Completion) (c : Completion) :
    received (cs ++ [c]) = received cs ++ c.data := by
  simp [received]

/-- The `WRITE_LBA` packet in `c` is accepted by `cb_write_lba`, with the offset and the size that
`cb_write_lba` reads from it. -/
def WriteAccepted (board : Board μ) (s : KburnUsb μ) (c : Completion) (offset size : UInt64)
    (t : KburnUsb μ) : Prop :=
  ∃ req req', MayComplete s c req ∧ req.complete = .rxCommandHandler ∧ c.status = 0 ∧
    0 < c.data.length ∧ outComplete board c s = .ok t ∧
    t.outReq = some req' ∧ req'.complete = .rxWriteLbaHandler ∧
    offset = lbaOffset (arrived c req) ∧ size = lbaSize (arrived c req)

/-- The medium answers the chunk of the packet with an error, or with another length. -/
def ChunkFails (u : KburnUsb μ) (c : Completion) : Prop :=
  ∃ req result xferSize m, MayComplete u c req ∧
    mediumAnswer u (arrived c req) = some (result, xferSize, m) ∧
    (result ≠ 0 ∨ xferSize ≠ (transferSize u (arrived c req).actual).toUInt64)

/-- `v` follows `u` by the completion that ends the download. -/
def Completed (c : Completion) (u v : KburnUsb μ) : Prop :=
  v.replies =
      u.replies ++ [csw c KburnPktCmd.writeLba.code KburnPktResult.ok.code (ascii "WRITE DONE")] ∧
    ∃ req, v.outReq = some req ∧ req.complete = .rxCommandHandler ∧ req.length = 131072

/-- `v` follows `u` and the download goes on: no reply, and the next packet is data again. -/
def InProgress (u v : KburnUsb μ) : Prop :=
  v.replies = u.replies ∧ ∃ req, v.outReq = some req ∧ req.complete = .rxWriteLbaHandler

end Steps

/-! ## The state of a download in progress -/

section Loading

variable {μ : Type}

/-- An accepted download: the burner it goes to and the announced range, which does not wrap. -/
structure Job (μ : Type) where
  burner : Kburn μ
  offset : Nat
  size : Nat
  noWrap : offset + size < 2 ^ 64

/-- How the back end is asked to store `chunk` when `got` has been stored before. -/
structure ChunkCall (job : Job μ) (got chunk : List UInt8) (offset : UInt64) (buf : ByteMem)
    (len : UInt64) : Prop where
  offset : offset.toNat = job.offset + got.length
  len : len.toNat = chunk.length
  buf : buf.read 0 chunk.length = chunk

variable (job : Job μ) (Holds : List UInt8 → μ → Prop) (w : WriteMedium μ)
  (P : List UInt8 → List UInt8 → Prop)

/-- A chunk in `P` that the back end acknowledges takes the medium from `Holds got` to
`Holds (got ++ chunk)`. -/
def Stores : Prop :=
  ∀ got chunk m offset buf len m', P got chunk → Holds got m → ChunkCall job got chunk offset buf len →
    w m offset buf len = some (0, len, m') → Holds (got ++ chunk) m'

/-- The back end acknowledges every chunk in `P`. -/
def Acks : Prop :=
  ∀ got chunk m offset buf len, P got chunk → Holds got m → ChunkCall job got chunk offset buf len →
    ∃ m', w m offset buf len = some (0, len, m')

/-- The gadget after the bytes `got` of the job were taken. -/
structure Loading (board : Board μ) (got : List UInt8) (t : KburnUsb μ) : Prop where
  burner : t.burner = some job.burner
  dlSize : t.dlSize.toNat = job.size
  dlBytes : t.dlBytes.toNat = got.length
  unfinished : got.length < job.size
  offset : t.offset.toNat = job.offset + got.length
  medium : Holds got t.medium
  bufHead : t.bufHead ≠ 0
  -- the request that carries the next packet, as long as the rest of the data asks for
  outReq : ∃ req, t.outReq = some req ∧ req.complete = .rxWriteLbaHandler ∧ 0 < req.queued ∧
    req.length = rxBytesExpected board t

/-- What the gadget takes of a further packet: as much as is missing, modulo `2 ^ 32`. -/
def chunkOf (size : Nat) (got data : List UInt8) : List UInt8 :=
  data.take ((size - got.length) % 2 ^ 32)

/-- What the gadget has taken after a further packet. -/
def taken (size : Nat) (got data : List UInt8) : List UInt8 :=
  got ++ chunkOf size got data

end Loading

section Lemmas

variable {μ : Type} {board : Board μ} {job : Job μ} {Holds : List UInt8 → μ → Prop}
  {w : WriteMedium μ} {P : List UInt8 → List UInt8 → Prop} {c : Completion} {got : List UInt8}
  {s t u : KburnUsb μ} {req : UsbRequest}

theorem length_taken_le {size : Nat} (data : List UInt8) (h : got.length ≤ size) :
    (taken size got data).length ≤ size := by
  have hmod : (size - got.length) % 2 ^ 32 ≤ size - got.length := Nat.mod_le _ _
  simp only [taken, chunkOf, List.length_append, List.length_take]
  omega

/-- Below `2 ^ 32` nothing is lost: the gadget takes all that is missing. -/
theorem taken_eq_take {size : Nat} (data : List UInt8) (h : got.length ≤ size)
    (hsize : size - got.length < 2 ^ 32) : taken size got data = (got ++ data).take size := by
  rw [taken, chunkOf, Nat.mod_eq_of_lt hsize, List.take_append, List.take_of_length_le h]

theorem remaining_of_loading (h : Loading job Holds board got t) :
    (t.dlSize - t.dlBytes).toNat = job.size - got.length := by
  have hle : t.dlBytes ≤ t.dlSize := by
    rw [UInt64.le_iff_toNat_le, h.dlSize, h.dlBytes]
    exact h.unfinished.le
  rw [UInt64.toNat_sub_of_le _ _ hle, h.dlSize, h.dlBytes]

theorem toNat_length_of_mayComplete (h : MayComplete s c req) :
    (UInt32.ofNat c.data.length).toNat = c.data.length := by
  have hlt : c.data.length < 2 ^ 32 := lt_of_le_of_lt h.2.2 req.length.toNat_lt
  rw [UInt32.toNat_ofNat']
  exact Nat.mod_eq_of_lt hlt

/-- The number of bytes taken of a packet. -/
theorem transferSize_of_loading (h : Loading job Holds board got t) (hmay : MayComplete t c req) :
    (transferSize t (arrived c req).actual).toNat =
      min c.data.length ((job.size - got.length) % 2 ^ 32) := by
  rw [toNat_transferSize, remaining_of_loading h]
  simp only [arrived, toNat_length_of_mayComplete hmay]

/-- The bytes taken of a packet. -/
theorem read_arrived (c : Completion) (req : UsbRequest) {k : Nat} (h : k ≤ c.data.length) :
    (arrived c req).buf.read 0 k = c.data.take k := by
  have hall : (arrived c req).buf.read 0 c.data.length = c.data := by
    simp [arrived]
  rw [← ByteMem.take_read _ 0 h, hall]

theorem take_transferSize (h : Loading job Holds board got t) (hmay : MayComplete t c req) :
    (arrived c req).buf.read 0 (transferSize t (arrived c req).actual).toNat =
      chunkOf job.size got c.data := by
  rw [chunkOf, transferSize_of_loading h hmay, read_arrived c req (Nat.min_le_left _ _), Nat.min_comm,
    ← List.take_eq_take_min]

theorem length_taken (h : Loading job Holds board got t) (hmay : MayComplete t c req) :
    (taken job.size got c.data).length =
      got.length + (transferSize t (arrived c req).actual).toNat := by
  rw [transferSize_of_loading h hmay]
  simp [taken, chunkOf, Nat.min_comm]

/-- The counters after a chunk do not wrap. -/
theorem toNat_dlBytes_add (h : Loading job Holds board got t) (hmay : MayComplete t c req) :
    (t.dlBytes + (transferSize t (arrived c req).actual).toUInt64).toNat =
      (taken job.size got c.data).length := by
  have hlen := length_taken h hmay
  have hle : (taken job.size got c.data).length ≤ job.size := length_taken_le c.data h.unfinished.le
  have hwrap := job.noWrap
  rw [UInt64.toNat_add, UInt32.toNat_toUInt64, h.dlBytes]
  omega

theorem toNat_offset_add (h : Loading job Holds board got t) (hmay : MayComplete t c req) :
    (t.offset + (transferSize t (arrived c req).actual).toUInt64).toNat =
      job.offset + (taken job.size got c.data).length := by
  have hlen := length_taken h hmay
  have hle : (taken job.size got c.data).length ≤ job.size := length_taken_le c.data h.unfinished.le
  have hwrap := job.noWrap
  rw [UInt64.toNat_add, UInt32.toNat_toUInt64, h.offset]
  omega

/-! ## One packet -/

/-- The chunk of a packet is answered by the job's burner. -/
theorem mediumAnswer_of_loading (h : Loading job Holds board got t)
    (hw : job.burner.writeMedium = some w) (req : UsbRequest) :
    mediumAnswer t req =
      w t.medium t.offset (chunkBuf t req) (transferSize t req.actual).toUInt64 := by
  simp [mediumAnswer, kburnWriteMedium, h.burner, hw]

theorem chunkCall_of_loading (h : Loading job Holds board got t) (hmay : MayComplete t c req) :
    ChunkCall job got (chunkOf job.size got c.data) t.offset (chunkBuf t (arrived c req))
      (transferSize t (arrived c req).actual).toUInt64 := by
  have hlen : (transferSize t (arrived c req).actual).toNat =
      (chunkOf job.size got c.data).length := by
    rw [← take_transferSize h hmay, ByteMem.length_read]
  refine ⟨h.offset, by rw [UInt32.toNat_toUInt64, hlen], ?_⟩
  rw [← hlen, read_chunkBuf, take_transferSize h hmay]

/-- A stored chunk extends what the medium holds of the job. -/
theorem holds_of_chunk {m : μ} (hstores : Stores job Holds w P) (h : Loading job Holds board got t)
    (hw : job.burner.writeMedium = some w) (hmay : MayComplete t c req)
    (hP : P got (chunkOf job.size got c.data))
    (hans : mediumAnswer t (arrived c req) =
      some (0, (transferSize t (arrived c req).actual).toUInt64, m)) :
    Holds (taken job.size got c.data) m := by
  rw [mediumAnswer_of_loading h hw] at hans
  exact hstores _ _ _ _ _ _ _ hP h.medium (chunkCall_of_loading h hmay) hans

/-- What one packet of a download does, whatever the size: the medium fails, or the packet was the
last one, or the download goes on, with the bytes of `taken` on the medium. -/
theorem loading_step (hstores : Stores job Holds w P) (h : Loading job Holds board got t)
    (hw : job.burner.writeMedium = some w) (hP : P got (chunkOf job.size got c.data))
    (hstep : DataStep board t c u) :
    ChunkFails t c ∨
      (job.size ≤ (taken job.size got c.data).length ∧ Completed c t u ∧
        Holds (taken job.size got c.data) u.medium) ∨
      ((taken job.size got c.data).length < job.size ∧ InProgress t u ∧
        Loading job Holds board (taken job.size got c.data) u) := by
  rcases hstep with ⟨req, hmay, hmode, hstatus, _, hrun⟩
  -- the gadget's test `dl_bytes >= dl_size` is the comparison of the lengths in the statement
  have hsum := toNat_dlBytes_add h hmay
  rcases outComplete_data hmay.1 hmode hrun with ⟨v, req', hhandler, rfl⟩
  rcases rxWriteLbaHandler_effect hhandler with ⟨t₁, hget, heffect⟩
  -- the double buffer is there, so `get_kburn_usb` changes nothing
  rw [getKburnUsb_of_bufHead_ne_zero h.bufHead] at hget
  cases hget
  cases heffect with
  | refused hbad _ => exact absurd hstatus hbad
  | failed r x m _ hans hbad _ =>
      exact Or.inl ⟨req, r, x, m, hmay, hans, hbad⟩
  | done m _ hans hdone htaken _ hreplies hcmd hlen _ =>
      have hholds := holds_of_chunk hstores h hw hmay hP hans
      have hsize : job.size ≤ (taken job.size got c.data).length := by
        rw [← hsum, ← h.dlSize]
        exact UInt64.le_iff_toNat_le.1 hdone
      refine Or.inr (Or.inl ⟨hsize, ⟨hreplies, req', rfl, hcmd, hlen⟩, ?_⟩)
      rw [← htaken.medium] at hholds
      exact hholds
  | more m _ hans hmore htaken hdl hreplies hcmd hlen hqueued =>
      have hholds := holds_of_chunk hstores h hw hmay hP hans
      have hsize : (taken job.size got c.data).length < job.size := by
        rw [← hsum, ← h.dlSize]
        exact Nat.lt_of_not_le fun hle => hmore (UInt64.le_iff_toNat_le.2 hle)
      rw [← htaken.medium] at hholds
      refine Or.inr (Or.inr ⟨hsize, ⟨hreplies, req', rfl, hcmd.trans hmode⟩, ?_⟩)
      exact
        { burner := htaken.burner.trans h.burner
          dlSize := (congrArg UInt64.toNat hdl).trans h.dlSize
          dlBytes := (congrArg UInt64.toNat htaken.dlBytes).trans hsum
          unfinished := hsize
          offset := (congrArg UInt64.toNat htaken.offset).trans (toNat_offset_add h hmay)
          medium := hholds
          bufHead := fun h0 => h.bufHead (htaken.bufHead.symm.trans h0)
          outReq := ⟨req', rfl, hcmd.trans hmode, by omega,
            hlen.trans (rxBytesExpected_congr rfl rfl)⟩ }

/-! ## From the acceptance on -/

/-- A command that leaves the OUT request to the data handler is an accepted `WRITE_LBA`. -/
theorem accepted_of_writeAccepted {offset size : UInt64} (h : WriteAccepted board s c offset size t) :
    ∃ req b v req₁, MayComplete s c req ∧ AcceptsWrite c s (arrived c req) b ∧
      Accepted board s (arrived c req) v req₁ ∧ t = { v with outReq := some (requeued req₁) } ∧
      offset = lbaOffset (arrived c req) ∧ size = lbaSize (arrived c req) := by
  rcases h with ⟨req, req', hmay, hmode, hstatus, hpos, hrun, hout, hdata, hoffset, hsize⟩
  have hlen : req.length ≠ 0 := length_ne_zero_of_mayComplete hmay hpos
  rcases outComplete_command hmay.1 hmode hrun with ⟨v, req'', hhandler, rfl⟩
  rcases rxCommandHandler_effect hstatus (show (arrived c req).length ≠ 0 from hlen) hhandler with
    ⟨req₁, heffect, rfl⟩
  -- every other effect leaves the request with `rx_command_handler`
  have hmode' : req₁.complete = .rxWriteLbaHandler := by
    cases hout
    exact hdata
  have hother : ¬ SameMode (arrived c req) req₁ := by
    intro hsame
    have hcmd : req₁.complete = .rxCommandHandler := hsame.complete.trans hmode
    simp [hmode'] at hcmd
  cases heffect with
  | quiet _ hsame => exact absurd hsame hother
  | probe _ _ hsame => exact absurd hsame hother
  | info _ _ _ hsame => exact absurd hsame hother
  | erase _ _ _ _ _ _ _ hsame => exact absurd hsame hother
  | accept b haccepts haccepted =>
      exact ⟨req, b, v, req₁, hmay, haccepts, haccepted, rfl, hoffset, hsize⟩

/-- Whether a packet is accepted does not depend on what the medium holds. -/
theorem WriteAccepted.with_medium {offset size : UInt64} (h : WriteAccepted board s c offset size t)
    (m : μ) : ∃ t', WriteAccepted board { s with medium := m } c offset size t' := by
  rcases accepted_of_writeAccepted h with ⟨req, b, v, req₁, hmay, haccepts, _, _, hoffset, hsize⟩
  rcases h with ⟨req', _, hmay', hmode, hstatus, hpos, _⟩
  have hreq : req' = req := Option.some.inj (hmay'.1.symm.trans hmay.1)
  subst hreq
  -- `cb_write_lba` looks at the burner and the packet, not at the hardware
  have hbuffer : getKburnUsb c { s with medium := m } ≠ none := by
    rcases Option.ne_none_iff_exists'.1 haccepts.buffer with ⟨s₁, hget⟩
    rcases getKburnUsb_cases hget with ⟨hhead, _⟩ | ⟨hheap, _⟩
    · simp [getKburnUsb, hhead]
    · by_cases hhead : s.bufHead = 0
      · simp [getKburnUsb, hhead, hheap]
      · simp [getKburnUsb, hhead]
  have haccepts' : AcceptsWrite c { s with medium := m } (arrived c req') b :=
    { haccepts with buffer := hbuffer }
  rcases dispatch_of_acceptsWrite board haccepts' with ⟨t', req₂, hdispatch, hdata⟩
  have hlen : (arrived c req').length ≠ 0 := fun h0 => length_ne_zero_of_mayComplete hmay hpos h0
  have hcomplete := outComplete_dispatch board (s := { s with medium := m }) hmay.1 hmode hstatus hlen
  rw [hdispatch] at hcomplete
  exact ⟨{ t' with outReq := some (requeued req₂) }, req', requeued req₂, hmay, hmode, hstatus, hpos,
    hcomplete, rfl, hdata, hoffset, hsize⟩

/-- An empty download is not accepted. -/
theorem WriteAccepted.size_pos {offset size : UInt64} (h : WriteAccepted board s c offset size t) :
    0 < size.toNat := by
  rcases accepted_of_writeAccepted h with ⟨_, _, _, _, _, haccepts, _, _, _, hsize⟩
  rw [hsize]
  exact toNat_pos_of_ne_zero haccepts.size

/-- The job of an accepted `WRITE_LBA`. -/
def jobOf (b : Kburn μ) (offset size : UInt64) (h : offset.toNat + size.toNat < 2 ^ 64) : Job μ where
  burner := b
  offset := offset.toNat
  size := size.toNat
  noWrap := h

variable (Holds) in
theorem loading_of_writeAccepted {b : Kburn μ} {offset size : UInt64}
    (hburner : s.burner = some b) (hwrap : offset.toNat + size.toNat < 2 ^ 64)
    (h : WriteAccepted board s c offset size t) (hholds : Holds [] s.medium) :
    Loading (jobOf b offset size hwrap) Holds board [] t := by
  have hpos := h.size_pos
  rcases accepted_of_writeAccepted h with
    ⟨req, b', v, req₁, hmay, haccepts, hacc, rfl, hoffset, hsize⟩
  have hlength : (requeued req₁).length = rxBytesExpected board v := hacc.length
  refine
    { burner := hacc.burner.trans hburner
      dlSize := congrArg UInt64.toNat (hacc.dlSize.trans hsize.symm)
      dlBytes := ?_
      unfinished := hpos
      offset := congrArg UInt64.toNat (hacc.offset.trans hoffset.symm)
      medium := ?_
      bufHead := hacc.bufHead
      outReq := ⟨requeued req₁, rfl, hacc.complete, Nat.succ_pos _, ?_⟩ }
  · simp [hacc.dlBytes]
  · rw [hacc.medium]
    exact hholds
  · rw [hlength]
    exact rxBytesExpected_congr rfl rfl

/-- An idle gadget with a ready burner accepts a `WRITE_LBA` of the host. -/
theorem Idle.writeAccepted {b : Kburn μ} {m : μ} (h : Idle (some b) m s) (board : Board μ)
    (offset size : UInt64) (hvalid : b.mediumInfo.valid = 1) (hsize : size ≠ 0)
    (hrange : ¬ offset + size > b.mediumInfo.capacity) :
    ∃ t, WriteAccepted board s (hostSends (lbaPkt .writeLba offset size)) offset size t := by
  rcases h.accepts board offset size hvalid hsize hrange _ rfl with
    ⟨req, v, req', hmay, hmode, _, _, hacc, hrun⟩
  refine ⟨_, req, requeued req', hmay, hmode, rfl, ?_, hrun, rfl, hacc.complete,
    (lbaOffset_arrived rfl).symm, (lbaSize_arrived rfl).symm⟩
  simp [hostSends, usbPktSize]

/-! ## A whole delivery below `2 ^ 32` -/

theorem mediumAnswer_of_acks (hacks : Acks job Holds w P) (h : Loading job Holds board got t)
    (hw : job.burner.writeMedium = some w) (hP : P got (chunkOf job.size got c.data))
    (hmay : MayComplete t c req) :
    ∃ m, mediumAnswer t (arrived c req) =
      some (0, (transferSize t (arrived c req).actual).toUInt64, m) := by
  rw [mediumAnswer_of_loading h hw]
  exact hacks _ _ _ _ _ _ hP h.medium (chunkCall_of_loading h hmay)

theorem not_chunkFails (hacks : Acks job Holds w P) (h : Loading job Holds board got t)
    (hw : job.burner.writeMedium = some w) (hP : P got (chunkOf job.size got c.data)) :
    ¬ ChunkFails t c := by
  rintro ⟨req, r, x, m, hmay, hans, hbad⟩
  rcases mediumAnswer_of_acks hacks h hw hP hmay with ⟨m', hans'⟩
  rw [hans] at hans'
  cases hans'
  simp at hbad

/-- With a medium that acknowledges, no data packet of an open download stops the handler. -/
theorem outComplete_returns (hacks : Acks job Holds w P) (h : Loading job Holds board got t)
    (hw : job.burner.writeMedium = some w) (hP : P got (chunkOf job.size got c.data))
    (hmay : MayComplete t c req) (hstatus : c.status = 0) :
    ∃ u, outComplete board c t = .ok u := by
  have hmode : req.complete = .rxWriteLbaHandler := by
    rcases h.outReq with ⟨req', hout, hmode', _⟩
    rw [hmay.1] at hout
    cases hout
    exact hmode'
  rcases mediumAnswer_of_acks hacks h hw hP hmay with ⟨m, hans⟩
  by_cases hdone : t.dlSize ≤ t.dlBytes + (transferSize t (arrived c req).actual).toUInt64
  · have hhandler := rxWriteLbaHandler_done board h.bufHead hstatus hans hdone
    exact ⟨_, outComplete_of_data hmay.1 hmode hhandler⟩
  · have hhandler := rxWriteLbaHandler_more board h.bufHead hstatus hans hdone
    exact ⟨_, outComplete_of_data hmay.1 hmode hhandler⟩

/-- A request that still carries data belongs to an open download. -/
theorem loading_of_open
    (h : Loading job Holds board got u ∨ ∃ req, u.outReq = some req ∧ req.complete = .rxCommandHandler)
    (hmay : MayComplete u c req) (hmode : req.complete = .rxWriteLbaHandler) :
    Loading job Holds board got u := by
  rcases h with hload | ⟨req', hout, hcmd⟩
  · exact hload
  · rw [hmay.1] at hout
    cases hout
    simp [hmode] at hcmd

/-- Below `2 ^ 32`, everything received so far is on the medium as long as the download is open and
no chunk was refused.  `R` and `Q` are what is known of the steps and of the delivery. -/
theorem loading_run {R : KburnUsb μ → Completion → KburnUsb μ → Prop}
    {Q : List Completion → Prop} (hR : ∀ u c v, R u c v → DataStep board u c v) (hstores : Stores job Holds w P)
    (hw : job.burner.writeMedium = some w) (hsize : job.size < 2 ^ 32)
    (hinit : ∀ cs c, Q (cs ++ [c]) → Q cs)
    (hP : ∀ cs c, Q (cs ++ [c]) → (received cs).length < job.size →
      P (received cs) (chunkOf job.size (received cs) c.data))
    (hgood : ∀ cs c u v, Q (cs ++ [c]) → Loading job Holds board (received cs) u → R u c v →
      ¬ ChunkFails u c)
    (hstart : Loading job Holds board [] t) {cs : List Completion} (hrun : Run R t cs u)
    (hQ : Q cs) :
    Loading job Holds board (received cs) u ∨
      ∃ req, u.outReq = some req ∧ req.complete = .rxCommandHandler := by
  refine hrun.snoc_induction (P := fun cs u => Q cs → Loading job Holds board (received cs) u ∨
    ∃ req, u.outReq = some req ∧ req.complete = .rxCommandHandler) (fun _ => Or.inl hstart) ?_ hQ
  intro cs v c u _ ih hstep hQ
  -- the step is a data step, so the download was still open before it
  have hload : Loading job Holds board (received cs) v := by
    rcases hR _ _ _ hstep with ⟨req', hmay, hmode, _⟩
    exact loading_of_open (ih (hinit cs c hQ)) hmay hmode
  rcases loading_step hstores hload hw (hP cs c hQ hload.unfinished) (hR _ _ _ hstep) with
    hbad | ⟨_, ⟨_, req, hout, hcmd, _⟩, _⟩ | ⟨hlt, _, hload'⟩
  · exact absurd hbad (hgood cs c v u hQ hload hstep)
  · exact Or.inr ⟨req, hout, hcmd⟩
  · left
    have htake := taken_eq_take c.data hload.unfinished.le
      (lt_of_le_of_lt (Nat.sub_le _ _) hsize)
    -- the packet does not reach the announced size, so nothing of it was cut off
    have hall : taken job.size (received cs) c.data = received (cs ++ [c]) := by
      rw [received_snoc, htake]
      rw [htake] at hlt
      refine List.take_of_length_le ?_
      simp only [List.length_take, List.length_append] at hlt ⊢
      omega
    rwa [hall] at hload'

/-! ## A delivery that loses data -/

/-- The request is long enough for the rest of the data. -/
theorem le_rxBytesExpected (h : Loading job Holds board got t) :
    min usbEpBufferSize (job.size - got.length) ≤ (rxBytesExpected board t).toNat := by
  rw [toNat_rxBytesExpected, remaining_of_loading h]
  split
  · exact Nat.min_le_left _ _
  · -- the rest fits in one request; `rx_bytes_expected` may round it up
    exact le_trans (Nat.min_le_right _ _) (Nat.le_add_right _ _)

/-- A packet that fits into the rest of the data and that the medium acknowledges is handled. -/
theorem exists_dataStep_of_loading (hacks : Acks job Holds w P) (h : Loading job Holds board got t)
    (hw : job.burner.writeMedium = some w) (hstatus : c.status = 0) (hpos : 0 < c.data.length)
    (hdata : c.data.length ≤ min usbEpBufferSize (job.size - got.length))
    (hP : P got (chunkOf job.size got c.data)) : ∃ u, DataStep board t c u := by
  rcases h.outReq with ⟨req, hout, hmode, hqueued, hlen⟩
  have hmay : MayComplete t c req := by
    refine ⟨hout, hqueued, ?_⟩
    rw [hlen]
    exact le_trans hdata (le_rxBytesExpected h)
  rcases outComplete_returns hacks h hw hP hmay hstatus with ⟨u, hu⟩
  exact ⟨u, req, hmay, hmode, hstatus, hpos, hu⟩

/-- The host can deliver the data in full requests. -/
theorem exists_dataStep (hacks : Acks job Holds w P) (h : Loading job Holds board got t)
    (hw : job.burner.writeMedium = some w) (data : List UInt8)
    (hdata : data.length = min usbEpBufferSize (job.size - got.length))
    (hP : P got (chunkOf job.size got data)) :
    ∃ u, DataStep board t (hostSends data) u := by
  have hpos : 0 < (hostSends data).data.length := by
    have hopen := h.unfinished
    have hlength : (hostSends data).data.length = min usbEpBufferSize (job.size - got.length) := hdata
    rw [hlength, usbEpBufferSize]
    omega
  exact exists_dataStep_of_loading hacks h hw rfl hpos hdata.le hP

end Lemmas

/-! ## The byte store -/

section ByteStore

variable {board : Board ByteMem} {job : Job ByteMem} {c : Completion} {s t u : KburnUsb ByteMem}

/-- The medium of the specification: it stores exactly what it is given. -/
def byteStoreWrite : WriteMedium ByteMem := fun m offset buf len =>
  some (0, len, m.write offset.toNat (buf.read 0 len.toNat))

/-- What the byte store holds after the bytes `got`. -/
def Written (base : ByteMem) (offset : Nat) (got : List UInt8) (m : ByteMem) : Prop :=
  m = base.write offset got

theorem stores_byteStoreWrite (base : ByteMem) :
    Stores job (Written base job.offset) byteStoreWrite fun _ _ => True := by
  intro got chunk m offset buf len m' _ hholds hcall h
  cases h
  rw [Written, hcall.offset, hcall.len, hcall.buf, hholds, ← ByteMem.write_append]

theorem acks_byteStoreWrite (base : ByteMem) :
    Acks job (Written base job.offset) byteStoreWrite fun _ _ => True := by
  intro got chunk m offset buf len _ _ _
  exact ⟨_, rfl⟩

/-- What the data phase is for.  Whatever was delivered so far and whatever packet comes next, its
handler returns; the medium then holds what was received, up to the announced size, and is unchanged
elsewhere; the completion that reaches the size, and no other, is answered `WRITE DONE` and gives the
OUT request back to commands. -/
def DownloadCorrect (board : Board ByteMem) (base : ByteMem) (offset size : UInt64)
    (t : KburnUsb ByteMem) : Prop :=
  ∀ cs u c req, Run (DataStep board) t cs u → MayComplete u c req →
    req.complete = .rxWriteLbaHandler → c.status = 0 → 0 < c.data.length →
    ∃ v, outComplete board c u = .ok v ∧
      v.medium = base.write offset.toNat ((received (cs ++ [c])).take size.toNat) ∧
      if (received cs).length < size.toNat ∧ size.toNat ≤ (received (cs ++ [c])).length then
        Completed c u v
      else
        InProgress u v

theorem downloadCorrect_of_lt {base : ByteMem} (hw : job.burner.writeMedium = some byteStoreWrite)
    {offset size : UInt64} (hoffset : job.offset = offset.toNat) (hsize : job.size = size.toNat)
    (hlt : job.size < 2 ^ 32) (hstart : Loading job (Written base job.offset) board [] t) :
    DownloadCorrect board base offset size t := by
  intro cs u c req hrun hmay hmode hstatus hpos
  rw [← hoffset, ← hsize]
  have hload : Loading job (Written base job.offset) board (received cs) u := by
    refine loading_of_open ?_ hmay hmode
    exact loading_run (Q := fun _ => True) (fun _ _ _ hstep => hstep) (stores_byteStoreWrite base) hw
      hlt (fun _ _ _ => trivial) (fun _ _ _ _ => trivial)
      (fun _ _ _ _ _ hload _ => not_chunkFails (acks_byteStoreWrite base) hload hw trivial) hstart
      hrun trivial
  rcases outComplete_returns (acks_byteStoreWrite base) hload hw trivial hmay hstatus with ⟨v, hv⟩
  have hstep : DataStep board u c v := ⟨req, hmay, hmode, hstatus, hpos, hv⟩
  have htake : taken job.size (received cs) c.data = (received (cs ++ [c])).take job.size := by
    rw [received_snoc]
    exact taken_eq_take c.data hload.unfinished.le (lt_of_le_of_lt (Nat.sub_le _ _) hlt)
  -- so the length taken reaches the size exactly when the length received does
  have hlen : (taken job.size (received cs) c.data).length =
      min job.size (received (cs ++ [c])).length := by
    rw [htake, List.length_take]
  rcases loading_step (stores_byteStoreWrite base) hload hw trivial hstep with
    hbad | ⟨hge, hcompleted, hholds⟩ | ⟨hopen, hprogress, hload'⟩
  · exact absurd hbad (not_chunkFails (acks_byteStoreWrite base) hload hw trivial)
  · refine ⟨v, hv, ?_, ?_⟩
    · rw [htake] at hholds
      exact hholds
    · rw [if_pos ⟨hload.unfinished, by omega⟩]
      exact hcompleted
  · refine ⟨v, hv, ?_, ?_⟩
    · have hholds := hload'.medium
      rw [htake] at hholds
      exact hholds
    · rw [if_neg (by omega)]
      exact hprogress

/-- From `2 ^ 32` missing bytes on, full requests lead to a packet of which the medium gets less than
the host sent.  The induction is on what the 32-bit counter believes to be missing. -/
theorem exists_lossy_delivery {base : ByteMem} (hw : job.burner.writeMedium = some byteStoreWrite)
    (hbase : ∀ a, base a = 0) :
    ∀ n got cs u, (job.size - got.length) % 2 ^ 32 = n → 2 ^ 32 ≤ job.size - got.length →
      Loading job (Written base job.offset) board got u → received cs = got →
      Run (DataStep board) t cs u →
      ∃ cs u c v, Run (DataStep board) t cs u ∧ DataStep board u c v ∧
        v.medium ≠ base.write job.offset ((received (cs ++ [c])).take job.size) := by
  intro n
  induction n using Nat.strong_induction_on with
  | _ n ih =>
      intro got cs u hn hlarge hload hgot hrun
      have hlarge' : usbEpBufferSize < job.size - got.length := by
        simp only [usbEpBufferSize]
        omega
      let data : List UInt8 := List.replicate usbEpBufferSize 1
      have hdata : data.length = usbEpBufferSize := List.length_replicate
      obtain ⟨c, hc, v, hstep⟩ : ∃ c, c.data = data ∧ ∃ v, DataStep board u c v :=
        ⟨hostSends data, rfl,
          exists_dataStep (acks_byteStoreWrite base) hload hw _
            (by rw [hdata, Nat.min_eq_left hlarge'.le]) trivial⟩
      have hlen : (taken job.size got c.data).length = got.length + min usbEpBufferSize n := by
        rw [taken, chunkOf, hn, List.length_append, List.length_take, hc, hdata, Nat.min_comm]
      have hopen : (taken job.size got c.data).length < job.size := by
        have := Nat.min_le_left usbEpBufferSize n
        omega
      have hload' : Loading job (Written base job.offset) board (taken job.size got c.data) v := by
        rcases loading_step (stores_byteStoreWrite base) hload hw trivial hstep with
          hbad | ⟨hge, _, _⟩ | ⟨_, _, hload'⟩
        · exact absurd hbad (not_chunkFails (acks_byteStoreWrite base) hload hw trivial)
        · omega
        · exact hload'
      by_cases hshort : n < usbEpBufferSize
      · -- the packet holds more bytes than the counter believes to be missing
        refine ⟨cs, u, c, v, hrun, hstep, ?_⟩
        intro heq
        have hlost : v.medium (job.offset + (got.length + n)) = 0 := by
          have hmedium : v.medium = base.write job.offset (taken job.size got c.data) :=
            hload'.medium
          rw [hmedium, ByteMem.write_of_le _ (by rw [hlen]; omega), hbase]
        have hidx : got.length + n < ((received (cs ++ [c])).take job.size).length := by
          simp only [received_snoc, hgot, hc, List.length_take, List.length_append, hdata]
          omega
        have hsent : ((received (cs ++ [c])).take job.size)[got.length + n] = 1 := by
          simp [hgot, hc, data, List.getElem_append_right]
        rw [heq, ByteMem.write_at _ _ hidx, hsent] at hlost
        exact absurd hlost (by decide)
      · -- a whole request is taken, and the counter believes in one request less
        have hfull : taken job.size got c.data = got ++ c.data := by
          rw [taken, chunkOf, hn, List.take_of_length_le (by rw [hc, hdata]; omega)]
        have hlen' : (got ++ c.data).length = got.length + usbEpBufferSize := by
          simp [hc, hdata]
        rw [hfull] at hload'
        simp only [usbEpBufferSize] at hlen' hshort
        refine ih (n - usbEpBufferSize) ?_ (got ++ c.data) (cs ++ [c]) v ?_ ?_ hload' ?_
          (hrun.snoc hstep)
        · simp only [usbEpBufferSize]
          omega
        · rw [hlen']
          simp only [usbEpBufferSize]
          omega
        · rw [hlen']
          omega
        · rw [received_snoc, hgot]

/-- The accepted size decides: below `2 ^ 32` every delivery is stored correctly, and from there on
some delivery is not. -/
theorem download_correct_iff (board : Board ByteMem) (s : KburnUsb ByteMem) (c₀ : Completion)
    (offset size : UInt64) (b : Kburn ByteMem) (hburner : s.burner = some b)
    (hw : b.writeMedium = some byteStoreWrite)
    (hrange : offset.toNat + size.toNat ≤ b.mediumInfo.capacity.toNat)
    (haccepted : ∃ t, WriteAccepted board s c₀ offset size t) :
    (∀ base t, WriteAccepted board { s with medium := base } c₀ offset size t →
        DownloadCorrect board base offset size t) ↔
      size.toNat < 2 ^ 32 := by
  have hwrap : offset.toNat + size.toNat < 2 ^ 64 :=
    lt_of_le_of_lt hrange b.mediumInfo.capacity.toNat_lt
  constructor
  · intro hcorrect
    by_contra hge
    rcases haccepted with ⟨t₀, hacc₀⟩
    -- on a medium full of zeros the missing bytes show
    rcases hacc₀.with_medium (fun _ => 0) with ⟨t, hacc⟩
    have hload := loading_of_writeAccepted (Written (fun _ => 0) offset.toNat)
      (s := { s with medium := fun _ => 0 }) hburner hwrap hacc (ByteMem.write_nil _ _).symm
    have hsize : 2 ^ 32 ≤ size.toNat := Nat.le_of_not_lt hge
    rcases exists_lossy_delivery hw (fun _ => rfl) _ [] [] t rfl (by simpa [jobOf] using hsize) hload
      rfl (Run.nil t) with ⟨cs, u, c, v, hrun, hstep, hlost⟩
    rcases hstep with ⟨req, hmay, hmode, hstatus, hpos, hv⟩
    rcases hcorrect _ t hacc cs u c req hrun hmay hmode hstatus hpos with ⟨v', hv', hmedium, _⟩
    rw [hv] at hv'
    cases hv'
    exact hlost hmedium
  · intro hlt base t hacc
    have hload := loading_of_writeAccepted (Written base offset.toNat)
      (s := { s with medium := base }) hburner hwrap hacc (ByteMem.write_nil _ _).symm
    exact downloadCorrect_of_lt hw rfl rfl hlt hload

/-- The gadget that waits for commands with an empty card behind it. -/
def cardReady (capacity : UInt64) : KburnUsb ByteMem :=
  { kburnSetAlt configured (kburnAdd (fun _ => 0) 4096) with
    burner := some (cardBurner capacity byteStoreWrite) }

theorem idle_cardReady (capacity : UInt64) :
    Idle (some (cardBurner capacity byteStoreWrite)) (fun _ => 0) (cardReady capacity) :=
  { idle_configured (fun _ => 0) 4096 (by decide) with burner := rfl }

/-- Four kilobytes, on a card of eight. -/
theorem download_correct_four_kilobytes :
    (∃ t, WriteAccepted (cardBoard 8192 byteStoreWrite) (cardReady 8192)
        (hostSends (lbaPkt .writeLba 0 4096)) 0 4096 t) ∧
      ∀ base t, WriteAccepted (cardBoard 8192 byteStoreWrite) { cardReady 8192 with medium := base }
          (hostSends (lbaPkt .writeLba 0 4096)) 0 4096 t →
        DownloadCorrect (cardBoard 8192 byteStoreWrite) base 0 4096 t := by
  have hacc := (idle_cardReady 8192).writeAccepted (cardBoard 8192 byteStoreWrite) 0 4096 rfl
    (by decide) (by decide)
  refine ⟨hacc, ?_⟩
  exact (download_correct_iff (cardBoard 8192 byteStoreWrite) (cardReady 8192)
    (hostSends (lbaPkt .writeLba 0 4096)) 0 4096 (cardBurner 8192 byteStoreWrite) rfl rfl (by decide)
    hacc).2 (by decide)

/-- Of a download of `2 ^ 32` bytes to an empty card of `2 ^ 33` the first full packet is lost. -/
theorem download_four_gigabytes_lost :
    ∃ t v, WriteAccepted (cardBoard (2 ^ 33) byteStoreWrite) (cardReady (2 ^ 33))
        (hostSends (lbaPkt .writeLba 0 (2 ^ 32))) 0 (2 ^ 32) t ∧
      DataStep (cardBoard (2 ^ 33) byteStoreWrite) t
        (hostSends (List.replicate usbEpBufferSize 1)) v ∧
      v.medium 0 = 0 ∧
      ¬ DownloadCorrect (cardBoard (2 ^ 33) byteStoreWrite) (fun _ => 0) 0 (2 ^ 32) t := by
  rcases (idle_cardReady (2 ^ 33)).writeAccepted (cardBoard (2 ^ 33) byteStoreWrite) 0 (2 ^ 32)
    rfl (by decide) (by decide) with ⟨t, hacc⟩
  have hload := loading_of_writeAccepted (Written (fun _ => 0) 0)
    (b := cardBurner (2 ^ 33) byteStoreWrite) rfl (by decide) hacc (ByteMem.write_nil _ _).symm
  have h32 : (2 ^ 32 : UInt64).toNat = 2 ^ 32 := by decide
  rcases exists_dataStep (acks_byteStoreWrite fun _ => 0) hload rfl
    (List.replicate usbEpBufferSize 1)
    (by rw [List.length_replicate]; simp only [jobOf, h32, usbEpBufferSize]; decide) trivial with
    ⟨v, hstep⟩
  -- `2 ^ 32` missing bytes are none in 32 bits
  have hnone : taken (2 ^ 32 : UInt64).toNat []
      (hostSends (List.replicate usbEpBufferSize 1)).data = [] := by
    simp [taken, chunkOf, h32]
  have hmedium : v.medium = fun _ => 0 := by
    rcases loading_step (stores_byteStoreWrite fun _ => 0) hload rfl trivial hstep with
      hbad | ⟨hge, _, _⟩ | ⟨_, _, hload'⟩
    · exact absurd hbad (not_chunkFails (acks_byteStoreWrite fun _ => 0) hload rfl trivial)
    · simp only [jobOf] at hge
      rw [hnone, h32] at hge
      exact absurd hge (by decide)
    · have hwritten := hload'.medium
      simp only [jobOf, hnone, Written, ByteMem.write_nil] at hwritten
      exact hwritten
  refine ⟨t, v, hacc, hstep, by rw [hmedium], ?_⟩
  intro hcorrect
  rcases hstep with ⟨req, hmay, hmode, hstatus, hpos, hv⟩
  rcases hcorrect [] t _ req (Run.nil t) hmay hmode hstatus hpos with ⟨v', hv', hwritten, _⟩
  rw [hv] at hv'
  cases hv'
  -- the first byte of the packet should be on the card
  have hsent : ∀ k n, 0 < k → 0 < n →
      ByteMem.write (fun _ => 0) 0 ((List.replicate n 1).take k) 0 = 1 := by
    intro k n hk hn
    have hin : 0 < ((List.replicate n (1 : UInt8)).take k).length := by
      simp [hk, hn]
    simpa using ByteMem.write_at (fun _ => 0) 0 hin
  rw [received_snoc, received_nil, List.nil_append, hmedium] at hwritten
  have hcell := congrFun hwritten 0
  rw [hostSends, UInt64.toNat_zero, hsent _ _ (by rw [h32]; decide) (by decide)] at hcell
  exact absurd hcell (by decide)

end ByteStore

end Burn
end CanmvK230
