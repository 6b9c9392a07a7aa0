import CanmvK230.Burn.Session

/-!
# Admission — which ranges of the medium a packet can reach

A packet makes the device change the medium in two ways: `cb_write_lba` accepts a download, or
`cb_erase_lba` calls `kburn_erase_medium`.  The range should lie inside the medium.  `cb_write_lba`
compares `offset + size` with the capacity in 64 bits, `cb_erase_lba` compares nothing.
`range_admission_iff` says what this admits, in every reachable state and for every packet.

The capacity in question is that of the probed device.  A burner reports it truthfully in every
reachable state (`burnerTruthful_of_reachable`), because `get_medium_info` copies it from the device.
-/

namespace CanmvK230
namespace Burn

open Lib

section

variable {μ : Type} {board : Board μ} {c : Completion} {s t : KburnUsb μ} {req : UsbRequest}

/-! ## What a burner reports is true -/

def BurnerTruthful (s : KburnUsb μ) : Prop :=
  ∀ b, s.burner = some b → b.CapacityKnown

theorem BurnerTruthful.of_burner (h : BurnerTruthful s) (hb : t.burner = s.burner) :
    BurnerTruthful t := by
  intro b hsome
  exact h b (hb.symm.trans hsome)

theorem burnerTruthful_kburnDisable (s : KburnUsb μ) : BurnerTruthful (kburnDisable s) := by
  intro b hb
  simp [kburnDisable] at hb

theorem BurnerTruthful.kburnSetAlt (h : BurnerTruthful s) (a : SetAlt) :
    BurnerTruthful (kburnSetAlt a s) := by
  unfold Burn.kburnSetAlt
  split
  · exact h
  · -- a failure behind the first endpoint tears everything down again
    split
    · exact burnerTruthful_kburnDisable s
    · exact h.of_burner rfl

/-- No command makes a burner report another capacity. -/
theorem BurnerTruthful.command {req' : UsbRequest} (h : BurnerTruthful s)
    (heffect : CommandEffect board c s req t req') : BurnerTruthful t := by
  cases heffect with
  | quiet hq _ => exact h.of_burner hq.burner
  | probe type hq _ =>
      -- a new burner has no valid information yet
      intro b hb
      rw [hq.burner] at hb
      exact capacityKnown_of_kburnProbeMedia hb
  | info b₀ hb₀ hq _ =>
      intro b hb
      rw [hq.burner] at hb
      cases hb
      exact capacityKnown_kburnGetMediumInfo (h b₀ hb₀)
  | accept _ _ hacc => exact h.of_burner hacc.burner
  | erase _ _ _ _ _ _ hq _ => exact h.of_burner hq.burner

theorem burner_of_dataEffect {req' : UsbRequest} (h : DataEffect board c s req t req') :
    t.burner = s.burner := by
  cases h with
  | refused _ hq => exact hq.burner
  | failed _ _ _ _ _ _ hlost => exact hlost.burner
  | done _ _ _ _ htaken _ _ _ _ _ => exact htaken.burner
  | more _ _ _ _ htaken _ _ _ _ _ => exact htaken.burner

theorem BurnerTruthful.outComplete (h : BurnerTruthful s) (hrun : outComplete board c s = .ok t) :
    BurnerTruthful t := by
  cases hout : s.outReq with
  | none => simp [Burn.outComplete, hout] at hrun
  | some req =>
      cases hmode : req.complete with
      | rxCommandHandler =>
          rcases outComplete_command hout hmode hrun with ⟨v, req', hhandler, rfl⟩
          refine BurnerTruthful.of_burner (s := v) ?_ rfl
          by_cases hgo : c.status ≠ 0 ∨ (arrived c req).length = 0
          · -- nothing is done with a completion that failed
            simp only [rxCommandHandler, if_pos hgo, Except.ok.injEq, Prod.mk.injEq] at hhandler
            rw [← hhandler.1]
            exact h
          · rw [not_or, not_not] at hgo
            rcases rxCommandHandler_effect hgo.1 hgo.2 hhandler with ⟨req₁, heffect, _⟩
            exact h.command heffect
      | rxWriteLbaHandler =>
          rcases outComplete_data hout hmode hrun with ⟨v, req', hhandler, rfl⟩
          rcases rxWriteLbaHandler_effect hhandler with ⟨s₁, hget, heffect⟩
          refine h.of_burner ?_
          exact (burner_of_dataEffect heffect).trans (quiet_of_getKburnUsb hget).burner

theorem BurnerTruthful.step {e : Event} (h : BurnerTruthful s) (hstep : GadgetStep board s e t) :
    BurnerTruthful t := by
  cases e with
  | setAlt a =>
      cases hstep
      exact h.kburnSetAlt a
  | disable =>
      cases hstep
      exact burnerTruthful_kburnDisable s
  | outComplete c =>
      rcases hstep with ⟨_, _, hrun⟩
      exact h.outComplete hrun

theorem burnerTruthful_of_reachable (h : Reachable board s) : BurnerTruthful s := by
  rcases h with ⟨m, bufHead, es, _, hrun⟩
  have hinit : BurnerTruthful (kburnAdd m bufHead) := by
    intro b hb
    simp [kburnAdd] at hb
  refine hrun.invariant hinit ?_
  intro s e t hs hstep
  exact hs.step hstep

/-! ## Which packets start a change -/

/-- The packet makes the device start changing the medium: a download was accepted, or
`kburn_erase_medium` was called, whether it has returned or not. -/
def StartsChange (board : Board μ) (c : Completion) (s : KburnUsb μ) : Prop :=
  match outComplete board c s with
  | .ok t => (∃ req, t.outReq = some req ∧ req.complete = .rxWriteLbaHandler) ∨ t.calls ≠ s.calls
  | .error f => f = .noReturn -- in command mode only the erase can hang

theorem startsChange_iff (hmay : MayComplete s c req) (hmode : req.complete = .rxCommandHandler)
    (hstatus : c.status = 0) (hpos : 0 < c.data.length) :
    StartsChange board c s ↔
      (∃ b, AcceptsWrite c s (arrived c req) b) ∨ ∃ b, Erases c s (arrived c req) b := by
  have hlen : (arrived c req).length ≠ 0 := fun h0 => length_ne_zero_of_mayComplete hmay hpos h0
  unfold StartsChange
  rw [outComplete_dispatch _ hmay.1 hmode hstatus hlen]
  constructor
  · cases hdispatch : dispatch board c s (arrived c req) with
    | error f =>
        intro hf
        rcases dispatch_error hdispatch with ⟨_, ⟨h, _⟩ | ⟨h, _⟩ | ⟨_, herases⟩⟩
        · simp [h] at hf
        · simp [h] at hf
        · exact Or.inr herases
    | ok p =>
        rcases p with ⟨t, req'⟩
        -- a step that only replies starts nothing
        have hquiet : SameMode (arrived c req) req' → t.calls = s.calls →
            ¬ ((∃ req₁, some (requeued req') = some req₁ ∧ req₁.complete = .rxWriteLbaHandler) ∨
              t.calls ≠ s.calls) := by
          rintro hsame hcalls (⟨req₁, hreq, hdata⟩ | hne)
          · cases hreq
            have hcmd : req'.complete = .rxCommandHandler := hsame.complete.trans hmode
            have hdata' : req'.complete = .rxWriteLbaHandler := hdata
            simp [hcmd] at hdata'
          · exact hne hcalls
        intro hstarts
        cases dispatch_effect hdispatch with
        | quiet hq hsame => exact absurd hstarts (hquiet hsame hq.calls)
        | probe _ hq hsame => exact absurd hstarts (hquiet hsame hq.calls)
        | info _ _ hq hsame => exact absurd hstarts (hquiet hsame hq.calls)
        | accept b haccepts _ => exact Or.inl ⟨b, haccepts⟩
        | erase b _ _ _ herases _ _ _ => exact Or.inr ⟨b, herases⟩
  · rintro (⟨b, haccepts⟩ | ⟨b, herases⟩)
    · rcases dispatch_of_acceptsWrite board haccepts with ⟨t, req', hdispatch, hdata⟩
      rw [hdispatch]
      exact Or.inl ⟨requeued req', rfl, hdata⟩
    · rcases dispatch_of_erases board herases with ⟨_, hdispatch⟩ | ⟨t, hdispatch, hcalls⟩
      · rw [hdispatch]
      · rw [hdispatch]
        right
        simp [hcalls]

/-! ## The ranges -/

/-- In 64 bits the comparison of `cb_write_lba` is right unless the sum wraps. -/
theorem inRange_iff {offset size capacity : UInt64} (h : ¬ offset + size > capacity) :
    offset.toNat + size.toNat ≤ capacity.toNat ↔ offset.toNat + size.toNat < 2 ^ 64 := by
  have hle : (offset + size).toNat ≤ capacity.toNat :=
    UInt64.le_iff_toNat_le.1 (UInt64.not_lt.1 h)
  have hcap := capacity.toNat_lt
  have hoffset := offset.toNat_lt
  have hsize := size.toNat_lt
  rw [UInt64.toNat_add] at hle
  omega

/-- The range of the packet is not empty and lies inside the probed medium, over the naturals. -/
def Admissible (c : Completion) (s : KburnUsb μ) (req : UsbRequest) : Prop :=
  ∃ b, s.burner = some b ∧ 0 < (lbaSize (arrived c req)).toNat ∧
    (lbaOffset (arrived c req)).toNat + (lbaSize (arrived c req)).toNat ≤ b.desc.capacity.toNat

/-- Whatever a 64-byte `WRITE_LBA` or `ERASE_LBA` starts lies inside the probed medium, exactly when
an accepted write does not wrap and an erase keeps to the medium by itself. -/
theorem range_admission_iff (board : Board μ) (s : KburnUsb μ) (hreach : Reachable board s)
    (c : Completion) (req : UsbRequest) (hmay : MayComplete s c req)
    (hmode : req.complete = .rxCommandHandler) (hstatus : c.status = 0)
    (h64 : c.data.length = usbPktSize) :
    (StartsChange board c s → Admissible c s req) ↔
      (∀ b, AcceptsWrite c s (arrived c req) b →
        (lbaOffset (arrived c req)).toNat + (lbaSize (arrived c req)).toNat < 2 ^ 64) ∧
      ∀ b, Erases c s (arrived c req) b →
        (lbaOffset (arrived c req)).toNat + (lbaSize (arrived c req)).toNat ≤
          b.desc.capacity.toNat := by
  have hpos : 0 < c.data.length := by
    rw [h64]
    decide
  have hnonzero : lbaSize (arrived c req) ≠ 0 → 0 < (lbaSize (arrived c req)).toNat := by
    intro hne
    exact toNat_pos_of_ne_zero hne
  -- a write is accepted against `medium_info.capacity`, which is the device's own
  have hcapacity : ∀ b, AcceptsWrite c s (arrived c req) b →
      b.mediumInfo.capacity = b.desc.capacity := by
    intro b haccepts
    exact burnerTruthful_of_reachable hreach b haccepts.burner haccepts.valid
  rw [startsChange_iff hmay hmode hstatus hpos]
  constructor
  · intro h
    constructor
    · intro b haccepts
      rcases h (Or.inl ⟨b, haccepts⟩) with ⟨b', hb', _, hrange⟩
      rw [haccepts.burner] at hb'
      cases hb'
      rw [← hcapacity b haccepts] at hrange
      exact (inRange_iff haccepts.inRange).1 hrange
    · intro b herases
      rcases h (Or.inr ⟨b, herases⟩) with ⟨b', hb', _, hrange⟩
      rw [herases.burner] at hb'
      cases hb'
      exact hrange
  · rintro ⟨hwrite, herase⟩ (⟨b, haccepts⟩ | ⟨b, herases⟩)
    · refine ⟨b, haccepts.burner, hnonzero haccepts.size, ?_⟩
      rw [← hcapacity b haccepts]
      exact (inRange_iff haccepts.inRange).2 (hwrite b haccepts)
    · exact ⟨b, herases.burner, hnonzero herases.size, herase b herases⟩

/-- A card that acknowledges every write. -/
def ackWrite : WriteMedium Unit := fun m _ _ len => some (0, len, m)

/-- A reachable gadget with a card of 1024 bytes, and a packet of the host on its way. -/
theorem exists_card_packet (pkt : List UInt8) (hlen : pkt.length = usbPktSize) :
    ∃ s req, Reachable (cardBoard 1024 ackWrite) s ∧ s.burner = some (cardBurner 1024 ackWrite) ∧
      s.bufHead ≠ 0 ∧ MayComplete s (hostSends pkt) req ∧ req.complete = .rxCommandHandler ∧
      req.length = 131072 := by
  rcases exists_ready (cardBoard 1024 ackWrite) () KburnMediaType.eMMC.code rfl with
    ⟨s, hreach, hidle⟩
  rcases hidle.mayComplete pkt (by rw [hlen]; decide) with ⟨req, hmay, hmode, hlength, _⟩
  exact ⟨s, req, hreach, hidle.burner, hidle.bufHead, hmay, hmode, hlength⟩

/-- `WRITE_LBA(0, 512)` on the card. -/
theorem range_admission_first_sector :
    ∃ s req, Reachable (cardBoard 1024 ackWrite) s ∧
      MayComplete s (hostSends (lbaPkt .writeLba 0 512)) req ∧
      (StartsChange (cardBoard 1024 ackWrite) (hostSends (lbaPkt .writeLba 0 512)) s →
        Admissible (hostSends (lbaPkt .writeLba 0 512)) s req) := by
  rcases exists_card_packet (lbaPkt .writeLba 0 512) (length_lbaPkt _ _ _) with
    ⟨s, req, hreach, hburner, _, hmay, hmode, _⟩
  refine ⟨s, req, hreach, hmay, ?_⟩
  refine (range_admission_iff _ s hreach _ req hmay hmode rfl (length_lbaPkt _ _ _)).2 ⟨?_, ?_⟩
  · intro b _
    rw [lbaOffset_arrived rfl, lbaSize_arrived rfl]
    decide
  · intro b herases
    have hcmd := herases.cmd
    rw [pktCmd_arrived rfl] at hcmd
    exact absurd hcmd (by decide)

theorem not_admissible_of_large {w : WriteMedium μ} {cmd : KburnPktCmd} {offset size : UInt64}
    (hburner : s.burner = some (cardBurner 1024 w))
    (hlarge : 1024 < offset.toNat + size.toNat) :
    ¬ Admissible (hostSends (lbaPkt cmd offset size)) s req := by
  rintro ⟨b, hb, _, hrange⟩
  rw [hburner] at hb
  cases hb
  rw [lbaOffset_arrived rfl, lbaSize_arrived rfl] at hrange
  exact absurd hrange (Nat.not_le.2 hlarge)

/-- On a card of 1024 bytes the 1024 bytes from `2 ^ 64 - 512` are accepted for writing, and the 1024
bytes from 1024 are erased. -/
theorem range_admission_fails :
    (∃ s req, Reachable (cardBoard 1024 ackWrite) s ∧
      MayComplete s (hostSends (lbaPkt .writeLba (2 ^ 64 - 512) 1024)) req ∧
      StartsChange (cardBoard 1024 ackWrite) (hostSends (lbaPkt .writeLba (2 ^ 64 - 512) 1024)) s ∧
      ¬ Admissible (hostSends (lbaPkt .writeLba (2 ^ 64 - 512) 1024)) s req) ∧
    (∃ s req, Reachable (cardBoard 1024 ackWrite) s ∧
      MayComplete s (hostSends (lbaPkt .eraseLba 1024 1024)) req ∧
      StartsChange (cardBoard 1024 ackWrite) (hostSends (lbaPkt .eraseLba 1024 1024)) s ∧
      ¬ Admissible (hostSends (lbaPkt .eraseLba 1024 1024)) s req) := by
  constructor
  · rcases exists_card_packet (lbaPkt .writeLba (2 ^ 64 - 512) 1024) (length_lbaPkt _ _ _) with
      ⟨s, req, hreach, hburner, hhead, hmay, hmode, hlength⟩
    refine ⟨s, req, hreach, hmay, ?_, not_admissible_of_large hburner (by decide +kernel)⟩
    refine (startsChange_iff hmay hmode rfl (by simp [hostSends, usbPktSize])).2
      (Or.inl ⟨cardBurner 1024 ackWrite, ?_⟩)
    -- the sum wraps to 512, which passes the comparison
    exact
      { buffer := by simp [getKburnUsb_of_bufHead_ne_zero hhead]
        cmd := pktCmd_arrived rfl
        fits := actual_lt_length (length_lbaPkt _ _ _) hlength
        dataSize := pktDataSize_lbaPkt rfl
        burner := hburner
        valid := rfl
        size := by rw [lbaSize_arrived rfl]; decide
        inRange := by rw [lbaOffset_arrived rfl, lbaSize_arrived rfl]; decide +kernel }
  · rcases exists_card_packet (lbaPkt .eraseLba 1024 1024) (length_lbaPkt _ _ _) with
      ⟨s, req, hreach, hburner, hhead, hmay, hmode, hlength⟩
    refine ⟨s, req, hreach, hmay, ?_, not_admissible_of_large hburner (by decide +kernel)⟩
    refine (startsChange_iff hmay hmode rfl (by simp [hostSends, usbPktSize])).2
      (Or.inr ⟨cardBurner 1024 ackWrite, ?_⟩)
    exact
      { buffer := by simp [getKburnUsb_of_bufHead_ne_zero hhead]
        cmd := pktCmd_arrived rfl
        fits := actual_lt_length (length_lbaPkt _ _ _) hlength
        dataSize := pktDataSize_lbaPkt rfl
        burner := hburner
        size := by rw [lbaSize_arrived rfl]; decide }

end

end Burn
end CanmvK230
