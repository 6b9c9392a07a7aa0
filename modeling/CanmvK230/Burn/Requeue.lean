import CanmvK230.Burn.Session

/-!
# Requeue — the OUT request is never lost, unless the medium fails or 2^32 bytes are announced

The gadget has one OUT request.  Between two completions it must be queued, once, and its handler
must match what the host is doing: sending commands, or sending the data of a download.  The host's
side of this is the ghost `Phase`: it counts the bytes the host has sent for an accepted download, and
looks neither at the handler nor at the gadget's counters.

The gadget counts on its own, and takes `transfer_size` bytes of a packet (`chunk_counts`).  Below
`2 ^ 32` bytes its count is the host's; from there on at least `2 ^ 32` bytes stay missing for ever.
`healthy_step`, `not_healthy_of_writeFails` and `not_healthy_of_overlong` say what one completion does
to the agreement of the two; `never_wedged_iff` says it for whole runs.
-/

namespace CanmvK230
namespace Burn

open Lib

section

variable {μ : Type} {board : Board μ} {c : Completion} {s t : KburnUsb μ} {req : UsbRequest}

/-! ## The two sides -/

/-- What the host is doing: sending commands, or the data of an accepted download of `size` bytes, of
which it has sent `sent`. -/
inductive Phase
  | command
  | download (size sent : Nat)
  deriving DecidableEq

/-- The completion hands a chunk to the medium, and the medium answers with an error or with another
length. -/
def WriteFails (c : Completion) (s : KburnUsb μ) : Prop :=
  ∃ req s₁ result xferSize m, s.outReq = some req ∧ req.complete = .rxWriteLbaHandler ∧
    getKburnUsb c s = some s₁ ∧ mediumAnswer s₁ (arrived c req) = some (result, xferSize, m) ∧
    (result ≠ 0 ∨ xferSize ≠ (transferSize s₁ (arrived c req).actual).toUInt64)

/-- A download starts when its `WRITE_LBA` is accepted; it ends when the medium fails, or when the
host has sent all its bytes. -/
inductive PhaseStep (c : Completion) (s : KburnUsb μ) (req : UsbRequest) : Phase → Phase → Prop
  | start {b : Kburn μ} : AcceptsWrite c s (arrived c req) b →
      PhaseStep c s req .command (.download (lbaSize (arrived c req)).toNat 0)
  | other : (∀ b, ¬ AcceptsWrite c s (arrived c req) b) → PhaseStep c s req .command .command
  | fail {size sent : Nat} : WriteFails c s → PhaseStep c s req (.download size sent) .command
  | finish {size sent : Nat} : ¬ WriteFails c s → size ≤ sent + c.data.length →
      PhaseStep c s req (.download size sent) .command
  | chunk {size sent : Nat} : ¬ WriteFails c s → sent + c.data.length < size →
      PhaseStep c s req (.download size sent) (.download size (sent + c.data.length))

/-- A completion with status 0 and at least one byte, followed on both sides. -/
def TrackedStep (board : Board μ) (x : KburnUsb μ × Phase) (c : Completion)
    (y : KburnUsb μ × Phase) : Prop :=
  ∃ req, MayComplete x.1 c req ∧ c.status = 0 ∧ 0 < c.data.length ∧
    outComplete board c x.1 = .ok y.1 ∧ PhaseStep c x.1 req x.2 y.2

/-- The OUT request is queued once, and its handler is the data handler exactly while a download is
in progress. -/
def Healthy (x : KburnUsb μ × Phase) : Prop :=
  ∃ req, x.1.outReq = some req ∧ req.queued = 1 ∧
    (req.complete = .rxWriteLbaHandler ↔ x.2 ≠ .command)

/-- The packet brings the last byte of a download of `2 ^ 32` bytes or more. -/
def Overlong (c : Completion) : Phase → Prop
  | .command => False
  | .download size sent => 2 ^ 32 ≤ size ∧ size ≤ sent + c.data.length

/-- The gadget's counters in a download of `size` bytes of which the host has sent `sent`. -/
structure CountsAs (s : KburnUsb μ) (size sent : Nat) : Prop where
  dlSize : s.dlSize.toNat = size
  sent_lt : sent < size
  short : size < 2 ^ 32 → s.dlBytes.toNat = sent
  long : 2 ^ 32 ≤ size → s.dlBytes.toNat + 2 ^ 32 ≤ size

def Counted (x : KburnUsb μ × Phase) : Prop :=
  ∀ size sent, x.2 = .download size sent → CountsAs x.1 size sent

/-! ## One completion -/

theorem complete_of_command (h : Healthy (s, .command)) (hout : s.outReq = some req) :
    req.complete = .rxCommandHandler ∧ req.queued = 1 := by
  rcases h with ⟨req', hout', hqueued, hmode⟩
  rw [hout] at hout'
  cases hout'
  refine ⟨?_, hqueued⟩
  cases hcomplete : req.complete with
  | rxCommandHandler => rfl
  | rxWriteLbaHandler => exact absurd rfl (hmode.1 hcomplete)

theorem complete_of_download {size sent : Nat} (h : Healthy (s, .download size sent))
    (hout : s.outReq = some req) : req.complete = .rxWriteLbaHandler ∧ req.queued = 1 := by
  rcases h with ⟨req', hout', hqueued, hmode⟩
  rw [hout] at hout'
  cases hout'
  exact ⟨hmode.2 (by simp), hqueued⟩

theorem toNat_actual_of_mayComplete (h : MayComplete s c req) :
    (arrived c req).actual.toNat = c.data.length :=
  toNat_actual_arrived (lt_of_le_of_lt h.2.2 req.length.toNat_lt)

/-- Every callback gives the request back, and only an accepted `WRITE_LBA` changes its handler. -/
theorem command_step (hmode : req.complete = .rxCommandHandler) (hqueued : req.queued = 1)
    (hmay : MayComplete s c req) (hstatus : c.status = 0) (hpos : 0 < c.data.length)
    (hrun : outComplete board c s = .ok t) :
    ∃ req', t.outReq = some req' ∧ req'.queued = 1 ∧
      ((req'.complete = .rxWriteLbaHandler ∧ t.dlSize = lbaSize (arrived c req) ∧ t.dlBytes = 0 ∧
          ∃ b, AcceptsWrite c s (arrived c req) b) ∨
        (req'.complete = .rxCommandHandler ∧ ∀ b, ¬ AcceptsWrite c s (arrived c req) b)) := by
  have hlen : (arrived c req).length ≠ 0 := fun h0 => length_ne_zero_of_mayComplete hmay hpos h0
  have hzero : (arrived c req).queued = 0 := by simp [arrived, hqueued]
  rcases outComplete_command_cases hmay.1 hmode hstatus hlen hrun with
    ⟨v, req₁, _, rfl, ⟨b, haccepts, hacc⟩ | ⟨hsame, hnone⟩⟩
  · refine ⟨requeued req₁, rfl, ?_, Or.inl ⟨hacc.complete, hacc.dlSize, hacc.dlBytes, b, haccepts⟩⟩
    simp [requeued, usbEpQueue, hacc.queued, hzero]
  · refine ⟨requeued req₁, rfl, ?_, Or.inr ⟨hsame.complete.trans hmode, hnone⟩⟩
    simp [requeued, usbEpQueue, hsame.queued, hzero]

/-- What the gadget has counted after a packet of `actual` bytes: below `2 ^ 32` bytes all that has
arrived; from there on `2 ^ 32` bytes are still missing, since the remainder is cut to 32 bits. -/
theorem chunk_counts {size sent : Nat} (h : CountsAs s size sent) (actual : UInt32) :
    (size < 2 ^ 32 → (s.dlBytes + (transferSize s actual).toUInt64).toNat =
        sent + min actual.toNat (size - sent)) ∧
      (2 ^ 32 ≤ size → (s.dlBytes + (transferSize s actual).toUInt64).toNat + 2 ^ 32 ≤ size) := by
  have hsent := h.sent_lt
  have hbound : s.dlSize.toNat < 2 ^ 64 := s.dlSize.toNat_lt
  have hsize := h.dlSize
  have hle : s.dlBytes.toNat ≤ s.dlSize.toNat := by
    by_cases hshort : size < 2 ^ 32
    · have hbytes := h.short hshort
      omega
    · have hbytes := h.long (Nat.not_lt.1 hshort)
      omega
  have htransfer : (transferSize s actual).toNat =
      min actual.toNat ((size - s.dlBytes.toNat) % 2 ^ 32) := by
    rw [toNat_transferSize, UInt64.toNat_sub_of_le _ _ (UInt64.le_iff_toNat_le.2 hle), hsize]
  have hsum : (s.dlBytes + (transferSize s actual).toUInt64).toNat =
      s.dlBytes.toNat + (transferSize s actual).toNat := by
    have hmod : (size - s.dlBytes.toNat) % 2 ^ 32 ≤ size - s.dlBytes.toNat := Nat.mod_le _ _
    rw [UInt64.toNat_add, UInt32.toNat_toUInt64]
    omega
  rw [hsum, htransfer]
  constructor
  · intro hshort
    rw [h.short hshort, Nat.mod_eq_of_lt (by omega)]
  · intro hlong
    -- a multiple of `2 ^ 32`, and not the first, is left when the remainder has been taken
    have hbytes := h.long hlong
    omega

/-- A completion that the medium does not spoil, and that does not end a download of `2 ^ 32` bytes,
keeps both sides together. -/
theorem healthy_step {x y : KburnUsb μ × Phase} (hhealthy : Healthy x) (hcounted : Counted x)
    (hstep : TrackedStep board x c y) (hgood : ¬ WriteFails c x.1) (hshort : ¬ Overlong c x.2) :
    Healthy y ∧ Counted y := by
  rcases x with ⟨s, ph⟩
  rcases y with ⟨t, ph'⟩
  dsimp only [TrackedStep] at hstep hgood hshort
  rcases hstep with ⟨req, hmay, hstatus, hpos, hrun, hphase⟩
  cases ph with
  | command =>
      -- the host's side starts a download exactly when the gadget's side does
      rcases complete_of_command hhealthy hmay.1 with ⟨hmode, hqueued⟩
      rcases command_step hmode hqueued hmay hstatus hpos hrun with
        ⟨req', hout, hqueued', ⟨hdata, hsize, hbytes, b, haccepts⟩ | ⟨hcmd, hnone⟩⟩
      · cases hphase with
        | other h => exact absurd haccepts (h b)
        | start haccepts' =>
            refine ⟨⟨req', hout, hqueued', by simp [hdata]⟩, ?_⟩
            intro size sent hn
            rcases Phase.download.inj hn with ⟨rfl, rfl⟩
            have hpos' : 0 < (lbaSize (arrived c req)).toNat :=
              Nat.pos_of_ne_zero fun h0 => haccepts'.size (UInt64.toNat_inj.1 h0)
            exact
              { dlSize := congrArg UInt64.toNat hsize
                sent_lt := hpos'
                short := fun _ => congrArg UInt64.toNat hbytes
                long := fun hlong => by simp only [hbytes, UInt64.toNat_zero]; omega }
      · cases hphase with
        | start h => exact absurd h (hnone _)
        | other _ =>
            refine ⟨⟨req', hout, hqueued', by simp [hcmd]⟩, ?_⟩
            intro size sent hn
            exact Phase.noConfusion hn
  | download size sent =>
      rcases complete_of_download hhealthy hmay.1 with ⟨hmode, hqueued⟩
      rcases outComplete_data hmay.1 hmode hrun with ⟨v, req', hhandler, rfl⟩
      rcases rxWriteLbaHandler_effect hhandler with ⟨s₁, hget, heffect⟩
      have hq := quiet_of_getKburnUsb hget
      have htransfer := transferSize_of_getKburnUsb hget (arrived c req).actual
      have hzero : (arrived c req).queued = 0 := by simp [arrived, hqueued]
      have hcounts : CountsAs s size sent := hcounted size sent rfl
      have hsent := hcounts.sent_lt
      have hsize := hcounts.dlSize
      have hactual := toNat_actual_of_mayComplete hmay
      rcases chunk_counts hcounts (arrived c req).actual with ⟨hbelow, habove⟩
      rw [hactual] at hbelow
      cases heffect with
      | refused hbad _ => exact absurd hstatus hbad
      | failed r x m _ hans hbad _ =>
          exact absurd ⟨req, s₁, r, x, m, hmay.1, hmode, hget, hans, hbad⟩ hgood
      | done m _ _ hdone _ _ _ hcmd _ hcnt =>
          rw [htransfer, hq.dlSize, hq.dlBytes, UInt64.le_iff_toNat_le, hsize] at hdone
          -- a download of `2 ^ 32` bytes is never done for the gadget
          have hlt : size < 2 ^ 32 := Nat.lt_of_not_le fun hlong => by
            have hleft := habove hlong
            omega
          have hend := hbelow hlt
          cases hphase with
          | fail h => exact absurd h hgood
          | chunk _ hmore => omega
          | finish _ _ =>
              refine ⟨⟨req', rfl, by rw [hcnt, hzero], by simp [hcmd]⟩, ?_⟩
              intro size' sent' hk
              exact Phase.noConfusion hk
      | more m _ _ hmore htaken hdl _ hcmd _ hcnt =>
          rw [htransfer, hq.dlSize, hq.dlBytes, UInt64.le_iff_toNat_le, hsize] at hmore
          cases hphase with
          | fail h => exact absurd h hgood
          | finish _ hend =>
              have hlt : size < 2 ^ 32 := Nat.lt_of_not_le fun hlong => hshort ⟨hlong, hend⟩
              have hall := hbelow hlt
              omega
          | chunk _ hlt =>
              have hcmd' : req'.complete = .rxWriteLbaHandler := hcmd.trans hmode
              refine ⟨⟨req', rfl, by rw [hcnt, hzero], by simp [hcmd']⟩, ?_⟩
              intro size' sent' hk
              rcases Phase.download.inj hk with ⟨rfl, rfl⟩
              have hbytes : v.dlBytes = s.dlBytes + (transferSize s (arrived c req).actual).toUInt64 := by
                rw [htaken.dlBytes, htransfer, hq.dlBytes]
              have hsize' : v.dlSize = s.dlSize := hdl.trans hq.dlSize
              refine ⟨(congrArg UInt64.toNat hsize').trans hsize, hlt, ?_, ?_⟩
              · intro hbound
                have hall := hbelow hbound
                simp only [hbytes]
                omega
              · intro hlong
                simp only [hbytes]
                exact habove hlong

/-- A completion that the medium spoils drives them apart: the request is not queued again. -/
theorem not_healthy_of_writeFails {x y : KburnUsb μ × Phase} (hhealthy : Healthy x)
    (hstep : TrackedStep board x c y) (hfails : WriteFails c x.1) : ¬ Healthy y := by
  rcases x with ⟨s, ph⟩
  rcases y with ⟨t, ph'⟩
  rcases hstep with ⟨req, hmay, hstatus, hpos, hrun, hphase⟩
  rcases hfails with ⟨req₀, s₁, r, x, m, hout, hmode, hget, hans, hbad⟩
  cases hmay.1.symm.trans hout
  have hqueued : req.queued = 1 := by
    rcases hhealthy with ⟨req', hout', hqueued, _⟩
    cases hmay.1.symm.trans hout'
    exact hqueued
  rcases outComplete_data hmay.1 hmode hrun with ⟨v, req', hhandler, rfl⟩
  rcases rxWriteLbaHandler_effect hhandler with ⟨s₂, hget', heffect⟩
  rw [hget] at hget'
  cases hget'
  -- of the four effects only the two that return the request unqueued are left
  have hback : req' = arrived c req := by
    cases heffect with
    | refused hst _ => rfl
    | failed r' x' m' _ _ _ _ => rfl
    | done m' _ hans' _ _ _ _ _ _ _ =>
        rw [hans] at hans'
        cases hans'
        simp at hbad
    | more m' _ hans' _ _ _ _ _ _ _ =>
        rw [hans] at hans'
        cases hans'
        simp at hbad
  rintro ⟨req'', hout'', hqueued'', _⟩
  cases hout''
  rw [hback] at hqueued''
  simp [arrived, hqueued] at hqueued''

/-- The packet that ends a download of `2 ^ 32` bytes drives them apart too: the gadget goes on
waiting for data. -/
theorem not_healthy_of_overlong {x y : KburnUsb μ × Phase} (hhealthy : Healthy x)
    (hcounted : Counted x) (hstep : TrackedStep board x c y) (hgood : ¬ WriteFails c x.1)
    (hlong : Overlong c x.2) : ¬ Healthy y := by
  rcases x with ⟨s, ph⟩
  rcases y with ⟨t, ph'⟩
  dsimp only [TrackedStep] at hstep hgood hlong
  rcases hstep with ⟨req, hmay, hstatus, hpos, hrun, hphase⟩
  cases ph with
  | command => exact hlong.elim
  | download size sent =>
      have hmode := (complete_of_download hhealthy hmay.1).1
      rcases outComplete_data hmay.1 hmode hrun with ⟨v, req', hhandler, rfl⟩
      rcases rxWriteLbaHandler_effect hhandler with ⟨s₁, hget, heffect⟩
      have hq := quiet_of_getKburnUsb hget
      have htransfer := transferSize_of_getKburnUsb hget (arrived c req).actual
      have hcounts : CountsAs s size sent := hcounted size sent rfl
      have hleft := (chunk_counts hcounts (arrived c req).actual).2 hlong.1
      -- the host is back to its commands
      have hcommand : ph' = .command := by
        cases hphase with
        | fail _ => rfl
        | finish _ _ => rfl
        | chunk _ hlt => exact absurd hlong.2 (Nat.not_le.2 hlt)
      -- and the request is not
      have hdata : req'.complete = .rxWriteLbaHandler := by
        cases heffect with
        | refused hbad _ => exact absurd hstatus hbad
        | failed r x m _ hans hbad _ =>
            exact absurd ⟨req, s₁, r, x, m, hmay.1, hmode, hget, hans, hbad⟩ hgood
        | done m _ _ hdone _ _ _ _ _ _ =>
            rw [htransfer, hq.dlSize, hq.dlBytes, UInt64.le_iff_toNat_le, hcounts.dlSize] at hdone
            omega
        | more m _ _ _ _ _ _ hcmd _ _ => exact hcmd.trans hmode
      rintro ⟨req'', hout'', _, hiff⟩
      cases hout''
      exact hiff.1 hdata hcommand

/-- Both sides have one outcome. -/
theorem trackedStep_deterministic (x : KburnUsb μ × Phase) (c : Completion)
    (y y' : KburnUsb μ × Phase) (h : TrackedStep board x c y) (h' : TrackedStep board x c y') :
    y = y' := by
  rcases h with ⟨req, hmay, _, _, hrun, hphase⟩
  rcases h' with ⟨req', hmay', _, _, hrun', hphase'⟩
  have hreq : req' = req := Option.some.inj (hmay'.1.symm.trans hmay.1)
  subst hreq
  have hgadget : y.1 = y'.1 := Except.ok.inj (hrun.symm.trans hrun')
  -- the premises of the five rules exclude each other
  refine Prod.ext hgadget ?_
  generalize x.2 = ph, y.2 = ph₁, y'.2 = ph₂ at hphase hphase'
  cases hphase with
  | start h =>
      cases hphase' with
      | start _ => rfl
      | other h' => exact absurd h (h' _)
  | other h =>
      cases hphase' with
      | start h' => exact absurd h' (h _)
      | other _ => rfl
  | fail h =>
      cases hphase' with
      | fail _ => rfl
      | finish h' _ => exact absurd h h'
      | chunk h' _ => exact absurd h h'
  | finish h hend =>
      cases hphase' with
      | fail h' => exact absurd h' h
      | finish _ _ => rfl
      | chunk _ hlt => exact absurd hend (Nat.not_le.2 hlt)
  | chunk h hlt =>
      cases hphase' with
      | fail h' => exact absurd h' h
      | finish _ hend => exact absurd hend (Nat.not_le.2 hlt)
      | chunk _ _ => rfl

/-! ## Whole runs -/

/-- The gadget right after the interface was configured, whatever it did before. -/
def justConfigured (s : KburnUsb μ) : KburnUsb μ × Phase :=
  (kburnSetAlt configured s, .command)

theorem healthy_justConfigured (s : KburnUsb μ) :
    Healthy (justConfigured s) ∧ Counted (justConfigured s) := by
  refine ⟨⟨usbEpQueue kburnStartEp, rfl, rfl, by simp [justConfigured, usbEpQueue, kburnStartEp]⟩, ?_⟩
  intro size sent hn
  exact Phase.noConfusion hn

/-- No packet of the run is refused by the medium, and none ends a download of `2 ^ 32` bytes. -/
def Unspoilt (board : Board μ) (x : KburnUsb μ × Phase) (cs : List Completion) : Prop :=
  ∀ pre c post y, cs = pre ++ c :: post → Run (TrackedStep board) x pre y →
    ¬ WriteFails c y.1 ∧ ¬ Overlong c y.2

/-- Every state of the run is healthy. -/
def HealthyRun (board : Board μ) (x : KburnUsb μ × Phase) (cs : List Completion) : Prop :=
  ∀ pre post y, cs = pre ++ post → Run (TrackedStep board) x pre y → Healthy y

theorem Unspoilt.of_append {x : KburnUsb μ × Phase} {cs cs' : List Completion}
    (h : Unspoilt board x (cs ++ cs')) : Unspoilt board x cs := by
  intro pre c post y hsplit hpre
  exact h pre c (post ++ cs') y (by simp [hsplit]) hpre

/-- Packet by packet, for a run that is known. -/
theorem Unspoilt.cons {x y : KburnUsb μ × Phase} {cs : List Completion}
    (hstep : TrackedStep board x c y) (hgood : ¬ WriteFails c x.1) (hshort : ¬ Overlong c x.2)
    (h : Unspoilt board y cs) : Unspoilt board x (c :: cs) := by
  intro pre c' post z hsplit hpre
  cases hpre with
  | nil _ =>
      cases hsplit
      exact ⟨hgood, hshort⟩
  | cons hfirst hrest =>
      cases hsplit
      cases trackedStep_deterministic _ _ _ _ hstep hfirst
      exact h _ c' post z rfl hrest

theorem unspoilt_nil (x : KburnUsb μ × Phase) : Unspoilt board x [] := by
  intro pre c post y hsplit _
  simp at hsplit

theorem healthy_run {x y : KburnUsb μ × Phase} {cs : List Completion} (hx : Healthy x ∧ Counted x)
    (hrun : Run (TrackedStep board) x cs y) (hgood : Unspoilt board x cs) :
    Healthy y ∧ Counted y := by
  refine hrun.snoc_induction
    (P := fun cs y => Unspoilt board x cs → Healthy y ∧ Counted y) (fun _ => hx) ?_ hgood
  intro cs y c z hpre ih hstep hgood
  rcases hgood cs c [] y rfl hpre with ⟨hc, hshort⟩
  rcases ih hgood.of_append with ⟨hhealthy, hcounted⟩
  exact healthy_step hhealthy hcounted hstep hc hshort

/-- The other way round: a run whose states are all healthy was not spoilt. -/
theorem unspoilt_of_healthyRun {x y : KburnUsb μ × Phase} {cs : List Completion}
    (hx : Healthy x ∧ Counted x) (hrun : Run (TrackedStep board) x cs y)
    (hall : HealthyRun board x cs) : Unspoilt board x cs := by
  refine hrun.snoc_induction
    (P := fun cs _ => HealthyRun board x cs → Unspoilt board x cs) (fun _ => unspoilt_nil x) ?_ hall
  intro cs y c z hpre ih hstep hall
  have hcs : Unspoilt board x cs := by
    refine ih ?_
    intro pre post w hsplit hw
    exact hall pre (post ++ [c]) w (by simp [hsplit]) hw
  rcases healthy_run hx hpre hcs with ⟨hhealthy, hcounted⟩
  have hz : Healthy z := hall (cs ++ [c]) [] z (by simp) (hpre.snoc hstep)
  have hgood : ¬ WriteFails c y.1 := fun h => not_healthy_of_writeFails hhealthy hstep h hz
  have hshort : ¬ Overlong c y.2 := fun h =>
    not_healthy_of_overlong hhealthy hcounted hstep hgood h hz
  intro pre c' post w hsplit hw
  -- either one of the packets before, or the last one
  rcases List.eq_nil_or_concat post with rfl | ⟨post', c'', rfl⟩
  · rcases List.append_inj' hsplit rfl with ⟨rfl, hlast⟩
    cases hlast
    cases Run.deterministic trackedStep_deterministic hpre hw
    exact ⟨hgood, hshort⟩
  · refine hcs pre c' post' w ?_ hw
    have hsplit' : cs ++ [c] = (pre ++ c' :: post') ++ [c''] := by simp [hsplit]
    exact (List.append_inj' hsplit' rfl).1

/-- In every run of a configured gadget the OUT request stays queued once and with the right handler,
in every state of the run, exactly when the medium refuses no packet of it and no download of
`2 ^ 32` bytes or more is sent to its end. -/
theorem never_wedged_iff (board : Board μ) (s : KburnUsb μ) (cs : List Completion)
    (y : KburnUsb μ × Phase) (hrun : Run (TrackedStep board) (justConfigured s) cs y) :
    (∀ pre post z, cs = pre ++ post → Run (TrackedStep board) (justConfigured s) pre z →
        Healthy z) ↔
      ∀ pre c post z, cs = pre ++ c :: post → Run (TrackedStep board) (justConfigured s) pre z →
        ¬ WriteFails c z.1 ∧ ¬ Overlong c z.2 := by
  constructor
  · intro hall
    exact unspoilt_of_healthyRun (healthy_justConfigured s) hrun hall
  · intro hgood pre post z hsplit hpre
    subst hsplit
    have hinit : Unspoilt board (justConfigured s) pre := Unspoilt.of_append hgood
    exact (healthy_run (healthy_justConfigured s) hpre hinit).1

/-- A packet of another command leaves the host with its commands. -/
theorem trackedStep_of_cmdPkt {cmd : KburnPktCmd} {data : List UInt8} (hne : cmd ≠ .writeLba)
    (hlen : data.length ≤ 59)
    (h : GadgetStep board s (.outComplete (hostSends (cmdPkt cmd data))) t) :
    TrackedStep board (s, .command) (hostSends (cmdPkt cmd data)) (t, .command) := by
  rcases h with ⟨req, hmay, hrun⟩
  have hpos : 0 < (hostSends (cmdPkt cmd data)).data.length := by
    have h64 : (hostSends (cmdPkt cmd data)).data.length = usbPktSize := length_cmdPkt cmd hlen
    rw [h64]
    decide
  refine ⟨req, hmay, rfl, hpos, hrun, .other ?_⟩
  intro b haccepts
  have hcode : cmd.code = KburnPktCmd.writeLba.code :=
    Eq.trans (pktCmd_arrived rfl).symm haccepts.cmd
  cases cmd with
  | writeLba => exact hne rfl
  | none => simp [KburnPktCmd.code] at hcode
  | devProbe => simp [KburnPktCmd.code] at hcode
  | devGetInfo => simp [KburnPktCmd.code] at hcode
  | eraseLba => simp [KburnPktCmd.code] at hcode
  | max => simp [KburnPktCmd.code] at hcode

/-- A host that sends commands is not sending data. -/
theorem not_writeFails_of_command (h : Healthy (s, .command)) : ¬ WriteFails c s := by
  rintro ⟨req, _, _, _, _, hout, hmode, _⟩
  simp [(complete_of_command h hout).1] at hmode

/-- The medium's answer is the one the chunk gets. -/
theorem not_writeFails {m : μ} (hout : s.outReq = some req) (hhead : s.bufHead ≠ 0)
    (hans : mediumAnswer s (arrived c req) =
      some (0, (transferSize s (arrived c req).actual).toUInt64, m)) : ¬ WriteFails c s := by
  rintro ⟨req', s₁, r, x, m', hout', _, hget, hans', hbad⟩
  rw [hout] at hout'
  cases hout'
  rw [getKburnUsb_of_bufHead_ne_zero hhead] at hget
  cases hget
  rw [hans] at hans'
  cases hans'
  simp at hbad

/-- A card that answers every write with `result`. -/
def answersWith (result : Int) : WriteMedium Unit := fun m _ _ len => some (result, len, m)

/-- What the host sends before its 512 bytes of data. -/
def upToData : List Completion :=
  [hostSends (cmdPkt .devProbe [KburnMediaType.eMMC.code, 0]), hostSends (cmdPkt .devGetInfo []),
    hostSends (lbaPkt .writeLba 0 512)]

/-- The gadget before the 512 bytes of data: nothing went wrong so far. -/
structure AwaitsData (result : Int) (s : KburnUsb Unit) (req : UsbRequest) : Prop where
  run : Run (TrackedStep (cardBoard 1024 (answersWith result)))
    (justConfigured (kburnAdd () 4096)) upToData (s, .download 512 0)
  unspoilt : ∀ cs, Unspoilt (cardBoard 1024 (answersWith result)) (s, .download 512 0) cs →
    Unspoilt (cardBoard 1024 (answersWith result)) (justConfigured (kburnAdd () 4096)) (upToData ++ cs)
  burner : s.burner = some (cardBurner 1024 (answersWith result))
  bufHead : s.bufHead ≠ 0
  counts : CountsAs s 512 0
  outReq : s.outReq = some req
  complete : req.complete = .rxWriteLbaHandler
  queued : req.queued = 1
  length : req.length = 512

theorem exists_awaitsData (result : Int) : ∃ s req, AwaitsData result s req := by
  rcases exists_cardReady 1024 (answersWith result) () with ⟨s₁, s₂, hstep₁, hstep₂, hidle⟩
  have hprobe := trackedStep_of_cmdPkt (by decide) (by decide) hstep₁
  have hinfo := trackedStep_of_cmdPkt (by decide) (by decide) hstep₂
  have hrange : ¬ (0 : UInt64) + 512 > 1024 := by decide
  rcases hidle.accepts (cardBoard 1024 (answersWith result)) 0 512 rfl (by decide)
    hrange _ rfl with ⟨req, v, req', hmay, hmode, hqueued, haccepts, hacc, hrun⟩
  let s₃ : KburnUsb Unit := { v with outReq := some (requeued req') }
  have hwrite : TrackedStep (cardBoard 1024 (answersWith result)) (s₂, .command)
      (hostSends (lbaPkt .writeLba 0 512)) (s₃, .download 512 0) := by
    refine ⟨req, hmay, rfl, by simp [hostSends, usbPktSize], hrun, ?_⟩
    have hstart := PhaseStep.start haccepts
    rw [lbaSize_arrived rfl] at hstart
    exact hstart
  -- every state up to here is healthy, with the host in its commands
  rcases healthy_justConfigured (kburnAdd () 4096) with ⟨h₀, hcounted₀⟩
  rcases healthy_step h₀ hcounted₀ hprobe (not_writeFails_of_command h₀) id with ⟨h₁, hcounted₁⟩
  rcases healthy_step h₁ hcounted₁ hinfo (not_writeFails_of_command h₁) id with ⟨h₂, hcounted₂⟩
  rcases healthy_step h₂ hcounted₂ hwrite (not_writeFails_of_command h₂) id with ⟨_, hcounted₃⟩
  have hcounts : CountsAs s₃ 512 0 := hcounted₃ 512 0 rfl
  refine ⟨s₃, requeued req', ?_⟩
  exact
    { run := .cons hprobe (.cons hinfo (.cons hwrite (.nil _)))
      unspoilt := fun cs h =>
        .cons hprobe (not_writeFails_of_command h₀) id
          (.cons hinfo (not_writeFails_of_command h₁) id
            (.cons hwrite (not_writeFails_of_command h₂) id h))
      burner := hacc.burner.trans hidle.burner
      bufHead := hacc.bufHead
      counts := hcounts
      outReq := rfl
      complete := hacc.complete
      queued := by simp [requeued, usbEpQueue, hacc.queued, arrived, hqueued]
      length := by
        have hsize : v.dlSize = 512 := hacc.dlSize.trans (lbaSize_arrived rfl)
        have hmaxpacket : (cardBoard 1024 (answersWith result)).maxpacket = 512 := rfl
        refine hacc.length.trans ?_
        simp only [rxBytesExpected, hsize, hacc.dlBytes, hmaxpacket]
        decide }

/-- The data. -/
def dataPkt : Completion := hostSends (List.replicate 512 0)

theorem length_dataPkt : dataPkt.data.length = 512 := List.length_replicate

variable {result : Int} {s₃ : KburnUsb Unit}

theorem AwaitsData.mayComplete (h : AwaitsData result s₃ req) : MayComplete s₃ dataPkt req := by
  refine ⟨h.outReq, by rw [h.queued]; decide, ?_⟩
  rw [length_dataPkt, h.length]
  decide

theorem AwaitsData.answer (h : AwaitsData result s₃ req) :
    mediumAnswer s₃ (arrived dataPkt req) =
      some (result, (transferSize s₃ (arrived dataPkt req).actual).toUInt64, s₃.medium) := by
  simp [mediumAnswer, kburnWriteMedium, h.burner, cardBurner, kburnGetMediumInfo, Kburn.ofProbe,
    cardOps, answersWith]

/-- A card that stores the data: the download completes, and the command after it is answered. -/
theorem never_wedged_download :
    ∃ y, Run (TrackedStep (cardBoard 1024 (answersWith 0))) (justConfigured (kburnAdd () 4096))
        (upToData ++ [dataPkt, hostSends (cmdPkt .devGetInfo [])]) y ∧ y.2 = .command ∧
      ∀ pre post z, upToData ++ [dataPkt, hostSends (cmdPkt .devGetInfo [])] = pre ++ post →
        Run (TrackedStep (cardBoard 1024 (answersWith 0))) (justConfigured (kburnAdd () 4096)) pre z →
          Healthy z := by
  rcases exists_awaitsData 0 with ⟨s₃, req, h⟩
  have hgood : ¬ WriteFails dataPkt s₃ := not_writeFails h.outReq h.bufHead h.answer
  -- the packet brings all 512 bytes
  have hactual := toNat_actual_of_mayComplete h.mayComplete
  have hall := (chunk_counts h.counts (arrived dataPkt req).actual).1 (by decide)
  rw [hactual, length_dataPkt] at hall
  have hdone : s₃.dlSize ≤
      s₃.dlBytes + (transferSize s₃ (arrived dataPkt req).actual).toUInt64 := by
    rw [UInt64.le_iff_toNat_le, hall, h.counts.dlSize]
    decide
  have hhandler := rxWriteLbaHandler_done (cardBoard 1024 (answersWith 0)) (c := dataPkt) h.bufHead rfl
    h.answer hdone
  have hrun := outComplete_of_data h.outReq h.complete hhandler
  generalize hs₄ : ({ kburnTxStringResult dataPkt .writeLba .ok "WRITE DONE"
      (doneState s₃ (arrived dataPkt req) s₃.medium) with
    outReq := some (usbEpQueue { arrived dataPkt req with
      complete := .rxCommandHandler, length := 131072, actual := 0 }) } : KburnUsb Unit) = s₄ at hrun
  have hidle : Idle (some (cardBurner 1024 (answersWith 0))) s₄.medium s₄ := by
    have hq := quiet_kburnTxResult (c := dataPkt) .writeLba .ok (ascii "WRITE DONE")
      (doneState s₃ (arrived dataPkt req) s₃.medium)
    have hhead := bufHead_kburnTxResult (c := dataPkt) .writeLba .ok (ascii "WRITE DONE")
      (doneState s₃ (arrived dataPkt req) s₃.medium)
    subst hs₄
    refine ⟨hq.burner.trans h.burner, rfl, hhead.trans_ne h.bufHead, _, rfl, rfl, rfl, ?_⟩
    simp [usbEpQueue, arrived, h.queued]
  have hdata : TrackedStep (cardBoard 1024 (answersWith 0)) (s₃, .download 512 0) dataPkt
      (s₄, .command) :=
    ⟨req, h.mayComplete, rfl, by rw [length_dataPkt]; decide, hrun,
      .finish hgood (by rw [length_dataPkt])⟩
  rcases hidle.getInfo (cardBoard 1024 (answersWith 0)) with ⟨s₅, hstep, _⟩
  have hinfo := trackedStep_of_cmdPkt (by decide) (by decide) hstep
  have hlast := Run.append h.run (.cons hdata (.cons hinfo (.nil _)))
  refine ⟨(s₅, .command), hlast, rfl, ?_⟩
  refine (never_wedged_iff (cardBoard 1024 (answersWith 0)) (kburnAdd () 4096) _ _ hlast).2 ?_
  -- 512 bytes are not `2 ^ 32`
  have hshort : ¬ Overlong dataPkt (.download 512 0) := fun hlong => absurd hlong.1 (by decide)
  have hcommand : ¬ WriteFails (hostSends (cmdPkt .devGetInfo [])) s₄ := by
    rintro ⟨req', _, _, _, _, hout, hmode, _⟩
    rcases hidle.outReq with ⟨req'', hout', hmode', _⟩
    cases hout.symm.trans hout'
    simp [hmode'] at hmode
  exact h.unspoilt _ (.cons hdata hgood hshort (.cons hinfo hcommand id (unspoilt_nil _)))

/-- A card that refuses the data: the request is not queued any more. -/
theorem wedged_after_write_error :
    ∃ y, Run (TrackedStep (cardBoard 1024 (answersWith (-5)))) (justConfigured (kburnAdd () 4096))
        (upToData ++ [dataPkt]) y ∧
      y.2 = .command ∧
      (∃ req, y.1.outReq = some req ∧ req.queued = 0 ∧ req.complete = .rxWriteLbaHandler) ∧
      ¬ Healthy y := by
  rcases exists_awaitsData (-5) with ⟨s₃, req, h⟩
  have hfails : WriteFails dataPkt s₃ :=
    ⟨req, s₃, _, _, _, h.outReq, h.complete, getKburnUsb_of_bufHead_ne_zero h.bufHead, h.answer,
      Or.inl (by decide)⟩
  rcases rxWriteLbaHandler_failed (cardBoard 1024 (answersWith (-5))) (s := s₃) (c := dataPkt)
    h.bufHead rfl h.answer (Or.inl (by decide)) with ⟨w, hhandler⟩
  have hlast : TrackedStep (cardBoard 1024 (answersWith (-5))) (s₃, .download 512 0) dataPkt
      ({ w with outReq := some (arrived dataPkt req) }, .command) :=
    ⟨req, h.mayComplete, rfl, by rw [length_dataPkt]; decide,
      outComplete_of_data h.outReq h.complete hhandler, .fail hfails⟩
  have hzero : (arrived dataPkt req).queued = 0 := by
    simp [arrived, h.queued]
  refine ⟨({ w with outReq := some (arrived dataPkt req) }, .command), ?_, rfl, ?_, ?_⟩
  · exact Run.append h.run (.cons hlast (.nil _))
  · exact ⟨_, rfl, hzero, h.complete⟩
  · rintro ⟨req'', hout, hqueued'', _⟩
    cases hout
    omega

end

end Burn
end CanmvK230
