import CanmvK230.Boot.Windows

/-!
# Atomic — what a `k230_boot` command that fails leaves behind

`do_k230_boot` stores the medium its first argument names in `g_boot_medium` before it loads anything,
and `g_boot_medium` also decides where the environment is stored. The words of both arguments are
matched by chains of comparisons without a last `else`, so a word outside the documented grammar
passes.

Main results:
* `outcome_of_no_imageAt`, `ret_ne_zero_of_k230ImgBootSysBin`: a command that comes back reports an
  error;
* `atomic_iff`: the commands that leave nothing behind when they fail, and load only what was named.
-/

namespace CanmvK230
namespace Boot

open Lib

/-! ## The environment -/

inductive EnvLocation where
  | unknown
  | nowhere
  | spiFlash
  | spinand
  | mmc
deriving DecidableEq, Repr

def mmcGetEnvDev (gBootMedium : Nat) : Nat :=
  if gBootMedium = bootMediumSdio1 then 1 else 0

/-- `envIsNowhere` is `CONFIG_ENV_IS_NOWHERE`. -/
def archEnvGetLocation (envIsNowhere : Bool) (gBootMedium : Nat) (prio : Int) : EnvLocation :=
  if prio ≠ 0 then .unknown
  else if envIsNowhere then .nowhere
  else if gBootMedium = bootMediumNorflash then .spiFlash
  else if gBootMedium = bootMediumNandflash then .spinand
  else .mmc

/-! ## The grammar of the help text -/

def mediumWords : List String := ["auto", "sdio1", "sdio0", "spinor", "spinand"]

def systemWords : List String :=
  ["auto_boot", "rtt", "linux", "qbc", "fdb", "sensor", "ai", "speckle", "rtapp", "uboot"]

inductive Documented : List String → Prop
  | pair {cmd medium system : String} (hmedium : medium ∈ mediumWords)
      (hsystem : system ∈ systemWords) : Documented [cmd, medium, system]
  | mem {cmd address length : String} : Documented [cmd, "mem", address, length]

/-! ## The property -/

/-- The system selector of a load that the command starts. -/
def loadAttempted (c : Command) (s : Session) : Option (Option BootSys) :=
  match c.args s with
  | .error _ => none
  | .ok args => if args.sys = some .addr then none else some args.sys

/-- The system that the second argument names. -/
def systemArg : List String → Option BootSys
  | _ :: _ :: arg₂ :: _ => sysNamed arg₂ none
  | _ => none

/-- The image of the command is given control. -/
def HandedOver (c : Command) (s : Session) : Prop :=
  ∃ entry, (c.run s).outcome = .handedOver entry

/-- A command with other arguments, or whose image is not booted, comes back with an error and with
the old medium, so that the environment stays where it was; and only a system that the arguments name
is ever loaded. -/
structure Atomic (c : Command) (s : Session) : Prop where
  refused : ¬ Documented c.argv ∨ ¬ HandedOver c s →
    (∃ ret, ret ≠ 0 ∧ (c.run s).outcome = .returned ret) ∧
      (c.run s).session.gBootMedium = s.gBootMedium ∧
      (∀ envIsNowhere prio, archEnvGetLocation envIsNowhere (c.run s).session.gBootMedium prio =
        archEnvGetLocation envIsNowhere s.gBootMedium prio) ∧
      mmcGetEnvDev (c.run s).session.gBootMedium = mmcGetEnvDev s.gBootMedium
  named : ∀ sys, loadAttempted c s = some sys → sys ≠ none ∧ systemArg c.argv = sys

/-! ## The condition -/

/-- The medium that the arguments leave in `g_boot_medium`. -/
def selectedMedium (argv : List String) (gBootMedium : Nat) : Nat :=
  match argv with
  | _ :: arg₁ :: _ :: _ => if arg₁ = "mem" then gBootMedium else bootmodNamed arg₁ gBootMedium
  | _ => gBootMedium

/-- The image that the command hands on boots. -/
def Boots (c : Command) (s : Session) : Prop :=
  ∃ pfh m entry, imageAt c s = some (pfh, m) ∧
    (k230ImgBootSysBin c.world.pl c.world.unzip m pfh).outcome = .handedOver entry

/-- The boot path does not find the end of a loop over the image. -/
def Hangs (c : Command) (s : Session) : Prop :=
  ∃ pfh m, imageAt c s = some (pfh, m) ∧
    (k230ImgBootSysBin c.world.pl c.world.unzip m pfh).outcome = .stuck

/-- The word that the second chain of comparisons sees. -/
def systemWord : List String → Option String
  | _ :: arg₁ :: arg₂ :: _ => if arg₁ = "mem" then none else some arg₂
  | _ => none

/-- That word is a system, or the stack happens to hold the selector of the `mem` command. -/
def SystemKnown (c : Command) : Prop :=
  ∀ arg, systemWord c.argv = some arg → sysNamed arg none ≠ none ∨ c.world.sys = some .addr

structure AtomicWhen (c : Command) (s : Session) : Prop where
  /-- Only documented arguments lead to an image that boots. -/
  documented : Boots c s → Documented c.argv
  /-- Without a boot the boot path comes to its end, and the named medium was the old one. -/
  failed : ¬ Boots c s → ¬ Hangs c s ∧ selectedMedium c.argv s.gBootMedium = s.gBootMedium
  known : SystemKnown c

/-! ## Errors of the boot path -/

@[simp] theorem orRet_eq_error {α : Type} {ret e : Int} {o : Option α} :
    orRet ret o = .error e ↔ o = none ∧ ret = e := by
  cases o <;> simp [orRet]

@[simp] theorem checkRet_eq_error {ret e : Int} {c : Bool} :
    checkRet ret c = .error e ↔ c = false ∧ ret = e := by
  cases c <;> simp [checkRet]

@[simp] theorem except_bind_eq_error {α β : Type} {x : Except Int α} {f : α → Except Int β} {e : Int} :
    (x >>= f) = .error e ↔ x = .error e ∨ ∃ a, x = .ok a ∧ f a = .error e := by
  cases x <;> simp [bind, Except.bind]

@[simp] theorem except_map_eq_error {α β : Type} {x : Except Int α} {f : α → β} {e : Int} :
    f <$> x = .error e ↔ x = .error e := by
  cases x <;> simp [Functor.map, Except.map]

section
variable {pl : Platform} {z : Unzip} {m : ByteMem} {pfh : Nat} {ret : Int}

theorem ret_ne_zero_of_checkPuk {block : PukBlock} {algo : HashAlgo} {puk : List UInt8}
    (h : checkPuk pl.pufs block algo puk = .error ret) : ret ≠ 0 := by
  simp only [checkPuk, except_bind_eq_error, orRet_eq_error, checkRet_eq_error] at h
  rcases h with ⟨_, rfl⟩ | ⟨_, _, ⟨_, rfl⟩ | ⟨_, _, ⟨_, rfl⟩ | ⟨_, _, _, rfl⟩⟩⟩ <;> decide

theorem ret_ne_zero_of_decSecure (h : decSecure pl.pufs m pfh = .error ret) : ret ≠ 0 := by
  simp only [decSecure] at h
  split_ifs at h
  · simp only [decInternational, except_bind_eq_error, orRet_eq_error, checkRet_eq_error] at h
    rcases h with hpuk | ⟨_, _, ⟨_, rfl⟩ | ⟨_, _, _, rfl⟩⟩
    · exact ret_ne_zero_of_checkPuk hpuk
    · decide
    · decide
  · simp only [decChinese, except_bind_eq_error, orRet_eq_error, checkRet_eq_error] at h
    rcases h with hpuk | ⟨_, _, ⟨_, rfl⟩ | ⟨_, _, _, rfl⟩⟩
    · exact ret_ne_zero_of_checkPuk hpuk
    · decide
    · decide
  · simp only [decGcmOnly, orRet_eq_error] at h
    rcases h with ⟨_, rfl⟩
    decide
  · cases h
    decide

theorem ret_ne_zero_of_check (h : k230BootCheckAndGetPlainData pl m pfh = .error ret) : ret ≠ 0 := by
  simp only [k230BootCheckAndGetPlainData] at h
  split_ifs at h
  · cases h
    decide
  · simp only [checkNoneSecurity, except_bind_eq_error] at h
    rcases h with h | ⟨_, _, h⟩
    · split_ifs at h
      · simp only [except_bind_eq_error, orRet_eq_error, checkRet_eq_error] at h
        rcases h with ⟨_, rfl⟩ | ⟨_, _, ⟨_, rfl⟩ | ⟨_, _, _, rfl⟩⟩ <;> decide
      · rcases checkRet_eq_error.1 h with ⟨_, rfl⟩
        decide
    · cases h
  · rw [securiy_eq_dec] at h
    exact ret_ne_zero_of_decSecure (except_map_eq_error.1 h)
  · cases h
    decide

theorem ret_ne_zero_of_unpackAndRun {pUh data len : Nat}
    (h : (unpackAndRun z m pUh data len).outcome = .returned ret) : ret ≠ 0 := by
  simp only [unpackAndRun] at h
  cases hret : (k230BootDecompToLoadAddr z m pUh 0x6000000 data len).ret with
  | none => simp [hret] at h
  | some ret' =>
      simp only [hret] at h
      split at h
      · cases h
      · rename_i hne
        cases h
        exact hne

/-- An image that is not booted is reported. -/
theorem ret_ne_zero_of_k230ImgBootSysBin
    (h : (k230ImgBootSysBin pl z m pfh).outcome = .returned ret) : ret ≠ 0 := by
  unfold k230ImgBootSysBin at h
  cases hcheck : k230BootCheckAndGetPlainData pl m pfh with
  | error ret' =>
      rw [hcheck] at h
      cases h
      exact ret_ne_zero_of_check hcheck
  | ok plain =>
      simp only [hcheck] at h
      simp only [bootPlain] at h
      split_ifs at h
      · simp only [k230BootRttUimage] at h
        split at h
        · cases h
        · exact ret_ne_zero_of_unpackAndRun h
      · simp only [k230BootUbootUimage] at h
        exact ret_ne_zero_of_unpackAndRun h
      · cases h
        decide
      · cases h
        decide

end

/-! ## One command -/

section
variable {c : Command} {s : Session}

/-- The only error of the arguments is a missing one. -/
theorem ret_of_args {ret : Int} (hargs : c.args s = .error ret) : ret = cmdRetUsage := by
  unfold Command.args k230BootPrepareArgs at hargs
  split at hargs
  · split_ifs at hargs
    split at hargs
    · cases hargs
      rfl
    · cases hargs
  · cases hargs
    rfl

/-- A command that hands no image on comes back with an error. -/
theorem outcome_of_no_imageAt (h : imageAt c s = none) :
    ∃ ret, ret ≠ 0 ∧ (c.run s).outcome = .returned ret := by
  unfold imageAt at h
  cases hargs : c.args s with
  | error ret =>
      rw [Command.run_of_error hargs]
      refine ⟨ret, ?_, rfl⟩
      rw [ret_of_args hargs]
      decide
  | ok args =>
      simp only [hargs] at h
      split at h
      · cases h
      · rename_i haddr
        rw [Command.run_of_load hargs haddr]
        split at h
        · cases h
        · rename_i hret
          exact ⟨_, hret, by simp only [k230ImgLoadBootSys, if_neg hret]⟩

theorem handedOver_iff_boots : HandedOver c s ↔ Boots c s := by
  constructor
  · intro h
    rcases h with ⟨entry, hentry⟩
    cases himage : imageAt c s with
    | none =>
        rcases outcome_of_no_imageAt himage with ⟨ret, _, hret⟩
        rw [hret] at hentry
        cases hentry
    | some image =>
        rw [outcome_of_imageAt himage] at hentry
        exact ⟨image.1, image.2, entry, himage, hentry⟩
  · intro h
    rcases h with ⟨pfh, m, entry, himage, hentry⟩
    exact ⟨entry, (outcome_of_imageAt himage).trans hentry⟩

/-- A command comes back with an error exactly when its image neither boots nor hangs. -/
theorem returns_error_iff :
    (∃ ret, ret ≠ 0 ∧ (c.run s).outcome = .returned ret) ↔ ¬ Boots c s ∧ ¬ Hangs c s := by
  cases himage : imageAt c s with
  | none =>
      have hno : ∀ pfh m, imageAt c s ≠ some (pfh, m) := by
        intro pfh m hsome
        rw [himage] at hsome
        cases hsome
      refine iff_of_true (outcome_of_no_imageAt himage) ⟨?_, ?_⟩
      · rintro ⟨pfh, m, _, hsome, _⟩
        exact hno pfh m hsome
      · rintro ⟨pfh, m, hsome, _⟩
        exact hno pfh m hsome
  | some image =>
      rcases image with ⟨pfh, m⟩
      have hrun := outcome_of_imageAt himage
      constructor
      · rintro ⟨ret, _, hret⟩
        rw [hrun] at hret
        constructor
        · rintro ⟨pfh', m', entry, hsome, hentry⟩
          cases himage.symm.trans hsome
          rw [hret] at hentry
          cases hentry
        · rintro ⟨pfh', m', hsome, hstuck⟩
          cases himage.symm.trans hsome
          rw [hret] at hstuck
          cases hstuck
      · rintro ⟨hboots, hhangs⟩
        cases hout : (k230ImgBootSysBin c.world.pl c.world.unzip m pfh).outcome with
        | returned ret => exact ⟨ret, ret_ne_zero_of_k230ImgBootSysBin hout, hrun.trans hout⟩
        | handedOver entry => exact absurd ⟨pfh, m, entry, himage, hout⟩ hboots
        | stuck => exact absurd ⟨pfh, m, himage, hout⟩ hhangs

/-- The command leaves the medium that its arguments name. -/
theorem gBootMedium_run (c : Command) (s : Session) :
    (c.run s).session.gBootMedium = selectedMedium c.argv s.gBootMedium := by
  simp only [Command.run, doK230Boot, k230BootPrepareArgs, selectedMedium]
  cases c.argv with
  | nil => rfl
  | cons cmd argv =>
      cases argv with
      | nil => rfl
      | cons arg₁ argv =>
          cases argv with
          | nil => rfl
          | cons arg₂ rest =>
              by_cases hmem : arg₁ = "mem"
              · simp only [if_pos hmem]
                cases rest with
                | nil => rfl
                | cons arg₃ rest => simp
              · simp only [if_neg hmem]
                split
                · rfl
                · rfl

theorem ite_some_or {α : Type} {p : Prop} [Decidable p] (a : α) (x y : Option α) :
    (if p then some a else x).or y = if p then some a else x.or y := by
  split <;> rfl

theorem ite_some_ne {α : Type} {p : Prop} [Decidable p] {a b : α} {x : Option α} (ha : a ≠ b)
    (hx : x ≠ some b) : (if p then some a else x) ≠ some b := by
  split
  · exact fun h => ha (Option.some.inj h)
  · exact hx

/-- The variable keeps its old value behind the chain. -/
theorem sysNamed_eq (arg : String) (sys : Option BootSys) :
    sysNamed arg sys = (sysNamed arg none).or sys := by
  simp only [sysNamed, ite_some_or, Option.none_or]

theorem sysNamed_ne_addr (arg : String) : sysNamed arg none ≠ some .addr := by
  unfold sysNamed
  repeat apply ite_some_ne (by decide)
  exact (Option.some_ne_none _).symm

/-- Only named systems are loaded exactly when the second argument is one. -/
theorem named_iff (c : Command) (s : Session) :
    (∀ sys, loadAttempted c s = some sys → sys ≠ none ∧ systemArg c.argv = sys) ↔
      SystemKnown c := by
  unfold loadAttempted Command.args k230BootPrepareArgs systemArg SystemKnown systemWord
  cases c.argv with
  | nil => simp
  | cons cmd argv =>
      cases argv with
      | nil => simp
      | cons arg₁ argv =>
          cases argv with
          | nil => simp
          | cons arg₂ rest =>
              by_cases hmem : arg₁ = "mem"
              · cases rest with
                | nil => simp [hmem]
                | cons arg₃ rest => simp [hmem]
              · simp only [if_neg hmem, Option.some.injEq, forall_eq']
                cases hnamed : sysNamed arg₂ none with
                | some sys =>
                    have hsys : sysNamed arg₂ c.world.sys = some sys := by
                      rw [sysNamed_eq, hnamed]
                      rfl
                    have hne : some sys ≠ some .addr := hnamed ▸ sysNamed_ne_addr arg₂
                    rw [hsys, if_neg hne]
                    simp
                | none =>
                    have hsys : sysNamed arg₂ c.world.sys = c.world.sys := by
                      rw [sysNamed_eq, hnamed]
                      rfl
                    rw [hsys]
                    constructor
                    · intro h
                      right
                      by_contra haddr
                      have hload := h c.world.sys (if_neg haddr)
                      exact hload.1 hload.2.symm
                    · intro h sys' hload
                      rcases h with hknown | haddr
                      · exact absurd rfl hknown
                      · rw [if_pos haddr] at hload
                        cases hload

/-- A command is atomic exactly when it meets the three conditions. -/
theorem atomic_iff (c : Command) (s : Session) : Atomic c s ↔ AtomicWhen c s := by
  have hreturned := returns_error_iff (c := c) (s := s)
  have hmedium := gBootMedium_run c s
  constructor
  · intro h
    refine ⟨?_, ?_, (named_iff c s).1 h.named⟩
    · intro hboots
      by_contra hdoc
      exact (hreturned.1 (h.refused (.inl hdoc)).1).1 hboots
    · intro hno
      have hrefused := h.refused (.inr fun hout => hno (handedOver_iff_boots.1 hout))
      exact ⟨(hreturned.1 hrefused.1).2, hmedium.symm.trans hrefused.2.1⟩
  · intro h
    refine ⟨?_, (named_iff c s).2 h.known⟩
    intro hpremise
    have hno : ¬ Boots c s := by
      rcases hpremise with hdoc | hout
      · exact fun hboots => hdoc (h.documented hboots)
      · exact fun hboots => hout (handedOver_iff_boots.2 hboots)
    rcases h.failed hno with ⟨hhangs, hkept⟩
    have hsame : (c.run s).session.gBootMedium = s.gBootMedium := hmedium.trans hkept
    refine ⟨hreturned.2 ⟨hno, hhangs⟩, hsame, ?_, ?_⟩
    · intro envIsNowhere prio
      rw [hsame]
    · rw [hsame]

end

/-! ## A card without an image -/

/-- `k230_boot sdio0 rtt` on a board that was started from the other slot: no image is found, and the
environment has moved to the first card. -/
theorem failed_boot_moves_environment :
    ((bootFrom "sdio0").run ⟨bootMediumSdio1, none⟩).outcome = .returned 5 ∧
      mmcGetEnvDev ((bootFrom "sdio0").run ⟨bootMediumSdio1, none⟩).session.gBootMedium = 0 ∧
      mmcGetEnvDev bootMediumSdio1 = 1 ∧ ¬ Atomic (bootFrom "sdio0") ⟨bootMediumSdio1, none⟩ := by
  have hout : ((bootFrom "sdio0").run ⟨bootMediumSdio1, none⟩).outcome = .returned 5 := by
    decide +kernel
  have hmedium : ((bootFrom "sdio0").run ⟨bootMediumSdio1, none⟩).session.gBootMedium =
      bootMediumSdio0 := gBootMedium_run _ _
  refine ⟨hout, ?_, rfl, ?_⟩
  · rw [hmedium]
    rfl
  · intro h
    have hfailed : ¬ HandedOver (bootFrom "sdio0") ⟨bootMediumSdio1, none⟩ := by
      rintro ⟨entry, hentry⟩
      rw [hout] at hentry
      cases hentry
    have hsame := (h.refused (.inr hfailed)).2.1
    rw [hmedium] at hsame
    exact absurd hsame (by decide)

end Boot
end CanmvK230
