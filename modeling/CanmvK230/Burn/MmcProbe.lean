import CanmvK230.Burn.Mmc

/-!
# MmcProbe — the search for the card (`kburn_mmc_probe`)

The loop over the MMC devices assigns `mmc` at each device and leaves early at the first one that
fits; what is tested afterwards is only whether `mmc` is NULL.  So the last device of a list without
a fitting one is taken for the card, and for an empty list the variable is read without a value.

`selectsRight_iff` says for which lists the probe does hand out a fitting device or none.
-/

namespace CanmvK230
namespace Burn
namespace MmcProbe

/-- A device of the MMC uclass: whether `mmc_get_mmc_dev` has a pointer for it, what `mmc_init` of
that pointer answers, the sequence number of the parent, and what the probe reads of the card.  The
block descriptor is absent when the device has no block child. -/
structure MmcDev (μ : Type) where
  hasMmc : Bool
  mmcInit : Int
  parentSeq : Int
  blkDesc : Option (MmcDesc μ)
  eraseGrpSize : UInt32
  wp : BitVec 8

/-- The values of the variable `mmc`; `wild` is what the stack held before. -/
inductive MmcPtr (μ : Type)
  | null
  | card (dev : MmcDev μ)
  | wild

inductive Probed (μ : Type)
  | null
  | burner (dev : MmcDev μ) (ops : KburnOps μ)
  | undefined -- a pointer was followed that is NULL or has no value

/-- What `kburn_mmc_probe` finds around it: the answer of `uclass_get`, the devices of the class in
order, whether `memalign` has memory, and the old content of the variable `mmc`. -/
structure Env (μ : Type) where
  uclassGet : Int
  devs : List (MmcDev μ)
  memalign : Bool
  stack : MmcPtr μ

variable {μ : Type}

def mmcGetMmcDev (dev : MmcDev μ) : MmcPtr μ :=
  if dev.hasMmc = true then .card dev else .null

-- `uclass_foreach_dev(dev, uc)`; the result is `mmc` after the loop
def foreachDev (bus : UInt8) : MmcPtr μ → List (MmcDev μ) → MmcPtr μ
  | mmc, [] => mmc
  | _, dev :: devs =>
      if dev.hasMmc = true then
        if dev.mmcInit = 0 then
          if bus ≠ 0xff then
            if dev.parentSeq ≠ (bus.toNat : Int) then
              foreachDev bus (mmcGetMmcDev dev) devs
            else
              mmcGetMmcDev dev
          else
            mmcGetMmcDev dev
        else
          foreachDev bus (mmcGetMmcDev dev) devs
      else
        foreachDev bus (mmcGetMmcDev dev) devs

def kburnMmcProbe (env : Env μ) (bus : UInt8) : Probed μ :=
  if env.uclassGet ≠ 0 then
    .null
  else
    match foreachDev bus env.stack env.devs with
    | .null => .null
    | .wild => .undefined
    | .card dev =>
        match dev.blkDesc with
        | none => .undefined -- the message about it reads the number of the missing descriptor
        | some desc =>
            if env.memalign = false then
              .null
            else
              .burner dev (Burn.kburnMmcProbe desc dev.eraseGrpSize dev.wp)

/-! ## The search -/

/-- The device is one that the caller asked for. -/
def Fits (bus : UInt8) (dev : MmcDev μ) : Prop :=
  dev.hasMmc = true ∧ dev.mmcInit = 0 ∧ (bus = 0xff ∨ dev.parentSeq = (bus.toNat : Int))

instance (bus : UInt8) (dev : MmcDev μ) : Decidable (Fits bus dev) :=
  inferInstanceAs (Decidable (_ ∧ _ ∧ _))

/-- The pointer of the last device, or what the stack held. -/
def lastPtr (stack : MmcPtr μ) (devs : List (MmcDev μ)) : MmcPtr μ :=
  (devs.getLast?.map mmcGetMmcDev).getD stack

theorem foreachDev_fits {bus : UInt8} {dev : MmcDev μ} (h : Fits bus dev) (mmc : MmcPtr μ)
    (devs : List (MmcDev μ)) : foreachDev bus mmc (dev :: devs) = .card dev := by
  rcases h with ⟨hptr, hinit, hbus⟩
  rw [foreachDev, if_pos hptr, if_pos hinit, mmcGetMmcDev, if_pos hptr]
  rcases hbus with rfl | hseq
  · rw [if_neg (not_not.2 rfl)]
  · rw [if_neg (not_not.2 hseq), ite_self]

theorem foreachDev_skip {bus : UInt8} {dev : MmcDev μ} (h : ¬ Fits bus dev) (mmc : MmcPtr μ)
    (devs : List (MmcDev μ)) :
    foreachDev bus mmc (dev :: devs) = foreachDev bus (mmcGetMmcDev dev) devs := by
  rw [foreachDev]
  by_cases hptr : dev.hasMmc = true
  · by_cases hinit : dev.mmcInit = 0
    · have hbus : ¬ (bus = 0xff ∨ dev.parentSeq = (bus.toNat : Int)) := fun hb =>
        h ⟨hptr, hinit, hb⟩
      rcases not_or.1 hbus with ⟨hany, hseq⟩
      rw [if_pos hptr, if_pos hinit, if_pos hany, if_pos hseq]
    · rw [if_pos hptr, if_neg hinit]
  · rw [if_neg hptr]

/-- A fitting device ends the loop. -/
theorem foreachDev_finds {bus : UInt8} {devs : List (MmcDev μ)} (h : ∃ dev ∈ devs, Fits bus dev)
    (mmc : MmcPtr μ) : ∃ dev ∈ devs, Fits bus dev ∧ foreachDev bus mmc devs = .card dev := by
  induction devs generalizing mmc with
  | nil =>
      rcases h with ⟨dev, hmem, -⟩
      cases hmem
  | cons dev devs ih =>
      by_cases hfits : Fits bus dev
      · exact ⟨dev, List.mem_cons_self, hfits, foreachDev_fits hfits mmc devs⟩
      · have hrest : ∃ dev ∈ devs, Fits bus dev := by
          rcases h with ⟨dev', hmem, hfits'⟩
          rcases List.mem_cons.1 hmem with rfl | hmem
          · exact absurd hfits' hfits
          · exact ⟨dev', hmem, hfits'⟩
        rcases ih hrest (mmcGetMmcDev dev) with ⟨found, hmem, hfound, hloop⟩
        refine ⟨found, List.mem_cons_of_mem _ hmem, hfound, ?_⟩
        rw [foreachDev_skip hfits, hloop]

/-- Without one, the last device is left in the variable. -/
theorem foreachDev_misses {bus : UInt8} {devs : List (MmcDev μ)} (h : ∀ dev ∈ devs, ¬ Fits bus dev)
    (mmc : MmcPtr μ) : foreachDev bus mmc devs = lastPtr mmc devs := by
  induction devs generalizing mmc with
  | nil => rfl
  | cons dev devs ih =>
      have hrest : ∀ dev ∈ devs, ¬ Fits bus dev := fun dev' hmem =>
        h dev' (List.mem_cons_of_mem _ hmem)
      rw [foreachDev_skip (h dev List.mem_cons_self), ih hrest]
      cases devs with
      | nil => rfl
      | cons next rest => simp [lastPtr, List.getLast?_cons]

/-! ## The burner -/

/-- A burner is for a fitting device of the list, and there is none without such a device. -/
def SelectsRight (env : Env μ) (bus : UInt8) : Prop :=
  (∀ dev ops, kburnMmcProbe env bus = .burner dev ops → dev ∈ env.devs ∧ Fits bus dev) ∧
    ((∀ dev ∈ env.devs, ¬ Fits bus dev) → kburnMmcProbe env bus = .null)

/-- The pointer that the loop leaves is turned away: it is NULL, or it is a card with a descriptor
and there is no memory for the burner. -/
def TurnedAway (env : Env μ) : MmcPtr μ → Prop
  | .null => True
  | .wild => False
  | .card dev => dev.blkDesc.isSome = true ∧ env.memalign = false

theorem kburnMmcProbe_burner {env : Env μ} {bus : UInt8} {dev : MmcDev μ} {ops : KburnOps μ}
    (h : kburnMmcProbe env bus = .burner dev ops) :
    foreachDev bus env.stack env.devs = .card dev := by
  unfold kburnMmcProbe at h
  split at h
  · cases h
  · cases hloop : foreachDev bus env.stack env.devs with
    | null => simp [hloop] at h
    | wild => simp [hloop] at h
    | card dev' =>
        cases hdesc : dev'.blkDesc with
        | none => simp [hloop, hdesc] at h
        | some desc =>
            simp only [hloop, hdesc] at h
            split at h
            · cases h
            · rw [(Probed.burner.inj h).1]

theorem kburnMmcProbe_null_iff (env : Env μ) (bus : UInt8) :
    kburnMmcProbe env bus = .null ↔
      env.uclassGet ≠ 0 ∨ TurnedAway env (foreachDev bus env.stack env.devs) := by
  unfold kburnMmcProbe
  by_cases huc : env.uclassGet ≠ 0
  · simp [huc]
  · rw [if_neg huc]
    cases hloop : foreachDev bus env.stack env.devs with
    | null => simp [TurnedAway]
    | wild => simpa [TurnedAway] using huc
    | card dev =>
        cases hdesc : dev.blkDesc with
        | none => simpa [TurnedAway, hdesc] using huc
        | some desc =>
            cases hmem : env.memalign with
            | false => simp [TurnedAway, hdesc, hmem]
            | true => simpa [TurnedAway, hdesc, hmem] using huc

/-- The probe selects right exactly when a device fits, or what stands last in the list is turned
away for another reason. -/
theorem selectsRight_iff (env : Env μ) (bus : UInt8) :
    SelectsRight env bus ↔
      env.uclassGet ≠ 0 ∨ (∃ dev ∈ env.devs, Fits bus dev) ∨
        TurnedAway env (lastPtr env.stack env.devs) := by
  by_cases hfits : ∃ dev ∈ env.devs, Fits bus dev
  · have hright : SelectsRight env bus := by
      rcases foreachDev_finds hfits env.stack with ⟨found, hmem, hfound, hloop⟩
      constructor
      · intro dev ops h
        have hptr := kburnMmcProbe_burner h
        rw [hloop] at hptr
        cases hptr
        exact ⟨hmem, hfound⟩
      · intro hnone
        exact absurd hfound (hnone found hmem)
    exact iff_of_true hright (Or.inr (Or.inl hfits))
  · have hnone : ∀ dev ∈ env.devs, ¬ Fits bus dev := fun dev hmem h => hfits ⟨dev, hmem, h⟩
    have hloop := foreachDev_misses hnone env.stack
    constructor
    · intro h
      rcases (kburnMmcProbe_null_iff env bus).1 (h.2 hnone) with huc | haway
      · exact Or.inl huc
      · rw [hloop] at haway
        exact Or.inr (Or.inr haway)
    · intro h
      have hnull : kburnMmcProbe env bus = .null := by
        refine (kburnMmcProbe_null_iff env bus).2 ?_
        rw [hloop]
        rcases h with huc | hex | haway
        · exact Or.inl huc
        · exact absurd hex hfits
        · exact Or.inr haway
      refine ⟨?_, fun _ => hnull⟩
      intro dev ops h
      rw [hnull] at h
      cases h

/-! ## A board whose only card is the eMMC -/

/-- An eMMC of 16 blocks on bus 0 that initialises. -/
def emmc : MmcDev Unit where
  hasMmc := true
  mmcInit := 0
  parentSeq := 0
  blkDesc := some
    { lba := 16
      log2blksz := 9
      log2blksz_lt := log2blksz_sector_lt
      blkDwrite := fun m _ count _ => (count, m)
      blkDerase := fun m _ count => (count, m) }
  eraseGrpSize := 1
  wp := 0

def emmcBoard : Env Unit where
  uclassGet := 0
  devs := [emmc]
  memalign := true
  stack := .null

-- the probe for the SD card (bus 1) hands out the eMMC
theorem sdProbe_emmc :
    (∃ ops, kburnMmcProbe emmcBoard 1 = .burner emmc ops) ∧ ¬ SelectsRight emmcBoard 1 := by
  have hprobe : ∃ ops, kburnMmcProbe emmcBoard 1 = .burner emmc ops := ⟨_, rfl⟩
  refine ⟨hprobe, ?_⟩
  intro h
  rcases hprobe with ⟨ops, hops⟩
  exact absurd (h.1 emmc ops hops).2 (by decide)

end MmcProbe
end Burn
end CanmvK230
