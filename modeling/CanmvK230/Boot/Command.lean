import CanmvK230.Lib.Run
import CanmvK230.Boot.FailClosed
import CanmvK230.Boot.Load

/-!
# Command — the `k230_boot` command, over a whole session

`do_k230_boot` selects a medium and a system from its arguments, stores the medium in `g_boot_medium`
and loads the system from it. The block device that `k230_load_sys_from_mmc_or_sd` found stays in a
static variable, so a command may depend on the commands before it; a session is a run of commands on
that variable and `g_boot_medium`.

Main results:
* `readsCurrent_iff`: what one command reads, against what the session found before;
* `session_reads_current_iff`: the sessions in which every command reads from the device it selected
  are those whose loads all select the medium of the first device that was found.
-/

namespace CanmvK230
namespace Boot

open Lib

/-! ## The code -/

def bootMediumNorflash : Nat := 0
def bootMediumNandflash : Nat := 1
def bootMediumSdio1 : Nat := 3

def cmdRetUsage : Int := -1

/-- What a command finds around it. Memory, cards and the controllers may have changed since the
command before. -/
structure World where
  pl : Platform
  unzip : Unzip
  board : Board
  mem : ByteMem
  /-- What is on the block device with a number, and how it serves a read now. -/
  content : Nat → ByteMem
  dread : Nat → (start blkcnt : Nat) → Nat
  /-- What the stack holds in `sys`; `none` is a number outside the enumeration. -/
  sys : Option BootSys
  simpleStrtoul : String → Nat

/-- The block device behind a pointer that was kept, as it is now. -/
def World.now (w : World) (d : BlkDesc) : BlkDesc :=
  { d with content := w.content d.devnum, dread := w.dread d.devnum }

/-- The value of `*bootmod`, which the caller set to `g_boot_medium`. -/
def bootmodNamed (arg : String) (gBootMedium : Nat) : Nat :=
  if arg = "sdio1" then bootMediumSdio1
  else if arg = "sdio0" then bootMediumSdio0
  else if arg = "spinor" then bootMediumNorflash
  else if arg = "spinand" then bootMediumNandflash
  -- "auto" stands for `g_boot_medium`, and any other word leaves it in place.
  else gBootMedium

/-- The value of `*sys`, which nobody has set. -/
def sysNamed (arg : String) (sys : Option BootSys) : Option BootSys :=
  if arg = "rtt" then some .rtt
  else if arg = "linux" then some .linux
  else if arg = "qbc" then some .quickBootCfg
  else if arg = "fdb" then some .faceDb
  else if arg = "sensor" then some .sensorCfg
  else if arg = "ai" then some .aiMode
  else if arg = "speckle" then some .speckle
  else if arg = "rtapp" then some .rtapp
  else if arg = "uboot" then some .uboot
  else if arg = "auto_boot" then some .auto
  else sys

structure BootArgs where
  sys : Option BootSys
  bootmod : Nat
  mem : ByteMem

def k230BootPrepareArgs (w : World) (argv : List String) (buff gBootMedium : Nat) :
    Except Int BootArgs :=
  match argv with
  | _ :: arg₁ :: arg₂ :: rest =>
      if arg₁ = "mem" then
        match rest with
        | [] => .error cmdRetUsage
        | arg₃ :: _ =>
            let addTmp := w.simpleStrtoul arg₂
            let len := w.simpleStrtoul arg₃
            let mem := if addTmp ≠ buff then w.mem.write buff (w.mem.read addTmp len) else w.mem
            .ok ⟨some .addr, gBootMedium, mem⟩
      else
        .ok ⟨sysNamed arg₂ w.sys, bootmodNamed arg₁ gBootMedium, w.mem⟩
  | _ => .error cmdRetUsage

/-- The default case of `get_blk_start_by_boot_firmre_type` catches the values outside the
enumeration. -/
def blkStart (b : Board) : Option BootSys → Nat
  | some sys => b.getBlkStart sys
  | none => imgPartNotExit

def k230ImgLoadSysFromDev (b : Board) (gBootMedium : Nat) (pblkDesc : Option BlkDesc) (m : ByteMem)
    (sys : Option BootSys) (buff : Nat) : LoadRun :=
  if gBootMedium = bootMediumSdio0 ∨ gBootMedium = bootMediumSdio1 then
    match sys with
    | some sys => k230LoadSysFromMmcOrSd b gBootMedium pblkDesc m sys buff
    | none => ⟨-1, m, pblkDesc, []⟩
  else
    ⟨-1, m, pblkDesc, []⟩

/-- What outlives a command. -/
structure Session where
  gBootMedium : Nat
  pblkDesc : Option BlkDesc

structure CommandRun where
  outcome : Outcome
  session : Session
  reads : List BlkRead

/-- `BOOT_SYS_AUTO` makes `k230_img_load_boot_sys` call itself with `BOOT_SYS_RTT`. -/
def resolveAuto (sys : Option BootSys) : Option BootSys :=
  if sys = some .auto then some .rtt else sys

def k230ImgLoadBootSys (w : World) (s : Session) (m : ByteMem) (sys : Option BootSys) : CommandRun :=
  let imgLoadAddr := k230GetEncryptedImageLoadAddr w.pl
  let load := k230ImgLoadSysFromDev w.board s.gBootMedium (s.pblkDesc.map w.now) m (resolveAuto sys)
    imgLoadAddr
  { outcome :=
      if load.ret = 0 then (k230ImgBootSysBin w.pl w.unzip load.mem imgLoadAddr).outcome
      else .returned load.ret
    session := { s with pblkDesc := load.pblkDesc }
    reads := load.reads }

def doK230Boot (w : World) (argv : List String) (s : Session) : CommandRun :=
  let cipherAddr := k230GetEncryptedImageDecryptAddr w.pl
  match k230BootPrepareArgs w argv cipherAddr s.gBootMedium with
  | .error ret => ⟨.returned ret, s, []⟩
  | .ok args =>
      let s := { s with gBootMedium := args.bootmod }
      if args.sys = some .addr then
        ⟨(k230ImgBootSysBin w.pl w.unzip args.mem cipherAddr).outcome, s, []⟩
      else
        k230ImgLoadBootSys w s args.mem args.sys

/-! ## The property -/

structure Command where
  world : World
  argv : List String

def Command.run (c : Command) (s : Session) : CommandRun := doK230Boot c.world c.argv s

/-- Every sector a command reads comes from the device it selected. -/
def ReadsCurrent (r : CommandRun) : Prop :=
  ∀ read ∈ r.reads, read.devnum = r.session.gBootMedium - bootMediumSdio0

/-- The devices that the driver finds have the numbers they were asked for by. -/
def Numbered (b : Board) : Prop :=
  ∀ dev mmc d, b.findMmcDevice dev = some mmc → mmc.blkDesc = some d → d.devnum = dev

/-- The medium a command loads from: `none` when it does not come to the block device, because of its
arguments, another medium, or a system without a partition. -/
def loadMedium (c : Command) (gBootMedium : Nat) : Option Nat :=
  match k230BootPrepareArgs c.world c.argv (k230GetEncryptedImageDecryptAddr c.world.pl)
      gBootMedium with
  | .error _ => none
  | .ok args =>
      if args.sys ≠ some .addr ∧
          (args.bootmod = bootMediumSdio0 ∨ args.bootmod = bootMediumSdio1) ∧
          blkStart c.world.board (resolveAuto args.sys) ≠ imgPartNotExit then
        some args.bootmod
      else
        none

/-- The medium whose device is found first, as far as the session has got. -/
def foundAfter (c : Command) (gBootMedium : Nat) (found : Option Nat) : Option Nat :=
  match found, loadMedium c gBootMedium with
  | some medium, _ => some medium
  | none, none => none
  | none, some medium =>
      match initBlkDesc c.world.board (medium - bootMediumSdio0) with
      | .ok _ => some medium
      | .error _ => none

/-- A command that comes back to the prompt, with the medium found so far. -/
def CommandStep (x : Session × Option Nat) (c : Command) (y : Session × Option Nat) : Prop :=
  (∃ ret, (c.run x.1).outcome = .returned ret) ∧ y.1 = (c.run x.1).session ∧
    y.2 = foundAfter c x.1.gBootMedium x.2

/-- After reset no device has been found. -/
def afterReset (gBootMedium : Nat) : Session × Option Nat := (⟨gBootMedium, none⟩, none)

/-- Every command of the session reads from the device it selected. -/
def SessionReadsCurrent (gBootMedium : Nat) (cs : List Command) : Prop :=
  ∀ pre c post x, cs = pre ++ c :: post → Run CommandStep (afterReset gBootMedium) pre x →
    ReadsCurrent (c.run x.1)

/-- Every load of the session selects the medium of the first device that was found, if one was. -/
def OneMedium (gBootMedium : Nat) (cs : List Command) : Prop :=
  ∀ pre c post x, cs = pre ++ c :: post → Run CommandStep (afterReset gBootMedium) pre x →
    ∀ medium, loadMedium c x.1.gBootMedium = some medium → x.2 = none ∨ x.2 = some medium

/-! ## One command -/

section
variable {b : Board} {c : Command} {s : Session} {found : Option Nat} {m : ByteMem} {sys : BootSys}
  {buff : Nat}

/-- A load that comes to the block device: it fails to find one, or it reads from the one it has. -/
theorem load_cases (gBootMedium : Nat) (pblkDesc : Option BlkDesc) (m : ByteMem) (buff : Nat)
    (hpart : b.getBlkStart sys ≠ imgPartNotExit) :
    (∃ ret, currentBlkDesc b gBootMedium pblkDesc = .error ret ∧
        (k230LoadSysFromMmcOrSd b gBootMedium pblkDesc m sys buff).reads = [] ∧
        (k230LoadSysFromMmcOrSd b gBootMedium pblkDesc m sys buff).pblkDesc = none) ∨
      ∃ d, currentBlkDesc b gBootMedium pblkDesc = .ok d ∧
        (k230LoadSysFromMmcOrSd b gBootMedium pblkDesc m sys buff).pblkDesc = some d ∧
        (k230LoadSysFromMmcOrSd b gBootMedium pblkDesc m sys buff).reads ≠ [] ∧
        ∀ r ∈ (k230LoadSysFromMmcOrSd b gBootMedium pblkDesc m sys buff).reads,
          r.devnum = d.devnum := by
  cases hdesc : currentBlkDesc b gBootMedium pblkDesc with
  | error ret =>
      left
      refine ⟨ret, rfl, ?_, ?_⟩
      · simp [k230LoadSysFromMmcOrSd, hpart, hdesc]
      · simp [k230LoadSysFromMmcOrSd, hpart, hdesc]
  | ok d =>
      right
      refine ⟨d, rfl, ?_⟩
      simp only [k230LoadSysFromMmcOrSd, if_neg hpart, hdesc]
      -- One read on the two early exits, two otherwise, all through `d`.
      split_ifs
      · simp
      · simp
      · simp
      · simp

/-- The two ways of a command: it leaves the block device alone, or it loads through the one that was
kept or found. -/
theorem run_cases (c : Command) (s : Session) :
    (loadMedium c s.gBootMedium = none ∧ (c.run s).reads = [] ∧
        (c.run s).session.pblkDesc.map BlkDesc.devnum = s.pblkDesc.map BlkDesc.devnum) ∨
      ∃ medium, loadMedium c s.gBootMedium = some medium ∧
        (medium = bootMediumSdio0 ∨ medium = bootMediumSdio1) ∧
        (c.run s).session.gBootMedium = medium ∧
        ((∃ ret, currentBlkDesc c.world.board medium (s.pblkDesc.map c.world.now) = .error ret ∧
            (c.run s).reads = [] ∧ (c.run s).session.pblkDesc = none) ∨
          ∃ d, currentBlkDesc c.world.board medium (s.pblkDesc.map c.world.now) = .ok d ∧
            (c.run s).session.pblkDesc = some d ∧ (c.run s).reads ≠ [] ∧
            ∀ r ∈ (c.run s).reads, r.devnum = d.devnum) := by
  have hsame : (s.pblkDesc.map c.world.now).map BlkDesc.devnum = s.pblkDesc.map BlkDesc.devnum := by
    cases s.pblkDesc with
    | none => rfl
    | some d => rfl
  simp only [Command.run, doK230Boot, loadMedium]
  cases hargs : k230BootPrepareArgs c.world c.argv (k230GetEncryptedImageDecryptAddr c.world.pl)
      s.gBootMedium with
  | error ret => exact .inl ⟨rfl, rfl, rfl⟩
  | ok args =>
      by_cases haddr : args.sys = some .addr
      · exact .inl ⟨by simp [haddr], by simp [haddr], by simp [haddr]⟩
      · by_cases hmmc : args.bootmod = bootMediumSdio0 ∨ args.bootmod = bootMediumSdio1
        · cases hsys : resolveAuto args.sys with
          | none =>
              left
              refine ⟨by simp [hsys, blkStart], ?_, ?_⟩
              · simp [haddr, k230ImgLoadBootSys, k230ImgLoadSysFromDev, hmmc, hsys]
              · simp only [if_neg haddr, k230ImgLoadBootSys, k230ImgLoadSysFromDev, if_pos hmmc, hsys]
                exact hsame
          | some sys =>
              by_cases hpart : c.world.board.getBlkStart sys = imgPartNotExit
              · left
                refine ⟨by simp [hsys, blkStart, hpart], ?_, ?_⟩
                · simp [haddr, k230ImgLoadBootSys, k230ImgLoadSysFromDev, hmmc, hsys,
                    k230LoadSysFromMmcOrSd, hpart]
                · simp only [if_neg haddr, k230ImgLoadBootSys, k230ImgLoadSysFromDev, if_pos hmmc,
                    hsys, k230LoadSysFromMmcOrSd, if_pos hpart]
                  exact hsame
              · right
                refine ⟨args.bootmod, by simp [haddr, hmmc, hsys, blkStart, hpart], hmmc, ?_⟩
                simp only [if_neg haddr, k230ImgLoadBootSys, k230ImgLoadSysFromDev, if_pos hmmc, hsys]
                exact ⟨trivial, load_cases args.bootmod _ args.mem _ hpart⟩
        · left
          refine ⟨by simp [hmmc], ?_, ?_⟩
          · simp [haddr, k230ImgLoadBootSys, k230ImgLoadSysFromDev, hmmc]
          · simp only [if_neg haddr, k230ImgLoadBootSys, k230ImgLoadSysFromDev, if_neg hmmc]
            exact hsame

/-- The device that was kept is the one of the medium found first. -/
structure Known (s : Session) (found : Option Nat) : Prop where
  devnum : s.pblkDesc.map BlkDesc.devnum = found.map (· - bootMediumSdio0)
  mmc : ∀ medium, found = some medium → medium = bootMediumSdio0 ∨ medium = bootMediumSdio1

theorem Known.desc_eq_none (hknown : Known s none) : s.pblkDesc = none := by
  have hdev := hknown.devnum
  cases hdesc : s.pblkDesc with
  | none => rfl
  | some d => simp [hdesc] at hdev

theorem Known.exists_desc {first : Nat} (hknown : Known s (some first)) :
    ∃ d, s.pblkDesc = some d ∧ d.devnum = first - bootMediumSdio0 := by
  have hdev := hknown.devnum
  cases hdesc : s.pblkDesc with
  | none => simp [hdesc] at hdev
  | some d => exact ⟨d, rfl, by simpa [hdesc] using hdev⟩

theorem devnum_of_initBlkDesc (hnum : Numbered b) {dev : Nat} {d : BlkDesc}
    (h : initBlkDesc b dev = .ok d) : d.devnum = dev := by
  unfold initBlkDesc at h
  split_ifs at h
  split at h
  · cases h
  · rename_i mmc hmmc
    split_ifs at h
    split at h
    · cases h
    · rename_i d' hd
      cases h
      exact hnum dev mmc d hmmc hd

theorem Known.step (hknown : Known s found) (hnum : Numbered c.world.board) :
    Known (c.run s).session (foundAfter c s.gBootMedium found) := by
  rcases run_cases c s with ⟨hnone, _, hkept⟩ | ⟨medium, hload, hmmc, _, hrest⟩
  · -- Nothing was looked for.
    have hfound : foundAfter c s.gBootMedium found = found := by
      cases found with
      | none => simp [foundAfter, hnone]
      | some medium => rfl
    rw [hfound]
    exact ⟨hkept.trans hknown.devnum, hknown.mmc⟩
  · cases found with
    | some first =>
        -- There is a device already, and it stays.
        rcases hknown.exists_desc with ⟨d₀, hdesc, hdev⟩
        simp only [hdesc, Option.map_some, currentBlkDesc] at hrest
        rcases hrest with ⟨_, herror, _⟩ | ⟨d, hd, hkept, _⟩
        · cases herror
        · cases hd
          refine ⟨?_, hknown.mmc⟩
          rw [hkept]
          simp [foundAfter, World.now, hdev]
    | none =>
        simp only [hknown.desc_eq_none, Option.map_none, currentBlkDesc] at hrest
        rcases hrest with ⟨ret, herror, _, hkept⟩ | ⟨d, hd, hkept, _⟩
        · have hfound : foundAfter c s.gBootMedium none = none := by
            simp [foundAfter, hload, herror]
          rw [hfound]
          exact ⟨by rw [hkept]; rfl, fun medium h => nomatch h⟩
        · have hfound : foundAfter c s.gBootMedium none = some medium := by
            simp [foundAfter, hload, hd]
          rw [hfound]
          refine ⟨?_, ?_⟩
          · rw [hkept]
            simp [devnum_of_initBlkDesc hnum hd]
          · intro medium' h
            cases h
            exact hmmc

/-- The device numbers of the two media differ. -/
theorem medium_eq_of_devnum {first medium : Nat}
    (hfirst : first = bootMediumSdio0 ∨ first = bootMediumSdio1)
    (hmedium : medium = bootMediumSdio0 ∨ medium = bootMediumSdio1)
    (h : first - bootMediumSdio0 = medium - bootMediumSdio0) : first = medium := by
  rcases hfirst with rfl | rfl
  · rcases hmedium with rfl | rfl
    · rfl
    · cases h
  · rcases hmedium with rfl | rfl
    · cases h
    · rfl

/-- A command reads from the device it selected exactly when it does not load, or nothing was found
before, or what was found is of the medium it selects. -/
theorem readsCurrent_iff (hknown : Known s found) (hnum : Numbered c.world.board) :
    ReadsCurrent (c.run s) ↔
      ∀ medium, loadMedium c s.gBootMedium = some medium → found = none ∨ found = some medium := by
  rcases run_cases c s with ⟨hnone, hreads, _⟩ | ⟨medium, hload, hmmc, hcur, hrest⟩
  · simp [ReadsCurrent, hnone, hreads]
  · cases found with
    | none =>
        -- The device is looked for now, under the number of the medium.
        simp only [hknown.desc_eq_none, Option.map_none, currentBlkDesc] at hrest
        refine iff_of_true ?_ fun _ _ => .inl rfl
        intro r hr
        rcases hrest with ⟨_, _, hreads, _⟩ | ⟨d, hd, _, _, hall⟩
        · rw [hreads] at hr
          exact absurd hr List.not_mem_nil
        · rw [hall r hr, devnum_of_initBlkDesc hnum hd, hcur]
    | some first =>
        rcases hknown.exists_desc with ⟨d₀, hdesc, hdev⟩
        simp only [hdesc, Option.map_some, currentBlkDesc] at hrest
        rcases hrest with ⟨_, herror, _⟩ | ⟨d, hd, _, hsome, hall⟩
        · cases herror
        cases hd
        have hnumber : (c.world.now d₀).devnum = first - bootMediumSdio0 := hdev
        constructor
        · intro hcurrent medium' hload'
          rw [hload] at hload'
          cases hload'
          rcases List.exists_mem_of_ne_nil _ hsome with ⟨r, hr⟩
          have hread := hcurrent r hr
          rw [hall r hr, hnumber, hcur] at hread
          rw [medium_eq_of_devnum (hknown.mmc first rfl) hmmc hread]
          exact .inr rfl
        · intro hsame r hr
          have hfirst : first = medium := by
            rcases hsame medium hload with h | h
            · cases h
            · exact Option.some.inj h
          rw [hall r hr, hnumber, hcur, hfirst]

/-! ## Whole sessions -/

theorem known_run {gBootMedium : Nat} {cs : List Command} {x : Session × Option Nat}
    (hnum : ∀ c ∈ cs, Numbered c.world.board)
    (hrun : Run CommandStep (afterReset gBootMedium) cs x) : Known x.1 x.2 := by
  refine hrun.snoc_induction
    (P := fun cs x => (∀ c ∈ cs, Numbered c.world.board) → Known x.1 x.2) ?_ ?_ hnum
  · intro _
    exact ⟨rfl, fun medium h => nomatch h⟩
  · intro cs x c y _ ih hstep hnum
    rcases hstep with ⟨_, hsession, hfound⟩
    rw [hsession, hfound]
    have hx : Known x.1 x.2 := ih fun c' hc' => hnum c' (by simp [hc'])
    exact hx.step (hnum c (by simp))

/-- In a session every command reads from the device it selected exactly when all its loads select
the medium of the first device that was found. -/
theorem session_reads_current_iff (gBootMedium : Nat) (cs : List Command)
    (hnum : ∀ c ∈ cs, Numbered c.world.board) :
    SessionReadsCurrent gBootMedium cs ↔ OneMedium gBootMedium cs := by
  have hcommand : ∀ pre c post x, cs = pre ++ c :: post →
      Run CommandStep (afterReset gBootMedium) pre x →
      (ReadsCurrent (c.run x.1) ↔
        ∀ medium, loadMedium c x.1.gBootMedium = some medium → x.2 = none ∨ x.2 = some medium) := by
    intro pre c post x hsplit hrun
    have hpre : ∀ c' ∈ pre, Numbered c'.world.board := fun c' hc' => hnum c' (by simp [hsplit, hc'])
    exact readsCurrent_iff (known_run hpre hrun) (hnum c (by simp [hsplit]))
  constructor
  · intro h pre c post x hsplit hrun
    exact (hcommand pre c post x hsplit hrun).1 (h pre c post x hsplit hrun)
  · intro h pre c post x hsplit hrun
    exact (hcommand pre c post x hsplit hrun).2 (h pre c post x hsplit hrun)

end

/-! ## Two blank cards -/

/-- Both slots hold a card full of zeros that serves every read. -/
def blankCards : World where
  pl := demoPlatform false
  unzip := demoUnzip
  board :=
    { getBlkStart := getBlkStartByBootFirmreType
      mmcInitDevice := fun _ => false
      findMmcDevice := fun dev => some ⟨false, some ⟨dev, fun _ => 0, fun _ blkcnt => blkcnt⟩⟩ }
  mem := fun _ => 0
  content := fun _ _ => 0
  dread := fun _ _ blkcnt => blkcnt
  sys := none
  simpleStrtoul := fun _ => 0

def bootFrom (medium : String) : Command := ⟨blankCards, ["k230_boot", medium, "rtt"]⟩

theorem numbered_blankCards : Numbered blankCards.board := by
  intro dev mmc d hmmc hd
  cases hmmc
  cases hd
  rfl

/-- The first command of a session with the two cards finds its own, and comes back: there is no
image on it. -/
theorem bootFrom_sdio0 :
    CommandStep (afterReset bootMediumSdio1) (bootFrom "sdio0")
      (((bootFrom "sdio0").run (afterReset bootMediumSdio1).1).session, some bootMediumSdio0) := by
  refine ⟨⟨5, ?_⟩, rfl, ?_⟩
  · decide +kernel
  · decide +kernel

theorem session_sdio0_sdio0 : SessionReadsCurrent bootMediumSdio1 [bootFrom "sdio0", bootFrom "sdio0"] := by
  refine (session_reads_current_iff _ _ ?_).2 ?_
  · intro c hc
    have hcommand : c = bootFrom "sdio0" := by simpa using hc
    rw [hcommand]
    exact numbered_blankCards
  · intro pre c post x hsplit hrun medium hload
    cases pre with
    | nil =>
        rw [hrun.nil_inv]
        exact .inl rfl
    | cons c₁ pre =>
        cases pre with
        | nil =>
            cases hsplit
            rcases hrun with _ | ⟨hstep, hnil⟩
            cases hnil
            rcases hstep with ⟨_, hsession, hfound⟩
            right
            rw [hsession] at hload
            rw [hfound]
            have hmedium : loadMedium (bootFrom "sdio0")
                ((bootFrom "sdio0").run (afterReset bootMediumSdio1).1).session.gBootMedium =
                  some bootMediumSdio0 := by
              decide +kernel
            rw [hmedium] at hload
            rw [← hload]
            decide +kernel
        | cons c₂ pre => simp at hsplit

/-- After `k230_boot sdio0 rtt` the command `k230_boot sdio1 rtt` reads from device 0. -/
theorem second_command_reads_first_card :
    ∃ x, Run CommandStep (afterReset bootMediumSdio1) [bootFrom "sdio0"] x ∧
      ((bootFrom "sdio1").run x.1).session.gBootMedium = bootMediumSdio1 ∧
      ((bootFrom "sdio1").run x.1).reads.map BlkRead.devnum = [0] ∧
      ¬ SessionReadsCurrent bootMediumSdio1 [bootFrom "sdio0", bootFrom "sdio1"] := by
  have hrun := Run.cons bootFrom_sdio0 (Run.nil _)
  refine ⟨_, hrun, ?_, ?_, ?_⟩
  · decide +kernel
  · decide +kernel
  · intro h
    have hreads := h [bootFrom "sdio0"] (bootFrom "sdio1") [] _ rfl hrun
    revert hreads
    unfold ReadsCurrent
    decide +kernel

end Boot
end CanmvK230
