import CanmvK230.Lib.Extent
import CanmvK230.Boot.Command

/-!
# Windows — the parts of memory that a `k230_boot` command fills

Two addresses cut the upper two thirds of the memory into windows: an image from a card is read to
the load address, a third below the end, and the plaintext of a secure image goes to the decryption
address, two thirds below the end, where the `mem` command also puts its image. U-Boot itself was
linked in the middle of the memory (`parse_config`), inside the lower window. No length is compared
with any of this; `windowsKept_iff` names the lengths for which everything stays in its place.

Main results:
* `run_of_loadDevice`: the reads of a command are those that the header on the card asks for;
* `load_frame`, `mem_of_args`, `mem_of_check`: what a load, the `mem` command and the check store;
* `windowsKept_iff`: the commands that keep to the windows.
-/

namespace CanmvK230
namespace Boot

open Lib

/-! ## The windows -/

/-- `UBOOT_TEXT_BASE` of `parse_config`. -/
def ubootTextBase (pl : Platform) : Nat :=
  pl.configMemBaseAddr + pl.configMemTotalSize / 2

def memEnd (pl : Platform) : Nat :=
  pl.configMemBaseAddr + pl.configMemTotalSize

theorem loadAddr_add (pl : Platform) :
    k230GetEncryptedImageLoadAddr pl + pl.configMemTotalSize / 3 = memEnd pl := by
  rw [k230GetEncryptedImageLoadAddr, memEnd]
  omega

theorem decryptAddr_add (pl : Platform) :
    k230GetEncryptedImageDecryptAddr pl + pl.configMemTotalSize / 3 =
      k230GetEncryptedImageLoadAddr pl := by
  rw [k230GetEncryptedImageDecryptAddr, k230GetEncryptedImageLoadAddr]
  omega

/-! ## Where an image comes from -/

/-- The memory that the `mem` command moves its image from, and the length, when it moves one. -/
def memImage (c : Command) : Option (Nat × Nat) :=
  match c.argv with
  | _ :: arg₁ :: arg₂ :: arg₃ :: _ =>
      if arg₁ = "mem" ∧
          c.world.simpleStrtoul arg₂ ≠ k230GetEncryptedImageDecryptAddr c.world.pl then
        some (c.world.simpleStrtoul arg₂, c.world.simpleStrtoul arg₃)
      else
        none
  | _ => none

def Command.args (c : Command) (s : Session) : Except Int BootArgs :=
  k230BootPrepareArgs c.world c.argv (k230GetEncryptedImageDecryptAddr c.world.pl) s.gBootMedium

/-- What the command hands to `k230_img_boot_sys_bin`, if it gets there: the address of the image and
the memory. -/
def imageAt (c : Command) (s : Session) : Option (Nat × ByteMem) :=
  match c.args s with
  | .error _ => none
  | .ok args =>
      if args.sys = some .addr then
        some (k230GetEncryptedImageDecryptAddr c.world.pl, args.mem)
      else
        let load := k230ImgLoadSysFromDev c.world.board args.bootmod (s.pblkDesc.map c.world.now)
          args.mem (resolveAuto args.sys) (k230GetEncryptedImageLoadAddr c.world.pl)
        if load.ret = 0 then some (k230GetEncryptedImageLoadAddr c.world.pl, load.mem) else none

/-- The block device and the first sector that the command reads from, if it gets there. -/
def loadDevice (c : Command) (s : Session) : Option (BlkDesc × Nat) :=
  match c.args s with
  | .error _ => none
  | .ok args =>
      if args.sys ≠ some .addr ∧
          (args.bootmod = bootMediumSdio0 ∨ args.bootmod = bootMediumSdio1) ∧
          blkStart c.world.board (resolveAuto args.sys) ≠ imgPartNotExit then
        match currentBlkDesc c.world.board args.bootmod (s.pblkDesc.map c.world.now) with
        | .error _ => none
        | .ok d => some (d, blkStart c.world.board (resolveAuto args.sys))
      else
        none

/-- The header as it stands on the card. -/
def headOn (d : BlkDesc) (start : Nat) : FirmwareHead :=
  headAt (d.content.shift (blksz * start)) 0

/-- The header could be read and carries the magic number. -/
def GoodHead (d : BlkDesc) (start : Nat) : Prop :=
  throughInt (d.dread start hdBlkNum) = hdBlkNum ∧ (headOn d start).magic = k230ImageMagicNum

instance (d : BlkDesc) (start : Nat) : Decidable (GoodHead d start) :=
  inferInstanceAs (Decidable (_ ∧ _))

/-- `data_sect`. -/
def dataSect (d : BlkDesc) (start : Nat) : Nat :=
  sectors (headOn d start).length - hdBlkNum

/-- The reads of a card whose image goes to `buff`. -/
def cardReads (d : BlkDesc) (start buff : Nat) : List BlkRead :=
  ⟨d.devnum, start, hdBlkNum, buff⟩ ::
    if GoodHead d start then
      [⟨d.devnum, start + hdBlkNum, dataSect d start, buff + hdBlkNum * blksz⟩]
    else
      []

def decSecure (pufs : Pufs) (m : ByteMem) (pfh : Nat) : Except Int (List UInt8) :=
  let h := headAt m pfh
  if h.cryptoType = CryptoType.internationalSecurity.code then decInternational pufs m pfh
  else if h.cryptoType = CryptoType.chineseSecurity.code then decChinese pufs m pfh
  else if h.cryptoType = CryptoType.gcmOnly.code then decGcmOnly pufs m pfh
  else .error (-10)

/-- The plaintext that the secure path writes for the image at `pfh`, if it comes to that. -/
def plaintOf (pl : Platform) (m : ByteMem) (pfh : Nat) : Option (List UInt8) :=
  if (headAt m pfh).magic = k230ImageMagicNum ∧ pl.k230Pufs = true ∧ SecureType (headAt m pfh) then
    (decSecure pl.pufs m pfh).toOption
  else
    none

/-! ## The property -/

/-- The bytes that a `blk_dread` call on `d` stores. -/
def BlkRead.stored (d : BlkDesc) (r : BlkRead) : Set Nat :=
  extent r.buff (blksz * min (d.dread r.start r.blkcnt) r.blkcnt)

/-- The command, with `m` in memory when it starts. -/
def Command.withMem (c : Command) (m : ByteMem) : Command :=
  { c with world := { c.world with mem := m } }

/-- The memory behind the load of a command that gets to one. -/
def Command.loaded (c : Command) (s : Session) (args : BootArgs) : ByteMem :=
  (k230ImgLoadSysFromDev c.world.board args.bootmod (s.pblkDesc.map c.world.now) args.mem
    (resolveAuto args.sys) (k230GetEncryptedImageLoadAddr c.world.pl)).mem

/-- Everything that the command puts into memory until the image is checked and decrypted stays in
its window. -/
structure WindowsKept (c : Command) (s : Session) : Prop where
  /-- The reads from the card stay between the load address and the end of memory. -/
  reads : ∀ d, (c.run s).session.pblkDesc = some d → ∀ r ∈ (c.run s).reads,
    r.stored d ⊆ Set.Ico (k230GetEncryptedImageLoadAddr c.world.pl) (memEnd c.world.pl)
  /-- The load changes nothing else. -/
  loaded : ∀ args, c.args s = .ok args → args.sys ≠ some .addr →
    ∀ a, a ∉ Set.Ico (k230GetEncryptedImageLoadAddr c.world.pl) (memEnd c.world.pl) →
      c.loaded s args a = args.mem a
  /-- An image of a card that does not fit between them is not handed on. -/
  fits : ∀ d start pfh m, loadDevice c s = some (d, start) → imageAt c s = some (pfh, m) →
    pfh + headSize + (headOn d start).length.toNat ≤ memEnd c.world.pl
  /-- The arguments are prepared without a change outside the window below the load address, whatever
  is in memory: this is where the image of the `mem` command goes. -/
  moved : ∀ m args, (c.withMem m).args s = .ok args →
    ∀ a, a ∉ Set.Ico (k230GetEncryptedImageDecryptAddr c.world.pl)
        (k230GetEncryptedImageLoadAddr c.world.pl) → args.mem a = m a
  /-- The check stores the plaintext of a secure image, and that neither over the image nor over
  U-Boot. -/
  plaint : ∀ pfh m r, imageAt c s = some (pfh, m) →
    k230BootCheckAndGetPlainData c.world.pl m pfh = .ok r →
    match plaintOf c.world.pl m pfh with
    | none => r.mem = m
    | some plaint =>
        r.mem = m.write (k230GetEncryptedImageDecryptAddr c.world.pl) plaint ∧
          Disjoint (extent (k230GetEncryptedImageDecryptAddr c.world.pl) plaint.length)
            (extent pfh (headSize + (headAt m pfh).length.toNat)) ∧
          ubootTextBase c.world.pl ∉
            extent (k230GetEncryptedImageDecryptAddr c.world.pl) plaint.length

/-- The lengths that decide it, in bytes. -/
structure WindowsFit (c : Command) (s : Session) : Prop where
  /-- Header and data, as far as the card delivers them, fill at most a third of the memory. -/
  card : ∀ d start, loadDevice c s = some (d, start) →
    blksz * min (d.dread start hdBlkNum) hdBlkNum ≤ c.world.pl.configMemTotalSize / 3 ∧
      (GoodHead d start →
        min (d.dread (start + hdBlkNum) (dataSect d start)) (dataSect d start) = 0 ∨
          blksz * (hdBlkNum +
              min (d.dread (start + hdBlkNum) (dataSect d start)) (dataSect d start)) ≤
            c.world.pl.configMemTotalSize / 3)
  /-- So does the image that is moved. -/
  mem : ∀ src len, memImage c = some (src, len) → len ≤ c.world.pl.configMemTotalSize / 3
  /-- The plaintext ends in front of its image and in front of U-Boot, which stands a half below the
  end; an image that is at the decryption address itself has no room for any. -/
  plaint : ∀ pfh m plaint, imageAt c s = some (pfh, m) → plaintOf c.world.pl m pfh = some plaint →
    plaint.length ≤ pfh - k230GetEncryptedImageDecryptAddr c.world.pl ∧
      (k230GetEncryptedImageDecryptAddr c.world.pl ≤ ubootTextBase c.world.pl →
        plaint.length ≤ ubootTextBase c.world.pl - k230GetEncryptedImageDecryptAddr c.world.pl)

/-! ## One load -/

theorem le_of_throughInt {n k : Nat} (hk : k < 2 ^ 31) (h : throughInt n = k) : k ≤ n := by
  have hmod : n % 2 ^ 32 ≤ n := Nat.mod_le _ _
  unfold throughInt at h
  split at h
  · omega
  · omega

/-- A header is read back from the same bytes at another place. -/
theorem headAt_congr {m m' : ByteMem} {a a' : Nat}
    (h : ∀ i, i < headSize → m (a + i) = m' (a' + i)) : headAt m a = headAt m' a' := by
  have hpart : ∀ k n, k + n ≤ headSize → m.read (a + k) n = m'.read (a' + k) n := by
    intro k n hle
    refine List.map_congr_left ?_
    intro i hi
    have hi' : i < n := List.mem_range.1 hi
    rw [Nat.add_assoc, Nat.add_assoc]
    exact h (k + i) (by omega)
  have hword : ∀ k, k + 4 ≤ headSize → le32At m (a + k) = le32At m' (a' + k) := by
    intro k hle
    rw [le32At, le32At, hpart k 4 hle]
  apply FirmwareHead.ext_fields
  · exact hword 0 (by decide)
  · exact hword 4 (by decide)
  · exact hword 8 (by decide)
  · rw [headAt_verify, headAt_verify]
    exact hpart 12 516 (by decide)

section
variable {b : Board} {gBootMedium : Nat} {pblkDesc : Option BlkDesc} {m : ByteMem} {sys : BootSys}
  {buff : Nat} {d : BlkDesc}

/-- The header in memory behind a first read that was served is the one on the card. -/
theorem headAt_blkDread {start : Nat} (m : ByteMem) (buff : Nat)
    (h : throughInt (d.dread start hdBlkNum) = hdBlkNum) :
    headAt (blkDread d m start hdBlkNum buff).2 buff = headOn d start := by
  have hle : hdBlkNum ≤ d.dread start hdBlkNum := le_of_throughInt (by decide) h
  have hsize : headSize ≤ blksz * hdBlkNum := by decide
  apply headAt_congr
  intro i hi
  have hlen : i < (d.content.read (blksz * start) (blksz * hdBlkNum)).length := by
    rw [ByteMem.length_read]
    exact Nat.lt_of_lt_of_le hi hsize
  calc
    (blkDread d m start hdBlkNum buff).2 (buff + i)
        = m.write buff (d.content.read (blksz * start) (blksz * hdBlkNum)) (buff + i) := by
          rw [blkDread, Nat.min_eq_right hle]
    _ = (d.content.read (blksz * start) (blksz * hdBlkNum))[i] := m.write_at buff hlen
    _ = d.content (blksz * start + i) := ByteMem.getElem_read _ _
    _ = d.content.shift (blksz * start) (0 + i) := by
          rw [ByteMem.shift, Nat.zero_add]

/-- The second read is asked for exactly behind a good header, with the length on the card. -/
theorem load_reads (gBootMedium : Nat) (pblkDesc : Option BlkDesc) (m : ByteMem) (buff : Nat)
    (hpart : b.getBlkStart sys ≠ imgPartNotExit)
    (hdesc : currentBlkDesc b gBootMedium pblkDesc = .ok d) :
    (k230LoadSysFromMmcOrSd b gBootMedium pblkDesc m sys buff).pblkDesc = some d ∧
      (k230LoadSysFromMmcOrSd b gBootMedium pblkDesc m sys buff).reads =
        cardReads d (b.getBlkStart sys) buff ∧
      ((k230LoadSysFromMmcOrSd b gBootMedium pblkDesc m sys buff).ret = 0 →
        GoodHead d (b.getBlkStart sys) ∧
          throughInt (d.dread (b.getBlkStart sys + hdBlkNum) (dataSect d (b.getBlkStart sys))) =
            dataSect d (b.getBlkStart sys)) := by
  simp only [k230LoadSysFromMmcOrSd, if_neg hpart, hdesc]
  by_cases hread : throughInt (d.dread (b.getBlkStart sys) hdBlkNum) = hdBlkNum
  · have hhead := headAt_blkDread m buff hread
    have hfirst : throughInt (blkDread d m (b.getBlkStart sys) hdBlkNum buff).1 = hdBlkNum := hread
    rw [if_neg (not_not.2 hfirst), hhead]
    by_cases hmagic : (headOn d (b.getBlkStart sys)).magic = k230ImageMagicNum
    · have hgood : GoodHead d (b.getBlkStart sys) := ⟨hread, hmagic⟩
      rw [if_neg (not_not.2 hmagic), cardReads, if_pos hgood]
      refine ⟨rfl, rfl, ?_⟩
      intro hret
      refine ⟨hgood, ?_⟩
      by_contra hshort
      simp [blkDread, show sectors (headOn d (b.getBlkStart sys)).length - hdBlkNum =
        dataSect d (b.getBlkStart sys) from rfl, hshort] at hret
    · have hbad : ¬ GoodHead d (b.getBlkStart sys) := fun h => hmagic h.2
      rw [if_pos hmagic, cardReads, if_neg hbad]
      exact ⟨rfl, rfl, fun hret => absurd hret (show (5 : Int) ≠ 0 by decide)⟩
  · have hbad : ¬ GoodHead d (b.getBlkStart sys) := fun h => hread h.1
    have hfirst : throughInt (blkDread d m (b.getBlkStart sys) hdBlkNum buff).1 ≠ hdBlkNum := hread
    rw [if_pos hfirst, cardReads, if_neg hbad]
    exact ⟨rfl, rfl, fun hret => absurd hret (show (4 : Int) ≠ 0 by decide)⟩

/-- A read stores in its range. -/
theorem blkDread_frame {r : BlkRead} {a : Nat} (m : ByteMem) (ha : a ∉ r.stored d) :
    (blkDread d m r.start r.blkcnt r.buff).2 a = m a := by
  rw [BlkRead.stored, mem_extent] at ha
  apply ByteMem.write_frame
  rw [ByteMem.length_read]
  omega

/-- Memory outside the ranges of its reads is as before a load. -/
theorem load_frame {gBootMedium : Nat} {pblkDesc : Option BlkDesc} {a : Nat}
    (ha : ∀ d, currentBlkDesc b gBootMedium pblkDesc = .ok d →
      ∀ r ∈ (k230LoadSysFromMmcOrSd b gBootMedium pblkDesc m sys buff).reads, a ∉ r.stored d) :
    (k230LoadSysFromMmcOrSd b gBootMedium pblkDesc m sys buff).mem a = m a := by
  by_cases hpart : b.getBlkStart sys = imgPartNotExit
  · simp [k230LoadSysFromMmcOrSd, hpart]
  · cases hdesc : currentBlkDesc b gBootMedium pblkDesc with
    | error ret => simp [k230LoadSysFromMmcOrSd, hpart, hdesc]
    | ok d =>
        have hreads := ha d hdesc
        simp only [k230LoadSysFromMmcOrSd, if_neg hpart, hdesc] at hreads ⊢
        -- one read on the two early exits, two otherwise
        split_ifs at hreads ⊢
        · exact blkDread_frame m (hreads _ List.mem_cons_self)
        · exact blkDread_frame m (hreads _ List.mem_cons_self)
        all_goals
          have hdata := hreads _ (List.mem_cons_of_mem _ List.mem_cons_self)
          exact (blkDread_frame _ hdata).trans (blkDread_frame m (hreads _ List.mem_cons_self))

end

/-! ## One command -/

section
variable {c : Command} {s : Session} {d : BlkDesc} {start pfh : Nat} {m : ByteMem}

/-! What `do_k230_boot` does with its arguments. -/

theorem Command.run_of_error {ret : Int} (hargs : c.args s = .error ret) :
    c.run s = ⟨.returned ret, s, []⟩ := by
  unfold Command.args at hargs
  rw [Command.run, doK230Boot, hargs]

theorem Command.run_of_addr {args : BootArgs} (hargs : c.args s = .ok args)
    (haddr : args.sys = some .addr) :
    c.run s = ⟨(k230ImgBootSysBin c.world.pl c.world.unzip args.mem
        (k230GetEncryptedImageDecryptAddr c.world.pl)).outcome,
      { s with gBootMedium := args.bootmod }, []⟩ := by
  unfold Command.args at hargs
  simp only [Command.run, doK230Boot, hargs, if_pos haddr]

theorem Command.run_of_load {args : BootArgs} (hargs : c.args s = .ok args)
    (haddr : args.sys ≠ some .addr) :
    c.run s = k230ImgLoadBootSys c.world { s with gBootMedium := args.bootmod } args.mem
      args.sys := by
  unfold Command.args at hargs
  simp only [Command.run, doK230Boot, hargs, if_neg haddr]

/-- A command that reads a card: what it reads, and what an image that it hands on tells. -/
theorem run_of_loadDevice (h : loadDevice c s = some (d, start)) :
    (c.run s).session.pblkDesc = some d ∧
      (c.run s).reads = cardReads d start (k230GetEncryptedImageLoadAddr c.world.pl) ∧
      ∀ pfh m, imageAt c s = some (pfh, m) →
        pfh = k230GetEncryptedImageLoadAddr c.world.pl ∧ GoodHead d start ∧
          throughInt (d.dread (start + hdBlkNum) (dataSect d start)) = dataSect d start := by
  unfold loadDevice at h
  cases hargs : c.args s with
  | error ret => simp [hargs] at h
  | ok args =>
      simp only [hargs] at h
      split at h
      · rename_i hcond
        rcases hcond with ⟨haddr, hmmc, hpart⟩
        cases hdesc : currentBlkDesc c.world.board args.bootmod (s.pblkDesc.map c.world.now) with
        | error ret => simp [hdesc] at h
        | ok d' =>
            simp only [hdesc, Option.some.injEq, Prod.mk.injEq] at h
            rcases h with ⟨rfl, rfl⟩
            cases hsys : resolveAuto args.sys with
            | none => simp [hsys, blkStart] at hpart
            | some sys =>
                simp only [hsys, blkStart] at hpart ⊢
                have hload := load_reads args.bootmod (s.pblkDesc.map c.world.now) args.mem
                  (k230GetEncryptedImageLoadAddr c.world.pl) hpart hdesc
                have hrun := Command.run_of_load hargs haddr
                refine ⟨?_, ?_, ?_⟩
                · simpa only [hrun, k230ImgLoadBootSys, k230ImgLoadSysFromDev, if_pos hmmc,
                    hsys] using hload.1
                · simpa only [hrun, k230ImgLoadBootSys, k230ImgLoadSysFromDev, if_pos hmmc,
                    hsys] using hload.2.1
                · intro pfh m himage
                  simp only [imageAt, hargs, if_neg haddr, k230ImgLoadSysFromDev, if_pos hmmc,
                    hsys] at himage
                  split at himage
                  · rename_i hret
                    cases himage
                    exact ⟨rfl, hload.2.2 hret⟩
                  · cases himage
      · cases h

/-- Any other command reads nothing. -/
theorem reads_of_no_loadDevice (h : loadDevice c s = none) : (c.run s).reads = [] := by
  unfold loadDevice at h
  cases hargs : c.args s with
  | error ret => rw [Command.run_of_error hargs]
  | ok args =>
      simp only [hargs] at h
      by_cases haddr : args.sys = some .addr
      · rw [Command.run_of_addr hargs haddr]
      · rw [Command.run_of_load hargs haddr]
        simp only [k230ImgLoadBootSys, k230ImgLoadSysFromDev]
        by_cases hmmc : args.bootmod = bootMediumSdio0 ∨ args.bootmod = bootMediumSdio1
        · rw [if_pos hmmc]
          cases hsys : resolveAuto args.sys with
          | none => rfl
          | some sys =>
              by_cases hpart : c.world.board.getBlkStart sys = imgPartNotExit
              · simp [k230LoadSysFromMmcOrSd, hpart]
              · have hpart' : blkStart c.world.board (resolveAuto args.sys) ≠ imgPartNotExit := by
                  rw [hsys]
                  exact hpart
                rw [if_pos ⟨haddr, hmmc, hpart'⟩] at h
                cases hdesc : currentBlkDesc c.world.board args.bootmod
                    (s.pblkDesc.map c.world.now) with
                | ok d => simp [hdesc] at h
                | error ret => simp [k230LoadSysFromMmcOrSd, hpart, hdesc]
        · rw [if_neg hmmc]

theorem imageAt_addr (h : imageAt c s = some (pfh, m)) :
    pfh = k230GetEncryptedImageDecryptAddr c.world.pl ∨
      pfh = k230GetEncryptedImageLoadAddr c.world.pl := by
  unfold imageAt at h
  cases hargs : c.args s with
  | error ret => simp [hargs] at h
  | ok args =>
      simp only [hargs] at h
      split at h
      · cases h
        exact .inl rfl
      · split at h
        · cases h
          exact .inr rfl
        · cases h

/-- The outcome of a command is that of the image it hands on. -/
theorem outcome_of_imageAt (h : imageAt c s = some (pfh, m)) :
    (c.run s).outcome = (k230ImgBootSysBin c.world.pl c.world.unzip m pfh).outcome := by
  unfold imageAt at h
  cases hargs : c.args s with
  | error ret => simp [hargs] at h
  | ok args =>
      simp only [hargs] at h
      split at h
      · rename_i haddr
        cases h
        rw [Command.run_of_addr hargs haddr]
      · rename_i haddr
        rw [Command.run_of_load hargs haddr]
        split at h
        · rename_i hret
          cases h
          simp only [k230ImgLoadBootSys, if_pos hret]
        · cases h

end

/-! ## The `mem` command -/

section
variable {c : Command} {s : Session} {args : BootArgs}

/-- What the arguments leave in memory. -/
theorem mem_of_args (h : c.args s = .ok args) :
    (memImage c = none ∧ args.mem = c.world.mem) ∨
      ∃ src len, memImage c = some (src, len) ∧
        args.mem = c.world.mem.write (k230GetEncryptedImageDecryptAddr c.world.pl)
          (c.world.mem.read src len) := by
  unfold Command.args k230BootPrepareArgs at h
  unfold memImage
  rcases hargv : c.argv with _ | ⟨_, _ | ⟨arg₁, _ | ⟨arg₂, rest⟩⟩⟩
  · simp [hargv] at h
  · simp [hargv] at h
  · simp [hargv] at h
  · simp only [hargv] at h
    by_cases hmem : arg₁ = "mem"
    · rcases rest with _ | ⟨arg₃, rest⟩
      · simp [hmem] at h
      · simp only [if_pos hmem, Except.ok.injEq] at h
        subst h
        by_cases hsame : c.world.simpleStrtoul arg₂ ≠ k230GetEncryptedImageDecryptAddr c.world.pl
        · exact .inr ⟨c.world.simpleStrtoul arg₂, c.world.simpleStrtoul arg₃,
            by simp [hmem, hsame], by simp [hsame]⟩
        · exact .inl ⟨by simp [hsame], by simp [hsame]⟩
    · simp only [if_neg hmem, Except.ok.injEq] at h
      subst h
      left
      refine ⟨?_, rfl⟩
      cases rest with
      | nil => rfl
      | cons arg₃ rest => simp [hmem]

/-- A `mem` command that has an image to move moves it. -/
theorem args_of_memImage {src len : Nat} (h : memImage c = some (src, len)) :
    (∃ args, c.args s = .ok args) ∧ src ≠ k230GetEncryptedImageDecryptAddr c.world.pl := by
  unfold memImage at h
  unfold Command.args k230BootPrepareArgs
  rcases hargv : c.argv with _ | ⟨_, _ | ⟨arg₁, _ | ⟨arg₂, _ | ⟨arg₃, rest⟩⟩⟩⟩
  · simp [hargv] at h
  · simp [hargv] at h
  · simp [hargv] at h
  · simp [hargv] at h
  · simp only [hargv] at h
    split at h
    · rename_i hcond
      rcases hcond with ⟨hmem, hne⟩
      cases h
      exact ⟨⟨_, by simp only [if_pos hmem]; rfl⟩, hne⟩
    · cases h

/-- Whatever is in memory, the arguments change it in front of `bound` only, exactly when the image
that they move ends there. -/
theorem moved_iff (c : Command) (s : Session) (window : Nat) :
    (∀ m args, (c.withMem m).args s = .ok args →
        ∀ a, a ∉ extent (k230GetEncryptedImageDecryptAddr c.world.pl) window → args.mem a = m a) ↔
      ∀ src len, memImage c = some (src, len) → len ≤ window := by
  constructor
  · intro h src len himage
    by_contra hlong
    -- a memory in which the byte that is moved first over the end differs from what stands there
    let last := src + window
    let m : ByteMem := fun a => if a = last then 1 else 0
    have himage' : memImage (c.withMem m) = some (src, len) := himage
    rcases args_of_memImage (s := s) himage' with ⟨⟨args, hargs⟩, hne⟩
    have hkept := h m args hargs (k230GetEncryptedImageDecryptAddr c.world.pl + window)
      (by simp [mem_extent])
    rcases mem_of_args hargs with ⟨hnone, _⟩ | ⟨src', len', himage'', hmem⟩
    · rw [himage'] at hnone
      cases hnone
    · rw [himage'] at himage''
      cases himage''
      have hin : window < (m.read src len).length := by
        rw [ByteMem.length_read]
        omega
      have hmoved : args.mem (k230GetEncryptedImageDecryptAddr c.world.pl + window) = 1 := by
        rw [hmem]
        refine (ByteMem.write_at _ _ hin).trans ?_
        simp [m, last]
      have hother : m (k230GetEncryptedImageDecryptAddr c.world.pl + window) = 0 := by
        have hne' : k230GetEncryptedImageDecryptAddr c.world.pl + window ≠ src + window := by
          intro heq
          exact hne (Nat.add_right_cancel heq).symm
        exact if_neg hne'
      rw [hmoved, hother] at hkept
      exact absurd hkept (by decide)
  · intro h m args hargs a ha
    rcases mem_of_args hargs with ⟨_, hmem⟩ | ⟨src, len, himage, hmem⟩
    · rw [hmem]
      rfl
    · have hlen := h src len himage
      rw [hmem]
      rw [mem_extent] at ha
      apply ByteMem.write_frame
      rw [ByteMem.length_read]
      show a < k230GetEncryptedImageDecryptAddr c.world.pl ∨
        k230GetEncryptedImageDecryptAddr c.world.pl + len ≤ a
      omega

end

/-! ## The secure path -/

section
variable {pl : Platform} {m : ByteMem} {pfh : Nat}

theorem securiy_eq_dec (pl : Platform) (m : ByteMem) (pfh : Nat) :
    k230BootCheckAndGetPlainDataSecuriy pl m pfh =
      Plain.decrypted pl m <$> decSecure pl.pufs m pfh := by
  simp only [k230BootCheckAndGetPlainDataSecuriy, decSecure]
  split_ifs
  · rfl
  · rfl
  · rfl
  · rfl

/-- An image with a plaintext is accepted, and the plaintext goes to the decryption address. -/
theorem check_of_plaintOf {plaint : List UInt8} (h : plaintOf pl m pfh = some plaint) :
    k230BootCheckAndGetPlainData pl m pfh = .ok (Plain.decrypted pl m plaint) := by
  unfold plaintOf at h
  split at h
  · rename_i hcond
    rcases hcond with ⟨hmagic, hpufs, hsecure⟩
    have hcode : k230BootCheckAndGetPlainData pl m pfh =
        k230BootCheckAndGetPlainDataSecuriy pl m pfh := by
      simp [k230BootCheckAndGetPlainData, hmagic, hsecure.ne_noneSecurity,
        show _ ∨ _ ∨ _ from hsecure, hpufs]
    cases hdec : decSecure pl.pufs m pfh with
    | error ret =>
        rw [hdec] at h
        cases h
    | ok plaint' =>
        rw [hdec] at h
        cases h
        rw [hcode, securiy_eq_dec, hdec]
        rfl
  · cases h

/-- The check of any other image leaves memory as it is. -/
theorem mem_of_no_plaintOf {r : Plain} (h : plaintOf pl m pfh = none)
    (hcheck : k230BootCheckAndGetPlainData pl m pfh = .ok r) : r.mem = m := by
  simp only [k230BootCheckAndGetPlainData] at hcheck
  split_ifs at hcheck with hmagic hnone hsecure hpufs
  · rcases except_bind_eq_ok.1 hcheck with ⟨_, _, hr⟩
    cases hr
    rfl
  · have hcond : (headAt m pfh).magic = k230ImageMagicNum ∧ pl.k230Pufs = true ∧
        SecureType (headAt m pfh) := ⟨not_not.1 hmagic, hpufs, hsecure⟩
    rw [plaintOf, if_pos hcond] at h
    rw [securiy_eq_dec] at hcheck
    rcases except_map_eq_ok.1 hcheck with ⟨plaint, hdec, _⟩
    rw [hdec] at h
    cases h
  · cases hcheck
    rfl

/-- The check stores the plaintext at the decryption address, or nothing. -/
theorem mem_of_check {r : Plain} (hcheck : k230BootCheckAndGetPlainData pl m pfh = .ok r) :
    (plaintOf pl m pfh = none ∧ r.mem = m) ∨
      ∃ plaint, plaintOf pl m pfh = some plaint ∧
        r.mem = m.write (k230GetEncryptedImageDecryptAddr pl) plaint := by
  cases hplaint : plaintOf pl m pfh with
  | none => exact .inl ⟨rfl, mem_of_no_plaintOf hplaint hcheck⟩
  | some plaint =>
      rw [check_of_plaintOf hplaint] at hcheck
      cases hcheck
      exact .inr ⟨plaint, rfl, rfl⟩

end

/-! ## The windows are kept -/

section
variable {c : Command} {s : Session} {d : BlkDesc} {start : Nat}

/-- The first read fills the window from its start, the second behind two sectors of it. -/
theorem cardReads_iff (pl : Platform) (d : BlkDesc) (start : Nat) :
    (∀ r ∈ cardReads d start (k230GetEncryptedImageLoadAddr pl),
        r.stored d ⊆ Set.Ico (k230GetEncryptedImageLoadAddr pl) (memEnd pl)) ↔
      blksz * min (d.dread start hdBlkNum) hdBlkNum ≤ pl.configMemTotalSize / 3 ∧
        (GoodHead d start →
          min (d.dread (start + hdBlkNum) (dataSect d start)) (dataSect d start) = 0 ∨
            blksz * (hdBlkNum +
                min (d.dread (start + hdBlkNum) (dataSect d start)) (dataSect d start)) ≤
              pl.configMemTotalSize / 3) := by
  have hend := loadAddr_add pl
  have hfirst : BlkRead.stored d ⟨d.devnum, start, hdBlkNum, k230GetEncryptedImageLoadAddr pl⟩ ⊆
        Set.Ico (k230GetEncryptedImageLoadAddr pl) (memEnd pl) ↔
      blksz * min (d.dread start hdBlkNum) hdBlkNum ≤ pl.configMemTotalSize / 3 := by
    simp only [BlkRead.stored, extent_subset_iff]
    omega
  have hsecond : BlkRead.stored d ⟨d.devnum, start + hdBlkNum, dataSect d start,
          k230GetEncryptedImageLoadAddr pl + hdBlkNum * blksz⟩ ⊆
        Set.Ico (k230GetEncryptedImageLoadAddr pl) (memEnd pl) ↔
      min (d.dread (start + hdBlkNum) (dataSect d start)) (dataSect d start) = 0 ∨
        blksz * (hdBlkNum +
            min (d.dread (start + hdBlkNum) (dataSect d start)) (dataSect d start)) ≤
          pl.configMemTotalSize / 3 := by
    rw [BlkRead.stored, extent_subset_iff, Nat.mul_add, Nat.mul_comm hdBlkNum blksz,
      Nat.mul_eq_zero]
    have hblksz : blksz ≠ 0 := by decide
    simp only [hblksz, false_or, Nat.le_add_right, true_and]
    omega
  rw [cardReads, List.forall_mem_cons, hfirst]
  by_cases hgood : GoodHead d start
  · simp [hgood, hsecond]
  · simp [hgood]

/-- The plaintext of an image that the command hands on. -/
theorem plaint_apart_iff {pl : Platform} {pfh : Nat} (hlen n : Nat)
    (haddr : pfh = k230GetEncryptedImageDecryptAddr pl ∨ pfh = k230GetEncryptedImageLoadAddr pl) :
    (Disjoint (extent (k230GetEncryptedImageDecryptAddr pl) n) (extent pfh (headSize + hlen)) ∧
        ubootTextBase pl ∉ extent (k230GetEncryptedImageDecryptAddr pl) n) ↔
      n ≤ pfh - k230GetEncryptedImageDecryptAddr pl ∧
        (k230GetEncryptedImageDecryptAddr pl ≤ ubootTextBase pl →
          n ≤ ubootTextBase pl - k230GetEncryptedImageDecryptAddr pl) := by
  have hdec := decryptAddr_add pl
  have hhead : headSize = 528 := rfl
  have hle : k230GetEncryptedImageDecryptAddr pl ≤ pfh := by
    rcases haddr with rfl | rfl
    · exact le_rfl
    · omega
  refine and_congr ?_ ?_
  · rw [disjoint_extent_iff]
    omega
  · rw [mem_extent]
    omega

/-- The plaintext clause, for an image that is handed on. -/
theorem plaint_iff {pl : Platform} {pfh : Nat} {m : ByteMem}
    (haddr : pfh = k230GetEncryptedImageDecryptAddr pl ∨ pfh = k230GetEncryptedImageLoadAddr pl) :
    (∀ r, k230BootCheckAndGetPlainData pl m pfh = .ok r →
        match plaintOf pl m pfh with
        | none => r.mem = m
        | some plaint =>
            r.mem = m.write (k230GetEncryptedImageDecryptAddr pl) plaint ∧
              Disjoint (extent (k230GetEncryptedImageDecryptAddr pl) plaint.length)
                (extent pfh (headSize + (headAt m pfh).length.toNat)) ∧
              ubootTextBase pl ∉ extent (k230GetEncryptedImageDecryptAddr pl) plaint.length) ↔
      ∀ plaint, plaintOf pl m pfh = some plaint →
        plaint.length ≤ pfh - k230GetEncryptedImageDecryptAddr pl ∧
          (k230GetEncryptedImageDecryptAddr pl ≤ ubootTextBase pl →
            plaint.length ≤ ubootTextBase pl - k230GetEncryptedImageDecryptAddr pl) := by
  constructor
  · intro h plaint hplaint
    have hstored := h _ (check_of_plaintOf hplaint)
    simp only [hplaint] at hstored
    exact (plaint_apart_iff _ _ haddr).1 hstored.2
  · intro h r hcheck
    rcases mem_of_check hcheck with ⟨hnone, hmem⟩ | ⟨plaint, hplaint, hmem⟩
    · simp only [hnone]
      exact hmem
    · simp only [hplaint]
      exact ⟨hmem, (plaint_apart_iff _ _ haddr).2 (h plaint hplaint)⟩

/-- A load whose reads keep to a window changes nothing outside it. -/
theorem loaded_frame {args : BootArgs} {window : Set Nat} (hargs : c.args s = .ok args)
    (haddr : args.sys ≠ some .addr)
    (hreads : ∀ d, (c.run s).session.pblkDesc = some d → ∀ r ∈ (c.run s).reads,
      r.stored d ⊆ window) {a : Nat} (ha : a ∉ window) : c.loaded s args a = args.mem a := by
  rw [Command.run_of_load hargs haddr] at hreads
  simp only [k230ImgLoadBootSys, k230ImgLoadSysFromDev] at hreads
  simp only [Command.loaded, k230ImgLoadSysFromDev]
  split_ifs at hreads ⊢
  · cases hsys : resolveAuto args.sys with
    | none => rfl
    | some sys =>
        simp only [hsys] at hreads ⊢
        refine load_frame ?_
        intro d hdesc r hr hmem
        by_cases hpart : c.world.board.getBlkStart sys = imgPartNotExit
        · simp [k230LoadSysFromMmcOrSd, hpart] at hr
        · have hkept := (load_reads args.bootmod (s.pblkDesc.map c.world.now) args.mem
            (k230GetEncryptedImageLoadAddr c.world.pl) hpart hdesc).1
          exact ha (hreads d hkept r hr hmem)
  · rfl

/-- The reads of a command whose lengths fit. -/
theorem WindowsFit.reads (h : WindowsFit c s) (hdesc : (c.run s).session.pblkDesc = some d) :
    ∀ r ∈ (c.run s).reads,
      r.stored d ⊆ Set.Ico (k230GetEncryptedImageLoadAddr c.world.pl) (memEnd c.world.pl) := by
  cases hload : loadDevice c s with
  | none =>
      rw [reads_of_no_loadDevice hload]
      intro r hr
      cases hr
  | some found =>
      rcases found with ⟨d', start⟩
      rcases run_of_loadDevice hload with ⟨hdesc', hreads, _⟩
      cases Option.some.inj (hdesc.symm.trans hdesc')
      rw [hreads]
      exact (cardReads_iff c.world.pl d start).2 (h.card d start hload)

/-- An image is handed on only when all its sectors were delivered, and these fit. -/
theorem WindowsFit.fits (h : WindowsFit c s) {pfh : Nat} {m : ByteMem}
    (hload : loadDevice c s = some (d, start)) (himage : imageAt c s = some (pfh, m)) :
    pfh + headSize + (headOn d start).length.toNat ≤ memEnd c.world.pl := by
  have hend := loadAddr_add c.world.pl
  rcases (run_of_loadDevice hload).2.2 pfh m himage with ⟨rfl, hgood, hfull⟩
  rcases h.card d start hload with ⟨hfirst, hsecond⟩
  have hserved : hdBlkNum ≤ d.dread start hdBlkNum := le_of_throughInt (by decide) hgood.1
  have hlt : dataSect d start < 2 ^ 31 := Nat.lt_of_le_of_lt (Nat.sub_le _ _) (sectors_lt _)
  have hdata : dataSect d start ≤ d.dread (start + hdBlkNum) (dataSect d start) :=
    le_of_throughInt hlt hfull
  have hsectors := length_le_sectors (headOn d start).length
  have hsum : hdBlkNum + dataSect d start = sectors (headOn d start).length :=
    Nat.add_sub_cancel' (hdBlkNum_le_sectors _)
  have hroom := hsecond hgood
  rw [Nat.min_eq_right hserved] at hfirst
  rw [Nat.min_eq_right hdata, hsum] at hroom
  have hfits : blksz * sectors (headOn d start).length ≤ c.world.pl.configMemTotalSize / 3 := by
    rcases hroom with hzero | hroom
    · -- the two sectors of the header hold the whole image
      rw [← hsum, hzero, Nat.add_zero]
      exact hfirst
    · exact hroom
  omega

/-- A command keeps to the windows exactly when the lengths fit. -/
theorem windowsKept_iff (c : Command) (s : Session) : WindowsKept c s ↔ WindowsFit c s := by
  have hwindow : extent (k230GetEncryptedImageDecryptAddr c.world.pl)
      (c.world.pl.configMemTotalSize / 3) =
        Set.Ico (k230GetEncryptedImageDecryptAddr c.world.pl)
          (k230GetEncryptedImageLoadAddr c.world.pl) := by
    rw [extent, decryptAddr_add]
  constructor
  · intro h
    constructor
    · intro d start hload
      rcases run_of_loadDevice hload with ⟨hdesc, hreads, _⟩
      refine (cardReads_iff c.world.pl d start).1 ?_
      rw [← hreads]
      exact h.reads d hdesc
    · refine (moved_iff c s _).1 ?_
      rw [hwindow]
      exact h.moved
    · intro pfh m plaint himage
      exact (plaint_iff (imageAt_addr himage)).1 (fun r => h.plaint pfh m r himage) plaint
  · intro h
    constructor
    · intro d hdesc
      exact h.reads hdesc
    · intro args hargs haddr a ha
      exact loaded_frame hargs haddr (fun d hdesc => h.reads hdesc) ha
    · intro d start pfh m hload himage
      exact h.fits hload himage
    · rw [← hwindow]
      exact (moved_iff c s _).2 h.mem
    · intro pfh m r himage
      exact (plaint_iff (imageAt_addr himage)).2 (fun plaint => h.plaint pfh m plaint himage) r

end

/-! ## A card with a large length -/

/-- The two words "K230" and 50000000 stand where the RT-Smart image starts. -/
def longCard : BlkDesc where
  devnum := 0
  content := ByteMem.write (fun _ => 0) (blksz * rttSysInImgOffSec) (toLe 4 0x3033324B ++ toLe 4 50000000)
  dread := fun _ blkcnt => blkcnt

def longCardBoot : Command where
  world := { blankCards with
    board := { blankCards.board with findMmcDevice := fun _ => some ⟨false, some longCard⟩ } }
  argv := ["k230_boot", "sdio0", "rtt"]

/-- A third of the 128 MiB is less than the 50 MB that the header asks for. -/
theorem longCardBoot_leaves_window :
    (longCardBoot.run ⟨bootMediumSdio0, none⟩).session.pblkDesc = some longCard ∧
      ¬ WindowsKept longCardBoot ⟨bootMediumSdio0, none⟩ := by
  have hload : loadDevice longCardBoot ⟨bootMediumSdio0, none⟩ = some (longCard, rttSysInImgOffSec) :=
    rfl
  rcases run_of_loadDevice hload with ⟨hdesc, hreads, _⟩
  refine ⟨hdesc, ?_⟩
  intro h
  have hkept := h.reads longCard hdesc
  rw [hreads] at hkept
  have hgood : GoodHead longCard rttSysInImgOffSec := by
    decide +kernel
  have hlarge := ((cardReads_iff longCardBoot.world.pl longCard rttSysInImgOffSec).1 hkept).2 hgood
  revert hlarge
  decide +kernel

end Boot
end CanmvK230
