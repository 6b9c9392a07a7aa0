import CanmvK230.Boot.RoundTrip
import CanmvK230.Burn.MediumDownload

/-!
# Burnt — an image from the script over the gadget and the card to the check

The file of `firmware_gen.py -n` is downloaded to the sectors of its partition, in packets of any lengths.
When `WRITE DONE` has been answered, the boot code that reads the card from there has the image in memory,
accepts it, and finds behind the header what the script was given (`burnt_image_boots`).
-/

namespace CanmvK230
namespace Boot

open Lib

section

variable {b : Board} {gBootMedium : Nat} {pblkDesc : Option BlkDesc} {m : ByteMem} {sys : BootSys}
  {buff : Nat} {d : BlkDesc} {content : ByteMem} {h : FirmwareHead} {body : List UInt8}

/-- The device that is used has these contents, and serves the two reads of an image with the header `h`. -/
structure Served (b : Board) (gBootMedium : Nat) (pblkDesc : Option BlkDesc) (sys : BootSys) (d : BlkDesc)
    (content : ByteMem) (h : FirmwareHead) : Prop where
  start : b.getBlkStart sys ≠ imgPartNotExit
  desc : currentBlkDesc b gBootMedium pblkDesc = .ok d
  content : d.content = content
  head : d.dread (b.getBlkStart sys) hdBlkNum = hdBlkNum
  data : d.dread (b.getBlkStart sys + hdBlkNum) (sectors h.length - hdBlkNum) =
    sectors h.length - hdBlkNum

/-- An image on the card is loaded. -/
theorem Served.load (hserved : Served b gBootMedium pblkDesc sys d content h)
    (hmagic : h.magic = k230ImageMagicNum) (hlen : body.length = h.length.toNat)
    (hread : content.read (blksz * b.getBlkStart sys) (h.toBytes ++ body).length = h.toBytes ++ body) :
    (k230LoadSysFromMmcOrSd b gBootMedium pblkDesc m sys buff).ret = 0 ∧
      HoldsImage (k230LoadSysFromMmcOrSd b gBootMedium pblkDesc m sys buff).mem buff h body := by
  have hdev := hread
  rw [← hserved.content] at hdev
  have hhead : d.content.read (blksz * b.getBlkStart sys) headSize = h.toBytes :=
    ByteMem.read_part [] body hdev rfl rfl h.length_toBytes
  have hrun := @load_of_reads b gBootMedium pblkDesc m sys buff d h hserved.start hserved.desc hhead hmagic
    hserved.head hserved.data
  rw [hrun]
  refine ⟨rfl, ?_⟩
  have hle : (h.toBytes ++ body).length ≤ blksz * sectors h.length := by
    rw [List.length_append, h.length_toBytes, hlen]
    exact length_le_sectors _
  exact read_write_sectors m buff hle hdev

end

section

variable {σ : Type} {g : Gen} {pl : Platform} {p file : List UInt8}

/-- What the boot code makes of the sector `start` of a card with these contents. -/
def BootsPlain (pl : Platform) (g : Gen) (p : List UInt8) (start : Nat) (content : ByteMem) : Prop :=
  ∀ b gBootMedium pblkDesc m sys buff d, b.getBlkStart sys = start →
    Served b gBootMedium pblkDesc sys d content (noneHead g p) →
    (k230LoadSysFromMmcOrSd b gBootMedium pblkDesc m sys buff).ret = 0 ∧
      k230BootCheckAndGetPlainData pl (k230LoadSysFromMmcOrSd b gBootMedium pblkDesc m sys buff).mem buff =
        .ok ⟨some (payloadAddr buff), (k230LoadSysFromMmcOrSd b gBootMedium pblkDesc m sys buff).mem⟩ ∧
      (k230LoadSysFromMmcOrSd b gBootMedium pblkDesc m sys buff).mem.read (payloadAddr buff)
        (4 + p.length) = genVersion ++ p

/-- A download from `t` on of `size` bytes that begin with the file ends with a card that boots. -/
def BurntBoots (pl : Platform) (g : Gen) (p file : List UInt8) (board : Burn.Board σ) (view : σ → ByteMem)
    (start size : Nat) (t : Burn.KburnUsb σ) : Prop :=
  ∀ cs u c req, Run (Burn.StoredStep board) t cs u → Burn.MayComplete u c req →
    req.complete = .rxWriteLbaHandler → c.status = 0 → 0 < c.data.length → ¬ Burn.ChunkFails u c →
    file <+: (Burn.received (cs ++ [c])).take size → size ≤ (Burn.received (cs ++ [c])).length →
    ∃ v, Burn.outComplete board c u = .ok v ∧ Burn.Completed c u v ∧
      BootsPlain pl g p start (view v.medium)

/-- The file of the script, read from the card. -/
theorem bootsPlain_of_read {start : Nat} {content : ByteMem} (hbuild : pl.k230Pufs = false)
    (hsha : ∀ message, pl.sha256CsumWd message = g.sha256 message) (hp : 4 + p.length < 2 ^ 31)
    (hfile : firmwareGen g [.nonEncryption] p = some file)
    (hread : content.read (blksz * start) file.length = file) : BootsPlain pl g p start content := by
  rcases length_plain_file hp hfile with ⟨rfl, _⟩
  rintro b gBootMedium pblkDesc m sys buff d rfl hserved
  rcases @Served.load b gBootMedium pblkDesc m sys buff d _ _ _ hserved rfl (length_noneHead hp) hread with
    ⟨hret, hholds⟩
  exact ⟨hret, check_plain_image hbuild hsha hp hholds⟩

theorem burntBoots_of_keeps {board : Burn.Board σ} {view : σ → ByteMem} {base : ByteMem}
    {start size : Nat} {t : Burn.KburnUsb σ} (hbuild : pl.k230Pufs = false)
    (hsha : ∀ message, pl.sha256CsumWd message = g.sha256 message) (hp : 4 + p.length < 2 ^ 31)
    (hfile : firmwareGen g [.nonEncryption] p = some file)
    (hkeeps : Burn.DownloadKeeps board view base (blksz * start) size t) :
    BurntBoots pl g p file board view start size t := by
  intro cs u c req hrun hmay hmode hstatus hpos hgood hstarts hall
  rcases hkeeps cs u c req hrun hmay hmode hstatus hpos with ⟨v, hv, _, hstored⟩
  rcases hstored hgood with ⟨hcontent, hdone⟩
  rw [if_pos hall] at hdone
  refine ⟨v, hv, hdone, bootsPlain_of_read hbuild hsha hp hfile ?_⟩
  obtain ⟨rest, hrest⟩ := hstarts
  rw [hcontent, ← hrest]
  exact ByteMem.read_write_part _ [] rest rfl rfl rfl

/-- An image of the script that has been downloaded to the sectors of a card is booted from there. -/
theorem burnt_image_boots {mmc : Burn.Mmc} {bus : Burn.MmcBus σ} {v : Burn.MmcView σ}
    (hcard : Burn.MmcCard mmc bus v) (hfits : mmc.Fits) {k : Nat} (hk : k < 32)
    (hbl : mmc.writeBlLen.toNat = 2 ^ k) {board : Burn.Board σ} {s t : Burn.KburnUsb σ} {b : Burn.Kburn σ}
    (hw : b.writeMedium = some (Burn.mmcWriteMedium (Burn.coreDesc mmc bus k hk))) {c₀ : Burn.Completion}
    {offset size : UInt64} (hburner : s.burner = some b)
    (haccepted : Burn.WriteAccepted board s c₀ offset size t) (hoffset : 2 ^ k ∣ offset.toNat)
    (hsize : 2 ^ k ∣ size.toNat) (hrange : offset.toNat + size.toNat ≤ mmc.lba.toNat * 2 ^ k)
    (hlt : size.toNat < 2 ^ 32) {start : Nat} (hstart : offset.toNat = blksz * start)
    (hbuild : pl.k230Pufs = false) (hsha : ∀ message, pl.sha256CsumWd message = g.sha256 message)
    (hp : 4 + p.length < 2 ^ 31) (hfile : firmwareGen g [.nonEncryption] p = some file) :
    BurntBoots pl g p file board v.content start size.toNat t := by
  have hkept := Burn.keepsRange_mmc hcard hfits hk hbl offset.toNat (Dvd.dvd.add hoffset hsize) hrange
  have hkeeps := Burn.download_keepsRange hw hburner haccepted hoffset
    (Burn.range_lt_of_fits hfits hk hrange) hlt hkept
  rw [hstart] at hkeeps
  exact burntBoots_of_keeps hbuild hsha hp hfile hkeeps

/-- The image of an instruction that does nothing, downloaded to the third block of a card of 64. -/
theorem burnt_image_boots_nop :
    ∃ t, Burn.WriteAccepted (Burn.cardBoard 32768 Burn.ramCardWrite) Burn.ramCardReady
        (Burn.hostSends (Burn.lbaPkt .writeLba 1024 2048)) 1024 2048 t ∧
      BurntBoots nopPlatform demoGen nopInput nopFile (Burn.cardBoard 32768 Burn.ramCardWrite)
        Burn.RamCard.bytes 2 2048 t := by
  have hp : 4 + nopInput.length < 2 ^ 31 := by
    decide
  rcases Burn.idle_ramCardReady.writeAccepted (Burn.cardBoard 32768 Burn.ramCardWrite) 1024 2048 rfl
    (by decide) (by decide) with ⟨t, hacc⟩
  refine ⟨t, hacc, ?_⟩
  exact burnt_image_boots Burn.card_ramCardBus Burn.fits_smallMmc (by decide) (by decide)
    (b := Burn.cardBurner 32768 Burn.ramCardWrite) rfl rfl hacc (by decide) (by decide) (by decide)
    (by decide) (show (1024 : UInt64).toNat = blksz * 2 by decide) rfl (fun _ => rfl) hp
    (firmwareGen_nonEncryption demoGen hp)

end

end Boot
end CanmvK230
