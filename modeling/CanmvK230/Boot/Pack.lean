import CanmvK230.Boot.BootSys
import CanmvK230.Boot.RoundTrip

/-!
# Pack — from a binary to a system image and back

`bin_gzip_ubootHead_firmHead` compresses a binary, marks the stream for the hardware decompressor by
changing its method byte from 8 to 9, wraps it with `mkimage` and adds the firmware header. The boot
path undoes the layers one by one. The gzip tool is known by what its streams look like
(`GzipStream`), the decompressor by what it does with a whole stream (`Unzip.Inflates`).

Main results:
* `k230Gzip_gzipStream`: `sed` changes the method byte and nothing else;
* `bootKind_packed`: for both layouts the boot path finds exactly the stream;
* `packed_image_unpacks`: the hardware is started on it with the size of the binary, and memory holds
  the binary when control is handed over.
-/

namespace CanmvK230
namespace Boot

open Lib

/-! ## Packing -/

/-- What the text of a gzip stream of `b` is known to look like: magic number and method in front,
the size of `b` at the end, and the documented bound on its length. -/
structure GzipStream (gz b : List UInt8) : Prop where
  header : ∃ rest, gz = 0x1f :: 0x8b :: 8 :: rest
  trailer : ∃ body, gz = body ++ toLe 4 b.length
  long : 18 ≤ gz.length
  short : gz.length ≤ b.length + 5 * (b.length / 32768 + 1) + 1024

/-- `sed -e "1s/\\x08/\\x09/"`: the first byte 8 of the first line becomes 9. -/
def sedMethod : List UInt8 → List UInt8
  | [] => []
  -- The search ends with the first line; without the flag `g` one byte is replaced.
  | c :: cs => if c = 0x0a then c :: cs else if c = 8 then 9 :: cs else c :: sedMethod cs

/-- `k230_gzip`, for the stream that its compressor wrote. -/
def k230Gzip (gz : List UInt8) : List UInt8 := sedMethod gz

/-- The two systems that are packed: OpenSBI with RT-Smart as a multi-file image, U-Boot as a firmware
image. -/
inductive PackKind where
  | rtt
  | uboot
deriving DecidableEq, Repr

/-- The options for `mkimage` that the two callers pass, with what `mkimage` adds on its own. -/
structure MkimageArgs where
  kind : PackKind
  time : Nat
  addr : Nat
  ep : Nat
  addr_lt : addr < 2 ^ 32

def PackKind.name : PackKind → String
  | .rtt => "rtt"
  | .uboot => "uboot"

def PackKind.os : PackKind → UInt8
  | .rtt => 27
  | .uboot => 17

/-- `IH_TYPE_MULTI` and `IH_TYPE_FIRMWARE`. -/
def PackKind.type : PackKind → UInt8
  | .rtt => 4
  | .uboot => 5

/-- What `mkimage` writes behind the header: the single file, for a multi-file image behind the table
of its size and the zero word that ends it. The last file of a table is not padded. -/
def mkimageData : PackKind → List UInt8 → List UInt8
  | .rtt, file => toBe 4 file.length ++ [0, 0, 0, 0] ++ file
  | .uboot, file => file

/-- `strncpy` into the name field. -/
def imageSetName (s : String) : List UInt8 :=
  (ascii s).take ihNmlen ++ List.replicate (ihNmlen - (ascii s).length) 0

theorem length_imageSetName (s : String) : (imageSetName s).length = ihNmlen := by
  simp only [imageSetName, List.length_append, List.length_take, List.length_replicate]
  omega

/-- The header that `image_set_header` fills in, with a given header checksum. -/
def imageHeader (crc32 : List UInt8 → Nat) (args : MkimageArgs) (data : List UInt8) (hcrc : Nat) :
    UHead where
  hcrc := hcrc
  time := args.time
  size := data.length
  load := args.addr
  ep := args.ep
  dcrc := crc32 data
  os := args.kind.os
  arch := 26
  type := args.kind.type
  comp := ihCompGzip
  name := imageSetName args.kind.name
  name_length := length_imageSetName _

/-- The header checksum is taken over the header with a zero in its place. -/
def imageSetHeader (crc32 : List UInt8 → Nat) (args : MkimageArgs) (data : List UInt8) : UHead :=
  imageHeader crc32 args data (crc32 (imageHeader crc32 args data 0).toBytes)

/-- `mkimage -A riscv -C gzip … -d file`. -/
def mkimage (crc32 : List UInt8 → Nat) (args : MkimageArgs) (file : List UInt8) : List UInt8 :=
  (imageSetHeader crc32 args (mkimageData args.kind file)).toBytes ++ mkimageData args.kind file

/-- The plaintext of the image that `bin_gzip_ubootHead_firmHead` ends with: the uImage behind the
version bytes. -/
def packedPlain (crc32 : List UInt8 → Nat) (args : MkimageArgs) (gz : List UInt8) : List UInt8 :=
  genVersion ++ mkimage crc32 args (k230Gzip gz)

/-! ## The stream -/

section
variable {gz b : List UInt8}

/-- Only the method byte is changed. -/
theorem k230Gzip_gzipStream (h : GzipStream gz b) :
    ∃ rest, gz = 0x1f :: 0x8b :: 8 :: rest ∧ k230Gzip gz = 0x1f :: 0x8b :: 9 :: rest := by
  rcases h.header with ⟨rest, rfl⟩
  exact ⟨rest, rfl, rfl⟩

theorem length_k230Gzip (h : GzipStream gz b) : (k230Gzip gz).length = gz.length := by
  rcases k230Gzip_gzipStream h with ⟨rest, hgz, hsed⟩
  rw [hsed, hgz]
  rfl

/-- A binary that fits its window has a stream whose size fits the 32-bit fields of the header. -/
theorem GzipStream.length_lt (h : GzipStream gz b) (hb : b.length ≤ 0x6000000) :
    gz.length + 8 < 2 ^ 32 := by
  have hshort := h.short
  omega

/-- Undoing the mark in memory restores the stream. -/
theorem read_unmarked {m : ByteMem} {src : Nat} (h : GzipStream gz b)
    (hread : m.read src gz.length = k230Gzip gz) :
    m (src + 2) = 9 ∧ (m.write (src + 2) [8]).read src gz.length = gz := by
  rcases k230Gzip_gzipStream h with ⟨rest, hgz, hsed⟩
  have hlen : gz.length = (k230Gzip gz).length := (length_k230Gzip h).symm
  have hall : m.read src (k230Gzip gz).length = k230Gzip gz := by
    rw [← hlen]
    exact hread
  have hmark : m.read (src + 2) 1 = [9] :=
    ByteMem.read_part [0x1f, 0x8b] rest hall hsed rfl rfl
  have hfront : m.read src 2 = [0x1f, 0x8b] :=
    ByteMem.read_part [] (9 :: rest) hall hsed rfl rfl
  have hrest : m.read (src + 3) rest.length = rest :=
    ByteMem.read_part [0x1f, 0x8b, 9] [] hall (by simp [hsed]) rfl rfl
  refine ⟨?_, ?_⟩
  · rw [ByteMem.read_one] at hmark
    exact List.head_eq_of_cons_eq hmark
  · -- Two bytes, the byte that is written, and the rest.
    have hsplit : gz.length = 2 + (1 + rest.length) := by
      rw [hgz]
      simp only [List.length_cons]
      omega
    have hmid : (m.write (src + 2) [8]).read (src + 2) 1 = [8] := ByteMem.read_write_of_length _ rfl
    have hlo : (m.write (src + 2) [8]).read src 2 = [0x1f, 0x8b] := by
      rw [ByteMem.read_write_disjoint _ (.inr (Nat.le_refl _)), hfront]
    have hhi : (m.write (src + 2) [8]).read (src + 2 + 1) rest.length = rest := by
      rw [ByteMem.read_write_disjoint _ (.inl (by simp)), Nat.add_assoc, hrest]
    rw [hsplit, ByteMem.read_add, ByteMem.read_add, hlo, hmid, hhi, hgz]
    rfl

/-- The size that `gunzip` takes from the end of the stream. -/
theorem trailer_of_read {m : ByteMem} {src : Nat} (h : GzipStream gz b) (hb : b.length < 2 ^ 32)
    (hread : m.read src gz.length = gz) :
    (le32At m (trailerAddr src gz.length)).toNat = b.length := by
  rcases h.trailer with ⟨body, hbody⟩
  have hlong := h.long
  have hlen : gz.length = body.length + 4 := by
    rw [hbody, List.length_append, length_toLe]
  have haddr : trailerAddr src gz.length = src + body.length := by
    rw [trailerAddr, if_pos (by omega)]
    omega
  have hword : m.read (src + body.length) 4 = toLe 4 b.length :=
    ByteMem.read_part body [] hread (by rw [List.append_nil]; exact hbody) rfl (length_toLe _ _)
  rw [haddr, le32At, hword, leNat_toLe_of_lt hb]
  exact UInt32.toNat_ofNat_of_lt' hb

/-! ## Unpacking -/

/-- The hardware decompressor, started on the whole stream `gz` with room for `b`, succeeds and
leaves `b` at the destination. -/
def Unzip.Inflates (z : Unzip) (gz b : List UInt8) : Prop :=
  ∀ m dst src, m.read src gz.length = gz →
    (z.k230PrivUnzip dst b.length src gz.length m).1 = 0 ∧
      (z.k230PrivUnzip dst b.length src gz.length m).2.read dst b.length = b

/-- `gunzip` on a marked stream: the hardware is started with the size of the binary. -/
theorem gunzip_marked {z : Unzip} {m : ByteMem} {src : Nat} (dst : Nat) (h : GzipStream gz b)
    (hb : b.length ≤ 0x6000000) (hread : m.read src gz.length = k230Gzip gz)
    (hz : z.Inflates gz b) :
    ∃ m', gunzip z m dst 0x6000000 src gz.length =
        ⟨some 0, m', b.length, [.gunzip dst 0x6000000 src gz.length,
          .k230PrivUnzip dst b.length src gz.length]⟩ ∧ m'.read dst b.length = b := by
  rcases read_unmarked h hread with ⟨hmark, hstream⟩
  -- The size is read after the method byte was restored, from the unchanged end of the stream.
  have hlength := trailer_of_read h (Nat.lt_of_le_of_lt hb (by decide)) hstream
  rcases hz _ dst src hstream with ⟨hret, hout⟩
  refine ⟨(z.k230PrivUnzip dst b.length src gz.length (m.write (src + 2) [8])).2, ?_, hout⟩
  simp only [gunzip, hmark, hlength, hret, if_true, gt_iff_lt, Nat.not_lt.2 hb, if_false]

variable {crc32 : List UInt8 → Nat} {args : MkimageArgs} {m : ByteMem} {pUh : Nat}

theorem length_mkimageData_lt (h : GzipStream gz b) (hb : b.length ≤ 0x6000000) (kind : PackKind) :
    (mkimageData kind (k230Gzip gz)).length < 2 ^ 32 := by
  have hlt := h.length_lt hb
  have hlen := length_k230Gzip h
  cases kind with
  | rtt =>
      simp only [mkimageData, List.length_append, length_toBe, hlen, List.length_cons,
        List.length_nil]
      omega
  | uboot =>
      simp only [mkimageData, hlen]
      omega

/-- Memory that holds a uImage holds its header and, behind it, its data. -/
theorem read_mkimage {file : List UInt8}
    (hread : m.read pUh (mkimage crc32 args file).length = mkimage crc32 args file) :
    m.read pUh imageGetHeaderSize =
        (imageSetHeader crc32 args (mkimageData args.kind file)).toBytes ∧
      m.read (imageGetData pUh) (mkimageData args.kind file).length = mkimageData args.kind file := by
  refine ⟨?_, ?_⟩
  · exact ByteMem.read_part [] (mkimageData args.kind file) hread (by rw [mkimage, List.nil_append])
      (by simp) (UHead.length_toBytes _)
  · exact ByteMem.read_part _ [] hread (by rw [mkimage, List.append_nil])
      (by rw [UHead.length_toBytes, imageGetData]) rfl

/-- A word of the table is read as zero exactly when the size in it is. -/
theorem le32At_eq_zero_of_read {a n : Nat} (hread : m.read a 4 = toBe 4 n) (hn : n < 2 ^ 32) :
    le32At m a = 0 ↔ n = 0 := by
  have hle : leNat (m.read a 4) < 256 ^ 4 := by
    simpa only [ByteMem.length_read] using leNat_lt (m.read a 4)
  have hbe : beNat (m.read a 4) = n := by
    rw [hread]
    exact beNat_toBe_of_lt hn
  have hnat : (le32At m a).toNat = leNat (m.read a 4) :=
    UInt32.toNat_ofNat_of_lt' (Nat.lt_of_lt_of_eq hle (by decide))
  rw [← UInt32.toNat_inj, hnat, ← hbe]
  exact leNat_eq_zero_iff_beNat _

/-- The table of a one-component image: its component starts behind two words. -/
theorem imageMultiGetimg_packed (h : GzipStream gz b) (hb : b.length ≤ 0x6000000)
    (hdata : m.read (imageGetData pUh) (mkimageData .rtt (k230Gzip gz)).length =
      mkimageData .rtt (k230Gzip gz)) :
    imageMultiGetimg m pUh 0 = some (imageGetData pUh + 8, gz.length) ∧
      m.read (imageGetData pUh + 8) gz.length = k230Gzip gz := by
  have hlen := length_k230Gzip h
  have hlong := h.long
  have hlt := h.length_lt hb
  have hsize : m.read (imageGetData pUh) 4 = toBe 4 gz.length :=
    ByteMem.read_part [] ([0, 0, 0, 0] ++ k230Gzip gz) hdata (by simp [mkimageData, hlen]) rfl
      (length_toBe _ _)
  have hend : m.read (imageGetData pUh + 4) 4 = toBe 4 0 :=
    ByteMem.read_part (toBe 4 gz.length) (k230Gzip gz) hdata (by simp [mkimageData, hlen]; rfl)
      (by simp) rfl
  -- One size that is not zero and the zero word behind it: the table has one entry.
  have hcount : imageMultiCount m pUh = some 1 := by
    apply imageMultiCount_eq_some (by decide)
    · intro j hj
      obtain rfl : j = 0 := Nat.lt_one_iff.1 hj
      rw [Nat.mul_zero, Nat.add_zero, Ne, le32At_eq_zero_of_read hsize (by omega)]
      omega
    · exact (le32At_eq_zero_of_read hend (by decide)).2 rfl
  refine ⟨?_, ?_⟩
  · rw [imageMultiGetimg_zero hcount (by decide), UHead.be32At_of_read hsize (by omega)]
  · exact ByteMem.read_part (toBe 4 gz.length ++ [0, 0, 0, 0]) [] hdata
      (by simp [mkimageData, hlen]) (by simp) hlen

/-- Where the stream starts: behind the header, for a multi-file image also behind its table. -/
def streamAddr (kind : PackKind) (pUh : Nat) : Nat :=
  match kind with
  | .rtt => imageGetData pUh + 8
  | .uboot => imageGetData pUh

/-- The function that starts a system of the given kind. -/
def bootKind (kind : PackKind) (z : Unzip) (m : ByteMem) (pUh : Nat) : BootRun :=
  match kind with
  | .rtt => k230BootRttUimage z m pUh
  | .uboot => k230BootUbootUimage z m pUh

/-- The name in the header selects the branch of its kind. -/
theorem bootPlain_packed {z : Unzip} {file : List UInt8}
    (hread : m.read pUh (mkimage crc32 args file).length = mkimage crc32 args file) :
    bootPlain z m pUh = { bootKind args.kind z m pUh with
      trace := .parseHeader pUh :: (bootKind args.kind z m pUh).trace } := by
  have hhead := (read_mkimage hread).1
  have hmagic := UHead.magic_of_read hhead
  have hname : m.read (imageGetName pUh) ihNmlen = imageSetName args.kind.name :=
    UHead.name_of_read hhead
  have hrtt := strcmpEq_of_read "rtt" hname (by decide)
  have huboot := strcmpEq_of_read "uboot" hname (by decide)
  -- The names differ within the first bytes, so at most one comparison succeeds.
  cases hkind : args.kind with
  | rtt =>
      have hyes : strcmpEq m (imageGetName pUh) "rtt" = true := by
        rw [hrtt, hkind]
        decide
      simp [bootPlain, bootKind, hmagic, hyes]
  | uboot =>
      have hno : strcmpEq m (imageGetName pUh) "rtt" = false := by
        rw [hrtt, hkind]
        decide
      have hyes : strcmpEq m (imageGetName pUh) "uboot" = true := by
        rw [huboot, hkind]
        decide
      simp [bootPlain, bootKind, hmagic, hno, hyes]

/-- Both branches unpack the stream, from its own address and with its own length. -/
theorem bootKind_packed {z : Unzip} (h : GzipStream gz b) (hb : b.length ≤ 0x6000000)
    (hread : m.read pUh (mkimage crc32 args (k230Gzip gz)).length =
      mkimage crc32 args (k230Gzip gz)) :
    bootKind args.kind z m pUh = unpackAndRun z m pUh (streamAddr args.kind pUh) gz.length ∧
      m.read (streamAddr args.kind pUh) gz.length = k230Gzip gz := by
  rcases read_mkimage hread with ⟨hhead, hdata⟩
  have hsize := UHead.size_of_read hhead (length_mkimageData_lt h hb args.kind)
  have hsizeData : imageGetSize m pUh = (mkimageData args.kind (k230Gzip gz)).length := hsize
  cases hkind : args.kind with
  | rtt =>
      rw [hkind] at hdata
      rcases imageMultiGetimg_packed h hb hdata with ⟨himg, hstream⟩
      refine ⟨?_, hstream⟩
      simp only [bootKind, k230BootRttUimage, himg, streamAddr]
  | uboot =>
      rw [hkind] at hdata hsizeData
      have hlen : imageGetDataSize m pUh = gz.length := by
        rw [imageGetDataSize, hsizeData, mkimageData, length_k230Gzip h]
      refine ⟨?_, ?_⟩
      · simp only [bootKind, k230BootUbootUimage, hlen, streamAddr]
      · rw [← length_k230Gzip h]
        exact hdata

theorem unpackAndRun_packed {z : Unzip} {src : Nat} (h : GzipStream gz b)
    (hb : b.length ≤ 0x6000000) (hcomp : imageGetComp m pUh = ihCompGzip)
    (hload : imageGetLoad m pUh = args.addr) (hread : m.read src gz.length = k230Gzip gz)
    (hz : z.Inflates gz b) :
    ∃ m', unpackAndRun z m pUh src gz.length = ⟨.handedOver (imageGetLoad m' pUh), m',
        [.gunzip args.addr 0x6000000 src gz.length,
          .k230PrivUnzip args.addr b.length src gz.length]⟩ ∧
      m'.read args.addr b.length = b := by
  rcases gunzip_marked args.addr h hb hread hz with ⟨m', hgunzip, hout⟩
  refine ⟨m', ?_, hout⟩
  simp [unpackAndRun, k230BootDecompToLoadAddr, hcomp, hload, hgunzip]

/-- A packed binary whose plaintext was verified is unpacked to its load address: the branch of its
name is taken, `gunzip` gets exactly the marked stream, the hardware is started with the size of the
binary, and the binary is in place when control is handed over. -/
theorem packed_image_unpacks {pl : Platform} {z : Unzip} {pfh addr : Nat} {r : Plain}
    (h : GzipStream gz b) (hb : b.length ≤ 0x6000000) (hz : z.Inflates gz b)
    (hcheck : k230BootCheckAndGetPlainData pl m pfh = .ok r) (haddr : r.addr = some addr)
    (hplain : r.mem.read addr (packedPlain crc32 args gz).length = packedPlain crc32 args gz) :
    ∃ m', k230ImgBootSysBin pl z m pfh = { bootKind args.kind z r.mem (addr + 4) with
        trace := .parseHeader (addr + 4) :: (bootKind args.kind z r.mem (addr + 4)).trace } ∧
      bootKind args.kind z r.mem (addr + 4) = ⟨.handedOver (imageGetLoad m' (addr + 4)), m',
        [.gunzip args.addr 0x6000000 (streamAddr args.kind (addr + 4)) gz.length,
          .k230PrivUnzip args.addr b.length (streamAddr args.kind (addr + 4)) gz.length]⟩ ∧
      r.mem.read (streamAddr args.kind (addr + 4)) gz.length = k230Gzip gz ∧
      imageGetLoad r.mem (addr + 4) = args.addr ∧
      m'.read args.addr b.length = b := by
  -- The uImage is the plaintext without its version bytes.
  have hread : r.mem.read (addr + 4) (mkimage crc32 args (k230Gzip gz)).length =
      mkimage crc32 args (k230Gzip gz) :=
    ByteMem.read_part genVersion [] hplain (by rw [packedPlain, List.append_nil]) rfl rfl
  have hhead := (read_mkimage hread).1
  have hcomp : imageGetComp r.mem (addr + 4) = ihCompGzip := UHead.comp_of_read hhead
  have hload : imageGetLoad r.mem (addr + 4) = args.addr := UHead.load_of_read hhead args.addr_lt
  rcases bootKind_packed (z := z) h hb hread with ⟨hkind, hstream⟩
  rcases unpackAndRun_packed h hb hcomp hload hstream hz with ⟨m', hrun, hout⟩
  refine ⟨m', ?_, hkind.trans hrun, hstream, hload, hout⟩
  simp only [k230ImgBootSysBin, hcheck, haddr, Option.getD_some]
  exact bootPlain_packed hread

end

/-! ## A packed system -/

/-- The gzip stream of the binary `nopInput`. -/
def nopGz : List UInt8 :=
  [0x1f, 0x8b, 0x08, 0x00, 0x00, 0x00, 0x00, 0x00, 0x02, 0x03, 0x13, 0x66, 0x60, 0x60, 0x00, 0x00,
    0x6d, 0x27, 0xe8, 0x63, 0x04, 0x00, 0x00, 0x00]

theorem nopGz_gzipStream : GzipStream nopGz nopInput where
  header := ⟨nopGz.drop 3, rfl⟩
  trailer := ⟨nopGz.take (nopGz.length - 4), by decide⟩
  long := by decide
  short := by decide

/-- The decompressor, tabulated at that stream. -/
def nopUnzip : Unzip where
  k230PrivUnzip dst dstlen src len m :=
    if dstlen = nopInput.length ∧ m.read src len = nopGz then (0, m.write dst nopInput) else (1, m)
  zunzip _ _ _ len _ m := (-1, m, len)

theorem nopUnzip_inflates : nopUnzip.Inflates nopGz nopInput := by
  intro m dst src hread
  simp only [nopUnzip, hread, and_self, if_true, ByteMem.read_write]

def nopArgs : MkimageArgs where
  kind := .rtt
  time := 0
  addr := 0
  ep := 0
  addr_lt := by decide

/-- CRC-32 at the data and at the header of the packed system. -/
def nopCrc32 (bs : List UInt8) : Nat :=
  if bs = mkimageData .rtt (k230Gzip nopGz) then 0xce4e7b06 else 0x5d9c4d31

/-- The uImage that is packed, and the SHA-256 digest of its firmware image. -/
def packedInput : List UInt8 := mkimage nopCrc32 nopArgs (k230Gzip nopGz)

def packedDigest : Digest :=
  ⟨[0x57, 0xd5, 0xbf, 0x01, 0x01, 0x8f, 0xe2, 0x73, 0xc6, 0x10, 0x81, 0xca, 0xc4, 0xd3, 0xb0, 0xbd,
    0xad, 0x3f, 0x7d, 0xa9, 0x64, 0xc4, 0xb4, 0xb2, 0x57, 0x5d, 0xaf, 0x43, 0xdb, 0x43, 0x8d, 0xec], rfl⟩

def packedGen : Gen :=
  { demoGen with
    sha256 := fun message =>
      if message = genVersion ++ packedInput then packedDigest else Digest.zero }

def packedPlatform : Platform := { nopPlatform with sha256CsumWd := packedGen.sha256 }

def packedMem : ByteMem :=
  ByteMem.write (fun _ => 0) 0x5555556
    ((noneHead packedGen packedInput).toBytes ++ (genVersion ++ packedInput))

theorem packed_image_unpacks_nop :
    ∃ m', (k230ImgBootSysBin packedPlatform nopUnzip packedMem 0x5555556).outcome =
        .handedOver (imageGetLoad m' (payloadAddr 0x5555556 + 4)) ∧
      (k230ImgBootSysBin packedPlatform nopUnzip packedMem 0x5555556).mem = m' ∧
      m'.read 0 4 = nopInput := by
  have hp : 4 + packedInput.length < 2 ^ 31 := by
    decide +kernel
  have hm : HoldsImage packedMem 0x5555556 (noneHead packedGen packedInput)
      (genVersion ++ packedInput) := HoldsImage.write _ _ _ _
  have hbuild : packedPlatform.k230Pufs = false := rfl
  rcases check_plain_image hbuild (fun _ => rfl) hp hm with ⟨hcheck, hread⟩
  rw [← length_genVersion_append] at hread
  rcases packed_image_unpacks nopGz_gzipStream (by decide) nopUnzip_inflates hcheck rfl hread with
    ⟨m', hboot, hkind, -, -, hout⟩
  refine ⟨m', ?_, ?_, hout⟩
  · rw [hboot, hkind]
  · rw [hboot, hkind]

end Boot
end CanmvK230
