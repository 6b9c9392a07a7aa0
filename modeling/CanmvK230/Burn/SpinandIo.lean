import CanmvK230.Burn.NorCore
import CanmvK230.Burn.NandPos

/-!
# SpinandIo — reading and writing pages (`drivers/mtd/nand/spi/core.c`)

A page goes to the chip through a cache: load commands fill it, in parts if the controller cannot send the
page at once, and a program command takes it into the cells.  `spinand_mtd_write` does this for each page
of a request, so that the chip has the bytes of the request, those of the OOB area included, and all other
bytes as before (`spinandMtdWrite_spec`).  `spinand_mtd_read` reads them back (`spinandMtdRead_spec`).

The value that a read returns is that of the last page, if bit flips were corrected there.  A page before
it that could not be corrected is then passed over in silence (`spinandMtdRead_ret`).
-/

namespace CanmvK230
namespace Burn

open Lib

def ebadmsg : Int := 74
def euclean : Int := 117

/-- `ops->mode` -/
inductive OobMode
  | placeOob
  | autoOob
  | raw
  deriving DecidableEq, Repr

/-- The commands of the chip, with their answers: the cache commands move a number of bytes.  `wait` is
`spinand_wait`, which polls the status register. -/
structure SpinandBus (σ : Type) where
  selectTarget : σ → Nat → Int × σ
  writeRegCfg : σ → BitVec 8 → Int × σ
  writeEnable : σ → Int × σ
  writeCache : σ → Nat → List UInt8 → Int × Nat × σ
  updateCache : σ → Nat → List UInt8 → Int × Nat × σ
  readCache : σ → Nat → Nat → Int × List UInt8 × σ
  loadPage : σ → Nat → Int × σ
  program : σ → Nat → Int × σ
  wait : σ → Int × BitVec 8 × σ

/-- `struct spinand_device`, as the chip's entry in the tables of the manufacturers fills it in.
`layoutGet` and `layoutSet` are `mtd_ooblayout_get_databytes` and `mtd_ooblayout_set_databytes`. -/
structure SpinandInfo where
  org : MemOrg
  strength : Nat
  getStatus : Option (BitVec 8 → Int)
  hasLayout : Bool
  layoutGet : List UInt8 → Nat → Nat → List UInt8
  layoutSet : List UInt8 → List UInt8 → Nat → List UInt8

/-- The state of the driver, and the chip. -/
structure SpinandDev (σ : Type) where
  curTarget : Option Nat
  cfgCache : Nat → BitVec 8
  chip : σ

def cfgEccEnable : BitVec 8 := 0x10
def statusProgFailed : BitVec 8 := 0x08
def statusEccMask : BitVec 8 := 0x30
def statusEccHasBitflips : BitVec 8 := 0x10
def statusEccUncorError : BitVec 8 := 0x20

section Source

variable {σ : Type} (info : SpinandInfo) (bus : SpinandBus σ)

/-- `spinand_select_target` -/
def spinandSelectTarget (dev : SpinandDev σ) (target : Nat) : Int × SpinandDev σ :=
  if target ≥ info.org.ntargets then
    (-einval, dev)
  else if dev.curTarget = some target then
    (0, dev)
  else if info.org.ntargets = 1 then
    (0, { dev with curTarget := some target })
  else
    let selected := bus.selectTarget dev.chip target
    if selected.1 ≠ 0 then
      (selected.1, { dev with chip := selected.2 })
    else
      (0, { dev with curTarget := some target, chip := selected.2 })

/-- `spinand_upd_cfg`, with `spinand_get_cfg` and `spinand_set_cfg`. -/
def spinandUpdCfg (dev : SpinandDev σ) (mask val : BitVec 8) : Int × SpinandDev σ :=
  match dev.curTarget with
  | none => (-einval, dev)
  | some target =>
      if target ≥ info.org.ntargets then
        (-einval, dev)
      else
        let cfg := dev.cfgCache target &&& ~~~mask ||| val
        if dev.cfgCache target = cfg then
          (0, dev)
        else
          let written := bus.writeRegCfg dev.chip cfg
          if written.1 ≠ 0 then
            (written.1, { dev with chip := written.2 })
          else
            (0, { dev with cfgCache := Function.update dev.cfgCache target cfg, chip := written.2 })

/-- `spinand_ecc_enable` -/
def spinandEccEnable (dev : SpinandDev σ) (enable : Bool) : Int × SpinandDev σ :=
  spinandUpdCfg info bus dev cfgEccEnable (if enable = true then cfgEccEnable else 0)

/-- `spinand_cache_op_adjust_colum`; the column is a `u16`. -/
def cacheOpAdjustColumn (pos : NandPos) (column : Nat) : Nat :=
  if info.org.planesPerLun < 2 then column
  else (column ||| pos.plane <<< fls info.org.pagesize) % 2 ^ 16

/-- The loop of `spinand_write_to_cache_op`: the first command resets the cache, those after it do not. -/
def writeCacheLoop : Nat → σ → Bool → Nat → List UInt8 → Option (Int × σ)
  | 0, _, _, _, _ => none
  | fuel + 1, m, first, column, buf =>
      if buf = [] then
        some (0, m)
      else
        let data := buf.take (dwSpiAdjustOpSize column buf.length)
        let sent := if first = true then bus.writeCache m column data else bus.updateCache m column data
        if sent.1 ≠ 0 then
          some (sent.1, sent.2.2)
        else
          writeCacheLoop fuel sent.2.2 false ((column + sent.2.1) % 2 ^ 16) (buf.drop sent.2.1)

/-- What `spinand_write_to_cache_op` puts into `databuf`, behind which `oobbuf` lies. -/
def writeBuffer (mode : OobMode) (req : IoReq) (data oob : List UInt8) : ByteMem :=
  let buf : ByteMem := fun _ => 0xff
  let buf := if req.datalen ≠ 0 then buf.write req.dataoffs data else buf
  if req.ooblen ≠ 0 then
    if mode = .autoOob then
      buf.write info.org.pagesize
        (info.layoutSet oob (buf.read info.org.pagesize info.org.oobsize) req.ooboffs)
    else
      buf.write (info.org.pagesize + req.ooboffs) oob
  else
    buf

/-- Where the part of the page begins that goes over the bus, and its bytes. -/
def cacheStart (req : IoReq) : Nat :=
  if req.datalen ≠ 0 then 0 else if req.ooblen ≠ 0 then info.org.pagesize else 0

def cacheBytes (req : IoReq) : Nat :=
  (if req.datalen ≠ 0 then info.org.pagesize else 0) + if req.ooblen ≠ 0 then info.org.oobsize else 0

def spinandWriteToCacheOp (m : σ) (mode : OobMode) (req : IoReq) (data oob : List UInt8) :
    Option (Int × σ) :=
  writeCacheLoop bus loopBound m true (cacheOpAdjustColumn info req.pos (cacheStart info req))
    ((writeBuffer info mode req data oob).read (cacheStart info req) (cacheBytes info req))

/-- `spinand_write_page` -/
def spinandWritePage (m : σ) (mode : OobMode) (req : IoReq) (data oob : List UInt8) :
    Option (Int × σ) :=
  let enabled := bus.writeEnable m
  if enabled.1 ≠ 0 then
    some enabled
  else
    (spinandWriteToCacheOp info bus enabled.2 mode req data oob).map fun cached =>
      if cached.1 ≠ 0 then
        cached
      else
        let programmed := bus.program cached.2 (posToRow info.org req.pos)
        if programmed.1 ≠ 0 then
          programmed
        else
          let status := bus.wait programmed.2
          (if status.1 = 0 ∧ status.2.1 &&& statusProgFailed ≠ 0 then -eio else status.1, status.2.2)

/-- The loop of `spinand_read_from_cache_op`: the bytes that have come. -/
def readCacheLoop : Nat → σ → Nat → Nat → List UInt8 → Option (Int × List UInt8 × σ)
  | 0, _, _, _, _ => none
  | fuel + 1, m, column, nbytes, buf =>
      if nbytes = 0 then
        some (0, buf, m)
      else
        let received := bus.readCache m column (dwSpiAdjustOpSize column nbytes)
        if received.1 ≠ 0 then
          some (received.1, buf, received.2.2)
        else
          readCacheLoop fuel received.2.2 (column + received.2.1.length)
            (nbytes - received.2.1.length) (buf ++ received.2.1)

/-- `spinand_read_from_cache_op`: the value returned, the data and the OOB bytes of the request. -/
def spinandReadFromCacheOp (m : σ) (mode : OobMode) (req : IoReq) :
    Option (Int × (List UInt8 × List UInt8) × σ) :=
  (readCacheLoop bus loopBound m (cacheOpAdjustColumn info req.pos (cacheStart info req))
    (cacheBytes info req) []).map fun read =>
      if read.1 ≠ 0 then
        (read.1, ([], []), read.2.2)
      else
        let data := (read.2.1.drop req.dataoffs).take req.datalen
        let oobbuf := read.2.1.drop (info.org.pagesize - cacheStart info req)
        let oob :=
          if mode = .autoOob then info.layoutGet oobbuf req.ooboffs req.ooblen
          else (oobbuf.drop req.ooboffs).take req.ooblen
        (0, (if req.datalen ≠ 0 then data else [], if req.ooblen ≠ 0 then oob else []), read.2.2)

/-- `spinand_check_ecc_status` -/
def spinandCheckEccStatus (status : BitVec 8) : Int :=
  match info.getStatus with
  | some getStatus => getStatus status
  | none =>
      if status &&& statusEccMask = 0 then 0
      else if status &&& statusEccMask = statusEccHasBitflips then info.strength
      else if status &&& statusEccMask = statusEccUncorError then -ebadmsg
      else -einval

/-- `spinand_read_page` -/
def spinandReadPage (m : σ) (mode : OobMode) (req : IoReq) (eccEnabled : Bool) :
    Option (Int × (List UInt8 × List UInt8) × σ) :=
  let loaded := bus.loadPage m (posToRow info.org req.pos)
  if loaded.1 ≠ 0 then
    some (loaded.1, ([], []), loaded.2)
  else
    let status := bus.wait loaded.2
    if status.1 < 0 then
      some (status.1, ([], []), status.2.2)
    else
      (spinandReadFromCacheOp info bus status.2.2 mode req).map fun read =>
        if read.1 ≠ 0 then
          read
        else if eccEnabled = false then
          read
        else
          (spinandCheckEccStatus info status.2.1, read.2)

/-- A write: the driver, `ops->retlen` and `ops->oobretlen`. -/
structure SpinandWrite (σ : Type) where
  dev : SpinandDev σ
  retlen : Nat
  oobretlen : Nat

/-- The body of the loop of `spinand_mtd_write`. -/
def spinandWriteBody (mode : OobMode) (datbuf oobbuf : List UInt8) (s : SpinandWrite σ) (req : IoReq) :
    Option (Int × SpinandWrite σ) :=
  let selected := spinandSelectTarget info bus s.dev req.pos.target
  if selected.1 ≠ 0 then
    some (selected.1, { s with dev := selected.2 })
  else
    let enabled := spinandEccEnable info bus selected.2 (decide (mode ≠ .raw))
    if enabled.1 ≠ 0 then
      some (enabled.1, { s with dev := enabled.2 })
    else
      (spinandWritePage info bus enabled.2.chip mode req ((datbuf.drop req.databuf).take req.datalen)
        ((oobbuf.drop req.oobbuf).take req.ooblen)).map fun written =>
          let dev := { enabled.2 with chip := written.2 }
          if written.1 ≠ 0 then
            (written.1, { s with dev := dev })
          else
            (0, { dev := dev, retlen := s.retlen + req.datalen, oobretlen := s.oobretlen + req.ooblen })

/-- `mtd_oobavail` -/
def mtdOobavail (mode : OobMode) (oobavail : Nat) : Nat :=
  if mode = .autoOob then oobavail else info.org.oobsize

/-- `spinand_mtd_write`; `mtd->ooblayout` is always set. -/
def spinandMtdWrite (dev : SpinandDev σ) (oobavail offs : Nat) (mode : OobMode)
    (datbuf oobbuf : List UInt8) (ooboffs : Nat) : Option (Int × SpinandWrite σ) :=
  forEachPage info.org (spinandWriteBody info bus mode datbuf oobbuf) loopBound
    (ioIterInit info.org (mtdOobavail info mode oobavail) offs datbuf.length ooboffs oobbuf.length)
    { dev := dev, retlen := 0, oobretlen := 0 }

/-- A read: `ret`, `ecc_failed` and `max_bitflips`, and what has been put into the buffers. -/
structure SpinandRead (σ : Type) where
  dev : SpinandDev σ
  ret : Int
  eccFailed : Bool
  maxBitflips : Nat
  datbuf : List UInt8
  oobbuf : List UInt8
  retlen : Nat
  oobretlen : Nat

/-- The body of the loop of `spinand_mtd_read`. -/
def spinandReadBody (mode : OobMode) (eccEnabled : Bool) (s : SpinandRead σ) (req : IoReq) :
    Option (Int × SpinandRead σ) :=
  let selected := spinandSelectTarget info bus s.dev req.pos.target
  if selected.1 ≠ 0 then
    some (selected.1, { s with dev := selected.2, ret := selected.1 })
  else
    let enabled := spinandEccEnable info bus selected.2 eccEnabled
    if enabled.1 ≠ 0 then
      some (enabled.1, { s with dev := enabled.2, ret := enabled.1 })
    else
      (spinandReadPage info bus enabled.2.chip mode req eccEnabled).map fun read =>
        let dev := { enabled.2 with chip := read.2.2 }
        if read.1 < 0 ∧ read.1 ≠ -ebadmsg then
          (read.1, { s with dev := dev, ret := read.1 })
        else
          let s := { s with
            dev := dev
            datbuf := s.datbuf ++ read.2.1.1
            oobbuf := s.oobbuf ++ read.2.1.2
            retlen := s.retlen + req.datalen
            oobretlen := s.oobretlen + req.ooblen }
          if read.1 = -ebadmsg then
            (0, { s with ret := 0, eccFailed := true })
          else
            (0, { s with ret := read.1, maxBitflips := max s.maxBitflips read.1.toNat })

/-- What `spinand_mtd_read` returns behind its loop. -/
def spinandReadRet (s : SpinandRead σ) : Int :=
  let ret := if s.eccFailed = true ∧ s.ret = 0 then -ebadmsg else s.ret
  if ret ≠ 0 then ret else s.maxBitflips

/-- `spinand_mtd_read` -/
def spinandMtdRead (dev : SpinandDev σ) (oobavail offs : Nat) (mode : OobMode)
    (len ooboffs ooblen : Nat) : Option (Int × SpinandRead σ) :=
  (forEachPage info.org (spinandReadBody info bus mode (decide (mode ≠ .raw) && info.hasLayout)) loopBound
    (ioIterInit info.org (mtdOobavail info mode oobavail) offs len ooboffs ooblen)
    { dev := dev, ret := 0, eccFailed := false, maxBitflips := 0, datbuf := [], oobbuf := [],
      retlen := 0, oobretlen := 0 }).map fun done => (spinandReadRet done.2, done.2)

/-- What `mtd_read` and `mtd_read_oob` make of the value. -/
def mtdReadRet (eccStrength bitflipThreshold : Nat) (ret : Int) : Int :=
  if ret < 0 then ret
  else if eccStrength = 0 then 0
  else if ret ≥ bitflipThreshold then -euclean
  else 0

end Source

/-! ## The chip -/

/-- What there is of a chip: the die that is selected, the cells of each die by row and column, the status
of a read of each row, the cache, and whether programming is enabled. -/
structure SpinandView (σ : Type) where
  die : σ → Nat
  cells : σ → Nat → Nat → Nat → UInt8
  ecc : σ → Nat → Nat → BitVec 8
  cache : σ → ByteMem
  latched : σ → Prop

variable {σ : Type}

/-- The command has changed no cell. -/
structure SpinandView.Same (v : SpinandView σ) (m m' : σ) : Prop where
  die : v.die m' = v.die m
  cells : v.cells m' = v.cells m
  ecc : v.ecc m' = v.ecc m

theorem SpinandView.Same.trans {v : SpinandView σ} {m m' m'' : σ} (h : v.Same m m') (h' : v.Same m' m'') :
    v.Same m m'' :=
  ⟨h'.die.trans h.die, h'.cells.trans h.cells, h'.ecc.trans h.ecc⟩

theorem SpinandView.Same.refl (v : SpinandView σ) (m : σ) : v.Same m m :=
  ⟨rfl, rfl, rfl⟩

/-- The columns of one plane, as they stand in a column address. -/
def cacheWindow (info : SpinandInfo) : Nat := 2 ^ fls info.org.pagesize

def planeBase (info : SpinandInfo) (pos : NandPos) : Nat :=
  if info.org.planesPerLun < 2 then 0 else pos.plane * cacheWindow info

/-- A page and its OOB area have columns of their own, and a column address has 16 bits. -/
structure SpinandInfo.Fits (info : SpinandInfo) : Prop where
  oob_pos : 0 < info.org.oobsize
  page : info.org.pagesize + info.org.oobsize ≤ cacheWindow info
  planes : info.org.planesPerLun * cacheWindow info ≤ 2 ^ 16

/-- An error of the bus is not the one for data that could not be corrected. -/
def BusError (ret : Int) : Prop := ret < 0 ∧ ret ≠ -ebadmsg

theorem busError_einval : BusError (-einval) := ⟨by decide, by decide⟩

/-- The data sheet: what the commands do, where the bus does not answer with an error. -/
structure SpinandChip (info : SpinandInfo) (bus : SpinandBus σ) (v : SpinandView σ) : Prop where
  select_cells : ∀ m t, v.cells (bus.selectTarget m t).2 = v.cells m
  select_ecc : ∀ m t, v.ecc (bus.selectTarget m t).2 = v.ecc m
  selected : ∀ m t, (bus.selectTarget m t).1 = 0 → v.die (bus.selectTarget m t).2 = t
  cfg_same : ∀ m cfg, v.Same m (bus.writeRegCfg m cfg).2
  enable_same : ∀ m, v.Same m (bus.writeEnable m).2
  enabled : ∀ m, (bus.writeEnable m).1 = 0 → v.latched (bus.writeEnable m).2
  write_same : ∀ m col data, v.Same m (bus.writeCache m col data).2.2
  write_latched : ∀ m col data, v.latched m → v.latched (bus.writeCache m col data).2.2
  write_sent : ∀ m col data, data ≠ [] → (bus.writeCache m col data).1 = 0 →
    0 < (bus.writeCache m col data).2.1 ∧ (bus.writeCache m col data).2.1 ≤ data.length
  written : ∀ m col data c, (bus.writeCache m col data).1 = 0 →
    c / cacheWindow info = col / cacheWindow info →
    v.cache (bus.writeCache m col data).2.2 c =
      ByteMem.write (fun _ => 0xff) col (data.take (bus.writeCache m col data).2.1) c
  update_same : ∀ m col data, v.Same m (bus.updateCache m col data).2.2
  update_latched : ∀ m col data, v.latched m → v.latched (bus.updateCache m col data).2.2
  update_sent : ∀ m col data, data ≠ [] → (bus.updateCache m col data).1 = 0 →
    0 < (bus.updateCache m col data).2.1 ∧ (bus.updateCache m col data).2.1 ≤ data.length
  updated : ∀ m col data c, (bus.updateCache m col data).1 = 0 →
    v.cache (bus.updateCache m col data).2.2 c =
      (v.cache m).write col (data.take (bus.updateCache m col data).2.1) c
  program_die : ∀ m row, v.die (bus.program m row).2 = v.die m
  program_frame : ∀ m row d r, ¬ (d = v.die m ∧ r = row) →
    v.cells (bus.program m row).2 d r = v.cells m d r
  wait_same : ∀ m, v.Same m (bus.wait m).2.2
  programmed : ∀ m (pos : NandPos), pos.Valid info.org → v.latched m →
    (bus.program m (posToRow info.org pos)).1 = 0 →
    (bus.wait (bus.program m (posToRow info.org pos)).2).1 = 0 →
    (bus.wait (bus.program m (posToRow info.org pos)).2).2.1 &&& statusProgFailed = 0 →
    ∀ c < cacheWindow info, v.cells (bus.program m (posToRow info.org pos)).2 (v.die m)
        (posToRow info.org pos) c =
      v.cells m (v.die m) (posToRow info.org pos) c &&& v.cache m (planeBase info pos + c)
  load_same : ∀ m row, v.Same m (bus.loadPage m row).2
  loaded_status : ∀ m row, (bus.loadPage m row).1 = 0 → ¬ (bus.wait (bus.loadPage m row).2).1 < 0 →
    (bus.wait (bus.loadPage m row).2).2.1 = v.ecc m (v.die m) row
  loaded : ∀ m (pos : NandPos), pos.Valid info.org → (bus.loadPage m (posToRow info.org pos)).1 = 0 →
    ¬ (bus.wait (bus.loadPage m (posToRow info.org pos)).2).1 < 0 →
    0 ≤ spinandCheckEccStatus info (v.ecc m (v.die m) (posToRow info.org pos)) →
    ∀ c < cacheWindow info,
      v.cache (bus.wait (bus.loadPage m (posToRow info.org pos)).2).2.2 (planeBase info pos + c) =
        v.cells m (v.die m) (posToRow info.org pos) c
  read_same : ∀ m col n, v.Same m (bus.readCache m col n).2.2
  read_cache : ∀ m col n, v.cache (bus.readCache m col n).2.2 = v.cache m
  received : ∀ m col n, 0 < n → (bus.readCache m col n).1 = 0 →
    0 < (bus.readCache m col n).2.1.length ∧ (bus.readCache m col n).2.1.length ≤ n
  read_bytes : ∀ m col n, (bus.readCache m col n).2.1 =
    (v.cache m).read col (bus.readCache m col n).2.1.length
  select_error : ∀ m t, (bus.selectTarget m t).1 ≠ 0 → BusError (bus.selectTarget m t).1
  cfg_error : ∀ m cfg, (bus.writeRegCfg m cfg).1 ≠ 0 → BusError (bus.writeRegCfg m cfg).1
  load_error : ∀ m row, (bus.loadPage m row).1 ≠ 0 → BusError (bus.loadPage m row).1
  wait_error : ∀ m, (bus.wait m).1 < 0 → BusError (bus.wait m).1
  read_error : ∀ m col n, (bus.readCache m col n).1 ≠ 0 → BusError (bus.readCache m col n).1

/-- A chip of one plane, with a bus of 100 bytes at a time. -/
structure RamChip where
  die : Nat
  cells : Nat → Nat → Nat → UInt8
  ecc : Nat → Nat → BitVec 8
  cache : ByteMem
  latched : Bool
  status : BitVec 8

def ramBus : SpinandBus RamChip where
  selectTarget m target := (0, { m with die := target })
  writeRegCfg m _ := (0, m)
  writeEnable m := (0, { m with latched := true })
  writeCache m col data :=
    (0, (data.take 100).length, { m with cache := ByteMem.write (fun _ => 0xff) col (data.take 100) })
  updateCache m col data :=
    (0, (data.take 100).length, { m with cache := m.cache.write col (data.take 100) })
  readCache m col n := (0, m.cache.read col (min n 100), m)
  loadPage m row := (0, { m with cache := m.cells m.die row, status := m.ecc m.die row })
  program m row :=
    (0, { m with
      cells := fun d r c =>
        if d = m.die ∧ r = row ∧ m.latched = true then m.cells d r c &&& m.cache c else m.cells d r c
      latched := false
      status := if m.latched = true then 0 else statusProgFailed })
  wait m := (0, m.status, m)

def ramView : SpinandView RamChip where
  die := RamChip.die
  cells := RamChip.cells
  ecc := RamChip.ecc
  cache := RamChip.cache
  latched m := m.latched = true

theorem chip_ramBus {info : SpinandInfo} (hplanes : info.org.planesPerLun < 2) :
    SpinandChip info ramBus ramView where
  select_cells _ _ := rfl
  select_ecc _ _ := rfl
  selected _ _ _ := rfl
  cfg_same _ _ := ⟨rfl, rfl, rfl⟩
  enable_same _ := ⟨rfl, rfl, rfl⟩
  enabled _ _ := rfl
  write_same _ _ _ := ⟨rfl, rfl, rfl⟩
  write_latched _ _ _ h := h
  write_sent m col data hne _ := by
    have hpos := List.length_pos_iff.2 hne
    simp only [ramBus, List.length_take]
    omega
  written m col data c _ _ := by
    have htake : data.take (data.take 100).length = data.take 100 := by
      rw [List.length_take, ← List.take_take, List.take_length]
    simp only [ramBus, ramView, htake]
  update_same _ _ _ := ⟨rfl, rfl, rfl⟩
  update_latched _ _ _ h := h
  update_sent m col data hne _ := by
    have hpos := List.length_pos_iff.2 hne
    simp only [ramBus, List.length_take]
    omega
  updated m col data c _ := by
    have htake : data.take (data.take 100).length = data.take 100 := by
      rw [List.length_take, ← List.take_take, List.take_length]
    simp only [ramBus, ramView, htake]
  program_die _ _ := rfl
  program_frame m row d r hout := by
    funext c
    exact if_neg fun h => hout ⟨h.1, h.2.1⟩
  wait_same _ := ⟨rfl, rfl, rfl⟩
  programmed m pos _ hlatched _ _ _ c _ := by
    rw [planeBase, if_pos hplanes, Nat.zero_add]
    exact if_pos ⟨rfl, rfl, hlatched⟩
  load_same _ _ := ⟨rfl, rfl, rfl⟩
  loaded_status _ _ _ _ := rfl
  loaded m pos _ _ _ _ c _ := by
    rw [planeBase, if_pos hplanes, Nat.zero_add]
    rfl
  read_same _ _ _ := ⟨rfl, rfl, rfl⟩
  read_cache _ _ _ := rfl
  received m col n hpos _ := by
    simp only [ramBus, ByteMem.length_read]
    omega
  read_bytes m col n := by
    simp only [ramBus, ramView, ByteMem.length_read]
  select_error _ _ hne := absurd rfl hne
  cfg_error _ _ hne := absurd rfl hne
  load_error _ _ hne := absurd rfl hne
  wait_error _ hlt := absurd hlt (lt_irrefl 0)
  read_error _ _ _ hne := absurd rfl hne

def info64 : SpinandInfo where
  org := org64
  strength := 8
  getStatus := none
  hasLayout := true
  layoutGet oob off n := (oob.drop off).take n
  layoutSet bytes oob off := oob.take off ++ bytes ++ oob.drop (off + bytes.length)

theorem fits_info64 : info64.Fits := ⟨by decide, by decide, by decide⟩

/-- The data of page 0 are lost, and page 1 has bit flips. -/
def wornRam : RamChip where
  die := 0
  cells _ row c := UInt8.ofNat (row + c)
  ecc _ row := if row = 0 then statusEccUncorError else if row = 1 then statusEccHasBitflips else 0
  cache _ := 0xff
  latched := false
  status := 0

def wornDev : SpinandDev RamChip := ⟨none, fun _ => 0, wornRam⟩

/-! ## The cache -/

section Cache

variable {info : SpinandInfo} {bus : SpinandBus σ} {v : SpinandView σ} {pos : NandPos}

theorem window_pos (info : SpinandInfo) : 0 < cacheWindow info := Nat.two_pow_pos _

theorem planeBase_window (h : info.Fits) (hpos : pos.Valid info.org) :
    planeBase info pos + cacheWindow info ≤ 2 ^ 16 := by
  have hplanes := h.planes
  have hpp := info.org.planes_pos
  unfold planeBase
  split
  · have hone : 1 * cacheWindow info ≤ info.org.planesPerLun * cacheWindow info :=
      Nat.mul_le_mul_right _ hpp
    omega
  · have hlt : pos.plane + 1 ≤ info.org.planesPerLun := by
      rw [hpos.plane]
      exact Nat.mod_lt _ hpp
    have hmul := Nat.mul_le_mul_right (cacheWindow info) hlt
    rw [Nat.add_mul, Nat.one_mul] at hmul
    omega

theorem cacheOpAdjustColumn_eq (h : info.Fits) (hpos : pos.Valid info.org) {column : Nat}
    (hcolumn : column < cacheWindow info) :
    cacheOpAdjustColumn info pos column = planeBase info pos + column := by
  have hwindow := planeBase_window h hpos
  unfold cacheOpAdjustColumn planeBase at *
  split
  · rw [Nat.zero_add]
  · rename_i hplanes
    rw [if_neg hplanes] at hwindow
    rw [Nat.or_comm, ← Nat.shiftLeft_add_eq_or_of_lt hcolumn, Nat.shiftLeft_eq, ← cacheWindow,
      Nat.mod_eq_of_lt (by omega)]

/-- The columns of a plane are those behind its base. -/
theorem window_div (info : SpinandInfo) (pos : NandPos) {c : Nat} (hc : c < cacheWindow info) :
    (planeBase info pos + c) / cacheWindow info =
      if info.org.planesPerLun < 2 then 0 else pos.plane := by
  unfold planeBase
  split
  · rw [Nat.zero_add, Nat.div_eq_of_lt hc]
  · rw [Nat.mul_comm, Nat.mul_add_div (window_pos info), Nat.div_eq_of_lt hc, Nat.add_zero]

theorem write_congr_at {m m' : ByteMem} {a : Nat} (h : m a = m' a) (off : Nat) (bs : List UInt8) :
    m.write off bs a = m'.write off bs a := by
  simp only [ByteMem.write, h]

variable (hchip : SpinandChip info bus v)
include hchip

/-- Whatever parts the bus has made of it, the cache has the bytes; the first command has reset it. -/
theorem writeCacheLoop_spec (hfits : info.Fits) (hpos : pos.Valid info.org) :
    ∀ (fuel : Nat) (m : σ) (first : Bool) (x : Nat) (buf : List UInt8),
      x + buf.length ≤ cacheWindow info → buf.length < fuel →
      ∃ ret m', writeCacheLoop bus fuel m first (planeBase info pos + x) buf = some (ret, m') ∧
        v.Same m m' ∧ (v.latched m → v.latched m') ∧
        (ret = 0 → buf ≠ [] → ∀ c < cacheWindow info, v.cache m' (planeBase info pos + c) =
          ByteMem.write (if first = true then fun _ => 0xff else v.cache m) (planeBase info pos + x) buf
            (planeBase info pos + c)) := by
  have hwindow := planeBase_window hfits hpos
  intro fuel
  induction fuel with
  | zero =>
      intro m first x buf _ hfuel
      omega
  | succ fuel ih =>
      intro m first x buf hx hfuel
      rw [writeCacheLoop]
      by_cases hnil : buf = []
      · rw [if_pos hnil]
        exact ⟨0, m, rfl, SpinandView.Same.refl v m, id, fun _ hne => absurd hnil hne⟩
      · rw [if_neg hnil]
        have hlen := List.length_pos_iff.2 hnil
        rcases dwSpiAdjustOpSize_spec (planeBase info pos + x) hlen with ⟨hk, hkle, _, _⟩
        set k := dwSpiAdjustOpSize (planeBase info pos + x) buf.length
        have hdata : buf.take k ≠ [] := by
          rw [← List.length_pos_iff, List.length_take]
          omega
        -- the command, be it the first or not
        obtain ⟨sent, hsent⟩ : ∃ sent, sent = (if first = true then
            bus.writeCache m (planeBase info pos + x) (buf.take k)
          else bus.updateCache m (planeBase info pos + x) (buf.take k)) := ⟨_, rfl⟩
        have hcommand : v.Same m sent.2.2 ∧ (v.latched m → v.latched sent.2.2) ∧
            (sent.1 = 0 → 0 < sent.2.1 ∧ sent.2.1 ≤ (buf.take k).length ∧
              ∀ c < cacheWindow info, v.cache sent.2.2 (planeBase info pos + c) =
                ByteMem.write (if first = true then fun _ => 0xff else v.cache m)
                  (planeBase info pos + x) ((buf.take k).take sent.2.1) (planeBase info pos + c)) := by
          rw [hsent]
          cases first with
          | true =>
              simp only [if_true]
              refine ⟨hchip.write_same _ _ _, hchip.write_latched _ _ _, fun hret => ?_⟩
              rcases hchip.write_sent _ _ _ hdata hret with ⟨h1, h2⟩
              refine ⟨h1, h2, fun c hc => hchip.written _ _ _ _ hret ?_⟩
              rw [window_div info pos hc, window_div info pos (show x < cacheWindow info by omega)]
          | false =>
              simp only [Bool.false_eq_true, if_false]
              refine ⟨hchip.update_same _ _ _, hchip.update_latched _ _ _, fun hret => ?_⟩
              rcases hchip.update_sent _ _ _ hdata hret with ⟨h1, h2⟩
              exact ⟨h1, h2, fun c _ => hchip.updated _ _ _ _ hret⟩
        rcases hcommand with ⟨hsame, hlatched, hmoved⟩
        simp only [← hsent]
        by_cases hret : sent.1 = 0
        · rw [if_neg (not_not.2 hret)]
          rcases hmoved hret with ⟨h1, h2, hcache⟩
          rw [List.length_take] at h2
          have htake : (buf.take k).take sent.2.1 = buf.take sent.2.1 := by
            rw [List.take_take, Nat.min_eq_left (by omega)]
          rw [htake] at hcache
          by_cases hrest : buf.drop sent.2.1 = []
          · -- nothing is left
            have hall : buf.take sent.2.1 = buf := by
              rw [List.take_of_length_le]
              rwa [List.drop_eq_nil_iff] at hrest
            rcases Nat.exists_eq_add_of_le' (by omega : 1 ≤ fuel) with ⟨n, rfl⟩
            rw [writeCacheLoop, if_pos hrest]
            refine ⟨0, sent.2.2, rfl, hsame, hlatched, fun _ _ c hc => ?_⟩
            rw [hcache c hc, hall]
          · have hlt : sent.2.1 < buf.length := by
              rw [List.drop_eq_nil_iff] at hrest
              omega
            have hmod : (planeBase info pos + x + sent.2.1) % 2 ^ 16 =
                planeBase info pos + (x + sent.2.1) := by
              rw [Nat.add_assoc, Nat.mod_eq_of_lt (by omega)]
            rw [hmod]
            have hdrop := @List.length_drop _ sent.2.1 buf
            rcases ih sent.2.2 false (x + sent.2.1) (buf.drop sent.2.1) (by omega) (by omega) with
              ⟨ret, m', hrun, hsame', hlatched', hcache'⟩
            refine ⟨ret, m', hrun, hsame.trans hsame', fun h => hlatched' (hlatched h), ?_⟩
            intro hzero _ c hc
            have hlen' : (buf.take sent.2.1).length = sent.2.1 := by
              rw [List.length_take]
              omega
            have happend := ByteMem.write_append (if first = true then fun _ => 0xff else v.cache m)
              (planeBase info pos + x) (buf.take sent.2.1) (buf.drop sent.2.1)
            rw [List.take_append_drop, hlen', Nat.add_assoc] at happend
            rw [hcache' hzero hrest c hc, happend]
            exact write_congr_at (hcache c hc) _ _
        · rw [if_pos hret]
          exact ⟨sent.1, sent.2.2, rfl, hsame, hlatched, fun h => absurd h hret⟩

/-- Whatever parts the bus has made of it, what comes is what the cache has. -/
theorem readCacheLoop_spec :
    ∀ (fuel : Nat) (m : σ) (column nbytes : Nat) (buf : List UInt8), nbytes < fuel →
      ∃ ret buf' m', readCacheLoop bus fuel m column nbytes buf = some (ret, buf', m') ∧
        v.Same m m' ∧ (ret = 0 → buf' = buf ++ (v.cache m).read column nbytes) ∧
        (ret ≠ 0 → BusError ret) := by
  intro fuel
  induction fuel with
  | zero =>
      intro m column nbytes buf hfuel
      omega
  | succ fuel ih =>
      intro m column nbytes buf hfuel
      rw [readCacheLoop]
      by_cases hzero : nbytes = 0
      · rw [if_pos hzero]
        exact ⟨0, buf, m, rfl, SpinandView.Same.refl v m, fun _ => by simp [hzero],
          fun h => absurd rfl h⟩
      · rw [if_neg hzero]
        rcases dwSpiAdjustOpSize_spec column (Nat.pos_of_ne_zero hzero) with ⟨hk, hkle, _, _⟩
        set k := dwSpiAdjustOpSize column nbytes
        have hsame := hchip.read_same m column k
        by_cases hret : (bus.readCache m column k).1 = 0
        · rcases hchip.received m column k hk hret with ⟨h1, h2⟩
          have hbytes := hchip.read_bytes m column k
          simp only [hret, ne_eq, not_true_eq_false, if_false]
          set bytes := (bus.readCache m column k).2.1
          rcases ih (bus.readCache m column k).2.2 (column + bytes.length) (nbytes - bytes.length)
            (buf ++ bytes) (by omega) with ⟨ret, buf', m', hrun, hsame', hbuf, herror⟩
          refine ⟨ret, buf', m', hrun, hsame.trans hsame', fun h => ?_, herror⟩
          have hsplit : nbytes = bytes.length + (nbytes - bytes.length) := by omega
          rw [hbuf h, hchip.read_cache, List.append_assoc]
          conv => rhs; rw [hsplit, ByteMem.read_add, ← hbytes]
        · rw [if_pos hret]
          exact ⟨_, buf, _, rfl, hsame, fun h => absurd h hret, fun _ => hchip.read_error m column k hret⟩

end Cache

/-! ## One page -/

section Page

variable {info : SpinandInfo} {bus : SpinandBus σ} {v : SpinandView σ} {mode : OobMode} {req : IoReq}
  {data oob : List UInt8}

/-- A part of a request in one page; the OOB bytes are where the request has them. -/
structure InPage (info : SpinandInfo) (mode : OobMode) (req : IoReq) : Prop where
  pos : req.pos.Valid info.org
  some_part : req.datalen ≠ 0 ∨ req.ooblen ≠ 0
  data_page : req.dataoffs + req.datalen ≤ info.org.pagesize
  oob_page : req.ooblen ≠ 0 → req.ooboffs + req.ooblen ≤ info.org.oobsize
  plain : mode ≠ .autoOob ∨ req.ooblen = 0

/-- Such a part with the bytes to write. -/
structure PagePart (info : SpinandInfo) (mode : OobMode) (req : IoReq) (data oob : List UInt8) : Prop
    extends InPage info mode req where
  data : data.length = req.datalen
  oob : oob.length = req.ooblen

/-- Bytes on an erased page. -/
def onErased (off : Nat) (bs : List UInt8) : ByteMem := ByteMem.write (fun _ => 0xff) off bs

theorem program_eq (m : ByteMem) (off : Nat) (bs : List UInt8) (a : Nat) :
    Nand.program m off bs a = m a &&& onErased off bs a := by
  unfold Nand.program onErased ByteMem.write
  split
  · rw [List.getD_eq_getElem?_getD]
  · rw [Nand.and_ff]

theorem onErased_nil (off a : Nat) : onErased off [] a = 0xff := by
  rw [onErased, ByteMem.write_nil]

theorem onErased_frame {off a : Nat} {bs : List UInt8} (h : a < off ∨ off + bs.length ≤ a) :
    onErased off bs a = 0xff := by
  rw [onErased, ByteMem.write_frame _ h]

/-- A shift of page and bytes. -/
theorem onErased_add (k off a : Nat) (bs : List UInt8) :
    onErased (k + off) bs (k + a) = onErased off bs a := by
  unfold onErased ByteMem.write
  by_cases h : off ≤ a
  · rw [if_pos h, if_pos (by omega), Nat.add_sub_add_left]
  · rw [if_neg h, if_neg (by omega)]

theorem onErased_read (buf : ByteMem) (k start n c : Nat) :
    onErased (k + start) (buf.read start n) (k + c) = if start ≤ c ∧ c < start + n then buf c else 0xff := by
  rw [onErased_add]
  split
  · rename_i h
    obtain ⟨i, rfl⟩ := Nat.exists_eq_add_of_le h.1
    have hi : i < (buf.read start n).length := by
      rw [ByteMem.length_read]
      omega
    rw [onErased, ByteMem.write_at _ _ hi, ByteMem.getElem_read]
  · exact onErased_frame (by rw [ByteMem.length_read]; omega)

/-- The buffer has the data in front of the OOB bytes. -/
theorem writeBuffer_eq (h : PagePart info mode req data oob) (c : Nat) :
    writeBuffer info mode req data oob c =
      if c < info.org.pagesize then onErased req.dataoffs data c
      else onErased (info.org.pagesize + req.ooboffs) oob c := by
  have hpage := h.data_page
  have hdata := h.data
  have hoob := h.oob
  have hfront : (if req.datalen ≠ 0 then ByteMem.write (fun _ => 0xff) req.dataoffs data
      else fun _ => 0xff) = onErased req.dataoffs data := by
    split
    · rfl
    · rename_i hzero
      rw [not_not] at hzero
      rw [onErased, List.length_eq_zero_iff.1 (by omega : data.length = 0), ByteMem.write_nil]
  simp only [writeBuffer, hfront]
  by_cases hzero : req.ooblen = 0
  · rw [if_neg (not_not.2 hzero), List.length_eq_zero_iff.1 (by omega : oob.length = 0), onErased_nil]
    split
    · rfl
    · exact onErased_frame (by omega)
  · rw [if_pos hzero, if_neg (h.plain.resolve_right hzero)]
    split
    · exact ByteMem.write_of_lt _ _ (by omega)
    · rename_i hc
      exact write_congr_at (onErased_frame (by omega)) _ _

/-- What has gone over the bus is all of the buffer that is not erased. -/
theorem writeBuffer_sent (h : PagePart info mode req data oob) (k c : Nat) :
    onErased (k + cacheStart info req)
      ((writeBuffer info mode req data oob).read (cacheStart info req) (cacheBytes info req)) (k + c) =
        writeBuffer info mode req data oob c := by
  rw [onErased_read]
  split
  · rfl
  · rename_i hout
    have hpage := h.data_page
    have hdata := h.data
    have hoob := h.oob
    have hoobpage := h.oob_page
    have hpart := h.some_part
    rw [writeBuffer_eq h]
    unfold cacheStart cacheBytes at hout
    split
    · -- the data are not sent, and there are none
      refine (onErased_frame ?_).symm
      split at hout <;> split at hout <;> omega
    · refine (onErased_frame ?_).symm
      split at hout <;> split at hout <;> omega

variable (hchip : SpinandChip info bus v)
include hchip

/-- Writing a page: no other is touched, and if 0 is returned the cells have been programmed with the
buffer. -/
theorem spinandWritePage_spec (hfits : info.Fits) (h : PagePart info mode req data oob) (m : σ) :
    ∃ ret m', spinandWritePage info bus m mode req data oob = some (ret, m') ∧ v.die m' = v.die m ∧
      (∀ d r, ¬ (d = v.die m ∧ r = posToRow info.org req.pos) → v.cells m' d r = v.cells m d r) ∧
      (ret = 0 → ∀ c < cacheWindow info, v.cells m' (v.die m) (posToRow info.org req.pos) c =
        v.cells m (v.die m) (posToRow info.org req.pos) c &&& writeBuffer info mode req data oob c) := by
  have hpart := h.some_part
  have hsame := hchip.enable_same m
  simp only [spinandWritePage]
  by_cases henable : (bus.writeEnable m).1 = 0
  · rw [if_neg (not_not.2 henable)]
    have hlatched := hchip.enabled m henable
    generalize (bus.writeEnable m).2 = m₁ at hsame hlatched
    have hroom : cacheStart info req + cacheBytes info req ≤ cacheWindow info ∧
        cacheStart info req < cacheWindow info ∧ 0 < cacheBytes info req := by
      have hpage := hfits.page
      have hps := info.org.pagesize_pos
      have hos := hfits.oob_pos
      unfold cacheStart cacheBytes
      split <;> split <;> omega
    have hbound : 2 ^ 17 ≤ loopBound := by
      simp only [loopBound]
      omega
    have hwindow := planeBase_window hfits h.pos
    have hlen := (writeBuffer info mode req data oob).length_read (cacheStart info req)
      (cacheBytes info req)
    rcases writeCacheLoop_spec hchip hfits h.pos loopBound m₁ true (cacheStart info req)
      ((writeBuffer info mode req data oob).read (cacheStart info req) (cacheBytes info req))
      (by omega) (by omega) with ⟨ret, m₂, hrun, hsame₂, hlatched₂, hcache⟩
    rw [spinandWriteToCacheOp, cacheOpAdjustColumn_eq hfits h.pos hroom.2.1, hrun, Option.map_some]
    have hsame' := hsame.trans hsame₂
    by_cases hret : ret = 0
    · have hne : (writeBuffer info mode req data oob).read (cacheStart info req)
          (cacheBytes info req) ≠ [] := List.length_pos_iff.1 (by omega)
      -- what is in the cache of the chip before it programs the page
      have hloaded : ∀ c < cacheWindow info, v.cache m₂ (planeBase info req.pos + c) =
          writeBuffer info mode req data oob c := by
        intro c hc
        rw [hcache hret hne c hc, if_pos rfl]
        exact writeBuffer_sent h _ c
      rw [if_neg (not_not.2 hret)]
      have hdie := hchip.program_die m₂ (posToRow info.org req.pos)
      have hframe := hchip.program_frame m₂ (posToRow info.org req.pos)
      have hprogrammed := hchip.programmed m₂ req.pos h.pos (hlatched₂ hlatched)
      have hwait := hchip.wait_same (bus.program m₂ (posToRow info.org req.pos)).2
      rw [hsame'.die, hsame'.cells] at hframe
      rw [hsame'.die] at hdie
      by_cases hprogram : (bus.program m₂ (posToRow info.org req.pos)).1 = 0
      · rw [if_neg (not_not.2 hprogram)]
        refine ⟨_, _, rfl, by rw [hwait.die, hdie], fun d r hout => ?_, fun hok c hc => ?_⟩
        · rw [hwait.cells]
          exact hframe d r hout
        -- the page is programmed if the chip was ready in time and the status does not say otherwise
        · have hstatus : (bus.wait (bus.program m₂ (posToRow info.org req.pos)).2).1 = 0 ∧
              (bus.wait (bus.program m₂ (posToRow info.org req.pos)).2).2.1 &&& statusProgFailed = 0 := by
            split at hok
            · exact absurd hok (by decide)
            · rename_i hnot
              exact ⟨hok, not_not.1 fun hne' => hnot ⟨hok, hne'⟩⟩
          rw [hwait.cells, ← hsame'.die, hprogrammed hprogram hstatus.1 hstatus.2 c hc, hloaded c hc,
            hsame'.cells]
      · rw [if_pos hprogram]
        exact ⟨_, _, rfl, hdie, hframe, fun h => absurd h hprogram⟩
    · rw [if_pos hret]
      exact ⟨_, _, rfl, hsame'.die, fun d r _ => by rw [hsame'.cells], fun h => absurd h hret⟩
  · rw [if_pos henable]
    exact ⟨_, _, rfl, hsame.die, fun d r _ => by rw [hsame.cells], fun h => absurd h henable⟩

end Page

/-! ## The dies -/

section Dies

variable {info : SpinandInfo} {bus : SpinandBus σ} {v : SpinandView σ}

/-- The driver knows which die is selected. -/
structure SpinandDev.Selected (info : SpinandInfo) (v : SpinandView σ) (dev : SpinandDev σ) : Prop where
  cur : ∀ t, dev.curTarget = some t → v.die dev.chip = t
  single : info.org.ntargets = 1 → v.die dev.chip = 0

/-- The driver goes on, with no cell changed and the same die selected. -/
theorem SpinandDev.Selected.same {dev dev' : SpinandDev σ} (h : dev.Selected info v)
    (hcur : dev'.curTarget = dev.curTarget) (hsame : v.die dev'.chip = v.die dev.chip) :
    dev'.Selected info v :=
  ⟨fun t ht => by rw [hsame, h.cur t (hcur ▸ ht)], fun hone => by rw [hsame, h.single hone]⟩

variable (hchip : SpinandChip info bus v)
include hchip

/-- When 0 is returned, the die is there and selected. -/
theorem spinandSelectTarget_spec {dev : SpinandDev σ} (h : dev.Selected info v) (target : Nat) :
    v.cells (spinandSelectTarget info bus dev target).2.chip = v.cells dev.chip ∧
      v.ecc (spinandSelectTarget info bus dev target).2.chip = v.ecc dev.chip ∧
      ((spinandSelectTarget info bus dev target).1 = 0 →
        v.die (spinandSelectTarget info bus dev target).2.chip = target ∧
          (spinandSelectTarget info bus dev target).2.Selected info v) ∧
      ((spinandSelectTarget info bus dev target).1 ≠ 0 →
        BusError (spinandSelectTarget info bus dev target).1) := by
  unfold spinandSelectTarget
  split
  · exact ⟨rfl, rfl, fun hret => absurd hret (show (-einval : Int) ≠ 0 by decide),
      fun _ => busError_einval⟩
  · rename_i hin
    split
    · rename_i hcur
      exact ⟨rfl, rfl, fun _ => ⟨h.cur target hcur, h⟩, fun hne => absurd rfl hne⟩
    · split
      · rename_i hone
        have hzero : target = 0 := by omega
        have hdie := h.single hone
        refine ⟨rfl, rfl, fun _ => ⟨by rw [hdie, hzero], ⟨fun t ht => ?_, fun _ => hdie⟩⟩,
          fun hne => absurd rfl hne⟩
        rw [← Option.some.inj ht, hzero]
        exact hdie
      · rename_i hone
        simp only
        split
        · rename_i hret
          exact ⟨hchip.select_cells _ _, hchip.select_ecc _ _, fun h0 => absurd h0 hret,
            hchip.select_error _ _⟩
        · rename_i hret
          have hdie := hchip.selected dev.chip target (not_not.1 hret)
          refine ⟨hchip.select_cells _ _, hchip.select_ecc _ _, fun _ => ⟨hdie, ⟨fun t ht => ?_, ?_⟩⟩,
            fun hne => absurd rfl hne⟩
          · rw [← Option.some.inj ht]
            exact hdie
          · exact fun h1 => absurd h1 hone

theorem spinandUpdCfg_spec (dev : SpinandDev σ) (mask val : BitVec 8) :
    v.Same dev.chip (spinandUpdCfg info bus dev mask val).2.chip ∧
      (spinandUpdCfg info bus dev mask val).2.curTarget = dev.curTarget ∧
      ((spinandUpdCfg info bus dev mask val).1 ≠ 0 → BusError (spinandUpdCfg info bus dev mask val).1) := by
  unfold spinandUpdCfg
  split
  · exact ⟨SpinandView.Same.refl v _, rfl, fun _ => busError_einval⟩
  · split
    · exact ⟨SpinandView.Same.refl v _, rfl, fun _ => busError_einval⟩
    · simp only
      split
      · exact ⟨SpinandView.Same.refl v _, rfl, fun hne => absurd rfl hne⟩
      · split
        · exact ⟨hchip.cfg_same _ _, rfl, hchip.cfg_error _ _⟩
        · exact ⟨hchip.cfg_same _ _, rfl, fun hne => absurd rfl hne⟩

/-- Both calls in front of the page: when they return 0, the die of the page is selected. -/
theorem selected_spec {dev : SpinandDev σ} (h : dev.Selected info v) (target : Nat) (enable : Bool)
    (hselect : (spinandSelectTarget info bus dev target).1 = 0) :
    let dev' := (spinandEccEnable info bus (spinandSelectTarget info bus dev target).2 enable).2
    v.cells dev'.chip = v.cells dev.chip ∧ v.ecc dev'.chip = v.ecc dev.chip ∧
      v.die dev'.chip = target ∧ dev'.Selected info v := by
  rcases spinandSelectTarget_spec hchip h target with ⟨hcells, hecc, hok, _⟩
  rcases hok hselect with ⟨hdie, hsel⟩
  rcases spinandUpdCfg_spec hchip (spinandSelectTarget info bus dev target).2 cfgEccEnable
    (if enable = true then cfgEccEnable else 0) with ⟨hsame, hcur, _⟩
  exact ⟨hsame.cells.trans hcells, hsame.ecc.trans hecc, hsame.die.trans hdie, hsel.same hcur hsame.die⟩

end Dies

theorem wornDev_selected : wornDev.Selected info64 ramView :=
  ⟨fun _ ht => absurd ht.symm (Option.some_ne_none _), fun _ => rfl⟩

/-! ## The chip as memory -/

section Memory

variable (info : SpinandInfo) (v : SpinandView σ)

/-- A column of a page. -/
def chipByte (m : σ) (page c : Nat) : UInt8 :=
  v.cells m (posOfPage info.org page).target (posToRow info.org (posOfPage info.org page)) c

/-- The data of the chip, and its OOB bytes, one page behind the other. -/
def dataMem (m : σ) : ByteMem := fun a =>
  chipByte info v m (a / info.org.pagesize) (a % info.org.pagesize)

def oobMem (m : σ) : ByteMem := fun b =>
  chipByte info v m (b / info.org.oobsize) (info.org.pagesize + b % info.org.oobsize)

/-- Where the OOB bytes of a request begin. -/
def oobStart (offs ooboffs : Nat) : Nat := offs / info.org.pagesize * info.org.oobsize + ooboffs

variable {info v}

theorem chipByte_pos {pos : NandPos} (hpos : pos.Valid info.org) (m : σ) (c : Nat) :
    chipByte info v m (pageOf info.org pos) c =
      v.cells m pos.target (posToRow info.org pos) c := by
  rw [chipByte, ← hpos.eq_posOfPage]

/-- Another page has another row, or is on another die. -/
theorem chipByte_frame {pos : NandPos} (hpos : pos.Valid info.org) {m m' : σ}
    (hframe : ∀ d r, ¬ (d = pos.target ∧ r = posToRow info.org pos) → v.cells m' d r = v.cells m d r)
    {page : Nat} (hpage : page ≠ pageOf info.org pos) (c : Nat) :
    chipByte info v m' page c = chipByte info v m page c := by
  rw [chipByte, chipByte, hframe]
  rintro ⟨htarget, hrow⟩
  apply hpage
  rw [← posToRow_inj (posOfPage_valid page) hpos htarget hrow, pageOf_posOfPage]

/-- Bytes that lie in one of the stretches of `size` bytes. -/
theorem onErased_stretch {size page off a : Nat} {bs : List UInt8} (hsize : 0 < size)
    (hin : off + bs.length ≤ size) :
    onErased (page * size + off) bs a =
      if a / size = page then onErased off bs (a % size) else 0xff := by
  have hsplit := Nat.div_add_mod' a size
  split
  · rename_i h
    rw [h] at hsplit
    conv => lhs; rw [← hsplit]
    exact onErased_add _ _ _ _
  · rename_i h
    apply onErased_frame
    have hmod := Nat.mod_lt a hsize
    rcases Nat.lt_or_gt_of_ne h with hlt | hgt
    · have hmul := Nat.mul_le_mul_right size (Nat.succ_le_of_lt hlt)
      rw [Nat.succ_mul] at hmul
      omega
    · have hmul := Nat.mul_le_mul_right size (Nat.succ_le_of_lt hgt)
      rw [Nat.succ_mul] at hmul
      omega

theorem program_append_take (m : ByteMem) (off d n : Nat) (bs : List UInt8) (hd : d ≤ bs.length) :
    Nand.program (Nand.program m off (bs.take d)) (off + d) ((bs.drop d).take n) =
      Nand.program m off (bs.take (d + n)) := by
  have hlen : (bs.take d).length = d := by
    rw [List.length_take]
    omega
  have happend := program_append m off (bs.take d) ((bs.drop d).take n)
  rw [hlen] at happend
  rw [happend, List.take_add]

theorem program_nil (m : ByteMem) (off : Nat) : Nand.program m off [] = m := by
  funext a
  rw [program_eq, onErased_nil, Nand.and_ff]

variable {mode : OobMode} {req : IoReq} {data oob : List UInt8}

/-- A page that has been programmed, in the memory of the chip. -/
theorem page_programmed (hfits : info.Fits) (h : PagePart info mode req data oob) {m m' : σ}
    (hframe : ∀ d r, ¬ (d = req.pos.target ∧ r = posToRow info.org req.pos) →
      v.cells m' d r = v.cells m d r)
    (hcells : ∀ c < cacheWindow info, v.cells m' req.pos.target (posToRow info.org req.pos) c =
      v.cells m req.pos.target (posToRow info.org req.pos) c &&& writeBuffer info mode req data oob c) :
    dataMem info v m' = Nand.program (dataMem info v m)
        (pageOf info.org req.pos * info.org.pagesize + req.dataoffs) data ∧
      oobMem info v m' = Nand.program (oobMem info v m)
        (pageOf info.org req.pos * info.org.oobsize + req.ooboffs) oob := by
  have hps := info.org.pagesize_pos
  have hos := hfits.oob_pos
  have hpage := hfits.page
  have hdata := h.data
  have hdatapage := h.data_page
  have hoob := h.oob
  have hoobpage := h.oob_page
  -- a byte of the page, and a byte of another
  have hbyte : ∀ p c, c < info.org.pagesize + info.org.oobsize → chipByte info v m' p c =
      chipByte info v m p c &&&
        if p = pageOf info.org req.pos then writeBuffer info mode req data oob c else 0xff := by
    intro p c hc
    split
    · rename_i hp
      rw [hp, chipByte_pos h.pos, chipByte_pos h.pos, hcells c (by omega)]
    · rename_i hp
      rw [chipByte_frame h.pos hframe hp, Nand.and_ff]
  constructor
  · funext a
    have hmod := Nat.mod_lt a hps
    rw [program_eq, onErased_stretch hps (by omega), dataMem, hbyte _ _ (by omega),
      writeBuffer_eq h, if_pos hmod]
    rfl
  · funext b
    have hmod := Nat.mod_lt b hos
    rw [program_eq, oobMem, hbyte _ _ (by omega), writeBuffer_eq h,
      if_neg (show ¬ info.org.pagesize + b % info.org.oobsize < info.org.pagesize by omega), onErased_add]
    by_cases hzero : req.ooblen = 0
    · have hnil : oob = [] := List.length_eq_zero_iff.1 (by omega)
      rw [hnil, onErased_nil, onErased_nil, ite_self]
      rfl
    · rw [onErased_stretch hos (by have := hoobpage hzero; omega)]
      rfl

end Memory

/-! ## The parts of a request -/

section Parts

variable {info : SpinandInfo} {mode : OobMode} {offs len ooboffs ooblen oobavail d o : Nat} {req : IoReq}

/-- The part of a request that the loop gives to its body. -/
theorem inPage_of_io (hmode : mode ≠ .autoOob ∨ ooblen = 0)
    (h : IoPart info.org (mtdOobavail info mode oobavail) offs len ooboffs ooblen d o req) :
    InPage info mode req := by
  have ho := h.oob_le
  have hplain : mode ≠ .autoOob ∨ req.ooblen = 0 := hmode.imp_right fun hzero => by omega
  refine ⟨h.pos, h.some_part, h.data_page, fun hne => ?_, hplain⟩
  have hpage := h.oob_page hne
  rwa [mtdOobavail, if_neg (hplain.resolve_right hne)] at hpage

theorem oobavail_of_mode (hmode : mode ≠ .autoOob ∨ ooblen = 0)
    (hoob : ooblen = 0 ∨ ooboffs < info.org.oobsize) :
    ooblen = 0 ∨ ooboffs < mtdOobavail info mode oobavail := by
  rcases hmode with hplain | hzero
  · rwa [mtdOobavail, if_neg hplain]
  · exact Or.inl hzero

/-- Where the part lies in the memory of the chip. -/
theorem part_offsets (hmode : mode ≠ .autoOob ∨ ooblen = 0)
    (h : IoPart info.org (mtdOobavail info mode oobavail) offs len ooboffs ooblen d o req) :
    (req.datalen ≠ 0 → pageOf info.org req.pos * info.org.pagesize + req.dataoffs = offs + d) ∧
      (req.ooblen ≠ 0 → pageOf info.org req.pos * info.org.oobsize + req.ooboffs =
        oobStart info offs ooboffs + o) := by
  refine ⟨h.data_at, fun hne => ?_⟩
  have hat := h.oob_at hne
  rwa [mtdOobavail, if_neg ((inPage_of_io hmode h).plain.resolve_right hne)] at hat

/-- A byte of the part is on its page. -/
theorem part_div {size page off at' len' i : Nat} (hat : page * size + off = at') (hin : off + len' ≤ size)
    (hi : i < len') : (at' + i) / size = page ∧ (at' + i) % size = off + i := by
  have hlt : off + i < size := by omega
  rw [← hat, Nat.add_assoc, Nat.mul_comm, Nat.mul_add_div (by omega), Nat.mul_add_mod,
    Nat.div_eq_of_lt hlt, Nat.mod_eq_of_lt hlt]
  exact ⟨rfl, rfl⟩

/-- The page of the part is where the request has come to. -/
theorem part_page (hmode : mode ≠ .autoOob ∨ ooblen = 0)
    (h : IoPart info.org (mtdOobavail info mode oobavail) offs len ooboffs ooblen d o req) :
    pageOf info.org req.pos = (offs + d) / info.org.pagesize ∨
      pageOf info.org req.pos = (oobStart info offs ooboffs + o) / info.org.oobsize := by
  have hoffs := part_offsets hmode h
  have hpage := inPage_of_io hmode h
  rcases h.some_part with hd | ho
  · exact Or.inl (part_div (hoffs.1 hd) hpage.data_page (Nat.pos_of_ne_zero hd)).1.symm
  · exact Or.inr (part_div (hoffs.2 ho) (hpage.oob_page ho) (Nat.pos_of_ne_zero ho)).1.symm

end Parts

/-! ## Writing -/

section Write

variable {info : SpinandInfo} {bus : SpinandBus σ} {v : SpinandView σ} {mode : OobMode}
  {offs ooboffs oobavail : Nat} {datbuf oobbuf : List UInt8}

/-- `d` bytes of data and `o` of OOB have been written, on the pages that are not left out. -/
structure WrittenOn (info : SpinandInfo) (v : SpinandView σ) (m₀ : σ) (offs ooboffs : Nat)
    (datbuf oobbuf : List UInt8) (on : Nat → Prop) (d o : Nat) (s : SpinandWrite σ) : Prop where
  retlen : s.retlen = d
  oobretlen : s.oobretlen = o
  data : ∀ a, on (a / info.org.pagesize) →
    dataMem info v s.dev.chip a = Nand.program (dataMem info v m₀) offs (datbuf.take d) a
  oob : ∀ b, on (b / info.org.oobsize) → oobMem info v s.dev.chip b =
    Nand.program (oobMem info v m₀) (oobStart info offs ooboffs) (oobbuf.take o) b

theorem pagePart_of_io (hmode : mode ≠ .autoOob ∨ oobbuf.length = 0) {d o : Nat} {req : IoReq}
    (h : IoPart info.org (mtdOobavail info mode oobavail) offs datbuf.length ooboffs oobbuf.length d o req) :
    PagePart info mode req ((datbuf.drop d).take req.datalen) ((oobbuf.drop o).take req.ooblen) := by
  have hd := h.data_le
  have ho := h.oob_le
  refine ⟨inPage_of_io hmode h, ?_, ?_⟩
  · rw [List.length_take, List.length_drop]
    omega
  · rw [List.length_take, List.length_drop]
    omega

variable (hchip : SpinandChip info bus v)
include hchip

/-- One page of the request: it is written, or it is the only one about which nothing is known. -/
theorem spinandWriteBody_spec (hfits : info.Fits) (hmode : mode ≠ .autoOob ∨ oobbuf.length = 0) {m₀ : σ}
    {d o : Nat} {s : SpinandWrite σ} {req : IoReq} (hsel : s.dev.Selected info v)
    (h : WrittenOn info v m₀ offs ooboffs datbuf oobbuf (fun _ => True) d o s)
    (hpart : IoPart info.org (mtdOobavail info mode oobavail) offs datbuf.length ooboffs oobbuf.length
      d o req) :
    ∃ r, spinandWriteBody info bus mode datbuf oobbuf s req = some r ∧
      (r.1 = 0 → r.2.dev.Selected info v ∧
        WrittenOn info v m₀ offs ooboffs datbuf oobbuf (fun _ => True) (d + req.datalen) (o + req.ooblen)
          r.2) ∧
      (r.1 ≠ 0 → WrittenOn info v m₀ offs ooboffs datbuf oobbuf (· ≠ pageOf info.org req.pos) d o r.2) := by
  have hpage := pagePart_of_io hmode hpart
  have hoffs := part_offsets hmode hpart
  -- as long as the cells are the same, so is the memory
  have hkeep : ∀ dev' : SpinandDev σ, (∀ d r, ¬ (d = req.pos.target ∧ r = posToRow info.org req.pos) →
      v.cells dev'.chip d r = v.cells s.dev.chip d r) →
      WrittenOn info v m₀ offs ooboffs datbuf oobbuf (· ≠ pageOf info.org req.pos) d o
        { s with dev := dev' } := by
    intro dev' hframe
    refine ⟨h.retlen, h.oobretlen, fun a ha => ?_, fun b hb => ?_⟩
    · rw [← h.data a trivial, dataMem, dataMem, chipByte_frame hpage.pos hframe ha]
    · rw [← h.oob b trivial, oobMem, oobMem, chipByte_frame hpage.pos hframe hb]
  simp only [spinandWriteBody]
  rcases spinandSelectTarget_spec hchip hsel req.pos.target with ⟨hcells, _, _, _⟩
  by_cases hselect : (spinandSelectTarget info bus s.dev req.pos.target).1 = 0
  · rw [if_neg (not_not.2 hselect)]
    rcases selected_spec hchip hsel req.pos.target (decide (mode ≠ .raw)) hselect with
      ⟨hcells', _, hdie, hsel'⟩
    by_cases hecc : (spinandEccEnable info bus (spinandSelectTarget info bus s.dev req.pos.target).2
        (decide (mode ≠ .raw))).1 = 0
    · rw [if_neg (not_not.2 hecc)]
      generalize (spinandEccEnable info bus (spinandSelectTarget info bus s.dev req.pos.target).2
        (decide (mode ≠ .raw))).2 = dev' at hcells' hdie hsel'
      rw [hpart.databuf, hpart.oobbuf]
      rcases spinandWritePage_spec hchip hfits hpage dev'.chip with
        ⟨ret, m', hrun, hdie', hframe, hwritten⟩
      rw [hdie, hcells'] at hframe hwritten
      rw [hrun, Option.map_some]
      by_cases hret : ret = 0
      · rw [if_neg (not_not.2 hret)]
        refine ⟨_, rfl, fun _ => ⟨hsel'.same rfl hdie', ?_⟩, fun hne => absurd rfl hne⟩
        rcases page_programmed hfits hpage hframe (hwritten hret) with ⟨hdata, hoob⟩
        have hd := hpart.data_le
        have ho := hpart.oob_le
        refine ⟨by rw [h.retlen], by rw [h.oobretlen], fun a _ => ?_, fun b _ => ?_⟩
        · rw [hdata, ← program_append_take _ _ _ _ _ (by omega), ← funext fun a => h.data a trivial]
          by_cases hzero : req.datalen = 0
          · rw [hzero, List.take_zero, program_nil, program_nil]
          · rw [hoffs.1 hzero]
        · rw [hoob, ← program_append_take _ _ _ _ _ (by omega), ← funext fun b => h.oob b trivial]
          by_cases hzero : req.ooblen = 0
          · rw [hzero, List.take_zero, program_nil, program_nil]
          · rw [hoffs.2 hzero]
      · rw [if_pos hret]
        exact ⟨_, rfl, fun h0 => absurd h0 hret, fun _ => hkeep _ hframe⟩
    · rw [if_pos hecc]
      refine ⟨_, rfl, fun h0 => absurd h0 hecc, fun _ => hkeep _ fun d r _ => ?_⟩
      rw [hcells']
  · rw [if_pos hselect]
    refine ⟨_, rfl, fun h0 => absurd h0 hselect, fun _ => hkeep _ fun d r _ => ?_⟩
    rw [hcells]

/-- `spinand_mtd_write`: the request is programmed into the chip, its OOB bytes into the OOB areas from
that of its first page on.  If it fails, that is at one page, and `retlen` and `oobretlen` tell how much has
been programmed on the others. -/
theorem spinandMtdWrite_spec (hfits : info.Fits) {dev : SpinandDev σ} (hdev : dev.Selected info v)
    (hmode : mode ≠ .autoOob ∨ oobbuf = []) (hlen : datbuf.length < 2 ^ 32)
    (hooblen : oobbuf.length < 2 ^ 32) (hoob : oobbuf = [] ∨ ooboffs < info.org.oobsize) :
    ∃ ret s, spinandMtdWrite info bus dev oobavail offs mode datbuf oobbuf ooboffs = some (ret, s) ∧
      (ret = 0 → s.dev.Selected info v ∧ s.retlen = datbuf.length ∧ s.oobretlen = oobbuf.length ∧
        dataMem info v s.dev.chip = Nand.program (dataMem info v dev.chip) offs datbuf ∧
        oobMem info v s.dev.chip =
          Nand.program (oobMem info v dev.chip) (oobStart info offs ooboffs) oobbuf) ∧
      (ret ≠ 0 → ∃ page, (page = (offs + s.retlen) / info.org.pagesize ∨
          page = (oobStart info offs ooboffs + s.oobretlen) / info.org.oobsize) ∧
        ∀ p ≠ page, (∀ a, a / info.org.pagesize = p → dataMem info v s.dev.chip a =
            Nand.program (dataMem info v dev.chip) offs (datbuf.take s.retlen) a) ∧
          ∀ b, b / info.org.oobsize = p → oobMem info v s.dev.chip b = Nand.program
            (oobMem info v dev.chip) (oobStart info offs ooboffs) (oobbuf.take s.oobretlen) b) := by
  rw [← List.length_eq_zero_iff] at hmode hoob
  -- the invariant: what `retlen` and `oobretlen` count is on the chip
  have hinit : dev.Selected info v ∧ WrittenOn info v dev.chip offs ooboffs datbuf oobbuf
      (fun _ => True) 0 0 { dev := dev, retlen := 0, oobretlen := 0 } := by
    refine ⟨hdev, rfl, rfl, fun a _ => ?_, fun b _ => ?_⟩
    · rw [List.take_zero, program_nil]
    · rw [List.take_zero, program_nil]
  have hloop := @forEachPage_rule info.org (mtdOobavail info mode oobavail) offs datbuf.length ooboffs
    oobbuf.length _ (spinandWriteBody info bus mode datbuf oobbuf)
    (fun d o s => s.dev.Selected info v ∧
      WrittenOn info v dev.chip offs ooboffs datbuf oobbuf (fun _ => True) d o s)
    (fun _ s => ∃ page, (page = (offs + s.retlen) / info.org.pagesize ∨
        page = (oobStart info offs ooboffs + s.oobretlen) / info.org.oobsize) ∧
      WrittenOn info v dev.chip offs ooboffs datbuf oobbuf (· ≠ page) s.retlen s.oobretlen s)
    hlen hooblen (oobavail_of_mode hmode hoob)
    (by
      rintro d o s req ⟨hsel, h⟩ hpart
      rcases spinandWriteBody_spec hchip hfits hmode hsel h hpart with ⟨r, hrun, hok, hfail⟩
      refine ⟨r, hrun, hok, fun hne => ⟨pageOf info.org req.pos, ?_, ?_⟩⟩
      · have hwritten := hfail hne
        rw [hwritten.retlen, hwritten.oobretlen]
        exact part_page hmode hpart
      · have hwritten := hfail hne
        rw [hwritten.retlen, hwritten.oobretlen]
        exact hwritten)
    { dev := dev, retlen := 0, oobretlen := 0 } hinit
  rcases hloop with ⟨⟨ret, s⟩, hrun, hok, hfail⟩
  refine ⟨ret, s, hrun, fun h0 => ?_, fun hne => ?_⟩
  · rcases hok h0 with ⟨hsel, h⟩
    have hdata : dataMem info v s.dev.chip = _ := funext fun a => h.data a trivial
    have hoobmem : oobMem info v s.dev.chip = _ := funext fun b => h.oob b trivial
    rw [List.take_length] at hdata hoobmem
    exact ⟨hsel, h.retlen, h.oobretlen, hdata, hoobmem⟩
  · rcases hfail hne with ⟨page, hpage, h⟩
    refine ⟨page, hpage, fun p hp => ⟨fun a ha => h.data a ?_, fun b hb => h.oob b ?_⟩⟩
    · rw [ha]
      exact hp
    · rw [hb]
      exact hp

omit hchip in
theorem spinandMtdWrite_two_pages :
    ∃ ret s, spinandMtdWrite info64 ramBus wornDev 64 2000 .placeOob (List.replicate 300 0x5a) [1, 2] 4 =
        some (ret, s) ∧
      (ret = 0 → s.retlen = 300 ∧ s.oobretlen = 2 ∧
        dataMem info64 ramView s.dev.chip =
          Nand.program (dataMem info64 ramView wornRam) 2000 (List.replicate 300 0x5a) ∧
        oobMem info64 ramView s.dev.chip =
          Nand.program (oobMem info64 ramView wornRam) (oobStart info64 2000 4) [1, 2]) := by
  have hlen : (List.replicate 300 (0x5a : UInt8)).length < 2 ^ 32 := by
    rw [List.length_replicate]
    decide
  rcases @spinandMtdWrite_spec _ info64 ramBus ramView .placeOob 2000 4 64 _ [1, 2]
    (chip_ramBus (by decide)) fits_info64 wornDev wornDev_selected (Or.inl (by decide)) hlen (by decide)
    (Or.inr (by decide)) with ⟨ret, s, hrun, hok, _⟩
  refine ⟨ret, s, hrun, fun h => ?_⟩
  rcases hok h with ⟨_, hretlen, hoobretlen, hdata, hoob⟩
  exact ⟨hretlen.trans List.length_replicate, hoobretlen, hdata, hoob⟩

end Write

/-! ## Reading -/

section Read

variable {info : SpinandInfo} {bus : SpinandBus σ} {v : SpinandView σ} {mode : OobMode}
  {offs len ooboffs ooblen oobavail : Nat}

theorem drop_take_read (m : ByteMem) (off : Nat) {n k l : Nat} (h : k + l ≤ n) :
    ((m.read off n).drop k).take l = m.read (off + k) l := by
  have hsplit : m.read off n = m.read off k ++ m.read (off + k) (n - k) := by
    rw [← ByteMem.read_add, Nat.add_sub_cancel' (by omega)]
  rw [hsplit, List.drop_left' (m.length_read off k), ByteMem.take_read m _ (by omega)]

/-- The answer of the ECC for a page. -/
def pageCode (info : SpinandInfo) (v : SpinandView σ) (m : σ) (page : Nat) : Int :=
  spinandCheckEccStatus info
    (v.ecc m (posOfPage info.org page).target (posToRow info.org (posOfPage info.org page)))

theorem pageCode_pos {pos : NandPos} (hpos : pos.Valid info.org) (m : σ) :
    pageCode info v m (pageOf info.org pos) =
      spinandCheckEccStatus info (v.ecc m pos.target (posToRow info.org pos)) := by
  rw [pageCode, ← hpos.eq_posOfPage]

/-- A page that the first `d` bytes of data and `o` of OOB of a request are on. -/
def OnPage (info : SpinandInfo) (offs ooboffs d o page : Nat) : Prop :=
  (∃ i < d, (offs + i) / info.org.pagesize = page) ∨
    ∃ i < o, (oobStart info offs ooboffs + i) / info.org.oobsize = page

/-- The buffers have the bytes of the chip, those of the pages apart that could not be corrected. -/
structure ReadGot (info : SpinandInfo) (v : SpinandView σ) (m₀ : σ) (offs ooboffs d o : Nat)
    (s : SpinandRead σ) : Prop where
  cells : v.cells s.dev.chip = v.cells m₀
  ecc : v.ecc s.dev.chip = v.ecc m₀
  retlen : s.retlen = d
  oobretlen : s.oobretlen = o
  datbuf : s.datbuf.length = d
  oobbuf : s.oobbuf.length = o
  data : ∀ i < d, 0 ≤ pageCode info v m₀ ((offs + i) / info.org.pagesize) →
    s.datbuf[i]? = some (dataMem info v m₀ (offs + i))
  oob : ∀ i < o, 0 ≤ pageCode info v m₀ ((oobStart info offs ooboffs + i) / info.org.oobsize) →
    s.oobbuf[i]? = some (oobMem info v m₀ (oobStart info offs ooboffs + i))

/-- What is kept of the answers of the ECC. -/
structure ReadCodes (info : SpinandInfo) (v : SpinandView σ) (m₀ : σ) (offs ooboffs d o : Nat)
    (s : SpinandRead σ) : Prop where
  code : ∀ p, OnPage info offs ooboffs d o p → 0 ≤ pageCode info v m₀ p ∨ pageCode info v m₀ p = -ebadmsg
  failed : s.eccFailed = true ↔ ∃ p, OnPage info offs ooboffs d o p ∧ pageCode info v m₀ p = -ebadmsg
  flips_le : ∀ p, OnPage info offs ooboffs d o p → pageCode info v m₀ p ≤ s.maxBitflips
  flips : s.maxBitflips = 0 ∨
    ∃ p, OnPage info offs ooboffs d o p ∧ pageCode info v m₀ p = s.maxBitflips
  none : d = 0 → o = 0 → s.ret = 0
  last : o = 0 → d ≠ 0 → s.ret = max 0 (pageCode info v m₀ ((offs + d - 1) / info.org.pagesize))

variable {d o : Nat} {req : IoReq}

/-- The part of a request adds its page. -/
theorem onPage_part (hmode : mode ≠ .autoOob ∨ ooblen = 0)
    (h : IoPart info.org (mtdOobavail info mode oobavail) offs len ooboffs ooblen d o req) (p : Nat) :
    OnPage info offs ooboffs (d + req.datalen) (o + req.ooblen) p ↔
      OnPage info offs ooboffs d o p ∨ p = pageOf info.org req.pos := by
  have hoffs := part_offsets hmode h
  have hin := inPage_of_io hmode h
  constructor
  · rintro (⟨i, hi, hp⟩ | ⟨i, hi, hp⟩)
    · by_cases hd : i < d
      · exact Or.inl (Or.inl ⟨i, hd, hp⟩)
      · have hdiv := (@part_div _ _ _ _ _ (i - d) (hoffs.1 (by omega)) hin.data_page (by omega)).1
        rw [Nat.add_assoc, Nat.add_sub_cancel' (by omega)] at hdiv
        exact Or.inr (hp.symm.trans hdiv)
    · by_cases ho : i < o
      · exact Or.inl (Or.inr ⟨i, ho, hp⟩)
      · have hdiv := (@part_div _ _ _ _ _ (i - o) (hoffs.2 (by omega)) (hin.oob_page (by omega))
          (by omega)).1
        rw [Nat.add_assoc, Nat.add_sub_cancel' (by omega)] at hdiv
        exact Or.inr (hp.symm.trans hdiv)
  · rintro ((⟨i, hi, hp⟩ | ⟨i, hi, hp⟩) | hp)
    · exact Or.inl ⟨i, by omega, hp⟩
    · exact Or.inr ⟨i, by omega, hp⟩
    · rcases h.some_part with hd | ho
      · refine Or.inl ⟨d, by omega, ?_⟩
        rw [hp, ← (part_div (hoffs.1 hd) hin.data_page (Nat.pos_of_ne_zero hd)).1, Nat.add_zero]
      · refine Or.inr ⟨o, by omega, ?_⟩
        rw [hp, ← (part_div (hoffs.2 ho) (hin.oob_page ho) (Nat.pos_of_ne_zero ho)).1, Nat.add_zero]

/-- Bytes behind those that have come. -/
theorem getElem_append_read {buf bytes : List UInt8} {n i k : Nat} {m : ByteMem} {off : Nat}
    (hlen : buf.length = n) (hbytes : bytes = m.read off k) (hi : n ≤ i) (hik : i < n + k) :
    (buf ++ bytes)[i]? = some (m (off + (i - n))) := by
  have hlt : i - n < bytes.length := by
    rw [hbytes, ByteMem.length_read]
    omega
  rw [List.getElem?_append_right (by omega), hlen, List.getElem?_eq_getElem hlt]
  simp only [hbytes, ByteMem.getElem_read]

/-- A page has been read. -/
theorem ReadGot.page {m₀ : σ} {s : SpinandRead σ} (hmode : mode ≠ .autoOob ∨ ooblen = 0)
    (hpart : IoPart info.org (mtdOobavail info mode oobavail) offs len ooboffs ooblen d o req)
    (h : ReadGot info v m₀ offs ooboffs d o s) {s' : SpinandRead σ} {data oob : List UInt8}
    (hcells : v.cells s'.dev.chip = v.cells m₀) (hecc : v.ecc s'.dev.chip = v.ecc m₀)
    (hretlen : s'.retlen = s.retlen + req.datalen) (hoobretlen : s'.oobretlen = s.oobretlen + req.ooblen)
    (hdatbuf : s'.datbuf = s.datbuf ++ data) (hoobbuf : s'.oobbuf = s.oobbuf ++ oob)
    (hdata : data.length = req.datalen) (hoob : oob.length = req.ooblen)
    (hbytes : 0 ≤ pageCode info v m₀ (pageOf info.org req.pos) →
      data = ByteMem.read (chipByte info v m₀ (pageOf info.org req.pos)) req.dataoffs req.datalen ∧
      oob = ByteMem.read (chipByte info v m₀ (pageOf info.org req.pos))
        (info.org.pagesize + req.ooboffs) req.ooblen) :
    ReadGot info v m₀ offs ooboffs (d + req.datalen) (o + req.ooblen) s' := by
  have hoffs := part_offsets hmode hpart
  have hin := inPage_of_io hmode hpart
  refine ⟨hcells, hecc, by rw [hretlen, h.retlen], by rw [hoobretlen, h.oobretlen], ?_, ?_, ?_, ?_⟩
  · rw [hdatbuf, List.length_append, h.datbuf, hdata]
  · rw [hoobbuf, List.length_append, h.oobbuf, hoob]
  · intro i hi hcode
    rw [hdatbuf]
    by_cases hd : i < d
    · rw [List.getElem?_append_left (by rw [h.datbuf]; exact hd), h.data i hd hcode]
    · have hdiv := @part_div _ _ _ _ _ (i - d) (hoffs.1 (by omega)) hin.data_page (by omega)
      rw [Nat.add_assoc, Nat.add_sub_cancel' (by omega)] at hdiv
      rw [hdiv.1] at hcode
      rw [getElem_append_read h.datbuf (hbytes hcode).1 (by omega) hi, dataMem, hdiv.1, hdiv.2]
  · intro i hi hcode
    rw [hoobbuf]
    by_cases ho : i < o
    · rw [List.getElem?_append_left (by rw [h.oobbuf]; exact ho), h.oob i ho hcode]
    · have hdiv := @part_div _ _ _ _ _ (i - o) (hoffs.2 (by omega)) (hin.oob_page (by omega)) (by omega)
      rw [Nat.add_assoc, Nat.add_sub_cancel' (by omega)] at hdiv
      rw [hdiv.1] at hcode
      rw [getElem_append_read h.oobbuf (hbytes hcode).2 (by omega) hi, oobMem, hdiv.1, hdiv.2,
        Nat.add_assoc]

/-- The answer for a page has been taken in. -/
theorem ReadCodes.page {m₀ : σ} {s s' : SpinandRead σ} {code : Int} (hmode : mode ≠ .autoOob ∨ ooblen = 0)
    (hpart : IoPart info.org (mtdOobavail info mode oobavail) offs len ooboffs ooblen d o req)
    (h : ReadCodes info v m₀ offs ooboffs d o s)
    (hcode : code = pageCode info v m₀ (pageOf info.org req.pos)) (hok : 0 ≤ code ∨ code = -ebadmsg)
    (hfailed : s'.eccFailed = true ↔ s.eccFailed = true ∨ code = -ebadmsg)
    (hflips : s'.maxBitflips = max s.maxBitflips code.toNat) (hret : s'.ret = max 0 code) :
    ReadCodes info v m₀ offs ooboffs (d + req.datalen) (o + req.ooblen) s' := by
  have hon := onPage_part hmode hpart
  refine ⟨fun p hp => ?_, ?_, fun p hp => ?_, ?_, fun h1 h2 => ?_, fun h1 h2 => ?_⟩
  · rcases (hon p).1 hp with hold | rfl
    · exact h.code p hold
    · rwa [← hcode]
  · rw [hfailed, h.failed]
    constructor
    · rintro (⟨p, hp, hbad⟩ | hbad)
      · exact ⟨p, (hon p).2 (Or.inl hp), hbad⟩
      · exact ⟨_, (hon _).2 (Or.inr rfl), hcode ▸ hbad⟩
    · rintro ⟨p, hp, hbad⟩
      rcases (hon p).1 hp with hold | rfl
      · exact Or.inl ⟨p, hold, hbad⟩
      · exact Or.inr (hcode.trans hbad)
  · rcases (hon p).1 hp with hold | rfl
    · have hle := h.flips_le p hold
      omega
    · omega
  · rcases Nat.lt_or_ge s.maxBitflips code.toNat with hlt | hge
    · right
      exact ⟨_, (hon _).2 (Or.inr rfl), by omega⟩
    · rw [hflips, max_eq_left hge]
      refine h.flips.imp_right ?_
      rintro ⟨p, hp, heq⟩
      exact ⟨p, (hon p).2 (Or.inl hp), heq⟩
  · have hsome := hpart.some_part
    omega
  · have hsome := hpart.some_part
    have hdiv := @part_div _ _ _ _ _ (req.datalen - 1) ((part_offsets hmode hpart).1 (by omega))
      hpart.data_page (by omega)
    rw [show offs + (d + req.datalen) - 1 = offs + d + (req.datalen - 1) by omega, hdiv.1, ← hcode, hret]

theorem spinandReadRet_eq (s : SpinandRead σ) : spinandReadRet s =
    if s.ret ≠ 0 then s.ret else if s.eccFailed = true then -ebadmsg else s.maxBitflips := by
  unfold spinandReadRet
  by_cases hret : s.ret = 0
  · by_cases hfailed : s.eccFailed = true
    · simp [hret, hfailed, ebadmsg]
    · simp [hret, hfailed]
  · simp [hret]

theorem spinandReadRet_error {s : SpinandRead σ} (h : BusError s.ret) : spinandReadRet s = s.ret := by
  rw [spinandReadRet_eq, if_pos h.1.ne]

/-- When no page has been marked as one that could not be corrected, all could be. -/
theorem ReadCodes.nonneg {m₀ : σ} {s : SpinandRead σ} (h : ReadCodes info v m₀ offs ooboffs d o s)
    (hfailed : ¬ s.eccFailed = true) {p : Nat} (hp : OnPage info offs ooboffs d o p) :
    0 ≤ pageCode info v m₀ p :=
  (h.code p hp).resolve_right fun hbad => hfailed (h.failed.2 ⟨p, hp, hbad⟩)

/-- 0 is returned only if nothing had to be corrected. -/
theorem ReadCodes.all_corrected {m₀ : σ} {s : SpinandRead σ} (h : ReadCodes info v m₀ offs ooboffs d o s)
    (hret : spinandReadRet s = 0) {p : Nat} (hp : OnPage info offs ooboffs d o p) :
    0 ≤ pageCode info v m₀ p := by
  rw [spinandReadRet_eq] at hret
  split at hret
  · rename_i hne
    exact absurd hret hne
  · split at hret
    · exact absurd hret (show (-ebadmsg : Int) ≠ 0 by decide)
    · rename_i hfailed
      exact h.nonneg hfailed hp

/-- The pages of a request for data. -/
theorem onPage_data (info : SpinandInfo) {offs ooboffs d p : Nat} (hd : 0 < d) :
    OnPage info offs ooboffs d 0 p ↔
      offs / info.org.pagesize ≤ p ∧ p ≤ (offs + d - 1) / info.org.pagesize := by
  have hps := info.org.pagesize_pos
  constructor
  · rintro (⟨i, hi, rfl⟩ | ⟨i, hi, _⟩)
    · exact ⟨Nat.div_le_div_right (by omega), Nat.div_le_div_right (by omega)⟩
    · omega
  · rintro ⟨hfirst, hlast⟩
    left
    by_cases hp : p * info.org.pagesize ≤ offs
    · refine ⟨0, hd, Nat.le_antisymm hfirst ?_⟩
      exact (Nat.le_div_iff_mul_le hps).2 hp
    · refine ⟨p * info.org.pagesize - offs, ?_, ?_⟩
      · have hle := (Nat.le_div_iff_mul_le hps).1 hlast
        omega
      · rw [Nat.add_sub_cancel' (by omega), Nat.mul_div_cancel _ hps]

variable (hchip : SpinandChip info bus v)
include hchip

/-- Reading a page, with the die selected: the bus has failed, or the answer is that of the ECC and the
bytes, if they could be corrected, are those of the page. -/
theorem spinandReadPage_spec (hfits : info.Fits) {req : IoReq} (h : InPage info mode req) {m : σ}
    (hdie : v.die m = req.pos.target) :
    ∃ ret out m', spinandReadPage info bus m mode req true = some (ret, out, m') ∧ v.Same m m' ∧
      (BusError ret ∨
        (ret = pageCode info v m (pageOf info.org req.pos) ∧
          out.1.length = req.datalen ∧ out.2.length = req.ooblen ∧ (0 ≤ ret →
          out.1 = ByteMem.read (chipByte info v m (pageOf info.org req.pos)) req.dataoffs req.datalen ∧
          out.2 = ByteMem.read (chipByte info v m (pageOf info.org req.pos))
            (info.org.pagesize + req.ooboffs) req.ooblen))) := by
  have hload := hchip.load_same m (posToRow info.org req.pos)
  have hpart := h.some_part
  have hdatapage := h.data_page
  have hoobpage := h.oob_page
  have hpage := hfits.page
  have hps := info.org.pagesize_pos
  simp only [spinandReadPage]
  by_cases hret : (bus.loadPage m (posToRow info.org req.pos)).1 = 0
  · rw [if_neg (not_not.2 hret)]
    have hwait := hchip.wait_same (bus.loadPage m (posToRow info.org req.pos)).2
    by_cases hbusy : (bus.wait (bus.loadPage m (posToRow info.org req.pos)).2).1 < 0
    · rw [if_pos hbusy]
      exact ⟨_, _, _, rfl, hload.trans hwait, Or.inl (hchip.wait_error _ hbusy)⟩
    · rw [if_neg hbusy]
      have hstatus := hchip.loaded_status m (posToRow info.org req.pos) hret hbusy
      have hloaded := hchip.loaded m req.pos h.pos hret hbusy
      rw [hdie] at hstatus hloaded
      have hroom : cacheStart info req < cacheWindow info ∧
          cacheStart info req + cacheBytes info req ≤ cacheWindow info := by
        have hos := hfits.oob_pos
        unfold cacheStart cacheBytes
        split <;> split <;> omega
      have hwindow := planeBase_window hfits h.pos
      have hbound : 2 ^ 17 ≤ loopBound := by
        simp only [loopBound]
        omega
      rcases readCacheLoop_spec hchip loopBound
        (bus.wait (bus.loadPage m (posToRow info.org req.pos)).2).2.2
        (planeBase info req.pos + cacheStart info req) (cacheBytes info req) [] (by omega) with
        ⟨ret, buf, m', hrun, hsame, hbuf, herror⟩
      rw [spinandReadFromCacheOp, cacheOpAdjustColumn_eq hfits h.pos hroom.1, hrun, Option.map_some,
        Option.map_some]
      have hsame' := (hload.trans hwait).trans hsame
      by_cases hread : ret = 0
      · simp only [hread, ne_eq, not_true_eq_false, if_false, Bool.true_eq_false]
        refine ⟨_, _, _, rfl, hsame', Or.inr ⟨by rw [hstatus, pageCode_pos h.pos], ?_⟩⟩
        rw [hbuf hread, List.nil_append, hstatus]
        generalize (bus.wait (bus.loadPage m (posToRow info.org req.pos)).2).2.2 = m₁ at hloaded
        -- both parts, as stretches of the cache
        have hdata : (if ¬req.datalen = 0 then
            (((v.cache m₁).read (planeBase info req.pos + cacheStart info req)
              (cacheBytes info req)).drop req.dataoffs).take req.datalen else []) =
            (v.cache m₁).read (planeBase info req.pos + req.dataoffs) req.datalen := by
          by_cases hd : req.datalen = 0
          · rw [if_neg (not_not.2 hd), hd, ByteMem.read_zero]
          · have hstart : cacheStart info req = 0 := if_pos hd
            have hbytes : info.org.pagesize ≤ cacheBytes info req := by
              rw [cacheBytes, if_pos hd]
              omega
            rw [if_pos hd, drop_take_read _ _ (by omega), hstart, Nat.add_zero]
        have hoob : (if ¬req.ooblen = 0 then
            if mode = OobMode.autoOob then info.layoutGet
              (((v.cache m₁).read (planeBase info req.pos + cacheStart info req)
                (cacheBytes info req)).drop (info.org.pagesize - cacheStart info req))
              req.ooboffs req.ooblen
            else ((((v.cache m₁).read (planeBase info req.pos + cacheStart info req)
              (cacheBytes info req)).drop (info.org.pagesize - cacheStart info req)).drop
                req.ooboffs).take req.ooblen
            else []) =
            (v.cache m₁).read (planeBase info req.pos + (info.org.pagesize + req.ooboffs))
              req.ooblen := by
          by_cases ho : req.ooblen = 0
          · rw [if_neg (not_not.2 ho), ho, ByteMem.read_zero]
          · have hin := hoobpage ho
            have hlast : cacheStart info req + cacheBytes info req =
                info.org.pagesize + info.org.oobsize ∧ cacheStart info req ≤ info.org.pagesize := by
              rw [cacheStart, cacheBytes, if_pos ho, if_pos ho]
              split <;> omega
            rw [if_pos ho, if_neg (h.plain.resolve_right ho), List.drop_drop,
              drop_take_read _ _ (by omega),
              show planeBase info req.pos + cacheStart info req +
                  (info.org.pagesize - cacheStart info req + req.ooboffs) =
                planeBase info req.pos + (info.org.pagesize + req.ooboffs) by omega]
        dsimp only
        rw [hdata, hoob]
        refine ⟨ByteMem.length_read _ _ _, ByteMem.length_read _ _ _, fun hcode => ?_⟩
        -- a stretch of the cache is one of the page
        have hcache : ∀ off n, off + n ≤ cacheWindow info →
            (v.cache m₁).read (planeBase info req.pos + off) n =
              ByteMem.read (chipByte info v m (pageOf info.org req.pos)) off n := by
          intro off n hn
          refine List.map_congr_left fun i hi => ?_
          rw [List.mem_range] at hi
          rw [Nat.add_assoc, hloaded hcode (off + i) (by omega), chipByte_pos h.pos]
        refine ⟨hcache _ _ (by omega), ?_⟩
        by_cases ho : req.ooblen = 0
        · rw [ho, ByteMem.read_zero, ByteMem.read_zero]
        · have hin := hoobpage ho
          exact hcache _ _ (by omega)
      · simp only [ne_eq, hread, not_false_eq_true, if_true]
        exact ⟨_, _, _, rfl, hsame', Or.inl (herror hread)⟩
  · rw [if_pos hret]
    exact ⟨_, _, _, rfl, hload, Or.inl (hchip.load_error _ _ hret)⟩

/-- One page of the request: it has been read, with what the ECC has answered, or the loop is broken off
with an error. -/
theorem spinandReadBody_spec (hfits : info.Fits) (hmode : mode ≠ .autoOob ∨ ooblen = 0) {m₀ : σ}
    {s : SpinandRead σ} (hsel : s.dev.Selected info v) (hgot : ReadGot info v m₀ offs ooboffs d o s)
    (hcodes : ReadCodes info v m₀ offs ooboffs d o s)
    (hpart : IoPart info.org (mtdOobavail info mode oobavail) offs len ooboffs ooblen d o req) :
    ∃ r, spinandReadBody info bus mode true s req = some r ∧
      (r.1 = 0 → r.2.dev.Selected info v ∧
        ReadGot info v m₀ offs ooboffs (d + req.datalen) (o + req.ooblen) r.2 ∧
        ReadCodes info v m₀ offs ooboffs (d + req.datalen) (o + req.ooblen) r.2) ∧
      (r.1 ≠ 0 → BusError r.1 ∧ r.2.ret = r.1 ∧ ReadGot info v m₀ offs ooboffs d o r.2) := by
  have hin := inPage_of_io hmode hpart
  -- as long as the cells are the same, what has come is right
  have hkeep : ∀ (dev' : SpinandDev σ) (ret : Int), v.cells dev'.chip = v.cells s.dev.chip →
      v.ecc dev'.chip = v.ecc s.dev.chip →
      ReadGot info v m₀ offs ooboffs d o { s with dev := dev', ret := ret } := by
    intro dev' ret hcells hecc
    exact { hgot with cells := hcells.trans hgot.cells, ecc := hecc.trans hgot.ecc }
  simp only [spinandReadBody]
  rcases spinandSelectTarget_spec hchip hsel req.pos.target with ⟨hcells, hecc, _, herror⟩
  by_cases hselect : (spinandSelectTarget info bus s.dev req.pos.target).1 = 0
  · rw [if_neg (not_not.2 hselect)]
    rcases selected_spec hchip hsel req.pos.target true hselect with ⟨hcells', hecc', hdie, hsel'⟩
    have herror' : (spinandEccEnable info bus (spinandSelectTarget info bus s.dev req.pos.target).2
        true).1 ≠ 0 → BusError (spinandEccEnable info bus
          (spinandSelectTarget info bus s.dev req.pos.target).2 true).1 :=
      (spinandUpdCfg_spec hchip _ _ _).2.2
    generalize spinandEccEnable info bus (spinandSelectTarget info bus s.dev req.pos.target).2 true =
      enabled at hcells' hecc' hdie hsel' herror' ⊢
    by_cases henable : enabled.1 = 0
    · rw [if_neg (not_not.2 henable)]
      rcases spinandReadPage_spec hchip hfits hin hdie with ⟨ret, out, m', hrun, hsame, hpage⟩
      have hcells₀ : v.cells enabled.2.chip = v.cells m₀ := hcells'.trans hgot.cells
      have hecc₀ : v.ecc enabled.2.chip = v.ecc m₀ := hecc'.trans hgot.ecc
      have hcode₀ : pageCode info v enabled.2.chip = pageCode info v m₀ := by
        funext p
        rw [pageCode, pageCode, hecc₀]
      have hbyte₀ : chipByte info v enabled.2.chip = chipByte info v m₀ := by
        funext p c
        rw [chipByte, chipByte, hcells₀]
      rw [hcode₀, hbyte₀] at hpage
      rw [hrun, Option.map_some]
      by_cases hbad : ret < 0 ∧ ret ≠ -ebadmsg
      · rw [if_pos hbad]
        exact ⟨_, rfl, fun h0 => absurd h0 hbad.1.ne, fun _ => ⟨hbad, rfl,
          hkeep _ _ (hsame.cells.trans hcells') (hsame.ecc.trans hecc')⟩⟩
      · rw [if_neg hbad]
        rcases hpage with hbus | ⟨hret, hlen, hooblen, hbytes⟩
        · exact absurd hbus hbad
        · have hok : 0 ≤ ret ∨ ret = -ebadmsg := by
            by_cases hnonneg : 0 ≤ ret
            · exact Or.inl hnonneg
            · exact Or.inr (not_not.1 fun hne => hbad ⟨not_le.1 hnonneg, hne⟩)
          rw [hret] at hbytes
          by_cases hecc : ret = -ebadmsg
          · rw [if_pos hecc]
            refine ⟨_, rfl, fun _ => ⟨hsel'.same rfl hsame.die, ?_, ?_⟩, fun hne => absurd rfl hne⟩
            · exact hgot.page hmode hpart (hsame.cells.trans hcells₀) (hsame.ecc.trans hecc₀) rfl rfl rfl
                rfl hlen hooblen hbytes
            · refine hcodes.page hmode hpart hret hok ⟨fun _ => Or.inr hecc, fun _ => rfl⟩ ?_ ?_
              · rw [hecc]
                exact (max_eq_left (Nat.zero_le _)).symm
              · rw [hecc]
                rfl
          · rw [if_neg hecc]
            refine ⟨_, rfl, fun _ => ⟨hsel'.same rfl hsame.die, ?_, ?_⟩, fun hne => absurd rfl hne⟩
            · exact hgot.page hmode hpart (hsame.cells.trans hcells₀) (hsame.ecc.trans hecc₀) rfl rfl rfl
                rfl hlen hooblen hbytes
            · refine hcodes.page hmode hpart hret hok ⟨Or.inl, fun h => h.resolve_right hecc⟩ rfl ?_
              exact (max_eq_right (hok.resolve_right hecc)).symm
    · rw [if_pos henable]
      exact ⟨_, rfl, fun h0 => absurd h0 henable, fun hne => ⟨herror' hne, rfl, hkeep _ _ hcells' hecc'⟩⟩
  · rw [if_pos hselect]
    exact ⟨_, rfl, fun h0 => absurd h0 hselect, fun hne => ⟨herror hne, rfl, hkeep _ _ hcells hecc⟩⟩

/-- The loop of `spinand_mtd_read`. -/
theorem spinandMtdRead_run (hfits : info.Fits) {dev : SpinandDev σ} (hdev : dev.Selected info v)
    (hecc : mode ≠ .raw ∧ info.hasLayout = true) (hmode : mode ≠ .autoOob ∨ ooblen = 0)
    (hlen : len < 2 ^ 32) (hooblen : ooblen < 2 ^ 32) (hoob : ooblen = 0 ∨ ooboffs < info.org.oobsize) :
    ∃ s, spinandMtdRead info bus dev oobavail offs mode len ooboffs ooblen =
        some (spinandReadRet s, s) ∧
      ReadGot info v dev.chip offs ooboffs s.retlen s.oobretlen s ∧
      (BusError s.ret ∨ s.retlen = len ∧ s.oobretlen = ooblen ∧
        ReadCodes info v dev.chip offs ooboffs len ooblen s) := by
  have hinit : dev.Selected info v ∧
      ReadGot info v dev.chip offs ooboffs 0 0
        ⟨dev, 0, false, 0, [], [], 0, 0⟩ ∧
      ReadCodes info v dev.chip offs ooboffs 0 0 ⟨dev, 0, false, 0, [], [], 0, 0⟩ := by
    have hnone : ∀ p, ¬ OnPage info offs ooboffs 0 0 p := by
      rintro p (⟨i, hi, _⟩ | ⟨i, hi, _⟩) <;> omega
    refine ⟨hdev, ⟨rfl, rfl, rfl, rfl, rfl, rfl, fun i hi => by omega, fun i hi => by omega⟩, ?_⟩
    refine ⟨fun p hp => absurd hp (hnone p), ⟨fun h => absurd h Bool.false_ne_true, ?_⟩,
      fun p hp => absurd hp (hnone p), Or.inl rfl, fun _ _ => rfl, fun _ h => absurd rfl h⟩
    rintro ⟨p, hp, _⟩
    exact absurd hp (hnone p)
  -- an error of the bus ends the loop; a page that cannot be corrected does not
  have hloop := @forEachPage_rule info.org (mtdOobavail info mode oobavail) offs len ooboffs ooblen _
    (spinandReadBody info bus mode true)
    (fun d o s => s.dev.Selected info v ∧ ReadGot info v dev.chip offs ooboffs d o s ∧
      ReadCodes info v dev.chip offs ooboffs d o s)
    (fun ret s => BusError ret ∧ s.ret = ret ∧
      ReadGot info v dev.chip offs ooboffs s.retlen s.oobretlen s)
    hlen hooblen (oobavail_of_mode hmode hoob)
    (by
      rintro d o s req ⟨hsel, hgot, hcodes⟩ hpart
      rcases spinandReadBody_spec hchip hfits hmode hsel hgot hcodes hpart with ⟨r, hrun, hok, hfail⟩
      refine ⟨r, hrun, hok, fun hne => ?_⟩
      rcases hfail hne with ⟨hbus, hret, hgot'⟩
      rw [hgot'.retlen, hgot'.oobretlen]
      exact ⟨hbus, hret, hgot'⟩)
    ⟨dev, 0, false, 0, [], [], 0, 0⟩ hinit
  rcases hloop with ⟨⟨ret, s⟩, hrun, hok, hfail⟩
  refine ⟨s, ?_, ?_⟩
  · have henable : (decide (mode ≠ .raw) && info.hasLayout) = true := by
      rw [hecc.2, Bool.and_true, decide_eq_true hecc.1]
    rw [spinandMtdRead, henable, hrun, Option.map_some]
  · by_cases h0 : ret = 0
    · rcases hok h0 with ⟨_, hgot, hcodes⟩
      have hretlen : s.retlen = len := hgot.retlen
      have hoobretlen : s.oobretlen = ooblen := hgot.oobretlen
      rw [hretlen, hoobretlen]
      exact ⟨hgot, Or.inr ⟨rfl, rfl, hcodes⟩⟩
    · rcases hfail h0 with ⟨hbus, hret, hgot⟩
      have hret' : s.ret = ret := hret
      exact ⟨hgot, Or.inl (hret' ▸ hbus)⟩

/-- `spinand_mtd_read`: the chip is left as it is, and the bytes that `retlen` and `oobretlen` count are
those of the chip on each page that could be corrected.  Unless an error has broken it off, that is the
whole request. -/
theorem spinandMtdRead_spec (hfits : info.Fits) {dev : SpinandDev σ} (hdev : dev.Selected info v)
    (hecc : mode ≠ .raw ∧ info.hasLayout = true) (hmode : mode ≠ .autoOob ∨ ooblen = 0)
    (hlen : len < 2 ^ 32) (hooblen : ooblen < 2 ^ 32) (hoob : ooblen = 0 ∨ ooboffs < info.org.oobsize) :
    ∃ ret s, spinandMtdRead info bus dev oobavail offs mode len ooboffs ooblen = some (ret, s) ∧
      v.cells s.dev.chip = v.cells dev.chip ∧
      s.datbuf.length = s.retlen ∧ s.oobbuf.length = s.oobretlen ∧
      (∀ i < s.retlen, 0 ≤ pageCode info v dev.chip ((offs + i) / info.org.pagesize) →
        s.datbuf[i]? = some (dataMem info v dev.chip (offs + i))) ∧
      (∀ i < s.oobretlen,
        0 ≤ pageCode info v dev.chip ((oobStart info offs ooboffs + i) / info.org.oobsize) →
        s.oobbuf[i]? = some (oobMem info v dev.chip (oobStart info offs ooboffs + i))) ∧
      (BusError ret ∨ s.retlen = len ∧ s.oobretlen = ooblen ∧
        (ret = 0 → s.datbuf = (dataMem info v dev.chip).read offs len ∧
          s.oobbuf = (oobMem info v dev.chip).read (oobStart info offs ooboffs) ooblen)) := by
  rcases @spinandMtdRead_run _ info bus v mode offs len ooboffs ooblen oobavail hchip hfits dev hdev hecc
    hmode hlen hooblen hoob with ⟨s, hrun, hgot, hend⟩
  refine ⟨_, s, hrun, hgot.cells, hgot.datbuf, hgot.oobbuf, hgot.data, hgot.oob, ?_⟩
  rcases hend with hbus | ⟨hretlen, hoobretlen, hcodes⟩
  · rw [spinandReadRet_error hbus]
    exact Or.inl hbus
  · refine Or.inr ⟨hretlen, hoobretlen, fun hret => ?_⟩
    have hdata := hgot.data
    have hoobdata := hgot.oob
    have hdatlen := hgot.datbuf
    have hooblen' := hgot.oobbuf
    rw [hretlen] at hdata hdatlen
    rw [hoobretlen] at hoobdata hooblen'
    constructor
    · refine List.ext_getElem? fun i => ?_
      by_cases hi : i < len
      · rw [hdata i hi (hcodes.all_corrected hret (Or.inl ⟨i, hi, rfl⟩)),
          List.getElem?_eq_getElem (by rwa [ByteMem.length_read]), ByteMem.getElem_read]
      · rw [List.getElem?_eq_none (by omega),
          List.getElem?_eq_none (by rw [ByteMem.length_read]; omega)]
    · refine List.ext_getElem? fun i => ?_
      by_cases hi : i < ooblen
      · rw [hoobdata i hi (hcodes.all_corrected hret (Or.inr ⟨i, hi, rfl⟩)),
          List.getElem?_eq_getElem (by rwa [ByteMem.length_read]), ByteMem.getElem_read]
      · rw [List.getElem?_eq_none (by omega),
          List.getElem?_eq_none (by rw [ByteMem.length_read]; omega)]

omit hchip in
/-- From the first page, whose data are lost, through the two behind it, with four OOB bytes. -/
theorem spinandMtdRead_three_pages :
    pageCode info64 ramView wornRam 0 = -ebadmsg ∧
      ∃ ret s, spinandMtdRead info64 ramBus wornDev 64 2000 .placeOob 4096 0 4 = some (ret, s) ∧
        (∀ i < s.retlen, 48 ≤ i → i < 4096 →
          s.datbuf[i]? = some (dataMem info64 ramView wornRam (2000 + i))) ∧
        (BusError ret ∨ s.retlen = 4096 ∧ s.oobretlen = 4) := by
  refine ⟨by decide, ?_⟩
  rcases @spinandMtdRead_spec _ info64 ramBus ramView .placeOob 2000 4096 0 4 64 (chip_ramBus (by decide))
    fits_info64 wornDev wornDev_selected ⟨by decide, rfl⟩ (Or.inl (by decide)) (by decide) (by decide)
    (Or.inr (by decide)) with ⟨ret, s, hrun, _, _, _, hdata, _, hend⟩
  have hone : 0 ≤ pageCode info64 ramView wornRam 1 := by decide
  have htwo : 0 ≤ pageCode info64 ramView wornRam 2 := by decide
  refine ⟨ret, s, hrun, fun i hi hbehind hlt => hdata i hi ?_, hend.imp_right fun h => ⟨h.1, h.2.1⟩⟩
  have hpage : (2000 + i) / info64.org.pagesize = 1 ∨ (2000 + i) / info64.org.pagesize = 2 := by
    show (2000 + i) / 2048 = 1 ∨ (2000 + i) / 2048 = 2
    omega
  rcases hpage with hpage | hpage
  · rw [hpage]
    exact hone
  · rw [hpage]
    exact htwo

/-- What a read of data returns, unless an error has broken it off: the answer for the last page, if bit
flips were corrected there; otherwise `-EBADMSG` for a page that could not be corrected, or the largest
number of bit flips. -/
theorem spinandMtdRead_ret (hfits : info.Fits) {dev : SpinandDev σ} (hdev : dev.Selected info v)
    (hecc : mode ≠ .raw ∧ info.hasLayout = true) (hpos : 0 < len) (hlen : len < 2 ^ 32) :
    ∃ ret s, spinandMtdRead info bus dev oobavail offs mode len ooboffs 0 = some (ret, s) ∧
      (BusError ret ∨
        let first := offs / info.org.pagesize
        let last := (offs + len - 1) / info.org.pagesize
        let code := pageCode info v dev.chip
        (0 < code last → ret = code last) ∧
        (code last ≤ 0 → (∃ p, first ≤ p ∧ p ≤ last ∧ code p = -ebadmsg) → ret = -ebadmsg) ∧
        (code last ≤ 0 → (∀ p, first ≤ p → p ≤ last → code p ≠ -ebadmsg) →
          (∀ p, first ≤ p → p ≤ last → code p ≤ ret) ∧
            ∃ p, first ≤ p ∧ p ≤ last ∧ code p = ret)) := by
  rcases @spinandMtdRead_run _ info bus v mode offs len ooboffs 0 oobavail hchip hfits dev hdev hecc
    (Or.inr rfl) hlen (Nat.two_pow_pos 32) (Or.inl rfl) with ⟨s, hrun, hgot, hend⟩
  refine ⟨_, s, hrun, ?_⟩
  rcases hend with hbus | ⟨_, _, hcodes⟩
  · rw [spinandReadRet_error hbus]
    exact Or.inl hbus
  · have hon := fun p => @onPage_data info offs ooboffs len p hpos
    have hlast := hcodes.last rfl (by omega)
    rw [spinandReadRet_eq]
    refine Or.inr ⟨fun hflips => ?_, fun hclean hbad => ?_, fun hclean hgood => ?_⟩
    · rw [if_pos (by omega), hlast, max_eq_right hflips.le]
    · rcases hbad with ⟨p, hfirst, hle, hbad⟩
      rw [if_neg (by omega), if_pos (hcodes.failed.2 ⟨p, (hon p).2 ⟨hfirst, hle⟩, hbad⟩)]
    · have hfailed : ¬ s.eccFailed = true := by
        intro hfailed
        rcases hcodes.failed.1 hfailed with ⟨p, hp, hbad⟩
        exact hgood p ((hon p).1 hp).1 ((hon p).1 hp).2 hbad
      rw [if_neg (by omega), if_neg hfailed]
      refine ⟨fun p hfirst hle => hcodes.flips_le p ((hon p).2 ⟨hfirst, hle⟩), ?_⟩
      rcases hcodes.flips with hzero | ⟨p, hp, heq⟩
      · -- no bit flips: the last page has none
        have hrange := Nat.div_le_div_right (c := info.org.pagesize) (show offs ≤ offs + len - 1 by omega)
        have hnonneg := hcodes.nonneg hfailed ((hon _).2 ⟨hrange, le_rfl⟩)
        exact ⟨_, hrange, le_rfl, by omega⟩
      · exact ⟨p, ((hon p).1 hp).1, ((hon p).1 hp).2, heq⟩

omit hchip in
/-- The first page is lost in both reads, and bit flips are on the last page of the shorter one only. -/
theorem spinandMtdRead_ret_wornDev :
    pageCode info64 ramView wornRam 0 = -ebadmsg ∧
      (∃ ret s, spinandMtdRead info64 ramBus wornDev 64 0 .placeOob 4096 0 0 = some (ret, s) ∧
        (BusError ret ∨ ret = 8)) ∧
      ∃ ret s, spinandMtdRead info64 ramBus wornDev 64 0 .placeOob 6144 0 0 = some (ret, s) ∧
        (BusError ret ∨ ret = -ebadmsg) := by
  have hlost : pageCode info64 ramView wornRam 0 = -ebadmsg := by decide
  refine ⟨hlost, ?_, ?_⟩
  · rcases @spinandMtdRead_ret _ info64 ramBus ramView .placeOob 0 4096 0 64 (chip_ramBus (by decide))
      fits_info64 wornDev wornDev_selected ⟨by decide, rfl⟩ (by decide) (by decide) with
      ⟨ret, s, hrun, hend⟩
    exact ⟨ret, s, hrun, hend.imp_right fun h => (h.1 (by decide)).trans (by decide)⟩
  · rcases @spinandMtdRead_ret _ info64 ramBus ramView .placeOob 0 6144 0 64 (chip_ramBus (by decide))
      fits_info64 wornDev wornDev_selected ⟨by decide, rfl⟩ (by decide) (by decide) with
      ⟨ret, s, hrun, hend⟩
    exact ⟨ret, s, hrun, hend.imp_right fun h =>
      h.2.1 (by decide) ⟨0, by decide, by decide, hlost⟩⟩

/-- An uncorrectable page goes unnoticed exactly when bit flips were corrected on the last page: the driver
leaves `mtd->ecc_strength` zero, and 0 is then all that `mtd_read` says. -/
theorem mtdRead_silent (hfits : info.Fits) {dev : SpinandDev σ} (hdev : dev.Selected info v)
    (hecc : mode ≠ .raw ∧ info.hasLayout = true) (hpos : 0 < len) (hlen : len < 2 ^ 32)
    (bitflipThreshold : Nat) :
    ∃ ret s, spinandMtdRead info bus dev oobavail offs mode len ooboffs 0 = some (ret, s) ∧
      (BusError ret ∨
        (mtdReadRet 0 bitflipThreshold ret = 0 ↔
          (∀ p, offs / info.org.pagesize ≤ p → p ≤ (offs + len - 1) / info.org.pagesize →
            0 ≤ pageCode info v dev.chip p) ∨
          0 < pageCode info v dev.chip ((offs + len - 1) / info.org.pagesize))) := by
  rcases @spinandMtdRead_run _ info bus v mode offs len ooboffs 0 oobavail hchip hfits dev hdev hecc
    (Or.inr rfl) hlen (Nat.two_pow_pos 32) (Or.inl rfl) with ⟨s, hrun, hgot, hend⟩
  refine ⟨_, s, hrun, ?_⟩
  rcases hend with hbus | ⟨_, _, hcodes⟩
  · rw [spinandReadRet_error hbus]
    exact Or.inl hbus
  · have hon := fun p => @onPage_data info offs ooboffs len p hpos
    have hlast := hcodes.last rfl (by omega)
    right
    rw [spinandReadRet_eq, mtdReadRet, if_pos rfl]
    by_cases hflips : 0 < pageCode info v dev.chip ((offs + len - 1) / info.org.pagesize)
    · rw [if_pos (show s.ret ≠ 0 by omega), if_neg (by omega)]
      exact ⟨fun _ => Or.inr hflips, fun _ => rfl⟩
    · rw [if_neg (show ¬ s.ret ≠ 0 by omega)]
      by_cases hfailed : s.eccFailed = true
      · rcases hcodes.failed.1 hfailed with ⟨p, hp, hbad⟩
        rw [if_pos hfailed, if_pos (by decide)]
        refine ⟨fun h => absurd h (by decide), ?_⟩
        rintro (hgood | hpos)
        · have hnonneg := hgood p ((hon p).1 hp).1 ((hon p).1 hp).2
          rw [hbad] at hnonneg
          exact absurd hnonneg (by decide)
        · exact absurd hpos hflips
      · rw [if_neg hfailed, if_neg (by omega)]
        refine ⟨fun _ => Or.inl fun p hfirst hle => hcodes.nonneg hfailed ((hon p).2 ⟨hfirst, hle⟩),
          fun _ => rfl⟩

omit hchip in
theorem mtdRead_silent_wornDev :
    ∃ ret s, spinandMtdRead info64 ramBus wornDev 64 0 .placeOob 4096 0 0 = some (ret, s) ∧
      (BusError ret ∨ mtdReadRet 0 0 ret = 0) := by
  rcases @mtdRead_silent _ info64 ramBus ramView .placeOob 0 4096 0 64 (chip_ramBus (by decide)) fits_info64
    wornDev wornDev_selected ⟨by decide, rfl⟩ (by decide) (by decide) 0 with ⟨ret, s, hrun, hend⟩
  exact ⟨ret, s, hrun, hend.imp_right fun h => h.2 (Or.inr (by decide))⟩

end Read

end Burn
end CanmvK230
