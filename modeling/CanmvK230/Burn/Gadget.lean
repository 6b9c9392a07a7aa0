import CanmvK230.Lib.Run
import CanmvK230.Burn.Burner

/-!
# Gadget — the USB burning gadget (`f_kburn.c`)

The gadget owns one OUT request and one IN request.  The host sends 64-byte command packets; after
an accepted `WRITE_LBA` the same OUT request carries the data, until the announced size has arrived.
Which of the two is going on is recorded only in the completion handler of the OUT request.

The model follows the C functions one by one.  What C leaves to the outside is an explicit input:

* the state `μ` of the storage hardware, reached through the burner's operations (`Burner`);
* for each completion of the OUT request a `Completion`: the status and the bytes received, what an
  uninitialised reply buffer on the stack holds, and what `memalign` would return.

A handler either returns, with the gadget and the OUT request after it, or ends in a `Fault`.
-/

namespace CanmvK230
namespace Burn

open Lib

/-! ## Packets -/

inductive KburnPktCmd
  | none
  | devProbe
  | devGetInfo
  | writeLba
  | eraseLba
  | max
  deriving DecidableEq, Repr

def KburnPktCmd.code : KburnPktCmd → UInt16
  | .none => 0
  | .devProbe => 0x10
  | .devGetInfo => 0x11
  | .writeLba => 0x20
  | .eraseLba => 0x21
  | .max => 0x22

inductive KburnPktResult
  | none
  | ok
  | error
  | errorMsg
  deriving DecidableEq, Repr

def KburnPktResult.code : KburnPktResult → UInt16
  | .none => 0
  | .ok => 1
  | .error => 2
  | .errorMsg => 0xFF

/-- `KBUNR_USB_PKT_SIZE`. -/
def usbPktSize : Nat := 64

/-- The fields of `struct kburn_usb_pkt` that a command uses; `data` starts at byte 5, but
`sizeof` is 6 because the record is padded to its 16-bit alignment. -/
structure KburnUsbPkt where
  cmd : UInt16
  dataSize : UInt8
  data : ByteMem

def KburnUsbPkt.sizeof : Nat := 6

def KburnUsbPkt.ofBuf (buf : ByteMem) : KburnUsbPkt :=
  { cmd := UInt16.ofNat (leNat (buf.read 0 2))
    dataSize := buf 4
    data := buf.shift 5 }

def getUnalignedLe64 (p : ByteMem) (i : Nat) : UInt64 :=
  UInt64.ofNat (leNat (p.read i 8))

/-! ## State -/

inductive RxHandler
  | rxCommandHandler
  | rxWriteLbaHandler
  deriving DecidableEq, Repr

/-- The OUT request.  `queued` counts the calls of `usb_ep_queue` that no completion has answered. -/
structure UsbRequest where
  buf : ByteMem
  length : UInt32
  actual : UInt32
  complete : RxHandler
  queued : Nat

/-- A call of `kburn_write_medium` or `kburn_erase_medium`, for the record. -/
inductive MediumCall
  | write (offset len : UInt64)
  | erase (offset len : UInt64)
  deriving DecidableEq, Repr

/-- `struct kburn_usb_t` together with the hardware behind it.  `bufMem` is the memory that `buf`
and `bufHead` point into (0 is NULL); `replies` are the packets queued on the IN endpoint so far and
`calls` the calls made to the medium, oldest first. -/
structure KburnUsb (μ : Type) where
  medium : μ
  burner : Option (Kburn μ)
  offset : UInt64
  dlSize : UInt64
  dlBytes : UInt64
  bufHead : Nat
  buf : Nat
  bufMem : ByteMem
  outReq : Option UsbRequest
  replies : List (List UInt8)
  calls : List MediumCall

/-- What one completion of the OUT request brings from outside. -/
structure Completion where
  status : Int
  data : List UInt8
  stack : ByteMem
  heap : Nat

inductive Fault
  | nullKburnUsb -- the NULL that `get_kburn_usb` returned was dereferenced
  | nullBurner -- `kburn_usb->burner` was NULL and was dereferenced
  | noReturn -- an operation of the medium does not return
  | noRequest -- a completion without a queued request
  deriving DecidableEq, Repr

section Handlers

variable {μ : Type} (board : Board μ) (c : Completion)

/-! ## Replies -/

def kburnTxWrite (buffer : List UInt8) (s : KburnUsb μ) : KburnUsb μ :=
  { s with replies := s.replies ++ [buffer] }

/-- The reply packet: the bytes behind the data are whatever the stack held. -/
def csw (cmd result : UInt16) (data : List UInt8) : List UInt8 :=
  let head := toLe 2 (0x8000 ||| cmd).toNat ++ toLe 2 result.toNat ++ [UInt8.ofNat data.length]
  (c.stack.write 0 (head ++ data)).read 0 usbPktSize

def kburnTxResult (cmd : KburnPktCmd) (result : KburnPktResult) (data : List UInt8)
    (s : KburnUsb μ) : KburnUsb μ :=
  if usbPktSize - KburnUsbPkt.sizeof < data.length then
    s -- "tx too many data"
  else
    kburnTxWrite (csw c cmd.code result.code data) s

def kburnTxStringResult (cmd : KburnPktCmd) (result : KburnPktResult) (msg : String) :
    KburnUsb μ → KburnUsb μ :=
  kburnTxResult c cmd result (ascii msg)

def kburnTxErrorString (msg : String) : KburnUsb μ → KburnUsb μ :=
  kburnTxResult c .none .errorMsg (ascii msg)

/-! ## Commands -/

/-- `get_kburn_usb`: the double buffer is allocated again after a `kburn_disable`; `none` is NULL. -/
def getKburnUsb (s : KburnUsb μ) : Option (KburnUsb μ) :=
  if s.bufHead = 0 then
    if c.heap = 0 then
      none
    else
      some
        { s with
          bufHead := c.heap
          buf := c.heap
          bufMem := s.bufMem.fill c.heap usbBufferSize 0 }
  else
    some s

def usbEpQueue (req : UsbRequest) : UsbRequest :=
  { req with queued := req.queued + 1 }

abbrev Callback (μ : Type) := KburnUsb μ → UsbRequest → Except Fault (KburnUsb μ × UsbRequest)

def cbProbeDevice : Callback μ := fun s req =>
  let kburnUsb := getKburnUsb c s
  let s := kburnUsb.getD s
  let cbw := KburnUsbPkt.ofBuf req.buf
  if cbw.dataSize ≠ 2 then
    .ok (kburnTxStringResult c .devProbe .errorMsg "ERROR DATA SIZE" s, req)
  else
    match kburnUsb with
    | none => .error .nullKburnUsb
    | some s =>
        -- the burner of an earlier probe is destroyed before the new one is known to exist
        let probed := kburnProbeMedia board (cbw.data 0) (kburnDestory s.burner s.medium)
        let s := { s with burner := probed.1, medium := probed.2 }
        match s.burner with
        | some _ => .ok (kburnTxResult c .devProbe .ok (toLe 8 usbEpBufferSize) s, req)
        | none => .ok (kburnTxStringResult c .devProbe .errorMsg "PROBE FAILED" s, req)

def cbGetDeviceInfo : Callback μ := fun s req =>
  match getKburnUsb c s with
  | none => .error .nullKburnUsb
  | some s =>
      match s.burner with
      | some burner =>
          let info := kburnGetMediumInfo burner
          let s := { s with burner := some info.2 }
          let result := if info.1 = 0 then KburnPktResult.ok else KburnPktResult.error
          .ok (kburnTxResult c .devGetInfo result info.2.mediumInfo.bytes s, req)
      | none => .ok (kburnTxStringResult c .devGetInfo .errorMsg "RUNTIME ERROR" s, req)

def rxBytesExpected (s : KburnUsb μ) : UInt32 :=
  let rxRemain := s.dlSize - s.dlBytes
  let maxpacket := board.maxpacket.toUInt64
  if rxRemain = 0 then
    0
  else if rxRemain > 131072 then
    131072
  else
    let rem := rxRemain % maxpacket
    if rem > 0 then
      (rxRemain + (maxpacket - rem)).toUInt32
    else
      rxRemain.toUInt32

-- The last lines of `cb_write_lba`: the transfer is set up and the host told to send.
def startDl (offset size : UInt64) (s : KburnUsb μ) : KburnUsb μ :=
  kburnTxStringResult c .writeLba .ok "START DL"
    { s with offset := offset, dlSize := size, dlBytes := 0 }

def cbWriteLba : Callback μ := fun s req =>
  let kburnUsb := getKburnUsb c s
  let s := kburnUsb.getD s
  let cbw := KburnUsbPkt.ofBuf req.buf
  if cbw.dataSize ≠ 16 then
    .ok (kburnTxStringResult c .writeLba .errorMsg "ERROR DATA SIZE" s, req)
  else
    let offset := getUnalignedLe64 cbw.data 0
    let size := getUnalignedLe64 cbw.data 8
    match kburnUsb with
    | none => .error .nullKburnUsb
    | some s =>
        -- `kburn_usb->burner->medium_info.valid` is read with no test of the pointer
        match s.burner with
        | none => .error .nullBurner
        | some burner =>
            if burner.mediumInfo.valid ≠ 1 then
              .ok (kburnTxStringResult c .writeLba .errorMsg "MEDIUM INFO INVALID" s, req)
            else if size = 0 then
              .ok (kburnTxStringResult c .writeLba .errorMsg "DATA SIZE INVALID" s, req)
            else if offset + size > burner.mediumInfo.capacity then
              .ok (kburnTxStringResult c .writeLba .errorMsg "DATA SIZE EXCEED" s, req)
            else
              let s := startDl c offset size s
              .ok (s, { req with complete := .rxWriteLbaHandler, length := rxBytesExpected board s })

def cbEraseLba : Callback μ := fun s req =>
  let kburnUsb := getKburnUsb c s
  let s := kburnUsb.getD s
  let cbw := KburnUsbPkt.ofBuf req.buf
  if cbw.dataSize ≠ 16 then
    .ok (kburnTxStringResult c .eraseLba .errorMsg "ERROR DATA SIZE" s, req)
  else
    let offset := getUnalignedLe64 cbw.data 0
    let size := getUnalignedLe64 cbw.data 8
    match kburnUsb with
    | none => .error .nullKburnUsb
    | some s =>
        match s.burner with
        | none => .ok (kburnTxStringResult c .eraseLba .errorMsg "RUNTIME ERROR" s, req)
        | some _ =>
            if size = 0 then
              -- nothing is erased and `result` keeps its initial -1
              .ok (kburnTxResult c .eraseLba .error (toLe 8 offset.toNat ++ toLe 8 size.toNat) s, req)
            else
              match kburnEraseMedium s.burner s.medium offset size with
              | none => .error .noReturn
              | some (result, size', m) =>
                  let s := { s with medium := m, calls := s.calls ++ [.erase offset size] }
                  let code := if result = 0 then KburnPktResult.ok else KburnPktResult.error
                  .ok (kburnTxResult c .eraseLba code (toLe 8 offset.toNat ++ toLe 8 size'.toNat) s, req)

def cbNotSupport : Callback μ := fun s req =>
  .ok (kburnTxErrorString c "NOT SUPPORT FUNC" s, req)

def pktHandlers : List (KburnPktCmd × Callback μ) :=
  [ (.none, cbNotSupport c)
  , (.max, cbNotSupport c)
  , (.devProbe, cbProbeDevice board c)
  , (.devGetInfo, cbGetDeviceInfo c)
  , (.writeLba, cbWriteLba board c)
  , (.eraseLba, cbEraseLba c) ]

/-! ## The two completion handlers of the OUT request -/

def rxCommandHandler : Callback μ := fun s req =>
  if c.status ≠ 0 ∨ req.length = 0 then
    .ok (s, req)
  else
    let cbw := KburnUsbPkt.ofBuf req.buf
    let handled : Except Fault (KburnUsb μ × UsbRequest) :=
      match (pktHandlers board c).find? (fun h => h.1.code == cbw.cmd) with
      | none => .ok (kburnTxErrorString c "FAILunknown command" s, req)
      | some (_, funcCb) =>
          if req.actual < req.length then
            -- the packet is terminated before the callback reads it again
            funcCb s { req with buf := req.buf.write req.actual.toNat [0] }
          else
            .ok (kburnTxErrorString c "FAILbuffer overflow" s, req)
    match handled with
    | .error f => .error f
    | .ok (s, req) => .ok (s, usbEpQueue { req with buf := req.buf.write 0 [0], actual := 0 })

/-- How much of the received data `rx_write_lba_handler` takes: what is still missing, computed in
64 bits and kept in an `unsigned int`, or less if less has arrived. -/
def transferSize (s : KburnUsb μ) (actual : UInt32) : UInt32 :=
  let remain := (s.dlSize - s.dlBytes).toUInt32
  if actual < remain then actual else remain

def rxWriteLbaHandler : Callback μ := fun s req =>
  match getKburnUsb c s with
  | none => .error .nullKburnUsb
  | some s =>
      if c.status ≠ 0 then
        .ok (kburnTxStringResult c .writeLba .errorMsg "ERROR STATUS" s, req)
      else
        let transfer := transferSize s req.actual
        let s :=
          { s with
            bufMem := s.bufMem.write s.buf (req.buf.read 0 transfer.toNat)
            dlBytes := s.dlBytes + transfer.toUInt64 }
        match kburnWriteMedium s.burner s.medium s.offset (s.bufMem.shift s.buf)
            transfer.toUInt64 with
        | none => .error .noReturn
        | some (result, xferSize, m) =>
            let s :=
              { s with medium := m, calls := s.calls ++ [.write s.offset transfer.toUInt64] }
            if result ≠ 0 ∨ xferSize ≠ transfer.toUInt64 then
              -- the handler returns here: the request is neither queued nor given back to commands
              .ok (kburnTxStringResult c .writeLba .errorMsg "WRITE ERROR" s, req)
            else
              let s := { s with offset := s.offset + transfer.toUInt64 }
              if s.dlBytes ≥ s.dlSize then
                let s := { s with buf := s.bufHead, dlSize := 0 }
                .ok
                  (kburnTxStringResult c .writeLba .ok "WRITE DONE" s,
                    usbEpQueue
                      { req with complete := .rxCommandHandler, length := 131072, actual := 0 })
              else
                let other := if s.buf = s.bufHead then s.bufHead + usbEpBufferSize else s.bufHead
                .ok
                  ({ s with buf := other },
                    usbEpQueue { req with length := rxBytesExpected board s, actual := 0 })

/-- The OUT request as its completion handler finds it: the controller has stored the bytes. -/
def arrived (req : UsbRequest) : UsbRequest :=
  { req with
    buf := req.buf.write 0 c.data
    actual := UInt32.ofNat c.data.length
    queued := req.queued - 1 }

def outComplete (s : KburnUsb μ) : Except Fault (KburnUsb μ) :=
  match s.outReq with
  | none => .error .noRequest
  | some req =>
      let handled :=
        match req.complete with
        | .rxCommandHandler => rxCommandHandler board c s (arrived c req)
        | .rxWriteLbaHandler => rxWriteLbaHandler board c s (arrived c req)
      match handled with
      | .error f => .error f
      | .ok (s, req) => .ok { s with outReq := some req }

end Handlers

/-! ## Configuration -/

section Configuration

variable {μ : Type}

/-- What the calls of `kburn_set_alt` return: enabling the two endpoints, allocating the two
requests, queueing the OUT request. -/
structure SetAlt where
  enableOut : Int
  startOut : Bool
  enableIn : Int
  startIn : Bool
  queueOut : Int

def kburnDisable (s : KburnUsb μ) : KburnUsb μ :=
  { s with
    outReq := none
    bufHead := 0
    buf := 0
    medium := kburnDestory s.burner s.medium
    burner := none }

/-- The request that `kburn_start_ep` allocates. -/
def kburnStartEp : UsbRequest :=
  { buf := fun _ => 0
    length := 131072
    actual := 0
    complete := .rxCommandHandler
    queued := 0 }

def kburnSetAlt (a : SetAlt) (s : KburnUsb μ) : KburnUsb μ :=
  if a.enableOut ≠ 0 then
    s
  else if a.startOut = false ∨ a.enableIn ≠ 0 ∨ a.startIn = false ∨ a.queueOut ≠ 0 then
    kburnDisable s
  else
    { s with outReq := some (usbEpQueue kburnStartEp) }

/-- The gadget after `kburn_add`: everything zero but the double buffer at `bufHead`. -/
def kburnAdd (m : μ) (bufHead : Nat) : KburnUsb μ :=
  { medium := m
    burner := none
    offset := 0
    dlSize := 0
    dlBytes := 0
    bufHead := bufHead
    buf := bufHead
    bufMem := fun _ => 0
    outReq := none
    replies := []
    calls := [] }

inductive Event
  | setAlt (a : SetAlt)
  | disable
  | outComplete (c : Completion)

/-- The OUT request may complete with `c`: it is queued, and no more bytes than asked for arrive. -/
def MayComplete (s : KburnUsb μ) (c : Completion) (req : UsbRequest) : Prop :=
  s.outReq = some req ∧ 0 < req.queued ∧ c.data.length ≤ req.length.toNat

def GadgetStep (board : Board μ) (s : KburnUsb μ) (e : Event) (t : KburnUsb μ) : Prop :=
  match e with
  | .setAlt a => t = kburnSetAlt a s
  | .disable => t = kburnDisable s
  | .outComplete c =>
      ∃ req, MayComplete s c req ∧ outComplete board c s = .ok t

def Reachable (board : Board μ) (s : KburnUsb μ) : Prop :=
  ∃ m bufHead es, bufHead ≠ 0 ∧ Run (GadgetStep board) (kburnAdd m bufHead) es s

end Configuration

end Burn
end CanmvK230
