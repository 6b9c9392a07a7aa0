import CanmvK230.Lib.Extent
import CanmvK230.Lib.Bytes

/-!
# Setup — the vendor request of the gadget (`kburn_handle_setup`)

A host that asks for it gets the text `Uboot Stage for K230` over endpoint 0.  The text is copied into the
control request of the composite device by `strncpy` with the length that the host has given, and the
reply is as long as the text.

`strncpy` is the one of `lib/string.c`, which stops behind the NUL and pads nothing, so what is stored
never exceeds the text (`strncpy_eq`).  The length of the reply is not limited by that of the request, as
it is everywhere in `composite_setup`: a host that asks for less than the text is answered with all of
its length, the end from what the buffer held before (`reply_eq`).
-/

namespace CanmvK230
namespace Burn

open Lib

/-! ## `lib/string.c` -/

/-- `strncpy` from the string at `src`, into the memory that `dest` points into. -/
def strncpy : Nat → ByteMem → Nat → ByteMem → ByteMem
  | 0, m, _, _ => m
  | count + 1, m, dest, src =>
      if src 0 = 0 then
        m.write dest [src 0]
      else
        strncpy count (m.write dest [src 0]) (dest + 1) (src.shift 1)

/-- The memory at a string literal. -/
def literal (s : String) : ByteMem := fun i => (ascii s).getD i 0

/-- `strlen` of a string literal. -/
def strlen (s : String) : Nat := (ascii s).length

/-! ## `f_kburn.c` -/

/-- `USB_BUFSIZ` of `composite.c`, the bytes behind `req->buf`. -/
def usbBufsiz : Nat := 4096

def usbTypeMask : UInt8 := (0x03 : UInt8) <<< 5
def usbTypeVendor : UInt8 := (0x02 : UInt8) <<< 5

/-- `struct usb_ctrlrequest`, without `bRequest`, which the gadget does not look at. -/
structure UsbCtrlrequest where
  bRequestType : UInt8
  wValue : UInt16
  wIndex : UInt16
  wLength : UInt16
  deriving DecidableEq, Repr

/-- `cdev->req`, the request of endpoint 0. -/
structure ControlRequest where
  buf : Nat
  length : UInt32
  zero : Bool
  status : Int
  deriving DecidableEq, Repr

/-- The end of a call: what it returns, the request and the memory, and the bytes that the request had
when it was given to `usb_ep_queue`. -/
structure SetupRun where
  value : Int
  req : ControlRequest
  mem : ByteMem
  reply : Option (List UInt8)

def mark : String := "Uboot Stage for K230"

def kburnHandleSetup (usbEpQueue : ControlRequest → Int) (ctrl : UsbCtrlrequest)
    (req : ControlRequest) (m : ByteMem) : SetupRun :=
  let reqType := ctrl.bRequestType &&& usbTypeMask
  let stored : Int × ByteMem :=
    if usbTypeVendor = reqType &&& usbTypeVendor then
      if ctrl.wIndex = 0 ∧ ctrl.wValue = 0 then
        (strlen mark, strncpy ctrl.wLength.toNat m req.buf (literal mark))
      else
        (0, m)
    else
      (0, m)
  if stored.1 ≥ 0 then
    let req :=
      { req with
        length := UInt32.ofInt stored.1
        zero := decide (stored.1 < ctrl.wLength.toNat) }
    let value := usbEpQueue req
    { value := value
      req := if value < 0 then { req with status := 0 } else req
      mem := stored.2
      reply := some (stored.2.read req.buf req.length.toNat) }
  else
    { value := stored.1, req := req, mem := stored.2, reply := none }

/-! ## What is stored -/

/-- A string is copied with its NUL, as far as the count goes. -/
theorem strncpy_eq (count : Nat) :
    ∀ (m : ByteMem) (dest : Nat) (src : ByteMem) (bs : List UInt8),
      (∀ b ∈ bs, b ≠ 0) → (∀ i, src i = bs.getD i 0) →
      strncpy count m dest src = m.write dest ((bs ++ [0]).take count) := by
  induction count with
  | zero =>
      intro m dest src bs _ _
      simp [strncpy]
  | succ count ih =>
      intro m dest src bs hbs hsrc
      cases bs with
      | nil =>
          have hnul : src 0 = 0 := hsrc 0
          simp [strncpy, hnul]
      | cons b bs =>
          have hfirst : src 0 = b := hsrc 0
          have hb : b ≠ 0 := hbs b List.mem_cons_self
          have hrest := ih (m.write dest [b]) (dest + 1) (src.shift 1) bs
            (fun b' hb' => hbs b' (List.mem_cons_of_mem b hb')) (fun i => by
              rw [ByteMem.shift, Nat.add_comm]
              exact hsrc (i + 1))
          calc
            strncpy (count + 1) m dest src
                = strncpy count (m.write dest [b]) (dest + 1) (src.shift 1) := by
                  simp [strncpy, hfirst, hb]
            _ = (m.write dest [b]).write (dest + 1) ((bs ++ [0]).take count) := hrest
            _ = m.write dest ([b] ++ (bs ++ [0]).take count) := (m.write_append dest [b] _).symm
            _ = _ := by rw [List.singleton_append, List.cons_append, List.take_succ_cons]

theorem mark_ne_zero : ∀ b ∈ ascii mark, b ≠ 0 := by decide +kernel

@[simp] theorem strlen_mark : strlen mark = 20 := by decide

theorem strncpy_mark (count : Nat) (m : ByteMem) (dest : Nat) :
    strncpy count m dest (literal mark) = m.write dest ((ascii mark ++ [0]).take count) :=
  strncpy_eq count m dest (literal mark) (ascii mark) mark_ne_zero fun _ => rfl

/-! ## What is answered -/

/-- The request that is answered with the text: any of the vendor or reserved type with a zero index and
value. -/
def AsksForMark (ctrl : UsbCtrlrequest) : Prop :=
  ctrl.bRequestType &&& usbTypeVendor = usbTypeVendor ∧ ctrl.wIndex = 0 ∧ ctrl.wValue = 0

/-- The stores stay inside the buffer, whatever it holds, and the reply is not longer than what was
asked for. -/
structure Bounded (usbEpQueue : ControlRequest → Int) (ctrl : UsbCtrlrequest) (req : ControlRequest) :
    Prop where
  stores : ∀ m a, a ∉ extent req.buf usbBufsiz → (kburnHandleSetup usbEpQueue ctrl req m).mem a = m a
  reply : ∀ m reply, (kburnHandleSetup usbEpQueue ctrl req m).reply = some reply →
    reply.length ≤ ctrl.wLength.toNat

variable {usbEpQueue : ControlRequest → Int} {ctrl : UsbCtrlrequest} {req : ControlRequest}

theorem vendor_iff :
    usbTypeVendor = ctrl.bRequestType &&& usbTypeMask &&& usbTypeVendor ↔
      ctrl.bRequestType &&& usbTypeVendor = usbTypeVendor := by
  have hmask : usbTypeMask &&& usbTypeVendor = usbTypeVendor := by decide
  rw [UInt8.and_assoc, hmask]
  exact eq_comm

/-- The two things the gadget does with a request. -/
theorem setup_cases (usbEpQueue : ControlRequest → Int) (ctrl : UsbCtrlrequest)
    (req : ControlRequest) (m : ByteMem) :
    (AsksForMark ctrl ∧
        (kburnHandleSetup usbEpQueue ctrl req m).mem =
          m.write req.buf ((ascii mark ++ [0]).take ctrl.wLength.toNat) ∧
        (kburnHandleSetup usbEpQueue ctrl req m).reply =
          some ((m.write req.buf ((ascii mark ++ [0]).take ctrl.wLength.toNat)).read req.buf 20)) ∨
      (¬ AsksForMark ctrl ∧ (kburnHandleSetup usbEpQueue ctrl req m).mem = m ∧
        (kburnHandleSetup usbEpQueue ctrl req m).reply = some []) := by
  by_cases hmark : AsksForMark ctrl
  · left
    rcases hmark with ⟨hvendor, hzero⟩
    have hstored : (if usbTypeVendor = ctrl.bRequestType &&& usbTypeMask &&& usbTypeVendor then
        if ctrl.wIndex = 0 ∧ ctrl.wValue = 0 then
          ((strlen mark : Int), strncpy ctrl.wLength.toNat m req.buf (literal mark))
        else (0, m)
      else (0, m)) = (20, m.write req.buf ((ascii mark ++ [0]).take ctrl.wLength.toNat)) := by
      rw [if_pos (vendor_iff.2 hvendor), if_pos hzero, strncpy_mark, strlen_mark]
      rfl
    refine ⟨⟨hvendor, hzero⟩, ?_, ?_⟩
    · simp only [kburnHandleSetup, hstored]
      rfl
    · simp only [kburnHandleSetup, hstored]
      rfl
  · right
    have hstored : (if usbTypeVendor = ctrl.bRequestType &&& usbTypeMask &&& usbTypeVendor then
        if ctrl.wIndex = 0 ∧ ctrl.wValue = 0 then
          ((strlen mark : Int), strncpy ctrl.wLength.toNat m req.buf (literal mark))
        else (0, m)
      else (0, m)) = (0, m) := by
      by_cases hvendor : usbTypeVendor = ctrl.bRequestType &&& usbTypeMask &&& usbTypeVendor
      · rw [if_pos hvendor, if_neg fun hzero => hmark ⟨vendor_iff.1 hvendor, hzero⟩]
      · rw [if_neg hvendor]
    refine ⟨hmark, ?_, ?_⟩
    · simp only [kburnHandleSetup, hstored]
      rfl
    · simp only [kburnHandleSetup, hstored]
      rfl

/-- The stores stay inside the buffer, whatever the host has given as the length. -/
theorem stores_inside (usbEpQueue : ControlRequest → Int) (ctrl : UsbCtrlrequest)
    (req : ControlRequest) (m : ByteMem) {a : Nat} (ha : a ∉ extent req.buf usbBufsiz) :
    (kburnHandleSetup usbEpQueue ctrl req m).mem a = m a := by
  rcases setup_cases usbEpQueue ctrl req m with ⟨_, hmem, _⟩ | ⟨_, hmem, _⟩
  · rw [hmem]
    refine m.write_frame ?_
    have hlen : ((ascii mark ++ [0]).take ctrl.wLength.toNat).length ≤ 21 :=
      List.length_take_le' _ _
    have hsize : usbBufsiz = 4096 := rfl
    rw [mem_extent] at ha
    omega
  · rw [hmem]

/-- A reply that is longer than what was asked for ends in what the buffer held before. -/
theorem reply_eq (usbEpQueue : ControlRequest → Int) (req : ControlRequest) (m : ByteMem)
    (hmark : AsksForMark ctrl) (hshort : ctrl.wLength.toNat ≤ 20) :
    (kburnHandleSetup usbEpQueue ctrl req m).reply =
      some ((ascii mark).take ctrl.wLength.toNat ++
        m.read (req.buf + ctrl.wLength.toNat) (20 - ctrl.wLength.toNat)) := by
  rcases setup_cases usbEpQueue ctrl req m with ⟨_, _, hreply⟩ | ⟨hno, _, _⟩
  · have hlen : ((ascii mark).take ctrl.wLength.toNat).length = ctrl.wLength.toNat :=
      List.length_take_of_le hshort
    rw [hreply, List.take_append_of_le_length hshort]
    congr 1
    calc
      _ = (m.write req.buf ((ascii mark).take ctrl.wLength.toNat)).read req.buf
            (ctrl.wLength.toNat + (20 - ctrl.wLength.toNat)) := by rw [Nat.add_sub_cancel' hshort]
      _ = _ := by
          rw [ByteMem.read_add, ByteMem.read_write_of_length _ hlen,
            ByteMem.read_write_disjoint _ (by omega)]
  · exact absurd hmark hno

/-- A request is bounded exactly when it does not ask for less than the text. -/
theorem bounded_iff (usbEpQueue : ControlRequest → Int) (ctrl : UsbCtrlrequest)
    (req : ControlRequest) :
    Bounded usbEpQueue ctrl req ↔ (AsksForMark ctrl → strlen mark ≤ ctrl.wLength.toNat) := by
  rw [strlen_mark]
  constructor
  · intro h hmark
    rcases setup_cases usbEpQueue ctrl req (fun _ => 0) with ⟨_, _, hreply⟩ | ⟨hno, _, _⟩
    · have hlen := h.reply _ _ hreply
      rwa [ByteMem.length_read] at hlen
    · exact absurd hmark hno
  · intro h
    refine ⟨fun m a ha => stores_inside usbEpQueue ctrl req m ha, ?_⟩
    intro m reply hreply
    rcases setup_cases usbEpQueue ctrl req m with ⟨hmark, _, hreply'⟩ | ⟨_, _, hreply'⟩
    · rw [hreply'] at hreply
      cases hreply
      rw [ByteMem.length_read]
      exact h hmark
    · rw [hreply'] at hreply
      cases hreply
      exact Nat.zero_le _

/-- The eight bytes that a host asks for come as twenty, the last twelve from what the buffer held. -/
theorem short_request_overrun :
    ¬ Bounded (fun _ => 0) ⟨0xc0, 0, 0, 8⟩ ⟨0x1000, 4096, false, 0⟩ ∧
      (kburnHandleSetup (fun _ => 0) ⟨0xc0, 0, 0, 8⟩ ⟨0x1000, 4096, false, 0⟩ fun _ => 0x5a).reply =
        some (ascii "Uboot St" ++ List.replicate 12 0x5a) := by
  have hmark : AsksForMark ⟨0xc0, 0, 0, 8⟩ := ⟨by decide, by decide, by decide⟩
  have hreply := reply_eq (fun _ => 0) ⟨0x1000, 4096, false, 0⟩ (fun _ => 0x5a) hmark (by decide)
  refine ⟨?_, ?_⟩
  · intro h
    have hlen := h.reply _ _ hreply
    exact absurd hlen (by decide)
  · rw [hreply]
    decide

end Burn
end CanmvK230
