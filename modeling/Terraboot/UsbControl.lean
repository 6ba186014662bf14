import Terraboot.NorFlash
import Terraboot.UsbReceive

/-!
# Control Messages of the USB Device

Endpoint 0 of `generic/usb_cdc.c`. The hardware may be busy at any call; a transfer is then
suspended, its place kept in `usb_xfer_data`, `usb_xfer_size` and `usb_xfer_flags`, and
`usb_ep0_task` goes on with it when it runs next. What the hardware answers in one run of the task
is a list; behind its end the hardware is busy.

The log records what the hardware was given and gave, in order. `usb_notify_bulk_in` and
`usb_notify_bulk_out`, which wake other tasks, are left out.

## Main results

* `Ep0.step_setup`: a request is handled when no transfer is going on.
* `Ep0.step_resume`: otherwise the task goes on with the transfer.
-/

open NorFlash

namespace Terraboot

def usbCdcEp0Size : ℕ := 16

/-- The answer of the hardware to a call: a packet goes through (when reading, the one that the
host sent), or the interface is busy, or there is an error. -/
inductive Ep0Reply
  | packet (bytes : List Byte)
  | busy
  | error (code : ℕ)
  deriving DecidableEq

/-- What happened on the endpoint. -/
inductive Ep0Event
  | sent (packet : List Byte)
  | received (packet : List Byte)
  | failed (code : ℕ)
  | stall
  | setAddress (addr : BitVec 16)
  | setConfigure
  deriving DecidableEq

/-- The static variables of the control endpoint, the memory that they point into, and the log. -/
structure Ep0 where
  mem : Mem
  wake : Bool
  xferData : ℕ
  xferSize : Byte
  xferFlags : Byte
  lineControlState : Byte
  log : List Ep0Event

/-- `UX_READ`, `UX_SEND` and `UX_SEND_ZLP`. Without `NEED_PROGMEM` the flag `UX_SEND_PROGMEM` is never
set. -/
def uxRead : Byte := 0x01
def uxSend : Byte := 0x02
def uxSendZlp : Byte := 0x08

/-! ### The hardware -/

/-- `usb_read_ep0`: a packet that is longer than the buffer is cut. -/
def usbReadEp0 (s : Ep0) (data maxLen : ℕ) : Ep0Reply → ℤ × Ep0
  | .packet bytes =>
      let bytes := bytes.take maxLen
      (bytes.length, { s with mem := write s.mem data bytes, log := s.log ++ [.received bytes] })
  | .busy => (-1, s)
  | .error code => (-2 - code, { s with log := s.log ++ [.failed code] })

/-- `usb_send_ep0` -/
def usbSendEp0 (s : Ep0) (data len : ℕ) : Ep0Reply → ℤ × Ep0
  | .packet _ => (len, { s with log := s.log ++ [.sent (read s.mem data len)] })
  | .busy => (-1, s)
  | .error code => (-2 - code, { s with log := s.log ++ [.failed code] })

/-! ### Transfers -/

/-- `usb_do_stall` -/
def usbDoStall (s : Ep0) : Ep0 := { s with xferFlags := 0, log := s.log ++ [.stall] }

/-- The place of a transfer is kept. -/
def Ep0.suspend (s : Ep0) (data size : ℕ) (flags : Byte) : Ep0 :=
  { s with xferData := data, xferSize := BitVec.ofNat 8 size, xferFlags := flags }

/-- `usb_do_xfer` -/
def usbDoXfer (s : Ep0) (data size : ℕ) (flags : Byte) : List Ep0Reply → Ep0
  | [] => s.suspend data size flags
  | reply :: replies =>
      let xs := if usbCdcEp0Size < size then usbCdcEp0Size else size
      let r :=
        if flags &&& uxRead ≠ 0 then usbReadEp0 s data xs reply else usbSendEp0 s data xs reply
      if r.1 = xs then
        if size - xs = 0 then
          -- the status packet behind a read
          if flags &&& uxRead ≠ 0 then usbDoXfer r.2 (data + xs) (size - xs) uxSend replies
          -- the zero-length packet behind a full one
          else if xs = usbCdcEp0Size ∧ flags &&& uxSendZlp ≠ 0 then
            usbDoXfer r.2 (data + xs) (size - xs) flags replies
          else { r.2 with xferFlags := 0, wake := true }
        else usbDoXfer r.2 (data + xs) (size - xs) flags replies
      else if r.1 = -1 then r.2.suspend data size flags
      else usbDoStall r.2

/-! ### Requests -/

/-- `struct usb_ctrlrequest` -/
structure UsbCtrlrequest where
  bRequestType : Byte
  bRequest : Byte
  wValue : BitVec 16
  wIndex : BitVec 16
  wLength : BitVec 16
  deriving DecidableEq

/-- A setup packet: eight bytes, numbers with the low byte first. -/
def UsbCtrlrequest.ofBytes (b : List Byte) : UsbCtrlrequest where
  bRequestType := b.getD 0 0
  bRequest := b.getD 1 0
  wValue := b.getD 3 0 ++ b.getD 2 0
  wIndex := b.getD 5 0 ++ b.getD 4 0
  wLength := b.getD 7 0 ++ b.getD 6 0

/-- The constants of `usbstd.h` and `usbstd_cdc.h`. -/
def Usbstd.dirIn : Byte := 0x80
def Usbstd.reqSetAddress : Byte := 0x05
def Usbstd.reqGetDescriptor : Byte := 0x06
def Usbstd.reqSetConfiguration : Byte := 0x09
def usbCdcReqSetLineCoding : Byte := 0x20
def usbCdcReqGetLineCoding : Byte := 0x21
def usbCdcReqSetControlLineState : Byte := 0x22

/-- `sizeof(line_coding)` -/
def lineCodingSize : ℕ := 7

/-- `struct descriptor_s`, with the address of the descriptor. -/
structure DescriptorEntry where
  wValue : BitVec 16
  wIndex : BitVec 16
  desc : ℕ
  size : ℕ

/-- A build with USB: the table `cdc_descriptors`, the address of the descriptor that
`usbserial_get_serialid` fills in, if there is one, and the address of `line_coding`. -/
structure UsbBuild where
  cdcDescriptors : List DescriptorEntry
  serialid : Option ℕ
  lineCoding : ℕ

/-- The search of `usb_req_get_descriptor`: the address and the size of the last entry that fits. -/
def UsbBuild.findDescriptor (b : UsbBuild) (m : Mem) (req : UsbCtrlrequest) : Option (ℕ × ℕ) :=
  let found := b.cdcDescriptors.foldl (fun found d =>
    if d.wValue = req.wValue ∧ d.wIndex = req.wIndex then some (d.desc, d.size) else found) none
  match b.serialid with
  | some addr =>
      if req.wValue = 0x0303 ∧ req.wIndex = 0x0409 then some (addr, (m addr).toNat) else found
  | none => found

/-- `usb_req_get_descriptor` -/
def usbReqGetDescriptor (b : UsbBuild) (s : Ep0) (req : UsbCtrlrequest)
    (replies : List Ep0Reply) : Ep0 :=
  if req.bRequestType ≠ Usbstd.dirIn then usbDoStall s
  else
    match b.findDescriptor s.mem req with
    | none => usbDoStall s
    | some (desc, size) =>
        if req.wLength.toNat < size then usbDoXfer s desc req.wLength.toNat uxSend replies
        else if size < req.wLength.toNat then
          usbDoXfer s desc size (uxSend ||| uxSendZlp) replies
        else usbDoXfer s desc size uxSend replies

/-- `usb_req_set_address` -/
def usbReqSetAddress (s : Ep0) (req : UsbCtrlrequest) : Ep0 :=
  if req.bRequestType ≠ 0 ∨ req.wIndex ≠ 0 ∨ req.wLength ≠ 0 then usbDoStall s
  else { s with log := s.log ++ [.setAddress req.wValue] }

/-- `usb_req_set_configuration` -/
def usbReqSetConfiguration (s : Ep0) (req : UsbCtrlrequest) (replies : List Ep0Reply) : Ep0 :=
  if req.bRequestType ≠ 0 ∨ req.wValue ≠ 1 ∨ req.wIndex ≠ 0 ∨ req.wLength ≠ 0 then usbDoStall s
  else usbDoXfer { s with log := s.log ++ [.setConfigure] } 0 0 uxSend replies

/-- `usb_req_set_line_coding` -/
def usbReqSetLineCoding (b : UsbBuild) (s : Ep0) (req : UsbCtrlrequest) (replies : List Ep0Reply) :
    Ep0 :=
  if req.bRequestType ≠ 0x21 ∨ req.wValue ≠ 0 ∨ req.wIndex ≠ 0 ∨
      req.wLength.toNat ≠ lineCodingSize then usbDoStall s
  else usbDoXfer s b.lineCoding lineCodingSize uxRead replies

/-- `usb_req_get_line_coding` -/
def usbReqGetLineCoding (b : UsbBuild) (s : Ep0) (req : UsbCtrlrequest) (replies : List Ep0Reply) :
    Ep0 :=
  if req.bRequestType ≠ 0xa1 ∨ req.wValue ≠ 0 ∨ req.wIndex ≠ 0 ∨
      req.wLength.toNat < lineCodingSize then usbDoStall s
  else usbDoXfer s b.lineCoding lineCodingSize uxSend replies

/-- `usb_req_set_line` -/
def usbReqSetLine (s : Ep0) (req : UsbCtrlrequest) (replies : List Ep0Reply) : Ep0 :=
  if req.bRequestType ≠ 0x21 ∨ req.wIndex ≠ 0 ∨ req.wLength ≠ 0 then usbDoStall s
  else usbDoXfer { s with lineControlState := req.wValue.setWidth 8 } 0 0 uxSend replies

/-- The `switch` of `usb_state_ready`. -/
def usbRequest (b : UsbBuild) (s : Ep0) (req : UsbCtrlrequest) (replies : List Ep0Reply) : Ep0 :=
  if req.bRequest = Usbstd.reqGetDescriptor then usbReqGetDescriptor b s req replies
  else if req.bRequest = Usbstd.reqSetAddress then usbReqSetAddress s req
  else if req.bRequest = Usbstd.reqSetConfiguration then usbReqSetConfiguration s req replies
  else if req.bRequest = usbCdcReqSetLineCoding then usbReqSetLineCoding b s req replies
  else if req.bRequest = usbCdcReqGetLineCoding then usbReqGetLineCoding b s req replies
  else if req.bRequest = usbCdcReqSetControlLineState then usbReqSetLine s req replies
  else usbDoStall s

/-- `usb_state_ready`: the first answer is that of `usb_read_ep0_setup`. -/
def usbStateReady (b : UsbBuild) (s : Ep0) : List Ep0Reply → Ep0
  | .packet bytes :: replies =>
      if (bytes.take 8).length = 8 then usbRequest b s (.ofBytes bytes) replies else s
  | _ => s

/-- `usb_ep0_task` -/
def usbEp0Task (b : UsbBuild) (s : Ep0) (replies : List Ep0Reply) : Ep0 :=
  if !s.wake then s
  else
    let s := { s with wake := false }
    if s.xferFlags ≠ 0 then usbDoXfer s s.xferData s.xferSize.toNat s.xferFlags replies
    else usbStateReady b s replies

/-- One pass of the main loop: whether the hardware has called `usb_notify_ep0` since the last one,
and what it answers in this one. -/
structure Ep0Pass where
  notified : Bool
  replies : List Ep0Reply
  deriving DecidableEq

def Ep0.step (b : UsbBuild) (s : Ep0) (p : Ep0Pass) : Ep0 :=
  usbEp0Task b { s with wake := s.wake || p.notified } p.replies

/-- A run of passes. -/
def Ep0.run (b : UsbBuild) (s : Ep0) (passes : List Ep0Pass) : Ep0 := passes.foldl (Ep0.step b) s

theorem Ep0.run_concat (b : UsbBuild) (s : Ep0) (passes : List Ep0Pass) (p : Ep0Pass) :
    s.run b (passes ++ [p]) = (s.run b passes).step b p := by
  rw [run, List.foldl_concat, run]

/-! ### What a pass does -/

theorem Ep0.step_asleep {b : UsbBuild} {s : Ep0} {p : Ep0Pass} (h : (s.wake || p.notified) = false) :
    s.step b p = { s with wake := false } := by
  rw [step, usbEp0Task, h]
  rfl

/-- A request is handled when no transfer is going on. -/
theorem Ep0.step_setup {b : UsbBuild} {s : Ep0} (hidle : s.xferFlags = 0) {p : Ep0Pass}
    (hwake : (s.wake || p.notified) = true) {setup : List Byte} (hlen : setup.length = 8)
    {replies : List Ep0Reply} (hp : p.replies = .packet setup :: replies) :
    s.step b p = usbRequest b { s with wake := false } (.ofBytes setup) replies := by
  rw [Ep0.step, usbEp0Task, hwake, hp]
  simp [hidle, usbStateReady, hlen]

/-- Otherwise the task goes on with the transfer. -/
theorem Ep0.step_resume {b : UsbBuild} {s : Ep0} (hbusy : s.xferFlags ≠ 0) {p : Ep0Pass}
    (hwake : (s.wake || p.notified) = true) : s.step b p =
      usbDoXfer { s with wake := false } s.xferData s.xferSize.toNat s.xferFlags p.replies := by
  rw [Ep0.step, usbEp0Task, hwake]
  exact if_pos hbusy

end Terraboot
