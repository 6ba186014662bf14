import Terraboot.Device

/-!
# CAN Administration on the Device

The "admin" half of `generic/canserial.c`: node ids are assigned, cleared and asked for
with messages on `CANBUS_ID_ADMIN`. A handler maps the module's variables to the new ones
and the list of messages it sends; a message the hardware is too busy for is sent again
until it goes out.

## Main results

* `canDecodeNodeid_eq_zero_iff`: only the short ids 1 to 29 stand for a node id.
* `canProcessSetCanbootNodeid_of_out_of_range`: a request with any other is ignored.
-/

namespace Terraboot

/-- `struct canbus_msg` -/
structure CanbusMsg where
  id : Word
  dlc : Word
  data : List Byte
  data_length : data.length = 8
  deriving DecidableEq

/-- The constants of `canserial.h` and `canserial.c`. -/
def canbusIdAdmin : Word := 0x3f0
def canbusIdAdminResp : Word := 0x3f1
def canbusCmdQueryUnassigned : Byte := 0x00
def canbusCmdSetCanbootNodeid : Byte := 0x11
def canbusCmdClearCanbootNodeid : Byte := 0x12
def canbusRespNeedNodeid : Byte := 0x20
def canbusRespSetNodeidAck : Byte := 0x21
def terrabootDeviceType : Byte := 254
def canbusNodeidShift : ℕ := 5
def canbusNodeidBase : ℕ := 0x020
def canbusShortIdMin : ℕ := 1
def canbusShortIdMax : ℕ := 29

/-- The variables of `canserial.c` that admin messages act on, and the id the hardware
filter was last set to. -/
structure CanData where
  assignedId : Word
  uuid : Uuid
  filter : Word
  deriving DecidableEq

/-- `can_check_uuid` -/
def canCheckUuid (c : CanData) (msg : CanbusMsg) : Bool :=
  decide (7 ≤ msg.dlc.toNat) && ((msg.data.drop 1).take 6 == c.uuid.val)

/-- `can_decode_nodeid` -/
def canDecodeNodeid (shortId : ℕ) : Word :=
  if shortId < canbusShortIdMin ∨ canbusShortIdMax < shortId then 0
  else BitVec.ofNat 32 ((shortId <<< canbusNodeidShift) + canbusNodeidBase)

/-- The answer of `can_process_query_unassigned`. -/
def needNodeid (c : CanData) : CanbusMsg where
  id := canbusIdAdminResp
  dlc := 8
  data := canbusRespNeedNodeid :: c.uuid.val ++ [terrabootDeviceType]
  data_length := by simp [c.uuid.property]

/-- `can_process_query_unassigned` -/
def canProcessQueryUnassigned (c : CanData) : CanData × List CanbusMsg :=
  if c.assignedId ≠ 0 then (c, []) else (c, [needNodeid c])

/-- `assigned_id` and the hardware filter are always set together. -/
def CanData.assign (c : CanData) (id : Word) : CanData := { c with assignedId := id, filter := id }

/-- `can_process_clear_canboot_nodeid` -/
def canProcessClearCanbootNodeid (c : CanData) : CanData := c.assign 0

/-- `can_id_conflict` -/
def canIdConflict (c : CanData) : CanData := c.assign 0

/-- The acknowledgement of `can_process_set_canboot_nodeid`. -/
def setNodeidAck (shortId : Byte) : CanbusMsg where
  id := canbusIdAdminResp
  dlc := 8
  data := [canbusRespSetNodeidAck, shortId, terrabootDeviceType, 0x01, 0, 0, 0, 0]
  data_length := rfl

/-- `can_process_set_canboot_nodeid` -/
def canProcessSetCanbootNodeid (c : CanData) (msg : CanbusMsg) : CanData × List CanbusMsg :=
  if msg.dlc.toNat < 8 then (c, [])
  else
    let newid := canDecodeNodeid (msg.data.getD 7 0).toNat
    if newid = 0 then (c, [])
    else if canCheckUuid c msg then
      if newid ≠ c.assignedId then (c.assign newid, [setNodeidAck (msg.data.getD 7 0)])
      else (c, [])
    else if newid = c.assignedId then (canIdConflict c, [])
    else (c, [])

/-- `can_process_admin` -/
def canProcessAdmin (c : CanData) (msg : CanbusMsg) : CanData × List CanbusMsg :=
  if msg.dlc = 0 then (c, [])
  else if msg.data.getD 0 0 = canbusCmdQueryUnassigned then canProcessQueryUnassigned c
  else if msg.data.getD 0 0 = canbusCmdSetCanbootNodeid then canProcessSetCanbootNodeid c msg
  else if msg.data.getD 0 0 = canbusCmdClearCanbootNodeid then
    (canProcessClearCanbootNodeid c, [])
  else (c, [])

/-- The messages of a bus that a device takes as admin messages, in order. -/
def canProcess (c : CanData) : List CanbusMsg → CanData × List CanbusMsg
  | [] => (c, [])
  | msg :: msgs =>
      let r := if msg.id = canbusIdAdmin then canProcessAdmin c msg else (c, [])
      let s := canProcess r.1 msgs
      (s.1, r.2 ++ s.2)

theorem canProcess_singleton (c : CanData) {msg : CanbusMsg} (h : msg.id = canbusIdAdmin) :
    canProcess c [msg] = canProcessAdmin c msg := by
  rw [canProcess, if_pos h, canProcess, List.append_nil]

/-- **Only the short ids 1 to 29 stand for a node id.** -/
theorem canDecodeNodeid_eq_zero_iff {shortId : ℕ} (h : shortId < 256) :
    canDecodeNodeid shortId = 0 ↔ shortId < 1 ∨ 29 < shortId := by
  rw [canDecodeNodeid]
  split_ifs with hrange
  · exact iff_of_true rfl hrange
  · refine iff_of_false ?_ hrange
    intro hzero
    have hnat := congrArg BitVec.toNat hzero
    rw [BitVec.toNat_ofNat, Nat.shiftLeft_eq, canbusNodeidShift, canbusNodeidBase,
      Nat.mod_eq_of_lt (by omega)] at hnat
    have hzero32 : (0 : Word).toNat = 0 := rfl
    omega

/-- **A request with any other is ignored**, without an answer. -/
theorem canProcessSetCanbootNodeid_of_out_of_range (c : CanData) {msg : CanbusMsg}
    (h : 29 < (msg.data.getD 7 0).toNat) : canProcessSetCanbootNodeid c msg = (c, []) := by
  have hzero : canDecodeNodeid (msg.data.getD 7 0).toNat = 0 :=
    (canDecodeNodeid_eq_zero_iff (msg.data.getD 7 0).isLt).mpr (.inr h)
  rw [canProcessSetCanbootNodeid]
  by_cases hdlc : msg.dlc.toNat < 8
  · exact if_pos hdlc
  · rw [if_neg hdlc]
    exact if_pos hzero

end Terraboot
