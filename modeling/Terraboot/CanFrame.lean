import Terraboot.BitStuffing
import Terraboot.CanReceive
import Terraboot.DirectCrc

/-!
# Frames on a CAN Bus

What every driver of the repository has to put on the bus for a `struct canbus_msg`, and take from
it: a frame with a short or a long identifier, a length code and up to eight bytes. The message
keeps the kind of frame in the upper bits of the identifier. To every message belongs a frame, and a
frame tells what the message has to be.

## Main results

* `frameOf_msgOf`: the message of a frame stands for that frame.
-/

open BitStuffing DirectCrc MsbBits

namespace Terraboot

/-- The identifier of a frame: of eleven bits in the base format, of 29 in the extended one. -/
inductive FrameId where
  | base (id : BitVec 11)
  | extended (id : BitVec 29)
  deriving DecidableEq

/-- A data or a remote frame. Codes above eight stand for eight bytes too, a remote frame has
none. -/
structure BusFrame where
  id : FrameId
  remote : Bool
  dlc : BitVec 4
  data : List Byte
  length_data : data.length = if remote then 0 else min dlc.toNat 8
  deriving DecidableEq

attribute [ext] BusFrame CanbusMsg

/-- `CANMSG_ID_RTR`, `CAN2040_ID_RTR` -/
def idRtr : Word := 1#32 <<< 30

/-- `CANMSG_ID_EFF`, `CAN2040_ID_EFF` -/
def idEff : Word := 1#32 <<< 31

/-! ### The line -/

/-- The polynomial of the checksum of a frame. -/
def canPoly : BitVec 15 := 0x4599

/-- The checksum of a bit sequence, one bit at a time. -/
def canCrc (bits : List Bool) : BitVec 15 := feed canPoly 0#15 bits

/-- The bits of a frame before the data: the start of frame, the identifier with the kind of frame
in between, and the length. -/
def BusFrame.header (f : BusFrame) : List Bool :=
  (match f.id with
    | .base id => false :: msbBits id 11 ++ [f.remote, false, false]
    | .extended id =>
        false :: msbBits (id >>> 18) 11 ++ [true, true] ++ msbBits id 18 ++
          [f.remote, false, false]) ++
    msbBits f.dlc 4

/-- The bits of a frame that its checksum is taken of. -/
def BusFrame.bits (f : BusFrame) : List Bool := f.header ++ f.data.flatMap (msbBits · 8)

/-- The bits of a frame with its checksum. -/
def BusFrame.checked (f : BusFrame) : List Bool := f.bits ++ msbBits (canCrc f.bits) 15

/-- A frame on the line up to the checksum delimiter, behind at least one recessive bit. -/
def BusFrame.line (f : BusFrame) : List Bool := stuff 5 [true] (f.checked ++ [true])

/-- The delimiter follows the bits that the sender has stuffed. -/
theorem BusFrame.line_eq (f : BusFrame) : f.line = stuffNow 5 [true] f.checked ++ [true] := by
  have hnone : stuffBit 5 [true] = [] := stuffBit_of_lt (by decide)
  rw [BusFrame.line, stuff_append_singleton (by omega), hnone, List.nil_append, List.nil_append]

/-! ### Messages -/

/-- The message of a frame. -/
def msgOf (f : BusFrame) : CanbusMsg where
  id :=
    (match f.id with
      | .base id => id.setWidth 32
      | .extended id => id.setWidth 32 ||| idEff) ||| if f.remote then idRtr else 0
  dlc := f.dlc.setWidth 32
  data := f.data ++ List.replicate (8 - f.data.length) 0
  data_length := by
    have hle : f.data.length ≤ 8 := by
      rw [f.length_data]
      split_ifs <;> omega
    rw [List.length_append, List.length_replicate]
    omega

/-- The frame that a message asks for. -/
def frameOf (msg : CanbusMsg) : BusFrame where
  id := if msg.id &&& idEff ≠ 0 then .extended (msg.id.setWidth 29) else .base (msg.id.setWidth 11)
  remote := decide (msg.id &&& idRtr ≠ 0)
  dlc := msg.dlc.setWidth 4
  data := msg.data.take (if msg.id &&& idRtr ≠ 0 then 0 else min (msg.dlc.setWidth 4).toNat 8)
  length_data := by
    rw [List.length_take, msg.data_length]
    split_ifs <;> simp_all

theorem getLsbD_idRtr (i : ℕ) : idRtr.getLsbD i = decide (i = 30) :=
  getLsbD_one_shiftLeft (by omega) i

theorem getLsbD_idEff (i : ℕ) : idEff.getLsbD i = decide (i = 31) :=
  getLsbD_one_shiftLeft (by omega) i

/-- A message is extended or remote if the bit of its identifier says so. -/
theorem and_idRtr_ne_zero_iff (w : Word) : w &&& idRtr ≠ 0 ↔ w.getLsbD 30 = true :=
  and_bit_ne_zero_iff (by omega)

theorem and_idEff_ne_zero_iff (w : Word) : w &&& idEff ≠ 0 ↔ w.getLsbD 31 = true :=
  and_bit_ne_zero_iff (by omega)

/-- The bits of the identifier of a frame's message. -/
theorem getLsbD_msgOf_id (f : BusFrame) (i : ℕ) :
    (msgOf f).id.getLsbD i = match f.id with
      | .base id => id.getLsbD i || (decide (i = 30) && f.remote)
      | .extended id => id.getLsbD i || decide (i = 31) || (decide (i = 30) && f.remote) := by
  have hremote : (if f.remote then idRtr else 0).getLsbD i = (decide (i = 30) && f.remote) := by
    cases f.remote
    · simp
    · simp [getLsbD_idRtr]
  cases hid : f.id with
  | base id =>
      simp only [msgOf, hid, BitVec.getLsbD_or, hremote, BitVec.getLsbD_setWidth]
      by_cases hi : i < 32
      · rw [decide_eq_true hi, Bool.true_and]
      · rw [BitVec.getLsbD_of_ge id i (by omega), Bool.and_false]
  | extended id =>
      simp only [msgOf, hid, BitVec.getLsbD_or, hremote, BitVec.getLsbD_setWidth, getLsbD_idEff]
      by_cases hi : i < 32
      · rw [decide_eq_true hi, Bool.true_and]
      · rw [BitVec.getLsbD_of_ge id i (by omega), Bool.and_false]

theorem msgOf_remote (f : BusFrame) : (msgOf f).id &&& idRtr ≠ 0 ↔ f.remote = true := by
  rw [and_idRtr_ne_zero_iff, getLsbD_msgOf_id]
  cases hid : f.id <;> simp

theorem msgOf_extended (f : BusFrame) :
    (msgOf f).id &&& idEff ≠ 0 ↔ ∃ id, f.id = .extended id := by
  rw [and_idEff_ne_zero_iff, getLsbD_msgOf_id]
  cases hid : f.id <;> simp

theorem setWidth_setWidth_dlc (dlc : BitVec 4) : (dlc.setWidth 32).setWidth 4 = dlc := by
  refine BitVec.eq_of_getLsbD_eq fun i hi => ?_
  simp

/-- **The message of a frame stands for that frame.** -/
theorem frameOf_msgOf (f : BusFrame) : frameOf (msgOf f) = f := by
  have hremote := msgOf_remote f
  have hdlc : (msgOf f).dlc.setWidth 4 = f.dlc := setWidth_setWidth_dlc f.dlc
  have hdata : (msgOf f).data = f.data ++ List.replicate (8 - f.data.length) 0 := rfl
  refine BusFrame.ext ?_ ?_ hdlc ?_
  · rw [frameOf]
    dsimp only
    cases hid : f.id with
    | base id =>
        have hshort : ¬(msgOf f).id &&& idEff ≠ 0 := by
          rw [msgOf_extended, hid]
          rintro ⟨_, h⟩
          cases h
        rw [if_neg hshort, FrameId.base.injEq]
        refine BitVec.eq_of_getLsbD_eq fun i hi => ?_
        have h30 : i ≠ 30 := by omega
        rw [BitVec.getLsbD_setWidth, getLsbD_msgOf_id, hid]
        simp [hi, h30]
    | extended id =>
        have hlong : (msgOf f).id &&& idEff ≠ 0 := (msgOf_extended f).mpr ⟨id, hid⟩
        rw [if_pos hlong, FrameId.extended.injEq]
        refine BitVec.eq_of_getLsbD_eq fun i hi => ?_
        have h30 : i ≠ 30 := by omega
        have h31 : i ≠ 31 := by omega
        rw [BitVec.getLsbD_setWidth, getLsbD_msgOf_id, hid]
        simp [hi, h30, h31]
  · exact (decide_eq_decide.mpr hremote).trans (Bool.decide_coe f.remote)
  · have hlength : (if (msgOf f).id &&& idRtr ≠ 0 then 0
        else min ((msgOf f).dlc.setWidth 4).toNat 8) = f.data.length := by
      rw [hdlc, f.length_data]
      exact if_congr hremote rfl rfl
    rw [frameOf]
    dsimp only
    rw [hlength, hdata]
    exact List.take_left

end Terraboot
