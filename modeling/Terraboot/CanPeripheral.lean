import Terraboot.CanFrame
import Terraboot.LittleEndian

/-!
# The CAN Peripherals

On the stm32 frames are sent and received by a peripheral, bxCAN (`stm32/can.c`) or FDCAN
(`stm32/fdcan.c`). Both keep a frame in four words: the identifier with the kind of frame, the length,
and two words of data. They differ only in where the fields are.

## Main results

* `FrameLayout.frame_eq_frameOf`: the words that `canhw_send` writes stand for the frame of the
  message.
* `FrameLayout.read_eq`, `ReadFrom.frameOf_eq`: the message that the interrupt handler makes of the
  words of a frame stands for that frame.
* `peripherals_agree`: a message gets from any peripheral to any other.
-/

open LittleEndian MsbBits

namespace Terraboot

/-- Where a peripheral keeps the fields of a frame. No two fields that a frame has are in the same
place. -/
structure FrameLayout where
  baseShift : ℕ
  extShift : ℕ
  extBit : ℕ
  rtrBit : ℕ
  dlcShift : ℕ
  base_room : baseShift + 11 ≤ 32
  ext_room : extShift + 29 ≤ 32
  dlc_room : dlcShift + 4 ≤ 32
  extBit_lt : extBit < 32
  rtrBit_lt : rtrBit < 32
  bits_ne : extBit ≠ rtrBit
  extBit_base : ¬(baseShift ≤ extBit ∧ extBit < baseShift + 11)
  extBit_ext : ¬(extShift ≤ extBit ∧ extBit < extShift + 29)
  rtrBit_base : ¬(baseShift ≤ rtrBit ∧ rtrBit < baseShift + 11)
  rtrBit_ext : ¬(extShift ≤ rtrBit ∧ rtrBit < extShift + 29)

/-- The words of a mailbox. -/
structure FrameWords where
  ids : Word
  dlc : Word
  low : Word
  high : Word
  deriving DecidableEq

namespace FrameLayout

variable (l : FrameLayout)

/-- The identifier as `canhw_send` writes it. -/
def idWord (id : Word) : Word :=
  (if id &&& idEff ≠ 0 then ((id &&& 0x1fffffff#32) <<< l.extShift) ||| (1#32 <<< l.extBit)
    else (id &&& 0x7ff#32) <<< l.baseShift) |||
  if id &&& idRtr ≠ 0 then 1#32 <<< l.rtrBit else 0

/-- The identifier as the interrupt handler reads it. -/
def readId (ids : Word) : Word :=
  (if ids &&& (1#32 <<< l.extBit) ≠ 0 then ((ids >>> l.extShift) &&& 0x1fffffff#32) ||| idEff
    else (ids >>> l.baseShift) &&& 0x7ff#32) |||
  if ids &&& (1#32 <<< l.rtrBit) ≠ 0 then idRtr else 0

/-- What `canhw_send` writes into a mailbox. -/
def write (msg : CanbusMsg) : FrameWords where
  ids := l.idWord msg.id
  dlc := (msg.dlc &&& 0x0f) <<< l.dlcShift
  low := ofLe32 msg.data
  high := ofLe32 (msg.data.drop 4)

/-- What the interrupt handler reads from one. -/
def read (words : FrameWords) : CanbusMsg where
  id := l.readId words.ids
  dlc := (words.dlc >>> l.dlcShift) &&& 0x0f
  data := le32 words.low ++ le32 words.high
  data_length := rfl

/-- The frame that the words of a mailbox stand for. -/
def frame (words : FrameWords) : BusFrame where
  id := if words.ids.getLsbD l.extBit then .extended (words.ids.extractLsb' l.extShift 29)
    else .base (words.ids.extractLsb' l.baseShift 11)
  remote := words.ids.getLsbD l.rtrBit
  dlc := words.dlc.extractLsb' l.dlcShift 4
  data := (le32 words.low ++ le32 words.high).take
    (if words.ids.getLsbD l.rtrBit then 0 else min (words.dlc.extractLsb' l.dlcShift 4).toNat 8)
  length_data := by
    rw [List.length_take, List.length_append, le32_length, le32_length]
    split_ifs <;> omega

end FrameLayout

/-- `sTxMailBox` and `sFIFOMailBox` of bxCAN. -/
def bxCan : FrameLayout where
  baseShift := 21
  extShift := 3
  extBit := 2
  rtrBit := 1
  dlcShift := 0
  base_room := by decide
  ext_room := by decide
  dlc_room := by decide
  extBit_lt := by decide
  rtrBit_lt := by decide
  bits_ne := by decide
  extBit_base := by decide
  extBit_ext := by decide
  rtrBit_base := by decide
  rtrBit_ext := by decide

/-- `struct fdcan_fifo` -/
def fdcan : FrameLayout where
  baseShift := 18
  extShift := 0
  extBit := 30
  rtrBit := 29
  dlcShift := 16
  base_room := by decide
  ext_room := by decide
  dlc_room := by decide
  extBit_lt := by decide
  rtrBit_lt := by decide
  bits_ne := by decide
  extBit_base := by decide
  extBit_ext := by decide
  rtrBit_base := by decide
  rtrBit_ext := by decide

/-- `canhw_send` of bxCAN, with what was in the mailbox: `TDTR` keeps its upper bits, and `TXRQ` asks
for the transmission. -/
def bxCanWrite (old : FrameWords) (msg : CanbusMsg) : FrameWords :=
  { bxCan.write msg with
    ids := (bxCan.write msg).ids ||| 1
    dlc := (old.dlc &&& 0xFFFFFFF0#32) ||| (msg.dlc &&& 0x0f) }

/-- `canhw_send` of FDCAN. -/
def fdcanWrite (msg : CanbusMsg) : FrameWords := fdcan.write msg

/-! ### Sending -/

section

variable (l : FrameLayout) (id : Word)

theorem getLsbD_low (t : ℕ) (ht : t < 32) (i : ℕ) :
    ((1#32 <<< t) - 1).getLsbD i = decide (i < t) := getLsbD_lowMask ht i

theorem getLsbD_idWord (i : ℕ) (hi : i < 32) : (l.idWord id).getLsbD i =
    ((if id.getLsbD 31 then
        (decide (l.extShift ≤ i ∧ i < l.extShift + 29) && id.getLsbD (i - l.extShift)) ||
          decide (i = l.extBit)
      else decide (l.baseShift ≤ i ∧ i < l.baseShift + 11) && id.getLsbD (i - l.baseShift)) ||
      (id.getLsbD 30 && decide (i = l.rtrBit))) := by
  have hext (j : ℕ) : (0x1fffffff#32 : Word).getLsbD j = decide (j < 29) := getLsbD_low 29 (by omega) j
  have hbase (j : ℕ) : (0x7ff#32 : Word).getLsbD j = decide (j < 11) := getLsbD_low 11 (by omega) j
  have hrtr : (if id &&& idRtr ≠ 0 then 1#32 <<< l.rtrBit else 0).getLsbD i =
      (id.getLsbD 30 && decide (i = l.rtrBit)) := by
    rw [if_congr (and_idRtr_ne_zero_iff id) rfl rfl]
    cases id.getLsbD 30 with
    | true => simp [getLsbD_one_shiftLeft l.rtrBit_lt]
    | false => simp
  rw [FrameLayout.idWord, BitVec.getLsbD_or, hrtr, if_congr (and_idEff_ne_zero_iff id) rfl rfl]
  congr 1
  split_ifs
  · rw [BitVec.getLsbD_or, getLsbD_one_shiftLeft l.extBit_lt, BitVec.getLsbD_shiftLeft,
      BitVec.getLsbD_and, hext]
    congr 1
    by_cases hlow : i < l.extShift
    · have hout : ¬l.extShift ≤ i := by omega
      simp [hlow, hout]
    · have hin : l.extShift ≤ i := by omega
      have hiff : i - l.extShift < 29 ↔ i < l.extShift + 29 := by omega
      simp [hi, hlow, hin, hiff, Bool.and_comm]
  · rw [BitVec.getLsbD_shiftLeft, BitVec.getLsbD_and, hbase]
    by_cases hlow : i < l.baseShift
    · have hout : ¬l.baseShift ≤ i := by omega
      simp [hlow, hout]
    · have hin : l.baseShift ≤ i := by omega
      have hiff : i - l.baseShift < 11 ↔ i < l.baseShift + 11 := by omega
      simp [hi, hlow, hin, hiff, Bool.and_comm]

/-- The bits of a field. -/
theorem getLsbD_idWord_ext (hext : id.getLsbD 31 = true) {i : ℕ} (hi : i < 29) :
    (l.idWord id).getLsbD (l.extShift + i) = id.getLsbD i := by
  have hroom := l.ext_room
  have hext' := l.extBit_ext
  have hrtr := l.rtrBit_ext
  have hin : l.extShift ≤ l.extShift + i ∧ l.extShift + i < l.extShift + 29 := by omega
  have hne : l.extShift + i ≠ l.extBit := by omega
  have hne' : l.extShift + i ≠ l.rtrBit := by omega
  rw [getLsbD_idWord l id _ (by omega), if_pos hext, decide_eq_true hin, decide_eq_false hne,
    decide_eq_false hne', Nat.add_sub_cancel_left]
  simp

theorem getLsbD_idWord_base (hbase : id.getLsbD 31 = false) {i : ℕ} (hi : i < 11) :
    (l.idWord id).getLsbD (l.baseShift + i) = id.getLsbD i := by
  have hroom := l.base_room
  have hrtr := l.rtrBit_base
  have hin : l.baseShift ≤ l.baseShift + i ∧ l.baseShift + i < l.baseShift + 11 := by omega
  have hne : l.baseShift + i ≠ l.rtrBit := by omega
  rw [getLsbD_idWord l id _ (by omega), if_neg (Bool.eq_false_iff.mp hbase), decide_eq_true hin,
    decide_eq_false hne, Nat.add_sub_cancel_left]
  simp

theorem getLsbD_idWord_extBit : (l.idWord id).getLsbD l.extBit = id.getLsbD 31 := by
  rw [getLsbD_idWord l id _ l.extBit_lt, decide_eq_false l.extBit_base, decide_eq_false l.extBit_ext,
    decide_eq_false l.bits_ne]
  cases id.getLsbD 31 <;> simp

theorem getLsbD_idWord_rtrBit : (l.idWord id).getLsbD l.rtrBit = id.getLsbD 30 := by
  rw [getLsbD_idWord l id _ l.rtrBit_lt, decide_eq_false l.rtrBit_base, decide_eq_false l.rtrBit_ext,
    decide_eq_false l.bits_ne.symm]
  cases id.getLsbD 31 <;> simp

end

/-- A message's bytes as they are in the two words. -/
theorem le32_data (msg : CanbusMsg) :
    le32 (ofLe32 msg.data) ++ le32 (ofLe32 (msg.data.drop 4)) = msg.data := by
  obtain ⟨a, b, c, d, e, f, g, h, hdata⟩ : ∃ a b c d e f g h, msg.data = [a, b, c, d, e, f, g, h] := by
    have hlength := msg.data_length
    match msg.data, hlength with
    | [a, b, c, d, e, f, g, h], _ => exact ⟨a, b, c, d, e, f, g, h, rfl⟩
  have hlow : ofLe32 msg.data = ofLe32 [a, b, c, d] := by rw [hdata]; rfl
  have hhigh : ofLe32 (msg.data.drop 4) = ofLe32 [e, f, g, h] := by rw [hdata]; rfl
  rw [hlow, hhigh, le32_ofLe32, le32_ofLe32, hdata]
  rfl

/-- A field of a word that has been shifted to its place. -/
theorem extractLsb'_shiftLeft_dlc (dlc : Word) {k : ℕ} (hk : k + 4 ≤ 32) :
    ((dlc &&& 0x0f) <<< k).extractLsb' k 4 = dlc.setWidth 4 := by
  have hmask (j : ℕ) : (0x0f : Word).getLsbD j = decide (j < 4) := getLsbD_low 4 (by omega) j
  refine BitVec.eq_of_getLsbD_eq fun i hi => ?_
  have hin : k + i < 32 := by omega
  have hlow : ¬k + i < k := by omega
  rw [BitVec.getLsbD_extractLsb', BitVec.getLsbD_shiftLeft, BitVec.getLsbD_and, hmask,
    BitVec.getLsbD_setWidth, Nat.add_sub_cancel_left]
  simp [hi, hin, hlow]

/-- **The words that are written stand for the frame of the message**, whatever else is in them. -/
theorem FrameLayout.frame_eq_frameOf (l : FrameLayout) (msg : CanbusMsg) {words : FrameWords}
    (hid : ∀ i, i = l.extBit ∨ i = l.rtrBit ∨ (l.extShift ≤ i ∧ i < l.extShift + 29) ∨
      (l.baseShift ≤ i ∧ i < l.baseShift + 11) →
        words.ids.getLsbD i = (l.idWord msg.id).getLsbD i)
    (hdlc : words.dlc.extractLsb' l.dlcShift 4 = msg.dlc.setWidth 4)
    (hdata : le32 words.low ++ le32 words.high = msg.data) : l.frame words = frameOf msg := by
  have hext : words.ids.getLsbD l.extBit = msg.id.getLsbD 31 :=
    (hid _ (.inl rfl)).trans (getLsbD_idWord_extBit l msg.id)
  have hrtr : words.ids.getLsbD l.rtrBit = msg.id.getLsbD 30 :=
    (hid _ (.inr (.inl rfl))).trans (getLsbD_idWord_rtrBit l msg.id)
  refine BusFrame.ext ?_ ?_ hdlc ?_
  · rw [frame, frameOf, hext, if_congr (and_idEff_ne_zero_iff msg.id) rfl rfl]
    cases hkind : msg.id.getLsbD 31 with
    | true =>
        rw [if_pos rfl, if_pos rfl, FrameId.extended.injEq]
        refine BitVec.eq_of_getLsbD_eq fun i hi => ?_
        have hroom := l.ext_room
        rw [BitVec.getLsbD_extractLsb', BitVec.getLsbD_setWidth, hid _ (by omega),
          getLsbD_idWord_ext l msg.id hkind hi]
    | false =>
        rw [if_neg Bool.false_ne_true, if_neg Bool.false_ne_true, FrameId.base.injEq]
        refine BitVec.eq_of_getLsbD_eq fun i hi => ?_
        have hroom := l.base_room
        rw [BitVec.getLsbD_extractLsb', BitVec.getLsbD_setWidth, hid _ (by omega),
          getLsbD_idWord_base l msg.id hkind hi]
  · change words.ids.getLsbD l.rtrBit = decide (msg.id &&& idRtr ≠ 0)
    rw [hrtr, decide_eq_decide.mpr (and_idRtr_ne_zero_iff msg.id), Bool.decide_coe]
  · change (le32 words.low ++ le32 words.high).take (if words.ids.getLsbD l.rtrBit then 0 else
      min (words.dlc.extractLsb' l.dlcShift 4).toNat 8) = msg.data.take
        (if msg.id &&& idRtr ≠ 0 then 0 else min (msg.dlc.setWidth 4).toNat 8)
    rw [hrtr, hdlc, hdata, if_congr (and_idRtr_ne_zero_iff msg.id) rfl rfl]

theorem fdcanWrite_frame (msg : CanbusMsg) : fdcan.frame (fdcanWrite msg) = frameOf msg :=
  fdcan.frame_eq_frameOf msg (fun _ _ => rfl) (extractLsb'_shiftLeft_dlc msg.dlc fdcan.dlc_room)
    (le32_data msg)

theorem bxCanWrite_frame (old : FrameWords) (msg : CanbusMsg) :
    bxCan.frame (bxCanWrite old msg) = frameOf msg := by
  refine bxCan.frame_eq_frameOf msg (fun i hi => ?_) ?_ (le32_data msg)
  · -- `TXRQ` is in none of the fields
    have hne : i ≠ 0 := by
      simp only [bxCan] at hi
      omega
    have hone : (1 : Word).getLsbD i = false := by
      rw [show (1 : Word) = 1#32 <<< 0 from rfl, getLsbD_one_shiftLeft (by omega)]
      exact decide_eq_false hne
    change ((bxCan.idWord msg.id) ||| 1).getLsbD i = _
    rw [BitVec.getLsbD_or, hone, Bool.or_false]
  · have hmask (j : ℕ) (hj : j < 4) : (0xFFFFFFF0#32 : Word).getLsbD j = false := by
      obtain rfl | rfl | rfl | rfl : j = 0 ∨ j = 1 ∨ j = 2 ∨ j = 3 := by omega
      all_goals rfl
    have hlow (j : ℕ) : (0x0f : Word).getLsbD j = decide (j < 4) := getLsbD_low 4 (by omega) j
    refine BitVec.eq_of_getLsbD_eq fun i hi => ?_
    change (((old.dlc &&& 0xFFFFFFF0#32) ||| (msg.dlc &&& 0x0f)).extractLsb' 0 4).getLsbD i = _
    rw [BitVec.getLsbD_extractLsb', Nat.zero_add, BitVec.getLsbD_or, BitVec.getLsbD_and,
      BitVec.getLsbD_and, hmask i hi, hlow, BitVec.getLsbD_setWidth]
    simp [hi]

/-! ### Receiving -/

section

variable (l : FrameLayout) (words : FrameWords)

theorem getLsbD_readId (i : ℕ) : (l.readId words.ids).getLsbD i =
    ((if words.ids.getLsbD l.extBit then
        (decide (i < 29) && words.ids.getLsbD (l.extShift + i)) || decide (i = 31)
      else decide (i < 11) && words.ids.getLsbD (l.baseShift + i)) ||
      (words.ids.getLsbD l.rtrBit && decide (i = 30))) := by
  have hext (j : ℕ) : (0x1fffffff#32 : Word).getLsbD j = decide (j < 29) := getLsbD_low 29 (by omega) j
  have hbase (j : ℕ) : (0x7ff#32 : Word).getLsbD j = decide (j < 11) := getLsbD_low 11 (by omega) j
  have hbit (k : ℕ) (hk : k < 32) : words.ids &&& (1#32 <<< k) ≠ 0 ↔ words.ids.getLsbD k = true :=
    and_bit_ne_zero_iff hk
  have hrtr : (if words.ids &&& (1#32 <<< l.rtrBit) ≠ 0 then idRtr else 0).getLsbD i =
      (words.ids.getLsbD l.rtrBit && decide (i = 30)) := by
    rw [if_congr (hbit _ l.rtrBit_lt) rfl rfl]
    cases words.ids.getLsbD l.rtrBit with
    | true => simp [getLsbD_idRtr]
    | false => simp
  rw [FrameLayout.readId, BitVec.getLsbD_or, hrtr, if_congr (hbit _ l.extBit_lt) rfl rfl]
  congr 1
  split_ifs
  · rw [BitVec.getLsbD_or, getLsbD_idEff, BitVec.getLsbD_and, hext, BitVec.getLsbD_ushiftRight,
      Bool.and_comm]
  · rw [BitVec.getLsbD_and, hbase, BitVec.getLsbD_ushiftRight, Bool.and_comm]

/-- **The message that is read is that of the frame**, as far as the frame goes: what is behind the
data may be anything. -/
theorem FrameLayout.read_eq : (l.read words).id = (msgOf (l.frame words)).id ∧
    (l.read words).dlc = (msgOf (l.frame words)).dlc ∧
    (l.read words).data.take (l.frame words).data.length = (l.frame words).data := by
  refine ⟨?_, ?_, ?_⟩
  · refine BitVec.eq_of_getLsbD_eq fun i hi => ?_
    change (l.readId words.ids).getLsbD i = _
    rw [getLsbD_readId, getLsbD_msgOf_id]
    cases hext : words.ids.getLsbD l.extBit with
    | true =>
        have hid : (l.frame words).id = .extended (words.ids.extractLsb' l.extShift 29) := if_pos hext
        rw [hid, if_pos rfl]
        dsimp only
        rw [BitVec.getLsbD_extractLsb', Bool.and_comm (words.ids.getLsbD l.rtrBit)]
        rfl
    | false =>
        have hid : (l.frame words).id = .base (words.ids.extractLsb' l.baseShift 11) :=
          if_neg (Bool.eq_false_iff.mp hext)
        rw [hid, if_neg Bool.false_ne_true]
        dsimp only
        rw [BitVec.getLsbD_extractLsb', Bool.and_comm (words.ids.getLsbD l.rtrBit)]
        rfl
  · have hmask (j : ℕ) : (0x0f : Word).getLsbD j = decide (j < 4) := getLsbD_low 4 (by omega) j
    refine BitVec.eq_of_getLsbD_eq fun i hi => ?_
    change ((words.dlc >>> l.dlcShift) &&& 0x0f).getLsbD i =
      ((words.dlc.extractLsb' l.dlcShift 4).setWidth 32).getLsbD i
    rw [BitVec.getLsbD_and, hmask, BitVec.getLsbD_ushiftRight, BitVec.getLsbD_setWidth,
      BitVec.getLsbD_extractLsb', decide_eq_true hi, Bool.true_and, Bool.and_comm]
  · have hdata : (l.frame words).data =
        (l.read words).data.take (if words.ids.getLsbD l.rtrBit then 0
          else min (words.dlc.extractLsb' l.dlcShift 4).toNat 8) := rfl
    rw [(l.frame words).length_data, hdata]
    rfl

end

/-! ### From one peripheral to another -/

/-- A frame and what was read of it. -/
structure ReadFrom (msg : CanbusMsg) (f : BusFrame) : Prop where
  id_eq : msg.id = (msgOf f).id
  dlc_eq : msg.dlc = (msgOf f).dlc
  data_eq : msg.data.take f.data.length = f.data

theorem length_data_msgOf (f : BusFrame) : f.data.length =
    if (msgOf f).id &&& idRtr ≠ 0 then 0 else min ((msgOf f).dlc.setWidth 4).toNat 8 := by
  have hdlc : (msgOf f).dlc.setWidth 4 = f.dlc := setWidth_setWidth_dlc f.dlc
  rw [hdlc, f.length_data]
  exact (if_congr (msgOf_remote f) rfl rfl).symm

theorem ReadFrom.frameOf_eq {msg : CanbusMsg} {f : BusFrame} (h : ReadFrom msg f) :
    frameOf msg = f := by
  rw [← frameOf_msgOf f]
  refine BusFrame.ext ?_ ?_ ?_ ?_
  · change (if msg.id &&& idEff ≠ 0 then FrameId.extended (msg.id.setWidth 29)
      else .base (msg.id.setWidth 11)) = (frameOf (msgOf f)).id
    rw [h.id_eq]
    rfl
  · change decide (msg.id &&& idRtr ≠ 0) = (frameOf (msgOf f)).remote
    rw [h.id_eq]
    rfl
  · change msg.dlc.setWidth 4 = (msgOf f).dlc.setWidth 4
    rw [h.dlc_eq]
  · have hlength := length_data_msgOf f
    change msg.data.take _ = (msgOf f).data.take _
    rw [h.id_eq, h.dlc_eq, ← hlength, h.data_eq]
    exact List.take_left.symm

theorem toNat_dlc_msgOf (f : BusFrame) : (msgOf f).dlc.toNat = f.dlc.toNat := by
  change (f.dlc.setWidth 32).toNat = f.dlc.toNat
  rw [BitVec.toNat_setWidth]
  exact Nat.mod_eq_of_lt (by omega)

/-- Behind the data of a frame nothing is looked at. -/
theorem ReadFrom.data_getD {msg : CanbusMsg} {f : BusFrame} (h : ReadFrom msg f) {i : ℕ}
    (hi : i < f.data.length) : msg.data.getD i 0 = (msgOf f).data.getD i 0 := by
  have hleft : (msgOf f).data.take f.data.length = f.data := List.take_left
  have htake (l : List Byte) : l.getD i 0 = (l.take f.data.length).getD i 0 := by
    rw [List.getD_eq_getElem?_getD, List.getD_eq_getElem?_getD, List.getElem?_take_of_lt hi]
  rw [htake msg.data, htake (msgOf f).data, h.data_eq, hleft]

/-- **What the administration makes of a data frame** does not depend on what is behind the data. -/
theorem ReadFrom.canProcessAdmin_eq {msg : CanbusMsg} {f : BusFrame} (h : ReadFrom msg f)
    (hremote : f.remote = false) (c : CanData) :
    canProcessAdmin c msg = canProcessAdmin c (msgOf f) := by
  have hlength : f.data.length = min f.dlc.toNat 8 := by
    rw [f.length_data, hremote]
    rfl
  have hdlc := toNat_dlc_msgOf f
  rw [canProcessAdmin, canProcessAdmin, h.dlc_eq]
  by_cases hzero : (msgOf f).dlc = 0
  · rw [if_pos hzero, if_pos hzero]
  · have hpos : 0 < f.dlc.toNat := by
      rw [← hdlc]
      exact Nat.pos_of_ne_zero fun h => hzero (BitVec.eq_of_toNat_eq h)
    have hset : canProcessSetCanbootNodeid c msg = canProcessSetCanbootNodeid c (msgOf f) := by
      rw [canProcessSetCanbootNodeid, canProcessSetCanbootNodeid, h.dlc_eq, hdlc]
      by_cases hshort : f.dlc.toNat < 8
      · rw [if_pos hshort, if_pos hshort]
      · have hdata : msg.data = (msgOf f).data := by
          have hall := h.data_eq
          have hleft : (msgOf f).data.take f.data.length = f.data := List.take_left
          rw [List.take_of_length_le (by rw [msg.data_length]; omega)] at hall
          rw [List.take_of_length_le (by rw [(msgOf f).data_length]; omega)] at hleft
          rw [hall, hleft]
        have hcheck : canCheckUuid c msg = canCheckUuid c (msgOf f) := by
          rw [canCheckUuid, canCheckUuid, hdata, h.dlc_eq]
        rw [if_neg hshort, if_neg hshort, hdata, hcheck]
    rw [h.data_getD (by omega), hset]

/-- **The peripherals agree**: the frame of a message is the same whichever of them sends it, and what
any of them reads from that frame is the message, as the software controller would have it. -/
theorem peripherals_agree (old : FrameWords) (msg : CanbusMsg) :
    bxCan.frame (bxCanWrite old msg) = frameOf msg ∧ fdcan.frame (fdcanWrite msg) = frameOf msg ∧
      ∀ (l : FrameLayout) (words : FrameWords), l.frame words = frameOf msg →
        ReadFrom (l.read words) (frameOf msg) ∧ frameOf (l.read words) = frameOf msg ∧
          ((frameOf msg).remote = false → ∀ c,
            canProcessAdmin c (l.read words) = canProcessAdmin c (msgOf (frameOf msg))) := by
  refine ⟨bxCanWrite_frame old msg, fdcanWrite_frame msg, fun l words hframe => ?_⟩
  obtain ⟨hid, hdlc, hdata⟩ := l.read_eq words
  rw [hframe] at hid hdlc hdata
  have hread : ReadFrom (l.read words) (frameOf msg) := ⟨hid, hdlc, hdata⟩
  exact ⟨hread, hread.frameOf_eq, hread.canProcessAdmin_eq⟩

end Terraboot
