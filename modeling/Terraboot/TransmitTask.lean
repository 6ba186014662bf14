import Terraboot.Transmit

/-!
# Transmitting

The tasks that empty the transmit buffers, `canserial_tx_task` and `usb_bulk_in_task`, together
with the `console_sendf` that fills them. The hardware accepts or refuses each packet as it likes;
that it has room again wakes the task. All of this runs outside interrupts. As history a run keeps
the messages that `console_sendf` accepted and the packets that the hardware took.

## Main results

* `ConsoleTx.txLoop_spec`: the packets of one run of the CAN task are cut off the front of what is
  pending.
* `UsbLink.task_sound`: so are those of the USB task.
* `transmit_queues_sound`: over every run, what has gone out and what is pending are the accepted
  messages.
-/

open LittleEndian

namespace Terraboot

/-! ### CAN -/

/-- A packet that the CAN hardware has accepted: its id and the bytes it carries. -/
structure CanPacket where
  id : Word
  data : List Byte
  deriving DecidableEq, Repr

namespace ConsoleTx

/-- `console_sendf` returns early, as there is not enough space for the message. -/
def noSpace (size : ℕ) (t : ConsoleTx) (msg : List Byte) : Bool :=
  let t := if t.transmitMax ≤ t.transmitPos then { t with transmitPos := 0, transmitMax := 0 } else t
  decide (size < t.transmitMax + msg.length) &&
    decide (size < t.transmitMax + msg.length - t.transmitPos)

/-- The loop of `canserial_tx_task`, given what `canbus_send` returns from one packet to the next;
where nothing is given any more the hardware is busy. The result is `tpos` with the packets. -/
def txLoop (t : ConsoleTx) (id : Word) : List ℤ → ℕ → ℕ × List CanPacket
  | [], tpos => (tpos, [])
  | ret :: rets, tpos =>
      let avail := t.transmitMax - tpos
      let now := if 8 < avail then 8 else avail
      if avail = 0 then (tpos, [])
      else if ret ≤ 0 then (tpos, [])
      else
        let r := t.txLoop id rets (tpos + now)
        (r.1, ⟨id + 1, (t.transmitBuf.drop tpos).take now⟩ :: r.2)

variable {size : ℕ} {t : ConsoleTx}

/-- The check for space is about the number of pending bytes. -/
theorem noSpace_iff (h : t.WellFormed size) (msg : List Byte) :
    t.noSpace size msg = true ↔ size < t.pending.length + msg.length := by
  rw [h.pending_length, noSpace]
  have hrange := h.range
  by_cases hdone : t.transmitMax ≤ t.transmitPos
  · rw [if_pos hdone]
    simp only [Bool.and_eq_true, decide_eq_true_eq]
    omega
  · rw [if_neg hdone]
    simp only [Bool.and_eq_true, decide_eq_true_eq]
    omega

/-- The positions stay in order. -/
theorem consoleSendf_pos (size : ℕ) (t : ConsoleTx) (msg : List Byte) :
    (consoleSendf size t msg).transmitPos ≤ (consoleSendf size t msg).transmitMax := by
  obtain ⟨t₁, ht₁⟩ : ∃ t₁, (if t.transmitMax ≤ t.transmitPos then
      { t with transmitPos := 0, transmitMax := 0 } else t) = t₁ := ⟨_, rfl⟩
  have hpos : t₁.transmitPos ≤ t₁.transmitMax := by
    rw [← ht₁]
    split_ifs with hdone
    · exact le_rfl
    · exact (not_le.mp hdone).le
  rw [consoleSendf, ht₁]
  dsimp only
  split_ifs
  · exact hpos
  · exact Nat.zero_le _
  · exact hpos.trans (Nat.le_add_right _ _)

/-- **The packets of one run of the task** are cut off the front of what is pending. -/
theorem txLoop_spec (t : ConsoleTx) (id : Word) (rets : List ℤ) {tpos : ℕ}
    (hpos : tpos ≤ t.transmitMax) :
    tpos ≤ (t.txLoop id rets tpos).1 ∧ (t.txLoop id rets tpos).1 ≤ t.transmitMax ∧
      (t.txLoop id rets tpos).2.flatMap CanPacket.data ++
          (t.transmitBuf.take t.transmitMax).drop (t.txLoop id rets tpos).1 =
        (t.transmitBuf.take t.transmitMax).drop tpos ∧
      ∀ p ∈ (t.txLoop id rets tpos).2, p.id = id + 1 ∧ p.data.length ≤ 8 := by
  induction rets generalizing tpos with
  | nil => exact ⟨le_rfl, hpos, rfl, fun _ hp => absurd hp List.not_mem_nil⟩
  | cons ret rets ih =>
      rw [txLoop]
      dsimp only
      by_cases hempty : t.transmitMax - tpos = 0
      · rw [if_pos hempty]
        exact ⟨le_rfl, hpos, rfl, fun _ hp => absurd hp List.not_mem_nil⟩
      by_cases hbusy : ret ≤ 0
      · rw [if_neg hempty, if_pos hbusy]
        exact ⟨le_rfl, hpos, rfl, fun _ hp => absurd hp List.not_mem_nil⟩
      rw [if_neg hempty, if_neg hbusy]
      obtain ⟨now, hnow⟩ : ∃ now, (if 8 < t.transmitMax - tpos then 8 else t.transmitMax - tpos) =
          now := ⟨_, rfl⟩
      have hle : now ≤ 8 ∧ tpos + now ≤ t.transmitMax := by
        rw [← hnow]
        split_ifs <;> omega
      rw [hnow]
      obtain ⟨hfrom, hto, hbytes, hpackets⟩ := ih hle.2
      refine ⟨by omega, hto, ?_, ?_⟩
      · have hcut : (t.transmitBuf.drop tpos).take now =
            ((t.transmitBuf.take t.transmitMax).drop tpos).take now := by
          rw [List.drop_take, List.take_take, Nat.min_eq_left (by omega)]
        rw [List.flatMap_cons, List.append_assoc, hbytes, hcut, ← List.drop_drop,
          List.take_append_drop]
      · rw [List.forall_mem_cons]
        exact ⟨⟨rfl, (List.length_take_le _ _).trans hle.1⟩, hpackets⟩

/-- Hardware that accepts everything is given everything. -/
theorem txLoop_accepting (t : ConsoleTx) (id : Word) {k tpos : ℕ} (hpos : tpos ≤ t.transmitMax)
    (hk : t.transmitMax ≤ tpos + 8 * k) :
    (t.txLoop id (List.replicate k 1) tpos).1 = t.transmitMax := by
  induction k generalizing tpos with
  | zero => exact le_antisymm hpos hk
  | succ k ih =>
      rw [List.replicate_succ, txLoop]
      dsimp only
      by_cases hempty : t.transmitMax - tpos = 0
      · rw [if_pos hempty]
        omega
      · rw [if_neg hempty, if_neg (by decide)]
        refine ih ?_ ?_ <;> split_ifs <;> omega

end ConsoleTx

/-- `assigned_id`, `tx_wake` and the transmit buffer of `struct canbus_data`. -/
structure CanTx where
  assignedId : Word
  txWake : Bool
  tx : ConsoleTx
  deriving DecidableEq, Repr

/-- `sizeof(CanData.transmit_buf)` -/
def canTransmitBufSize : ℕ := 96

namespace CanTx

/-- After boot. -/
def boot : CanTx := ⟨0, false, ⟨List.replicate canTransmitBufSize 0, 0, 0⟩⟩

/-- `canserial_notify_tx` -/
def canserialNotifyTx (s : CanTx) : CanTx := { s with txWake := true }

/-- `console_sendf` -/
def consoleSendf (s : CanTx) (msg : List Byte) : CanTx :=
  let t := { s with tx := s.tx.consoleSendf canTransmitBufSize msg }
  if s.tx.noSpace canTransmitBufSize msg then t else t.canserialNotifyTx

/-- `canserial_tx_task`, with the packets that go out. -/
def canserialTxTask (s : CanTx) (rets : List ℤ) : CanTx × List CanPacket :=
  if !s.txWake then (s, [])
  else
    let s := { s with txWake := false }
    if s.assignedId = 0 then
      ({ s with tx := { s.tx with transmitPos := 0, transmitMax := 0 } }, [])
    else
      let r := s.tx.txLoop s.assignedId rets s.tx.transmitPos
      ({ s with tx := { s.tx with transmitPos := r.1 } }, r.2)

/-- What happens on the transmit side. -/
inductive Event
  | sendf (msg : List Byte)
  | notify
  | task (rets : List ℤ)

/-- One event, with the packets that go out. -/
def step (s : CanTx) : Event → CanTx × List CanPacket
  | .sendf msg => (s.consoleSendf msg, [])
  | .notify => (s.canserialNotifyTx, [])
  | .task rets => s.canserialTxTask rets

/-- The messages that are accepted in an event. -/
def accepts (s : CanTx) : Event → List (List Byte)
  | .sendf msg => if s.tx.noSpace canTransmitBufSize msg then [] else [msg]
  | _ => []

/-- What holds of the buffer at all times. -/
structure Sound (s : CanTx) : Prop where
  wellFormed : s.tx.WellFormed canTransmitBufSize
  pos : s.tx.transmitPos ≤ s.tx.transmitMax

theorem consoleSendf_tx (s : CanTx) (msg : List Byte) :
    (s.consoleSendf msg).tx = s.tx.consoleSendf canTransmitBufSize msg := by
  rw [consoleSendf]
  split_ifs <;> rfl

theorem consoleSendf_assignedId (s : CanTx) (msg : List Byte) :
    (s.consoleSendf msg).assignedId = s.assignedId := by
  rw [consoleSendf]
  split_ifs <;> rfl

/-- A message is queued whole, or it is refused and nothing happens. -/
theorem consoleSendf_pending {s : CanTx} (h : s.Sound) (msg : List Byte) :
    (s.consoleSendf msg).tx.pending =
      if s.tx.noSpace canTransmitBufSize msg then s.tx.pending else s.tx.pending ++ msg := by
  have hspace := ConsoleTx.noSpace_iff h.wellFormed msg
  rw [consoleSendf_tx, (ConsoleTx.consoleSendf_pending h.wellFormed msg).1]
  by_cases hfull : canTransmitBufSize < s.tx.pending.length + msg.length
  · rw [if_neg (by omega), if_pos (hspace.mpr hfull)]
  · rw [if_pos (by omega), if_neg fun hno => hfull (hspace.mp hno)]

/-- **One run of the task** sends the front of what is pending, or throws it away where no id is
assigned. -/
theorem canserialTxTask_cases (s : CanTx) (rets : List ℤ) :
    s.canserialTxTask rets = (s, []) ∨
      (s.assignedId = 0 ∧ s.canserialTxTask rets =
        (⟨s.assignedId, false, { s.tx with transmitPos := 0, transmitMax := 0 }⟩, [])) ∨
      (s.assignedId ≠ 0 ∧ s.canserialTxTask rets =
        (⟨s.assignedId, false,
          { s.tx with transmitPos := (s.tx.txLoop s.assignedId rets s.tx.transmitPos).1 }⟩,
          (s.tx.txLoop s.assignedId rets s.tx.transmitPos).2)) := by
  rw [canserialTxTask]
  by_cases hwake : s.txWake = true
  · rw [if_neg (by rw [hwake]; exact Bool.false_ne_true)]
    by_cases hid : s.assignedId = 0
    · exact .inr (.inl ⟨hid, if_pos hid⟩)
    · exact .inr (.inr ⟨hid, if_neg hid⟩)
  · exact .inl (if_pos (by simpa using hwake))

theorem step_assignedId (s : CanTx) (e : Event) : (s.step e).1.assignedId = s.assignedId := by
  cases e with
  | sendf msg => exact consoleSendf_assignedId s msg
  | notify => rfl
  | task rets =>
      rcases s.canserialTxTask_cases rets with h | ⟨-, h⟩ | ⟨-, h⟩ <;> rw [step, h]

theorem step_sound {s : CanTx} (h : s.Sound) (e : Event) : (s.step e).1.Sound := by
  cases e with
  | sendf msg =>
      rw [step]
      constructor
      · rw [consoleSendf_tx]
        exact (ConsoleTx.consoleSendf_pending h.wellFormed msg).2
      · rw [consoleSendf_tx]
        exact ConsoleTx.consoleSendf_pos _ _ _
  | notify => exact ⟨h.wellFormed, h.pos⟩
  | task rets =>
      rcases s.canserialTxTask_cases rets with htask | ⟨-, htask⟩ | ⟨-, htask⟩
      · rw [step, htask]
        exact h
      · rw [step, htask]
        exact ⟨⟨h.wellFormed.length, Nat.zero_le _⟩, le_rfl⟩
      · rw [step, htask]
        exact ⟨⟨h.wellFormed.length, h.wellFormed.range⟩,
          (s.tx.txLoop_spec s.assignedId rets h.pos).2.1⟩

/-- The packets of an event are on the outgoing id, and short. -/
theorem step_packets {s : CanTx} (h : s.Sound) (e : Event) :
    ∀ p ∈ (s.step e).2, p.id = s.assignedId + 1 ∧ p.data.length ≤ 8 := by
  cases e with
  | sendf msg => exact fun _ hp => absurd hp List.not_mem_nil
  | notify => exact fun _ hp => absurd hp List.not_mem_nil
  | task rets =>
      rw [step]
      rcases s.canserialTxTask_cases rets with htask | ⟨-, htask⟩ | ⟨-, htask⟩
      · rw [htask]
        exact fun _ hp => absurd hp List.not_mem_nil
      · rw [htask]
        exact fun _ hp => absurd hp List.not_mem_nil
      · rw [htask]
        exact (s.tx.txLoop_spec s.assignedId rets h.pos).2.2.2

/-- **The bytes of one event**: what goes out and what is pending afterwards are what was pending
and what is accepted, unless everything is thrown away as no id is assigned. -/
theorem step_bytes {s : CanTx} (h : s.Sound) (e : Event) :
    (s.step e).2.flatMap CanPacket.data ++ (s.step e).1.tx.pending =
        s.tx.pending ++ (s.accepts e).flatten ∨
      (s.assignedId = 0 ∧ (s.step e).2 = [] ∧ (s.step e).1.tx.pending = []) := by
  cases e with
  | sendf msg =>
      refine .inl ?_
      rw [step, accepts, consoleSendf_pending h]
      split_ifs
      · exact (List.append_nil _).symm
      · rw [List.flatten_singleton]
        rfl
  | notify => exact .inl (List.append_nil _).symm
  | task rets =>
      have hnone : s.accepts (.task rets) = [] := rfl
      rw [step, hnone, List.flatten_nil, List.append_nil]
      rcases s.canserialTxTask_cases rets with htask | ⟨hid, htask⟩ | ⟨-, htask⟩
      · rw [htask]
        exact .inl rfl
      · rw [htask]
        exact .inr ⟨hid, rfl, rfl⟩
      · rw [htask]
        exact .inl (s.tx.txLoop_spec s.assignedId rets h.pos).2.2.1

/-- Hardware that accepts everything empties the buffer. -/
theorem canserialTxTask_accepting {s : CanTx} (h : s.Sound) (hid : s.assignedId ≠ 0)
    (hwake : s.txWake = true) : (s.canserialTxTask (List.replicate 12 1)).1.tx.pending = [] := by
  have hrange := h.wellFormed.range
  have hloop : (s.tx.txLoop s.assignedId (List.replicate 12 1) s.tx.transmitPos).1 =
      s.tx.transmitMax :=
    s.tx.txLoop_accepting s.assignedId h.pos (by rw [canTransmitBufSize] at hrange; omega)
  rw [canserialTxTask, if_neg (by rw [hwake]; exact Bool.false_ne_true)]
  dsimp only
  rw [if_neg hid, ConsoleTx.pending]
  dsimp only
  rw [hloop]
  exact List.drop_eq_nil_of_le (List.length_take_le _ _)

/-- Without an id nothing is sent. -/
theorem step_none_of_zero {s : CanTx} (hid : s.assignedId = 0) (e : Event) : (s.step e).2 = [] := by
  cases e with
  | sendf msg => rfl
  | notify => rfl
  | task rets =>
      rw [step]
      rcases s.canserialTxTask_cases rets with htask | ⟨-, htask⟩ | ⟨hne, -⟩
      · rw [htask]
      · rw [htask]
      · exact absurd hid hne

end CanTx

/-- The transmit side of a device, with the messages accepted and the packets that went out. -/
structure CanLink where
  dev : CanTx
  accepted : List (List Byte)
  sent : List CanPacket

namespace CanLink

/-- A device with nothing to send that holds an id. -/
def init (id : Word) : CanLink := ⟨{ CanTx.boot with assignedId := id }, [], []⟩

/-- One event. -/
def step (s : CanLink) (e : CanTx.Event) : CanLink :=
  ⟨(s.dev.step e).1, s.accepted ++ s.dev.accepts e, s.sent ++ (s.dev.step e).2⟩

/-- A run of events. -/
def run (s : CanLink) (events : List CanTx.Event) : CanLink := events.foldl .step s

/-- What holds after every run. -/
structure Sound (id : Word) (s : CanLink) : Prop where
  assignedId : s.dev.assignedId = id
  dev : s.dev.Sound
  bytes : s.sent.flatMap CanPacket.data ++ s.dev.tx.pending = s.accepted.flatten
  packets : ∀ p ∈ s.sent, p.id = id + 1 ∧ p.data.length ≤ 8

theorem step_sound {id : Word} (hid : id ≠ 0) {s : CanLink} (h : s.Sound id) (e : CanTx.Event) :
    (s.step e).Sound id := by
  obtain ⟨rfl, hdev, hsent, hpackets⟩ := h
  have hbytes := (CanTx.step_bytes hdev e).resolve_right fun h => hid h.1
  have hnew := CanTx.step_packets hdev e
  refine ⟨CanTx.step_assignedId _ e, CanTx.step_sound hdev e, ?_, ?_⟩
  · rw [step, List.flatMap_append, List.append_assoc, hbytes, ← List.append_assoc, hsent,
      List.flatten_append]
  · intro p hp
    rcases List.mem_append.mp hp with hold | hlast
    · exact hpackets p hold
    · exact hnew p hlast

/-- **Every run on an assigned id is sound.** -/
theorem run_sound {id : Word} (hid : id ≠ 0) (events : List CanTx.Event) :
    ((init id).run events).Sound id := by
  induction events using List.reverseRecOn with
  | nil =>
      exact ⟨rfl, ⟨⟨rfl, Nat.zero_le _⟩, le_rfl⟩, rfl, fun _ hp => absurd hp List.not_mem_nil⟩
  | append_singleton events e ih =>
      rw [run, List.foldl_append]
      exact step_sound hid ih e

end CanLink

/-! ### USB -/

/-- `USB_CDC_EP_BULK_IN_SIZE` -/
def usbCdcEpBulkInSize : ℕ := 64

/-- `sizeof(transmit_buf)` of `generic/usb_cdc.c` -/
def usbTransmitBufSize : ℕ := 192

/-- `usb_send_bulk_in` on data of a given length: at most all of it is taken. -/
abbrev SendBulkIn := (len : ℕ) → { ret : ℤ // ret ≤ len }

/-- `usb_bulk_in_wake` and the transmit buffer of `generic/usb_cdc.c`. -/
structure UsbIn where
  bulkInWake : Bool
  tx : UsbTx
  deriving DecidableEq, Repr

namespace UsbIn

/-- After boot. -/
def boot : UsbIn := ⟨false, ⟨List.replicate usbTransmitBufSize 0, 0⟩⟩

/-- `usb_notify_bulk_in` -/
def usbNotifyBulkIn (s : UsbIn) : UsbIn := { s with bulkInWake := true }

/-- `console_sendf` returns early, as there is not enough space for the message. -/
def noSpace (s : UsbIn) (msg : List Byte) : Bool :=
  decide (usbTransmitBufSize < s.tx.transmitPos + msg.length)

/-- `console_sendf` -/
def consoleSendf (s : UsbIn) (msg : List Byte) : UsbIn :=
  let t := { s with tx := s.tx.consoleSendf usbTransmitBufSize msg }
  if s.noSpace msg then t else t.usbNotifyBulkIn

/-- `usb_bulk_in_task`, with the packet that goes out. -/
def usbBulkInTask (s : UsbIn) (usbSendBulkIn : SendBulkIn) : UsbIn × List (List Byte) :=
  if !s.bulkInWake then (s, [])
  else
    let s := { s with bulkInWake := false }
    let tpos := s.tx.transmitPos
    if tpos = 0 then (s, [])
    else
      let maxTpos := if usbCdcEpBulkInSize < tpos then usbCdcEpBulkInSize else tpos
      let ret := (usbSendBulkIn maxTpos).val
      if ret ≤ 0 then (s, [])
      else
        let needcopy := tpos - ret.toNat
        let packet := s.tx.transmitBuf.take ret.toNat
        if needcopy ≠ 0 then
          (⟨true, ⟨overwrite s.tx.transmitBuf 0 ((s.tx.transmitBuf.drop ret.toNat).take needcopy),
            needcopy⟩⟩, [packet])
        else ({ s with tx := { s.tx with transmitPos := needcopy } }, [packet])

/-- What happens on the transmit side. -/
inductive Event
  | sendf (msg : List Byte)
  | notify
  | task (usbSendBulkIn : SendBulkIn)

/-- One event, with the packets that go out. -/
def step (s : UsbIn) : Event → UsbIn × List (List Byte)
  | .sendf msg => (s.consoleSendf msg, [])
  | .notify => (s.usbNotifyBulkIn, [])
  | .task usbSendBulkIn => s.usbBulkInTask usbSendBulkIn

/-- The messages that are accepted in an event. -/
def accepts (s : UsbIn) : Event → List (List Byte)
  | .sendf msg => if s.noSpace msg then [] else [msg]
  | _ => []

/-- The message is queued whole, or it is refused and nothing happens. -/
theorem consoleSendf_pending {s : UsbIn} (h : s.tx.WellFormed usbTransmitBufSize)
    (msg : List Byte) :
    (s.consoleSendf msg).tx.pending =
        (if s.noSpace msg then s.tx.pending else s.tx.pending ++ msg) ∧
      (s.consoleSendf msg).tx.WellFormed usbTransmitBufSize ∧
      (s.noSpace msg = true ↔ usbTransmitBufSize < s.tx.pending.length + msg.length) := by
  have htx : (s.consoleSendf msg).tx = s.tx.consoleSendf usbTransmitBufSize msg := by
    rw [consoleSendf]
    split_ifs <;> rfl
  have hlen : s.tx.pending.length = s.tx.transmitPos := by
    rw [UsbTx.pending, List.length_take, h.length]
    exact Nat.min_eq_left h.range
  have hspace : s.noSpace msg = true ↔ usbTransmitBufSize < s.tx.pending.length + msg.length := by
    rw [noSpace, decide_eq_true_eq, hlen]
  obtain ⟨hpending, hwell⟩ := UsbTx.consoleSendf_pending h msg
  rw [htx, hpending]
  refine ⟨?_, hwell, hspace⟩
  by_cases hfull : usbTransmitBufSize < s.tx.pending.length + msg.length
  · rw [if_neg (by omega), if_pos (hspace.mpr hfull)]
  · rw [if_pos (by omega), if_neg fun hno => hfull (hspace.mp hno)]

/-- **One run of the task** sends the front of what is pending. -/
theorem usbBulkInTask_sound {s : UsbIn} (h : s.tx.WellFormed usbTransmitBufSize)
    (usbSendBulkIn : SendBulkIn) :
    (s.usbBulkInTask usbSendBulkIn).2.flatten ++ (s.usbBulkInTask usbSendBulkIn).1.tx.pending =
        s.tx.pending ∧
      (∀ p ∈ (s.usbBulkInTask usbSendBulkIn).2, p.length ≤ usbCdcEpBulkInSize) ∧
      (s.usbBulkInTask usbSendBulkIn).1.tx.WellFormed usbTransmitBufSize := by
  obtain ⟨wake, buf, tpos⟩ := s
  have hlen : buf.length = usbTransmitBufSize := h.length
  have hrange : tpos ≤ usbTransmitBufSize := h.range
  rw [usbBulkInTask]
  dsimp only
  by_cases hwake : (!wake) = true
  · rw [if_pos hwake]
    exact ⟨rfl, fun _ hp => absurd hp List.not_mem_nil, h⟩
  rw [if_neg hwake]
  by_cases hnothing : tpos = 0
  · rw [if_pos hnothing]
    exact ⟨rfl, fun _ hp => absurd hp List.not_mem_nil, h⟩
  rw [if_neg hnothing]
  obtain ⟨maxTpos, hmax⟩ : ∃ maxTpos, (if usbCdcEpBulkInSize < tpos then usbCdcEpBulkInSize
      else tpos) = maxTpos := ⟨_, rfl⟩
  have hbound : maxTpos ≤ usbCdcEpBulkInSize ∧ maxTpos ≤ tpos := by
    rw [← hmax]
    split_ifs <;> omega
  rw [hmax]
  obtain ⟨ret, hret⟩ := usbSendBulkIn maxTpos
  dsimp only
  by_cases hrefused : ret ≤ 0
  · rw [if_pos hrefused]
    exact ⟨rfl, fun _ hp => absurd hp List.not_mem_nil, h⟩
  rw [if_neg hrefused]
  obtain ⟨k, rfl⟩ : ∃ k : ℕ, ret = k := ⟨ret.toNat, by omega⟩
  have hk : k ≤ maxTpos := by exact_mod_cast hret
  rw [Int.toNat_natCast]
  have hpacket : ∀ p ∈ [buf.take k], p.length ≤ usbCdcEpBulkInSize := by
    intro p hp
    rw [List.mem_singleton.mp hp]
    exact (List.length_take_le _ _).trans (hk.trans hbound.1)
  have hfront : buf.take tpos = buf.take k ++ (buf.drop k).take (tpos - k) := by
    rw [← List.take_append_drop k (buf.take tpos), List.take_take, Nat.min_eq_left (by omega),
      List.drop_take]
  by_cases hmore : tpos - k ≠ 0
  · have hmoved : ((buf.drop k).take (tpos - k)).length = tpos - k := by
      rw [List.length_take, List.length_drop]
      omega
    rw [if_pos hmore]
    refine ⟨?_, hpacket, ?_, ?_⟩
    · have hend : 0 + ((buf.drop k).take (tpos - k)).length ≤ buf.length := by omega
      have htake := overwrite_take_end hend
      rw [Nat.zero_add, hmoved, List.take_zero, List.nil_append] at htake
      rw [List.flatten_singleton, UsbTx.pending, UsbTx.pending, htake, hfront]
    · exact (overwrite_length (by omega)).trans hlen
    · exact (Nat.sub_le _ _).trans hrange
  · rw [if_neg hmore]
    refine ⟨?_, hpacket, hlen, ?_⟩
    · have hall : tpos = k := by omega
      rw [List.flatten_singleton, UsbTx.pending, UsbTx.pending, hall, Nat.sub_self, List.take_zero,
        List.append_nil]
    · exact (Nat.sub_le _ _).trans hrange

end UsbIn

/-- The transmit side of a device, with the messages accepted and the packets that went out. -/
structure UsbLink where
  dev : UsbIn
  accepted : List (List Byte)
  sent : List (List Byte)

namespace UsbLink

/-- A device with nothing to send. -/
def init : UsbLink := ⟨.boot, [], []⟩

/-- One event. -/
def step (s : UsbLink) (e : UsbIn.Event) : UsbLink :=
  ⟨(s.dev.step e).1, s.accepted ++ s.dev.accepts e, s.sent ++ (s.dev.step e).2⟩

/-- A run of events. -/
def run (s : UsbLink) (events : List UsbIn.Event) : UsbLink := events.foldl .step s

/-- What holds after every run. -/
structure Sound (s : UsbLink) : Prop where
  wellFormed : s.dev.tx.WellFormed usbTransmitBufSize
  bytes : s.sent.flatten ++ s.dev.tx.pending = s.accepted.flatten
  packets : ∀ p ∈ s.sent, p.length ≤ usbCdcEpBulkInSize

theorem step_sound {s : UsbLink} (h : s.Sound) (e : UsbIn.Event) : (s.step e).Sound := by
  obtain ⟨hwell, hsent, hpackets⟩ := h
  cases e with
  | sendf msg =>
      obtain ⟨hpending, hstill, -⟩ := UsbIn.consoleSendf_pending hwell msg
      have hpacket : (s.step (.sendf msg)).sent = s.sent := List.append_nil _
      have hdev : (s.step (.sendf msg)).dev = s.dev.consoleSendf msg := rfl
      refine ⟨hstill, ?_, fun p hp => hpackets p (by rwa [hpacket] at hp)⟩
      rw [hpacket, hdev, hpending, step, UsbIn.accepts, List.flatten_append]
      split_ifs
      · rw [hsent, List.flatten_nil, List.append_nil]
      · rw [← List.append_assoc, hsent, List.flatten_singleton]
  | notify =>
      have hpacket : (s.step .notify).sent = s.sent := List.append_nil _
      have haccept : (s.step .notify).accepted = s.accepted := List.append_nil _
      refine ⟨hwell, ?_, fun p hp => hpackets p (by rwa [hpacket] at hp)⟩
      rw [hpacket, haccept]
      exact hsent
  | task usbSendBulkIn =>
      obtain ⟨hbytes, hnew, hstill⟩ := UsbIn.usbBulkInTask_sound hwell usbSendBulkIn
      have haccept : (s.step (.task usbSendBulkIn)).accepted = s.accepted := List.append_nil _
      refine ⟨hstill, ?_, fun p hp => ?_⟩
      · rw [haccept, ← hsent, ← hbytes, ← List.append_assoc, ← List.flatten_append]
        rfl
      · rcases List.mem_append.mp hp with hold | hlast
        · exact hpackets p hold
        · exact hnew p hlast

/-- **Every run is sound.** -/
theorem run_sound (events : List UsbIn.Event) : (init.run events).Sound := by
  induction events using List.reverseRecOn with
  | nil => exact ⟨⟨rfl, Nat.zero_le _⟩, rfl, fun _ hp => absurd hp List.not_mem_nil⟩
  | append_singleton events e ih =>
      rw [run, List.foldl_append]
      exact step_sound ih e

end UsbLink

/-! ### Both queues -/

/-- **The transmit queues lose, repeat and reorder nothing.** After every run of `console_sendf`,
of the tasks and of the hardware's notifications, on CAN with an id assigned: the packets that the
hardware has taken, followed by what is pending, are the accepted messages in order; a CAN packet
is on the outgoing id and has at most 8 bytes, a USB packet at most 64; the positions of the CAN
buffer are in order and in range; and the next message will be queued whole, or be refused because
it does not fit behind what is pending. -/
theorem transmit_queues_sound {id : Word} (hid : id ≠ 0) (events : List CanTx.Event)
    (usbEvents : List UsbIn.Event) {s : CanLink} (hs : (CanLink.init id).run events = s)
    {u : UsbLink} (hu : UsbLink.init.run usbEvents = u) :
    (s.sent.flatMap CanPacket.data ++ s.dev.tx.pending = s.accepted.flatten ∧
      (∀ p ∈ s.sent, p.id = id + 1 ∧ p.data.length ≤ 8) ∧
      (s.dev.tx.transmitPos ≤ s.dev.tx.transmitMax ∧ s.dev.tx.transmitMax ≤ canTransmitBufSize) ∧
      ∀ msg, ((s.dev.accepts (.sendf msg) = [msg] ∧
            (s.dev.consoleSendf msg).tx.pending = s.dev.tx.pending ++ msg) ∨
          (s.dev.accepts (.sendf msg) = [] ∧
            (s.dev.consoleSendf msg).tx.pending = s.dev.tx.pending)) ∧
        (s.dev.accepts (.sendf msg) = [] ↔
          canTransmitBufSize < s.dev.tx.pending.length + msg.length)) ∧
    (u.sent.flatten ++ u.dev.tx.pending = u.accepted.flatten ∧
      (∀ p ∈ u.sent, p.length ≤ 64) ∧
      ∀ msg, ((u.dev.accepts (.sendf msg) = [msg] ∧
            (u.dev.consoleSendf msg).tx.pending = u.dev.tx.pending ++ msg) ∨
          (u.dev.accepts (.sendf msg) = [] ∧
            (u.dev.consoleSendf msg).tx.pending = u.dev.tx.pending)) ∧
        (u.dev.accepts (.sendf msg) = [] ↔
          usbTransmitBufSize < u.dev.tx.pending.length + msg.length)) := by
  have hcan := CanLink.run_sound hid events
  have husb := UsbLink.run_sound usbEvents
  rw [hs] at hcan
  rw [hu] at husb
  refine ⟨⟨hcan.bytes, hcan.packets, ⟨hcan.dev.pos, hcan.dev.wellFormed.range⟩, fun msg => ?_⟩,
    husb.bytes, husb.packets, fun msg => ?_⟩
  · rw [CanTx.accepts, CanTx.consoleSendf_pending hcan.dev,
      ← ConsoleTx.noSpace_iff hcan.dev.wellFormed msg]
    cases s.dev.tx.noSpace canTransmitBufSize msg with
    | true => exact ⟨.inr ⟨rfl, rfl⟩, iff_of_true rfl rfl⟩
    | false => exact ⟨.inl ⟨rfl, rfl⟩, iff_of_false nofun nofun⟩
  · obtain ⟨hpending, -, hspace⟩ := UsbIn.consoleSendf_pending husb.wellFormed msg
    rw [UsbIn.accepts, hpending, ← hspace]
    cases u.dev.noSpace msg with
    | true => exact ⟨.inr ⟨rfl, rfl⟩, iff_of_true rfl rfl⟩
    | false => exact ⟨.inl ⟨rfl, rfl⟩, iff_of_false nofun nofun⟩

/-- A response of 80 bytes, three packets of which the bus takes before another is queued. -/
theorem transmit_queues_sound_busy :
    ∃ s, (CanLink.init 0x40).run [.sendf (List.replicate 80 0xa0), .task [1, 8, 1, -1],
        .sendf (List.replicate 40 0xb0), .notify, .task [1]] = s ∧
      s.sent.flatMap CanPacket.data ++ s.dev.tx.pending =
        List.replicate 80 0xa0 ++ List.replicate 40 0xb0 := by
  refine ⟨_, rfl, (transmit_queues_sound (show (0x40 : Word) ≠ 0 by decide) _ [] rfl rfl).1.1.trans ?_⟩
  decide +kernel

end Terraboot
