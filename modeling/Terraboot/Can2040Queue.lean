import Terraboot.Can2040Process
import Terraboot.RingLog

/-!
# The Transmit Queue

`can2040_transmit` and the interrupt handler share a queue of four messages without a lock. The
handler hands the oldest message to the state machine that drives the line, takes the echo of it for
a confirmation, and removes it; it hands the message over again if that has failed. This module shows
that the two sides keep the queue in order, however the steps of a call fall between those of the
handler.

## Main results

* `SendInv.senderStep`: the caller's side keeps the queue in order.
* `SendInv.txScheduleTransmit`: so does the handler's side, whatever the caller does in between.
* `txScheduleTransmit_snd`: a message is handed over unless there is none.
-/

namespace Terraboot.Can2040

/-! ### Positions -/

theorem txQpos_ofNat (k : ℕ) : txQpos (BitVec.ofNat 32 k) = Fin.ofNat 4 k := by
  refine Fin.ext ?_
  change (BitVec.ofNat 32 k).toNat % 4 = k % 4
  rw [BitVec.toNat_ofNat]
  exact Nat.mod_mod_of_dvd k (by decide)

theorem ofNat_sub_toNat {lo hi : ℕ} (hle : lo ≤ hi) (hroom : hi ≤ lo + 4) :
    (BitVec.ofNat 32 hi - BitVec.ofNat 32 lo).toNat = hi - lo := by
  obtain ⟨d, rfl⟩ := Nat.exists_eq_add_of_le hle
  have hsmall : d < 2 ^ 32 := by omega
  rw [BitVec.ofNat_add, BitVec.add_comm, BitVec.add_sub_cancel, BitVec.toNat_ofNat,
    Nat.add_sub_cancel_left]
  exact Nat.mod_eq_of_lt hsmall

theorem ofNat_eq_ofNat_iff {lo hi : ℕ} (hle : lo ≤ hi) (hroom : hi ≤ lo + 4) :
    BitVec.ofNat 32 hi = BitVec.ofNat 32 lo ↔ hi = lo := by
  refine ⟨fun heq => ?_, fun heq => heq ▸ rfl⟩
  have hsub := ofNat_sub_toNat hle hroom
  rw [heq, BitVec.sub_self] at hsub
  have hzero : hi - lo = 0 := hsub.symm
  omega

/-! ### The queue -/

/-- The messages that have been reported as sent. -/
def Notify.confirmed : Notify → Option CanbusMsg
  | .tx msg => some msg
  | _ => none

/-- The slot of the oldest message. -/
def oldest (cd : State) : Transmit := cd.txQueue (txQpos cd.txPullPos)

/-- The queue next to the messages accepted so far, of which the first `lo` have been confirmed. -/
structure QueueInv (cd : State) (log : List Transmit) (lo hi : ℕ) : Prop where
  ring : RingLog cd.txQueue log lo hi
  pull : cd.txPullPos = BitVec.ofNat 32 lo
  push : cd.txPushPos = BitVec.ofNat 32 hi
  accepted : List.Forall₂ (fun msg t => encode msg = some t) cd.accepted log
  confirmed : cd.calls.filterMap Notify.confirmed = (log.take lo).map Transmit.msg
  filled : ∀ msg, cd.sender = .filled msg →
    hi < lo + 4 ∧ encode msg = some (cd.txQueue (Fin.ofNat 4 hi))

namespace QueueInv

variable {cd : State} {log : List Transmit} {lo hi : ℕ}

theorem oldest_eq (h : QueueInv cd log lo hi) : oldest cd = cd.txQueue (Fin.ofNat 4 lo) := by
  rw [oldest, h.pull, txQpos_ofNat]

theorem pending_iff (h : QueueInv cd log lo hi) : cd.txPushPos ≠ cd.txPullPos ↔ lo < hi := by
  have hle := h.ring.le
  rw [h.push, h.pull, ne_eq, ofNat_eq_ofNat_iff hle h.ring.room]
  omega

theorem checkTransmit_iff (h : QueueInv cd log lo hi) :
    checkTransmit cd = true ↔ hi < lo + 4 := by
  have hle := h.ring.le
  rw [checkTransmit, h.push, h.pull, ofNat_sub_toNat hle h.ring.room, decide_eq_true_eq]
  omega

end QueueInv

/-- What the caller writes is not in the slot of the oldest message. -/
theorem QueueInv.oldest_transmitFill {cd : State} {log : List Transmit} {lo hi : ℕ}
    (h : QueueInv cd log lo hi) (hpending : lo < hi) (msg : CanbusMsg) :
    oldest (transmitFill cd msg) = oldest cd := by
  rw [transmitFill]
  split_ifs with hroom
  · have hlt := h.checkTransmit_iff.mp hroom
    split
    · rw [oldest, oldest, h.pull, h.push, txQpos_ofNat, txQpos_ofNat]
      exact RingLog.update_front hpending hlt _
    · rfl
  · rfl

/-- The queue is not empty once a message has been submitted. -/
theorem QueueInv.submit_ne {cd : State} {log : List Transmit} {lo hi : ℕ}
    (h : QueueInv cd log lo hi) {msg : CanbusMsg} (hfilled : cd.sender = .filled msg) :
    cd.txPushPos + 1 ≠ cd.txPullPos := by
  obtain ⟨hlt, -⟩ := h.filled msg hfilled
  have hle := h.ring.le
  have hpush : cd.txPushPos + 1 = BitVec.ofNat 32 (hi + 1) := by
    rw [h.push, BitVec.ofNat_add]
    rfl
  rw [hpush, h.pull, ne_eq, ofNat_eq_ofNat_iff (by omega) (by omega)]
  omega

/-- What holds of the queue, the transmission and the wake-up flag together. -/
structure SendInv (cd : State) : Prop where
  queue : ∃ log lo hi, QueueInv cd log lo hi
  sent : cd.txState = .queued → cd.txPushPos ≠ cd.txPullPos ∧
    (cd.pio.tx = .reset ∨ cd.pio.tx = .send ((oldest cd).stuffedData.take (oldest cd).stuffedWords))
  flag : cd.txPushPos ≠ cd.txPullPos → cd.pio.txpending = true ∨ cd.sender = .submitted

/-! ### `can2040_transmit` -/

theorem SendInv.transmitFill {cd : State} (h : SendInv cd) (hidle : cd.sender = .idle)
    (msg : CanbusMsg) : SendInv (transmitFill cd msg) := by
  rw [Can2040.transmitFill]
  by_cases hroom : checkTransmit cd = true
  · rw [if_pos hroom]
    obtain ⟨t, ht, -⟩ := encode_wire msg
    obtain ⟨log, lo, hi, hq⟩ := h.queue
    have hlt := hq.checkTransmit_iff.mp hroom
    have hpos : txQpos cd.txPushPos = Fin.ofNat 4 hi := by rw [hq.push, txQpos_ofNat]
    rw [ht, hpos]
    refine ⟨⟨log, lo, hi, hq.ring.fill hlt t, hq.pull, hq.push, hq.accepted, hq.confirmed, ?_⟩,
      ?_, ?_⟩
    · intro msg' hmsg
      obtain rfl : msg = msg' := Sender.filled.inj hmsg
      refine ⟨hlt, ht.trans (congrArg some ?_)⟩
      exact (Function.update_self (Fin.ofNat 4 hi) t cd.txQueue).symm
    · intro hqueued
      obtain ⟨hpending, htx⟩ := h.sent hqueued
      have hfront := hq.oldest_transmitFill (hq.pending_iff.mp hpending) msg
      rw [Can2040.transmitFill, if_pos hroom, ht, hpos] at hfront
      refine ⟨hpending, ?_⟩
      rw [hfront]
      exact htx
    · intro hpending
      have hflag := h.flag hpending
      rw [hidle] at hflag
      exact .inl (hflag.resolve_right (by simp))
  · rw [if_neg hroom]
    exact h

theorem SendInv.transmitSubmit {cd : State} (h : SendInv cd) {msg : CanbusMsg}
    (hfilled : cd.sender = .filled msg) : SendInv (transmitSubmit cd msg) := by
  obtain ⟨log, lo, hi, hq⟩ := h.queue
  obtain ⟨hlt, hslot⟩ := hq.filled msg hfilled
  have hring := hq.ring.submit hlt
  have hle := hq.ring.le
  have hpush : cd.txPushPos + 1 = BitVec.ofNat 32 (hi + 1) := by
    rw [hq.push, BitVec.ofNat_add]
    rfl
  refine ⟨⟨log ++ [cd.txQueue (Fin.ofNat 4 hi)], lo, hi + 1, hring, hq.pull, hpush, ?_, ?_, ?_⟩,
    ?_, fun _ => .inr rfl⟩
  · exact List.rel_append hq.accepted (.cons hslot .nil)
  · rw [List.take_append_of_le_length (by rw [hq.ring.length]; exact hle)]
    exact hq.confirmed
  · rintro msg' ⟨⟩
  · exact fun hqueued => ⟨hq.submit_ne hfilled, (h.sent hqueued).2⟩

theorem SendInv.transmitWake {cd : State} (h : SendInv cd) : SendInv (transmitWake cd) := by
  obtain ⟨log, lo, hi, hq⟩ := h.queue
  refine ⟨⟨log, lo, hi, hq.ring, hq.pull, hq.push, hq.accepted, hq.confirmed, ?_⟩, h.sent,
    fun _ => .inl rfl⟩
  rintro msg ⟨⟩

/-- **The caller's side** keeps the queue in order. -/
theorem SendInv.senderStep {cd : State} (h : SendInv cd) (s : SenderStep) :
    SendInv (senderStep cd s) := by
  unfold Can2040.senderStep
  split
  · exact h.transmitFill ‹_› _
  · exact h.transmitSubmit ‹_›
  · exact h.transmitWake
  · exact h

/-! ### What the two sides do not touch -/

/-- The parser's part of the state. -/
structure Parser where
  unstuf : Unstuf
  rawBitCount : Word
  parseState : ParseState
  parseCrc : Word
  parseCrcBits : Word
  parseCrcPos : Word
  parseMsg : CanbusMsg
  rxStall : Bool

/-- The part of the state that has nothing to do with the transmission. -/
structure Receiver where
  parser : Parser
  reportState : ReportState
  txPullPos : Word
  inte0 : Irqs
  calls : List Notify

/-- The parser's part of a state. -/
def State.parser (cd : State) : Parser where
  unstuf := cd.unstuf
  rawBitCount := cd.rawBitCount
  parseState := cd.parseState
  parseCrc := cd.parseCrc
  parseCrcBits := cd.parseCrcBits
  parseCrcPos := cd.parseCrcPos
  parseMsg := cd.parseMsg
  rxStall := cd.pio.rxStall

/-- The receiver's part of a state. -/
def State.receiver (cd : State) : Receiver where
  parser := cd.parser
  reportState := cd.reportState
  txPullPos := cd.txPullPos
  inte0 := cd.pio.inte0
  calls := cd.calls

/-- Only the slot is filled, if anything is done at all. -/
theorem transmitFill_eq (cd : State) (msg : CanbusMsg) :
    ∃ txQueue sender, transmitFill cd msg = { cd with txQueue, sender } := by
  rw [transmitFill]
  split_ifs
  · split
    · exact ⟨_, _, rfl⟩
    · exact ⟨_, _, rfl⟩
  · exact ⟨_, _, rfl⟩

/-- The oldest message stays the oldest while the caller adds others. -/
theorem QueueInv.oldest_senderStep {cd : State} {log : List Transmit} {lo hi : ℕ}
    (h : QueueInv cd log lo hi) (hpending : cd.txPushPos ≠ cd.txPullPos) (s : SenderStep) :
    (senderStep cd s).txPushPos ≠ (senderStep cd s).txPullPos ∧
      oldest (senderStep cd s) = oldest cd := by
  have hlt := h.pending_iff.mp hpending
  unfold senderStep
  split
  · have holdest := h.oldest_transmitFill hlt ‹_›
    obtain ⟨_, _, hfill⟩ := transmitFill_eq cd ‹_›
    rw [hfill] at holdest ⊢
    exact ⟨hpending, holdest⟩
  · exact ⟨h.submit_ne ‹_›, rfl⟩
  · exact ⟨hpending, rfl⟩
  · exact ⟨hpending, rfl⟩

theorem senderStep_receiver (cd : State) (s : SenderStep) :
    (senderStep cd s).receiver = cd.receiver := by
  unfold senderStep
  split
  · obtain ⟨_, _, hfill⟩ := transmitFill_eq cd ‹_›
    rw [hfill]
    rfl
  · rfl
  · rfl
  · rfl

theorem senderStep_txState (cd : State) (s : SenderStep) :
    (senderStep cd s).txState = cd.txState := by
  unfold senderStep
  split
  · obtain ⟨_, _, hfill⟩ := transmitFill_eq cd ‹_›
    rw [hfill]
  · rfl
  · rfl
  · rfl

section

variable (window : List SenderStep) (cd : State)

theorem window_receiver : (window.foldl senderStep cd).receiver = cd.receiver := by
  induction window generalizing cd with
  | nil => rfl
  | cons s window ih => exact (ih _).trans (senderStep_receiver cd s)

theorem window_txState : (window.foldl senderStep cd).txState = cd.txState := by
  induction window generalizing cd with
  | nil => rfl
  | cons s window ih => exact (ih _).trans (senderStep_txState cd s)

/-- The handler's side leaves the receiver alone. -/
theorem txScheduleTransmit_receiver :
    (txScheduleTransmit (window.foldl senderStep ·) cd).1.receiver = cd.receiver := by
  have hwindow := window_receiver window
    (pioSignalClearTxpending { cd with txState := .idle })
  rw [txScheduleTransmit]
  dsimp only
  split_ifs
  · rfl
  · exact hwindow
  · exact hwindow
  · rfl

/-- **A message is handed over unless there is none.** -/
theorem txScheduleTransmit_snd : (txScheduleTransmit (window.foldl senderStep ·) cd).2 =
    decide ((txScheduleTransmit (window.foldl senderStep ·) cd).1.txState ≠ .queued) := by
  have hidle := window_txState window (pioSignalClearTxpending { cd with txState := .idle })
  rw [txScheduleTransmit]
  dsimp only
  split_ifs with hqueued
  · exact (decide_eq_false fun h => h hqueued.1).symm
  · refine (decide_eq_true ?_).symm
    rw [hidle]
    intro h
    cases h
  · rfl
  · rfl

end

theorem SendInv.window {cd : State} (h : SendInv cd) (window : List SenderStep) :
    SendInv (window.foldl Can2040.senderStep cd) := by
  induction window generalizing cd with
  | nil => exact h
  | cons s window ih => exact ih (h.senderStep s)

/-! ### The interrupt handler -/

/-- The oldest message is handed over. -/
theorem SendInv.txStart {cd : State} (h : SendInv cd) (hpending : cd.txPushPos ≠ cd.txPullPos) :
    SendInv (txStart cd cd.txPullPos) := by
  obtain ⟨log, lo, hi, hq⟩ := h.queue
  exact ⟨⟨log, lo, hi, hq.ring, hq.pull, hq.push, hq.accepted, hq.confirmed, hq.filled⟩,
    fun _ => ⟨hpending, .inr rfl⟩, h.flag⟩

/-- **The handler's side** keeps the queue in order, whatever the caller does in between. -/
theorem SendInv.txScheduleTransmit {cd : State} (h : SendInv cd) (window : List SenderStep) :
    SendInv (txScheduleTransmit (window.foldl Can2040.senderStep ·) cd).1 := by
  rw [Can2040.txScheduleTransmit]
  dsimp only
  by_cases hqueued : cd.txState = .queued ∧ cd.pio.txDidFail = false
  · rw [if_pos hqueued]
    exact h
  · rw [if_neg hqueued]
    by_cases hnone : cd.txPushPos = cd.txPullPos
    · -- the flag goes down before the second look, so a caller that comes later raises it again
      have hclear : SendInv (pioSignalClearTxpending { cd with txState := .idle }) := by
        obtain ⟨log, lo, hi, hq⟩ := h.queue
        exact ⟨⟨log, lo, hi, hq.ring, hq.pull, hq.push, hq.accepted, hq.confirmed, hq.filled⟩,
          fun hidle => (by cases hidle), fun hpending => absurd hnone hpending⟩
      have hwindow := hclear.window window
      obtain ⟨cd', hcd'⟩ : ∃ cd', window.foldl Can2040.senderStep
          (pioSignalClearTxpending { cd with txState := .idle }) = cd' := ⟨_, rfl⟩
      have hpull : cd'.txPullPos = cd.txPullPos := by
        rw [← hcd']
        exact congrArg Receiver.txPullPos (window_receiver window _)
      rw [hcd'] at hwindow ⊢
      rw [if_pos hnone]
      by_cases hstill : cd'.txPushPos = cd.txPullPos
      · rw [if_pos hstill]
        exact hwindow
      · rw [if_neg hstill]
        obtain ⟨log, lo, hi, hq⟩ := hwindow.queue
        have hset : SendInv (pioSignalSetTxpending cd') :=
          ⟨⟨log, lo, hi, hq.ring, hq.pull, hq.push, hq.accepted, hq.confirmed, hq.filled⟩,
            hwindow.sent, fun _ => .inl rfl⟩
        have hstart := hset.txStart (show cd'.txPushPos ≠ cd'.txPullPos from hpull ▸ hstill)
        rw [← hpull]
        exact hstart
    · rw [if_neg hnone]
      exact h.txStart hnone

/-- What the queue does not depend on. -/
theorem SendInv.congr {cd cd' : State} (h : SendInv cd) (hqueue : cd'.txQueue = cd.txQueue)
    (hpull : cd'.txPullPos = cd.txPullPos) (hpush : cd'.txPushPos = cd.txPushPos)
    (haccepted : cd'.accepted = cd.accepted) (hsender : cd'.sender = cd.sender)
    (hcalls : cd'.calls.filterMap Notify.confirmed = cd.calls.filterMap Notify.confirmed)
    (hstate : cd'.txState = .queued → cd.txState = .queued)
    (htx : cd'.txState = .queued → cd'.pio.tx = cd.pio.tx ∨ cd'.pio.tx = .reset)
    (hflag : cd.pio.txpending = true → cd'.pio.txpending = true) : SendInv cd' := by
  obtain ⟨log, lo, hi, hq⟩ := h.queue
  have holdest : oldest cd' = oldest cd := by rw [oldest, oldest, hqueue, hpull]
  refine ⟨⟨log, lo, hi, hqueue ▸ hq.ring, hpull.trans hq.pull, hpush.trans hq.push,
    haccepted ▸ hq.accepted, hcalls.trans hq.confirmed, ?_⟩, fun hqueued => ?_, fun hpending => ?_⟩
  · rw [hqueue, hsender]
    exact hq.filled
  · obtain ⟨hpending, hsent⟩ := h.sent (hstate hqueued)
    rw [hpush, hpull, holdest]
    refine ⟨hpending, ?_⟩
    rcases htx hqueued with htx | htx
    · rwa [htx]
    · exact .inl htx
  · rw [hpush, hpull] at hpending
    rw [hsender]
    exact (h.flag hpending).imp_left hflag

end Terraboot.Can2040
