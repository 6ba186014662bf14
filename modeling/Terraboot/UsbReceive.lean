import Mathlib.Logic.Function.Iterate
import Terraboot.ReceiveLoop

/-!
# Receiving over USB

`usb_bulk_out_task` of `generic/usb_cdc.c`: the receive buffer holds 128 bytes, and a
packet is taken from the hardware only while 64 bytes are free. The hardware keeps the
packets that have arrived, and their arrival wakes the task.

## Main results

* `UsbState.run_good`: over every run, the receiver tracks the bytes it has read, and the
  task is awake while a packet waits.
* `usbBulkOutTask_reads_iff`: a waiting packet is read at last exactly if at most 64 bytes
  of what was read before are still pending.
-/

open StreamScanner

namespace Terraboot

def usbCdcEpBulkOutSize : ℕ := 64

/-- `sizeof(receive_buf)` -/
def usbReceiveBufSize : ℕ := 128

/-- A packet of the host. -/
abbrev Packet := { p : List Byte // 0 < p.length ∧ p.length ≤ usbCdcEpBulkOutSize }

/-- The receive side of the USB transport: the receiver, the task's wake flag, the packets
that wait in the hardware, and the bytes read from it so far. -/
structure UsbState where
  rx : RxState
  wake : Bool
  waiting : List Packet
  stream : List Byte
  deriving DecidableEq

/-- The state after the host has configured the device. -/
def UsbState.init : UsbState := ⟨.init, true, [], []⟩

/-- `usb_read_bulk_out`, and the wake-up after a successful read. -/
def UsbState.readBulkOut (u : UsbState) : UsbState :=
  match u.waiting with
  | [] => u
  | p :: ps => ⟨u.rx.receive p.val, true, ps, u.stream ++ p.val⟩

/-- `usb_bulk_out_task` -/
def usbBulkOutTask (u : UsbState) : UsbState :=
  if !u.wake then u
  else
    let u := { u with wake := false }
    let u :=
      if u.rx.receiveBuf.length + usbCdcEpBulkOutSize ≤ usbReceiveBufSize then u.readBulkOut
      else { u with wake := true }
    let r := consoleTask u.rx
    { u with rx := r.2, wake := u.wake || (r.1 != 0 && !r.2.receiveBuf.isEmpty) }

/-- A packet arrives, or the task runs. -/
inductive UsbEvent
  | packet (p : Packet)
  | task

/-- One event. -/
def UsbState.step (u : UsbState) : UsbEvent → UsbState
  | .packet p => { u with waiting := u.waiting ++ [p], wake := true }
  | .task => usbBulkOutTask u

/-- A run of events. -/
def UsbState.run (u : UsbState) (events : List UsbEvent) : UsbState := events.foldl .step u

/-! ### The two ways a run of the task can begin -/

/-- With room for a packet, a waiting packet is read. -/
theorem usbBulkOutTask_of_room {u : UsbState} {p : Packet} {ps : List Packet}
    (hwake : u.wake = true) (hwaiting : u.waiting = p :: ps)
    (hroom : u.rx.receiveBuf.length ≤ 64) :
    usbBulkOutTask u =
      ⟨(consoleTask (u.rx.receive p.val)).2, true, ps, u.stream ++ p.val⟩ := by
  have hfits : u.rx.receiveBuf.length + usbCdcEpBulkOutSize ≤ usbReceiveBufSize := by
    rw [usbCdcEpBulkOutSize, usbReceiveBufSize]
    omega
  rw [usbBulkOutTask, hwake]
  simp [hfits, UsbState.readBulkOut, hwaiting]

/-- Without, the buffer is processed and the task runs again. -/
theorem usbBulkOutTask_of_full {u : UsbState} (hwake : u.wake = true)
    (hfull : 64 < u.rx.receiveBuf.length) :
    usbBulkOutTask u = ⟨(consoleTask u.rx).2, true, u.waiting, u.stream⟩ := by
  have hfits : ¬u.rx.receiveBuf.length + usbCdcEpBulkOutSize ≤ usbReceiveBufSize := by
    rw [usbCdcEpBulkOutSize, usbReceiveBufSize]
    omega
  rw [usbBulkOutTask, hwake]
  simp [hfits]

/-- With nothing to read, only the buffer is processed. -/
theorem usbBulkOutTask_of_empty {u : UsbState} (hwake : u.wake = true)
    (hwaiting : u.waiting = []) :
    (usbBulkOutTask u).rx = (consoleTask u.rx).2 ∧ (usbBulkOutTask u).waiting = [] ∧
      (usbBulkOutTask u).stream = u.stream := by
  rw [usbBulkOutTask, if_neg (by simp [hwake])]
  by_cases hfits : u.rx.receiveBuf.length + usbCdcEpBulkOutSize ≤ usbReceiveBufSize
  · simp [hfits, UsbState.readBulkOut, hwaiting]
  · simp [hfits, hwaiting]

/-- A task that was not woken does nothing. -/
theorem usbBulkOutTask_of_asleep {u : UsbState} (hwake : u.wake = false) :
    usbBulkOutTask u = u := by
  rw [usbBulkOutTask, if_pos (by simp [hwake])]

/-! ### Runs -/

/-- What holds after every run. -/
structure UsbState.Good (u : UsbState) : Prop where
  tracks : u.rx.Tracks u.stream
  awake : u.waiting ≠ [] → u.wake = true
  fits : u.rx.receiveBuf.length ≤ usbReceiveBufSize

theorem UsbState.init_good : UsbState.init.Good :=
  ⟨Classifier.Tracks.init, fun _ => rfl, Nat.zero_le _⟩

theorem usbBulkOutTask_good {u : UsbState} (h : u.Good) : (usbBulkOutTask u).Good := by
  cases hwake : u.wake with
  | false => rwa [usbBulkOutTask_of_asleep hwake]
  | true =>
      cases hwaiting : u.waiting with
      | nil =>
          obtain ⟨hrx, hw, hstream⟩ := usbBulkOutTask_of_empty hwake hwaiting
          refine ⟨?_, fun hne => absurd hw hne, ?_⟩
          · rw [hrx, hstream]
            exact consoleTask_tracks h.tracks
          · rw [hrx]
            exact (consoleTask_length_le _).trans h.fits
      | cons p ps =>
          obtain hroom | hfull : u.rx.receiveBuf.length ≤ 64 ∨ 64 < u.rx.receiveBuf.length := by
            omega
          · rw [usbBulkOutTask_of_room hwake hwaiting hroom]
            refine ⟨consoleTask_tracks (Classifier.Tracks.receive h.tracks p.val), fun _ => rfl,
              (consoleTask_length_le _).trans ?_⟩
            have hp : p.val.length ≤ 64 := p.property.2
            rw [RxState.receive, List.length_append, usbReceiveBufSize]
            omega
          · rw [usbBulkOutTask_of_full hwake hfull]
            exact ⟨consoleTask_tracks h.tracks, fun _ => rfl,
              (consoleTask_length_le _).trans h.fits⟩

theorem UsbState.step_good {u : UsbState} (h : u.Good) (e : UsbEvent) : (u.step e).Good := by
  cases e with
  | packet p => exact ⟨h.tracks, fun _ => rfl, h.fits⟩
  | task => exact usbBulkOutTask_good h

/-- **Every run is good**: the receiver tracks what it has read, and the task is awake
while a packet waits. -/
theorem UsbState.run_good {u : UsbState} (h : u.Good) (events : List UsbEvent) :
    (u.run events).Good := by
  induction events generalizing u with
  | nil => exact h
  | cons e events ih => exact ih (step_good h e)

/-! ### When a packet is read -/

/-- The part of the bytes read so far that is still pending. -/
def UsbState.pending (u : UsbState) : List Byte := blockClassifier.pending notStx1 u.stream

theorem UsbState.Good.length_pending_le {u : UsbState} (h : u.Good) :
    u.pending.length ≤ u.rx.receiveBuf.length := by
  rw [UsbState.pending, Classifier.Tracks.pending_eq_pending h.tracks]
  exact Classifier.length_pending_le _

/-- A long buffer in which the receiver waits is pending as a whole. -/
theorem UsbState.Good.pending_of_waits {u : UsbState} (h : u.Good)
    (hfull : 64 < u.rx.receiveBuf.length) (hret : (consoleTask u.rx).1 = 0) :
    u.pending = u.rx.receiveBuf := by
  obtain ⟨-, hv⟩ := (commandFindBlock_ret_eq_zero_iff u.rx.receiveBuf u.rx.syncState).mp hret
  obtain ⟨r, hr⟩ := blockVerdict_undecided_head hv (by rw [messageMin]; omega)
  rw [UsbState.pending, Classifier.Tracks.pending_eq_pending h.tracks,
    Classifier.pending_undecided hv, hr, List.dropWhile_cons_of_neg (by simp [notStx1])]

/-- With little pending, some later run reads the packet. -/
theorem exists_read {u : UsbState} (h : u.Good) {p : Packet} {ps : List Packet}
    (hwaiting : u.waiting = p :: ps) (hpending : u.pending.length ≤ 64) :
    ∃ k, (usbBulkOutTask^[k] u).waiting = ps := by
  -- each run before that brings the receiver closer to waiting for more bytes
  induction hm : rxMeasure u.rx.receiveBuf u.rx.syncState using Nat.strong_induction_on
      generalizing u with
  | _ m ih =>
      have hwake : u.wake = true := h.awake (by rw [hwaiting]; exact List.cons_ne_nil _ _)
      obtain hroom | hfull : u.rx.receiveBuf.length ≤ 64 ∨ 64 < u.rx.receiveBuf.length := by omega
      · refine ⟨1, ?_⟩
        rw [Function.iterate_one, usbBulkOutTask_of_room hwake hwaiting hroom]
      · have htask := usbBulkOutTask_of_full hwake hfull
        have hret : (consoleTask u.rx).1 ≠ 0 := by
          intro hret
          rw [h.pending_of_waits hfull hret] at hpending
          omega
        have hlt := consoleTask_progress hret
        obtain ⟨k, hk⟩ := ih _ (hm ▸ hlt) (u := usbBulkOutTask u) (usbBulkOutTask_good h)
          (by rw [htask]; exact hwaiting) (by rw [htask]; exact hpending) (by rw [htask])
        exact ⟨k + 1, by rw [Function.iterate_succ_apply, hk]⟩

/-- With much pending, no run reads anything. -/
theorem iterate_waiting_eq {u : UsbState} (h : u.Good) (hwaiting : u.waiting ≠ [])
    (hpending : 64 < u.pending.length) (k : ℕ) :
    (usbBulkOutTask^[k] u).waiting = u.waiting := by
  induction k generalizing u with
  | zero => rfl
  | succ k ih =>
      have hfull : 64 < u.rx.receiveBuf.length := hpending.trans_le h.length_pending_le
      have htask := usbBulkOutTask_of_full (h.awake hwaiting) hfull
      rw [Function.iterate_succ_apply,
        ih (usbBulkOutTask_good h) (by rw [htask]; exact hwaiting) (by rw [htask]; exact hpending),
        htask]

/-- **When a waiting packet is read.** In every reachable state with a packet in the
hardware, some later run of the task reads it exactly if at most 64 of the bytes read
before are still pending. -/
theorem usbBulkOutTask_reads_iff (events : List UsbEvent) (p : Packet) (ps : List Packet)
    (hwaiting : (UsbState.init.run events).waiting = p :: ps) :
    (∃ k, (usbBulkOutTask^[k] (UsbState.init.run events)).waiting = ps) ↔
      (UsbState.init.run events).pending.length ≤ 64 := by
  have hgood := UsbState.run_good UsbState.init_good events
  constructor
  · rintro ⟨k, hk⟩
    by_contra hmuch
    rw [iterate_waiting_eq hgood (by rw [hwaiting]; exact List.cons_ne_nil _ _)
      (not_le.mp hmuch) k, hwaiting] at hk
    exact List.cons_ne_self _ _ hk
  · exact exists_read hgood hwaiting

/-! ### A host that stops in the middle of a frame -/

/-- A CONNECT request. -/
def connectPacket : Packet := ⟨frame 0x11 [], by decide⟩

/-- The first 64 bytes of a request to write a block. -/
def cutPacket : Packet :=
  ⟨(frame 0x12 (List.replicate 68 0x00)).take 64, by decide⟩

/-- The first request after power-up is read. -/
theorem usbBulkOutTask_reads_connect :
    ∃ k, (usbBulkOutTask^[k] (UsbState.init.run [.packet connectPacket])).waiting = [] :=
  (usbBulkOutTask_reads_iff [.packet connectPacket] connectPacket [] rfl).mpr (by
    have hnil : blockVerdict [] = .undecided := rfl
    rw [UsbState.pending, show (UsbState.init.run [.packet connectPacket]).stream = [] from rfl,
      Classifier.pending_undecided hnil]
    exact Nat.zero_le _)

/-- A host stops after the first packet of a write request, starts anew with CONNECT and
repeats it: the second CONNECT is never read. -/
theorem connect_never_read :
    ¬∃ k, (usbBulkOutTask^[k] (UsbState.init.run [.packet cutPacket, .task,
      .packet connectPacket, .task, .packet connectPacket])).waiting = [] := by
  rintro ⟨k, hk⟩
  have hfix : usbBulkOutTask (UsbState.init.run [.packet cutPacket, .task, .packet connectPacket,
      .task, .packet connectPacket]) = UsbState.init.run [.packet cutPacket, .task,
      .packet connectPacket, .task, .packet connectPacket] := by decide
  rw [Function.iterate_fixed hfix] at hk
  exact absurd hk (by decide)

end Terraboot
