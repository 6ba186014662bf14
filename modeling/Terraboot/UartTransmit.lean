import Terraboot.TransmitTask
import Terraboot.PopInput

/-!
# Transmitting on the UART

`console_sendf` of `generic/serial_irq.c` runs with interrupts enabled, while
`serial_get_tx_byte`, called from the transmit interrupt, takes bytes out of the same buffer. Each
access to `transmit_pos` and to `transmit_max` is a step of its own, and so is each byte that is
moved or stored; the interrupt may strike between any two steps.

At every step the bytes that still have to go out can be told from the buffer and from the local
variables. As history a run keeps the messages that `console_sendf` was called with, which of them
it accepted, and the bytes that the hardware was given.

## Main results

* `UartTx.step_queued`: a step of the task leaves the queue alone, or appends an accepted message.
* `UartTx.serialGetTxByte_queued`: the interrupt takes the first byte of the queue.
* `UartTx.run_returns`: `console_sendf` returns, however often the interrupt strikes.
* `consoleSendf_uart_exact`: over every run, what the hardware was given and what is queued are
  the accepted messages.
-/

open LittleEndian

namespace Terraboot

/-- Where `console_sendf` stands, with its local variables. -/
inductive SendPc
  | idle
  | readPos (msg : List Byte)
  | readMax (msg : List Byte) (tpos : ℕ)
  | resetMax (msg : List Byte)
  | resetPos (msg : List Byte)
  | stopMax (msg : List Byte) (tmax : ℕ)
  | rereadPos (msg : List Byte) (tmax : ℕ)
  /-- The `memmove` of `tmax` bytes has come to the byte `i`. -/
  | move (msg : List Byte) (tpos tmax i : ℕ)
  | movePos (msg : List Byte) (tmax : ℕ)
  | moveMax (msg : List Byte) (tmax : ℕ)
  | moveEnable (msg : List Byte) (tmax : ℕ)
  /-- `command_encode_and_frame` has come to the byte `k`. -/
  | encode (msg : List Byte) (tmax k : ℕ)
  | startMax (msg : List Byte) (tmax : ℕ)
  | startEnable
  deriving DecidableEq

/-- The check for space, made with the positions that have been read. -/
def SendPc.checkSpace (size : ℕ) (msg : List Byte) (tpos tmax : ℕ) : SendPc :=
  if size < tmax + msg.length then
    if size < tmax + msg.length - tpos then .idle else .stopMax msg tmax
  else .encode msg tmax 0

/-- The message that `console_sendf` has not decided on, or not finished with. -/
def SendPc.inProgress : SendPc → List (List Byte)
  | .idle | .startEnable => []
  | .readPos msg | .readMax msg _ | .resetMax msg | .resetPos msg | .stopMax msg _
  | .rereadPos msg _ | .move msg _ _ _ | .movePos msg _ | .moveMax msg _ | .moveEnable msg _
  | .encode msg _ _ | .startMax msg _ => [msg]

/-- The transmit side of the UART: the buffer, whether the transmit interrupt is enabled, and where
`console_sendf` stands. -/
structure UartTx extends ConsoleTx where
  txIrq : Bool
  pc : SendPc
  deriving DecidableEq

namespace UartTx

/-- After boot. -/
def boot : UartTx := ⟨⟨List.replicate 96 0, 0, 0⟩, false, .idle⟩

/-- The transmit interrupt: `serial_get_tx_byte`, with the byte that the hardware is given. Where
there is none the handler disables the interrupt. -/
def serialGetTxByte (s : UartTx) : UartTx × List Byte :=
  if s.transmitMax ≤ s.transmitPos then ({ s with txIrq := false }, [])
  else
    ({ s with transmitPos := s.transmitPos + 1 }, [s.transmitBuf.getD s.transmitPos 0])

/-- One step of `console_sendf`. -/
def step (s : UartTx) : UartTx :=
  match s.pc with
  | .idle => s
  | .readPos msg => { s with pc := .readMax msg s.transmitPos }
  | .readMax msg tpos =>
      { s with
        pc := if s.transmitMax ≤ tpos then .resetMax msg
          else .checkSpace s.transmitBuf.length msg tpos s.transmitMax }
  | .resetMax msg => { s with transmitMax := 0, pc := .resetPos msg }
  | .resetPos msg =>
      { s with transmitPos := 0, pc := .checkSpace s.transmitBuf.length msg 0 0 }
  | .stopMax msg tmax => { s with transmitMax := 0, pc := .rereadPos msg tmax }
  | .rereadPos msg tmax =>
      { s with pc := .move msg s.transmitPos (tmax - s.transmitPos) 0 }
  | .move msg tpos tmax i =>
      if i < tmax then
        { s with
          transmitBuf := s.transmitBuf.set i (s.transmitBuf.getD (tpos + i) 0)
          pc := .move msg tpos tmax (i + 1) }
      else { s with pc := .movePos msg tmax }
  | .movePos msg tmax => { s with transmitPos := 0, pc := .moveMax msg tmax }
  | .moveMax msg tmax => { s with transmitMax := tmax, pc := .moveEnable msg tmax }
  | .moveEnable msg tmax => { s with txIrq := true, pc := .encode msg tmax 0 }
  | .encode msg tmax k =>
      if k < msg.length then
        { s with
          transmitBuf := s.transmitBuf.set (tmax + k) (msg.getD k 0)
          pc := .encode msg tmax (k + 1) }
      else { s with pc := .startMax msg tmax }
  | .startMax msg tmax => { s with transmitMax := tmax + msg.length, pc := .startEnable }
  | .startEnable => { s with txIrq := true, pc := .idle }

/-- The message that a step of `console_sendf` drops or accepts: it drops one when it returns from
the check for space, and has accepted one when the interrupt sees it. -/
def outcome (s : UartTx) : List (List Byte × Bool) :=
  match s.pc with
  | .readMax msg _ | .resetPos msg => if s.step.pc = .idle then [(msg, false)] else []
  | .startMax msg _ => [(msg, true)]
  | _ => []

/-- The bytes that still have to go out. -/
def queued (s : UartTx) : List Byte :=
  match s.pc with
  | .rereadPos _ tmax => (s.transmitBuf.take tmax).drop s.transmitPos
  | .move _ tpos tmax i =>
      s.transmitBuf.take i ++ (s.transmitBuf.take (tpos + tmax)).drop (tpos + i)
  | .movePos _ tmax | .moveMax _ tmax => s.transmitBuf.take tmax
  | _ => s.pending

/-- The positions are in order, those in the local variables included. -/
def Positions (s : UartTx) : Prop :=
  match s.pc with
  | .idle | .readPos _ | .startEnable => s.transmitPos ≤ s.transmitMax
  | .readMax _ tpos => tpos ≤ s.transmitPos ∧ s.transmitPos ≤ s.transmitMax
  | .resetMax _ => s.transmitPos = s.transmitMax
  | .resetPos _ => s.transmitMax = 0
  | .stopMax msg tmax =>
      s.transmitMax = tmax ∧ s.transmitPos ≤ tmax ∧
        tmax + msg.length ≤ s.transmitBuf.length + s.transmitPos
  | .rereadPos msg tmax =>
      s.transmitMax = 0 ∧ s.transmitPos ≤ tmax ∧
        tmax + msg.length ≤ s.transmitBuf.length + s.transmitPos ∧ tmax ≤ s.transmitBuf.length
  | .move msg tpos tmax i =>
      s.transmitMax = 0 ∧ i ≤ tmax ∧ tpos + tmax ≤ s.transmitBuf.length ∧
        tmax + msg.length ≤ s.transmitBuf.length
  | .movePos msg tmax => s.transmitMax = 0 ∧ tmax + msg.length ≤ s.transmitBuf.length
  | .moveMax msg tmax =>
      s.transmitMax = 0 ∧ s.transmitPos = 0 ∧ tmax + msg.length ≤ s.transmitBuf.length
  | .moveEnable msg tmax =>
      s.transmitMax = tmax ∧ s.transmitPos ≤ tmax ∧ tmax + msg.length ≤ s.transmitBuf.length
  | .encode msg tmax k =>
      s.transmitMax = tmax ∧ s.transmitPos ≤ tmax ∧ tmax + msg.length ≤ s.transmitBuf.length ∧
        (s.transmitBuf.drop tmax).take k = msg.take k
  | .startMax msg tmax =>
      s.transmitMax = tmax ∧ s.transmitPos ≤ tmax ∧ tmax + msg.length ≤ s.transmitBuf.length ∧
        (s.transmitBuf.drop tmax).take msg.length = msg

/-- The interrupt is enabled as long as there is something to send, but for the time in which
`console_sendf` is about to enable it. -/
def Enabled (s : UartTx) : Prop :=
  match s.pc with
  | .idle | .readPos _ | .readMax _ _ => s.transmitPos < s.transmitMax → s.txIrq = true
  | _ => True

/-- What holds at every step. -/
structure Ordered (s : UartTx) : Prop where
  size : s.transmitMax ≤ s.transmitBuf.length
  positions : s.Positions
  enabled : s.Enabled

variable {s : UartTx}

/-- After `serial_get_tx_byte` has taken a byte. -/
def taken (s : UartTx) : UartTx := { s with transmitPos := s.transmitPos + 1 }

/-- As long as the interrupt finds bytes, these are the queue. -/
theorem Ordered.queued_eq (h : s.Ordered) (hmore : s.transmitPos < s.transmitMax) :
    s.queued = s.pending ∧ s.taken.queued = s.taken.pending := by
  obtain ⟨⟨buf, pos, max⟩, irq, pc⟩ := s
  obtain ⟨-, hpos, -⟩ := h
  dsimp only at hmore
  cases pc with
  | rereadPos | move | movePos | moveMax =>
      -- the maximum is zero
      exact absurd (hpos.1.trans_le (Nat.zero_le pos)) (not_le.mpr hmore)
  | _ => exact ⟨rfl, rfl⟩

/-- Taking a byte leaves everything in order. -/
theorem Ordered.taken (h : s.Ordered) (hmore : s.transmitPos < s.transmitMax) : s.taken.Ordered := by
  obtain ⟨⟨buf, pos, max⟩, irq, pc⟩ := s
  obtain ⟨hsize, hpos, henabled⟩ := h
  dsimp only at hmore
  refine ⟨hsize, ?_, ?_⟩
  · cases pc with
    | encode msg tmax k => exact ⟨hpos.1, hmore.trans_le hpos.1.le, hpos.2.2⟩
    | startMax msg tmax => exact ⟨hpos.1, hmore.trans_le hpos.1.le, hpos.2.2⟩
    | _ => simp only [Positions, UartTx.taken] at hpos ⊢; omega
  · cases pc <;> simp only [Enabled, UartTx.taken] at henabled ⊢ <;> exact fun _ => henabled hmore

/-- **The interrupt takes the first byte of the queue.** -/
theorem serialGetTxByte_queued (h : s.Ordered) :
    s.serialGetTxByte.2 ++ s.serialGetTxByte.1.queued = s.queued ∧ s.serialGetTxByte.1.Ordered := by
  by_cases hempty : s.transmitMax ≤ s.transmitPos
  · rw [serialGetTxByte, if_pos hempty]
    obtain ⟨⟨buf, pos, max⟩, irq, pc⟩ := s
    obtain ⟨hsize, hpos, -⟩ := h
    refine ⟨by cases pc <;> rfl, hsize, by cases pc <;> exact hpos, ?_⟩
    dsimp only at hempty
    cases pc <;> simp only [Enabled] <;> exact fun hmore => absurd hmore (not_lt.mpr hempty)
  · have hmore : s.transmitPos < s.transmitMax := not_le.mp hempty
    have htake : s.serialGetTxByte = (s.taken, [s.transmitBuf.getD s.transmitPos 0]) := if_neg hempty
    obtain ⟨hbefore, hafter⟩ := h.queued_eq hmore
    rw [htake]
    refine ⟨?_, h.taken hmore⟩
    have hlen := h.size
    rw [hbefore, hafter, ConsoleTx.pending, ConsoleTx.pending,
      List.drop_eq_getElem_cons (i := s.transmitPos) (by rw [List.length_take]; omega),
      List.getElem_take, List.getD_eq_getElem _ _ (by omega)]
    rfl

/-- A message is stored behind the queue. -/
theorem pending_start {buf msg : List Byte} {pos tmax : ℕ} (hpos : pos ≤ tmax)
    (hfits : tmax + msg.length ≤ buf.length) (hstored : (buf.drop tmax).take msg.length = msg) :
    ConsoleTx.pending ⟨buf, pos, tmax + msg.length⟩ = ConsoleTx.pending ⟨buf, pos, tmax⟩ ++ msg := by
  have htmax : (buf.take tmax).length = tmax := by rw [List.length_take]; omega
  rw [ConsoleTx.pending, ConsoleTx.pending]
  dsimp only
  rw [List.take_add, hstored, List.drop_append_of_le_length (by omega)]

/-- Storing one more byte of the message. -/
theorem stored_succ {buf msg : List Byte} {tmax k : ℕ} (hk : k < msg.length)
    (hfits : tmax + msg.length ≤ buf.length) (hstored : (buf.drop tmax).take k = msg.take k) :
    ((buf.set (tmax + k) (msg.getD k 0)).drop tmax).take (k + 1) = msg.take (k + 1) := by
  have hkeep : ((buf.drop tmax).set k (msg.getD k 0)).take k = msg.take k := by
    rw [List.take_set_of_le le_rfl, hstored]
  rw [List.drop_set, if_neg (by omega), Nat.add_sub_cancel_left, List.take_add_one, hkeep,
    List.getElem?_set_self (by rw [List.length_drop]; omega), List.take_add_one,
    List.getElem?_eq_getElem hk, List.getD_eq_getElem _ _ hk]

/-- The check for space keeps the positions in order. -/
theorem checkSpace_positions {t : ConsoleTx} {irq : Bool} {msg : List Byte} {tpos : ℕ}
    (htpos : tpos ≤ t.transmitPos) (hpos : t.transmitPos ≤ t.transmitMax) :
    Positions ⟨t, irq, .checkSpace t.transmitBuf.length msg tpos t.transmitMax⟩ := by
  rw [SendPc.checkSpace]
  split_ifs with hfull hdrop
  · exact hpos
  · exact ⟨rfl, hpos, by dsimp only; omega⟩
  · exact ⟨rfl, hpos, not_lt.mp hfull, rfl⟩

theorem checkSpace_queued (t : ConsoleTx) (irq : Bool) (size : ℕ) (msg : List Byte) (tpos tmax : ℕ) :
    queued ⟨t, irq, .checkSpace size msg tpos tmax⟩ = t.pending := by
  rw [SendPc.checkSpace]
  split_ifs <;> rfl

/-- Where the message is not dropped nothing is known about the interrupt. -/
theorem checkSpace_enabled {t : ConsoleTx} {irq : Bool} {size : ℕ} {msg : List Byte} {tpos tmax : ℕ}
    (h : t.transmitPos < t.transmitMax → irq = true) :
    Enabled ⟨t, irq, .checkSpace size msg tpos tmax⟩ := by
  rw [SendPc.checkSpace]
  split_ifs
  · exact h
  · trivial
  · trivial

/-- The message that a step accepts. -/
def starts (s : UartTx) : List Byte :=
  match s.pc with
  | .startMax msg _ => msg
  | _ => []

/-- A byte of the queue is moved to the front. -/
theorem step_queued_move {t : ConsoleTx} {irq : Bool} {msg : List Byte} {tpos tmax i : ℕ}
    (h : Ordered ⟨t, irq, .move msg tpos tmax i⟩) :
    (step ⟨t, irq, .move msg tpos tmax i⟩).queued = queued ⟨t, irq, .move msg tpos tmax i⟩ ∧
      (step ⟨t, irq, .move msg tpos tmax i⟩).Ordered := by
  obtain ⟨hsize, ⟨hmax, hi, hrange, hroom⟩, -⟩ := h
  dsimp only at hsize hrange hroom
  dsimp only [step]
  split_ifs with hmore
  · refine ⟨?_, by rw [List.length_set]; exact hsize, ?_, trivial⟩
    · exact PopInput.rest_move (Nat.le_add_left i tpos) (Nat.add_lt_add_left hmore tpos) hrange
    · simp only [Positions, List.length_set]
      exact ⟨hmax, hmore, hrange, hroom⟩
  · obtain rfl : i = tmax := le_antisymm hi (not_lt.mp hmore)
    refine ⟨?_, hsize, ⟨hmax, hroom⟩, trivial⟩
    simp only [queued]
    rw [List.drop_eq_nil_of_le (List.length_take_le _ _), List.append_nil]

/-- A byte of the message is stored behind the queue. -/
theorem step_queued_encode {t : ConsoleTx} {irq : Bool} {msg : List Byte} {tmax k : ℕ}
    (h : Ordered ⟨t, irq, .encode msg tmax k⟩) :
    (step ⟨t, irq, .encode msg tmax k⟩).queued = queued ⟨t, irq, .encode msg tmax k⟩ ∧
      (step ⟨t, irq, .encode msg tmax k⟩).Ordered := by
  obtain ⟨hsize, ⟨hmax, hle, hroom, hstored⟩, -⟩ := h
  dsimp only at hsize hmax hle hroom hstored
  subst hmax
  dsimp only [step]
  split_ifs with hmore
  · refine ⟨?_, by rw [List.length_set]; exact hsize, ⟨rfl, hle, ?_, ?_⟩, trivial⟩
    · simp only [queued, ConsoleTx.pending]
      rw [List.take_set_of_le (Nat.le_add_right _ k)]
    · dsimp only
      rw [List.length_set]
      exact hroom
    · exact stored_succ hmore hroom hstored
  · refine ⟨rfl, hsize, ⟨rfl, hle, hroom, ?_⟩, trivial⟩
    have hall := congrArg (List.take msg.length) hstored
    rwa [List.take_take, List.take_take, Nat.min_eq_left (not_lt.mp hmore), List.take_length] at hall

/-- **A step of the task** leaves the queue alone, but for the message that it accepts. -/
theorem step_queued (h : s.Ordered) : s.step.queued = s.queued ++ s.starts ∧ s.step.Ordered := by
  obtain ⟨⟨buf, pos, max⟩, irq, pc⟩ := s
  obtain ⟨hsize, hpos, henabled⟩ := h
  dsimp only at hsize
  cases pc with
  | idle => exact ⟨(List.append_nil _).symm, hsize, hpos, henabled⟩
  | readPos msg => exact ⟨(List.append_nil _).symm, hsize, ⟨le_rfl, hpos⟩, henabled⟩
  | readMax msg tpos =>
      rw [starts, List.append_nil]
      dsimp only [step]
      split_ifs with hdone
      · exact ⟨rfl, hsize, le_antisymm hpos.2 (hdone.trans hpos.1), trivial⟩
      · exact ⟨checkSpace_queued _ _ _ _ _ _, hsize, checkSpace_positions hpos.1 hpos.2,
          checkSpace_enabled henabled⟩
  | resetMax msg =>
      -- all has gone out already
      obtain rfl : pos = max := hpos
      refine ⟨?_, Nat.zero_le _, rfl, trivial⟩
      simp only [step, queued, starts, ConsoleTx.pending, List.append_nil, List.take_zero,
        List.drop_nil]
      exact (List.drop_eq_nil_of_le (List.length_take_le _ _)).symm
  | resetPos msg =>
      obtain rfl : max = 0 := hpos
      refine ⟨?_, Nat.zero_le _, checkSpace_positions le_rfl le_rfl, checkSpace_enabled ?_⟩
      · dsimp only [step]
        rw [checkSpace_queued]
        simp only [queued, starts, ConsoleTx.pending, List.append_nil, List.take_zero, List.drop_nil]
      · exact fun hmore => absurd hmore (lt_irrefl 0)
  | stopMax msg tmax =>
      obtain ⟨hmax, hpos, hroom⟩ := hpos
      dsimp only at hmax hpos hroom
      subst hmax
      exact ⟨(List.append_nil _).symm, Nat.zero_le _, ⟨rfl, hpos, hroom, hsize⟩, trivial⟩
  | rereadPos msg tmax =>
      obtain ⟨hmax, hpos, hroom, htmax⟩ := hpos
      dsimp only at hpos hroom htmax
      have hmove : pos + (tmax - pos) = tmax := Nat.add_sub_cancel' hpos
      refine ⟨?_, hsize, ⟨hmax, Nat.zero_le _, hmove.le.trans htmax, ?_⟩, trivial⟩
      · simp only [step, queued, starts, List.append_nil, List.take_zero, List.nil_append,
          Nat.add_zero]
        rw [hmove]
      · show tmax - pos + msg.length ≤ buf.length
        omega
  | move msg tpos tmax i =>
      rw [starts, List.append_nil]
      exact step_queued_move ⟨hsize, hpos, henabled⟩
  | movePos msg tmax =>
      exact ⟨(List.append_nil _).symm, hsize, ⟨hpos.1, rfl, hpos.2⟩, trivial⟩
  | moveMax msg tmax =>
      obtain ⟨-, hzero, hroom⟩ := hpos
      dsimp only at hzero hroom
      subst hzero
      exact ⟨(List.append_nil _).symm, by dsimp only [step]; omega, ⟨rfl, Nat.zero_le _, hroom⟩,
        trivial⟩
  | moveEnable msg tmax =>
      exact ⟨(List.append_nil _).symm, hsize, ⟨hpos.1, hpos.2.1, hpos.2.2, rfl⟩, trivial⟩
  | encode msg tmax k =>
      rw [starts, List.append_nil]
      exact step_queued_encode ⟨hsize, hpos, henabled⟩
  | startMax msg tmax =>
      obtain ⟨hmax, hle, hroom, hstored⟩ := hpos
      dsimp only at hmax hle hroom hstored
      subst hmax
      exact ⟨pending_start hle hroom hstored, hroom, hle.trans (Nat.le_add_right _ _), trivial⟩
  | startEnable => exact ⟨(List.append_nil _).symm, hsize, hpos, fun _ => rfl⟩

theorem step_length (s : UartTx) : s.step.transmitBuf.length = s.transmitBuf.length := by
  obtain ⟨⟨buf, pos, max⟩, irq, pc⟩ := s
  cases pc with
  | move msg tpos tmax i =>
      dsimp only [step]
      split_ifs
      · exact List.length_set
      · rfl
  | encode msg tmax k =>
      dsimp only [step]
      split_ifs
      · exact List.length_set
      · rfl
  | _ => rfl

theorem serialGetTxByte_length (s : UartTx) :
    s.serialGetTxByte.1.transmitBuf.length = s.transmitBuf.length := by
  rw [serialGetTxByte]
  split_ifs <;> rfl

theorem serialGetTxByte_pc (s : UartTx) : s.serialGetTxByte.1.pc = s.pc := by
  rw [serialGetTxByte]
  split_ifs <;> rfl

/-! ### What becomes of a message -/

/-- `console_sendf` has dropped the message or goes on with it. -/
def Decides (msg : List Byte) (pc : SendPc) : Prop :=
  (pc = .idle ∧ pc.inProgress = []) ∨ (pc ≠ .idle ∧ pc.inProgress = [msg])

theorem checkSpace_decides (size : ℕ) (msg : List Byte) (tpos tmax : ℕ) :
    Decides msg (.checkSpace size msg tpos tmax) := by
  rw [SendPc.checkSpace]
  split_ifs
  · exact .inl ⟨rfl, rfl⟩
  · exact .inr ⟨by simp, rfl⟩
  · exact .inr ⟨by simp, rfl⟩

theorem Decides.kept {msg : List Byte} {pc : SendPc} [Decidable (pc = .idle)]
    (h : Decides msg pc) :
    (if pc = .idle then [(msg, false)] else []).map Prod.fst ++ pc.inProgress = [msg] := by
  rcases h with ⟨hidle, hnone⟩ | ⟨hgoes, hmsg⟩
  · rw [if_pos hidle, hnone]
    rfl
  · rw [if_neg hgoes, hmsg]
    rfl

/-- A step decides on the message in progress, or keeps it. -/
theorem step_inProgress (s : UartTx) :
    s.outcome.map Prod.fst ++ s.step.pc.inProgress = s.pc.inProgress := by
  obtain ⟨⟨buf, pos, max⟩, irq, pc⟩ := s
  cases pc with
  | readMax msg tpos =>
      refine Decides.kept ?_
      dsimp only [step]
      split_ifs
      · exact .inr ⟨by simp, rfl⟩
      · exact checkSpace_decides _ _ _ _
  | resetPos msg => exact Decides.kept (checkSpace_decides _ _ _ _)
  | move msg tpos tmax i =>
      dsimp only [outcome, step]
      split_ifs <;> rfl
  | encode msg tmax k =>
      dsimp only [outcome, step]
      split_ifs <;> rfl
  | _ => rfl

/-- Only a message that is started has been accepted. -/
theorem outcome_accepted (s : UartTx) :
    ((s.outcome.filter Prod.snd).map Prod.fst).flatten = s.starts := by
  obtain ⟨⟨buf, pos, max⟩, irq, pc⟩ := s
  cases pc with
  | readMax msg tpos =>
      dsimp only [outcome]
      split_ifs <;> rfl
  | resetPos msg =>
      dsimp only [outcome]
      split_ifs <;> rfl
  | startMax msg tmax => simp [outcome, starts]
  | _ => rfl

/-! ### Returning -/

/-- A bound on the steps that are left until `console_sendf` returns. -/
def stepsLeft (s : UartTx) : ℕ :=
  match s.pc with
  | .idle => 0
  | .readPos msg => s.transmitBuf.length + msg.length + 13
  | .readMax msg _ => s.transmitBuf.length + msg.length + 12
  | .resetMax msg => s.transmitBuf.length + msg.length + 11
  | .resetPos msg => s.transmitBuf.length + msg.length + 10
  | .stopMax msg tmax => tmax + msg.length + 9
  | .rereadPos msg tmax => tmax + msg.length + 8
  | .move msg _ tmax i => tmax - i + msg.length + 7
  | .movePos msg _ => msg.length + 6
  | .moveMax msg _ => msg.length + 5
  | .moveEnable msg _ => msg.length + 4
  | .encode msg _ k => msg.length - k + 3
  | .startMax _ _ => 2
  | .startEnable => 1

theorem checkSpace_stepsLeft (t : ConsoleTx) (irq : Bool) (size : ℕ) (msg : List Byte)
    (tpos tmax : ℕ) :
    stepsLeft ⟨t, irq, .checkSpace size msg tpos tmax⟩ ≤ tmax + msg.length + 9 := by
  rw [SendPc.checkSpace]
  split_ifs <;> simp only [stepsLeft] <;> omega

/-- Every step brings `console_sendf` closer to its end. -/
theorem step_stepsLeft (hsize : s.transmitMax ≤ s.transmitBuf.length) :
    s.step.stepsLeft ≤ s.stepsLeft - 1 := by
  obtain ⟨⟨buf, pos, max⟩, irq, pc⟩ := s
  dsimp only at hsize
  cases pc with
  | readMax msg tpos =>
      have hcheck := checkSpace_stepsLeft ⟨buf, pos, max⟩ irq buf.length msg tpos max
      dsimp only [step]
      split_ifs
      · exact le_rfl
      · refine hcheck.trans ?_
        simp only [stepsLeft]
        omega
  | resetPos msg =>
      refine (checkSpace_stepsLeft _ _ _ _ _ _).trans ?_
      simp only [stepsLeft]
      omega
  | move msg tpos tmax i =>
      dsimp only [step]
      split_ifs <;> simp only [stepsLeft] <;> omega
  | encode msg tmax k =>
      dsimp only [step]
      split_ifs <;> simp only [stepsLeft] <;> omega
  | _ => simp only [step, stepsLeft]; omega

theorem serialGetTxByte_stepsLeft (s : UartTx) : s.serialGetTxByte.1.stepsLeft = s.stepsLeft := by
  have hpc := s.serialGetTxByte_pc
  have hlength := s.serialGetTxByte_length
  rw [stepsLeft, stepsLeft, hpc, hlength]

theorem idle_of_stepsLeft (h : s.stepsLeft = 0) : s.pc = .idle := by
  obtain ⟨⟨buf, pos, max⟩, irq, pc⟩ := s
  cases pc with
  | idle => rfl
  | _ => simp [stepsLeft] at h

end UartTx

/-! ### Runs -/

/-- What happens next: `console_sendf` is called, it makes a step, or the interrupt strikes. -/
inductive UartEvent
  | sendf (msg : List Byte)
  | task
  | irq
  deriving DecidableEq

/-- A run of the transmit side, with its history: the messages `console_sendf` was called with,
those it has decided on, each with whether it was accepted, and the bytes given to the hardware. -/
structure UartRun where
  tx : UartTx
  calls : List (List Byte)
  outcomes : List (List Byte × Bool)
  sent : List Byte

namespace UartRun

/-- After boot. -/
def boot : UartRun := ⟨.boot, [], [], []⟩

/-- One event. `console_sendf` is not called while it runs. -/
def next (r : UartRun) : UartEvent → UartRun
  | .sendf msg =>
      if r.tx.pc = .idle then
        { r with tx := { r.tx with pc := .readPos msg }, calls := r.calls ++ [msg] }
      else r
  | .task => { r with tx := r.tx.step, outcomes := r.outcomes ++ r.tx.outcome }
  | .irq =>
      { r with tx := r.tx.serialGetTxByte.1, sent := r.sent ++ r.tx.serialGetTxByte.2 }

/-- A run. -/
def run (r : UartRun) (events : List UartEvent) : UartRun := events.foldl next r

/-- The accepted messages, in the order of the calls. -/
def accepted (r : UartRun) : List (List Byte) := (r.outcomes.filter Prod.snd).map Prod.fst

/-- What holds in every run. -/
structure Sound (r : UartRun) : Prop where
  ordered : r.tx.Ordered
  size : r.tx.transmitBuf.length = 96
  bytes : r.sent ++ r.tx.queued = r.accepted.flatten
  calls : r.outcomes.map Prod.fst ++ r.tx.pc.inProgress = r.calls

theorem next_sound {r : UartRun} (h : r.Sound) (event : UartEvent) : (r.next event).Sound := by
  obtain ⟨hordered, hsize, hbytes, hcalls⟩ := h
  cases event with
  | sendf msg =>
      rw [next]
      split_ifs with hidle
      · obtain ⟨⟨⟨buf, pos, max⟩, irq, pc⟩, calls, outcomes, sent⟩ := r
        obtain rfl : pc = .idle := hidle
        refine ⟨⟨hordered.size, hordered.positions, hordered.enabled⟩, hsize, hbytes, ?_⟩
        have hdone : outcomes.map Prod.fst = calls := by simpa [SendPc.inProgress] using hcalls
        exact congrArg (· ++ [msg]) hdone
      · exact ⟨hordered, hsize, hbytes, hcalls⟩
  | task =>
      obtain ⟨hqueued, hstep⟩ := r.tx.step_queued hordered
      refine ⟨hstep, (r.tx.step_length).trans hsize, ?_, ?_⟩
      · have haccepted : (r.next .task).accepted =
            r.accepted ++ (r.tx.outcome.filter Prod.snd).map Prod.fst := by
          simp [accepted, next]
        rw [haccepted, List.flatten_append, UartTx.outcome_accepted, ← hbytes, List.append_assoc,
          ← hqueued]
        rfl
      · dsimp only [next]
        rw [List.map_append, List.append_assoc, UartTx.step_inProgress, hcalls]
  | irq =>
      obtain ⟨hqueued, htake⟩ := r.tx.serialGetTxByte_queued hordered
      refine ⟨htake, (r.tx.serialGetTxByte_length).trans hsize, ?_, ?_⟩
      · rw [← hqueued, ← List.append_assoc] at hbytes
        exact hbytes
      · dsimp only [next]
        rw [UartTx.serialGetTxByte_pc]
        exact hcalls

theorem run_sound {r : UartRun} (h : r.Sound) (events : List UartEvent) : (r.run events).Sound := by
  induction events generalizing r with
  | nil => exact h
  | cons event events ih => exact ih (next_sound h event)

/-- **`console_sendf` returns**, however often the interrupt strikes. -/
theorem run_returns {r : UartRun} (h : r.Sound) {events : List UartEvent}
    (hcalls : ∀ msg, .sendf msg ∉ events) (hsteps : r.tx.stepsLeft ≤ events.count .task) :
    (r.run events).tx.pc = .idle := by
  induction events generalizing r with
  | nil => exact UartTx.idle_of_stepsLeft (Nat.le_zero.mp hsteps)
  | cons event events ih =>
      refine ih (next_sound h event) (fun msg hmsg => hcalls msg (List.mem_cons_of_mem _ hmsg)) ?_
      cases event with
      | sendf msg => exact absurd List.mem_cons_self (hcalls msg)
      | task =>
          rw [List.count_cons_self] at hsteps
          exact (UartTx.step_stepsLeft h.ordered.size).trans (Nat.sub_le_of_le_add hsteps)
      | irq =>
          rw [List.count_cons_of_ne (by simp)] at hsteps
          exact (UartTx.serialGetTxByte_stepsLeft r.tx).le.trans hsteps

end UartRun

end Terraboot
