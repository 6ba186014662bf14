import Terraboot.CanReceive

/-!
# Popping the Receive Buffer

`console_pop_input`, which UART and CAN share but for the types: the bytes behind the popped ones
are moved to the front while the receive interrupt goes on appending behind them, and the new
position is stored only if nothing was appended since it was read. The move is one step a byte; the
interrupt may strike between any two steps.

At every step the bytes that will remain can be told from the buffer: those moved so far, and those
from where the move goes on.

## Main results

* `PopInput.step_rest`, `PopInput.append_rest`: a step keeps what remains, an interrupt appends to
  it.
* `PopInput.run_returns`: the retry loop ends, however often the interrupt strikes.
* `consolePopInput_exact`: on both transports the buffer is left without the popped bytes and with
  everything the interrupts accepted meanwhile.
-/

open LittleEndian

namespace Terraboot

/-- Where `console_pop_input` stands, with its local variables. -/
inductive PopPc
  | read (len copied : ℕ)
  /-- The `memmove` has come to the byte `i`. -/
  | move (len rpos i : ℕ)
  | commit (len rpos : ℕ)
  | done
  deriving DecidableEq

/-- `receive_buf` and `receive_pos` while `console_pop_input` runs. -/
structure PopInput where
  receiveBuf : List Byte
  receivePos : ℕ
  pc : PopPc
  deriving DecidableEq

namespace PopInput

/-- One step of `console_pop_input`. -/
def step (s : PopInput) : PopInput :=
  match s.pc with
  | .read len copied =>
      { s with
        pc := if s.receivePos - len ≠ 0 then .move len s.receivePos copied
          else .commit len s.receivePos }
  | .move len rpos i =>
      if i < rpos - len then
        { s with
          receiveBuf := s.receiveBuf.set i (s.receiveBuf.getD (i + len) 0)
          pc := .move len rpos (i + 1) }
      else { s with pc := .commit len rpos }
  | .commit len rpos =>
      if rpos ≠ s.receivePos then { s with pc := .read len (rpos - len) }
      else { s with receivePos := rpos - len, pc := .done }
  | .done => s

/-- The interrupt appends bytes. -/
def append (s : PopInput) (data : List Byte) : PopInput :=
  { s with
    receiveBuf := overwrite s.receiveBuf s.receivePos data
    receivePos := s.receivePos + data.length }

/-- The bytes that have been received. -/
def input (s : PopInput) : List Byte := s.receiveBuf.take s.receivePos

/-- The bytes that will remain. -/
def rest (s : PopInput) : List Byte :=
  match s.pc with
  | .read len copied => s.receiveBuf.take copied ++ s.input.drop (copied + len)
  | .move len _ i => s.receiveBuf.take i ++ s.input.drop (i + len)
  | .commit len rpos => s.receiveBuf.take (rpos - len) ++ s.input.drop rpos
  | .done => s.input

/-- The positions are in order. -/
structure Ordered (s : PopInput) : Prop where
  pos : s.receivePos ≤ s.receiveBuf.length
  task : match s.pc with
    | .read len copied => copied + len ≤ s.receivePos
    | .move len rpos i => len + i ≤ rpos ∧ rpos ≤ s.receivePos
    | .commit len rpos => len ≤ rpos ∧ rpos ≤ s.receivePos
    | .done => True

variable {s : PopInput}

/-- A byte is moved down. -/
theorem rest_move {buf : List Byte} {pos i j : ℕ} (hij : i ≤ j) (hj : j < pos)
    (hpos : pos ≤ buf.length) :
    (buf.set i (buf.getD j 0)).take (i + 1) ++ ((buf.set i (buf.getD j 0)).take pos).drop (j + 1) =
      buf.take i ++ (buf.take pos).drop j := by
  have hfront : (buf.set i (buf.getD j 0)).take (i + 1) = buf.take i ++ [buf.getD j 0] := by
    rw [List.take_add_one, List.take_set_of_le le_rfl, List.getElem?_set_self (by omega)]
    rfl
  have hback : ((buf.set i (buf.getD j 0)).take pos).drop (j + 1) = (buf.take pos).drop (j + 1) := by
    rw [List.take_set, List.drop_set_of_lt (by omega)]
  have hnext : (buf.take pos).drop j = buf.getD j 0 :: (buf.take pos).drop (j + 1) := by
    rw [List.drop_eq_getElem_cons (by rw [List.length_take]; omega), List.getElem_take,
      List.getD_eq_getElem _ _ (by omega)]
  rw [hfront, hback, hnext, List.append_assoc, List.singleton_append]

/-- **A step keeps what remains.** -/
theorem step_rest (h : s.Ordered) : s.step.rest = s.rest ∧ s.step.Ordered := by
  obtain ⟨buf, pos, pc⟩ := s
  obtain ⟨hpos, htask⟩ := h
  cases pc with
  | read len copied =>
      by_cases hmore : pos - len ≠ 0
      · simp only [step, if_pos hmore]
        exact ⟨rfl, hpos, by dsimp only at htask ⊢; omega⟩
      · -- nothing remains
        simp only [step, if_neg hmore]
        dsimp only at htask
        obtain rfl : copied = 0 := by omega
        obtain rfl : len = pos := by omega
        refine ⟨?_, hpos, by dsimp only; omega⟩
        simp only [rest, Nat.sub_self, Nat.zero_add]
        rfl
  | move len rpos i =>
      dsimp only at htask
      by_cases hmore : i < rpos - len
      · simp only [step, if_pos hmore]
        refine ⟨?_, by rw [List.length_set]; exact hpos, by dsimp only; omega⟩
        have hmove := rest_move (show i ≤ i + len by omega) (show i + len < pos by omega) hpos
        simp only [rest, input]
        rw [Nat.add_right_comm]
        exact hmove
      · simp only [step, if_neg hmore]
        refine ⟨?_, hpos, by dsimp only; omega⟩
        obtain rfl : i = rpos - len := by omega
        simp only [rest]
        rw [Nat.sub_add_cancel (by omega)]
        rfl
  | commit len rpos =>
      dsimp only at htask
      by_cases hrace : rpos ≠ pos
      · simp only [step, if_pos hrace]
        refine ⟨?_, hpos, by dsimp only; omega⟩
        simp only [rest]
        rw [Nat.sub_add_cancel (by omega)]
        rfl
      · simp only [step, if_neg hrace]
        obtain rfl : rpos = pos := not_not.mp hrace
        refine ⟨?_, (Nat.sub_le rpos len).trans hpos, trivial⟩
        simp only [rest, input]
        rw [List.drop_eq_nil_of_le (List.length_take_le _ _), List.append_nil]
  | done => exact ⟨rfl, hpos, trivial⟩

/-- **An interrupt appends to what remains.** -/
theorem append_rest (h : s.Ordered) {data : List Byte}
    (hfits : s.receivePos + data.length ≤ s.receiveBuf.length) :
    (s.append data).rest = s.rest ++ data ∧ (s.append data).Ordered := by
  obtain ⟨buf, pos, pc⟩ := s
  obtain ⟨hpos, htask⟩ := h
  dsimp only at hpos hfits
  have hlen : (overwrite buf pos data).length = buf.length := overwrite_length hfits
  have hfront (k : ℕ) (hk : k ≤ pos) : (overwrite buf pos data).take k = buf.take k :=
    overwrite_take hk hpos
  have hback (k : ℕ) (hk : k ≤ pos) :
      ((overwrite buf pos data).take (pos + data.length)).drop k = (buf.take pos).drop k ++ data := by
    rw [overwrite_take_end hfits, List.drop_append_of_le_length (by rw [List.length_take]; omega)]
  have hbound : pos + data.length ≤ (overwrite buf pos data).length := hfits.trans hlen.ge
  cases pc with
  | read len copied =>
      dsimp only at htask
      refine ⟨?_, hbound, by dsimp only [append]; omega⟩
      simp only [rest, append, input]
      rw [hfront _ (by omega), hback _ (by omega), List.append_assoc]
  | move len rpos i =>
      dsimp only at htask
      refine ⟨?_, hbound, by dsimp only [append]; omega⟩
      simp only [rest, append, input]
      rw [hfront _ (by omega), hback _ (by omega), List.append_assoc]
  | commit len rpos =>
      dsimp only at htask
      refine ⟨?_, hbound, by dsimp only [append]; omega⟩
      simp only [rest, append, input]
      rw [hfront _ (by omega), hback _ (by omega), List.append_assoc]
  | done =>
      refine ⟨?_, hbound, trivial⟩
      simp only [rest, append, input]
      exact overwrite_take_end hfits

/-! ### The retry loop -/

/-- What a race costs: another turn of the loop for the bytes received since `rpos`. -/
def raceSteps (rpos pos : ℕ) : ℕ := if rpos = pos then 0 else pos - rpos + 3

theorem raceSteps_self (pos : ℕ) : raceSteps pos pos = 0 := if_pos rfl

theorem raceSteps_of_ne {rpos pos : ℕ} (h : rpos ≠ pos) : raceSteps rpos pos = pos - rpos + 3 :=
  if_neg h

theorem raceSteps_add_le (rpos pos n : ℕ) : raceSteps rpos (pos + n) ≤ raceSteps rpos pos + 4 * n := by
  rw [raceSteps, raceSteps]
  split_ifs <;> omega

/-- The steps that are left if nothing else is received. -/
def stepsLeft (s : PopInput) : ℕ :=
  match s.pc with
  | .read len copied => s.receivePos - len - copied + 3
  | .move len rpos i => rpos - len - i + 2 + raceSteps rpos s.receivePos
  | .commit _ rpos => 1 + raceSteps rpos s.receivePos
  | .done => 0

/-- A bound on the steps that are left: each byte for which there is still room can cost four. -/
def budget (s : PopInput) : ℕ :=
  if s.pc = .done then 0 else s.stepsLeft + 4 * (s.receiveBuf.length - s.receivePos)

/-- Every step uses up some of the budget. -/
theorem step_budget (h : s.Ordered) (hpc : s.pc ≠ .done) : s.step.budget < s.budget := by
  obtain ⟨buf, pos, pc⟩ := s
  obtain ⟨-, htask⟩ := h
  cases pc with
  | read len copied =>
      have hself := raceSteps_self pos
      by_cases hmore : pos - len ≠ 0
      · simp only [step, if_pos hmore, budget, stepsLeft, reduceCtorEq, if_false]
        omega
      · simp only [step, if_neg hmore, budget, stepsLeft, reduceCtorEq, if_false]
        omega
  | move len rpos i =>
      dsimp only at htask
      by_cases hmore : i < rpos - len
      · simp only [step, if_pos hmore, budget, stepsLeft, reduceCtorEq, if_false, List.length_set]
        omega
      · simp only [step, if_neg hmore, budget, stepsLeft, reduceCtorEq, if_false]
        omega
  | commit len rpos =>
      dsimp only at htask
      by_cases hrace : rpos ≠ pos
      · have hne := raceSteps_of_ne hrace
        simp only [step, if_pos hrace, budget, stepsLeft, reduceCtorEq, if_false]
        omega
      · simp only [step, if_neg hrace, budget, stepsLeft, reduceCtorEq, if_false, if_true]
        omega
  | done => exact absurd rfl hpc

/-- An interrupt does not add to it. -/
theorem append_budget {data : List Byte}
    (hfits : s.receivePos + data.length ≤ s.receiveBuf.length) :
    (s.append data).budget ≤ s.budget := by
  obtain ⟨buf, pos, pc⟩ := s
  dsimp only at hfits
  have hlen : (overwrite buf pos data).length = buf.length := overwrite_length hfits
  cases pc with
  | read len copied =>
      simp only [append, budget, stepsLeft, reduceCtorEq, if_false, hlen]
      omega
  | move len rpos i =>
      have hrace := raceSteps_add_le rpos pos data.length
      simp only [append, budget, stepsLeft, reduceCtorEq, if_false, hlen]
      omega
  | commit len rpos =>
      have hrace := raceSteps_add_le rpos pos data.length
      simp only [append, budget, stepsLeft, reduceCtorEq, if_false, hlen]
      omega
  | done => exact le_rfl

/-! ### Runs -/

/-- What happens next: `console_pop_input` goes on, or an interrupt appends bytes. -/
inductive Move
  | task
  | irq (data : List Byte)

/-- One move; bytes that do not fit are not accepted. -/
def next (s : PopInput) : Move → PopInput
  | .task => s.step
  | .irq data => if s.receivePos + data.length ≤ s.receiveBuf.length then s.append data else s

/-- The bytes that the interrupts of a run append. -/
def appended (s : PopInput) : List Move → List Byte
  | [] => []
  | .task :: moves => s.step.appended moves
  | .irq data :: moves =>
      (if s.receivePos + data.length ≤ s.receiveBuf.length then data else []) ++
        (s.next (.irq data)).appended moves

/-- The number of steps in a run. -/
def steps : List Move → ℕ
  | [] => 0
  | .task :: moves => steps moves + 1
  | .irq _ :: moves => steps moves

/-- A run. -/
def run (s : PopInput) (moves : List Move) : PopInput := moves.foldl next s

theorem next_sound (h : s.Ordered) (move : Move) :
    (s.next move).rest = s.rest ++ s.appended [move] ∧ (s.next move).Ordered := by
  cases move with
  | task =>
      have hnone : s.appended [.task] = [] := rfl
      rw [hnone, List.append_nil]
      exact step_rest h
  | irq data =>
      rw [next, appended, appended, List.append_nil]
      split_ifs with hfits
      · exact append_rest h hfits
      · exact ⟨(List.append_nil _).symm, h⟩

/-- **What remains after a run**: what would have remained, and what the interrupts appended. -/
theorem run_rest (h : s.Ordered) (moves : List Move) :
    (s.run moves).rest = s.rest ++ s.appended moves ∧ (s.run moves).Ordered := by
  induction moves generalizing s with
  | nil => exact ⟨(List.append_nil _).symm, h⟩
  | cons move moves ih =>
      obtain ⟨hrest, hordered⟩ := next_sound h move
      obtain ⟨hrun, hend⟩ := ih hordered
      have hsplit : s.appended (move :: moves) =
          s.appended [move] ++ (s.next move).appended moves := by
        cases move with
        | task => rfl
        | irq data => rw [appended, appended, appended, List.append_nil]
      refine ⟨?_, hend⟩
      rw [hsplit, ← List.append_assoc, ← hrest]
      exact hrun

theorem run_done (moves : List Move) (h : s.pc = .done) : (s.run moves).pc = .done := by
  induction moves generalizing s with
  | nil => exact h
  | cons move moves ih =>
      refine ih ?_
      cases move with
      | task => rw [next, step, h]; exact h
      | irq data =>
          rw [next]
          split_ifs
          · exact h
          · exact h

/-- **The retry loop ends**, however often the interrupt strikes. -/
theorem run_returns (h : s.Ordered) {moves : List Move} (hsteps : s.budget ≤ steps moves) :
    (s.run moves).pc = .done := by
  induction moves generalizing s with
  | nil =>
      by_contra hpc
      have hlt := step_budget h hpc
      rw [steps] at hsteps
      omega
  | cons move moves ih =>
      by_cases hpc : s.pc = .done
      · exact run_done (move :: moves) hpc
      have hordered := (next_sound h move).2
      cases move with
      | task =>
          have hlt := step_budget h hpc
          rw [steps] at hsteps
          exact ih hordered (show s.step.budget ≤ _ by omega)
      | irq data =>
          rw [steps] at hsteps
          refine ih hordered (le_trans ?_ hsteps)
          rw [next]
          split_ifs with hfits
          · exact append_budget hfits
          · exact le_rfl

/-- **What `console_pop_input` leaves**: the buffer without its first `len` bytes and with what was
appended meanwhile. It returns within `4 * n + 3` steps on a buffer of `n` bytes. -/
theorem run_exact {len : ℕ} (hpos : s.receivePos ≤ s.receiveBuf.length) (hlen : len ≤ s.receivePos)
    (hpc : s.pc = .read len 0) (moves : List Move) :
    (s.run moves).receivePos ≤ (s.run moves).receiveBuf.length ∧
      ((s.run moves).pc = .done →
        (s.run moves).input = s.input.drop len ++ s.appended moves ∧
          (s.run moves).receivePos = (s.input.drop len ++ s.appended moves).length) ∧
      (4 * s.receiveBuf.length + 3 ≤ steps moves → (s.run moves).pc = .done) := by
  have hordered : s.Ordered := ⟨hpos, by rw [hpc]; dsimp only; omega⟩
  have hrest : s.rest = s.input.drop len := by
    simp only [rest, hpc]
    rw [List.take_zero, Nat.zero_add, List.nil_append]
  obtain ⟨hrun, hend⟩ := run_rest hordered moves
  refine ⟨hend.pos, fun hdone => ?_, fun hsteps => run_returns hordered ?_⟩
  · have hinput : (s.run moves).rest = (s.run moves).input := by simp only [rest, hdone]
    rw [← hrest, ← hrun, hinput, input, List.length_take, Nat.min_eq_left hend.pos]
    exact ⟨rfl, rfl⟩
  · refine le_trans ?_ hsteps
    simp only [budget, stepsLeft, hpc, reduceCtorEq, if_false]
    omega

end PopInput

/-! ### UART -/

/-- `RX_BUFFER_SIZE` of `generic/serial_irq.c` -/
def rxBufferSize : ℕ := 192

/-- `serial_rx_byte`, without the wake-up of the tasks. -/
def serialRxByte (s : PopInput) (data : Byte) : PopInput :=
  if rxBufferSize ≤ s.receivePos then s
  else
    { s with
      receiveBuf := s.receiveBuf.set s.receivePos data
      receivePos := s.receivePos + 1 }

/-- What happens next on a UART: `console_pop_input` goes on, or a byte is received. -/
inductive SerialMove
  | task
  | irq (data : Byte)

/-- One move. -/
def serialStep (s : PopInput) : SerialMove → PopInput
  | .task => s.step
  | .irq data => serialRxByte s data

/-- A run. -/
def serialRun (s : PopInput) (moves : List SerialMove) : PopInput := moves.foldl serialStep s

/-- The bytes that `serial_rx_byte` stores in a run. -/
def serialReceived (s : PopInput) : List SerialMove → List Byte
  | [] => []
  | .task :: moves => serialReceived s.step moves
  | .irq data :: moves =>
      (if rxBufferSize ≤ s.receivePos then [] else [data]) ++
        serialReceived (serialRxByte s data) moves

/-- The move without its transport. -/
def SerialMove.toMove : SerialMove → PopInput.Move
  | .task => .task
  | .irq data => .irq [data]

theorem overwrite_singleton {buf : List Byte} {off : ℕ} (h : off < buf.length) (b : Byte) :
    overwrite buf off [b] = buf.set off b := by
  rw [overwrite, List.set_eq_take_append_cons_drop, if_pos h, List.append_assoc,
    List.singleton_append, List.length_singleton]

theorem serialRxByte_eq {s : PopInput} (h : s.receiveBuf.length = rxBufferSize) (data : Byte) :
    serialRxByte s data = s.next (.irq [data]) := by
  rw [serialRxByte, PopInput.next, List.length_singleton, h]
  by_cases hfull : rxBufferSize ≤ s.receivePos
  · rw [if_pos hfull, if_neg (by omega)]
  · rw [if_neg hfull, if_pos (by omega), PopInput.append, overwrite_singleton (by omega),
      List.length_singleton]

theorem serialStep_eq {s : PopInput} (h : s.receiveBuf.length = rxBufferSize) (move : SerialMove) :
    serialStep s move = s.next move.toMove := by
  cases move with
  | task => rfl
  | irq data => exact serialRxByte_eq h data

theorem PopInput.next_length (s : PopInput) (move : Move) :
    (s.next move).receiveBuf.length = s.receiveBuf.length := by
  cases move with
  | task =>
      rw [next, step]
      cases s.pc with
      | read | done => rfl
      | move len rpos i =>
          dsimp only
          split_ifs
          · exact List.length_set
          · rfl
      | commit len rpos =>
          dsimp only
          split_ifs <;> rfl
  | irq data =>
      rw [next]
      split_ifs with hfits
      · exact overwrite_length hfits
      · rfl

theorem PopInput.run_length (s : PopInput) (moves : List Move) :
    (s.run moves).receiveBuf.length = s.receiveBuf.length := by
  induction moves generalizing s with
  | nil => rfl
  | cons move moves ih => exact (ih _).trans (s.next_length move)

/-- **A UART run is a run** of `console_pop_input` with interrupts of one byte. -/
theorem serialRun_eq {s : PopInput} (h : s.receiveBuf.length = rxBufferSize)
    (moves : List SerialMove) :
    serialRun s moves = s.run (moves.map SerialMove.toMove) ∧
      serialReceived s moves = s.appended (moves.map SerialMove.toMove) := by
  induction moves generalizing s with
  | nil => exact ⟨rfl, rfl⟩
  | cons move moves ih =>
      have hstep := serialStep_eq h move
      obtain ⟨hrun, hreceived⟩ := ih (s := serialStep s move)
        (by rw [hstep, PopInput.next_length, h])
      rw [hstep] at hrun hreceived
      refine ⟨?_, ?_⟩
      · rw [serialRun, List.foldl_cons, hstep]
        exact hrun
      · cases move with
        | task => exact hreceived
        | irq data =>
            have hrx := serialRxByte_eq h data
            rw [serialReceived, hrx, List.map_cons, SerialMove.toMove, PopInput.appended,
              List.length_singleton, h]
            congr 1
            by_cases hfull : rxBufferSize ≤ s.receivePos
            · rw [if_pos hfull, if_neg (by omega)]
            · rw [if_neg hfull, if_pos (by omega)]

/-! ### CAN -/

/-- One move while `console_pop_input` of `generic/canserial.c` runs, up to its return. -/
def CanRx.popStep (s : CanRx) : RxMove → CanRx
  | .task => if s.pc = .idle then s else canserialRxTask s
  | .irq msg => (canserialProcessData s msg).2

/-- A run up to the return. -/
def CanRx.popRun (s : CanRx) (moves : List RxMove) : CanRx := moves.foldl CanRx.popStep s

/-- The bytes that `canserial_process_data` stores of a message. -/
def CanRx.stores (s : CanRx) (msg : CanbusMsg) : List Byte :=
  if s.can.assignedId ≠ 0 ∧ msg.id = s.can.assignedId ∧ (canserialProcessData s msg).1 = 0 then
    msg.data.take (canmsgDataLen msg)
  else []

/-- The bytes that the interrupts of a run store. -/
def CanRx.received (s : CanRx) : List RxMove → List Byte
  | [] => []
  | .task :: moves => (s.popStep .task).received moves
  | .irq msg :: moves => s.stores msg ++ (s.popStep (.irq msg)).received moves

/-- The place in `console_pop_input`. -/
def RxPc.toPop : RxPc → PopPc
  | .popRead len copied => .read len copied
  | .popMove len rpos i => .move len rpos i
  | .popCommit len rpos => .commit len rpos
  | _ => .done

/-- `canserial_rx_task` is in `console_pop_input`, or has returned from it. -/
def RxPc.Popping : RxPc → Prop
  | .popRead _ _ | .popMove _ _ _ | .popCommit _ _ | .idle => True
  | _ => False

/-- Only `idle` stands for the return. -/
theorem RxPc.Popping.idle {pc : RxPc} (h : pc.Popping) (hdone : pc.toPop = .done) : pc = .idle := by
  cases pc with
  | idle => rfl
  | popRead | popMove | popCommit => exact absurd hdone nofun
  | clearWake | readConflict | clearConflict | clearId | clearFilter | readPush | readPull
  | adminRead | adminId | adminFilter | adminAdvance | readPos | scan | dispatch =>
      exact absurd h id

/-- The variables of `console_pop_input`. -/
def CanRx.popInput (s : CanRx) : PopInput := ⟨s.receiveBuf, s.receivePos, s.pc.toPop⟩

/-- The move without its transport, on a device with the given id. -/
def RxMove.toMove (id : Word) : RxMove → PopInput.Move
  | .task => .task
  | .irq msg =>
      .irq (if id ≠ 0 ∧ msg.id = id then msg.data.take (canmsgDataLen msg) else [])

/-- The number of task steps. -/
def RxMove.steps : List RxMove → ℕ
  | [] => 0
  | .task :: moves => steps moves + 1
  | .irq _ :: moves => steps moves

theorem PopInput.append_nil {s : PopInput} : s.append [] = s := by
  obtain ⟨buf, pos, pc⟩ := s
  rw [append]
  dsimp only
  rw [overwrite, List.append_nil, List.length_nil, Nat.add_zero, List.take_append_drop]

/-- What an interrupt does to the receive buffer. -/
theorem canserialProcessData_popInput {s : CanRx} (hsize : s.receiveBuf.length = receiveBufSize)
    (hpos : s.receivePos ≤ receiveBufSize) (msg : CanbusMsg) :
    (canserialProcessData s msg).2.popInput =
        s.popInput.next (RxMove.toMove s.can.assignedId (.irq msg)) ∧
      s.stores msg = s.popInput.appended [RxMove.toMove s.can.assignedId (.irq msg)] ∧
      (canserialProcessData s msg).2.pc = s.pc := by
  have hlen := canmsgData_length msg
  rw [CanRx.stores, RxMove.toMove, PopInput.next, PopInput.appended, PopInput.appended,
    List.append_nil]
  have hbuf : s.popInput.receiveBuf.length = receiveBufSize := hsize
  have hposition : s.popInput.receivePos = s.receivePos := rfl
  rw [hbuf, hposition]
  by_cases hown : s.can.assignedId ≠ 0 ∧ msg.id = s.can.assignedId
  · rw [canserialProcessData, if_pos hown, if_pos hown, hlen]
    dsimp only
    by_cases hfull : receiveBufSize - s.receivePos < canmsgDataLen msg
    · rw [if_pos hfull, if_neg (by omega), if_neg (fun h : _ ∧ _ ∧ (-1 : ℤ) = 0 => absurd h.2.2 (by decide)),
        if_neg (by omega)]
      exact ⟨rfl, rfl, rfl⟩
    · rw [if_neg hfull, if_pos (by omega), if_pos ⟨hown.1, hown.2, rfl⟩, if_pos (by omega)]
      refine ⟨?_, rfl, rfl⟩
      rw [PopInput.append, hlen]
      rfl
  · have hsame : (canserialProcessData s msg).2.popInput = s.popInput ∧
        (canserialProcessData s msg).2.pc = s.pc := by
      rcases canserialProcessData_cases s msg hpos with h | h | h | h
      · exact absurd ⟨h.assigned, h.id⟩ hown
      · rw [h.state]
        exact ⟨rfl, rfl⟩
      · rw [h.state]
        exact ⟨rfl, rfl⟩
      · rw [h]
        exact ⟨rfl, rfl⟩
    have hstores : ¬(s.can.assignedId ≠ 0 ∧ msg.id = s.can.assignedId ∧
        (canserialProcessData s msg).1 = 0) := fun h => hown ⟨h.1, h.2.1⟩
    rw [if_neg hown, if_neg hstores, List.length_nil, Nat.add_zero, if_pos hpos,
      PopInput.append_nil, ite_self]
    exact ⟨hsame.1, rfl, hsame.2⟩

/-- A step of the task is a step of `console_pop_input`. -/
theorem popStep_task {s : CanRx} (hpop : s.pc.Popping) :
    (s.popStep .task).popInput = s.popInput.step ∧ (s.popStep .task).pc.Popping ∧
      (s.popStep .task).can = s.can := by
  rw [CanRx.popStep]
  cases hpc : s.pc with
  | idle =>
      rw [if_pos rfl]
      refine ⟨?_, by rw [hpc]; trivial, rfl⟩
      simp only [CanRx.popInput, hpc, RxPc.toPop, PopInput.step]
  | popRead len copied =>
      rw [if_neg nofun]
      by_cases hmore : s.receivePos - len ≠ 0
      · simp only [canserialRxTask, CanRx.popInput, PopInput.step, hpc, RxPc.toPop, if_pos hmore]
        exact ⟨trivial, trivial, trivial⟩
      · simp only [canserialRxTask, CanRx.popInput, PopInput.step, hpc, RxPc.toPop, if_neg hmore]
        exact ⟨trivial, trivial, trivial⟩
  | popMove len rpos i =>
      rw [if_neg nofun]
      by_cases hmore : i < rpos - len
      · simp only [canserialRxTask, CanRx.popInput, PopInput.step, hpc, RxPc.toPop, if_pos hmore]
        exact ⟨trivial, trivial, trivial⟩
      · simp only [canserialRxTask, CanRx.popInput, PopInput.step, hpc, RxPc.toPop, if_neg hmore]
        exact ⟨trivial, trivial, trivial⟩
  | popCommit len rpos =>
      rw [if_neg nofun]
      by_cases hrace : rpos ≠ s.receivePos
      · simp only [canserialRxTask, CanRx.popInput, PopInput.step, hpc, RxPc.toPop, if_pos hrace]
        exact ⟨trivial, trivial, trivial⟩
      · simp only [canserialRxTask, CanRx.popInput, PopInput.step, hpc, RxPc.toPop, if_neg hrace]
        exact ⟨trivial, trivial, trivial⟩
  | clearWake | readConflict | clearConflict | clearId | clearFilter | readPush | readPull
  | adminRead | adminId | adminFilter | adminAdvance | readPos | scan | dispatch =>
      rw [hpc] at hpop
      exact absurd hpop id

/-- **A CAN run is a run** of `console_pop_input` with interrupts of a packet. -/
theorem popRun_eq {s : CanRx} (hsize : s.receiveBuf.length = receiveBufSize)
    (hpos : s.receivePos ≤ receiveBufSize) (hordered : s.popInput.Ordered) (hpop : s.pc.Popping)
    (moves : List RxMove) :
    (s.popRun moves).popInput = s.popInput.run (moves.map (RxMove.toMove s.can.assignedId)) ∧
      s.received moves = s.popInput.appended (moves.map (RxMove.toMove s.can.assignedId)) ∧
      (s.popRun moves).pc.Popping := by
  induction moves generalizing s with
  | nil => exact ⟨rfl, rfl, hpop⟩
  | cons move moves ih =>
      have hstep : (s.popStep move).popInput =
            s.popInput.next (RxMove.toMove s.can.assignedId move) ∧
          (s.popStep move).pc.Popping ∧ (s.popStep move).can = s.can := by
        cases move with
        | task => exact popStep_task hpop
        | irq msg =>
            obtain ⟨hirq, -, hpc⟩ := canserialProcessData_popInput hsize hpos msg
            exact ⟨hirq, by rw [CanRx.popStep, hpc]; exact hpop, canserialProcessData_can s msg⟩
      obtain ⟨hnext, hpopping, hcan⟩ := hstep
      have hlen := s.popInput.next_length (RxMove.toMove s.can.assignedId move)
      have hstill := (PopInput.next_sound hordered (RxMove.toMove s.can.assignedId move)).2
      rw [← hnext] at hlen hstill
      have hbuf : (s.popStep move).receiveBuf.length = receiveBufSize := hlen.trans hsize
      obtain ⟨hrun, hreceived, hend⟩ := ih hbuf (hstill.pos.trans hbuf.le) hstill hpopping
      rw [hcan, hnext] at hrun hreceived
      refine ⟨hrun, ?_, hend⟩
      cases move with
      | task => exact hreceived
      | irq msg =>
          obtain ⟨-, hstores, -⟩ := canserialProcessData_popInput hsize hpos msg
          rw [CanRx.received, hstores, hreceived, List.map_cons]
          rw [RxMove.toMove, PopInput.appended, PopInput.appended, PopInput.appended,
            List.append_nil]

/-! ### Both transports -/

/-- The number of steps of `console_pop_input` in a UART run. -/
def SerialMove.steps : List SerialMove → ℕ
  | [] => 0
  | .task :: moves => steps moves + 1
  | .irq _ :: moves => steps moves

theorem SerialMove.steps_eq (moves : List SerialMove) :
    PopInput.steps (moves.map SerialMove.toMove) = SerialMove.steps moves := by
  induction moves with
  | nil => rfl
  | cons move moves ih =>
      cases move with
      | task => exact congrArg (· + 1) ih
      | irq data => exact ih

theorem RxMove.steps_eq (id : Word) (moves : List RxMove) :
    PopInput.steps (moves.map (RxMove.toMove id)) = RxMove.steps moves := by
  induction moves with
  | nil => rfl
  | cons move moves ih =>
      cases move with
      | task => exact congrArg (· + 1) ih
      | irq msg => exact ih

/-- **Popping loses nothing.** On CAN and on UART, for every buffer content, every number of bytes
to pop and every interleaving with the receive interrupt: once `console_pop_input` has returned,
the buffer holds what it held without those bytes, and then exactly what the interrupts stored
meanwhile. The position is never beyond the buffer, and there are at most 771 steps. -/
theorem consolePopInput_exact :
    (∀ (s : CanRx) (len : ℕ) (moves : List RxMove), s.receiveBuf.length = receiveBufSize →
        s.receivePos ≤ receiveBufSize → len ≤ s.receivePos → s.pc = .popRead len 0 →
      (s.popRun moves).receivePos ≤ receiveBufSize ∧
        ((s.popRun moves).pc = .idle →
          (s.popRun moves).input = s.input.drop len ++ s.received moves ∧
            (s.popRun moves).receivePos = (s.input.drop len ++ s.received moves).length) ∧
        (771 ≤ RxMove.steps moves → (s.popRun moves).pc = .idle)) ∧
    ∀ (s : PopInput) (len : ℕ) (moves : List SerialMove), s.receiveBuf.length = rxBufferSize →
        s.receivePos ≤ rxBufferSize → len ≤ s.receivePos → s.pc = .read len 0 →
      (serialRun s moves).receivePos ≤ rxBufferSize ∧
        ((serialRun s moves).pc = .done →
          (serialRun s moves).input = s.input.drop len ++ serialReceived s moves ∧
            (serialRun s moves).receivePos = (s.input.drop len ++ serialReceived s moves).length) ∧
        (771 ≤ SerialMove.steps moves → (serialRun s moves).pc = .done) := by
  constructor
  · intro s len moves hsize hpos hlen hpc
    have hpop : s.popInput.pc = .read len 0 := congrArg RxPc.toPop hpc
    have hbuf : s.popInput.receivePos ≤ s.popInput.receiveBuf.length := hpos.trans hsize.ge
    have hordered : s.popInput.Ordered := ⟨hbuf, by
      rw [hpop]
      exact (Nat.zero_add len).trans_le hlen⟩
    obtain ⟨hrun, hreceived, hpopping⟩ := popRun_eq hsize hpos hordered
      (by rw [hpc]; trivial) moves
    obtain ⟨hend, hdone, hreturns⟩ := PopInput.run_exact hbuf hlen hpop
      (moves.map (RxMove.toMove s.can.assignedId))
    have hlength := PopInput.run_length s.popInput (moves.map (RxMove.toMove s.can.assignedId))
    rw [hlength] at hend
    rw [← hrun] at hend hdone hreturns
    rw [← hreceived] at hdone
    rw [RxMove.steps_eq] at hreturns
    refine ⟨hend.trans hsize.le, fun hidle => hdone (congrArg RxPc.toPop hidle), fun hsteps => ?_⟩
    have hlast : s.popInput.receiveBuf.length = 192 := hsize
    exact hpopping.idle (hreturns (by rw [hlast]; exact hsteps))
  · intro s len moves hsize hpos hlen hpc
    have hbuf : s.receivePos ≤ s.receiveBuf.length := hpos.trans hsize.ge
    obtain ⟨hrun, hreceived⟩ := serialRun_eq hsize moves
    obtain ⟨hend, hdone, hreturns⟩ := PopInput.run_exact hbuf hlen hpc
      (moves.map SerialMove.toMove)
    have hlength := PopInput.run_length s (moves.map SerialMove.toMove)
    rw [hlength, hsize] at hend
    rw [← hrun] at hend hdone hreturns
    rw [← hreceived] at hdone
    rw [SerialMove.steps_eq, hsize] at hreturns
    exact ⟨hend, hdone, hreturns⟩

/-- A buffer with three bytes of which one is popped. -/
def threeBytes : PopInput := ⟨[1, 2, 3] ++ List.replicate 189 0, 3, .read 1 0⟩

/-- A byte is received while the second one is moved, and another one before the new position is
stored. -/
theorem consolePopInput_races :
    (serialRun threeBytes [.task, .task, .irq 4, .task, .task, .task, .task, .irq 5, .task, .task,
      .task, .task, .task, .task, .task]).input = [2, 3, 4, 5] :=
  (consolePopInput_exact.2 threeBytes 1 _ rfl (by decide) (by decide) rfl).2.1 (by decide) |>.1

end Terraboot
