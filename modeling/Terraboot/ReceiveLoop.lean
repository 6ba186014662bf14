import Terraboot.FindBlock

/-!
# The Receive Loop

The loop every transport runs over its receive buffer (`console_task` of
`generic/serial_irq.c`, `canserial_rx_task`, `usb_bulk_out_task`): newly received bytes
are appended, `command_find_block` is called on what is buffered, its `pop_count` bytes
are popped whenever the result is nonzero, the block is dispatched when the result is 1,
and this repeats while the result is nonzero. Neither the number of passes nor the room
in the buffer is limited here; `Terraboot.UsbReceive` treats a buffer of fixed size.

## Main results

* `receiveLoop_run`: from a receiver that tracks a stream, the loop stops within
  `rxMeasure` passes and leaves a receiver that tracks the same stream and waits.
* `receiveChunks_greedy`: for every stream and every way of cutting it into chunks, the
  loop stops after every chunk and the dispatched blocks are the greedy decomposition of
  the stream.
-/

open LittleEndian StreamScanner

namespace Terraboot

/-- The receive side of a transport: the buffered bytes, the static `sync_state`, the
blocks handed to `command_dispatch` so far, and the NACKs sent. -/
structure RxState where
  receiveBuf : List Byte
  syncState : SyncState
  dispatched : List (List Byte)
  nacks : ℕ
  deriving DecidableEq, Repr

/-- The receiver after boot. -/
def RxState.init : RxState := ⟨[], .init, [], 0⟩

/-- Newly received bytes are appended to the buffer. -/
def RxState.receive (s : RxState) (c : List Byte) : RxState :=
  { s with receiveBuf := s.receiveBuf ++ c }

/-- `console_task`: one pass over the buffer, with the result of `command_find_block`. -/
def consoleTask (s : RxState) : ℤ × RxState :=
  let r := commandFindBlock s.receiveBuf s.syncState
  (r.ret,
    { receiveBuf := if r.ret ≠ 0 then s.receiveBuf.drop r.popCount else s.receiveBuf
      syncState := r.syncState
      dispatched :=
        if 0 < r.ret then s.dispatched ++ [s.receiveBuf.take r.popCount] else s.dispatched
      nacks := s.nacks + r.nack.toNat })

/-- The passes after a chunk has arrived, at most `fuel` of them. -/
def receiveLoop : ℕ → RxState → Option RxState
  | 0, _ => none
  | fuel + 1, s =>
      if (consoleTask s).1 = 0 then some (consoleTask s).2
      else receiveLoop fuel (consoleTask s).2

/-- The chunks arrive one after the other; the loop runs to its end after each. -/
def receiveChunks (fuel : ℕ) : RxState → List (List Byte) → Option RxState
  | s, [] => some s
  | s, c :: cs => do
      let s' ← receiveLoop fuel (s.receive c)
      receiveChunks fuel s' cs

/-! ### One pass -/

/-- The receiver tracks the stream `w` it has been given. -/
def RxState.Tracks (w : List Byte) (s : RxState) : Prop :=
  blockClassifier.Tracks notStx1 w s.receiveBuf s.dispatched

theorem consoleTask_tracks {w : List Byte} {s : RxState} (h : s.Tracks w) :
    (consoleTask s).2.Tracks w := by
  have ht := commandFindBlock_tracks s.syncState h
  by_cases hr : (commandFindBlock s.receiveBuf s.syncState).ret = 0
  · have hw := commandFindBlock_wait hr
    simp only [RxState.Tracks, consoleTask, hw, needMoreData]
    exact h
  · simp only [RxState.Tracks, consoleTask, if_pos hr]
    exact ht

theorem consoleTask_length_le (s : RxState) :
    (consoleTask s).2.receiveBuf.length ≤ s.receiveBuf.length := by
  simp only [consoleTask]
  split_ifs
  · rw [List.length_drop]
    omega
  · exact le_rfl

theorem consoleTask_progress {s : RxState} (h : (consoleTask s).1 ≠ 0) :
    rxMeasure (consoleTask s).2.receiveBuf (consoleTask s).2.syncState
      < rxMeasure s.receiveBuf s.syncState := by
  have hr : (commandFindBlock s.receiveBuf s.syncState).ret ≠ 0 := h
  have := commandFindBlock_progress hr
  simpa only [consoleTask, if_pos hr] using this

/-- A pass that finds nothing leaves the receiver waiting for more bytes. -/
theorem consoleTask_waits {s : RxState} (h : (consoleTask s).1 = 0) :
    blockVerdict (consoleTask s).2.receiveBuf = .undecided := by
  have hr : (commandFindBlock s.receiveBuf s.syncState).ret = 0 := h
  obtain ⟨-, hv⟩ := (commandFindBlock_ret_eq_zero_iff _ _).mp hr
  simpa [consoleTask, hr] using hv

/-! ### The loop -/

/-- The loop stops within `rxMeasure` passes, and preserves what the receiver tracks. -/
theorem receiveLoop_run {w : List Byte} (fuel : ℕ) (s : RxState) (h : s.Tracks w)
    (hf : rxMeasure s.receiveBuf s.syncState < fuel) :
    ∃ s', receiveLoop fuel s = some s' ∧ s'.Tracks w ∧
      s'.receiveBuf.length ≤ s.receiveBuf.length ∧
      blockVerdict s'.receiveBuf = .undecided := by
  induction fuel generalizing s with
  | zero => exact absurd hf (Nat.not_lt_zero _)
  | succ fuel ih =>
      have htask := consoleTask_tracks h
      have hle := consoleTask_length_le s
      by_cases hr : (consoleTask s).1 = 0
      · exact ⟨(consoleTask s).2, by rw [receiveLoop, if_pos hr], htask, hle,
          consoleTask_waits hr⟩
      · have hlt := consoleTask_progress hr
        obtain ⟨s', hs', ht', hl', hv'⟩ := ih (consoleTask s).2 htask (by omega)
        exact ⟨s', by rw [receiveLoop, if_neg hr, hs'], ht', le_trans hl' hle, hv'⟩

theorem receiveChunks_run (fuel : ℕ) (chunks : List (List Byte)) (w : List Byte) (s : RxState)
    (h : s.Tracks w) (hv : blockVerdict s.receiveBuf = .undecided)
    (hf : 2 * (s.receiveBuf.length + chunks.flatten.length) + 1 < fuel) :
    ∃ s', receiveChunks fuel s chunks = some s' ∧ s'.Tracks (w ++ chunks.flatten) ∧
      blockVerdict s'.receiveBuf = .undecided := by
  induction chunks generalizing w s with
  | nil => exact ⟨s, rfl, by simpa using h, hv⟩
  | cons c chunks ih =>
      rw [List.flatten_cons, List.length_append] at hf
      have hb := Bool.toNat_le s.syncState.needSync
      have hrecv : (s.receive c).Tracks (w ++ c) := Classifier.Tracks.receive h c
      have hlen : (s.receive c).receiveBuf.length = s.receiveBuf.length + c.length := by
        rw [RxState.receive, List.length_append]
      have hmeas : rxMeasure (s.receive c).receiveBuf (s.receive c).syncState < fuel := by
        rw [rxMeasure, hlen, RxState.receive]
        dsimp only
        omega
      obtain ⟨s₁, hs₁, ht₁, hl₁, hv₁⟩ := receiveLoop_run fuel _ hrecv hmeas
      obtain ⟨s₂, hs₂, ht₂, hv₂⟩ := ih (w ++ c) s₁ ht₁ hv₁ (by omega)
      refine ⟨s₂, ?_, ?_, hv₂⟩
      · rw [receiveChunks, hs₁]
        exact hs₂
      · rwa [List.flatten_cons, ← List.append_assoc]

/-- **The receive loop is the greedy decomposition of the stream**, however the stream is
cut into chunks: the loop stops after every chunk, within a number of passes linear in
the length of the stream, and the blocks it dispatches are those of the decomposition.
At the end the receiver waits for more bytes. -/
theorem receiveChunks_greedy (chunks : List (List Byte)) (k : ℕ) :
    ∃ s, receiveChunks (2 * chunks.flatten.length + 2 + k) .init chunks = some s ∧
      s.dispatched = blockClassifier.blocks chunks.flatten ∧
      blockVerdict s.receiveBuf = .undecided := by
  obtain ⟨s, hs, ht, hv⟩ :=
    receiveChunks_run (2 * chunks.flatten.length + 2 + k) chunks [] .init
      Classifier.Tracks.init rfl (by simp only [RxState.init, List.length_nil]; omega)
  refine ⟨s, hs, ?_, hv⟩
  have := Classifier.Tracks.blocks_eq_of_undecided ht hv
  rw [List.nil_append] at this
  exact this.symm

/-- A CONNECT frame behind a stray byte, received in three chunks. -/
example :
    (receiveChunks 40 .init [[0x55, 0x01], [0x88, 0x11, 0x00], frame 0x11 [] |>.drop 4]).map
      (fun s => (s.dispatched, s.nacks)) = some ([frame 0x11 []], 1) := by decide

end Terraboot
