import Terraboot.Boards
import Terraboot.CanReceive

/-!
# No Lost Wake-up on CAN

The task clears `rx_wake` before it looks at anything, handles one block a run, and sets the
flag again itself only when bytes remain behind a popped block. The invariant says, for every
place of the task, what it has found nothing to do for, unless the flag has been set since.

## Main results

* `canRx_attended`: the invariant.
* `no_lost_wakeup`: when the flag is clear and the task is not running, there is nothing to do.
-/

namespace Terraboot

/-- What is known to need no attention when the flag is clear, by where the task stands. -/
def RxPc.Attended (s : CanRx) : RxPc → Prop
  | .idle =>
      s.idConflictPending = false ∧ s.adminPushPos = s.adminPullPos ∧
        (commandFindBlock s.input s.syncState).ret = 0
  | .clearWake | .readConflict | .clearConflict => True
  | .clearId | .clearFilter | .readPush | .adminRead _ _ _ | .adminId _ _ | .adminFilter _ _
  | .adminAdvance _ => s.idConflictPending = false
  | .readPull pushp => s.idConflictPending = false ∧ s.adminPushPos = pushp
  | .readPos | .dispatch _ | .popRead _ _ | .popMove _ _ _ =>
      s.idConflictPending = false ∧ s.adminPushPos = s.adminPullPos
  | .scan rpos _ =>
      s.idConflictPending = false ∧ s.adminPushPos = s.adminPullPos ∧ s.receivePos = rpos
  | .popCommit len rpos =>
      s.idConflictPending = false ∧ s.adminPushPos = s.adminPullPos ∧ rpos = len

/-- The flag is set, or what the task has looked at needs no attention. -/
def CanRx.Attended (s : CanRx) : Prop := s.rxWake = true ∨ s.pc.Attended s

/-- An empty buffer gives the parser nothing to do. -/
theorem commandFindBlock_nil (s : SyncState) : (commandFindBlock [] s).ret = 0 := rfl

/-- Looking again at a buffer that the parser waits on finds nothing. -/
theorem commandFindBlock_again {buf : List Byte} {s : SyncState}
    (h : (commandFindBlock buf s).ret = 0) :
    (commandFindBlock buf (commandFindBlock buf s).syncState).ret = 0 := by
  rw [commandFindBlock_wait h, needMoreData, h]

theorem canserialRxTask_attended {s : CanRx} (hshape : s.Shape) (h : s.Attended) :
    (canserialRxTask s).Attended := by
  obtain ⟨hsize, hpos, htask⟩ := hshape
  rw [CanRx.Attended] at h
  unfold canserialRxTask
  cases hpc : s.pc with
  | idle =>
      dsimp only
      split_ifs with hwake
      · exact .inl hwake
      · exact h
  | clearWake => exact .inr trivial
  | readConflict =>
      rw [hpc] at h
      refine .inr ?_
      dsimp only
      split_ifs with hconflict
      · trivial
      · exact Bool.eq_false_iff.mpr hconflict
  | clearConflict => exact .inr rfl
  | clearId | clearFilter | adminId | adminFilter | adminAdvance =>
      rw [hpc] at h
      exact h
  | readPush =>
      rw [hpc] at h
      exact h.imp_right fun hconflict => ⟨hconflict, rfl⟩
  | readPull pushp =>
      rw [hpc] at h
      refine h.imp_right ?_
      rintro ⟨hconflict, hpush⟩
      dsimp only
      split_ifs with hempty
      · exact ⟨hconflict, hpush.trans hempty⟩
      · exact hconflict
  | adminRead pullp k msg =>
      rw [hpc] at h
      dsimp only
      split_ifs <;> exact h
  | readPos =>
      rw [hpc] at h
      exact h.imp_right fun hquiet => ⟨hquiet.1, hquiet.2, rfl⟩
  | scan rpos seen =>
      rw [hpc] at h htask
      obtain ⟨hrpos, hlen, hseen⟩ := htask
      dsimp only
      by_cases hmore : seen.length < rpos
      · rw [if_pos hmore]
        exact h
      · rw [if_neg hmore]
        refine h.imp_right ?_
        rintro ⟨hconflict, hpush, hlast⟩
        dsimp only
        split_ifs with hblock hskip
        · exact ⟨hconflict, hpush⟩
        · exact ⟨hconflict, hpush⟩
        · -- the parser waits, and has seen the whole buffer
          obtain hwait : (commandFindBlock seen s.syncState).ret = 0 := not_not.mp hskip
          have hinput : s.input = seen := by
            rw [CanRx.input, hseen, hlast, show seen.length = rpos by omega]
          exact ⟨hconflict, hpush, (congrArg (fun buf => (commandFindBlock buf _).ret) hinput).trans
            (commandFindBlock_again hwait)⟩
  | dispatch len =>
      rw [hpc] at h
      exact h
  | popRead len copied =>
      rw [hpc] at h htask
      refine h.imp_right ?_
      rintro ⟨hconflict, hpush⟩
      dsimp only
      split_ifs with hmore
      · exact ⟨hconflict, hpush⟩
      · obtain hle : len ≤ s.receivePos := htask
        exact ⟨hconflict, hpush, by omega⟩
  | popMove len rpos i =>
      rw [hpc] at h
      dsimp only
      split_ifs
      · exact h
      · exact .inl rfl
  | popCommit len rpos =>
      rw [hpc] at h
      dsimp only
      split_ifs with hrace
      · exact h.imp_right fun hquiet => ⟨hquiet.1, hquiet.2.1⟩
      · refine h.imp_right ?_
        rintro ⟨hconflict, hpush, rfl⟩
        refine ⟨hconflict, hpush, ?_⟩
        rw [CanRx.input, Nat.sub_self]
        rfl

theorem canserialProcessData_attended {s : CanRx} (hshape : s.Shape) (h : s.Attended)
    (msg : CanbusMsg) : (canserialProcessData s msg).2.Attended := by
  rcases canserialProcessData_cases s msg hshape.pos with ⟨-, -, -, hs⟩ | ⟨-, -, hs⟩ | ⟨-, -, hs⟩
    | hs
  · rw [hs]
    exact .inl rfl
  · rw [hs]
    exact .inl rfl
  · rw [hs]
    exact .inl rfl
  · rw [hs]
    exact h

/-- **The invariant holds in every reachable state.** -/
theorem canRx_attended (u : Uuid) (moves : List RxMove) :
    ((CanRx.boot u).run moves).Attended := by
  have h := run_invariant (P := fun s => s.Shape ∧ s.Attended) ⟨CanRx.boot_shape u, .inl rfl⟩
    (fun _ hs => ⟨canserialRxTask_shape hs.1, canserialRxTask_attended hs.1 hs.2⟩)
    (fun _ msg hs => ⟨canserialProcessData_shape hs.1 msg,
      canserialProcessData_attended hs.1 hs.2 msg⟩) moves
  exact h.2

/-- **No wake-up is lost**: whatever the order of interrupts and task steps, when `rx_wake` is
clear and the task is not running, no admin message and no conflict is pending, the parser
finds neither a frame nor a byte to discard, and 64 bytes of the buffer are free. -/
theorem no_lost_wakeup (u : Uuid) (moves : List RxMove)
    (hpc : ((CanRx.boot u).run moves).pc = .idle)
    (hwake : ((CanRx.boot u).run moves).rxWake = false) :
    ((CanRx.boot u).run moves).pending = 0 ∧
      ((CanRx.boot u).run moves).idConflictPending = false ∧
      (commandFindBlock ((CanRx.boot u).run moves).input
        ((CanRx.boot u).run moves).syncState).ret = 0 ∧
      blockVerdict ((CanRx.boot u).run moves).input = .undecided ∧
      64 ≤ receiveBufSize - ((CanRx.boot u).run moves).receivePos := by
  have hshape := canRx_shape u moves
  have hattended := canRx_attended u moves
  generalize (CanRx.boot u).run moves = s at *
  rw [CanRx.Attended, hpc, hwake] at hattended
  obtain ⟨hconflict, hpush, hwait⟩ := hattended.resolve_left Bool.false_ne_true
  obtain ⟨-, hopen⟩ := (commandFindBlock_ret_eq_zero_iff _ _).mp hwait
  have hlen := blockVerdict_undecided_length hopen
  rw [CanRx.input, List.length_take, hshape.size, messageMax] at hlen
  have hpos := hshape.pos
  rw [receiveBufSize] at hlen hpos ⊢
  refine ⟨?_, hconflict, hwait, hopen, by omega⟩
  rw [CanRx.pending, hpush, BitVec.sub_self]
  rfl

/-- The first three bytes of a frame on the id of short id 5. -/
def frameStart : CanbusMsg :=
  ⟨canDecodeNodeid 5, 3, [messageStx1, messageStx2, 0x11, 0, 0, 0, 0, 0], rfl⟩

/-- A device is given short id 5, then the first bytes of a frame arrive. -/
def frameStartRun : List RxMove :=
  .irq (setNodeidRequest someUuid 5) :: List.replicate 24 .task ++
    .irq frameStart :: List.replicate 12 .task

/-- The device waits for the rest of the frame. -/
theorem no_lost_wakeup_frameStart :
    ((CanRx.boot someUuid).run frameStartRun).pending = 0 ∧
      ((CanRx.boot someUuid).run frameStartRun).idConflictPending = false ∧
      (commandFindBlock ((CanRx.boot someUuid).run frameStartRun).input
        ((CanRx.boot someUuid).run frameStartRun).syncState).ret = 0 ∧
      blockVerdict ((CanRx.boot someUuid).run frameStartRun).input = .undecided ∧
      64 ≤ receiveBufSize - ((CanRx.boot someUuid).run frameStartRun).receivePos :=
  no_lost_wakeup someUuid frameStartRun (by decide +kernel) (by decide +kernel)

end Terraboot
