import Mathlib.Logic.Function.Basic
import Terraboot.Canserial
import Terraboot.FindBlock

/-!
# Receiving over CAN

The receive side of `generic/canserial.c` as two parties: the receive interrupt
`canserial_process_data`, which runs to its end wherever it strikes, and the task
`canserial_rx_task`, cut at every access to a variable that the interrupt uses too. A run is
any sequence of interrupts and task steps.

Reading the receive buffer, copying an admin message and moving the buffer down are one step a
byte or a field. What the task sends is left out: it goes through the transmit buffer, which the
receive side never looks at.

## Main results

* `canserialProcessData_cases`: the five things an interrupt can do.
* `run_invariant`: what holds after boot and is kept by interrupts and task steps holds after
  every run.
* `canRx_shape`: the buffer keeps its size, the receive position stays inside, and what the task
  has read of it stays what it was.
-/

open LittleEndian

namespace Terraboot

/-- `CANMSG_DATA_LEN` -/
def canmsgDataLen (msg : CanbusMsg) : ℕ := if 8 < msg.dlc.toNat then 8 else msg.dlc.toNat

theorem canmsgDataLen_le (msg : CanbusMsg) : canmsgDataLen msg ≤ 8 := by
  rw [canmsgDataLen]
  split_ifs <;> omega

/-- The sizes of `receive_buf` and `admin_queue`. -/
def receiveBufSize : ℕ := 192
def adminQueueSize : ℕ := 8

instance : NeZero adminQueueSize := ⟨by decide⟩

/-- A message of a zero-initialised queue. -/
def CanbusMsg.zero : CanbusMsg := ⟨0, 0, List.replicate 8 0, rfl⟩

/-- Copy the `k`-th field of a message: the id, the length, then the data bytes. -/
def CanbusMsg.copyField (src : CanbusMsg) : ℕ → CanbusMsg → CanbusMsg
  | 0, dst => { dst with id := src.id }
  | 1, dst => { dst with dlc := src.dlc }
  | k + 2, dst =>
      { dst with
        data := dst.data.set k (src.data.getD k 0)
        data_length := by rw [List.length_set, dst.data_length] }

/-- The number of fields of a message. -/
def canbusMsgFields : ℕ := 10

/-- Where `canserial_rx_task` stands, with its local variables. -/
inductive RxPc
  /-- Not running; its first step is the test of `sched_check_wake`. -/
  | idle
  | clearWake
  | readConflict
  | clearConflict
  | clearId
  | clearFilter
  | readPush
  | readPull (pushp : Word)
  /-- `k` fields of the message at `pullp` have been read. -/
  | adminRead (pullp : Word) (k : ℕ) (msg : CanbusMsg)
  | adminId (pullp : Word) (msg : CanbusMsg)
  | adminFilter (pullp filter : Word)
  | adminAdvance (pullp : Word)
  | readPos
  /-- `command_find_block` has read the bytes `seen` of the first `rpos`. -/
  | scan (rpos : ℕ) (seen : List Byte)
  | dispatch (len : ℕ)
  /-- `console_pop_input`, before it reads the position. -/
  | popRead (len copied : ℕ)
  /-- The `memmove` has come to the byte `i`. -/
  | popMove (len rpos i : ℕ)
  | popCommit (len rpos : ℕ)
  deriving DecidableEq

/-- The receive side of `struct canbus_data`, the static `sync_state`, the place of the task,
and, as history, the admin messages accepted and processed and the blocks dispatched. -/
structure CanRx where
  can : CanData
  rxWake : Bool
  receivePos : ℕ
  idConflictPending : Bool
  adminPullPos : Word
  adminPushPos : Word
  adminQueue : Fin adminQueueSize → CanbusMsg
  receiveBuf : List Byte
  syncState : SyncState
  pc : RxPc
  accepted : List CanbusMsg
  processed : List CanbusMsg
  dispatched : List (List Byte)

/-- After boot: `canserial_set_uuid` has notified the task. -/
def CanRx.boot (u : Uuid) : CanRx where
  can := ⟨0, u, 0⟩
  rxWake := true
  receivePos := 0
  idConflictPending := false
  adminPullPos := 0
  adminPushPos := 0
  adminQueue := fun _ => .zero
  receiveBuf := List.replicate receiveBufSize 0
  syncState := .init
  pc := .idle
  accepted := []
  processed := []
  dispatched := []

/-- The slot of a queue position. -/
def adminSlot (p : Word) : Fin adminQueueSize := Fin.ofNat adminQueueSize p.toNat

/-- The bytes received and not popped. -/
def CanRx.input (s : CanRx) : List Byte := s.receiveBuf.take s.receivePos

/-- The number of admin messages in the queue. -/
def CanRx.pending (s : CanRx) : ℕ := (s.adminPushPos - s.adminPullPos).toNat

/-- `canserial_process_data` -/
def canserialProcessData (s : CanRx) (msg : CanbusMsg) : ℤ × CanRx :=
  if s.can.assignedId ≠ 0 ∧ msg.id = s.can.assignedId then
    let len := canmsgDataLen msg
    if receiveBufSize - s.receivePos < len then (-1, s)
    else
      (0,
        { s with
          receiveBuf := overwrite s.receiveBuf s.receivePos (msg.data.take len)
          receivePos := s.receivePos + len
          rxWake := true })
  else if s.can.assignedId ≠ 0 ∧ msg.id = s.can.assignedId + 1 then
    (0, { s with idConflictPending := true, rxWake := true })
  else if msg.id = canbusIdAdmin then
    let pushp := s.adminPushPos
    if s.adminPullPos + BitVec.ofNat 32 adminQueueSize ≤ pushp then (-1, s)
    else
      (0,
        { s with
          adminQueue := Function.update s.adminQueue (adminSlot pushp) msg
          adminPushPos := pushp + 1
          rxWake := true
          accepted := s.accepted ++ [msg] })
  else (0, s)

/-- One step of `canserial_rx_task`. -/
def canserialRxTask (s : CanRx) : CanRx :=
  match s.pc with
  | .idle => if s.rxWake then { s with pc := .clearWake } else s
  | .clearWake => { s with rxWake := false, pc := .readConflict }
  | .readConflict => { s with pc := if s.idConflictPending then .clearConflict else .readPush }
  | .clearConflict => { s with idConflictPending := false, pc := .clearId }
  -- `can_id_conflict`
  | .clearId => { s with can := { s.can with assignedId := 0 }, pc := .clearFilter }
  | .clearFilter => { s with can := { s.can with filter := s.can.assignedId }, pc := .readPush }
  | .readPush => { s with pc := .readPull s.adminPushPos }
  | .readPull pushp =>
      { s with
        pc :=
          if pushp = s.adminPullPos then .readPos else .adminRead s.adminPullPos 0 .zero }
  | .adminRead pullp k msg =>
      if k < canbusMsgFields then
        { s with
          pc := .adminRead pullp (k + 1) ((s.adminQueue (adminSlot pullp)).copyField k msg) }
      else if msg.id = canbusIdAdmin then
        { s with processed := s.processed ++ [msg], pc := .adminId pullp msg }
      else { s with pc := .adminAdvance pullp }
  -- `can_process_admin`: the handlers set the id first, then the filter
  | .adminId pullp msg =>
      let c := (canProcessAdmin s.can msg).1
      { s with can := { s.can with assignedId := c.assignedId }, pc := .adminFilter pullp c.filter }
  | .adminFilter pullp filter =>
      { s with can := { s.can with filter := filter }, pc := .adminAdvance pullp }
  | .adminAdvance pullp => { s with adminPullPos := pullp + 1, pc := .readPush }
  | .readPos => { s with pc := .scan s.receivePos [] }
  | .scan rpos seen =>
      if seen.length < rpos then
        { s with pc := .scan rpos (seen ++ [s.receiveBuf.getD seen.length 0]) }
      else
        let r := commandFindBlock seen s.syncState
        { s with
          syncState := r.syncState
          pc :=
            if 0 < r.ret then .dispatch r.popCount
            else if r.ret ≠ 0 then .popRead r.popCount 0
            else .idle }
  | .dispatch len =>
      { s with dispatched := s.dispatched ++ [s.receiveBuf.take len], pc := .popRead len 0 }
  -- `console_pop_input`
  | .popRead len copied =>
      { s with
        pc :=
          if s.receivePos - len ≠ 0 then .popMove len s.receivePos copied
          else .popCommit len s.receivePos }
  | .popMove len rpos i =>
      if i < rpos - len then
        { s with
          receiveBuf := s.receiveBuf.set i (s.receiveBuf.getD (i + len) 0)
          pc := .popMove len rpos (i + 1) }
      else { s with rxWake := true, pc := .popCommit len rpos }
  | .popCommit len rpos =>
      if rpos ≠ s.receivePos then { s with pc := .popRead len (rpos - len) }
      else { s with receivePos := rpos - len, pc := .idle }

/-- What happens next: the task goes on, or the interrupt strikes. -/
inductive RxMove
  | task
  | irq (msg : CanbusMsg)

/-- One move. -/
def CanRx.step (s : CanRx) : RxMove → CanRx
  | .task => canserialRxTask s
  | .irq msg => (canserialProcessData s msg).2

/-- The request that a device use a short id. -/
def setNodeidRequest (u : Uuid) (shortId : Byte) : CanbusMsg where
  id := canbusIdAdmin
  dlc := 8
  data := canbusCmdSetCanbootNodeid :: u.val ++ [shortId]
  data_length := by simp [u.property]

/-- Any interleaving. -/
def CanRx.run (s : CanRx) (moves : List RxMove) : CanRx := moves.foldl CanRx.step s

theorem CanRx.run_append (s : CanRx) (ms ms' : List RxMove) :
    s.run (ms ++ ms') = (s.run ms).run ms' := List.foldl_append

theorem CanRx.run_concat (s : CanRx) (ms : List RxMove) (m : RxMove) :
    s.run (ms ++ [m]) = (s.run ms).step m := s.run_append ms [m]

/-- **What holds after boot and is kept by interrupts and task steps** holds after every run. -/
theorem run_invariant {P : CanRx → Prop} {u : Uuid} (hboot : P (.boot u))
    (htask : ∀ s, P s → P (canserialRxTask s))
    (hirq : ∀ s msg, P s → P (canserialProcessData s msg).2) (moves : List RxMove) :
    P ((CanRx.boot u).run moves) := by
  induction moves using List.reverseRecOn with
  | nil => exact hboot
  | append_singleton moves move ih =>
      rw [CanRx.run_concat]
      cases move with
      | task => exact htask _ ih
      | irq msg => exact hirq _ msg ih

/-! ### The interrupt -/

/-- A message on the device's own id that fits is appended to the buffer. -/
structure Received (s s' : CanRx) (msg : CanbusMsg) : Prop where
  assigned : s.can.assignedId ≠ 0
  id : msg.id = s.can.assignedId
  fits : s.receivePos + canmsgDataLen msg ≤ receiveBufSize
  state : s' =
    { s with
      receiveBuf := overwrite s.receiveBuf s.receivePos (msg.data.take (canmsgDataLen msg))
      receivePos := s.receivePos + canmsgDataLen msg
      rxWake := true }

/-- A frame on the device's outgoing id is noted. -/
structure Conflicts (s s' : CanRx) (msg : CanbusMsg) : Prop where
  assigned : s.can.assignedId ≠ 0
  id : msg.id = s.can.assignedId + 1
  state : s' = { s with idConflictPending := true, rxWake := true }

/-- An admin message is queued. -/
structure Queued (s s' : CanRx) (msg : CanbusMsg) : Prop where
  id : msg.id = canbusIdAdmin
  room : ¬s.adminPullPos + BitVec.ofNat 32 adminQueueSize ≤ s.adminPushPos
  state : s' =
    { s with
      adminQueue := Function.update s.adminQueue (adminSlot s.adminPushPos) msg
      adminPushPos := s.adminPushPos + 1
      rxWake := true
      accepted := s.accepted ++ [msg] }

/-- **What an interrupt does**: it appends to the buffer, notes a conflict, queues an admin
message, or leaves everything as it is. -/
theorem canserialProcessData_cases (s : CanRx) (msg : CanbusMsg)
    (hpos : s.receivePos ≤ receiveBufSize) :
    Received s (canserialProcessData s msg).2 msg ∨ Conflicts s (canserialProcessData s msg).2 msg ∨
      Queued s (canserialProcessData s msg).2 msg ∨ (canserialProcessData s msg).2 = s := by
  rw [canserialProcessData]
  by_cases hown : s.can.assignedId ≠ 0 ∧ msg.id = s.can.assignedId
  · rw [if_pos hown]
    by_cases hfull : receiveBufSize - s.receivePos < canmsgDataLen msg
    · exact .inr (.inr (.inr (congrArg Prod.snd (if_pos hfull))))
    · exact .inl ⟨hown.1, hown.2, by omega, congrArg Prod.snd (if_neg hfull)⟩
  rw [if_neg hown]
  by_cases hconflict : s.can.assignedId ≠ 0 ∧ msg.id = s.can.assignedId + 1
  · exact .inr (.inl ⟨hconflict.1, hconflict.2, congrArg Prod.snd (if_pos hconflict)⟩)
  rw [if_neg hconflict]
  by_cases hadmin : msg.id = canbusIdAdmin
  · rw [if_pos hadmin]
    by_cases hfull : s.adminPullPos + BitVec.ofNat 32 adminQueueSize ≤ s.adminPushPos
    · exact .inr (.inr (.inr (congrArg Prod.snd (if_pos hfull))))
    · exact .inr (.inr (.inl ⟨hadmin, hfull, congrArg Prod.snd (if_neg hfull)⟩))
  · exact .inr (.inr (.inr (congrArg Prod.snd (if_neg hadmin))))

/-- The interrupt does not touch the id. -/
theorem canserialProcessData_can (s : CanRx) (msg : CanbusMsg) :
    (canserialProcessData s msg).2.can = s.can := by
  rw [canserialProcessData]
  dsimp only
  split_ifs <;> rfl

/-! ### The buffer -/

/-- What the task knows of the buffer, by where it stands. -/
def RxPc.Shape (s : CanRx) : RxPc → Prop
  | .scan rpos seen =>
      rpos ≤ s.receivePos ∧ seen.length ≤ rpos ∧ seen = s.receiveBuf.take seen.length
  | .dispatch len | .popRead len _ => len ≤ s.receivePos
  | .popMove len rpos _ | .popCommit len rpos => len ≤ rpos ∧ rpos ≤ s.receivePos
  | _ => True

/-- The shape of every state. -/
structure CanRx.Shape (s : CanRx) : Prop where
  size : s.receiveBuf.length = receiveBufSize
  pos : s.receivePos ≤ receiveBufSize
  task : s.pc.Shape s

/-- The task reads one more byte of the buffer. -/
theorem take_length_concat {buf seen : List Byte} (hseen : seen = buf.take seen.length)
    (h : seen.length < buf.length) :
    seen ++ [buf.getD seen.length 0] = buf.take (seen ++ [buf.getD seen.length 0]).length := by
  rw [List.length_append, List.length_singleton, List.take_add_one, ← hseen,
    List.getElem?_eq_getElem h, List.getD_eq_getElem _ _ h]
  rfl

theorem canserialRxTask_shape {s : CanRx} (h : s.Shape) : (canserialRxTask s).Shape := by
  obtain ⟨hsize, hpos, htask⟩ := h
  unfold canserialRxTask
  cases hpc : s.pc with
  | idle =>
      dsimp only
      split_ifs
      · exact ⟨hsize, hpos, trivial⟩
      · exact ⟨hsize, hpos, htask⟩
  | readConflict | readPull =>
      refine ⟨hsize, hpos, ?_⟩
      dsimp only
      split_ifs <;> trivial
  | clearWake | clearConflict | clearId | clearFilter | readPush | adminId | adminFilter
  | adminAdvance => exact ⟨hsize, hpos, trivial⟩
  | adminRead pullp k msg =>
      dsimp only
      split_ifs <;> exact ⟨hsize, hpos, trivial⟩
  | readPos => exact ⟨hsize, hpos, le_rfl, Nat.zero_le _, rfl⟩
  | scan rpos seen =>
      rw [hpc] at htask
      obtain ⟨hrpos, hlen, hseen⟩ := htask
      dsimp only
      by_cases hmore : seen.length < rpos
      · rw [if_pos hmore]
        refine ⟨hsize, hpos, hrpos, ?_, take_length_concat hseen (by omega)⟩
        rw [List.length_append, List.length_singleton]
        exact hmore
      · rw [if_neg hmore]
        have hpop := commandFindBlock_popCount_le seen s.syncState
        refine ⟨hsize, hpos, ?_⟩
        dsimp only
        split_ifs
        · exact hpop.trans (hlen.trans hrpos)
        · exact hpop.trans (hlen.trans hrpos)
        · trivial
  | dispatch len =>
      rw [hpc] at htask
      exact ⟨hsize, hpos, htask⟩
  | popRead len copied =>
      rw [hpc] at htask
      refine ⟨hsize, hpos, ?_⟩
      dsimp only
      split_ifs
      · exact ⟨htask, le_rfl⟩
      · exact ⟨htask, le_rfl⟩
  | popMove len rpos i =>
      rw [hpc] at htask
      dsimp only
      split_ifs
      · exact ⟨by rw [List.length_set, hsize], hpos, htask⟩
      · exact ⟨hsize, hpos, htask⟩
  | popCommit len rpos =>
      rw [hpc] at htask
      obtain ⟨hlen, hrpos⟩ := htask
      dsimp only
      split_ifs with hrace
      · -- bytes have arrived: those before `rpos` have been moved down
        refine ⟨hsize, hpos, ?_⟩
        exact hlen.trans hrpos
      · refine ⟨hsize, ?_, trivial⟩
        dsimp only
        omega

/-- What the task has read stays in place when bytes are appended behind it. -/
theorem RxPc.Shape.append {s s' : CanRx} {pc : RxPc} (h : pc.Shape s)
    (hpos : s.receivePos ≤ s'.receivePos)
    (hbuf : ∀ k ≤ s.receivePos, s'.receiveBuf.take k = s.receiveBuf.take k) : pc.Shape s' := by
  cases pc with
  | scan rpos seen =>
      obtain ⟨hrpos, hlen, hseen⟩ := h
      exact ⟨hrpos.trans hpos, hlen, hseen.trans (hbuf _ (hlen.trans hrpos)).symm⟩
  | dispatch | popRead => exact h.trans hpos
  | popMove | popCommit => exact ⟨h.1, h.2.trans hpos⟩
  | idle | clearWake | readConflict | clearConflict | clearId | clearFilter | readPush | readPull
  | adminRead | adminId | adminFilter | adminAdvance | readPos => trivial

theorem canmsgData_length (msg : CanbusMsg) :
    (msg.data.take (canmsgDataLen msg)).length = canmsgDataLen msg := by
  have := canmsgDataLen_le msg
  rw [List.length_take, msg.data_length]
  omega

theorem canserialProcessData_shape {s : CanRx} (h : s.Shape) (msg : CanbusMsg) :
    (canserialProcessData s msg).2.Shape := by
  obtain ⟨hsize, hpos, htask⟩ := h
  rcases canserialProcessData_cases s msg hpos with ⟨-, -, hfits, hs⟩ | ⟨-, -, hs⟩ | ⟨-, -, hs⟩ | hs
  · rw [hs]
    refine ⟨?_, hfits, ?_⟩
    · dsimp only
      rw [overwrite_length (by rw [canmsgData_length]; omega), hsize]
    · refine htask.append (Nat.le_add_right _ _) fun k hk => ?_
      exact overwrite_take hk (by omega)
  · rw [hs]
    exact ⟨hsize, hpos, htask.append le_rfl fun _ _ => rfl⟩
  · rw [hs]
    exact ⟨hsize, hpos, htask.append le_rfl fun _ _ => rfl⟩
  · rw [hs]
    exact ⟨hsize, hpos, htask⟩

theorem CanRx.boot_shape (u : Uuid) : (CanRx.boot u).Shape :=
  ⟨List.length_replicate, Nat.zero_le _, trivial⟩

/-- **The shape of every reachable state.** -/
theorem canRx_shape (u : Uuid) (moves : List RxMove) : ((CanRx.boot u).run moves).Shape :=
  run_invariant (CanRx.boot_shape u) (fun _ => canserialRxTask_shape)
    (fun _ msg h => canserialProcessData_shape h msg) moves

end Terraboot
