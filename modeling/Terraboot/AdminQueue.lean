import Terraboot.CanBus
import Terraboot.CanWake
import Terraboot.RingLog

/-!
# The Admin Queue

The queue of admin messages between the receive interrupt and the task, as a ring of eight
slots next to the log of the messages accepted since boot. Both positions are 32-bit counters.
The push position never wraps: before it could, the test for a full queue, made in wrapping
arithmetic, refuses everything.

## Main results

* `canRx_queueInv`: the ring holds the accepted messages that have not been taken, and the task
  has processed those before them.
* `admin_refused_iff`: which messages are refused.
* `admin_queue_sound_iff`: the queue does what it is for as long as the pull position is below
  2 ^ 32 - 8.
-/

namespace Terraboot

/-! ### Reading a message -/

/-- The first `k` fields of a message; the others are zero. -/
def CanbusMsg.fields (src : CanbusMsg) : ℕ → CanbusMsg
  | 0 => .zero
  | k + 1 => src.copyField k (src.fields k)

/-- A message is its fields. -/
theorem CanbusMsg.fields_all (src : CanbusMsg) : src.fields canbusMsgFields = src := by
  obtain ⟨id, dlc, data, hdata⟩ := src
  match data, hdata with
  | [_, _, _, _, _, _, _, _], _ => rfl

/-! ### The device's own ids -/

/-- The id is that of a short id, or none is assigned. -/
def CanRx.ShortId (s : CanRx) : Prop :=
  s.can.assignedId ≠ 0 → ∃ n, (1 ≤ n ∧ n ≤ 29) ∧ s.can.assignedId = canDecodeNodeid n

theorem canserialRxTask_shortId {s : CanRx} (h : s.ShortId) : (canserialRxTask s).ShortId := by
  unfold canserialRxTask
  cases hpc : s.pc with
  | adminId pullp msg =>
      rcases canProcessAdmin_id_cases s.can msg with hsame | ⟨hzero, -⟩ | ⟨n, hset, hnew⟩
      · rw [CanRx.ShortId]
        dsimp only
        rw [hsame]
        exact h
      · exact fun hne => absurd hzero hne
      · exact fun _ => ⟨n, hset.range, hnew⟩
  | clearId => exact fun hne => absurd rfl hne
  | idle | adminRead | scan | popMove | popCommit =>
      dsimp only
      split_ifs <;> exact h
  | clearWake | readConflict | clearConflict | clearFilter | readPush | readPull | adminFilter
  | adminAdvance | readPos | dispatch | popRead => exact h

/-- No id of a device is the admin id. -/
theorem CanRx.ShortId.ne_admin {s : CanRx} (h : s.ShortId) (hne : s.can.assignedId ≠ 0) :
    canbusIdAdmin ≠ s.can.assignedId ∧ canbusIdAdmin ≠ s.can.assignedId + 1 := by
  obtain ⟨n, hn, heq⟩ := h hne
  have hadmin : canbusIdAdmin = BitVec.ofNat 32 1008 := rfl
  have hone : (1 : Word) = BitVec.ofNat 32 1 := rfl
  rw [heq, canDecodeNodeid_of_range hn, hadmin, hone]
  refine ⟨fun hid => ?_, fun hid => ?_⟩
  · have hnat := congrArg BitVec.toNat hid
    rw [BitVec.toNat_ofNat, BitVec.toNat_ofNat] at hnat
    omega
  · have hnat := congrArg BitVec.toNat hid
    rw [BitVec.toNat_add, BitVec.toNat_ofNat, BitVec.toNat_ofNat, BitVec.toNat_ofNat] at hnat
    omega

/-! ### The invariant -/

/-- How many messages have been processed, and what the task has read of the next one, by where
it stands. -/
def RxPc.Queue (s : CanRx) : RxPc → Prop
  | .readPull pushp =>
      (s.adminPullPos.toNat ≤ pushp.toNat ∧ pushp.toNat ≤ s.adminPushPos.toNat) ∧
        s.processed = s.accepted.take s.adminPullPos.toNat
  | .adminRead pullp k msg =>
      (pullp = s.adminPullPos ∧ s.adminPullPos.toNat < s.adminPushPos.toNat) ∧
        s.processed = s.accepted.take s.adminPullPos.toNat ∧ k ≤ canbusMsgFields ∧
        msg = (s.adminQueue (adminSlot pullp)).fields k
  | .adminId pullp _ | .adminFilter pullp _ | .adminAdvance pullp =>
      (pullp = s.adminPullPos ∧ s.adminPullPos.toNat < s.adminPushPos.toNat) ∧
        s.processed = s.accepted.take (s.adminPullPos.toNat + 1)
  | _ => s.processed = s.accepted.take s.adminPullPos.toNat

/-- The queue, the accepted messages and the processed ones. -/
structure CanRx.QueueInv (s : CanRx) : Prop where
  ring : RingLog s.adminQueue s.accepted s.adminPullPos.toNat s.adminPushPos.toNat
  admin : ∀ msg ∈ s.accepted, msg.id = canbusIdAdmin
  task : s.pc.Queue s

theorem CanRx.QueueInv.front {s : CanRx} (h : s.QueueInv)
    (hlt : s.adminPullPos.toNat < s.adminPushPos.toNat) :
    s.accepted.take (s.adminPullPos.toNat + 1) =
      s.accepted.take s.adminPullPos.toNat ++ [s.adminQueue (adminSlot s.adminPullPos)] :=
  h.ring.front hlt

/-- A counter below another one does not wrap. -/
theorem toNat_add_one {p : Word} (h : p.toNat + 1 < 2 ^ 32) : (p + 1).toNat = p.toNat + 1 := by
  rw [BitVec.toNat_add]
  exact Nat.mod_eq_of_lt h

theorem canserialRxTask_queueInv {s : CanRx} (h : s.QueueInv) : (canserialRxTask s).QueueInv := by
  obtain ⟨hring, hadmin, htask⟩ := id h
  unfold canserialRxTask
  cases hpc : s.pc with
  | idle | scan | popMove | popCommit =>
      rw [hpc] at htask
      dsimp only
      split_ifs <;> exact ⟨hring, hadmin, by simpa [RxPc.Queue, hpc] using htask⟩
  | readConflict | popRead =>
      rw [hpc] at htask
      refine ⟨hring, hadmin, ?_⟩
      dsimp only
      split_ifs <;> exact htask
  | clearWake | clearConflict | clearId | clearFilter | readPos | dispatch =>
      rw [hpc] at htask
      exact ⟨hring, hadmin, htask⟩
  | readPush =>
      rw [hpc] at htask
      exact ⟨hring, hadmin, ⟨hring.le, le_rfl⟩, htask⟩
  | readPull pushp =>
      rw [hpc] at htask
      obtain ⟨⟨hlo, hhi⟩, hdone⟩ := htask
      refine ⟨hring, hadmin, ?_⟩
      dsimp only
      split_ifs with hempty
      · exact hdone
      · have hne : pushp.toNat ≠ s.adminPullPos.toNat := fun heq =>
          hempty (BitVec.eq_of_toNat_eq heq)
        have hlt : s.adminPullPos.toNat < s.adminPushPos.toNat := by omega
        exact ⟨⟨rfl, hlt⟩, hdone, Nat.zero_le _, rfl⟩
  | adminRead pullp k msg =>
      rw [hpc] at htask
      obtain ⟨⟨rfl, hlt⟩, hdone, hk, hmsg⟩ := htask
      dsimp only
      by_cases hmore : k < canbusMsgFields
      · rw [if_pos hmore]
        exact ⟨hring, hadmin, ⟨rfl, hlt⟩, hdone, hmore, by rw [hmsg]; rfl⟩
      · -- the whole message has been read, and it is an admin message
        obtain rfl : k = canbusMsgFields := by omega
        rw [CanbusMsg.fields_all] at hmsg
        have hfront := h.front hlt
        have hid : msg.id = canbusIdAdmin := by
          refine hadmin msg (List.mem_of_mem_take (i := s.adminPullPos.toNat + 1) ?_)
          rw [hfront, hmsg]
          exact List.mem_append_right _ (List.mem_singleton_self _)
        rw [if_neg hmore, if_pos hid]
        exact ⟨hring, hadmin, ⟨rfl, hlt⟩, by rw [hfront, ← hdone, hmsg]⟩
  | adminId | adminFilter =>
      rw [hpc] at htask
      exact ⟨hring, hadmin, htask⟩
  | adminAdvance pullp =>
      rw [hpc] at htask
      obtain ⟨⟨rfl, hlt⟩, hdone⟩ := htask
      have hnext := toNat_add_one (lt_of_le_of_lt hlt s.adminPushPos.isLt)
      refine ⟨?_, hadmin, ?_⟩
      · dsimp only
        rw [hnext]
        exact hring.pop hlt
      · exact hdone.trans (congrArg s.accepted.take hnext.symm)

/-- The interrupt writes behind what the task knows. -/
theorem RxPc.Queue.frame {s s' : CanRx} {pc : RxPc} (h : pc.Queue s)
    (hle : s.adminPullPos.toNat ≤ s.adminPushPos.toNat) (hpull : s'.adminPullPos = s.adminPullPos)
    (hpush : s.adminPushPos.toNat ≤ s'.adminPushPos.toNat) (hdone : s'.processed = s.processed)
    (hlog : ∀ k ≤ s.adminPushPos.toNat, s'.accepted.take k = s.accepted.take k)
    (hslot : s.adminPullPos.toNat < s.adminPushPos.toNat →
      s'.adminQueue (adminSlot s.adminPullPos) = s.adminQueue (adminSlot s.adminPullPos)) :
    pc.Queue s' := by
  cases pc with
  | readPull pushp =>
      obtain ⟨⟨hlo, hhi⟩, htake⟩ := h
      refine ⟨⟨by rwa [hpull], hhi.trans hpush⟩, ?_⟩
      rw [hdone, hpull, hlog _ hle]
      exact htake
  | adminRead pullp k msg =>
      obtain ⟨⟨rfl, hlt⟩, htake, hk, hmsg⟩ := h
      refine ⟨⟨hpull.symm, ?_⟩, ?_, hk, ?_⟩
      · rw [hpull]
        omega
      · rw [hdone, hpull, hlog _ hle]
        exact htake
      · rw [hslot hlt]
        exact hmsg
  | adminId pullp msg | adminFilter pullp filter | adminAdvance pullp =>
      obtain ⟨⟨rfl, hlt⟩, htake⟩ := h
      refine ⟨⟨hpull.symm, ?_⟩, ?_⟩
      · rw [hpull]
        omega
      · rw [hdone, hpull, hlog _ hlt]
        exact htake
  | idle | clearWake | readConflict | clearConflict | clearId | clearFilter | readPush | readPos
  | scan | dispatch | popRead | popMove | popCommit =>
      have htake : s'.processed = s'.accepted.take s'.adminPullPos.toNat := by
        rw [hdone, hpull, hlog _ hle]
        exact h
      exact htake

/-- The test for a full queue, by the positions' values. -/
theorem queue_full_iff {pull push : Word} (hle : pull.toNat ≤ push.toNat)
    (hroom : push.toNat ≤ pull.toNat + adminQueueSize) :
    pull + BitVec.ofNat 32 adminQueueSize ≤ push ↔
      push.toNat = pull.toNat + adminQueueSize ∨ 2 ^ 32 ≤ pull.toNat + adminQueueSize := by
  have hpull := pull.isLt
  have hpush := push.isLt
  rw [adminQueueSize] at hroom ⊢
  rw [BitVec.le_def, BitVec.toNat_add, BitVec.toNat_ofNat]
  omega

theorem canserialProcessData_queueInv {s : CanRx} (hpos : s.receivePos ≤ receiveBufSize)
    (h : s.QueueInv) (msg : CanbusMsg) : (canserialProcessData s msg).2.QueueInv := by
  obtain ⟨hring, hadmin, htask⟩ := h
  rcases canserialProcessData_cases s msg hpos with ⟨-, -, -, hs⟩ | ⟨-, -, hs⟩ | ⟨hid, hroom, hs⟩
    | hs
  · rw [hs]
    exact ⟨hring, hadmin, htask.frame hring.le rfl le_rfl rfl (fun _ _ => rfl) fun _ => rfl⟩
  · rw [hs]
    exact ⟨hring, hadmin, htask.frame hring.le rfl le_rfl rfl (fun _ _ => rfl) fun _ => rfl⟩
  · -- there is room, and the push position does not wrap
    rw [queue_full_iff hring.le hring.room, not_or] at hroom
    have hle := hring.room
    have hlt : s.adminPushPos.toNat < s.adminPullPos.toNat + adminQueueSize := by omega
    have hnext := toNat_add_one (p := s.adminPushPos) (by omega)
    rw [hs]
    refine ⟨?_, ?_, htask.frame hring.le rfl ?_ rfl ?_ ?_⟩
    · dsimp only
      rw [hnext]
      exact hring.push hlt msg
    · intro m hm
      rcases List.mem_append.mp hm with hold | hnew
      · exact hadmin m hold
      · rw [List.mem_singleton.mp hnew]
        exact hid
    · dsimp only
      omega
    · intro k hk
      exact List.take_append_of_le_length (by rw [hring.length]; exact hk)
    · intro hfront
      exact RingLog.update_front hfront hlt msg
  · rw [hs]
    exact ⟨hring, hadmin, htask⟩

/-- **The invariant holds in every reachable state.** -/
theorem canRx_queueInv (u : Uuid) (moves : List RxMove) :
    ((CanRx.boot u).run moves).QueueInv ∧ ((CanRx.boot u).run moves).ShortId := by
  have h := run_invariant (P := fun s => s.Shape ∧ s.QueueInv ∧ s.ShortId) (u := u)
    ⟨CanRx.boot_shape u, ⟨RingLog.empty _, fun _ hm => absurd hm List.not_mem_nil, rfl⟩,
      fun hne => absurd rfl hne⟩
    (fun _ hs => ⟨canserialRxTask_shape hs.1, canserialRxTask_queueInv hs.2.1,
      canserialRxTask_shortId hs.2.2⟩)
    (fun s msg hs => ⟨canserialProcessData_shape hs.1 msg,
      canserialProcessData_queueInv hs.1.pos hs.2.1 msg, by
        rw [CanRx.ShortId, canserialProcessData_can]
        exact hs.2.2⟩) moves
  exact h.2

/-! ### What the queue is for -/

/-- The position of the message that is being handled, from when it has been read until the pull
position moves on. -/
def RxPc.handling : RxPc → Option Word
  | .adminId pullp _ | .adminFilter pullp _ | .adminAdvance pullp => some pullp
  | _ => none

/-- The number of messages that the task is done with. -/
def CanRx.finished (s : CanRx) : ℕ :=
  if s.pc.handling.isSome then s.processed.length - 1 else s.processed.length

/-- **What the queue is for.** A message on the admin id is refused exactly when eight are
pending, that is, accepted and not finished. The messages processed are the accepted ones in
order of arrival, as they arrived; a message stays in its slot while it is being handled; and when
there is nothing left to wake up for, all have been processed. -/
structure AdminQueueSound (s : CanRx) : Prop where
  refused : ∀ msg, msg.id = canbusIdAdmin →
    ((canserialProcessData s msg).1 = -1 ↔ s.pending = adminQueueSize)
  pending : s.finished + s.pending = s.accepted.length
  order : s.processed <+: s.accepted
  kept : ∀ pullp, s.pc.handling = some pullp →
    s.processed.getLast? = some (s.adminQueue (adminSlot pullp))
  drained : s.pc = .idle → s.rxWake = false → s.processed = s.accepted

theorem CanRx.QueueInv.pending_eq {s : CanRx} (h : s.QueueInv) :
    s.pending = s.adminPushPos.toNat - s.adminPullPos.toNat := by
  rw [CanRx.pending]
  exact BitVec.toNat_sub_of_le h.ring.le

/-- Which messages are refused. -/
theorem admin_refused_iff {s : CanRx} (h : s.QueueInv) (hid : s.ShortId) {msg : CanbusMsg}
    (hmsg : msg.id = canbusIdAdmin) :
    (canserialProcessData s msg).1 = -1 ↔
      s.pending = adminQueueSize ∨ 2 ^ 32 ≤ s.adminPullPos.toNat + adminQueueSize := by
  have hfull := queue_full_iff h.ring.le h.ring.room
  have hown : ¬(s.can.assignedId ≠ 0 ∧ msg.id = s.can.assignedId) := fun hc =>
    (hid.ne_admin hc.1).1 (hmsg ▸ hc.2)
  have hconflict : ¬(s.can.assignedId ≠ 0 ∧ msg.id = s.can.assignedId + 1) := fun hc =>
    (hid.ne_admin hc.1).2 (hmsg ▸ hc.2)
  have hle := h.ring.le
  have hpending : s.pending = adminQueueSize ↔
      s.adminPushPos.toNat = s.adminPullPos.toNat + adminQueueSize := by
    rw [h.pending_eq]
    omega
  rw [canserialProcessData, if_neg hown, if_neg hconflict, if_pos hmsg, hpending, ← hfull]
  dsimp only
  split_ifs with hroom
  · exact iff_of_true rfl hroom
  · exact iff_of_false (by simp) hroom

/-- The task has processed the messages it is done with and the one it is handling. -/
theorem CanRx.QueueInv.processed_eq {s : CanRx} (h : s.QueueInv) :
    s.processed = s.accepted.take
      (s.adminPullPos.toNat + if s.pc.handling.isSome then 1 else 0) := by
  have htask := h.task
  cases hpc : s.pc with
  | adminId | adminFilter | adminAdvance =>
      rw [hpc] at htask
      exact htask.2
  | readPull =>
      rw [hpc] at htask
      exact htask.2
  | adminRead =>
      rw [hpc] at htask
      exact htask.2.1
  | idle | clearWake | readConflict | clearConflict | clearId | clearFilter | readPush | readPos
  | scan | dispatch | popRead | popMove | popCommit =>
      rw [hpc] at htask
      exact htask

theorem CanRx.QueueInv.handling {s : CanRx} (h : s.QueueInv) {pullp : Word}
    (hpc : s.pc.handling = some pullp) :
    pullp = s.adminPullPos ∧ s.adminPullPos.toNat < s.adminPushPos.toNat := by
  have htask := h.task
  cases hs : s.pc with
  | adminId | adminFilter | adminAdvance =>
      rw [hs] at htask hpc
      rw [RxPc.handling, Option.some.injEq] at hpc
      exact hpc ▸ htask.1
  | idle | clearWake | readConflict | clearConflict | clearId | clearFilter | readPush | readPos
  | scan | dispatch | popRead | popMove | popCommit | readPull | adminRead =>
      rw [hs] at hpc
      exact absurd hpc (by simp [RxPc.handling])

theorem CanRx.QueueInv.finished_eq {s : CanRx} (h : s.QueueInv) :
    s.finished = s.adminPullPos.toNat := by
  have hle := h.ring.le
  have hlen := congrArg List.length h.processed_eq
  rw [List.length_take, h.ring.length] at hlen
  rw [CanRx.finished]
  cases hpc : s.pc.handling with
  | none =>
      rw [hpc] at hlen
      simp only [Option.isSome_none, Bool.false_eq_true, if_false] at hlen ⊢
      omega
  | some pullp =>
      have hlt := (h.handling hpc).2
      rw [hpc] at hlen
      simp only [Option.isSome_some, if_true] at hlen ⊢
      omega

/-- From some position on a queue that is not full refuses everything. -/
theorem CanRx.QueueInv.not_sound {s : CanRx} (h : s.QueueInv) (hid : s.ShortId)
    (hlate : 2 ^ 32 - adminQueueSize ≤ s.adminPullPos.toNat) : ¬AdminQueueSound s := by
  intro hsound
  have hpush := s.adminPushPos.isLt
  rw [adminQueueSize] at hlate
  have hpending := (hsound.refused (setNodeidRequest s.can.uuid 1) rfl).mp
    ((admin_refused_iff h hid rfl).mpr (.inr (by rw [adminQueueSize]; omega)))
  rw [h.pending_eq, adminQueueSize] at hpending
  omega

/-- **The queue does what it is for as long as the pull position is below `2 ^ 32 - 8`**, and no
longer: from then on every message is refused. -/
theorem admin_queue_sound_iff (u : Uuid) (moves : List RxMove) :
    AdminQueueSound ((CanRx.boot u).run moves) ↔
      ((CanRx.boot u).run moves).adminPullPos.toNat < 2 ^ 32 - adminQueueSize := by
  obtain ⟨h, hid⟩ := canRx_queueInv u moves
  have hattended := canRx_attended u moves
  generalize (CanRx.boot u).run moves = s at *
  have hle := h.ring.le
  constructor
  · intro hsound
    by_contra hlate
    exact h.not_sound hid (not_lt.mp hlate) hsound
  · intro hearly
    have hprocessed := h.processed_eq
    refine ⟨fun msg hmsg => ?_, ?_, ?_, fun pullp hpc => ?_, fun hpc hwake => ?_⟩
    · rw [admin_refused_iff h hid hmsg]
      rw [adminQueueSize] at hearly ⊢
      omega
    · rw [h.finished_eq, h.pending_eq, h.ring.length]
      omega
    · rw [hprocessed]
      exact List.take_prefix _ _
    · obtain ⟨rfl, hlt⟩ := h.handling hpc
      rw [hpc, Option.isSome_some, if_pos rfl, h.front hlt] at hprocessed
      rw [hprocessed, List.getLast?_concat]
    · rw [CanRx.Attended, hpc, hwake] at hattended
      obtain ⟨-, hempty, -⟩ := hattended.resolve_left Bool.false_ne_true
      have hring := h.ring
      rw [hempty] at hring
      rw [hpc] at hprocessed
      exact hprocessed.trans hring.take_eq

/-! ### After `2 ^ 32 - 8` messages -/

/-- A message without data, which the device takes and ignores. -/
def emptyAdmin : CanbusMsg := { CanbusMsg.zero with id := canbusIdAdmin }

/-- It arrives, and the task runs until it sleeps again. -/
def emptyAdminCycle : List RxMove := .irq emptyAdmin :: List.replicate 23 .task

/-- This happens `n` times. -/
def emptyAdminRun (n : ℕ) : List RxMove := (List.replicate n emptyAdminCycle).flatten

/-- The device is at rest, without an id, after `n` messages. -/
structure CanRx.Resting (s : CanRx) (n : ℕ) : Prop where
  pc : s.pc = .idle
  id : s.can.assignedId = 0
  conflict : s.idConflictPending = false
  receivePos : s.receivePos = 0
  push : s.adminPushPos = s.adminPullPos
  pull : s.adminPullPos.toNat = n

theorem CanRx.Resting.cycle {s : CanRx} {n : ℕ} (h : s.Resting n)
    (hn : n + adminQueueSize < 2 ^ 32) : (s.run emptyAdminCycle).Resting (n + 1) := by
  obtain ⟨can, wake, receivePos, conflict, pull, push, queue, buf, sync, pc, acc, proc, disp⟩ := s
  obtain ⟨hpc, hid, hconflict, hpos, hpush, hpull⟩ := h
  dsimp only at hpc hid hconflict hpos hpush hpull
  subst hpc hconflict hpos hpush hpull
  have hroom : ¬push + BitVec.ofNat 32 adminQueueSize ≤ push := by
    rw [queue_full_iff le_rfl (Nat.le_add_right _ _)]
    rw [adminQueueSize] at hn ⊢
    omega
  have hnext := toNat_add_one (p := push) (by rw [adminQueueSize] at hn; omega)
  have hignored : ∀ data hdata, canProcessAdmin can ⟨canbusIdAdmin, 0#32, data, hdata⟩ = (can, []) :=
    fun _ _ => rfl
  have hrun : (CanRx.mk can wake 0 false push push queue buf sync .idle acc proc disp).run
      emptyAdminCycle =
      ⟨can, false, 0, false, push + 1, push + 1, Function.update queue (adminSlot push) emptyAdmin,
        buf, sync, .idle, acc ++ [emptyAdmin], proc ++ [emptyAdmin], disp⟩ := by
    simp [CanRx.run, emptyAdminCycle, CanRx.step, canserialProcessData, hid, emptyAdmin, hroom,
      canserialRxTask, canbusMsgFields, CanbusMsg.copyField, CanbusMsg.zero, hignored,
      commandFindBlock_wait (commandFindBlock_nil sync), needMoreData]
    exact congrArg (fun id => CanData.mk id can.uuid can.filter) hid.symm
  rw [hrun]
  exact ⟨rfl, hid, rfl, rfl, rfl, hnext⟩

theorem emptyAdminRun_resting (u : Uuid) (n : ℕ) (hn : n ≤ 2 ^ 32 - adminQueueSize) :
    ((CanRx.boot u).run (emptyAdminRun n)).Resting n := by
  induction n with
  | zero => exact ⟨rfl, rfl, rfl, rfl, rfl, rfl⟩
  | succ n ih =>
      have hsplit : emptyAdminRun (n + 1) = emptyAdminRun n ++ emptyAdminCycle := by
        rw [emptyAdminRun, List.replicate_succ', List.flatten_append, List.flatten_singleton]
        rfl
      rw [hsplit, CanRx.run_append]
      exact (ih (Nat.le_of_succ_le hn)).cycle (by rw [adminQueueSize] at hn ⊢; omega)

/-- Once `2 ^ 32 - 8` messages have been processed, the queue is empty and refuses. -/
theorem admin_queue_wedged :
    ¬AdminQueueSound ((CanRx.boot someUuid).run (emptyAdminRun (2 ^ 32 - adminQueueSize))) := by
  obtain ⟨hqueue, hid⟩ := canRx_queueInv someUuid (emptyAdminRun (2 ^ 32 - adminQueueSize))
  exact hqueue.not_sound hid (emptyAdminRun_resting someUuid _ le_rfl).pull.ge

end Terraboot
