import Terraboot.Boards
import Terraboot.CanBus
import Terraboot.CanReceive

/-!
# Acknowledging an Assignment

`can_process_set_canboot_nodeid` acknowledges a request that gives the device a new id. A request
for the id that the device has is a retry if the acknowledgement of the first one was lost; it
changes nothing, and is not acknowledged either.

## Main results

* `canRx_settled`: wherever no handler has stopped half-way, the hardware filter is set to the id.
* `assignment_acked_iff`: which requests are acknowledged.
-/

namespace Terraboot

/-! ### The filter follows the id -/

/-- The task is not between the two stores of a handler. -/
def RxPc.Settled : RxPc → Prop
  | .clearFilter | .adminFilter .. => False
  | _ => True

/-- The id and the filter of a device fit together, or do so after the next step. -/
def RxPc.FilterInv (s : CanRx) : RxPc → Prop
  | .clearFilter => s.can.assignedId = 0
  | .adminFilter _ filter => ({ s.can with filter := filter } : CanData).Consistent
  | _ => s.can.Consistent

theorem RxPc.FilterInv.consistent {s : CanRx} (h : s.pc.FilterInv s) (hpc : s.pc.Settled) :
    s.can.Consistent := by
  revert h hpc
  cases s.pc <;> first | exact fun h _ => h | exact fun _ hpc => hpc.elim

theorem canserialRxTask_filterInv {s : CanRx} (h : s.pc.FilterInv s) :
    (canserialRxTask s).pc.FilterInv (canserialRxTask s) := by
  unfold canserialRxTask
  cases hpc : s.pc with
  | idle =>
      dsimp only
      split_ifs
      · rw [hpc] at h
        exact h
      · exact h
  | clearId => exact rfl
  | clearFilter =>
      rw [hpc] at h
      have hzero : s.can.assignedId = 0 := h
      exact ⟨fun hne => absurd hzero hne, fun hne => absurd hzero hne⟩
  | adminId pullp msg =>
      rw [hpc] at h
      have hnew := canProcessAdmin_consistent (c := s.can) h msg
      exact ⟨hnew.filter, hnew.shortId⟩
  | readConflict | readPull | popRead =>
      rw [hpc] at h
      dsimp only
      split_ifs <;> exact h
  | adminRead | scan | popMove | popCommit =>
      rw [hpc] at h
      dsimp only
      split_ifs <;> exact h
  | clearWake | clearConflict | readPush | adminFilter | adminAdvance | readPos | dispatch =>
      rw [hpc] at h
      exact h

theorem canserialProcessData_pc (s : CanRx) (msg : CanbusMsg) :
    (canserialProcessData s msg).2.pc = s.pc := by
  rw [canserialProcessData]
  dsimp only
  split_ifs <;> rfl

/-- **Wherever no handler has stopped half-way**, the filter is set to the id, and the id is that of
a short id or zero. -/
theorem canRx_settled (u : Uuid) (moves : List RxMove)
    (hpc : ((CanRx.boot u).run moves).pc.Settled) :
    ((CanRx.boot u).run moves).can.Consistent := by
  refine RxPc.FilterInv.consistent ?_ hpc
  refine run_invariant (P := fun s => s.pc.FilterInv s) ?_ (fun _ => canserialRxTask_filterInv)
    (fun s msg h => ?_) moves
  · exact ⟨fun hne => absurd rfl hne, fun hne => absurd rfl hne⟩
  · rw [canserialProcessData_pc]
    revert h
    cases s.pc <;> simp only [RxPc.FilterInv, canserialProcessData_can] <;> exact fun h => h

theorem canRx_uuid (u : Uuid) (moves : List RxMove) :
    ((CanRx.boot u).run moves).can.uuid = u := by
  refine run_invariant (P := fun s => s.can.uuid = u) rfl (fun s h => ?_) (fun s msg h => ?_) moves
  · rw [← h, canserialRxTask]
    cases s.pc <;> dsimp only <;> split_ifs <;> rfl
  · rw [canserialProcessData_can, h]

/-! ### The acknowledgement -/

/-- A request that matches gives the device the id and is acknowledged; any other is not, and
changes the state only if it gives the id of the device to another UUID. -/
structure AssignmentAcked (c : CanData) (msg : CanbusMsg) : Prop where
  matching : ∀ n, SetsId c.uuid.val n msg → canProcessAdmin c msg =
    ({ c with assignedId := canDecodeNodeid n, filter := canDecodeNodeid n },
      [setNodeidAck (BitVec.ofNat 8 n)])
  other : (∀ n, ¬SetsId c.uuid.val n msg) → (canProcessAdmin c msg).2 = [] ∧
    ((canProcessAdmin c msg).1 = c ∨
      (canProcessAdmin c msg).1 = { c with assignedId := 0, filter := 0 } ∧
        ∃ v n, v ≠ c.uuid.val ∧ SetsId v n msg ∧ HoldsShortId c n)

theorem SetsId.echo {v : List Byte} {n : ℕ} {msg : CanbusMsg} (h : SetsId v n msg) :
    msg.data.getD 7 0 = BitVec.ofNat 8 n := by
  rw [← h.shortId, BitVec.ofNat_toNat, BitVec.setWidth_eq]

/-- A request for another device, or an invalid one. -/
theorem canProcessAdmin_unmatched {c : CanData} {msg : CanbusMsg}
    (hcmd : msg.data.getD 0 0 = canbusCmdSetCanbootNodeid)
    (hnot : ∀ n, ¬SetsId c.uuid.val n msg) : (canProcessAdmin c msg).2 = [] ∧
      ((canProcessAdmin c msg).1 = c ∨
        (canProcessAdmin c msg).1 = { c with assignedId := 0, filter := 0 } ∧
          ∃ v n, v ≠ c.uuid.val ∧ SetsId v n msg ∧ HoldsShortId c n) := by
  by_cases hset : ∃ v n, SetsId v n msg
  · obtain ⟨v, n, hset⟩ := hset
    have hother : v ≠ c.uuid.val := by
      rintro rfl
      exact hnot n hset
    rw [canProcessAdmin_set_eq c hset, if_neg hother]
    split_ifs with hid
    · have hheld : HoldsShortId c n := ⟨hid ▸ canDecodeNodeid_ne_zero hset.range, hid.symm⟩
      exact ⟨rfl, .inr ⟨rfl, v, n, hother, hset, hheld⟩⟩
    · exact ⟨rfl, .inl rfl⟩
  · rw [canProcessAdmin_invalid c hcmd fun v n h => hset ⟨v, n, h⟩]
    exact ⟨rfl, .inl rfl⟩

/-- **A request is acknowledged** unless it gives the device the id that it already has. -/
theorem assignmentAcked_iff {c : CanData} {msg : CanbusMsg}
    (hcmd : msg.data.getD 0 0 = canbusCmdSetCanbootNodeid) :
    AssignmentAcked c msg ↔
      ∀ n, SetsId c.uuid.val n msg → c.assignedId ≠ canDecodeNodeid n := by
  constructor
  · intro h n hset hid
    have hacked := h.matching n hset
    rw [canProcessAdmin_set_eq c hset, if_pos rfl, if_neg (not_not.mpr hid.symm)] at hacked
    exact absurd (congrArg Prod.snd hacked) (List.cons_ne_nil _ _).symm
  · intro h
    refine ⟨fun n hset => ?_, canProcessAdmin_unmatched hcmd⟩
    rw [canProcessAdmin_set_eq c hset, if_pos rfl, if_pos (h n hset).symm, hset.echo]
    rfl

/-- What a matching request leaves behind: the id and the filter are set to it. -/
theorem canProcessAdmin_matching {c : CanData} (hc : c.Consistent) {n : ℕ} {msg : CanbusMsg}
    (hset : SetsId c.uuid.val n msg) : (canProcessAdmin c msg).1 =
      { c with assignedId := canDecodeNodeid n, filter := canDecodeNodeid n } := by
  rw [canProcessAdmin_set c hset, if_pos rfl]
  split_ifs with hnew
  · rfl
  · have hid : c.assignedId = canDecodeNodeid n := (not_not.mp hnew).symm
    have hfilter : c.filter = c.assignedId :=
      hc.filter (hid ▸ canDecodeNodeid_ne_zero hset.range)
    rw [← hid]
    exact congrArg (CanData.mk c.assignedId c.uuid) hfilter

/-- A retry. -/
theorem canProcessAdmin_retry {c : CanData} {n : ℕ} {msg : CanbusMsg}
    (hset : SetsId c.uuid.val n msg) (hid : c.assignedId = canDecodeNodeid n) :
    canProcessAdmin c msg = (c, []) := by
  rw [canProcessAdmin_set_eq c hset, if_pos rfl, if_neg (not_not.mpr hid.symm)]

/-- **Which requests are acknowledged**, wherever a device can process one: those that do not give
it the id it has. Of every matching one the id and the filter are those that it gives, and doing it
again changes nothing and is never acknowledged. -/
theorem assignment_acked_iff (u : Uuid) (moves : List RxMove)
    (hpc : ((CanRx.boot u).run moves).pc.Settled) {msg : CanbusMsg}
    (hcmd : msg.data.getD 0 0 = canbusCmdSetCanbootNodeid) :
    let c := ((CanRx.boot u).run moves).can
    (AssignmentAcked c msg ↔ ∀ n, SetsId u.val n msg → c.assignedId ≠ canDecodeNodeid n) ∧
      ∀ n, SetsId u.val n msg →
        let c' := (canProcessAdmin c msg).1
        c' = { c with assignedId := canDecodeNodeid n, filter := canDecodeNodeid n } ∧
          canProcessAdmin c' msg = (c', []) := by
  intro c
  have huuid : u = c.uuid := (canRx_uuid u moves).symm
  have hc : c.Consistent := canRx_settled u moves hpc
  rw [huuid]
  refine ⟨assignmentAcked_iff hcmd, fun n hset => ?_⟩
  intro c'
  have hnew : c' = { c with assignedId := canDecodeNodeid n, filter := canDecodeNodeid n } :=
    canProcessAdmin_matching hc hset
  have hset' : SetsId c'.uuid.val n msg := by
    rw [hnew]
    exact hset
  exact ⟨hnew, canProcessAdmin_retry hset' (congrArg CanData.assignedId hnew)⟩

/-- The device has been given short id 5. -/
def assignedRun : List RxMove := .irq (setNodeidRequest someUuid 5) :: List.replicate 24 .task

theorem setNodeidRequest_five : SetsId someUuid.val 5 (setNodeidRequest someUuid 5) :=
  ⟨by decide, rfl, rfl, rfl, by decide⟩

/-- The first request is acknowledged. -/
theorem assignment_acked_first :
    AssignmentAcked ((CanRx.boot someUuid).run []).can (setNodeidRequest someUuid 5) :=
  (assignment_acked_iff someUuid [] trivial rfl).1.mpr
    fun _ hset => (canDecodeNodeid_ne_zero hset.range).symm

/-- Its retry is not. -/
theorem assignment_retry_silent : ¬∀ moves : List RxMove,
    ((CanRx.boot someUuid).run moves).pc.Settled →
      AssignmentAcked ((CanRx.boot someUuid).run moves).can (setNodeidRequest someUuid 5) := by
  intro h
  have hidle : ((CanRx.boot someUuid).run assignedRun).pc = .idle := by decide +kernel
  have hacked := h assignedRun (by rw [hidle]; trivial)
  refine (assignmentAcked_iff rfl).mp hacked 5 ?_ (by decide +kernel)
  rw [canRx_uuid]
  exact setNodeidRequest_five

end Terraboot
