import Terraboot.ConflictFlag
import Terraboot.IdleTimeout
import Terraboot.TransmitTask

/-!
# The Heartbeat

`canserial_heartbeat_task` compares a 32-bit counter with the time of the last heartbeat, which it
does not update while no id is assigned, and it does not look at the answer of `canbus_send`. Here
the receive side of the device, with its assignments, clears and conflicts, runs beside a true clock
that does not wrap around, the counter being its low 32 bits, and beside the true time at which
the last heartbeat went out.

## Main results

* `HeartbeatRun.run_tracks`: the counter value that is kept is that of the last heartbeat.
* `heartbeat_timely_iff`: when a heartbeat goes out as it should.
* `heartbeat_goes_missing`: a device that was without an id for too long sends none.
-/

open WrapClock

namespace Terraboot

/-- `CANBUS_HEARTBEAT_ID_BASE` -/
def canbusHeartbeatIdBase : Word := 0x700

/-- `heartbeat_interval_us` -/
def heartbeatIntervalUs : ℕ := 2500000

/-- The receive side of the device and `heartbeat_last_time`. -/
structure HeartbeatNode where
  rx : CanRx
  heartbeatLastTime : Word

namespace HeartbeatNode

/-- `canserial_heartbeat_init` -/
def canserialHeartbeatInit (now : Word) (rx : CanRx) : HeartbeatNode := ⟨rx, now⟩

/-- `canserial_heartbeat_task`, with the message that it hands to `canbus_send`. -/
def canserialHeartbeatTask (timer : Timer Word) (now : Word) (s : HeartbeatNode) :
    HeartbeatNode × Option CanPacket :=
  if s.rx.can.assignedId = 0 then (s, none)
  else if timer.isBefore (timer.add s.heartbeatLastTime (timer.fromUs heartbeatIntervalUs)) now then
    let shortId := (s.rx.can.assignedId - BitVec.ofNat 32 canbusNodeidBase) >>> canbusNodeidShift
    ({ s with heartbeatLastTime := now }, some ⟨canbusHeartbeatIdBase + shortId, [0x04]⟩)
  else (s, none)

end HeartbeatNode

/-- A device beside the true time, in ticks, and the true time at which its last heartbeat went
out, or at which `canserial_heartbeat_init` ran. -/
structure HeartbeatRun where
  node : HeartbeatNode
  time : ℕ
  lastSent : ℕ

/-- What can happen. -/
inductive HeartbeatEvent
  /-- Time passes. -/
  | tick (n : ℕ)
  /-- The receive interrupt strikes, or the receive task makes a step. -/
  | rx (move : RxMove)
  /-- `canserial_heartbeat_task` runs; `canbus_send` would return `ret`. -/
  | poll (ret : ℤ)

namespace HeartbeatRun

/-- After boot, at some time. -/
def boot (u : Uuid) (time : ℕ) : HeartbeatRun :=
  ⟨.canserialHeartbeatInit (counter 32 time) (.boot u), time, time⟩

/-- What the task does at a given time. -/
def poll (clockFreq : ℕ) (σ : HeartbeatRun) : HeartbeatNode × Option CanPacket :=
  σ.node.canserialHeartbeatTask (.wrapping clockFreq) (counter 32 σ.time)

/-- The heartbeat that goes out: one that is handed to `canbus_send`, and that it accepts. -/
def sent (clockFreq : ℕ) (σ : HeartbeatRun) (ret : ℤ) : Option CanPacket :=
  if 0 ≤ ret then (σ.poll clockFreq).2 else none

/-- One event. -/
def step (clockFreq : ℕ) (σ : HeartbeatRun) : HeartbeatEvent → HeartbeatRun
  | .tick n => { σ with time := σ.time + n }
  | .rx move => { σ with node := { σ.node with rx := σ.node.rx.step move } }
  | .poll ret =>
      { σ with
        node := (σ.poll clockFreq).1
        lastSent := if (σ.sent clockFreq ret).isSome then σ.time else σ.lastSent }

/-- A run. -/
def run (clockFreq : ℕ) (σ : HeartbeatRun) (events : List HeartbeatEvent) : HeartbeatRun :=
  events.foldl (step clockFreq) σ

/-- More than 2.5 seconds of true time have passed since the last heartbeat. -/
def Due (clockFreq : ℕ) (σ : HeartbeatRun) : Prop := 5 * clockFreq < 2 * (σ.time - σ.lastSent)

/-- What a poll should do: if a short id is assigned and a heartbeat is due, one goes out, and none
does if none is due. -/
def Timely (clockFreq : ℕ) (σ : HeartbeatRun) (ret : ℤ) : Prop :=
  (σ.node.rx.can.assignedId ≠ 0 → σ.Due clockFreq →
    ∃ n, σ.node.rx.can.assignedId = canDecodeNodeid n ∧
      σ.sent clockFreq ret = some ⟨BitVec.ofNat 32 (0x700 + n), [0x04]⟩) ∧
  (¬σ.Due clockFreq → σ.sent clockFreq ret = none)

/-- Whenever a heartbeat is due and an id is assigned, `canbus_send` has room for it, and the true
time in excess of the 2.5 seconds lies in the first half of a round of the counter. -/
def InTime (clockFreq : ℕ) (σ : HeartbeatRun) (ret : ℤ) : Prop :=
  σ.node.rx.can.assignedId ≠ 0 → σ.Due clockFreq →
    0 ≤ ret ∧ (σ.time - σ.lastSent - 5 * clockFreq / 2 - 1) % 2 ^ 32 < 2 ^ 31

/-- The condition at all polls of a run. -/
def AllInTime (clockFreq : ℕ) (σ : HeartbeatRun) (events : List HeartbeatEvent) : Prop :=
  ∀ pre ret post, events = pre ++ .poll ret :: post → (σ.run clockFreq pre).InTime clockFreq ret

/-- The counter value that is kept is that of the last heartbeat, and the id is one that can be
assigned. -/
structure Tracks (σ : HeartbeatRun) : Prop where
  last : σ.node.heartbeatLastTime = counter 32 σ.lastSent
  order : σ.lastSent ≤ σ.time
  shortId : σ.node.rx.can.assignedId ≠ 0 →
    ∃ n, (1 ≤ n ∧ n ≤ 29) ∧ σ.node.rx.can.assignedId = canDecodeNodeid n

end HeartbeatRun

/-! ### Clocks -/

theorem Mach.clockFreq_le (r : Bool) (m : Mach) : m.clockFreq r ≤ 400000000 := by
  rcases m with chip | - | - | - | -
  · cases chip <;> cases r <;> decide
  all_goals cases r <;> decide

/-- The ticks of the interval, as the wrapping timer sees them. -/
theorem fromUs_heartbeatIntervalUs {m : Mach} {cfg : Config} (h : cfg.IsBuildOf m) :
    (Timer.wrapping cfg.clockFreq).fromUs heartbeatIntervalUs =
        counter 32 (5 * cfg.clockFreq / 2) ∧
      5 * cfg.clockFreq / 2 * 2 = 5 * cfg.clockFreq ∧ 2 * (5 * cfg.clockFreq / 2) < 2 ^ 32 := by
  obtain ⟨r, hclock⟩ := h.clock
  have hmhz := m.clockFreq_eq r
  have hle := m.clockFreq_le r
  rw [← hclock] at hmhz hle
  have hticks : heartbeatIntervalUs * (cfg.clockFreq / 1000000) = 5 * cfg.clockFreq / 2 := by
    rw [heartbeatIntervalUs]
    omega
  refine ⟨?_, by omega, by omega⟩
  rw [← hticks, counter, BitVec.ofNat_mul]
  rfl

/-- The short id is recovered from the id. -/
theorem heartbeatId_eq {n : ℕ} (h : 1 ≤ n ∧ n ≤ 29) :
    canbusHeartbeatIdBase +
        ((canDecodeNodeid n - BitVec.ofNat 32 canbusNodeidBase) >>> canbusNodeidShift) =
      BitVec.ofNat 32 (0x700 + n) := by
  have hall : ∀ k < 30, 1 ≤ k → canbusHeartbeatIdBase +
      ((canDecodeNodeid k - BitVec.ofNat 32 canbusNodeidBase) >>> canbusNodeidShift) =
        BitVec.ofNat 32 (0x700 + k) := by decide +kernel
  exact hall n (by omega) h.1

/-! ### One event -/

namespace HeartbeatRun

variable {m : Mach} {cfg : Config} {σ : HeartbeatRun}

/-- **One poll**: the task hands over a heartbeat if a short id is assigned, a heartbeat is due and
the counter shows it. -/
theorem poll_cases (hb : cfg.IsBuildOf m) (hσ : σ.Tracks) :
    (σ.node.rx.can.assignedId ≠ 0 ∧ σ.Due cfg.clockFreq ∧
        (σ.time - σ.lastSent - 5 * cfg.clockFreq / 2 - 1) % 2 ^ 32 < 2 ^ 31 ∧
        ∃ n, σ.node.rx.can.assignedId = canDecodeNodeid n ∧
          σ.poll cfg.clockFreq = (⟨σ.node.rx, counter 32 σ.time⟩,
            some ⟨BitVec.ofNat 32 (0x700 + n), [0x04]⟩)) ∨
      ((σ.node.rx.can.assignedId ≠ 0 → σ.Due cfg.clockFreq →
          2 ^ 31 ≤ (σ.time - σ.lastSent - 5 * cfg.clockFreq / 2 - 1) % 2 ^ 32) ∧
        σ.poll cfg.clockFreq = (σ.node, none)) := by
  obtain ⟨hticks, heven, hrange⟩ := fromUs_heartbeatIntervalUs hb
  obtain ⟨hlast, horder, hid⟩ := hσ
  have htime : σ.time = σ.lastSent + (σ.time - σ.lastSent) := (Nat.add_sub_cancel' horder).symm
  have hpast := past_deadline_iff (w := 32) (s := σ.lastSent) (e := σ.time - σ.lastSent)
    (by decide) hrange
  rw [← htime] at hpast
  by_cases hzero : σ.node.rx.can.assignedId = 0
  · exact .inr ⟨fun hne => absurd hzero hne, if_pos hzero⟩
  obtain ⟨n, hn, hdecode⟩ := hid hzero
  have hpoll : σ.poll cfg.clockFreq =
      if before (counter 32 σ.lastSent + counter 32 (5 * cfg.clockFreq / 2)) (counter 32 σ.time) then
        (⟨σ.node.rx, counter 32 σ.time⟩, some ⟨BitVec.ofNat 32 (0x700 + n), [0x04]⟩)
      else (σ.node, none) := by
    rw [poll, HeartbeatNode.canserialHeartbeatTask, if_neg hzero, hticks, hlast]
    dsimp only
    rw [hdecode, heartbeatId_eq hn]
    rfl
  rw [hpoll]
  split_ifs with hbefore
  · obtain ⟨hdue, hround⟩ := hpast.mp hbefore
    exact .inl ⟨hzero, by rw [Due]; omega, by omega, n, hdecode, rfl⟩
  · refine .inr ⟨fun _ hdue => ?_, rfl⟩
    by_contra hround
    rw [Due] at hdue
    exact hbefore (hpast.mpr ⟨by omega, by omega⟩)

/-- **When a poll does what it should.** -/
theorem timely_iff (hb : cfg.IsBuildOf m) (hσ : σ.Tracks) (ret : ℤ) :
    σ.Timely cfg.clockFreq ret ↔ σ.InTime cfg.clockFreq ret := by
  rcases poll_cases hb hσ with ⟨hne, hdue, hround, n, hdecode, hpoll⟩ | ⟨hlate, hpoll⟩
  · constructor
    · intro htimely _ _
      obtain ⟨k, -, hsent⟩ := htimely.1 hne hdue
      refine ⟨?_, hround⟩
      by_contra hbusy
      rw [sent, if_neg hbusy] at hsent
      exact Option.some_ne_none _ hsent.symm
    · intro hin
      have hroom := (hin hne hdue).1
      refine ⟨fun _ _ => ⟨n, hdecode, ?_⟩, fun hnot => absurd hdue hnot⟩
      rw [sent, if_pos hroom, hpoll]
  · have hnone : σ.sent cfg.clockFreq ret = none := by
      rw [sent, hpoll]
      exact ite_self _
    constructor
    · intro htimely hne hdue
      obtain ⟨k, -, hsent⟩ := htimely.1 hne hdue
      rw [hnone] at hsent
      exact absurd hsent.symm (Option.some_ne_none _)
    · intro hin
      refine ⟨fun hne hdue => ?_, fun _ => hnone⟩
      exact absurd (hin hne hdue).2 (not_lt.mpr (hlate hne hdue))

theorem boot_tracks (u : Uuid) (time : ℕ) : (boot u time).Tracks :=
  ⟨rfl, le_rfl, fun h => absurd rfl h⟩

/-- The receive side keeps the id one that can be assigned. -/
theorem rx_shortId {s : CanRx}
    (h : s.can.assignedId ≠ 0 → ∃ n, (1 ≤ n ∧ n ≤ 29) ∧ s.can.assignedId = canDecodeNodeid n)
    (move : RxMove) : (s.step move).can.assignedId ≠ 0 →
      ∃ n, (1 ≤ n ∧ n ≤ 29) ∧ (s.step move).can.assignedId = canDecodeNodeid n := by
  cases move with
  | irq msg =>
      rw [CanRx.step, canserialProcessData_can]
      exact h
  | task =>
      rw [CanRx.step]
      rcases canserialRxTask_id_cases s with ⟨hsame, -⟩ | ⟨-, hzero⟩ | ⟨pullp, msg, -, hid, -⟩
      · rw [hsame]
        exact h
      · exact fun hne => absurd hzero hne
      · rw [hid]
        rcases canProcessAdmin_id_cases s.can msg with hsame | ⟨hzero, -⟩ | ⟨n, hset, hnew⟩
        · rw [hsame]
          exact h
        · exact fun hne => absurd hzero hne
        · exact fun _ => ⟨n, hset.range, hnew⟩

/-- **One event** keeps track of the last heartbeat, if polls meet the condition. -/
theorem step_tracks (hb : cfg.IsBuildOf m) (hσ : σ.Tracks) (event : HeartbeatEvent)
    (hin : ∀ ret, event = .poll ret → σ.InTime cfg.clockFreq ret) :
    (σ.step cfg.clockFreq event).Tracks := by
  cases event with
  | tick n => exact ⟨hσ.last, hσ.order.trans (Nat.le_add_right _ n), hσ.shortId⟩
  | rx move => exact ⟨hσ.last, hσ.order, rx_shortId hσ.shortId move⟩
  | poll ret =>
      rw [step, sent]
      rcases poll_cases hb hσ with ⟨hne, hdue, -, n, -, hpoll⟩ | ⟨-, hpoll⟩
      · rw [hpoll, if_pos (hin ret rfl hne hdue).1]
        exact ⟨rfl, le_rfl, hσ.shortId⟩
      · rw [hpoll, ite_self]
        exact ⟨hσ.last, hσ.order, hσ.shortId⟩

/-- **A whole run** keeps track of the last heartbeat. -/
theorem run_tracks (hb : cfg.IsBuildOf m) (hσ : σ.Tracks) {events : List HeartbeatEvent}
    (hin : σ.AllInTime cfg.clockFreq events) : (σ.run cfg.clockFreq events).Tracks := by
  induction events generalizing σ with
  | nil => exact hσ
  | cons event events ih =>
      refine ih (step_tracks hb hσ event fun ret hevent => ?_) fun pre ret post hsplit => ?_
      · exact hin [] ret events (by rw [hevent]; rfl)
      · exact hin (event :: pre) ret post (by rw [hsplit]; rfl)

end HeartbeatRun

/-- **When heartbeats do not go missing.** On every build and from every start: in a run that met
the condition at every poll so far, the next poll does what it should exactly if it meets the
condition: whenever a heartbeat is due and a short id is assigned, `canbus_send` has room, and the
time in excess of 2.5 seconds lies in the first half of a round of the counter. -/
theorem heartbeat_timely_iff {m : Mach} {cfg : Config} (hb : cfg.IsBuildOf m) (u : Uuid) (time : ℕ)
    (events : List HeartbeatEvent)
    (hin : (HeartbeatRun.boot u time).AllInTime cfg.clockFreq events) (ret : ℤ) :
    ((HeartbeatRun.boot u time).run cfg.clockFreq events).Timely cfg.clockFreq ret ↔
      ((HeartbeatRun.boot u time).run cfg.clockFreq events).InTime cfg.clockFreq ret :=
  HeartbeatRun.timely_iff hb (HeartbeatRun.run_tracks hb (HeartbeatRun.boot_tracks u time) hin) ret

/-- Some time passes, and then the device is given short id 5. -/
def assignedAfter (n : ℕ) : List HeartbeatEvent :=
  .tick n :: .rx (.irq (setNodeidRequest someUuid 5)) :: List.replicate 23 (.rx .task)

theorem assignedAfter_allInTime (σ : HeartbeatRun) (clockFreq n : ℕ) :
    σ.AllInTime clockFreq (assignedAfter n) := by
  intro pre ret post hsplit
  have hmem : HeartbeatEvent.poll ret ∈ assignedAfter n := by
    rw [hsplit]
    simp
  simp [assignedAfter] at hmem

/-- Three seconds after boot, a heartbeat goes out. -/
theorem heartbeat_timely_three :
    ((HeartbeatRun.boot someUuid 0).run steinzeit.clockFreq (assignedAfter 216000000)).Timely
      steinzeit.clockFreq 1 :=
  (heartbeat_timely_iff steinzeit_isBuildOf someUuid 0 (assignedAfter 216000000)
    (assignedAfter_allInTime _ _ _) 1).mpr fun _ _ => ⟨by decide, by decide +kernel⟩

/-- A device without an id for more than half a round of the counter, about 32 seconds, sends no
heartbeat when it is given one. -/
theorem heartbeat_goes_missing :
    ¬∀ time events ret, ((HeartbeatRun.boot someUuid time).run steinzeit.clockFreq events).Timely
      steinzeit.clockFreq ret := by
  intro h
  have hin := (HeartbeatRun.timely_iff steinzeit_isBuildOf
    (HeartbeatRun.run_tracks steinzeit_isBuildOf (HeartbeatRun.boot_tracks someUuid 0)
      (assignedAfter_allInTime _ _ (2 ^ 31 + 180000001))) 1).mp (h 0 _ 1)
  have hround := (hin (by decide +kernel) (by rw [HeartbeatRun.Due]; decide +kernel)).2
  revert hround
  decide +kernel

end Terraboot
