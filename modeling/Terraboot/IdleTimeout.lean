import Terraboot.Boards
import Terraboot.Sched

/-!
# The Idle Timeout and the Wrapping Timer

`timeout_task` computes its deadline in 32 bits and compares it by the sign of a
difference. Here the device runs beside a true clock that does not wrap around, the
counter being its low 32 bits, and beside the true time at which `timeout_start` was last
set. Time passes, node ids come and go, commands arrive and the task is polled in any
order.

## Main results

* `Clocked.run_tracks`: `timeout_start` is the counter at the true start.
* `applicationJump_never_early_iff`: the timeout never fires early exactly on the clocks
  for which it is at most half the range of the counter.
-/

open NorFlash WrapClock

namespace Terraboot

variable {S : Type}

/-- A device beside the true time, in ticks, and the true time at which its `timeout_start`
was set. -/
structure Clocked (S : Type) where
  device : Device S Word
  time : ℕ
  started : ℕ

/-- What can happen to a device that waits in the bootloader. -/
inductive IdleEvent
  /-- Time passes. -/
  | tick (n : ℕ)
  /-- A node id is assigned, or cleared with 0. -/
  | assign (id : Word)
  /-- A message at the front of a buffer is dispatched. -/
  | request (buf : List Byte) (msglen : ℕ)
  /-- `timeout_task` runs, and `n` ticks pass between its two readings of the clock. -/
  | poll (n : ℕ)

/-- One event; `none` when the timeout task has called `application_jump`. -/
def Clocked.step (b : Board S Word) (σ : Clocked S) : IdleEvent → Option (Clocked S)
  | .tick n => some { σ with time := σ.time + n }
  | .assign id => some { σ with device := { σ.device with assignedId := id } }
  | .request buf msglen =>
      some { σ with
        device := (commandDispatch b (counter 32 σ.time) σ.device buf msglen).1 }
  | .poll n =>
      match timeoutTask b (counter 32 σ.time) (counter 32 (σ.time + n)) σ.device with
      | .waiting => some { σ with time := σ.time + n }
      | .restarted d => some ⟨d, σ.time + n, σ.time + n⟩
      | .applicationJump => none

/-- A run of events without a jump. -/
def Clocked.run (b : Board S Word) (σ : Clocked S) (events : List IdleEvent) :
    Option (Clocked S) :=
  events.foldlM (Clocked.step b) σ

/-- A device right after `timeout_init`. -/
def Clocked.start (time : ℕ) (d : Device S Word) : Clocked S :=
  ⟨timeoutInit (counter 32 time) d, time, time⟩

/-- A poll ends the run exactly when the timeout task jumps. -/
theorem Clocked.step_poll_eq_none_iff (b : Board S Word) (σ : Clocked S) (n : ℕ) :
    σ.step b (.poll n) = none ↔
      timeoutTask b (counter 32 σ.time) (counter 32 (σ.time + n)) σ.device =
        .applicationJump := by
  rw [step]
  rcases timeoutTask_cases b (counter 32 σ.time) (counter 32 (σ.time + n)) σ.device with h | h | h
  · rw [h]
    exact iff_of_false nofun nofun
  · rw [h]
    exact iff_of_true rfl rfl
  · rw [h]
    exact iff_of_false nofun nofun

/-- The timeout is running from its true start. -/
def Clocked.Tracks (σ : Clocked S) : Prop :=
  σ.device.timeoutInitialized = true →
    σ.device.timeoutStart = counter 32 σ.started ∧ σ.started ≤ σ.time

theorem Clocked.start_tracks (time : ℕ) (d : Device S Word) : (Clocked.start time d).Tracks := by
  intro h
  rw [start, timeoutInit] at h ⊢
  split_ifs at h ⊢ with hentry
  exact ⟨rfl, le_rfl⟩

/-- One event keeps track of the start. -/
theorem Clocked.step_tracks {b : Board S Word} {σ σ' : Clocked S} {e : IdleEvent}
    (hσ : σ.Tracks) (h : σ.step b e = some σ') : σ'.Tracks := by
  cases e with
  | tick n =>
      obtain rfl := Option.some.inj h
      intro hinit
      obtain ⟨hstart, hle⟩ := hσ hinit
      exact ⟨hstart, hle.trans (Nat.le_add_right _ _)⟩
  | assign id =>
      obtain rfl := Option.some.inj h
      exact hσ
  | request buf msglen =>
      obtain rfl := Option.some.inj h
      have hsame := commandDispatch_sameEntry b (counter 32 σ.time) σ.device buf msglen
      intro hinit
      obtain ⟨hstart, hle⟩ := hσ (hsame.timeoutInitialized.symm.trans hinit)
      exact ⟨hsame.timeoutStart.trans hstart, hle⟩
  | poll n =>
      rw [step] at h
      rcases timeoutTask_cases b (counter 32 σ.time) (counter 32 (σ.time + n)) σ.device with
        hw | hj | hr
      · rw [hw] at h
        obtain rfl := Option.some.inj h
        intro hinit
        obtain ⟨hstart, hle⟩ := hσ hinit
        exact ⟨hstart, hle.trans (Nat.le_add_right _ _)⟩
      · rw [hj] at h
        exact absurd h nofun
      · rw [hr] at h
        obtain rfl := Option.some.inj h
        exact fun _ => ⟨rfl, le_rfl⟩

/-- **Every run keeps track of the start.** -/
theorem Clocked.run_tracks {b : Board S Word} {σ σ' : Clocked S} {events : List IdleEvent}
    (hσ : σ.Tracks) (h : σ.run b events = some σ') : σ'.Tracks := by
  induction events generalizing σ with
  | nil =>
      obtain rfl := Option.some.inj h
      exact hσ
  | cons e events ih =>
      rw [run, List.foldlM_cons] at h
      obtain ⟨σ₁, hstep, hrest⟩ := Option.bind_eq_some_iff.mp h
      exact ih (step_tracks hσ hstep) hrest

/-! ### The deadline -/

/-- Every clock of the Kconfig files is a whole number of megahertz. -/
theorem Mach.clockFreq_eq (r : Bool) (m : Mach) :
    m.clockFreq r = m.clockFreq r / 1000000 * 1000000 := by
  rcases m with chip | - | - | - | -
  · cases chip <;> cases r <;> rfl
  all_goals cases r <;> rfl

/-- The idle timeout in seconds. -/
def timeoutSeconds (assigned : Bool) : ℕ := if assigned then 30 else 10

theorem timeoutUs_eq (assigned : Bool) :
    timeoutUs assigned = timeoutSeconds assigned * 1000000 := by
  cases assigned <;> rfl

/-- The ticks of the timeout, as the wrapping timer sees them. -/
theorem fromUs_timeoutUs {m : Mach} {cfg : Config} (h : cfg.IsBuildOf m) (assigned : Bool) :
    (Timer.wrapping cfg.clockFreq).fromUs (timeoutUs assigned) =
      counter 32 (timeoutSeconds assigned * cfg.clockFreq) := by
  obtain ⟨r, hclock⟩ := h.clock
  have hmhz : cfg.clockFreq = cfg.clockFreq / 1000000 * 1000000 := by
    rw [hclock]
    exact m.clockFreq_eq r
  have hticks : timeoutUs assigned * (cfg.clockFreq / 1000000) =
      timeoutSeconds assigned * cfg.clockFreq := by
    rw [timeoutUs_eq, Nat.mul_assoc, Nat.mul_comm 1000000, ← hmhz]
  rw [← hticks, counter, BitVec.ofNat_mul]
  rfl

/-- **When the idle timeout is never early.** On every build with CAN, and for either kind of
timeout: no run, from whatever counter value, leads to a poll that jumps to the application
before the true time of the timeout has passed, exactly if the timeout is at most 2^31
ticks, or no flash content is a valid application. -/
theorem applicationJump_never_early_iff {m : Mach} {cfg : Config} (hb : cfg.IsBuildOf m)
    (hcan : cfg.canserial = true) (hw : Hardware) (assigned : Bool) :
    (∀ time d events σ n, (Clocked.start time d).run (m.board hw cfg) events = some σ →
      canserialHasAssignedId σ.device = assigned → σ.step (m.board hw cfg) (.poll n) = none →
      timeoutSeconds assigned * cfg.clockFreq ≤ σ.time - σ.started) ↔
    timeoutSeconds assigned * cfg.clockFreq ≤ 2 ^ 31 ∨
      ∀ mem, applicationCheckValid cfg mem = false := by
  have hrange : 2 * (timeoutSeconds assigned * cfg.clockFreq) ≤ 2 ^ 32 ↔
      timeoutSeconds assigned * cfg.clockFreq ≤ 2 ^ 31 := by omega
  have htimer : (m.board hw cfg).timer = Timer.wrapping cfg.clockFreq := rfl
  have hticks := fromUs_timeoutUs hb assigned
  rw [← hrange]
  constructor
  · intro h
    by_contra hlong
    rw [not_or, not_forall] at hlong
    obtain ⟨hlong, mem, hmem⟩ := hlong
    rw [Bool.not_eq_false] at hmem
    obtain ⟨e, he, hpast⟩ := exists_past_deadline (w := 32) (by decide) (not_le.mp hlong) 0
    -- a commanded entry at counter 0, a node id or none, and a poll after `e` ticks
    obtain ⟨d, hd⟩ : ∃ d : Device m.FlashState Word, d =
        { Device.init (m.board hw cfg) ⟨List.replicate 6 0, rfl⟩ ⟨mem, []⟩ with
          commandedEntry := true } := ⟨_, rfl⟩
    obtain ⟨id, hid⟩ : ∃ id : Word, (id != 0) = assigned := by
      cases assigned
      · exact ⟨0, rfl⟩
      · exact ⟨1, rfl⟩
    have hjump : Clocked.step (m.board hw cfg)
        ⟨{ timeoutInit (counter 32 0) d with assignedId := id }, 0 + e, 0⟩ (.poll 0) = none := by
      rw [Clocked.step_poll_eq_none_iff, timeoutTask_eq_jump_iff]
      refine ⟨hcan, by rw [hd]; rfl, by rw [hd]; rfl, ?_, by rw [hd]; exact hmem⟩
      have hassigned : canserialHasAssignedId
          { timeoutInit (counter 32 0) d with assignedId := id } = assigned := hid
      rw [TimedOut, hassigned, htimer, hticks, hd]
      exact hpast
    have hrun : (Clocked.start 0 d).run (m.board hw cfg) [.assign id, .tick e] =
        some ⟨{ timeoutInit (counter 32 0) d with assignedId := id }, 0 + e, 0⟩ := rfl
    have hearly := h 0 d [.assign id, .tick e] _ 0 hrun hid hjump
    dsimp only at hearly
    omega
  · intro hcond time d events σ n hrun hassigned hjump
    rw [Clocked.step_poll_eq_none_iff, timeoutTask_eq_jump_iff] at hjump
    obtain ⟨-, hinit, -, htimed, hvalid⟩ := hjump
    rcases hcond with hshort | hnone
    swap
    · exact absurd (hvalid.symm.trans (hnone σ.device.flash.mem)) (by decide)
    obtain ⟨hstart, hle⟩ := Clocked.run_tracks (Clocked.start_tracks time d) hrun hinit
    by_contra hearly
    have helapsed : σ.time - σ.started < timeoutSeconds assigned * cfg.clockFreq :=
      not_le.mp hearly
    have hbefore := before_deadline (w := 32) (s := σ.started) hshort helapsed
    rw [TimedOut, hassigned, hstart, htimer, hticks] at htimed
    rw [Nat.add_sub_cancel' hle] at hbefore
    exact absurd (hbefore.symm.trans htimed) (by decide)

/-- At 72 MHz the timeout with a node id can be early. -/
theorem applicationJump_early_steinzeit_clock :
    ¬∀ time d events σ n,
      (Clocked.start time d).run (Mach.board (.stm32 .f103)
        ⟨64, ⟨fun _ _ => 0, fun _ _ _ => 0⟩⟩ steinzeit) events = some σ →
      canserialHasAssignedId σ.device = true →
      σ.step (Mach.board (.stm32 .f103) ⟨64, ⟨fun _ _ => 0, fun _ _ _ => 0⟩⟩ steinzeit)
        (.poll n) = none →
      timeoutSeconds true * steinzeit.clockFreq ≤ σ.time - σ.started := by
  intro h
  rcases (applicationJump_never_early_iff steinzeit_isBuildOf rfl
    ⟨64, ⟨fun _ _ => 0, fun _ _ _ => 0⟩⟩ true).mp h with hshort | hnone
  · exact absurd hshort (by decide)
  · exact absurd (steinzeitApp_valid.symm.trans (hnone steinzeitApp)) (by decide)

/-- On the shipped configuration, with a valid application in flash: a node id is assigned
right after the commanded entry, and the next poll jumps although no time has passed. -/
theorem applicationJump_at_once :
    ∃ σ, (Clocked.start 0 { steinzeitDevice with
        flash := ⟨steinzeitApp, []⟩, commandedEntry := true }).run steinzeitBoard
        [.assign 0x40] = some σ ∧
      canserialHasAssignedId σ.device = true ∧ σ.step steinzeitBoard (.poll 0) = none ∧
      σ.time - σ.started = 0 := by
  refine ⟨_, rfl, rfl, ?_, rfl⟩
  rw [Clocked.step_poll_eq_none_iff, timeoutTask_eq_jump_iff]
  exact ⟨rfl, rfl, rfl, by decide, steinzeitApp_valid⟩

end Terraboot
