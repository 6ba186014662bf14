import Terraboot.Dispatch

/-!
# Tasks

`timeout_init` and `timeout_task` of `sched.c` and `complete_task` of `flashcmd.c`. A task
that reads the clock twice takes both readings. `application_jump` and `system_reset` do
not return, so the outcome of a task says which of them it ends in.

## Main results

* `timeoutTask_eq_jump_iff`: when the idle timeout starts the application.
* `timeoutTask_cases`: otherwise it changes at most `timeout_start`.
-/

namespace Terraboot

variable {S T : Type}

/-- The constants of `sched.c`, in microseconds. -/
def timeoutNoShortidUs : ℕ := 10 * 1000000
def timeoutWithShortidUs : ℕ := 30 * 1000000

/-- `canserial_has_assigned_id` -/
def canserialHasAssignedId (d : Device S T) : Bool := d.assignedId != 0

/-- The variable `timeout_us` of `timeout_task`. -/
def timeoutUs (assigned : Bool) : ℕ :=
  if assigned then timeoutWithShortidUs else timeoutNoShortidUs

/-- `timeout_init` -/
def timeoutInit (now : T) (d : Device S T) : Device S T :=
  if !d.commandedEntry then { d with timeoutInitialized := false }
  else { d with timeoutStart := now, timeoutInitialized := true }

/-- How `timeout_task` ends: by returning without having done anything, by restarting the
timeout, or by `application_jump`. -/
inductive TimeoutOutcome (S T : Type)
  | waiting
  | restarted (d : Device S T)
  | applicationJump

/-- `timeout_task`; `later` is the time of its second reading of the clock. -/
def timeoutTask (b : Board S T) (now later : T) (d : Device S T) : TimeoutOutcome S T :=
  -- `#if CONFIG_CANSERIAL`: other builds do not have the task
  if !b.cfg.canserial then .waiting
  else if !d.timeoutInitialized then .waiting
  else if d.isInTransfer then .waiting
  else
    let timeoutEnd := b.timer.add d.timeoutStart
      (b.timer.fromUs (timeoutUs (canserialHasAssignedId d)))
    if b.timer.isBefore now timeoutEnd then .waiting
    else if applicationCheckValid b.cfg d.flash.mem then .applicationJump
    else .restarted { d with timeoutStart := later }

/-- `complete_task`: whether it calls `system_reset`. -/
def completeTask (b : Board S T) (now : T) (d : Device S T) : Bool :=
  d.complete && b.timer.isBefore d.completeEndtime now

/-- The deadline of the idle timeout has passed. -/
def TimedOut (b : Board S T) (now : T) (d : Device S T) : Prop :=
  b.timer.isBefore now (b.timer.add d.timeoutStart
    (b.timer.fromUs (timeoutUs (canserialHasAssignedId d)))) = false

instance (b : Board S T) (now : T) (d : Device S T) : Decidable (TimedOut b now d) :=
  inferInstanceAs (Decidable (_ = _))

/-- **When the idle timeout starts the application.** -/
theorem timeoutTask_eq_jump_iff (b : Board S T) (now later : T) (d : Device S T) :
    timeoutTask b now later d = .applicationJump ↔
      b.cfg.canserial = true ∧ d.timeoutInitialized = true ∧ d.isInTransfer = false ∧
        TimedOut b now d ∧ applicationCheckValid b.cfg d.flash.mem = true := by
  rw [timeoutTask, TimedOut]
  dsimp only
  split_ifs with hcan hinit htransfer hbefore hvalid
  · exact iff_of_false nofun fun h => by simp [h.1] at hcan
  · exact iff_of_false nofun fun h => by simp [h.2.1] at hinit
  · exact iff_of_false nofun fun h => by simp [h.2.2.1] at htransfer
  · exact iff_of_false nofun fun h => by simp [h.2.2.2.1] at hbefore
  · exact iff_of_true rfl ⟨by simpa using hcan, by simpa using hinit, by simpa using htransfer,
      by simpa using hbefore, hvalid⟩
  · exact iff_of_false nofun fun h => hvalid h.2.2.2.2

/-- Short of a jump, the timeout task changes at most `timeout_start`. -/
theorem timeoutTask_cases (b : Board S T) (now later : T) (d : Device S T) :
    timeoutTask b now later d = .waiting ∨ timeoutTask b now later d = .applicationJump ∨
      timeoutTask b now later d = .restarted { d with timeoutStart := later } := by
  rw [timeoutTask]
  dsimp only
  split_ifs
  · exact .inl rfl
  · exact .inl rfl
  · exact .inl rfl
  · exact .inl rfl
  · exact .inr (.inl rfl)
  · exact .inr (.inr rfl)

end Terraboot
