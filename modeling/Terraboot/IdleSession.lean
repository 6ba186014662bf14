import Terraboot.Boards
import Terraboot.Sched

/-!
# The Idle Timeout during a Host Session

A session of the flash tool on a CAN build, on an exact clock: CONNECT, the blocks of the
image, EOF, the reads of the verification, COMPLETE, with `timeout_task` polled and node
ids changing at any time in between. The flag that suppresses the timeout is raised by
block commands only; CONNECT and EOF lower it.

## Main results

* `Session.isInTransfer_iff`: in every run, the flag is down exactly in the gaps after
  CONNECT and after EOF.
* `Session.undisturbed_iff`: a session is not interrupted exactly if in these gaps no poll
  finds the deadline passed and a valid application.
-/

open NorFlash

namespace Terraboot

variable {S : Type}

/-- A build whose clock does not wrap around. -/
def exactBoard (cfg : Config) (backend : Backend S) : Board S ℕ :=
  ⟨cfg, backend, .exact cfg.clockFreq⟩

/-- The payload of a frame of at most 128 bytes. -/
abbrev Payload := { p : List Byte // p.length % 4 = 0 ∧ p.length ≤ 120 }

/-- What happens between CONNECT and COMPLETE. -/
inductive SessionEvent
  | sendBlock (now : ℕ) (payload : Payload)
  | sendEof (now : ℕ)
  | requestBlock (now : ℕ) (payload : Payload)
  /-- `timeout_task` runs; its second reading of the clock is `later`. -/
  | poll (now later : ℕ)
  /-- A node id is assigned, or cleared with 0. -/
  | assign (now : ℕ) (id : Word)

namespace SessionEvent

def time : SessionEvent → ℕ
  | .sendBlock now _ | .sendEof now | .requestBlock now _ | .poll now _ | .assign now _ => now

/-- The host's commands. -/
def isCommand : SessionEvent → Bool
  | .sendBlock _ _ | .sendEof _ | .requestBlock _ _ => true
  | .poll _ _ | .assign _ _ => false

end SessionEvent

/-- How far a session has come. -/
inductive Phase
  | connected
  | uploading
  | ended
  | verifying
  deriving DecidableEq, Repr

/-- The order of commands in a session. -/
def Phase.next : Phase → SessionEvent → Option Phase
  | .connected, .sendBlock _ _ | .uploading, .sendBlock _ _ => some .uploading
  | .connected, .sendEof _ | .uploading, .sendEof _ => some .ended
  | .ended, .requestBlock _ _ | .verifying, .requestBlock _ _ => some .verifying
  | ph, .poll _ _ | ph, .assign _ _ => some ph
  | _, _ => none

/-- The phase after some events of a session. -/
def phaseAfter (events : List SessionEvent) : Option Phase :=
  events.foldlM Phase.next .connected

/-- The phases that begin with a command which lowers the transfer flag. -/
def Phase.inGap : Phase → Bool
  | .connected | .ended => true
  | .uploading | .verifying => false

/-- A live **session**: the events come in order, the commands in the order of the flash
tool, each less than ten seconds after the one before. -/
structure Session (cfg : Config) where
  connectAt : ℕ
  events : List SessionEvent
  completeAt : ℕ
  commands : phaseAfter events = some .ended ∨ phaseAfter events = some .verifying
  ordered : (connectAt :: events.map SessionEvent.time ++ [completeAt]).IsChain (· ≤ ·)
  paced : (connectAt :: (events.filter SessionEvent.isCommand).map SessionEvent.time
    ++ [completeAt]).IsChain fun t t' => t' < t + 10 * cfg.clockFreq

/-- One event; `none` when `timeout_task` has called `application_jump`. -/
def sessionStep (b : Board S ℕ) (d : Device S ℕ) : SessionEvent → Option (Device S ℕ)
  | .sendBlock now p => some (commandDispatch b now d (frame 0x12 p.val) (p.val.length + 8)).1
  | .sendEof now => some (commandDispatch b now d (frame 0x13 []) 8).1
  | .requestBlock now p => some (commandDispatch b now d (frame 0x14 p.val) (p.val.length + 8)).1
  | .poll now later =>
      match timeoutTask b now later d with
      | .waiting => some d
      | .restarted d' => some d'
      | .applicationJump => none
  | .assign _ id => some { d with assignedId := id }

/-- The device after CONNECT and some events of a session. -/
def Session.deviceAfter {cfg : Config} (s : Session cfg) (b : Board S ℕ) (d : Device S ℕ)
    (events : List SessionEvent) : Option (Device S ℕ) :=
  events.foldlM (sessionStep b) (commandDispatch b s.connectAt d (frame 0x11 []) 8).1

/-- No poll of the session jumps to the application. -/
def Session.Undisturbed {cfg : Config} (s : Session cfg) (b : Board S ℕ) (d : Device S ℕ) :
    Prop :=
  ∀ pre now later post d', s.events = pre ++ .poll now later :: post →
    s.deviceAfter b d pre = some d' → timeoutTask b now later d' ≠ .applicationJump

/-- Every poll in a gap comes before the deadline or finds no valid application. -/
def Session.GapsSafe {cfg : Config} (s : Session cfg) (b : Board S ℕ) (d : Device S ℕ) : Prop :=
  ∀ pre now later post ph d', s.events = pre ++ .poll now later :: post →
    phaseAfter pre = some ph → ph.inGap = true → s.deviceAfter b d pre = some d' →
    now < d'.timeoutStart + timeoutUs (canserialHasAssignedId d') * (cfg.clockFreq / 1000000) ∨
      applicationCheckValid cfg d'.flash.mem = false

/-! ### The transfer flag over a session -/

/-- The flag agrees with the phase, and the timeout stays switched on. -/
structure InPhase (ph : Phase) (d : Device S ℕ) : Prop where
  isInTransfer : d.isInTransfer = !ph.inGap
  timeoutInitialized : d.timeoutInitialized = true

theorem connect_inPhase (b : Board S ℕ) (now : ℕ) {d : Device S ℕ}
    (hinit : d.timeoutInitialized = true) :
    InPhase .connected (commandDispatch b now d (frame 0x11 []) 8).1 := by
  rw [commandDispatch_connect]
  exact ⟨rfl, hinit⟩

/-- One event moves flag and phase together. -/
theorem sessionStep_inPhase {b : Board S ℕ} {ph ph' : Phase} {d d' : Device S ℕ}
    {e : SessionEvent} (h : InPhase ph d) (hph : ph.next e = some ph')
    (hd : sessionStep b d e = some d') : InPhase ph' d' := by
  cases e with
  | sendBlock now p =>
      obtain rfl := Option.some.inj hd
      have hsame := commandDispatch_sameEntry b now d (frame 0x12 p.val) (p.val.length + 8)
      refine ⟨?_, hsame.timeoutInitialized.trans h.timeoutInitialized⟩
      have hph' : ph' = .uploading := by
        cases ph <;> simp_all [Phase.next]
      rw [commandDispatch_writeBlock, commandWriteBlock_isInTransfer, hph']
      rfl
  | sendEof now =>
      obtain rfl := Option.some.inj hd
      have hsame := commandDispatch_sameEntry b now d (frame 0x13 []) 8
      refine ⟨?_, hsame.timeoutInitialized.trans h.timeoutInitialized⟩
      have hph' : ph' = .ended := by
        cases ph <;> simp_all [Phase.next]
      rw [commandDispatch_eof, commandEof_isInTransfer, hph']
      rfl
  | requestBlock now p =>
      obtain rfl := Option.some.inj hd
      have hsame := commandDispatch_sameEntry b now d (frame 0x14 p.val) (p.val.length + 8)
      refine ⟨?_, hsame.timeoutInitialized.trans h.timeoutInitialized⟩
      have hph' : ph' = .verifying := by
        cases ph <;> simp_all [Phase.next]
      rw [commandDispatch_readBlock, commandReadBlock_isInTransfer, hph']
      rfl
  | poll now later =>
      have hph' : ph' = ph := by
        cases ph <;> simp_all [Phase.next]
      rw [hph']
      rw [sessionStep] at hd
      rcases timeoutTask_cases b now later d with hw | hj | hr
      · rw [hw] at hd
        obtain rfl := Option.some.inj hd
        exact h
      · rw [hj] at hd
        exact absurd hd nofun
      · rw [hr] at hd
        obtain rfl := Option.some.inj hd
        exact ⟨h.isInTransfer, h.timeoutInitialized⟩
  | assign now id =>
      have hph' : ph' = ph := by
        cases ph <;> simp_all [Phase.next]
      rw [hph']
      obtain rfl := Option.some.inj hd
      exact ⟨h.isInTransfer, h.timeoutInitialized⟩

/-- A run of events moves flag and phase together. -/
theorem session_inPhase {b : Board S ℕ} {events : List SessionEvent} {ph ph' : Phase}
    {d d' : Device S ℕ} (h : InPhase ph d) (hph : events.foldlM Phase.next ph = some ph')
    (hd : events.foldlM (sessionStep b) d = some d') : InPhase ph' d' := by
  induction events generalizing ph d with
  | nil =>
      obtain rfl := Option.some.inj hph
      obtain rfl := Option.some.inj hd
      exact h
  | cons e events ih =>
      rw [List.foldlM_cons] at hph hd
      obtain ⟨ph₁, hph₁, hph⟩ := Option.bind_eq_some_iff.mp hph
      obtain ⟨d₁, hd₁, hd⟩ := Option.bind_eq_some_iff.mp hd
      exact ih (sessionStep_inPhase h hph₁ hd₁) hph hd

namespace Session

variable {cfg : Config}

/-- Every part of a session is in some phase. -/
theorem exists_phaseAfter (s : Session cfg) {pre post : List SessionEvent}
    (h : s.events = pre ++ post) : ∃ ph, phaseAfter pre = some ph := by
  have hsome : ∃ ph, phaseAfter s.events = some ph := by
    rcases s.commands with hc | hc
    · exact ⟨_, hc⟩
    · exact ⟨_, hc⟩
  obtain ⟨ph, hph⟩ := hsome
  rw [h, phaseAfter, List.foldlM_append] at hph
  obtain ⟨ph₁, hph₁, -⟩ := Option.bind_eq_some_iff.mp hph
  exact ⟨ph₁, hph₁⟩

/-- **The flag over a session**: it is down exactly in the gaps. -/
theorem isInTransfer_iff (s : Session cfg) {b : Board S ℕ} {d d' : Device S ℕ}
    {pre : List SessionEvent} {ph : Phase} (hinit : d.timeoutInitialized = true)
    (hph : phaseAfter pre = some ph) (hd : s.deviceAfter b d pre = some d') :
    d'.isInTransfer = false ↔ ph.inGap = true := by
  have := (session_inPhase (connect_inPhase b s.connectAt hinit) hph hd).isInTransfer
  rw [this]
  simp

/-- **When a session is not interrupted.** On every CAN build, for every session with a
device that was entered by command, whatever state it is in: no poll between CONNECT and
COMPLETE jumps to the application exactly if every poll in a gap comes before the deadline
or finds no valid application. -/
theorem undisturbed_iff (s : Session cfg) (hcan : cfg.canserial = true) (backend : Backend S)
    {d : Device S ℕ} (hinit : d.timeoutInitialized = true) :
    s.Undisturbed (exactBoard cfg backend) d ↔ s.GapsSafe (exactBoard cfg backend) d := by
  constructor
  · intro h pre now later post ph d' hevents hph hgap hd
    have hjump := h pre now later post d' hevents hd
    have hphase := session_inPhase (connect_inPhase _ s.connectAt hinit) hph hd
    rw [Ne, timeoutTask_eq_jump_iff] at hjump
    by_contra hunsafe
    rw [not_or, not_lt, Bool.not_eq_false] at hunsafe
    refine hjump ⟨hcan, hphase.timeoutInitialized, by rw [hphase.isInTransfer, hgap]; rfl, ?_,
      hunsafe.2⟩
    exact decide_eq_false (not_lt.mpr hunsafe.1)
  · intro h pre now later post d' hevents hd hjump
    obtain ⟨ph, hph⟩ := s.exists_phaseAfter hevents
    obtain ⟨-, -, htransfer, htimed, hvalid⟩ := (timeoutTask_eq_jump_iff _ _ _ _).mp hjump
    have hgap := (s.isInTransfer_iff hinit hph hd).mp htransfer
    rcases h pre now later post ph d' hevents hph hgap hd with hbefore | hinvalid
    · rw [TimedOut] at htimed
      exact absurd ((decide_eq_true hbefore).symm.trans htimed) (by decide)
    · exact absurd (hvalid.symm.trans hinvalid) (by decide)

/-- A session on the shipped configuration, 29 seconds after a commanded entry; the timeout
is polled a second later, before the next command. -/
def late : Session steinzeit where
  connectAt := 29 * 72000000
  events := [.poll (30 * 72000000) (30 * 72000000), .sendEof (31 * 72000000)]
  completeAt := 32 * 72000000
  commands := .inl rfl
  ordered := by decide
  paced := by decide

/-- A device with a valid application that was entered by command at time 0 and then given
a node id. -/
def lateDevice : Device Stm32.FlashState ℕ :=
  { timeoutInit 0 { Device.init (exactBoard steinzeit (Stm32.backend .f103 64 64))
      steinzeitDevice.uuid ⟨steinzeitApp, []⟩ with commandedEntry := true } with
    assignedId := 0x40 }

/-- The characterisation at this session. -/
theorem undisturbed_iff_late :
    late.Undisturbed (exactBoard steinzeit (Stm32.backend .f103 64 64)) lateDevice ↔
      late.GapsSafe (exactBoard steinzeit (Stm32.backend .f103 64 64)) lateDevice :=
  late.undisturbed_iff rfl _ rfl

/-- The timeout interrupts this session: the poll in the gap after CONNECT jumps to the
application. -/
theorem late_not_undisturbed :
    ¬late.Undisturbed (exactBoard steinzeit (Stm32.backend .f103 64 64)) lateDevice := by
  intro h
  have hd : late.deviceAfter (exactBoard steinzeit (Stm32.backend .f103 64 64)) lateDevice [] =
      some (commandConnect (exactBoard steinzeit (Stm32.backend .f103 64 64)) lateDevice).1 :=
    congrArg some (congrArg Prod.fst (commandDispatch_connect _ _ _))
  refine h [] _ _ [.sendEof (31 * 72000000)] _ rfl hd ?_
  rw [timeoutTask_eq_jump_iff]
  exact ⟨rfl, rfl, rfl, by decide, steinzeitApp_valid⟩

end Session

end Terraboot
