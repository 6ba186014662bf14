import Mathlib.Logic.Relation
import Terraboot.Boards
import Terraboot.Sched

/-!
# Start-Up, Resets and the Application

The decision to start the application and the start itself are in different boots,
connected by an 8-byte cell in RAM that survives a reset. `BootStep` is one step of
`reset_handler_stage_two`, `bootentry_check`, `sched_main`, the tasks of the main loop, a
reset or the application. The cell is written one word at a time, in either order, and a
reset can fall between any two steps, in particular between the two words, and in the
middle of a command that is writing to flash.

`validated` is carried beside the machine: it records that `application_check_valid` has
returned true and that nothing has been able to write to flash since.

## Main results

* `BootState.Inv.step`: what ties the cell, the flash and the point of execution together.
* `started_application_valid`: no run starts an application that has not been validated.
-/

open NorFlash

namespace Terraboot

variable {S T : Type}

/-! ### The boot-up code -/

/-- The constants of `canboot.h`. -/
def requestCanboot : BitVec 64 := 0x5984E3FA6CA1589B
def requestStartApp : BitVec 64 := 0x7b06ec45a9a8243d

/-- One of the two words of the cell. -/
inductive Half
  | low
  | high
  deriving DecidableEq

def Half.other : Half → Half
  | .low => .high
  | .high => .low

/-- The word of a boot-up code at a half. -/
def Half.of : Half → BitVec 64 → Word
  | .low, code => code.extractLsb' 0 32
  | .high, code => code.extractLsb' 32 32

/-- One of the two word stores of `boot_set_bootup_code`. -/
def storeHalf (half : Half) (code cell : BitVec 64) : BitVec 64 :=
  match half with
  | .low => Half.high.of cell ++ Half.low.of code
  | .high => Half.high.of code ++ Half.low.of cell

@[simp] theorem Half.of_storeHalf (half : Half) (code cell : BitVec 64) :
    half.of (storeHalf half code cell) = half.of code := by
  cases half with
  | low => exact BitVec.extractLsb'_append_eq_right
  | high => exact BitVec.extractLsb'_append_eq_left

/-- A cell whose one half is that of the code already holds the code after the other store. -/
theorem storeHalf_other {half : Half} {code cell : BitVec 64} (h : half.of cell = half.of code) :
    storeHalf half.other code cell = code := by
  have hcode : Half.high.of code ++ Half.low.of code = code :=
    BitVec.extractLsb'_append_extractLsb'
  cases half with
  | low =>
      calc storeHalf .high code cell
          = Half.high.of code ++ Half.low.of cell := rfl
        _ = Half.high.of code ++ Half.low.of code := by rw [h]
        _ = code := hcode
  | high =>
      calc storeHalf .low code cell
          = Half.high.of cell ++ Half.low.of code := rfl
        _ = Half.high.of code ++ Half.low.of code := by rw [h]
        _ = code := hcode

/-- `bootentry_check` starts the bootloader; the last argument is whether the button reads
as pressed. -/
def bootentryWanted (cfg : Config) (mem : Mem) (bootupCode : BitVec 64)
    (pressed : Bool) : Bool :=
  bootupCode == requestCanboot || !applicationCheckValid cfg mem || (cfg.enableButton && pressed)

/-! ### The machine -/

/-- Where execution is. -/
inductive Point
  /-- The start of `reset_handler_stage_two`. -/
  | stageTwo
  /-- In `set_bootup_code(code)`, with one half stored or none; execution goes on at `next`. -/
  | storing (code : BitVec 64) (stored : Option Half) (next : Point)
  | bootentryCheck
  | checkDoubleReset
  /-- In the second `udelay` of `check_double_reset`. -/
  | doubleResetWindow
  /-- `bootentry_check` has returned 1. -/
  | enterBootloader
  | mainLoop
  /-- `application_jump` has been called. -/
  | applicationJump
  /-- In `do_reset`, after the store. -/
  | awaitReset
  /-- In `boot_start_application`, after the store. -/
  | startApplication
  | application

/-- The machine: flash and static variables, the cell, and the point of execution. -/
structure BootState (S T : Type) where
  device : Device S T
  cell : BitVec 64
  point : Point
  validated : Bool

/-- What follows a run of `timeout_task`. -/
def BootState.afterTimeout (σ : BootState S T) : TimeoutOutcome S T → BootState S T
  | .waiting => σ
  | .restarted d => { σ with device := d }
  -- `timeout_task` has just seen `application_check_valid` return true
  | .applicationJump => { σ with point := .applicationJump, validated := true }

/-- The init functions run by `sched_main`; only builds with CAN have `timeout_init`. -/
def runInitfuncs (cfg : Config) (now : T) (d : Device S T) : Device S T :=
  if cfg.canserial then timeoutInit now d else d

/-- One step of the machine. -/
inductive BootStep (b : Board S T) : BootState S T → BootState S T → Prop
  | bootStartApplication (σ) (hp : σ.point = .stageTwo) (hcell : σ.cell = requestStartApp) :
      BootStep b σ { σ with point := .storing 0 none .startApplication }
  /-- The start-up code initialises the static variables. -/
  | armcmMain (σ) (hp : σ.point = .stageTwo) (hcell : σ.cell ≠ requestStartApp) :
      BootStep b σ { σ with
        device := .init b σ.device.uuid σ.device.flash
        point := .bootentryCheck }
  | bootentryEnter (σ) (pressed : Bool) (hp : σ.point = .bootentryCheck)
      (hwanted : bootentryWanted b.cfg σ.device.flash.mem σ.cell pressed = true) :
      BootStep b σ { σ with
        device := { σ.device with commandedEntry := σ.cell == requestCanboot }
        point := .storing 0 none .enterBootloader }
  /-- `application_check_valid` has returned true. -/
  | bootentryPass (σ) (pressed : Bool) (hp : σ.point = .bootentryCheck)
      (hwanted : bootentryWanted b.cfg σ.device.flash.mem σ.cell pressed = false) :
      BootStep b σ { σ with
        point := .checkDoubleReset
        validated := true }
  | noDoubleReset (σ) (hp : σ.point = .checkDoubleReset)
      (henable : b.cfg.enableDoubleReset = false) :
      BootStep b σ { σ with point := .applicationJump }
  | boardCheckDoubleReset (σ) (tapped : Bool) (hp : σ.point = .checkDoubleReset)
      (henable : b.cfg.enableDoubleReset = true)
      (hboard : b.cfg.haveBoardCheckDoubleReset = true) :
      BootStep b σ { σ with point := if tapped then .enterBootloader else .applicationJump }
  | doubleResetOpen (σ) (hp : σ.point = .checkDoubleReset)
      (henable : b.cfg.enableDoubleReset = true)
      (hboard : b.cfg.haveBoardCheckDoubleReset = false) :
      BootStep b σ { σ with point := .storing requestCanboot none .doubleResetWindow }
  | doubleResetOver (σ) (hp : σ.point = .doubleResetWindow) :
      BootStep b σ { σ with point := .storing 0 none .applicationJump }
  | applicationJump (σ) (hp : σ.point = .applicationJump) :
      BootStep b σ { σ with point := .storing requestStartApp none .awaitReset }
  | storeFirst (σ) (code) (half : Half) (next) (hp : σ.point = .storing code none next) :
      BootStep b σ { σ with
        cell := storeHalf half code σ.cell
        point := .storing code (some half) next }
  | storeSecond (σ) (code) (half : Half) (next) (hp : σ.point = .storing code (some half) next) :
      BootStep b σ { σ with
        cell := storeHalf half.other code σ.cell
        point := next }
  | initfuncs (σ) (now : T) (hp : σ.point = .enterBootloader) :
      BootStep b σ { σ with
        device := runInitfuncs b.cfg now σ.device
        point := .mainLoop }
  /-- A message is dispatched; any of them counts as a write to flash. -/
  | dispatch (σ) (now : T) (buf : List Byte) (msglen : ℕ) (hp : σ.point = .mainLoop) :
      BootStep b σ { σ with
        device := (commandDispatch b now σ.device buf msglen).1
        validated := false }
  /-- An admin message assigns a node id or clears it. -/
  | assign (σ) (id : Word) (hp : σ.point = .mainLoop) :
      BootStep b σ { σ with device := { σ.device with assignedId := id } }
  | timeoutTask (σ) (now later : T) (hp : σ.point = .mainLoop) :
      BootStep b σ (σ.afterTimeout (timeoutTask b now later σ.device))
  | completeTask (σ) (now : T) (hp : σ.point = .mainLoop)
      (hcomplete : completeTask b now σ.device = true) :
      BootStep b σ { σ with point := .storing 0 none .awaitReset }
  /-- A reset, at any moment; the cell and the flash keep their content. -/
  | reset (σ) : BootStep b σ { σ with point := .stageTwo }
  /-- A reset in the middle of a command leaves the flash in whatever state. -/
  | resetInCommand (σ) (flash : Flash) (hp : σ.point = .mainLoop) :
      BootStep b σ { σ with
        device := { σ.device with flash := flash }
        point := .stageTwo
        validated := false }
  /-- The power comes back; the cell holds whatever it holds, but not this code. -/
  | powerUp (σ) (cell : BitVec 64) (hcell : cell ≠ requestStartApp) :
      BootStep b σ { σ with
        cell := cell
        point := .stageTwo }
  /-- `boot_start_application` transfers control. -/
  | transfer (σ) (hp : σ.point = .startApplication) :
      BootStep b σ { σ with point := .application }
  /-- The application runs: it may write to flash and to the cell, but does not leave
  `REQUEST_START_APP` there. -/
  | application (σ) (flash : Flash) (cell : BitVec 64) (hp : σ.point = .application)
      (hcell : cell ≠ requestStartApp) :
      BootStep b σ { σ with
        device := { σ.device with flash := flash }
        cell := cell
        validated := false }

/-- The device as it comes out of its first power-up, with whatever flash content. -/
structure BootState.Fresh (σ : BootState S T) : Prop where
  point : σ.point = .stageTwo
  cell : σ.cell ≠ requestStartApp
  validated : σ.validated = false

/-! ### The invariant -/

/-- A store of this code cannot complete `REQUEST_START_APP`. -/
def Harmless (code : BitVec 64) : Prop :=
  ∀ half : Half, half.of code ≠ half.of requestStartApp

theorem harmless_zero : Harmless 0 := by
  intro half
  cases half <;> decide

theorem harmless_requestCanboot : Harmless requestCanboot := by
  intro half
  cases half <;> decide

theorem Harmless.ne {code cell : BitVec 64} {half : Half} (h : Harmless code)
    (hcell : half.of cell = half.of code) : cell ≠ requestStartApp :=
  fun heq => h half (by rw [← hcell, heq])

/-- What holds of the cell and of `validated` at each point of execution. -/
def Point.Sound (cell : BitVec 64) (validated : Bool) : Point → Prop
  | .stageTwo | .awaitReset | .application => True
  -- from here the main loop can be reached, where flash is written
  | .bootentryCheck | .enterBootloader | .mainLoop => cell ≠ requestStartApp
  | .checkDoubleReset => cell ≠ requestStartApp ∧ validated = true
  | .doubleResetWindow | .applicationJump | .startApplication => validated = true
  | .storing code stored next =>
      (∀ half, stored = some half → half.of cell = half.of code) ∧
        (Harmless code ∨ validated = true) ∧ next ≠ .application ∧ next.Sound code validated

/-- **The invariant of the machine.** -/
structure BootState.Inv (b : Board S T) (σ : BootState S T) : Prop where
  valid : σ.validated = true → applicationCheckValid b.cfg σ.device.flash.mem = true
  cell : σ.cell = requestStartApp → σ.validated = true
  point : σ.point.Sound σ.cell σ.validated

namespace BootState.Inv

variable {b : Board S T} {σ σ' : BootState S T}

theorem fresh (h : σ.Fresh) : σ.Inv b where
  valid hv := absurd (h.validated.symm.trans hv) nofun
  cell hc := absurd hc h.cell
  point := by
    rw [h.point]
    trivial

/-- The invariant at a point, with the point put in. -/
theorem at_point (hσ : σ.Inv b) {p : Point} (hp : σ.point = p) : p.Sound σ.cell σ.validated :=
  hp ▸ hσ.point

/-- A step that leaves flash, cell and `validated` alone has to be sound at its new point
only. -/
theorem goto (hσ : σ.Inv b) (p : Point) (hp : p.Sound σ.cell σ.validated) :
    Inv b { σ with point := p } :=
  ⟨hσ.valid, hσ.cell, hp⟩

/-- A store about to begin. -/
theorem begin_store (hσ : σ.Inv b) {code : BitVec 64} {next : Point}
    (hcode : Harmless code ∨ σ.validated = true) (hnext : next ≠ .application)
    (hsound : next.Sound code σ.validated) :
    Inv b { σ with point := .storing code none next } :=
  hσ.goto _ ⟨nofun, hcode, hnext, hsound⟩

/-- One of the word stores keeps `REQUEST_START_APP` out of the cell of a device whose
application is not validated. -/
theorem storeHalf_cell {code cell : BitVec 64} {half : Half}
    (hcode : Harmless code ∨ σ.validated = true) (hcell : half.of cell = half.of code) :
    cell = requestStartApp → σ.validated = true := by
  intro heq
  rcases hcode with h | h
  · exact absurd heq (h.ne hcell)
  · exact h

/-- **One step keeps the invariant.** -/
theorem step (hσ : σ.Inv b) (h : BootStep b σ σ') : σ'.Inv b := by
  cases h with
  | bootStartApplication hp hcell =>
      exact hσ.begin_store (.inl harmless_zero) nofun (hσ.cell hcell)
  | armcmMain hp hcell => exact ⟨hσ.valid, hσ.cell, hcell⟩
  | bootentryEnter pressed hp hwanted =>
      have hzero : (0 : BitVec 64) ≠ requestStartApp := by decide
      exact ⟨hσ.valid, hσ.cell, nofun, .inl harmless_zero, nofun, hzero⟩
  | bootentryPass pressed hp hwanted =>
      have hvalid : applicationCheckValid b.cfg σ.device.flash.mem = true := by
        simp only [bootentryWanted, Bool.or_eq_false_iff, Bool.not_eq_false'] at hwanted
        exact hwanted.1.2
      exact ⟨fun _ => hvalid, fun _ => rfl, hσ.at_point hp, rfl⟩
  | noDoubleReset hp henable => exact hσ.goto _ (hσ.at_point hp).2
  | boardCheckDoubleReset tapped hp henable hboard =>
      obtain ⟨hcell, hvalidated⟩ := hσ.at_point hp
      cases tapped with
      | false => exact hσ.goto _ hvalidated
      | true => exact hσ.goto _ hcell
  | doubleResetOpen hp henable hboard =>
      exact hσ.begin_store (.inl harmless_requestCanboot) nofun (hσ.at_point hp).2
  | doubleResetOver hp => exact hσ.begin_store (.inl harmless_zero) nofun (hσ.at_point hp)
  | applicationJump hp => exact hσ.begin_store (.inr (hσ.at_point hp)) nofun trivial
  | storeFirst code half next hp =>
      obtain ⟨-, hcode, hnext, hsound⟩ := hσ.at_point hp
      refine ⟨hσ.valid, storeHalf_cell hcode (half.of_storeHalf code σ.cell), ?_, hcode, hnext,
        hsound⟩
      intro half' heq
      obtain rfl := Option.some.inj heq
      exact half.of_storeHalf code σ.cell
  | storeSecond code half next hp =>
      obtain ⟨hstored, hcode, -, hsound⟩ := hσ.at_point hp
      -- the other half was stored before, and no reset has come in between
      have hcell : storeHalf half.other code σ.cell = code := storeHalf_other (hstored half rfl)
      refine ⟨hσ.valid, ?_, ?_⟩
      · exact storeHalf_cell hcode (half.other.of_storeHalf code σ.cell)
      · dsimp only
        rw [hcell]
        exact hsound
  | initfuncs now hp =>
      have hcell : σ.cell ≠ requestStartApp := hσ.at_point hp
      refine ⟨?_, hσ.cell, hcell⟩
      have hflash : (runInitfuncs b.cfg now σ.device).flash = σ.device.flash := by
        rw [runInitfuncs, timeoutInit]
        split_ifs <;> rfl
      dsimp only
      rw [hflash]
      exact hσ.valid
  | dispatch now buf msglen hp =>
      -- the flash may have changed, but the cell holds another code
      have hcell : σ.cell ≠ requestStartApp := hσ.at_point hp
      exact ⟨nofun, fun heq => absurd heq hcell, by rw [hp]; exact hcell⟩
  | assign id hp => exact ⟨hσ.valid, hσ.cell, hσ.point⟩
  | timeoutTask now later hp =>
      have hcell : σ.cell ≠ requestStartApp := hσ.at_point hp
      rcases timeoutTask_cases b now later σ.device with hw | hj | hr
      · rw [hw]
        exact hσ
      · rw [hj]
        obtain ⟨-, -, -, -, hvalid⟩ := (timeoutTask_eq_jump_iff b now later σ.device).mp hj
        exact ⟨fun _ => hvalid, fun _ => rfl, rfl⟩
      · rw [hr]
        exact ⟨hσ.valid, hσ.cell, hσ.point⟩
  | completeTask now hp hcomplete => exact hσ.begin_store (.inl harmless_zero) nofun trivial
  | reset => exact hσ.goto _ trivial
  | resetInCommand flash hp =>
      have hcell : σ.cell ≠ requestStartApp := hσ.at_point hp
      exact ⟨nofun, fun heq => absurd heq hcell, trivial⟩
  | powerUp cell hcell => exact ⟨hσ.valid, fun heq => absurd heq hcell, trivial⟩
  | transfer hp => exact hσ.goto _ trivial
  | application flash cell hp hcell =>
      exact ⟨nofun, fun heq => absurd heq hcell, by rw [hp]; trivial⟩

/-- **Every run keeps the invariant.** -/
theorem run (hσ : σ.Inv b) (h : Relation.ReflTransGen (BootStep b) σ σ') : σ'.Inv b := by
  induction h with
  | refl => exact hσ
  | tail _ hstep ih => exact ih.step hstep

end BootState.Inv

/-! ### The start of the application -/

/-- Only `boot_start_application` leads into the application. -/
theorem BootState.Inv.application_cases {b : Board S T} {σ σ' : BootState S T} (hinv : σ.Inv b)
    (h : BootStep b σ σ') (hσ : σ.point ≠ .application) (hσ' : σ'.point = .application) :
    σ.point = .startApplication ∧ σ' = { σ with point := .application } := by
  cases h with
  | transfer hp => exact ⟨hp, rfl⟩
  | boardCheckDoubleReset tapped hp henable hboard => cases tapped <;> exact absurd hσ' nofun
  | storeSecond code half next hp =>
      obtain ⟨-, -, hnext, -⟩ := hinv.at_point hp
      exact absurd hσ' hnext
  | dispatch now buf msglen hp => exact absurd hσ' hσ
  | assign id hp => exact absurd hσ' hσ
  | timeoutTask now later hp =>
      rcases timeoutTask_cases b now later σ.device with hw | hj | hr
      · rw [hw] at hσ'
        exact absurd hσ' hσ
      · rw [hj] at hσ'
        exact absurd hσ' nofun
      · rw [hr] at hσ'
        exact absurd hσ' hσ
  | application flash cell hp hcell => exact absurd hp hσ
  | _ => exact absurd hσ' nofun

/-- **No unvalidated application is ever started.** In every run from power-up, for every
build, a step into the application is taken with a flash content that
`application_check_valid` has accepted, and accepts now, and that nothing has been able to
write to in between. -/
theorem started_application_valid {b : Board S T} {σ₀ σ σ' : BootState S T} (hfresh : σ₀.Fresh)
    (hrun : Relation.ReflTransGen (BootStep b) σ₀ σ) (hstep : BootStep b σ σ')
    (hσ : σ.point ≠ .application) (hσ' : σ'.point = .application) :
    σ'.validated = true ∧ applicationCheckValid b.cfg σ'.device.flash.mem = true := by
  have hinv : σ.Inv b := (BootState.Inv.fresh hfresh).run hrun
  obtain ⟨hp, rfl⟩ := hinv.application_cases hstep hσ hσ'
  have hvalidated : σ.validated = true := hinv.at_point hp
  exact ⟨hvalidated, hinv.valid hvalidated⟩

/-- A store that no reset interrupts. -/
theorem BootStep.store {b : Board S T} {σ : BootState S T} {code : BitVec 64} {next : Point}
    (hp : σ.point = .storing code none next) :
    Relation.ReflTransGen (BootStep b) σ { σ with cell := code, point := next } := by
  have hcode : storeHalf .high code (storeHalf .low code σ.cell) = code :=
    storeHalf_other (Half.low.of_storeHalf code σ.cell)
  have hfirst := BootStep.storeFirst (b := b) σ code .low next hp
  have hsecond := BootStep.storeSecond (b := b)
    { σ with
      cell := storeHalf .low code σ.cell
      point := .storing code (some .low) next } code .low next rfl
  simp only [Half.other, hcode] at hsecond
  exact .tail (.single hfirst) hsecond

/-- `application_jump` leads through a reset to the start of the application. -/
theorem startApplication_of_applicationJump {b : Board S T} {σ : BootState S T}
    (hp : σ.point = .applicationJump) :
    Relation.ReflTransGen (BootStep b) σ { σ with cell := 0, point := .startApplication } := by
  refine .head (.applicationJump σ hp) (.trans (BootStep.store rfl) ?_)
  refine .head (.reset _) (.head (.bootStartApplication _ rfl rfl) ?_)
  exact BootStep.store rfl

/-- The shipped configuration does start a valid application. -/
theorem started_application_valid_steinzeit :
    ∃ σ' : BootState Stm32.FlashState Word, σ'.point = .application ∧ σ'.validated = true ∧
      applicationCheckValid steinzeitBoard.cfg σ'.device.flash.mem = true := by
  have hfresh : BootState.Fresh (S := Stm32.FlashState) (T := Word)
      ⟨{ steinzeitDevice with flash := ⟨steinzeitApp, []⟩ }, 0, .stageTwo, false⟩ :=
    ⟨rfl, by decide, rfl⟩
  have hpass : bootentryWanted steinzeitBoard.cfg steinzeitApp 0 false = false := by
    have hvalid : applicationCheckValid steinzeitBoard.cfg steinzeitApp = true :=
      steinzeitApp_valid
    rw [bootentryWanted, hvalid]
    rfl
  have hstart := startApplication_of_applicationJump (b := steinzeitBoard)
    (σ := ⟨.init steinzeitBoard steinzeitDevice.uuid ⟨steinzeitApp, []⟩, 0, .applicationJump, true⟩)
    rfl
  have hrun := Relation.ReflTransGen.head (.armcmMain _ rfl hfresh.cell)
    (.head (.bootentryPass _ false rfl hpass) (.head (.noDoubleReset _ rfl rfl) hstart))
  exact ⟨_, rfl, started_application_valid hfresh hrun (.transfer _ rfl) nofun rfl⟩

end Terraboot
