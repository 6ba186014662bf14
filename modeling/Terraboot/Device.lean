import Terraboot.AppValidate
import Terraboot.FlashCommon
import Terraboot.WrapClock

/-!
# The State of the Bootloader

The static variables of the bootloader's C files, together with the flash they act on, as
one record. A `Board` is a build: its configuration, its flash driver and its timer. The
timer is a parameter because the 32-bit counter of `generic/armcm_timer.c` and an exact
clock are both of interest; everything that does not depend on wrap-around is stated for
any timer.
-/

open NorFlash

namespace Terraboot

/-- The timer functions of `board/misc.h`, over a type of times. -/
structure Timer (T : Type) where
  /-- The value of zero-initialised timer variables. -/
  zero : T
  add : T → T → T
  /-- `timer_from_us` -/
  fromUs : ℕ → T
  /-- `timer_is_before` -/
  isBefore : T → T → Bool

/-- The timer of `generic/armcm_timer.c`: a 32-bit counter that wraps around, compared by
the sign of the difference. -/
def Timer.wrapping (clockFreq : ℕ) : Timer Word where
  zero := 0
  add := (· + ·)
  fromUs us := BitVec.ofNat 32 us * BitVec.ofNat 32 (clockFreq / 1000000)
  isBefore := WrapClock.before

/-- The same functions computed without wrap-around. -/
def Timer.exact (clockFreq : ℕ) : Timer ℕ where
  zero := 0
  add := (· + ·)
  fromUs us := us * (clockFreq / 1000000)
  isBefore time₁ time₂ := decide (time₁ < time₂)

/-- A build: configuration, flash driver and timer. -/
structure Board (S T : Type) where
  cfg : Config
  backend : Backend S
  timer : Timer T

/-- `CANBUS_UUID_LEN` bytes. -/
abbrev Uuid := { u : List Byte // u.length = 6 }

/-- The flash and the static variables of `flashcmd.c`, `led.c`, `canserial.c`, `sched.c`
and `bootentry.c`; the flash driver's own are kept in `backend`. -/
structure Device (S T : Type) where
  flash : Flash
  backend : S
  isInTransfer : Bool
  totalBytesWritten : Word
  complete : Bool
  completeEndtime : T
  modeEnd : T
  assignedId : Word
  uuid : Uuid
  timeoutStart : T
  timeoutInitialized : Bool
  commandedEntry : Bool

/-- The static variables as start-up code leaves them, on a device with the given flash
content; `canserial_set_uuid` has stored the chip's UUID. -/
def Device.init {S T : Type} (b : Board S T) (uuid : Uuid) (flash : Flash) : Device S T where
  flash := flash
  backend := b.backend.init
  isInTransfer := false
  totalBytesWritten := 0
  complete := false
  completeEndtime := b.timer.zero
  modeEnd := b.timer.zero
  assignedId := 0
  uuid := uuid
  timeoutStart := b.timer.zero
  timeoutInitialized := false
  commandedEntry := false

end Terraboot
