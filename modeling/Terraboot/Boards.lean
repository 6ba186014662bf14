import Terraboot.Device
import Terraboot.Lpc176xFlash
import Terraboot.Rp2040Flash
import Terraboot.Stm32Flash

/-!
# Boards

Which flash driver a processor is built with. What the drivers need from the hardware
beyond the flash itself, the STM32's size register and the result codes of the LPC176x's
ROM, is collected in `Hardware`.
-/

namespace Terraboot

/-- The parts of the hardware the flash drivers read. -/
structure Hardware where
  /-- The 16-bit register at `FLASHSIZE_BASE`. -/
  flashSizeReg : ℕ
  iap : Lpc176x.IapRom

/-- The static variables of the flash driver of a processor. -/
def Mach.FlashState : Mach → Type
  | .stm32 _ => Stm32.FlashState
  | .lpc1768 | .lpc1769 => Lpc176x.FlashState
  | .rp2040 | .rp2350 => Rp2040.FlashState

/-- The flash driver of a processor. -/
def Mach.backend (hw : Hardware) (cfg : Config) : (m : Mach) → Backend m.FlashState
  | .stm32 chip => Stm32.backend chip hw.flashSizeReg cfg.blockSize
  | .lpc1768 | .lpc1769 => Lpc176x.backend hw.iap cfg.blockSize
  | .rp2040 | .rp2350 => Rp2040.backend cfg

/-- The board of a build. -/
def Mach.board (m : Mach) (hw : Hardware) (cfg : Config) : Board m.FlashState Word where
  cfg := cfg
  backend := m.backend hw cfg
  timer := .wrapping cfg.clockFreq

/-- An STM32 board, with the driver's state type spelt out. -/
def Stm32.board (chip : Stm32) (reg : ℕ) (cfg : Config) : Board Stm32.FlashState Word where
  cfg := cfg
  backend := Stm32.backend chip reg cfg.blockSize
  timer := .wrapping cfg.clockFreq

/-- The board of the shipped configuration; the size register of its chip reads 64 KiB. -/
def steinzeitBoard : Board Stm32.FlashState Word := Stm32.board .f103 64 steinzeit

/-- Such a board fresh from the factory, with some UUID. -/
def steinzeitDevice : Device Stm32.FlashState Word :=
  .init steinzeitBoard ⟨[0x11, 0xaa, 0xbb, 0xcc, 0xdd, 0xee], rfl⟩ ⟨fun _ => 0xFF, []⟩

/-- A released version, "v1.1.0". -/
def releasedVersion : CString := ⟨[0x76, 0x31, 0x2e, 0x31, 0x2e, 0x30], by decide⟩

/-- Some UUID. -/
def someUuid : Uuid := ⟨[0x22, 0, 0, 0, 0, 0x01], rfl⟩

/-- Flash of such a board with a small application in it. -/
def steinzeitApp : NorFlash.Mem :=
  packagedApp steinzeit [0x00, 0x50, 0x00, 0x20] 0 (List.replicate 32 0) fun _ => 0xFF

theorem steinzeitApp_valid : applicationCheckValid steinzeit steinzeitApp = true :=
  applicationCheckValid_packagedApp 0 _ (by decide) (by decide) (by decide) (by decide)
    (by decide) (by decide)

end Terraboot
