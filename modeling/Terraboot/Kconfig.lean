import Terraboot.Paging

/-!
# Build Configurations

The processor models the Kconfig files offer and what they fix for each of them: clock,
flash geometry, application start and whether a CAN interface can be chosen. The models
whose prompt is disabled (`MACH_STM32H750`, `MACH_STM32L412`) cannot be selected and are
left out. `Config` collects the `CONFIG_` constants the code reads; `Config.IsBuildOf`
says that they are as the Kconfig files of a processor set them.

## Main results

* `Stm32.pageMap`, `Lpc176x.sectorMap`: the page sizes of the flash drivers are constant
  over each page.
* `steinzeit_isBuildOf`: the shipped configuration is a build.
* `Config.IsBuildOf.launch_aligned`, `Config.IsBuildOf.end_aligned`: the application area
  of every STM32 build consists of whole pages.
-/

open Paging

namespace Terraboot

/-! ### Processor models -/

/-- The families of `src/stm32/Kconfig`. -/
inductive Stm32Family
  | f0 | f1 | f2 | f4 | g0 | g4 | h7
  deriving DecidableEq, Repr

/-- The choice "Processor model" of `src/stm32/Kconfig`. -/
inductive Stm32
  | f103 | f207 | f401 | f405 | f407 | f429 | f446 | f031 | f042 | f070 | f072
  | g0b0 | g0b1 | g431 | h723 | h743
  deriving DecidableEq, Repr

/-- The processors of the three Kconfig files. -/
inductive Mach
  | stm32 (chip : Stm32)
  | lpc1768
  | lpc1769
  | rp2040
  | rp2350
  deriving DecidableEq, Repr

def Stm32.family : Stm32 → Stm32Family
  | .f103 => .f1
  | .f207 => .f2
  | .f401 | .f405 | .f407 | .f429 | .f446 => .f4
  | .f031 | .f042 | .f070 | .f072 => .f0
  | .g0b0 | .g0b1 => .g0
  | .g431 => .g4
  | .h723 | .h743 => .h7

/-- `CLOCK_FREQ`; the first argument is `STM32_CLOCK_REF_INTERNAL`. -/
def Mach.clockFreq (clockRefInternal : Bool) : Mach → ℕ
  | .stm32 .f103 => if clockRefInternal then 64000000 else 72000000
  | .stm32 .f207 => 120000000
  | .stm32 .f401 => 84000000
  | .stm32 .f405 | .stm32 .f407 | .stm32 .f429 => 168000000
  | .stm32 .f446 => 180000000
  | .stm32 .f031 | .stm32 .f042 | .stm32 .f070 | .stm32 .f072 => 48000000
  | .stm32 .g0b0 | .stm32 .g0b1 => 64000000
  | .stm32 .g431 => 150000000
  | .stm32 .h723 | .stm32 .h743 => 400000000
  | .lpc1768 => 100000000
  | .lpc1769 => 120000000
  | .rp2040 => 12000000
  | .rp2350 => 150000000

/-- The processors for which a choice selecting `CANSERIAL` is available
(`HAVE_STM32_CANBUS`, `HAVE_STM32_FDCANBUS`, `RPXXXX_CANBUS`). -/
def Mach.canCapable : Mach → Bool
  | .stm32 .f103 | .stm32 .f207 | .stm32 .f405 | .stm32 .f407 | .stm32 .f429
  | .stm32 .f446 | .stm32 .f042 | .stm32 .f072 | .stm32 .g0b1 | .stm32 .g431
  | .stm32 .h723 | .stm32 .h743 | .rp2040 | .rp2350 => true
  | _ => false

/-- `FLASH_START` -/
def Mach.flashStart : Mach → ℕ
  | .stm32 _ => 0x8000000
  | .lpc1768 | .lpc1769 => 0x0000
  | .rp2040 | .rp2350 => 0x10000000

/-- `FLASH_SIZE` -/
def Mach.flashSize : Mach → ℕ
  | .stm32 .f031 => 0x4000
  | .stm32 .f042 => 0x8000
  | .stm32 .f070 | .stm32 .f072 => 0x20000
  | .stm32 .f103 => 0x10000
  | .stm32 .f207 | .stm32 .f401 | .stm32 .h723 => 0x40000
  | .stm32 .f405 | .stm32 .f407 | .stm32 .f429 | .stm32 .f446 => 0x80000
  | .stm32 .g0b0 | .stm32 .g0b1 | .stm32 .g431 => 0x20000
  | .stm32 .h743 => 0x200000
  | .lpc1768 | .lpc1769 => 0x80000
  | .rp2040 | .rp2350 => 0x200000

/-- The choice "Application start offset" and `LAUNCH_APP_ADDRESS`. -/
def Mach.launchAppAddresses : Mach → List ℕ
  | .stm32 chip =>
      match chip.family with
      | .h7 => [0x8020000]
      | .f2 | .f4 => [0x8008000, 0x8004000]
      | .f0 | .f1 | .g0 => [0x8002000, 0x8001000]
      | .g4 => [0x8002000]
  | .lpc1768 | .lpc1769 => [0x4000]
  | .rp2040 | .rp2350 => [0x10004000]

/-! ### The configuration the code sees -/

/-- A C string without its terminator. -/
abbrev CString := { s : List (BitVec 8) // (0 : BitVec 8) ∉ s }

/-- `strlen` -/
def CString.strlen (s : CString) : ℕ := s.val.length

/-- The `CONFIG_` constants of `autoconf.h` that the modelled code reads. -/
structure Config where
  canserial : Bool
  enableLed : Bool
  enableDoubleReset : Bool
  haveBoardCheckDoubleReset : Bool
  enableButton : Bool
  /-- `CONFIG_MCU` -/
  mcu : CString
  /-- `CONFIG_KATAPULT_VERSION` -/
  katapultVersion : CString
  clockFreq : ℕ
  flashStart : ℕ
  flashSize : ℕ
  launchAppAddress : ℕ
  metadataPageSize : ℕ
  blockSize : ℕ

/-- The end of the flash as `flashcmd_block_in_range` computes it. -/
def Config.flashEnd (cfg : Config) : ℕ := cfg.flashStart + cfg.flashSize

/-- The constants are as the Kconfig file of the processor sets them. What has a prompt of
its own (`METADATA_PAGE_SIZE`) or comes from the build (`KATAPULT_VERSION`) is free. -/
structure Config.IsBuildOf (cfg : Config) (m : Mach) : Prop where
  can : cfg.canserial = true → m.canCapable = true
  clock : ∃ clockRefInternal, cfg.clockFreq = m.clockFreq clockRefInternal
  start : cfg.flashStart = m.flashStart
  size : cfg.flashSize = m.flashSize
  launch : cfg.launchAppAddress ∈ m.launchAppAddresses
  block : cfg.blockSize = 64

/-- `configs/steinzeit.config` -/
def steinzeit : Config where
  canserial := true
  enableLed := true
  enableDoubleReset := false
  haveBoardCheckDoubleReset := false
  enableButton := false
  -- "stm32f103xe"
  mcu := ⟨[0x73, 0x74, 0x6d, 0x33, 0x32, 0x66, 0x31, 0x30, 0x33, 0x78, 0x65], by decide⟩
  -- "v1.1.0-0-gd685cf5-dirty"
  katapultVersion := ⟨[0x76, 0x31, 0x2e, 0x31, 0x2e, 0x30, 0x2d, 0x30, 0x2d, 0x67, 0x64, 0x36,
    0x38, 0x35, 0x63, 0x66, 0x35, 0x2d, 0x64, 0x69, 0x72, 0x74, 0x79], by decide⟩
  clockFreq := 72000000
  flashStart := 0x8000000
  flashSize := 0x10000
  launchAppAddress := 0x8002000
  metadataPageSize := 0x400
  blockSize := 64

/-- The shipped configuration is what the Kconfig files make of its choices. -/
theorem steinzeit_isBuildOf : steinzeit.IsBuildOf (.stm32 .f103) where
  can _ := rfl
  clock := ⟨false, rfl⟩
  start := rfl
  size := rfl
  launch := by decide
  block := rfl

/-! ### Page sizes -/

/-- `flash_get_page_size` of `stm32/flash.c`; `flashSizeReg` is the 16-bit size register
at `FLASHSIZE_BASE`. -/
def Stm32.flashGetPageSize (chip : Stm32) (flashSizeReg addr : ℕ) : ℕ :=
  match chip.family with
  | .f2 | .f4 =>
      if addr < 0x08010000 then 16 * 1024
      else if addr < 0x08020000 then 64 * 1024
      else 128 * 1024
  | .f1 => if flashSizeReg < 256 then 1024 else 2 * 1024
  | .f0 =>
      if chip = .f042 then 1024
      else if chip = .f072 then 2 * 1024
      else if flashSizeReg ≤ 64 then 1024 else 2 * 1024
  | .g0 | .g4 => 2 * 1024
  | .h7 => 128 * 1024

/-- `flash_get_sector_size` of `lpc176x/flash.c` -/
def Lpc176x.flashGetSectorSize (addr : ℕ) : ℕ :=
  if addr < 0x00010000 then 4 * 1024 else 32 * 1024

/-- The page sizes that occur. -/
theorem Stm32.flashGetPageSize_mem (chip : Stm32) (reg addr : ℕ) :
    chip.flashGetPageSize reg addr ∈ [1024, 2048, 16384, 65536, 131072] := by
  cases chip <;> simp only [flashGetPageSize, family] <;> (try split_ifs) <;> decide

theorem Stm32.flashGetPageSize_eq_pow (chip : Stm32) (reg addr : ℕ) :
    ∃ k, chip.flashGetPageSize reg addr = 2 ^ k ∧ 10 ≤ k ∧ k ≤ 17 := by
  have h := chip.flashGetPageSize_mem reg addr
  simp only [List.mem_cons, List.not_mem_nil, or_false] at h
  rcases h with h | h | h | h | h
  · exact ⟨10, h, by omega, by omega⟩
  · exact ⟨11, h, by omega, by omega⟩
  · exact ⟨14, h, by omega, by omega⟩
  · exact ⟨16, h, by omega, by omega⟩
  · exact ⟨17, h, by omega, by omega⟩

/-- The pages of an STM32. -/
def Stm32.pageMap (chip : Stm32) (reg : ℕ) : PageMap where
  size := chip.flashGetPageSize reg
  size_pos a := by
    obtain ⟨k, hk, -⟩ := chip.flashGetPageSize_eq_pow reg a
    rw [hk]
    exact Nat.two_pow_pos k
  size_const a b h₁ h₂ := by
    cases chip <;> simp only [flashGetPageSize, family] at h₁ h₂ ⊢ <;>
      split_ifs at h₁ h₂ ⊢ <;> first | rfl | omega

@[simp] theorem Stm32.pageMap_size (chip : Stm32) (reg : ℕ) :
    (chip.pageMap reg).size = chip.flashGetPageSize reg := rfl

/-- The sectors of an LPC176x. -/
def Lpc176x.sectorMap : PageMap where
  size := flashGetSectorSize
  size_pos a := by
    rw [flashGetSectorSize]
    split_ifs <;> decide
  size_const a b h₁ h₂ := by
    simp only [flashGetSectorSize] at h₁ h₂ ⊢
    split_ifs at h₁ h₂ ⊢ <;> first | rfl | omega

@[simp] theorem Lpc176x.sectorMap_size : sectorMap.size = flashGetSectorSize := rfl

/-! ### The application area consists of whole pages -/

/-- Applications start at whole units of 256 bytes, with room for a block. -/
theorem Mach.launchAppAddresses_spec (m : Mach) :
    ∀ a ∈ m.launchAppAddresses, a % 256 = 0 ∧ a + 64 ≤ m.flashStart + m.flashSize := by
  rcases m with chip | - | - | - | - <;> try decide
  cases chip <;> decide

theorem Stm32.aligned_launch (chip : Stm32) (reg : ℕ) :
    ∀ a ∈ (Mach.stm32 chip).launchAppAddresses, (chip.pageMap reg).Aligned a := by
  intro a ha
  rw [PageMap.aligned_iff_dvd, pageMap_size]
  cases chip <;>
    simp only [Mach.launchAppAddresses, family, List.mem_cons, List.not_mem_nil, or_false] at ha <;>
    rcases ha with rfl | rfl <;>
    simp only [flashGetPageSize, family] <;> (try split_ifs) <;> omega

theorem Stm32.aligned_end (chip : Stm32) (reg : ℕ) :
    (chip.pageMap reg).Aligned ((Mach.stm32 chip).flashStart + (Mach.stm32 chip).flashSize) := by
  rw [PageMap.aligned_iff_dvd, pageMap_size]
  cases chip <;> simp only [flashGetPageSize, family, Mach.flashStart, Mach.flashSize] <;>
    first | decide | (split_ifs <;> decide)

namespace Config.IsBuildOf

variable {cfg : Config} {chip : Stm32}

/-- `LAUNCH_APP_ADDRESS` is the start of a page. -/
theorem launch_aligned (h : cfg.IsBuildOf (.stm32 chip)) (reg : ℕ) :
    (chip.pageMap reg).Aligned cfg.launchAppAddress :=
  chip.aligned_launch reg _ h.launch

/-- The end of the flash is the end of a page. -/
theorem end_aligned (h : cfg.IsBuildOf (.stm32 chip)) (reg : ℕ) :
    (chip.pageMap reg).Aligned cfg.flashEnd := by
  rw [Config.flashEnd, h.start, h.size]
  exact chip.aligned_end reg

theorem flashEnd_lt {m : Mach} (h : cfg.IsBuildOf m) : cfg.flashEnd < 2 ^ 32 := by
  rw [Config.flashEnd, h.start, h.size]
  rcases m with chip | - | - | - | - <;> try decide
  cases chip <;> decide

theorem launch_mod {m : Mach} (h : cfg.IsBuildOf m) : cfg.launchAppAddress % 256 = 0 :=
  (m.launchAppAddresses_spec _ h.launch).1

theorem launch_add_le {m : Mach} (h : cfg.IsBuildOf m) :
    cfg.launchAppAddress + 64 ≤ cfg.flashEnd := by
  rw [Config.flashEnd, h.start, h.size]
  exact (m.launchAppAddresses_spec _ h.launch).2

theorem blockSize_le_flashEnd {m : Mach} (h : cfg.IsBuildOf m) : cfg.blockSize ≤ cfg.flashEnd := by
  rw [Config.flashEnd, h.start, h.size, h.block]
  rcases m with chip | - | - | - | - <;> try decide
  cases chip <;> decide

end Config.IsBuildOf

end Terraboot
