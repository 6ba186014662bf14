import Terraboot.Lpc176xUpload

/-!
# Which Page an Erase Selects

`erase_page` of `stm32/flash.c` tells the hardware which page to erase: by a sector number, by an
address, or by a page number, depending on the family. `flash_get_sector_index` of
`lpc176x/flash.c` is the number of a sector for the ROM. The sizes of the pages come from other
functions, `flash_get_page_size` and `flash_get_sector_size`. Here the numbers are compared with
the pages that these sizes give.

## Main results

* `Stm32.eraseSelect_eq_iff`: the numbers of different pages differ, but for the upper end of the
  STM32H743.
* `erase_selects_iff`: for which blocks of which builds equal numbers mean equal pages.
-/

open NorFlash Paging

namespace Terraboot

namespace Stm32

/-- What `erase_page` writes to select a page: a sector number, an address or a page number. -/
def eraseSelect (chip : Stm32) (flashSizeReg pageAddress : ℕ) : ℕ :=
  match chip.family with
  | .f2 | .f4 =>
      let sidx :=
        if pageAddress < 0x08010000 then (pageAddress - 0x08000000) / (16 * 1024)
        else if pageAddress < 0x08020000 then 4
        else 5 + (pageAddress - 0x08020000) / (128 * 1024)
      if sidx > 0x0f then 0x0f else sidx
  | .f0 | .f1 => pageAddress
  | .g0 | .g4 =>
      let pidx := (pageAddress - 0x08000000) / (2 * 1024)
      let pidx :=
        if pidx ≥ 64 then
          if flashSizeReg ≤ 256 then pidx + 256 - 64
          else if pidx < 128 then pidx else pidx + 256 - 128
        else pidx
      if pidx > 0x3ff then 0x3ff else pidx
  | .h7 =>
      let snb := (pageAddress - 0x08000000) / (128 * 1024)
      if snb > 7 then 7 else snb

variable {chip : Stm32} {reg a b : ℕ}

/-- The first address of a sector of an STM32F2 or STM32F4. -/
def sectorStart (sidx : ℕ) : ℕ :=
  if sidx < 4 then 0x08000000 + sidx * (16 * 1024)
  else if sidx < 5 then 0x08010000
  else 0x08020000 + (sidx - 5) * (128 * 1024)

/-- The sectors of an STM32F2 or STM32F4 up to 512 KiB. -/
theorem sectorStart_eraseSelect (h : chip.family = .f2 ∨ chip.family = .f4)
    (ha : 0x8000000 ≤ a ∧ a < 0x8080000) :
    sectorStart (chip.eraseSelect reg ((chip.pageMap reg).start a)) =
      (chip.pageMap reg).start a := by
  have hsize : chip.flashGetPageSize reg a =
      if a < 0x08010000 then 16 * 1024 else if a < 0x08020000 then 64 * 1024 else 128 * 1024 := by
    rcases h with h | h <;> rw [flashGetPageSize, h]
  have hselect : ∀ x < 0x8080000, chip.eraseSelect reg x =
      if x < 0x08010000 then (x - 0x08000000) / (16 * 1024)
      else if x < 0x08020000 then 4 else 5 + (x - 0x08020000) / (128 * 1024) := by
    intro x hx
    rcases h with h | h <;>
    · rw [eraseSelect, h]
      refine if_neg ?_
      split_ifs <;> omega
  have hle := (chip.pageMap reg).start_le a
  rw [hselect _ (by omega), PageMap.start, pageMap_size, hsize]
  by_cases h₁ : a < 0x08010000
  · rw [if_pos h₁, if_pos (by omega), sectorStart, if_pos (by omega)]
    omega
  · rw [if_neg h₁]
    by_cases h₂ : a < 0x08020000
    · rw [if_pos h₂, if_neg (by omega), if_pos (by omega), sectorStart, if_neg (by decide),
        if_pos (by decide)]
      omega
    · rw [if_neg h₂, if_neg (by omega), if_neg (by omega), sectorStart, if_neg (by omega),
        if_neg (by omega)]
      omega

/-- The first address of a page of an STM32G0 or STM32G4 up to 128 KiB. -/
theorem eraseSelect_g0_g4 (h : chip.family = .g0 ∨ chip.family = .g4)
    (ha : 0x8000000 ≤ a ∧ a < 0x8020000) :
    0x8000000 + chip.eraseSelect reg ((chip.pageMap reg).start a) * (2 * 1024) =
      (chip.pageMap reg).start a := by
  have hsize : chip.flashGetPageSize reg a = 2 * 1024 := by
    rcases h with h | h <;> rw [flashGetPageSize, h]
  have hselect : ∀ x < 0x8020000,
      chip.eraseSelect reg x = (x - 0x08000000) / (2 * 1024) := by
    intro x hx
    have hpage : ¬(x - 0x08000000) / (2 * 1024) ≥ 64 := by omega
    rcases h with h | h <;>
    · rw [eraseSelect, h]
      dsimp only
      rw [if_neg hpage, if_neg (by omega)]
  have hle := (chip.pageMap reg).start_le a
  rw [hselect _ (by omega), PageMap.start, pageMap_size, hsize]
  omega

/-- The sectors of an STM32H7: from the eighth on they have one number. -/
theorem eraseSelect_h7 (h : chip.family = .h7) (ha : 0x8000000 ≤ a) (hb : 0x8000000 ≤ b) :
    (chip.eraseSelect reg ((chip.pageMap reg).start a) =
        chip.eraseSelect reg ((chip.pageMap reg).start b) ↔
      (chip.pageMap reg).start a = (chip.pageMap reg).start b) ↔
    (a < 0x80E0000 ∨ b < 0x80E0000 ∨
      (chip.pageMap reg).start a = (chip.pageMap reg).start b) := by
  have hsize : ∀ x, chip.flashGetPageSize reg x = 128 * 1024 := by
    intro x
    rw [flashGetPageSize, h]
  have hselect : ∀ x, chip.eraseSelect reg x = min ((x - 0x08000000) / (128 * 1024)) 7 := by
    intro x
    rw [eraseSelect, h]
    dsimp only
    split_ifs <;> omega
  simp only [PageMap.start, pageMap_size, hsize, hselect]
  omega

/-- How large the flash of the families is. -/
theorem flashSize_le (chip : Stm32) :
    (chip.family = .f2 ∨ chip.family = .f4 → (Mach.stm32 chip).flashSize ≤ 0x80000) ∧
      (chip.family = .g0 ∨ chip.family = .g4 → (Mach.stm32 chip).flashSize ≤ 0x20000) ∧
      (chip.family = .h7 → chip ≠ .h743 → (Mach.stm32 chip).flashSize ≤ 0x40000) := by
  cases chip <;> decide

/-- **When the number that `erase_page` computes tells pages apart**, for two blocks that
`flashcmd_block_in_range` accepts. -/
theorem eraseSelect_eq_iff {cfg : Config} (hcfg : cfg.IsBuildOf (.stm32 chip)) (reg : ℕ)
    (ha : flashcmdBlockInRange cfg a = true) (hb : flashcmdBlockInRange cfg b = true) :
    (chip.eraseSelect reg ((chip.pageMap reg).start a) =
        chip.eraseSelect reg ((chip.pageMap reg).start b) ↔
      (chip.pageMap reg).start a = (chip.pageMap reg).start b) ↔
    (chip = .h743 → a < 0x80E0000 ∨ b < 0x80E0000 ∨
      (chip.pageMap reg).start a = (chip.pageMap reg).start b) := by
  have hlaunch : 0x8000000 ≤ cfg.launchAppAddress := by
    have hmem := hcfg.launch
    cases chip <;> simp [Mach.launchAppAddresses, family] at hmem <;> omega
  have hend : cfg.flashEnd = 0x8000000 + (Mach.stm32 chip).flashSize := by
    rw [Config.flashEnd, hcfg.start, hcfg.size, Mach.flashStart]
  rw [hcfg.inRange_iff, hend] at ha hb
  -- equal numbers of one kind of page mean equal pages if the number gives the address
  have hinv : ∀ inv : ℕ → ℕ, (∀ x, x = a ∨ x = b →
      inv (chip.eraseSelect reg ((chip.pageMap reg).start x)) = (chip.pageMap reg).start x) →
      (chip.eraseSelect reg ((chip.pageMap reg).start a) =
        chip.eraseSelect reg ((chip.pageMap reg).start b) ↔
      (chip.pageMap reg).start a = (chip.pageMap reg).start b) := fun inv h =>
    ⟨fun heq => by rw [← h a (.inl rfl), ← h b (.inr rfl), heq], fun heq => by rw [heq]⟩
  cases hfamily : chip.family with
  | f0 | f1 =>
      have hselect : ∀ x, chip.eraseSelect reg x = x := fun x => by rw [eraseSelect, hfamily]
      refine iff_of_true (by rw [hselect, hselect]) ?_
      rintro rfl
      cases hfamily
  | f2 | f4 =>
      have hor : chip.family = .f2 ∨ chip.family = .f4 := by simp [hfamily]
      have hsize := chip.flashSize_le.1 hor
      refine iff_of_true (hinv sectorStart ?_) ?_
      · rintro x (rfl | rfl) <;> exact sectorStart_eraseSelect hor ⟨by omega, by omega⟩
      · rintro rfl
        cases hfamily
  | g0 | g4 =>
      have hor : chip.family = .g0 ∨ chip.family = .g4 := by simp [hfamily]
      have hsize := chip.flashSize_le.2.1 hor
      refine iff_of_true (hinv (fun n => 0x8000000 + n * (2 * 1024)) ?_) ?_
      · rintro x (rfl | rfl) <;> exact eraseSelect_g0_g4 hor ⟨by omega, by omega⟩
      · rintro rfl
        cases hfamily
  | h7 =>
      rw [eraseSelect_h7 hfamily (by omega) (by omega)]
      constructor
      · exact fun h _ => h
      · intro h
        by_cases hchip : chip = .h743
        · exact h hchip
        · have hsize := chip.flashSize_le.2.2 hfamily hchip
          omega

/-- The start of the page of an address, as `flash_write_block` computes it. -/
def pageAddress (chip : Stm32) (flashSizeReg addr : ℕ) : ℕ :=
  alignDown addr (chip.flashGetPageSize flashSizeReg addr)

end Stm32

/-- The start of the sector of an address, as `write_buffer` computes it. -/
def Lpc176x.pageAddress (addr : ℕ) : ℕ := alignDown addr (flashGetSectorSize addr)

/-- The number of a sector gives its first address. -/
theorem Lpc176x.flashGetSectorIndex_eq_iff (a b : ℕ) :
    flashGetSectorIndex (sectorMap.start a) = flashGetSectorIndex (sectorMap.start b) ↔
      sectorMap.start a = sectorMap.start b := by
  refine ⟨fun heq => ?_, fun heq => by rw [heq]⟩
  have hbase := congrArg sectorBase heq
  rwa [sectorBase_index, sectorBase_index, (sectorMap.start_start a).1,
    (sectorMap.start_start b).1] at hbase

/-- **Which blocks of which builds an erase tells apart**, of the blocks that
`flashcmd_block_in_range` accepts: on an STM32 the number that `erase_page` computes is the same
exactly if the page is, unless the chip is an STM32H743 and both blocks lie in its eighth sector or
behind it, in different sectors; on an LPC176x the sector index always is. Page sizes are constant
over each page. -/
theorem erase_selects_iff {cfg : Config} {a b : ℕ} (ha : flashcmdBlockInRange cfg a = true)
    (hb : flashcmdBlockInRange cfg b = true) :
    (∀ (chip : Stm32) (reg : ℕ), cfg.IsBuildOf (.stm32 chip) →
      ((chip.eraseSelect reg (chip.pageAddress reg a) =
            chip.eraseSelect reg (chip.pageAddress reg b) ↔
          chip.pageAddress reg a = chip.pageAddress reg b) ↔
        (chip = .h743 → a < 0x80E0000 ∨ b < 0x80E0000 ∨
          chip.pageAddress reg a = chip.pageAddress reg b)) ∧
      ∀ x, chip.pageAddress reg a ≤ x →
        x < chip.pageAddress reg a + chip.flashGetPageSize reg a →
        chip.flashGetPageSize reg x = chip.flashGetPageSize reg a) ∧
    (Lpc176x.IsBuild cfg →
      (Lpc176x.flashGetSectorIndex (Lpc176x.pageAddress a) =
          Lpc176x.flashGetSectorIndex (Lpc176x.pageAddress b) ↔
        Lpc176x.pageAddress a = Lpc176x.pageAddress b) ∧
      ∀ x, Lpc176x.pageAddress a ≤ x →
        x < Lpc176x.pageAddress a + Lpc176x.flashGetSectorSize a →
        Lpc176x.flashGetSectorSize x = Lpc176x.flashGetSectorSize a) := by
  constructor
  · intro chip reg hcfg
    have hlt := hcfg.flashEnd_lt
    have ha' := (hcfg.inRange_iff a).mp ha
    have hb' := (hcfg.inRange_iff b).mp hb
    simp only [Stm32.pageAddress]
    rw [Stm32.alignDown_pageSize chip reg (by omega), Stm32.alignDown_pageSize chip reg (by omega)]
    exact ⟨Stm32.eraseSelect_eq_iff hcfg reg ha hb, fun x hlo hhi =>
      ((chip.pageMap reg).start_eq_of_mem hlo hhi).2⟩
  · intro hcfg
    have ha' := (hcfg.inRange_iff a).mp ha
    have hb' := (hcfg.inRange_iff b).mp hb
    have hlt := hcfg.flashEnd
    simp only [Lpc176x.pageAddress]
    rw [Lpc176x.alignDown_sectorSize (by omega), Lpc176x.alignDown_sectorSize (by omega)]
    exact ⟨Lpc176x.flashGetSectorIndex_eq_iff a b, fun x hlo hhi =>
      (Lpc176x.sectorMap.start_eq_of_mem hlo hhi).2⟩

/-- Two blocks of the shipped configuration, and two of an LPC1769, in different pages. -/
theorem erase_selects_two :
    Stm32.eraseSelect .f103 64 (Stm32.pageAddress .f103 64 0x8002000) ≠
        Stm32.eraseSelect .f103 64 (Stm32.pageAddress .f103 64 0x8002400) ∧
      Lpc176x.flashGetSectorIndex (Lpc176x.pageAddress 0x4000) ≠
        Lpc176x.flashGetSectorIndex (Lpc176x.pageAddress 0x5040) := by
  constructor
  · refine fun heq => absurd (((((erase_selects_iff ?_ ?_).1 .f103 64 steinzeit_isBuildOf).1).mpr
      nofun).mp heq) ?_ <;> decide
  · refine fun heq => absurd (((erase_selects_iff ?_ ?_).2 Lpc176x.lpc1769Config_isBuild).1.mp
      heq) ?_ <;> decide

/-- A build for the STM32H743, with 2 MiB of flash. -/
def h743Config : Config := { steinzeit with
  clockFreq := 400000000
  flashSize := 0x200000
  launchAppAddress := 0x8020000 }

/-- The sectors at `0x80E0000` and `0x8100000` have the same number. -/
theorem eraseSelect_collides :
    ¬∀ (chip : Stm32) (cfg : Config) (reg a b : ℕ), cfg.IsBuildOf (.stm32 chip) →
      flashcmdBlockInRange cfg a = true → flashcmdBlockInRange cfg b = true →
      (chip.eraseSelect reg (chip.pageAddress reg a) =
          chip.eraseSelect reg (chip.pageAddress reg b) ↔
        chip.pageAddress reg a = chip.pageAddress reg b) := by
  intro h
  have hbuild : h743Config.IsBuildOf (.stm32 .h743) :=
    ⟨fun _ => rfl, ⟨false, rfl⟩, rfl, rfl, by decide, rfl⟩
  have hsame := (h .h743 h743Config 2048 0x80E0000 0x8100000 hbuild (by decide) (by decide)).mp
    (by decide)
  exact absurd hsame (by decide)

end Terraboot
