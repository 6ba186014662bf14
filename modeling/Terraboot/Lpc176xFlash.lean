import Terraboot.FlashCommon

/-!
# The LPC176x Flash Driver

`lpc176x/flash.c`: the ROM programs 256 bytes at a time, so blocks are collected in
`iap_buf` and written when the last block of a 256-byte unit arrives, or on completion
with the rest of the unit blank. The ROM's result codes are a parameter (`IapRom`); an
operation takes effect exactly when its code is 0, and erases or programs what the user
manual says it does.

## Main results

* `Lpc176x.sectorBase_index`: the ROM's sector of an address starts where the driver
  rounds the address down to.
* `Lpc176x.writeBuffer_cases`: everything `write_buffer` can do to the flash.
-/

open LittleEndian NorFlash Paging

namespace Terraboot

namespace Lpc176x

def iapBufMinSize : ℕ := 256

/-- The result codes of the ROM's erase and write commands. -/
structure IapRom where
  eraseSector : Flash → ℕ → ℤ
  writeFlash : Flash → ℕ → List Byte → ℤ

/-- The static variables of `lpc176x/flash.c`. -/
structure FlashState where
  iapBuf : List Byte
  nextAddress : ℕ
  pageWriteCount : Word
  deriving DecidableEq, Repr

/-- The zero-initialised statics. -/
def FlashState.init : FlashState := ⟨List.replicate iapBufMinSize 0, 0, 0⟩

/-- `flash_get_sector_index` -/
def flashGetSectorIndex (addr : ℕ) : ℕ :=
  if addr < 0x00010000 then addr / (4 * 1024) else 16 + (addr - 0x00010000) / (32 * 1024)

/-- The first address of a sector, by its number. -/
def sectorBase (sector : ℕ) : ℕ :=
  if sector < 16 then sector * (4 * 1024) else 0x00010000 + (sector - 16) * (32 * 1024)

/-- `erase_sector`: the ROM's erase command on one sector. -/
def eraseSector (rom : IapRom) (f : Flash) (sector : ℕ) : ℤ × Flash :=
  let ret := rom.eraseSector f sector
  (ret, if ret = 0 then f.erase (sectorBase sector) (flashGetSectorSize (sectorBase sector)) else f)

/-- `write_flash`: the ROM's copy-RAM-to-flash command. -/
def writeFlash (rom : IapRom) (f : Flash) (flashAddress : ℕ) (data : List Byte) : ℤ × Flash :=
  let ret := rom.writeFlash f flashAddress data
  (ret, if ret = 0 then f.program flashAddress data else f)

/-- The last step of `write_buffer`. -/
def unlockAndWrite (rom : IapRom) (st : FlashState) (f : Flash) (flashAddress : ℕ)
    (data : List Byte) : ℤ × FlashState × Flash :=
  let r := writeFlash rom f flashAddress data
  if r.1 ≠ 0 then (-4, st, r.2) else (0, st, r.2)

/-- `write_buffer` -/
def writeBuffer (rom : IapRom) (st : FlashState) (f : Flash) (flashAddress : ℕ)
    (data : List Byte) : ℤ × FlashState × Flash :=
  let len := data.length
  let flashSectorSize := flashGetSectorSize flashAddress
  let sector := flashGetSectorIndex flashAddress
  let pageAddress := alignDown flashAddress flashSectorSize
  let counted : FlashState := { st with pageWriteCount := st.pageWriteCount + 1 }
  if pageAddress = flashAddress then
    if checkErased f.mem flashAddress flashSectorSize then
      unlockAndWrite rom counted f flashAddress data
    else if memEqual f.mem flashAddress data &&
        checkErased f.mem (flashAddress + len) (flashSectorSize - len) then (0, st, f)
    else
      let r := eraseSector rom f sector
      if r.1 ≠ 0 then (-3, st, r.2)
      else unlockAndWrite rom counted r.2 flashAddress data
  else if !checkErased f.mem flashAddress len then
    if memEqual f.mem flashAddress data then (0, st, f) else (-2, st, f)
  else unlockAndWrite rom st f flashAddress data

/-- The part of `flash_write_block` behind the order check: buffer the block, and write
the buffer when it is the last block of its unit. -/
def bufferBlock (rom : IapRom) (blockSize : ℕ) (st : FlashState) (f : Flash)
    (blockAddress : ℕ) (data : List Byte) : ℤ × FlashState × Flash :=
  let bufIdx := blockAddress &&& (iapBufMinSize - 1)
  let st := { st with iapBuf := overwrite st.iapBuf bufIdx data }
  if bufIdx = iapBufMinSize - blockSize then
    let r := writeBuffer rom st f (blockAddress - bufIdx) st.iapBuf
    if r.1 < 0 then r
    else (0, { r.2.1 with nextAddress := r.2.1.nextAddress + blockSize }, r.2.2)
  else (0, { st with nextAddress := st.nextAddress + blockSize }, f)

/-- `flash_write_block` -/
def flashWriteBlock (rom : IapRom) (blockSize : ℕ) (st : FlashState) (f : Flash)
    (blockAddress : ℕ) (data : List Byte) : ℤ × FlashState × Flash :=
  if blockAddress &&& (blockSize - 1) ≠ 0 then (-1, st, f)
  else if blockSize < iapBufMinSize then
    if blockAddress ≠ st.nextAddress then
      if (blockAddress ||| st.nextAddress) &&& (iapBufMinSize - 1) ≠ 0 then (-2, st, f)
      else bufferBlock rom blockSize { st with nextAddress := blockAddress } f blockAddress data
    else bufferBlock rom blockSize st f blockAddress data
  else writeBuffer rom st f blockAddress data

/-- `flash_complete` -/
def flashComplete (rom : IapRom) (blockSize : ℕ) (st : FlashState) (f : Flash) :
    ℤ × FlashState × Flash :=
  let bufIdx := st.nextAddress &&& (iapBufMinSize - 1)
  if blockSize < iapBufMinSize ∧ bufIdx ≠ 0 then
    let st := { st with
      iapBuf := overwrite st.iapBuf bufIdx (List.replicate (iapBufMinSize - bufIdx) 0xFF) }
    let r := writeBuffer rom st f (st.nextAddress - bufIdx) st.iapBuf
    if r.1 < 0 then r else (r.2.1.pageWriteCount.toInt, r.2)
  else (st.pageWriteCount.toInt, st, f)

/-- The driver. -/
def backend (rom : IapRom) (blockSize : ℕ) : Backend FlashState where
  init := .init
  flashWriteBlock := flashWriteBlock rom blockSize
  flashComplete := flashComplete rom blockSize

/-! ### What a call does -/

/-- The sector of an address, as the driver rounds it down. -/
theorem alignDown_sectorSize {a : ℕ} (h : a < 2 ^ 32) :
    alignDown a (flashGetSectorSize a) = sectorMap.start a := by
  obtain ⟨k, hk, hle⟩ : ∃ k, flashGetSectorSize a = 2 ^ k ∧ k ≤ 32 := by
    rw [flashGetSectorSize]
    split_ifs
    · exact ⟨12, rfl, by omega⟩
    · exact ⟨15, rfl, by omega⟩
  rw [PageMap.start, sectorMap_size, hk]
  exact alignDown_eq h hle

/-- **The ROM's sector of an address is the one the driver computes.** -/
theorem sectorBase_index (a : ℕ) : sectorBase (flashGetSectorIndex a) = sectorMap.start a := by
  rw [PageMap.start, sectorMap_size, sectorBase, flashGetSectorIndex, flashGetSectorSize]
  split_ifs <;> omega

/-- The effect of `write_buffer` on the flash: nothing, or what it programs, possibly
after erasing the sector that starts there, or the erase alone. -/
inductive BufferEffect (f : Flash) (a : ℕ) (data : List Byte) : Flash → Prop
  | nothing : BufferEffect f a data f
  | program : BufferEffect f a data (f.program a data)
  | erase : sectorMap.start a = a →
      BufferEffect f a data (f.erase a (flashGetSectorSize a))
  | eraseProgram : sectorMap.start a = a →
      BufferEffect f a data ((f.erase a (flashGetSectorSize a)).program a data)

theorem unlockAndWrite_cases (rom : IapRom) (st : FlashState) (f : Flash) (a : ℕ)
    (data : List Byte) :
    ∃ ret f', unlockAndWrite rom st f a data = (ret, st, f') ∧
      (f' = f ∨ f' = f.program a data) := by
  rw [unlockAndWrite, writeFlash]
  dsimp only
  by_cases h : rom.writeFlash f a data = 0
  · rw [if_pos h, if_neg (not_not.mpr h)]
    exact ⟨_, _, rfl, .inr rfl⟩
  · rw [if_neg h, if_pos h]
    exact ⟨_, _, rfl, .inl rfl⟩

/-- **Everything `write_buffer` can do**: it never moves `next_address` or the buffer. -/
theorem writeBuffer_cases (rom : IapRom) (st : FlashState) (f : Flash) {a : ℕ}
    (ha : a < 2 ^ 32) (data : List Byte) :
    ∃ ret c f', writeBuffer rom st f a data = (ret, { st with pageWriteCount := c }, f') ∧
      BufferEffect f a data f' := by
  rw [writeBuffer]
  dsimp only
  rw [alignDown_sectorSize ha]
  split_ifs with h₁ h₂ h₃ h₄ h₅
  · obtain ⟨ret, f', h, rfl | rfl⟩ := unlockAndWrite_cases rom
      { st with pageWriteCount := st.pageWriteCount + 1 } f a data
    · exact ⟨ret, _, _, h, .nothing⟩
    · exact ⟨ret, _, _, h, .program⟩
  · exact ⟨0, st.pageWriteCount, f, rfl, .nothing⟩
  · refine ⟨-3, st.pageWriteCount, _, rfl, ?_⟩
    rw [eraseSector] at h₄ ⊢
    dsimp only at h₄ ⊢
    rw [if_neg h₄]
    exact .nothing
  · have hbase : (eraseSector rom f (flashGetSectorIndex a)).2 =
        f.erase a (flashGetSectorSize a) := by
      rw [eraseSector] at h₄ ⊢
      dsimp only at h₄ ⊢
      rw [if_pos (not_not.mp h₄), sectorBase_index, h₁]
    rw [hbase]
    obtain ⟨ret, f', h, rfl | rfl⟩ := unlockAndWrite_cases rom
      { st with pageWriteCount := st.pageWriteCount + 1 } (f.erase a (flashGetSectorSize a)) a data
    · exact ⟨ret, _, _, h, .erase h₁⟩
    · exact ⟨ret, _, _, h, .eraseProgram h₁⟩
  · exact ⟨0, st.pageWriteCount, f, rfl, .nothing⟩
  · exact ⟨-2, st.pageWriteCount, f, rfl, .nothing⟩
  · obtain ⟨ret, f', h, rfl | rfl⟩ := unlockAndWrite_cases rom st f a data
    · exact ⟨ret, _, _, h, .nothing⟩
    · exact ⟨ret, _, _, h, .program⟩

end Lpc176x

end Terraboot
