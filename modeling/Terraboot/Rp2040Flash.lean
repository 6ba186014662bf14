import Terraboot.FlashCommon

/-!
# The RP2040 and RP2350 Flash Driver

`rp2040/flash.c`: blocks are collected in a buffer of one 256-byte flash page, which is
flushed when a block of another page arrives or on completion; flushing the first page
of a sector erases the sector. The ROM functions take offsets from the start of the
flash, which the processor sees at `FLASH_START`.
-/

open LittleEndian NorFlash

namespace Terraboot

namespace Rp2040

/-- `PAGE_SIZE`, with the macro `MAX`. -/
def pageSize (blockSize : ℕ) : ℕ := if blockSize > 256 then blockSize else 256

def sectorSize : ℕ := 4096

/-- The static variables of `rp2040/flash.c`. -/
structure FlashState where
  bufferNotEmpty : Bool
  bufferStartAddress : ℕ
  buffer : List Byte
  pageWriteCount : Word
  deriving DecidableEq, Repr

/-- The zero-initialised statics. -/
def FlashState.init (blockSize : ℕ) : FlashState :=
  ⟨false, 0, List.replicate (pageSize blockSize) 0, 0⟩

/-- `flash_range_erase`, by offset from the start of the flash. -/
def flashRangeErase (cfg : Config) (f : Flash) (offset count : ℕ) : Flash :=
  f.erase (cfg.flashStart + offset) count

/-- `flash_range_program`, by offset from the start of the flash. -/
def flashRangeProgram (cfg : Config) (f : Flash) (offset : ℕ) (data : List Byte) : Flash :=
  f.program (cfg.flashStart + offset) data

/-- `flush_buffer` -/
def flushBuffer (cfg : Config) (st : FlashState) (f : Flash) : FlashState × Flash :=
  if !st.bufferNotEmpty then (st, f)
  else
    let f :=
      if st.bufferStartAddress % sectorSize = 0 then
        flashRangeErase cfg f (st.bufferStartAddress - cfg.flashStart) sectorSize
      else f
    let f := flashRangeProgram cfg f (st.bufferStartAddress - cfg.flashStart) st.buffer
    ({ st with pageWriteCount := st.pageWriteCount + 1, bufferNotEmpty := false }, f)

/-- The end of `ensure_buffer`: start a blank buffer for the page of `address`. -/
def prepareBuffer (cfg : Config) (st : FlashState) (address : ℕ) : FlashState :=
  { st with
    bufferNotEmpty := true
    bufferStartAddress := address / pageSize cfg.blockSize * pageSize cfg.blockSize
    buffer := List.replicate (pageSize cfg.blockSize) 0xFF }

/-- `ensure_buffer` -/
def ensureBuffer (cfg : Config) (st : FlashState) (f : Flash) (address : ℕ) :
    FlashState × Flash :=
  if st.bufferNotEmpty then
    if st.bufferStartAddress ≤ address ∧
        address + cfg.blockSize ≤ st.bufferStartAddress + pageSize cfg.blockSize then (st, f)
    else
      let r := flushBuffer cfg st f
      (prepareBuffer cfg r.1 address, r.2)
  else (prepareBuffer cfg st address, f)

/-- `check_valid_flash_address` -/
def checkValidFlashAddress (cfg : Config) (address : ℕ) : ℤ :=
  if address % cfg.blockSize ≠ 0 then -1
  else if address < cfg.flashStart then -2
  else if cfg.flashStart + cfg.flashSize < address + cfg.blockSize then -3
  else 0

/-- `flash_write_block` -/
def flashWriteBlock (cfg : Config) (st : FlashState) (f : Flash) (blockAddress : ℕ)
    (data : List Byte) : ℤ × FlashState × Flash :=
  let ret := checkValidFlashAddress cfg blockAddress
  if ret < 0 then (ret, st, f)
  else
    let r := ensureBuffer cfg st f blockAddress
    (0, { r.1 with
      buffer := overwrite r.1.buffer (blockAddress - r.1.bufferStartAddress) data }, r.2)

/-- `flash_complete` -/
def flashComplete (cfg : Config) (st : FlashState) (f : Flash) : ℤ × FlashState × Flash :=
  let r := flushBuffer cfg st f
  (r.1.pageWriteCount.toInt, r.1, r.2)

/-- The driver. -/
def backend (cfg : Config) : Backend FlashState where
  init := .init cfg.blockSize
  flashWriteBlock := flashWriteBlock cfg
  flashComplete := flashComplete cfg

end Rp2040

end Terraboot
