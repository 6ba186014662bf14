import Terraboot.FlashCommon

/-!
# The STM32 Flash Driver

`stm32/flash.c`: blocks are programmed in place, and the page is erased when its first
block arrives. Erasing by page number (`erase_page`) and programming in units of the
chip's word size (`write_block`) are taken as operations of the flash hardware on the
page, respectively the block, that contains the address.

## Main results

* `Stm32.flashWriteBlock_cases`: everything a call can do, with the decision to erase
  expressed by `Stm32.pageDecision`.
-/

open LittleEndian NorFlash Paging

namespace Terraboot

namespace Stm32

/-- The static `page_write_count`. -/
structure FlashState where
  pageWriteCount : Word
  deriving DecidableEq, Repr

/-- `erase_page` -/
def erasePage (chip : Stm32) (reg : ℕ) (f : Flash) (pageAddress : ℕ) : Flash :=
  f.erase pageAddress (chip.flashGetPageSize reg pageAddress)

/-- `write_block` -/
def writeBlock (f : Flash) (blockAddress : ℕ) (data : List Byte) : Flash :=
  f.program blockAddress data

/-- What the first block of a page does to the page. -/
inductive PageDecision
  | alreadyErased
  | retransmit
  | needErase
  deriving DecidableEq, Repr

/-- The test at the start of a page. -/
def pageDecision (m : Mem) (blockSize pageSize blockAddress : ℕ) (data : List Byte) :
    PageDecision :=
  if checkErased m blockAddress pageSize then .alreadyErased
  else if memEqual m blockAddress data &&
      checkErased m (blockAddress + blockSize) (pageSize - blockSize) then .retransmit
  else .needErase

/-- The part of `flash_write_block` after the decision: erase if needed, program the
block and compare it with the data. -/
def eraseAndWrite (chip : Stm32) (reg : ℕ) (st : FlashState) (f : Flash) (needErase : Bool)
    (pageAddress blockAddress : ℕ) (data : List Byte) : ℤ × FlashState × Flash :=
  let f := if needErase then erasePage chip reg f pageAddress else f
  let f := writeBlock f blockAddress data
  if memEqual f.mem blockAddress data then (0, st, f) else (-3, st, f)

/-- `flash_write_block` -/
def flashWriteBlock (chip : Stm32) (reg blockSize : ℕ) (st : FlashState) (f : Flash)
    (blockAddress : ℕ) (data : List Byte) : ℤ × FlashState × Flash :=
  if blockAddress &&& (blockSize - 1) ≠ 0 then (-1, st, f)
  else
    let flashPageSize := chip.flashGetPageSize reg blockAddress
    let pageAddress := alignDown blockAddress flashPageSize
    if pageAddress = blockAddress then
      match pageDecision f.mem blockSize flashPageSize blockAddress data with
      | .alreadyErased =>
          eraseAndWrite chip reg ⟨st.pageWriteCount + 1⟩ f false pageAddress blockAddress data
      | .retransmit => (0, st, f)
      | .needErase =>
          eraseAndWrite chip reg ⟨st.pageWriteCount + 1⟩ f true pageAddress blockAddress data
    else if !checkErased f.mem blockAddress blockSize then
      if memEqual f.mem blockAddress data then (0, st, f) else (-2, st, f)
    else eraseAndWrite chip reg st f false pageAddress blockAddress data

/-- `flash_complete`: the unsigned counter is returned as an `int`. -/
def flashComplete (st : FlashState) (f : Flash) : ℤ × FlashState × Flash :=
  (st.pageWriteCount.toInt, st, f)

/-- The driver. -/
def backend (chip : Stm32) (reg blockSize : ℕ) : Backend FlashState where
  init := ⟨0⟩
  flashWriteBlock := flashWriteBlock chip reg blockSize
  flashComplete := flashComplete

/-! ### What a call does -/

/-- The start of the page of an address, as the driver computes it. -/
theorem alignDown_pageSize (chip : Stm32) (reg : ℕ) {a : ℕ} (h : a < 2 ^ 32) :
    alignDown a (chip.flashGetPageSize reg a) = (chip.pageMap reg).start a := by
  obtain ⟨k, hk, -, hle⟩ := chip.flashGetPageSize_eq_pow reg a
  rw [PageMap.start, pageMap_size, hk]
  exact alignDown_eq h (by omega)

theorem eraseAndWrite_cases (chip : Stm32) (reg : ℕ) (st : FlashState) (f : Flash)
    (needErase : Bool) (page block : ℕ) (data : List Byte) :
    ∃ ret, eraseAndWrite chip reg st f needErase page block data =
      (ret, st, ((if needErase then erasePage chip reg f page else f).program block data)) := by
  rw [eraseAndWrite, writeBlock]
  generalize (if needErase then erasePage chip reg f page else f) = f₁
  by_cases h : memEqual (f₁.program block data).mem block data = true
  · exact ⟨0, if_pos h⟩
  · exact ⟨-3, if_neg h⟩

/-- **Everything a call can do to the flash**: nothing, program the block, or erase the
page that starts at the block and program the block. -/
theorem flashWriteBlock_cases (chip : Stm32) (reg blockSize : ℕ) (st : FlashState)
    (f : Flash) {block : ℕ} (hb : block < 2 ^ 32) (data : List Byte) :
    ∃ ret st' f', flashWriteBlock chip reg blockSize st f block data = (ret, st', f') ∧
      (f' = f ∨ f' = f.program block data ∨
        ((chip.pageMap reg).start block = block ∧
          f' = (erasePage chip reg f block).program block data)) := by
  rw [flashWriteBlock]
  dsimp only
  rw [alignDown_pageSize chip reg hb]
  split_ifs with h₁ h₂ h₃ h₄
  · exact ⟨_, _, _, rfl, .inl rfl⟩
  · cases pageDecision f.mem blockSize (chip.flashGetPageSize reg block) block data with
    | alreadyErased =>
        obtain ⟨ret, hret⟩ := eraseAndWrite_cases chip reg ⟨st.pageWriteCount + 1⟩ f false
          ((chip.pageMap reg).start block) block data
        exact ⟨ret, _, _, hret, .inr (.inl rfl)⟩
    | retransmit => exact ⟨_, _, _, rfl, .inl rfl⟩
    | needErase =>
        obtain ⟨ret, hret⟩ := eraseAndWrite_cases chip reg ⟨st.pageWriteCount + 1⟩ f true
          ((chip.pageMap reg).start block) block data
        rw [h₂] at hret
        exact ⟨ret, _, _, by rw [h₂]; exact hret, .inr (.inr ⟨h₂, rfl⟩)⟩
  · exact ⟨_, _, _, rfl, .inl rfl⟩
  · exact ⟨_, _, _, rfl, .inl rfl⟩
  · obtain ⟨ret, hret⟩ := eraseAndWrite_cases chip reg st f false
      ((chip.pageMap reg).start block) block data
    exact ⟨ret, _, _, hret, .inr (.inl rfl)⟩

end Stm32

end Terraboot
