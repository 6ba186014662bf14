import Mathlib.Tactic.Ring
import Terraboot.FlashConfinement

/-!
# Blocks and Pages of the STM32 Driver

`flash_write_block` of `stm32/flash.c` once more, now by what it leaves behind. The first
block of a page finds the page erased, or written as far as the block goes, or neither;
what the driver takes for the whole page is a quarter of it. Any later block finds its
place free, or already written, or the call fails.

## Main results

* `Stm32.flashWriteBlock_start`: the first block of a page is always stored, and the rest of
  the page is kept or erased.
* `Stm32.flashWriteBlock_later`: a later block is stored, and nothing else changes, or the
  call fails.
-/

open LittleEndian NorFlash Paging

namespace Terraboot

namespace Stm32

/-! ### Page sizes -/

/-- Every page is a whole number of kilobytes. -/
theorem exists_pageSize (chip : Stm32) (reg a : ℕ) :
    ∃ j, 0 < j ∧ chip.flashGetPageSize reg a = 1024 * j := by
  obtain ⟨k, hk, hle, -⟩ := chip.flashGetPageSize_eq_pow reg a
  refine ⟨2 ^ (k - 10), Nat.two_pow_pos _, ?_⟩
  rw [hk, show (1024 : ℕ) = 2 ^ 10 by rfl, ← Nat.pow_add, Nat.add_sub_cancel' hle]

/-- The start of a page is the start of a block. -/
theorem start_mod_64 (chip : Stm32) (reg a : ℕ) : (chip.pageMap reg).start a % 64 = 0 := by
  obtain ⟨j, -, hj⟩ := exists_pageSize chip reg a
  rw [PageMap.start, pageMap_size, hj, show a / (1024 * j) * (1024 * j) =
    64 * (a / (1024 * j) * (16 * j)) by ring]
  exact Nat.mul_mod_right _ _

/-- A page holds whole blocks: the block of an address in the page does not reach beyond. -/
theorem block_end_le (chip : Stm32) (reg : ℕ) {a : ℕ} (ha : a % 64 = 0) :
    a + 64 ≤ (chip.pageMap reg).start a + (chip.pageMap reg).size a := by
  obtain ⟨j, -, hj⟩ := exists_pageSize chip reg a
  have hlt := (chip.pageMap reg).lt_start_add_size a
  have hstart := start_mod_64 chip reg a
  rw [pageMap_size, hj] at hlt ⊢
  omega

/-! ### The first block of a page -/

/-- The page is taken for erased: its first quarter is blank. -/
def FoundErased (m : Mem) (a size : ℕ) : Prop := Blank m a (size / 4)

/-- The page is taken for one that the block has just been written to: the block is there,
and a quarter of the rest is blank. -/
def FoundWritten (m : Mem) (a size : ℕ) (data : List Byte) : Prop :=
  data = read m a 64 ∧ Blank m (a + 64) (size / 4 - 16)

instance (m : Mem) (a size : ℕ) : Decidable (FoundErased m a size) :=
  inferInstanceAs (Decidable (Blank _ _ _))

instance (m : Mem) (a size : ℕ) (data : List Byte) : Decidable (FoundWritten m a size data) :=
  inferInstanceAs (Decidable (_ ∧ _))

theorem pageDecision_eq (m : Mem) (a : ℕ) {j : ℕ} (hj : 0 < j) {data : List Byte}
    (h : data.length = 64) :
    pageDecision m 64 (1024 * j) a data =
      if FoundErased m a (1024 * j) then .alreadyErased
      else if FoundWritten m a (1024 * j) data then .retransmit
      else .needErase := by
  have herased : checkErased m a (1024 * j) = true ↔ FoundErased m a (1024 * j) := by
    have := checkErased_iff_quarter m a (64 * j)
    rwa [show 16 * (64 * j) = 1024 * j by ring, show 4 * (64 * j) = 1024 * j / 4 by omega] at this
  have hrest : checkErased m (a + 64) (1024 * j - 64) = true ↔
      Blank m (a + 64) (1024 * j / 4 - 16) := by
    have := checkErased_iff_quarter m (a + 64) (64 * j - 4)
    rwa [show 16 * (64 * j - 4) = 1024 * j - 64 by omega,
      show 4 * (64 * j - 4) = 1024 * j / 4 - 16 by omega] at this
  have hwritten : (memEqual m a data && checkErased m (a + 64) (1024 * j - 64)) = true ↔
      FoundWritten m a (1024 * j) data := by
    rw [Bool.and_eq_true, memEqual_iff, hrest, h, FoundWritten]
  rw [pageDecision]
  by_cases h₁ : FoundErased m a (1024 * j)
  · rw [if_pos h₁, if_pos (herased.mpr h₁)]
  · rw [if_neg h₁, if_neg (mt herased.mp h₁)]
    by_cases h₂ : FoundWritten m a (1024 * j) data
    · rw [if_pos h₂, if_pos (hwritten.mpr h₂)]
    · rw [if_neg h₂, if_neg (mt hwritten.mp h₂)]

/-- A page with its first block stored, and the rest kept or erased. -/
def pageMem (m : Mem) (a size : ℕ) (data : List Byte) (erased : Bool) : Mem :=
  write (if erased then eraseMem m a size else m) a data

theorem pageMem_apply (m : Mem) (a size : ℕ) (data : List Byte) (erased : Bool) (x : ℕ) :
    pageMem m a size data erased x =
      if InRange a data.length x then data.getD (x - a) 0
      else if erased ∧ InRange a size x then 0xFF
      else m x := by
  rw [pageMem]
  by_cases hx : InRange a data.length x
  · rw [write_of_mem _ hx, if_pos hx]
  · rw [write_of_not_mem _ hx, if_neg hx]
    cases erased with
    | false => exact (if_neg fun h => Bool.false_ne_true h.1).symm
    | true =>
        by_cases hin : InRange a size x
        · exact (if_pos hin).trans (if_pos ⟨rfl, hin⟩).symm
        · exact (if_neg hin).trans (if_neg fun h => hin h.2).symm

theorem read_pageMem (m : Mem) (a size : ℕ) (data : List Byte) (erased : Bool) :
    read (pageMem m a size data erased) a data.length = data :=
  read_write _ _ _

/-- Storing the first block again. -/
theorem pageMem_pageMem (m : Mem) (a size : ℕ) (data : List Byte) (e₁ e₂ : Bool) :
    pageMem (pageMem m a size data e₁) a size data e₂ = pageMem m a size data (e₁ || e₂) := by
  funext x
  simp only [pageMem_apply]
  by_cases hx : InRange a data.length x
  · rw [if_pos hx, if_pos hx]
  · rw [if_neg hx, if_neg hx, if_neg hx]
    by_cases hin : InRange a size x
    · cases e₁ <;> cases e₂ <;> simp [hin]
    · simp [hin]

/-- **The first block of a page** is always stored: the call succeeds, erases the page
unless it found it erased or written, and counts a page unless it found it written. -/
theorem flashWriteBlock_start {chip : Stm32} {reg a : ℕ} (hstart : (chip.pageMap reg).start a = a)
    (ha : a < 2 ^ 32) {data : List Byte} (h : data.length = 64) (st : FlashState) (f : Flash) :
    ∃ f', flashWriteBlock chip reg 64 st f a data =
        (0, ⟨st.pageWriteCount + BitVec.ofNat 32 (if FoundErased f.mem a
          (chip.flashGetPageSize reg a) ∨ ¬FoundWritten f.mem a (chip.flashGetPageSize reg a) data
          then 1 else 0)⟩, f') ∧
      f'.mem = pageMem f.mem a (chip.flashGetPageSize reg a) data
        (decide (¬FoundErased f.mem a (chip.flashGetPageSize reg a) ∧
          ¬FoundWritten f.mem a (chip.flashGetPageSize reg a) data)) := by
  obtain ⟨j, hj, hsize⟩ := exists_pageSize chip reg a
  have haligned : a &&& (64 - 1) = 0 := by
    rw [and_63, ← hstart]
    exact start_mod_64 chip reg a
  have hpage : alignDown a (1024 * j) = a := by
    rw [← hsize, alignDown_pageSize chip reg ha, hstart]
  rw [flashWriteBlock]
  dsimp only
  rw [haligned, if_neg (not_not.mpr rfl), hsize, hpage, if_pos rfl, pageDecision_eq _ _ hj h]
  by_cases herased : FoundErased f.mem a (1024 * j)
  · have hblank : Blank f.mem a data.length := herased.mono le_rfl (by omega)
    have hmem : (writeBlock f a data).mem = write f.mem a data := programMem_of_blank hblank
    have hverify : memEqual (writeBlock f a data).mem a data = true := by
      rw [memEqual_iff, hmem, read_write]
    refine ⟨writeBlock f a data, ?_, ?_⟩
    · rw [if_pos herased, if_pos (.inl herased)]
      exact if_pos hverify
    · rw [hmem, decide_eq_false fun h => h.1 herased]
      rfl
  · by_cases hwritten : FoundWritten f.mem a (1024 * j) data
    · have hcount : st.pageWriteCount + BitVec.ofNat 32 0 = st.pageWriteCount := BitVec.add_zero _
      refine ⟨f, ?_, ?_⟩
      · rw [if_neg herased, if_pos hwritten,
          if_neg fun h => h.elim herased fun hn => hn hwritten, hcount]
      · rw [decide_eq_false fun h => h.2 hwritten]
        exact (write_self f.mem a (by rw [h]; exact hwritten.1)).symm
    · have hblank : Blank (erasePage chip reg f a).mem a data.length := by
        rw [erasePage, hsize]
        exact (blank_eraseMem f.mem a (1024 * j)).mono le_rfl (by omega)
      have hmem : (writeBlock (erasePage chip reg f a) a data).mem =
          write (erasePage chip reg f a).mem a data := programMem_of_blank hblank
      have hverify : memEqual (writeBlock (erasePage chip reg f a) a data).mem a data = true := by
        rw [memEqual_iff, hmem, read_write]
      refine ⟨writeBlock (erasePage chip reg f a) a data, ?_, ?_⟩
      · rw [if_neg herased, if_neg hwritten, if_pos (.inr hwritten)]
        exact if_pos hverify
      · rw [hmem, decide_eq_true ⟨herased, hwritten⟩, erasePage, hsize]
        rfl

/-! ### Later blocks -/

/-- The block's place is free as far as the driver looks and as far as the data goes, or
the block is there already. -/
def Stores (m : Mem) (a : ℕ) (data : List Byte) : Prop :=
  data = read m a data.length ∨
    Blank m a 16 ∧ ∀ i < data.length, m (a + i) &&& data.getD i 0 = data.getD i 0

instance (m : Mem) (a : ℕ) (data : List Byte) : Decidable (Stores m a data) :=
  inferInstanceAs (Decidable (_ ∨ _))

theorem stores_write (m : Mem) (a : ℕ) (data : List Byte) : Stores (write m a data) a data :=
  .inl (read_write m a data).symm

theorem stores_of_blank {m : Mem} {a : ℕ} {data : List Byte} (h : data.length = 64)
    (hblank : Blank m a 64) : Stores m a data := by
  refine .inr ⟨hblank.mono le_rfl (by omega), fun i hi => ?_⟩
  rw [hblank (a + i) ⟨by omega, by omega⟩, allOnes_and]

/-- **A later block** is stored, and nothing else changes, or the call fails. -/
theorem flashWriteBlock_later {chip : Stm32} {reg a : ℕ}
    (hstart : (chip.pageMap reg).start a ≠ a) (h64 : a % 64 = 0) (ha : a < 2 ^ 32)
    (data : List Byte) (st : FlashState) (f : Flash) :
    (Stores f.mem a data ∧ ∃ f', flashWriteBlock chip reg 64 st f a data = (0, st, f') ∧
      f'.mem = write f.mem a data) ∨
    (¬Stores f.mem a data ∧ (flashWriteBlock chip reg 64 st f a data).1 < 0) := by
  have haligned : a &&& (64 - 1) = 0 := by rw [and_63, h64]
  have herased : checkErased f.mem a 64 = true ↔ Blank f.mem a 16 := checkErased_iff_quarter _ _ 4
  rw [flashWriteBlock]
  dsimp only
  rw [haligned, if_neg (not_not.mpr rfl), alignDown_pageSize chip reg ha, if_neg hstart]
  by_cases hblank : Blank f.mem a 16
  · have hfree : ¬(!checkErased f.mem a 64) = true := by
      rw [herased.mpr hblank]
      exact Bool.false_ne_true
    have hstores : Stores f.mem a data ↔
        memEqual (writeBlock f a data).mem a data = true := by
      have hread : data = read (programMem f.mem a data) a data.length ↔
          ∀ i < data.length, f.mem (a + i) &&& data.getD i 0 = data.getD i 0 :=
        (read_programMem_iff f.mem a data).trans (programMem_eq_write_iff f.mem a data)
      rw [memEqual_iff, writeBlock, Flash.program_mem, hread]
      constructor
      · rintro (heq | ⟨-, hfits⟩)
        · exact (programMem_eq_write_iff f.mem a data).mp (programMem_of_eq heq)
        · exact hfits
      · exact fun hfits => .inr ⟨hblank, hfits⟩
    rw [if_neg hfree]
    by_cases hok : memEqual (writeBlock f a data).mem a data = true
    · refine .inl ⟨hstores.mpr hok, writeBlock f a data, if_pos hok, ?_⟩
      rw [memEqual_iff, writeBlock, Flash.program_mem, read_programMem_iff] at hok
      exact hok
    · refine .inr ⟨mt hstores.mp hok, ?_⟩
      have hfail : eraseAndWrite chip reg st f false ((chip.pageMap reg).start a) a data =
          (-3, st, writeBlock f a data) := if_neg hok
      have hneg : (-3 : ℤ) < 0 := by decide
      rw [hfail]
      exact hneg
  · have htaken : (!checkErased f.mem a 64) = true := by
      rw [Bool.not_eq_true', Bool.eq_false_iff]
      exact mt herased.mp hblank
    rw [if_pos htaken]
    by_cases heq : data = read f.mem a data.length
    · rw [if_pos ((memEqual_iff _ _ _).mpr heq)]
      exact .inl ⟨.inl heq, f, rfl, (write_self f.mem a heq).symm⟩
    · rw [if_neg (mt (memEqual_iff _ _ _).mp heq)]
      have hneg : (-2 : ℤ) < 0 := by decide
      exact .inr ⟨fun hs => hs.elim heq fun hb => hblank hb.1, hneg⟩

end Stm32

end Terraboot
