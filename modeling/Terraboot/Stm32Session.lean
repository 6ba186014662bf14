import Terraboot.FlashSession

/-!
# Sessions with the STM32 Driver

All that the driver of `stm32/flash.c` remembers is the number of pages it has started. It can be
read off the answer to `SEND_EOF` as long as it is not negative as an `int`, and every page
that is started counts it up.

## Main results

* `Stm32.indist_iff`: two states with the same flash content cannot be told apart exactly if they
  agree on the count.
-/

open LittleEndian NorFlash Paging

namespace Terraboot

namespace Stm32

variable {chip : Stm32} {reg : ℕ}

/-- Two results of the driver that differ in the history of the flash only. -/
structure SameResult (r r' : ℤ × FlashState × Flash) : Prop where
  ret : r.1 = r'.1
  state : r.2.1 = r'.2.1
  mem : r.2.2.mem = r'.2.2.mem

theorem eraseAndWrite_congr (st : FlashState) {f f' : Flash} (h : f.mem = f'.mem)
    (needErase : Bool) (page block : ℕ) (data : List Byte) :
    SameResult (eraseAndWrite chip reg st f needErase page block data)
      (eraseAndWrite chip reg st f' needErase page block data) := by
  rw [eraseAndWrite, eraseAndWrite]
  have hwritten : (writeBlock (if needErase = true then erasePage chip reg f page else f)
      block data).mem = (writeBlock (if needErase = true then erasePage chip reg f' page else f')
      block data).mem := by
    rw [writeBlock, writeBlock, Flash.program_mem, Flash.program_mem]
    split_ifs
    · rw [erasePage, erasePage, Flash.erase_mem, Flash.erase_mem, h]
    · rw [h]
  generalize writeBlock (if needErase = true then erasePage chip reg f page else f) block data = g
    at hwritten ⊢
  generalize writeBlock (if needErase = true then erasePage chip reg f' page else f') block data = g'
    at hwritten ⊢
  rw [hwritten]
  split_ifs <;> exact ⟨rfl, rfl, hwritten⟩

/-- What a write does depends on the content of the flash only. -/
theorem flashWriteBlock_congr (blockSize : ℕ) (st : FlashState) {f f' : Flash} (h : f.mem = f'.mem)
    (block : ℕ) (data : List Byte) :
    SameResult (flashWriteBlock chip reg blockSize st f block data)
      (flashWriteBlock chip reg blockSize st f' block data) := by
  rw [flashWriteBlock, flashWriteBlock]
  dsimp only
  rw [h]
  split_ifs
  · exact ⟨rfl, rfl, h⟩
  · split
    · exact eraseAndWrite_congr _ h _ _ _ _
    · exact ⟨rfl, rfl, h⟩
    · exact eraseAndWrite_congr _ h _ _ _ _
  · exact ⟨rfl, rfl, h⟩
  · exact ⟨rfl, rfl, h⟩
  · exact eraseAndWrite_congr _ h _ _ _ _

/-- The first block of a page counts, unless it is found there. -/
theorem flashWriteBlock_counts (st : FlashState) (f : Flash) {block : ℕ} (hb : block < 2 ^ 32)
    (hpage : (chip.pageMap reg).start block = block) (h64 : block % 64 = 0) {data : List Byte}
    (hdata : data ≠ read f.mem block data.length) :
    (flashWriteBlock chip reg 64 st f block data).2.1.pageWriteCount = st.pageWriteCount + 1 := by
  have hmask : block &&& (64 - 1) = 0 := (and_63 block).trans h64
  have hdiffer : memEqual f.mem block data = false := by
    rw [Bool.eq_false_iff, Ne, memEqual_iff]
    exact hdata
  rw [flashWriteBlock, hmask, if_neg (not_not.mpr rfl)]
  dsimp only
  rw [alignDown_pageSize chip reg hb, if_pos hpage, pageDecision, hdiffer, Bool.false_and,
    if_neg Bool.false_ne_true]
  split_ifs
  · obtain ⟨ret, hret⟩ := eraseAndWrite_cases chip reg ⟨st.pageWriteCount + 1⟩ f false
      ((chip.pageMap reg).start block) block data
    rw [hret]
  · obtain ⟨ret, hret⟩ := eraseAndWrite_cases chip reg ⟨st.pageWriteCount + 1⟩ f true
      ((chip.pageMap reg).start block) block data
    rw [hret]

/-- **Two states with the same flash content** cannot be told apart exactly if they agree on the
number of pages. -/
theorem indist_iff {cfg : Config} (hcfg : cfg.IsBuildOf (.stm32 chip)) {st st' : FlashState}
    {f f' : Flash} (hmem : f.mem = f'.mem) :
    (board chip reg cfg).flashMachine.Indist (st, f) (st', f') ↔
      st.pageWriteCount = st'.pageWriteCount := by
  constructor
  · refine Mealy.Indist.count_eq (P := fun _ _ => True) Mealy.exists_add_nsmul_one_eq_zero
      (fun s : FlashState × Flash => s.1.pageWriteCount) ?_ ?_ trivial
    · rintro ⟨st, f⟩ ⟨st', f'⟩ - h hzero
      obtain rfl : st = ⟨0⟩ := congrArg FlashState.mk hzero
      exact ofInt_result_zero (h.output .complete)
    · rintro ⟨st, f⟩ ⟨st', f'⟩ - h
      obtain ⟨data, hlen, hdata⟩ := exists_read_ne f.mem cfg.launchAppAddress (n := 64) (by omega)
      have hmem : f.mem = f'.mem := h.view
      have hlt : cfg.launchAppAddress < 2 ^ 32 := by
        have := hcfg.launch_add_le
        have := hcfg.flashEnd_lt
        omega
      have h64 : cfg.launchAppAddress % 64 = 0 := by
        have := hcfg.launch_mod
        omega
      have hcounts : ∀ (st : FlashState) (g : Flash), f.mem = g.mem →
          ((board chip reg cfg).flashMachine.step (st, g)
            (.write _ data (launch_inRange hcfg) hlen)).1.pageWriteCount = st.pageWriteCount + 1 := by
        intro st g hg
        have := flashWriteBlock_counts st g hlt
          (hcfg.launch_aligned reg) h64 (by rw [hlen, ← hg]; exact hdata)
        rwa [← hcfg.block] at this
      exact ⟨_, _, trivial, h.step (.write _ data (launch_inRange hcfg) hlen), hcounts st f rfl,
        hcounts st' f' hmem⟩
  · intro hcount
    obtain rfl : st = st' := congrArg FlashState.mk hcount
    refine Mealy.indist_of_bisim (R := fun s t => s.1 = t.1 ∧ s.2.mem = t.2.mem)
      (fun _ _ h => h.2) ?_ ?_ ⟨rfl, hmem⟩
    · rintro ⟨st, f⟩ ⟨_, f'⟩ call ⟨rfl, h⟩
      cases call with
      | write a data hrange hdata =>
          have hret : (flashWriteBlock chip reg cfg.blockSize st f a data).1 =
              (flashWriteBlock chip reg cfg.blockSize st f' a data).1 :=
            (flashWriteBlock_congr cfg.blockSize st h a data).ret
          exact congrArg (fun ret : ℤ => if ret < 0 then none else some (0 : Word)) hret
      | complete => rfl
    · rintro ⟨st, f⟩ ⟨_, f'⟩ call ⟨rfl, h⟩
      cases call with
      | write a data hrange hdata =>
          have hsame : SameResult (flashWriteBlock chip reg cfg.blockSize st f a data)
              (flashWriteBlock chip reg cfg.blockSize st f' a data) :=
            flashWriteBlock_congr cfg.blockSize st h a data
          exact ⟨hsame.state, hsame.mem⟩
      | complete => exact ⟨rfl, h⟩

end Stm32

end Terraboot
