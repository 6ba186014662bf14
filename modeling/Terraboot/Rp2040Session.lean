import Terraboot.FlashSession
import Terraboot.Rp2040Upload

/-!
# Sessions with the RP2040 Driver

The driver of `rp2040/flash.c` remembers the page in its buffer, if there is one, and the number
of pages it has flushed. A completion flushes the page, so that its content and the count can be
seen; a block for the page shows where it goes.

## Main results

* `Rp2040.indist_iff`: two states with the same flash content cannot be told apart exactly if they
  agree on the count, and have either no page in the buffer or pages for the same place that
  program the same.
-/

open LittleEndian NorFlash

namespace Terraboot

namespace Rp2040

/-- What every reachable state of the driver satisfies: a page in the buffer is a page of the
application area. -/
structure InArea (cfg : Config) (st : FlashState) : Prop where
  length : st.buffer.length = 256
  aligned : st.bufferNotEmpty = true → st.bufferStartAddress % 256 = 0
  lo : st.bufferNotEmpty = true → cfg.launchAppAddress ≤ st.bufferStartAddress
  hi : st.bufferNotEmpty = true → st.bufferStartAddress + 256 ≤ cfg.flashEnd

/-- The states differ in nothing that can be seen, over the flash content `m`: the bytes of the page
in the buffer are the same as far as they program the same. -/
structure SamePage (m : Mem) (st st' : FlashState) : Prop where
  count : st.pageWriteCount = st'.pageWriteCount
  notEmpty : st.bufferNotEmpty = st'.bufferNotEmpty
  start : st.bufferNotEmpty = true → st.bufferStartAddress = st'.bufferStartAddress
  bytes : st.bufferNotEmpty = true → ∀ i < 256,
    beforeProgram m st.bufferStartAddress (st.bufferStartAddress + i) &&& st.buffer.getD i 0 =
      beforeProgram m st.bufferStartAddress (st.bufferStartAddress + i) &&& st'.buffer.getD i 0

variable {cfg : Config} {st st' : FlashState} {f f' : Flash}

theorem SamePage.of_empty {m : Mem} (h : st.bufferNotEmpty = false)
    (h' : st'.bufferNotEmpty = false) (hcount : st.pageWriteCount = st'.pageWriteCount) :
    SamePage m st st' where
  count := hcount
  notEmpty := h.trans h'.symm
  start hne := absurd (h.symm.trans hne) Bool.false_ne_true
  bytes hne := absurd (h.symm.trans hne) Bool.false_ne_true

/-! ### What a call does -/

theorem flushBuffer_empty (cfg : Config) (st : FlashState) (f : Flash) :
    (flushBuffer cfg st f).1.bufferNotEmpty = false := by
  cases h : st.bufferNotEmpty with
  | false => rw [flushBuffer_of_empty h, h]
  | true => rw [flushBuffer_fst cfg h]

/-- The number of pages once the buffer has been flushed. -/
def flushedCount (st : FlashState) : Word :=
  if st.bufferNotEmpty then st.pageWriteCount + 1 else st.pageWriteCount

theorem flushBuffer_count (cfg : Config) (st : FlashState) (f : Flash) :
    (flushBuffer cfg st f).1.pageWriteCount = flushedCount st := by
  cases h : st.bufferNotEmpty with
  | false => rw [flushBuffer_of_empty h, flushedCount, if_neg (by rw [h]; exact Bool.false_ne_true)]
  | true => rw [flushBuffer_fst cfg h, flushedCount, if_pos h]

theorem SamePage.flushedCount {m : Mem} (h : SamePage m st st') :
    flushedCount st = flushedCount st' := by
  rw [Rp2040.flushedCount, Rp2040.flushedCount, h.notEmpty, h.count]

/-- A flush of pages that program the same. -/
theorem SamePage.flush (hbase : cfg.flashStart ≤ cfg.launchAppAddress) (h : InArea cfg st)
    (h' : InArea cfg st') (hmem : f.mem = f'.mem) (hsame : SamePage f.mem st st') :
    (flushBuffer cfg st f).2.mem = (flushBuffer cfg st' f').2.mem := by
  cases hne : st.bufferNotEmpty with
  | false =>
      rw [flushBuffer_of_empty hne, flushBuffer_of_empty (hsame.notEmpty ▸ hne)]
      exact hmem
  | true =>
      have hne' : st'.bufferNotEmpty = true := hsame.notEmpty ▸ hne
      rw [flushBuffer_mem hne (hbase.trans (h.lo hne)), flushBuffer_mem hne' (hbase.trans (h'.lo hne')),
        ← hsame.start hne, ← hmem, programMem_eq_iff h.length h'.length]
      exact hsame.bytes hne

/-- The block goes into the page in the buffer. -/
def Fits (st : FlashState) (a : ℕ) : Prop :=
  st.bufferNotEmpty = true ∧ st.bufferStartAddress ≤ a ∧ a + 64 ≤ st.bufferStartAddress + 256

theorem flashWriteBlock_of_fits (hblock : cfg.blockSize = 64) {a : ℕ} (h64 : a % 64 = 0)
    (hlo : cfg.flashStart ≤ a) (hhi : a + 64 ≤ cfg.flashEnd) (h : Fits st a) (f : Flash)
    (data : List Byte) :
    flashWriteBlock cfg st f a data =
      (0, { st with buffer := overwrite st.buffer (a - st.bufferStartAddress) data }, f) := by
  rw [flashWriteBlock_eq hblock h64 hlo hhi, ensureBuffer_of_fits hblock h.1 h.2.1 h.2.2]

/-- The block starts a new page; the one before is flushed. -/
theorem flashWriteBlock_of_not_fits (hblock : cfg.blockSize = 64) {a : ℕ} (h64 : a % 64 = 0)
    (hlo : cfg.flashStart ≤ a) (hhi : a + 64 ≤ cfg.flashEnd) (h : ¬Fits st a) (f : Flash)
    (data : List Byte) :
    flashWriteBlock cfg st f a data =
      (0, ⟨true, a / 256 * 256, overwrite (List.replicate 256 0xFF) (a - a / 256 * 256) data,
        flushedCount st⟩, (flushBuffer cfg st f).2) := by
  rw [flashWriteBlock_eq hblock h64 hlo hhi]
  cases hne : st.bufferNotEmpty with
  | false =>
      rw [ensureBuffer_of_empty cfg hne, prepareBuffer_eq hblock, flushBuffer_of_empty hne,
        flushedCount, if_neg (by rw [hne]; exact Bool.false_ne_true)]
  | true =>
      rw [ensureBuffer_of_not_fits hblock hne (fun hfits => h ⟨hne, hfits⟩),
        prepareBuffer_eq hblock, flushBuffer_count]

theorem InArea.flush (h : InArea cfg st) (f : Flash) : InArea cfg (flushBuffer cfg st f).1 := by
  have hempty := flushBuffer_empty cfg st f
  have hnot : ¬(flushBuffer cfg st f).1.bufferNotEmpty = true := by
    rw [hempty]
    exact Bool.false_ne_true
  refine ⟨?_, fun hne => absurd hne hnot, fun hne => absurd hne hnot, fun hne => absurd hne hnot⟩
  cases hne : st.bufferNotEmpty with
  | false =>
      rw [flushBuffer_of_empty hne]
      exact h.length
  | true =>
      rw [flushBuffer_fst cfg hne]
      exact h.length

section Write

variable {a : ℕ} {data : List Byte}

theorem InArea.write (hcfg : IsBuild cfg) (h : InArea cfg st) (hlo : cfg.launchAppAddress ≤ a)
    (hhi : a + 64 ≤ cfg.flashEnd) (h64 : a % 64 = 0) (hdata : data.length = 64) (f : Flash) :
    InArea cfg (flashWriteBlock cfg st f a data).2.1 := by
  have hstart := hcfg.flashStart
  have hlaunch := hcfg.launch
  have hend := hcfg.flashEnd
  by_cases hfits : Fits st a
  · rw [flashWriteBlock_of_fits hcfg.block h64 (by omega) hhi hfits]
    obtain ⟨-, hle, hroom⟩ := hfits
    refine ⟨?_, h.aligned, h.lo, h.hi⟩
    dsimp only
    rw [overwrite_length (by rw [h.length]; omega), h.length]
  · rw [flashWriteBlock_of_not_fits hcfg.block h64 (by omega) hhi hfits]
    refine ⟨?_, fun _ => ?_, fun _ => ?_, fun _ => ?_⟩
    · dsimp only
      rw [overwrite_length (by rw [List.length_replicate]; omega), List.length_replicate]
    · dsimp only
      omega
    · dsimp only
      omega
    · dsimp only
      omega

/-- A write to pages that program the same. -/
theorem SamePage.write (hcfg : IsBuild cfg) (h : InArea cfg st) (h' : InArea cfg st')
    (hmem : f.mem = f'.mem) (hsame : SamePage f.mem st st') (hlo : cfg.launchAppAddress ≤ a)
    (hhi : a + 64 ≤ cfg.flashEnd) (h64 : a % 64 = 0) (hdata : data.length = 64) :
    (flashWriteBlock cfg st f a data).1 = (flashWriteBlock cfg st' f' a data).1 ∧
      (flashWriteBlock cfg st f a data).2.2.mem = (flashWriteBlock cfg st' f' a data).2.2.mem ∧
      SamePage (flashWriteBlock cfg st f a data).2.2.mem (flashWriteBlock cfg st f a data).2.1
        (flashWriteBlock cfg st' f' a data).2.1 := by
  have hblock := hcfg.block
  have hstart := hcfg.flashStart
  have hlaunch := hcfg.launch
  by_cases hfits : Fits st a
  · have hfits' : Fits st' a := by
      obtain ⟨hne, hle, hroom⟩ := hfits
      exact ⟨hsame.notEmpty ▸ hne, hsame.start hne ▸ hle, hsame.start hne ▸ hroom⟩
    rw [flashWriteBlock_of_fits hblock h64 (by omega) hhi hfits,
      flashWriteBlock_of_fits hblock h64 (by omega) hhi hfits', ← hsame.start hfits.1]
    refine ⟨rfl, hmem, hsame.count, hsame.notEmpty, fun _ => rfl, fun hne i hi => ?_⟩
    obtain ⟨-, hle, hroom⟩ := hfits
    dsimp only
    rw [overwrite_getD (by rw [h.length]; omega), overwrite_getD (by rw [h'.length]; omega)]
    split_ifs
    · rfl
    · exact hsame.bytes hne i hi
  · have hfits' : ¬Fits st' a := by
      rintro ⟨hne', hle, hroom⟩
      have hne : st.bufferNotEmpty = true := hsame.notEmpty.trans hne'
      exact hfits ⟨hne, (hsame.start hne).symm ▸ hle, (hsame.start hne).symm ▸ hroom⟩
    rw [flashWriteBlock_of_not_fits hblock h64 (by omega) hhi hfits,
      flashWriteBlock_of_not_fits hblock h64 (by omega) hhi hfits', hsame.flushedCount]
    exact ⟨rfl, hsame.flush (by omega) h h' hmem, rfl, rfl, fun _ => rfl, fun _ _ _ => rfl⟩

end Write

/-! ### Telling states apart -/

section Indist

theorem flashWriteBlock_of_unaligned (hcfg : IsBuild cfg) {a : ℕ} (h64 : a % 64 ≠ 0)
    (st : FlashState) (f : Flash) (data : List Byte) :
    flashWriteBlock cfg st f a data = (-1, st, f) := by
  rw [flashWriteBlock, checkValidFlashAddress, hcfg.block, if_pos h64]
  rfl

theorem inArea_step (hcfg : IsBuild cfg) (s : FlashState × Flash) (call : FlashCall cfg)
    (h : InArea cfg s.1) : InArea cfg ((board cfg).flashMachine.step s call).1 := by
  cases call with
  | complete => exact h.flush s.2
  | write a data hrange hdata =>
      obtain ⟨hlo, hhi⟩ := (hcfg.inRange_iff _).mp hrange
      by_cases h64 : a % 64 = 0
      · exact h.write hcfg hlo hhi h64 hdata s.2
      · have hrefused := flashWriteBlock_of_unaligned hcfg h64 s.1 s.2 data
        exact (congrArg (fun r : ℤ × FlashState × Flash => InArea cfg r.2.1) hrefused).mpr h

/-- **Pages that program the same cannot be told apart.** -/
theorem SamePage.indist (hcfg : IsBuild cfg) (h : InArea cfg st) (h' : InArea cfg st')
    (hmem : f.mem = f'.mem) (hsame : SamePage f.mem st st') :
    (board cfg).flashMachine.Indist (st, f) (st', f') := by
  have hbase : cfg.flashStart ≤ cfg.launchAppAddress := by
    have := hcfg.flashStart
    have := hcfg.launch
    omega
  refine Mealy.indist_of_bisim (R := fun s t => (InArea cfg s.1 ∧ InArea cfg t.1) ∧
    s.2.mem = t.2.mem ∧ SamePage s.2.mem s.1 t.1) (fun _ _ hR => hR.2.1) ?_ ?_ ⟨⟨h, h'⟩, hmem, hsame⟩
  · rintro ⟨st, f⟩ ⟨st', f'⟩ call ⟨⟨h, h'⟩, hmem, hsame⟩
    cases call with
    | complete =>
        have hcount : (flushBuffer cfg st f).1.pageWriteCount =
            (flushBuffer cfg st' f').1.pageWriteCount := by
          rw [flushBuffer_count, flushBuffer_count, hsame.flushedCount]
        exact congrArg (fun c : Word => if c.toInt < 0 then none else some (BitVec.ofInt 32 c.toInt))
          hcount
    | write a data hrange hdata =>
        obtain ⟨hlo, hhi⟩ := (hcfg.inRange_iff _).mp hrange
        have hret : (flashWriteBlock cfg st f a data).1 = (flashWriteBlock cfg st' f' a data).1 := by
          by_cases h64 : a % 64 = 0
          · exact (SamePage.write hcfg h h' hmem hsame hlo hhi h64 hdata).1
          · rw [flashWriteBlock_of_unaligned hcfg h64, flashWriteBlock_of_unaligned hcfg h64]
        exact congrArg (fun ret : ℤ => if ret < 0 then none else some (0 : Word)) hret
  · rintro ⟨st, f⟩ ⟨st', f'⟩ call ⟨⟨h, h'⟩, hmem, hsame⟩
    refine ⟨⟨inArea_step hcfg _ call h, inArea_step hcfg _ call h'⟩, ?_⟩
    cases call with
    | complete =>
        refine ⟨hsame.flush hbase h h' hmem, .of_empty (flushBuffer_empty cfg st f)
          (flushBuffer_empty cfg st' f') ?_⟩
        exact (flushBuffer_count cfg st f).trans
          (hsame.flushedCount.trans (flushBuffer_count cfg st' f').symm)
    | write a data hrange hdata =>
        obtain ⟨hlo, hhi⟩ := (hcfg.inRange_iff _).mp hrange
        by_cases h64 : a % 64 = 0
        · exact (SamePage.write hcfg h h' hmem hsame hlo hhi h64 hdata).2
        · have hrefused : ∀ st f, (board cfg).flashMachine.step (st, f) (.write a data hrange hdata) =
              (st, f) := fun st f =>
            congrArg Prod.snd (flashWriteBlock_of_unaligned hcfg h64 st f data)
          rw [hrefused, hrefused]
          exact ⟨hmem, hsame⟩

theorem flushedCount_of_empty (h : st.bufferNotEmpty = false) :
    flushedCount st = st.pageWriteCount := if_neg (by rw [h]; exact Bool.false_ne_true)

theorem not_fits_of_empty {a : ℕ} (h : st.bufferNotEmpty = false) : ¬Fits st a := fun hfits =>
  Bool.false_ne_true (h.symm.trans hfits.1)

/-- A block at the start of the application area. -/
def launchBlock (hcfg : IsBuild cfg) : FlashCall cfg :=
  .write cfg.launchAppAddress (List.replicate 64 0)
    (hcfg.inRange le_rfl (by rw [hcfg.launch, hcfg.flashEnd]; omega)).2 List.length_replicate

/-- A block and its completion count one page. -/
theorem count_after_launchBlock (hcfg : IsBuild cfg) (h : st.bufferNotEmpty = false) (f : Flash) :
    ((board cfg).flashMachine.after (st, f) [launchBlock hcfg, .complete]).1.pageWriteCount =
      st.pageWriteCount + 1 := by
  have hstart := hcfg.flashStart
  have hlaunch := hcfg.launch
  have hend := hcfg.flashEnd
  have hwrite := flashWriteBlock_of_not_fits hcfg.block (a := cfg.launchAppAddress) (by omega)
    (by omega) (by omega) (not_fits_of_empty h) f (List.replicate 64 0)
  have hcount : flushedCount (flashWriteBlock cfg st f cfg.launchAppAddress
      (List.replicate 64 0)).2.1 = st.pageWriteCount + 1 := by
    rw [hwrite, flushedCount, flushedCount_of_empty h]
    rfl
  exact (flushBuffer_count cfg _ _).trans hcount

/-- The count after a completion can be seen. -/
theorem flushedCount_eq (hcfg : IsBuild cfg)
    (h : (board cfg).flashMachine.Indist (st, f) (st', f')) : flushedCount st = flushedCount st' := by
  have hcount : (flushBuffer cfg st f).1.pageWriteCount =
      (flushBuffer cfg st' f').1.pageWriteCount := by
    refine Mealy.Indist.count_eq (P := fun s t => s.1.bufferNotEmpty = false ∧
      t.1.bufferNotEmpty = false) Mealy.exists_add_nsmul_one_eq_zero
      (fun s : FlashState × Flash => s.1.pageWriteCount) ?_ ?_
      ⟨flushBuffer_empty cfg st f, flushBuffer_empty cfg st' f'⟩ (h.step .complete)
    · rintro ⟨st, f⟩ ⟨st', f'⟩ ⟨hempty, hempty'⟩ h hzero
      have hout := h.output .complete
      have hfirst : (flushBuffer cfg st f).1.pageWriteCount = 0 := by
        rw [flushBuffer_of_empty hempty]
        exact hzero
      have hsecond : (flushBuffer cfg st' f').1.pageWriteCount = st'.pageWriteCount := by
        rw [flushBuffer_of_empty hempty']
      simp only [Board.flashMachine, board, backend, flashComplete, hfirst, hsecond] at hout
      exact ofInt_result_zero hout
    · rintro ⟨st, f⟩ ⟨st', f'⟩ ⟨hempty, hempty'⟩ h
      refine ⟨_, _, ⟨?_, ?_⟩, h.after [launchBlock hcfg, .complete],
        count_after_launchBlock hcfg hempty f, count_after_launchBlock hcfg hempty' f'⟩
      · exact flushBuffer_empty cfg _ _
      · exact flushBuffer_empty cfg _ _
  rwa [flushBuffer_count, flushBuffer_count] at hcount

/-- **A page in the buffer can be seen**, and where it goes: a block for it does not flush it. -/
theorem page_of_indist (hcfg : IsBuild cfg) (h : InArea cfg st) (h' : InArea cfg st')
    (hindist : (board cfg).flashMachine.Indist (st, f) (st', f')) (hne : st.bufferNotEmpty = true) :
    st'.bufferNotEmpty = true ∧ st.bufferStartAddress = st'.bufferStartAddress := by
  have hlo := h.lo hne
  have hhi := h.hi hne
  have haligned := h.aligned hne
  have hstart := hcfg.flashStart
  have hlaunch := hcfg.launch
  have hzeros : (List.replicate 64 (0 : Byte)).length = 64 := List.length_replicate
  have hrange := (hcfg.inRange hlo (by omega)).2
  have hflushed := flushedCount_eq hcfg hindist
  have hafter : flushedCount (flashWriteBlock cfg st f st.bufferStartAddress
      (List.replicate 64 0)).2.1 = flushedCount (flashWriteBlock cfg st' f' st.bufferStartAddress
      (List.replicate 64 0)).2.1 :=
    flushedCount_eq hcfg (hindist.step (.write st.bufferStartAddress _ hrange hzeros))
  rw [flashWriteBlock_of_fits hcfg.block (by omega) (by omega) (by omega)
    ⟨hne, le_rfl, by omega⟩] at hafter
  by_cases hfits : Fits st' st.bufferStartAddress
  · obtain ⟨hne', hle, hroom⟩ := hfits
    have haligned' := h'.aligned hne'
    exact ⟨hne', by omega⟩
  · -- the other state would count one more page
    rw [flashWriteBlock_of_not_fits hcfg.block (by omega) (by omega) (by omega) hfits] at hafter
    have hcontra : flushedCount st = flushedCount st + 1 := by
      conv_rhs => rw [hflushed]
      exact hafter
    exact absurd hcontra (by simp)

/-- **States that cannot be told apart** have pages that program the same. -/
theorem samePage_of_indist (hcfg : IsBuild cfg) (h : InArea cfg st) (h' : InArea cfg st')
    (hmem : f.mem = f'.mem) (hindist : (board cfg).flashMachine.Indist (st, f) (st', f')) :
    SamePage f.mem st st' := by
  have hbase : cfg.flashStart ≤ cfg.launchAppAddress := by
    have := hcfg.flashStart
    have := hcfg.launch
    omega
  have hnotEmpty : st.bufferNotEmpty = st'.bufferNotEmpty := by
    cases hne : st.bufferNotEmpty with
    | true => exact (page_of_indist hcfg h h' hindist hne).1.symm
    | false =>
        cases hne' : st'.bufferNotEmpty with
        | false => rfl
        | true => exact hne.symm.trans (page_of_indist hcfg h' h hindist.symm hne').1
  have hcount := flushedCount_eq hcfg hindist
  refine ⟨?_, hnotEmpty, fun hne => (page_of_indist hcfg h h' hindist hne).2, fun hne => ?_⟩
  · rw [flushedCount, flushedCount, ← hnotEmpty] at hcount
    split_ifs at hcount
    · exact add_right_cancel hcount
    · exact hcount
  · have hne' : st'.bufferNotEmpty = true := hnotEmpty ▸ hne
    have hview : (flushBuffer cfg st f).2.mem = (flushBuffer cfg st' f').2.mem :=
      (hindist.step .complete).view
    rw [flushBuffer_mem hne (hbase.trans (h.lo hne)), flushBuffer_mem hne' (hbase.trans (h'.lo hne')),
      ← (page_of_indist hcfg h h' hindist hne).2, ← hmem,
      programMem_eq_iff h.length h'.length] at hview
    exact hview

/-- **Two states with the same flash content** cannot be told apart exactly if their pages program
the same. -/
theorem indist_iff (hcfg : IsBuild cfg) (h : InArea cfg st) (h' : InArea cfg st')
    (hmem : f.mem = f'.mem) :
    (board cfg).flashMachine.Indist (st, f) (st', f') ↔ SamePage f.mem st st' :=
  ⟨samePage_of_indist hcfg h h' hmem, SamePage.indist hcfg h h' hmem⟩

end Indist

end Rp2040

end Terraboot
