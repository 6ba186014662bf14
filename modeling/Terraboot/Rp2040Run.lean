import Terraboot.BlockRun

/-!
# Images in Order to the RP2040 Driver

A block is acknowledged while it is still in the page buffer; the page goes to flash when
a block of another page arrives, or on completion. When the blocks of an image arrive in
order, the flash holds the image up to the page in the buffer, the buffer holds it from
there on, and the rest of the sector is blank unless the page is the first of it, whose
flush erases the sector (`Buffered`).

## Main results

* `Rp2040.flashWriteBlock_first`: whatever an earlier session left in the buffer, the first
  block of an image starts a page.
* `Rp2040.flashWriteBlock_next`, `Rp2040.flashWriteBlock_again`: blocks in order, each any
  number of times.
* `Rp2040.flashComplete_buffered`: completion puts the whole image into flash.
-/

open LittleEndian NorFlash

namespace Terraboot

namespace Rp2040

/-- The driver has been given the blocks of `w` from `lo` to `a`; those from `p` on are in the
buffer, the others in flash. -/
structure Buffered (w : Mem) (lo p a : ℕ) (st : FlashState) (f : Flash) : Prop where
  page : p % 256 = 0
  first : lo ≤ p
  some : p < a
  room : a ≤ p + 256
  notEmpty : st.bufferNotEmpty = true
  start : st.bufferStartAddress = p
  length : st.buffer.length = 256
  bytes : ∀ i < 256, p + i < a → st.buffer.getD i 0 = w (p + i)
  stored : ∀ x, lo ≤ x → x < p → f.mem x = w x
  blank : p % 4096 ≠ 0 → Blank f.mem p (4096 - p % 4096)

variable {cfg : Config} {w : Mem} {lo p a : ℕ} {st : FlashState} {f : Flash}

/-! ### Flushing -/

theorem flushBuffer_of_empty (h : st.bufferNotEmpty = false) (f : Flash) :
    flushBuffer cfg st f = (st, f) := by
  rw [flushBuffer, h]
  rfl

variable (cfg) in
/-- A flush counts one page and empties the buffer. -/
theorem flushBuffer_fst (h : st.bufferNotEmpty = true) (f : Flash) :
    (flushBuffer cfg st f).1 =
      { st with pageWriteCount := st.pageWriteCount + 1, bufferNotEmpty := false } := by
  rw [flushBuffer, h]
  rfl

/-- The flash before the page in the buffer is programmed: its sector is erased if it is the
first. -/
def beforeProgram (m : Mem) (p : ℕ) : Mem := if p % 4096 = 0 then eraseMem m p 4096 else m

theorem flushBuffer_mem (h : st.bufferNotEmpty = true)
    (hstart : cfg.flashStart ≤ st.bufferStartAddress) (f : Flash) :
    (flushBuffer cfg st f).2.mem =
      programMem (beforeProgram f.mem st.bufferStartAddress) st.bufferStartAddress st.buffer := by
  have haddr : cfg.flashStart + (st.bufferStartAddress - cfg.flashStart) =
      st.bufferStartAddress := by omega
  have hsector : sectorSize = 4096 := rfl
  simp only [flushBuffer, h, Bool.not_true, Bool.false_eq_true, if_false, flashRangeProgram,
    flashRangeErase, haddr, hsector, Flash.program_mem, beforeProgram]
  split_ifs <;> rfl

/-- The page is blank when it is programmed, and so is the rest of its sector. -/
theorem Buffered.blank_beforeProgram (h : Buffered w lo p a st f) :
    Blank (beforeProgram f.mem p) p (4096 - p % 4096) := by
  rw [beforeProgram]
  split_ifs with hfirst
  · rw [hfirst]
    exact blank_eraseMem _ _ _
  · exact h.blank hfirst

theorem Buffered.beforeProgram_of_lt (h : Buffered w lo p a st f) {x : ℕ} (h₁ : lo ≤ x)
    (h₂ : x < p) : beforeProgram f.mem p x = w x := by
  rw [beforeProgram]
  split_ifs
  · rw [eraseMem, if_neg fun hx => absurd hx.1 (by omega)]
    exact h.stored x h₁ h₂
  · exact h.stored x h₁ h₂

variable (cfg) in
/-- **A flush** puts the page in the buffer into flash, next to the pages before it. -/
theorem Buffered.flush (h : Buffered w lo p a st f) (hstart : cfg.flashStart ≤ p) :
    (∀ x, lo ≤ x → x < a → (flushBuffer cfg st f).2.mem x = w x) ∧
      ((p + 256) % 4096 ≠ 0 →
        Blank (flushBuffer cfg st f).2.mem (p + 256) (4096 - (p + 256) % 4096)) := by
  have hpage := h.page
  have hroom := h.room
  have hlen := h.length
  have hblank := h.blank_beforeProgram
  have hmem : (flushBuffer cfg st f).2.mem = write (beforeProgram f.mem p) p st.buffer := by
    rw [flushBuffer_mem h.notEmpty (by rw [h.start]; exact hstart), h.start]
    exact programMem_of_blank (hblank.mono le_rfl (by omega))
  rw [hmem]
  constructor
  · intro x h₁ h₂
    by_cases hx : x < p
    · rw [write_of_not_mem _ fun hin => absurd hin.1 (by omega)]
      exact h.beforeProgram_of_lt h₁ hx
    · rw [write_of_mem _ ⟨by omega, by omega⟩, h.bytes (x - p) (by omega) (by omega),
        Nat.add_sub_cancel' (not_lt.mp hx)]
  · intro hmid x hx
    obtain ⟨h₁, h₂⟩ := hx
    rw [write_of_not_mem _ fun hin => absurd hin.2 (by omega)]
    exact hblank x ⟨by omega, by omega⟩

/-! ### Blocks -/

theorem checkValidFlashAddress_eq_zero (hblock : cfg.blockSize = 64) (h64 : a % 64 = 0)
    (hlo : cfg.flashStart ≤ a) (hhi : a + 64 ≤ cfg.flashEnd) :
    checkValidFlashAddress cfg a = 0 := by
  have hend : cfg.flashEnd = cfg.flashStart + cfg.flashSize := rfl
  rw [checkValidFlashAddress, hblock, if_neg (not_not.mpr h64), if_neg (by omega),
    if_neg (by omega)]

/-- A block in range goes into the buffer that `ensure_buffer` leaves. -/
theorem flashWriteBlock_eq (hblock : cfg.blockSize = 64) (h64 : a % 64 = 0)
    (hlo : cfg.flashStart ≤ a) (hhi : a + 64 ≤ cfg.flashEnd) (st : FlashState) (f : Flash)
    (data : List Byte) :
    flashWriteBlock cfg st f a data =
      (0, { (ensureBuffer cfg st f a).1 with
        buffer := overwrite (ensureBuffer cfg st f a).1.buffer
          (a - (ensureBuffer cfg st f a).1.bufferStartAddress) data },
        (ensureBuffer cfg st f a).2) := by
  rw [flashWriteBlock, checkValidFlashAddress_eq_zero hblock h64 hlo hhi]
  rfl

theorem prepareBuffer_eq (hblock : cfg.blockSize = 64) (st : FlashState) (a : ℕ) :
    prepareBuffer cfg st a =
      ⟨true, a / 256 * 256, List.replicate 256 0xFF, st.pageWriteCount⟩ := by
  rw [prepareBuffer, hblock]
  rfl

theorem ensureBuffer_of_fits (hblock : cfg.blockSize = 64) (h : st.bufferNotEmpty = true)
    (h₁ : st.bufferStartAddress ≤ a) (h₂ : a + 64 ≤ st.bufferStartAddress + 256) (f : Flash) :
    ensureBuffer cfg st f a = (st, f) := by
  have hpage : pageSize cfg.blockSize = 256 := by rw [hblock]; rfl
  rw [ensureBuffer, if_pos h, hpage, hblock, if_pos ⟨h₁, h₂⟩]

theorem ensureBuffer_of_not_fits (hblock : cfg.blockSize = 64) (h : st.bufferNotEmpty = true)
    (hnot : ¬(st.bufferStartAddress ≤ a ∧ a + 64 ≤ st.bufferStartAddress + 256)) (f : Flash) :
    ensureBuffer cfg st f a =
      (prepareBuffer cfg (flushBuffer cfg st f).1 a, (flushBuffer cfg st f).2) := by
  have hpage : pageSize cfg.blockSize = 256 := by rw [hblock]; rfl
  rw [ensureBuffer, if_pos h, hpage, hblock, if_neg hnot]

variable (cfg) in
theorem ensureBuffer_of_empty (h : st.bufferNotEmpty = false) (f : Flash) (a : ℕ) :
    ensureBuffer cfg st f a = (prepareBuffer cfg st a, f) := by
  rw [ensureBuffer, h]
  rfl

/-- Storing the next block, or the last one again, into the buffer. -/
theorem Buffered.overwrite {b : ℕ} (h : Buffered w lo p a st f) (h64 : b % 64 = 0) (hb : p ≤ b)
    (hba : b ≤ a) (hab : a ≤ b + 64) (hroom : b + 64 ≤ p + 256) :
    Buffered w lo p (b + 64)
      { st with buffer := LittleEndian.overwrite st.buffer (b - p) (read w b 64) } f := by
  have hdata : (read w b 64).length = 64 := read_length _ _ _
  have hlen := h.length
  have hfits : b - p + (read w b 64).length ≤ st.buffer.length := by omega
  refine { h with
    some := by omega
    room := hroom
    length := (overwrite_length hfits).trans hlen
    bytes := fun i hi hia => ?_ }
  dsimp only
  rw [overwrite_getD hfits, hdata]
  split_ifs with hin
  · rw [read_getD _ _ (by omega)]
    congr 1
    omega
  · exact h.bytes i hi (by omega)

/-- A block stored into a fresh buffer. -/
theorem Buffered.fresh (hpage : p % 256 = 0) (hfirst : lo ≤ p)
    (hstored : ∀ x, lo ≤ x → x < p → f.mem x = w x)
    (hblank : p % 4096 ≠ 0 → Blank f.mem p (4096 - p % 4096)) {buf : List Byte}
    (hbuf : buf.length = 256) (n : Word) :
    Buffered w lo p (p + 64) ⟨true, p, LittleEndian.overwrite buf 0 (read w p 64), n⟩ f := by
  have hdata : (read w p 64).length = 64 := read_length _ _ _
  have hfits : 0 + (read w p 64).length ≤ buf.length := by omega
  refine ⟨hpage, hfirst, by omega, by omega, rfl, rfl, (overwrite_length hfits).trans hbuf,
    fun i hi hia => ?_, hstored, hblank⟩
  dsimp only
  rw [overwrite_getD hfits, hdata, if_pos ⟨by omega, by omega⟩, read_getD _ _ (by omega)]
  rfl

/-- **The last block once more** changes nothing that matters. -/
theorem flashWriteBlock_again (hblock : cfg.blockSize = 64) (h64 : a % 64 = 0)
    (hlo : cfg.flashStart ≤ a) (hhi : a + 64 ≤ cfg.flashEnd)
    (h : Buffered w lo p (a + 64) st f) :
    ∃ st', flashWriteBlock cfg st f a (read w a 64) = (0, st', f) ∧
      Buffered w lo p (a + 64) st' f ∧ st'.pageWriteCount = st.pageWriteCount := by
  have hroom := h.room
  have hsome := h.some
  have hpage := h.page
  have hensure : ensureBuffer cfg st f a = (st, f) :=
    ensureBuffer_of_fits hblock h.notEmpty (by rw [h.start]; omega) (by rw [h.start]; omega) f
  have hidx : a - st.bufferStartAddress = a - p := by rw [h.start]
  rw [flashWriteBlock_eq hblock h64 hlo hhi, hensure]
  dsimp only
  rw [hidx]
  exact ⟨_, rfl, h.overwrite h64 (by omega) (by omega) le_rfl hroom, rfl⟩

/-- **The next block** is stored in the buffer, after a flush if it starts a page. -/
theorem flashWriteBlock_next (hblock : cfg.blockSize = 64) (h64 : a % 64 = 0)
    (hlo : cfg.flashStart ≤ lo) (hhi : a + 64 ≤ cfg.flashEnd) (h : Buffered w lo p a st f) :
    ∃ st' f', flashWriteBlock cfg st f a (read w a 64) = (0, st', f') ∧
      Buffered w lo (if a % 256 = 0 then a else p) (a + 64) st' f' ∧
      st'.pageWriteCount = st.pageWriteCount + BitVec.ofNat 32 (if a % 256 = 0 then 1 else 0) := by
  have hpage := h.page
  have hfirst := h.first
  have hsome := h.some
  have hroom := h.room
  rw [flashWriteBlock_eq hblock h64 (by omega) hhi]
  by_cases hnew : a % 256 = 0
  · obtain rfl : a = p + 256 := by omega
    obtain ⟨hstored, hblank⟩ := h.flush cfg (by omega)
    have hensure := ensureBuffer_of_not_fits hblock h.notEmpty (a := p + 256)
      (by rw [h.start]; omega) f
    rw [prepareBuffer_eq hblock, flushBuffer_fst cfg h.notEmpty] at hensure
    have hstart : (p + 256) / 256 * 256 = p + 256 := by omega
    rw [hensure, if_pos hnew, if_pos hnew]
    dsimp only
    rw [hstart, Nat.sub_self]
    exact ⟨_, _, rfl, .fresh hnew (by omega) hstored hblank List.length_replicate _, rfl⟩
  · have hensure : ensureBuffer cfg st f a = (st, f) :=
      ensureBuffer_of_fits hblock h.notEmpty (by rw [h.start]; omega) (by rw [h.start]; omega) f
    have hidx : a - st.bufferStartAddress = a - p := by rw [h.start]
    rw [hensure, if_neg hnew, if_neg hnew]
    dsimp only
    rw [hidx]
    exact ⟨_, _, rfl, h.overwrite h64 (by omega) le_rfl (by omega) (by omega),
      (BitVec.add_zero _).symm⟩

/-- The pages that are flushed before an image is begun: the one in the buffer, unless it is
the page the image starts with. -/
def staleWrites (st : FlashState) (lo : ℕ) : ℕ :=
  if st.bufferNotEmpty = true ∧ st.bufferStartAddress ≠ lo then 1 else 0

/-- **The first block of an image**, whatever the buffer holds. -/
theorem flashWriteBlock_first (hblock : cfg.blockSize = 64) (hlo : cfg.flashStart ≤ lo)
    (hsector : lo % 4096 = 0) (hhi : lo + 64 ≤ cfg.flashEnd) (hlen : st.buffer.length = 256)
    (hstale : st.bufferNotEmpty = true → lo ≤ st.bufferStartAddress) (f : Flash) :
    ∃ st' f', flashWriteBlock cfg st f lo (read w lo 64) = (0, st', f') ∧
      Buffered w lo lo (lo + 64) st' f' ∧
      st'.pageWriteCount = st.pageWriteCount + BitVec.ofNat 32 (staleWrites st lo) := by
  have hpage : lo / 256 * 256 = lo := by omega
  rw [flashWriteBlock_eq hblock (by omega) hlo hhi, staleWrites]
  by_cases hne : st.bufferNotEmpty = true
  · by_cases heq : st.bufferStartAddress = lo
    · -- the buffer is for this page already
      have hensure : ensureBuffer cfg st f lo = (st, f) :=
        ensureBuffer_of_fits hblock hne heq.le (by omega) f
      have hst : st = ⟨true, lo, st.buffer, st.pageWriteCount⟩ := by
        rw [← hne, ← heq]
      rw [hensure, if_neg fun h => h.2 heq]
      dsimp only
      rw [heq, Nat.sub_self]
      refine ⟨_, _, rfl, ?_, (BitVec.add_zero _).symm⟩
      rw [hne]
      exact .fresh (by omega) le_rfl (fun x _ _ => by omega) (fun h => absurd hsector h) hlen _
    · have hensure := ensureBuffer_of_not_fits hblock hne (a := lo)
        (fun h => heq (le_antisymm h.1 (hstale hne))) f
      rw [prepareBuffer_eq hblock, flushBuffer_fst cfg hne] at hensure
      rw [hensure, if_pos ⟨hne, heq⟩]
      dsimp only
      rw [hpage, Nat.sub_self]
      exact ⟨_, _, rfl, .fresh (by omega) le_rfl (fun x _ _ => by omega)
        (fun h => absurd hsector h) List.length_replicate _, rfl⟩
  · have hempty : st.bufferNotEmpty = false := Bool.eq_false_iff.mpr hne
    have hensure := ensureBuffer_of_empty cfg hempty f lo
    rw [prepareBuffer_eq hblock] at hensure
    rw [hensure, if_neg fun h => hne h.1]
    dsimp only
    rw [hpage, Nat.sub_self]
    exact ⟨_, _, rfl, .fresh (by omega) le_rfl (fun x _ _ => by omega)
      (fun h => absurd hsector h) List.length_replicate _, (BitVec.add_zero _).symm⟩

/-! ### Completion -/

variable (cfg) in
/-- **Completion** puts the rest of the image into flash and counts its page. -/
theorem flashComplete_buffered (hlo : cfg.flashStart ≤ lo) (h : Buffered w lo p a st f) :
    ∃ st' f', flashComplete cfg st f = (st'.pageWriteCount.toInt, st', f') ∧
      st'.bufferNotEmpty = false ∧ st'.pageWriteCount = st.pageWriteCount + 1 ∧
      ∀ x, lo ≤ x → x < a → f'.mem x = w x := by
  obtain ⟨hstored, -⟩ := h.flush cfg (hlo.trans h.first)
  have hst := flushBuffer_fst cfg h.notEmpty f
  refine ⟨_, _, rfl, ?_, ?_, hstored⟩ <;> rw [hst]

variable (cfg) in
/-- Completion with an empty buffer does nothing. -/
theorem flashComplete_of_empty (h : st.bufferNotEmpty = false) (f : Flash) :
    flashComplete cfg st f = (st.pageWriteCount.toInt, st, f) := by
  rw [flashComplete, flushBuffer_of_empty h]

end Rp2040

end Terraboot
