import Terraboot.Lpc176xUnits

/-!
# Images in Order to the LPC176x Driver

Four blocks are staged in `iap_buf` before a unit is written. When the blocks of an image
arrive in order, each once, the buffer holds the part of the image since the last unit
boundary (`Staged`), and every fourth block writes one unit of it.

## Main results

* `Lpc176x.writeBlocks_run`: a run of blocks ends at the first refused unit; otherwise the
  flash is as `unitsMem` says.
* `Lpc176x.flashComplete_staged`: completion writes the last unit, filled up with `0xFF`.
-/

open LittleEndian NorFlash Paging

namespace Terraboot

namespace Lpc176x

/-- The driver has been given the blocks of `w` up to `a`: what is not in flash yet is
staged. -/
structure Staged (w : Mem) (a : ℕ) (st : FlashState) : Prop where
  length : st.iapBuf.length = 256
  next : st.nextAddress = a ∨ (a % 256 = 0 ∧ st.nextAddress % 256 = 0)
  bytes : ∀ i < a % 256, st.iapBuf.getD i 0 = w (a - a % 256 + i)

theorem Staged.initial {a : ℕ} (ha : a % 256 = 0) (w : Mem) : Staged w a .init where
  length := List.length_replicate
  next := .inr ⟨ha, rfl⟩
  bytes i hi := absurd hi (by omega)

variable {rom : IapRom} {w : Mem} {a : ℕ} {st : FlashState}

/-- A block at `next_address` is buffered, and so is the first block of any unit while nothing is
staged. -/
theorem flashWriteBlock_taken (h64 : a % 64 = 0)
    (hnext : st.nextAddress = a ∨ (a % 256 = 0 ∧ st.nextAddress % 256 = 0)) (f : Flash)
    (data : List Byte) : flashWriteBlock rom 64 st f a data =
      bufferBlock rom 64 { st with nextAddress := a } f a data := by
  have haligned : a &&& (64 - 1) = 0 := by rw [and_63, h64]
  rw [flashWriteBlock, haligned, if_neg (not_not.mpr rfl), if_pos (by decide)]
  rcases hnext with heq | ⟨hunit, hnext⟩
  · rw [if_neg (not_not.mpr heq.symm), ← heq]
  · by_cases heq : a = st.nextAddress
    · rw [if_neg (not_not.mpr heq)]
      congr 1
      rw [heq]
    · have hunits : (a ||| st.nextAddress) &&& (iapBufMinSize - 1) = 0 := by
        have h₁ : a &&& (iapBufMinSize - 1) = 0 := (and_255 a).trans hunit
        have h₂ : st.nextAddress &&& (iapBufMinSize - 1) = 0 := (and_255 _).trans hnext
        rw [Nat.and_or_distrib_right, h₁, h₂, Nat.or_self]
      rw [if_pos heq, if_neg (not_not.mpr hunits)]

/-- The state in which the next block is buffered. -/
def bufferNext (w : Mem) (a : ℕ) (st : FlashState) : FlashState :=
  ⟨overwrite st.iapBuf (a % 256) (read w a 64), a, st.pageWriteCount⟩

/-- A block in order is buffered. -/
theorem flashWriteBlock_next (h : Staged w a st) (h64 : a % 64 = 0) (f : Flash) :
    flashWriteBlock rom 64 st f a (read w a 64) =
      if a % 256 = 192 then
        let r := writeBuffer rom (bufferNext w a st) f (a - a % 256) (bufferNext w a st).iapBuf
        if r.1 < 0 then r
        else (0, { r.2.1 with nextAddress := r.2.1.nextAddress + 64 }, r.2.2)
      else (0, { bufferNext w a st with nextAddress := a + 64 }, f) := by
  have hidx : a &&& (iapBufMinSize - 1) = a % 256 := and_255 a
  rw [flashWriteBlock_taken h64 h.next, bufferBlock, hidx]
  rfl

/-- What the buffer holds when the next block has been stored. -/
theorem bufferNext_bytes (h : Staged w a st) (h64 : a % 64 = 0) :
    (bufferNext w a st).iapBuf.length = 256 ∧
      ∀ i < a % 256 + 64, (bufferNext w a st).iapBuf.getD i 0 = w (a - a % 256 + i) := by
  have hlen := h.length
  have hdata : (read w a 64).length = 64 := read_length _ _ _
  have hfits : a % 256 + (read w a 64).length ≤ st.iapBuf.length := by omega
  refine ⟨(overwrite_length hfits).trans hlen, fun i hi => ?_⟩
  rw [bufferNext, overwrite_getD hfits, hdata]
  split_ifs with hin
  · rw [read_getD _ _ (by omega)]
    congr 1
    omega
  · exact h.bytes i (by omega)

variable (rom) in
/-- **A block that does not end its unit** is staged. -/
theorem flashWriteBlock_staged (h : Staged w a st) (h64 : a % 64 = 0) (hmid : a % 256 ≠ 192)
    (f : Flash) : ∃ st', flashWriteBlock rom 64 st f a (read w a 64) = (0, st', f) ∧
      Staged w (a + 64) st' ∧ st'.pageWriteCount = st.pageWriteCount := by
  obtain ⟨hlen, hbytes⟩ := bufferNext_bytes h h64
  refine ⟨_, (flashWriteBlock_next h h64 f).trans (if_neg hmid), ⟨hlen, .inl rfl, fun i hi => ?_⟩,
    rfl⟩
  have hbyte := hbytes i (by omega)
  have hbase : a + 64 - (a + 64) % 256 = a - a % 256 := by omega
  rw [hbase]
  exact hbyte

/-- **The last block of a unit** writes the unit. -/
theorem flashWriteBlock_last (hrom : rom.Succeeds) {m : Mem} {lo c : ℕ} (hlo : lo ≤ c)
    (hc : c % 256 = 0) (hbound : c < 2 ^ 32) (h : Staged w (c + 192) st) {f : Flash}
    (hf : f.mem = unitsMem m w lo c) :
    (UnitRefusedBy m w c ∧
      (flashWriteBlock rom 64 st f (c + 192) (read w (c + 192) 64)).1 < 0) ∨
    (¬UnitRefusedBy m w c ∧ ∃ st' f',
      flashWriteBlock rom 64 st f (c + 192) (read w (c + 192) 64) = (0, st', f') ∧
      Staged w (c + 256) st' ∧ f'.mem = unitsMem m w lo (c + 256) ∧
      (st'.pageWriteCount = st.pageWriteCount ∨
        st'.pageWriteCount = st.pageWriteCount + 1)) := by
  obtain ⟨hlen, hbytes⟩ := bufferNext_bytes h (by omega)
  have hidx : (c + 192) % 256 = 192 := by omega
  have hbase : c + 192 - 192 = c := by omega
  rw [hidx, hbase] at hbytes
  have hbuf : (bufferNext w (c + 192) st).iapBuf = read w c 256 := eq_read_of_getD_eq hlen hbytes
  rw [flashWriteBlock_next h (by omega) f, hidx, if_pos rfl, hbase, hbuf]
  dsimp only
  rcases writeBuffer_unit hrom hlo hc hbound (bufferNext w (c + 192) st) hf with
    ⟨hrefused, hwrite⟩ | ⟨haccepted, n, f', hwrite, hcount, hmem⟩
  · have hneg : (-2 : ℤ) < 0 := by decide
    rw [hwrite, if_pos hneg]
    exact .inl ⟨hrefused, hneg⟩
  · have hnonneg : ¬(0 : ℤ) < 0 := by decide
    rw [hwrite, if_neg hnonneg]
    have hunit : (c + 256) % 256 = 0 := by omega
    refine .inr ⟨haccepted, _, f', rfl, ⟨hlen, .inl rfl, fun i hi => ?_⟩, hmem, hcount⟩
    rw [hunit] at hi
    exact absurd hi (Nat.not_lt_zero i)

variable (rom) in
/-- The blocks of a unit before its last. -/
theorem writeBlocks_staged (h : Staged w a st) (ha : a % 256 = 0) {r : ℕ} (hr : r < 4) (f : Flash) :
    ∃ st', (backend rom 64).writeBlocks w a r st f = some (st', f) ∧
      Staged w (a + 64 * r) st' ∧ st'.pageWriteCount = st.pageWriteCount := by
  induction r with
  | zero => exact ⟨st, rfl, h, rfl⟩
  | succ r ih =>
      obtain ⟨st₁, hrun, hstaged, hcount⟩ := ih (by omega)
      obtain ⟨st₂, hwrite, hstaged', hcount'⟩ :=
        flashWriteBlock_staged rom hstaged (by omega) (by omega) f
      refine ⟨st₂, ?_, ?_, hcount'.trans hcount⟩
      · rw [Backend.writeBlocks_add, hrun, Option.bind_some]
        exact Backend.writeBlocks_succ_of_nonneg hwrite le_rfl
      · rw [Nat.mul_succ, ← Nat.add_assoc]
        exact hstaged'

/-- **The four blocks of a unit** write it, unless it is refused. -/
theorem writeBlocks_unit (hrom : rom.Succeeds) {m : Mem} {lo c : ℕ} (hlo : lo ≤ c)
    (hc : c % 256 = 0) (hbound : c < 2 ^ 32) (h : Staged w c st) {f : Flash}
    (hf : f.mem = unitsMem m w lo c) :
    (UnitRefusedBy m w c ∧ (backend rom 64).writeBlocks w c 4 st f = none) ∨
    (¬UnitRefusedBy m w c ∧ ∃ st' f', (backend rom 64).writeBlocks w c 4 st f = some (st', f') ∧
      Staged w (c + 256) st' ∧ f'.mem = unitsMem m w lo (c + 256) ∧
      (st'.pageWriteCount = st.pageWriteCount ∨
        st'.pageWriteCount = st.pageWriteCount + 1)) := by
  obtain ⟨st₁, hrun, hstaged, hcount⟩ := writeBlocks_staged rom h hc (r := 3) (by omega) f
  have hsplit : (backend rom 64).writeBlocks w c 4 st f =
      (backend rom 64).writeBlocks w (c + 192) 1 st₁ f := by
    rw [show 4 = 3 + 1 by rfl, Backend.writeBlocks_add, hrun, Option.bind_some]
  rw [hsplit]
  rcases flashWriteBlock_last hrom hlo hc hbound hstaged hf with
    ⟨hrefused, hneg⟩ | ⟨haccepted, st', f', hwrite, hstaged', hmem, hcount'⟩
  · exact .inl ⟨hrefused, Backend.writeBlocks_succ_of_neg hneg⟩
  · rw [hcount] at hcount'
    exact .inr ⟨haccepted, st', f', Backend.writeBlocks_succ_of_nonneg hwrite le_rfl, hstaged',
      hmem, hcount'⟩

/-- Whole units of an image. -/
theorem writeBlocks_units (hrom : rom.Succeeds) {m : Mem} {lo : ℕ} (hlo : sectorMap.Aligned lo)
    (k : ℕ) (hbound : lo + 256 * k ≤ 2 ^ 32) (h : Staged w lo st) {f : Flash} (hf : f.mem = m) :
    ((∃ j < k, UnitRefusedBy m w (lo + 256 * j)) ∧
      (backend rom 64).writeBlocks w lo (4 * k) st f = none) ∨
    ((∀ j < k, ¬UnitRefusedBy m w (lo + 256 * j)) ∧ ∃ st' f',
      (backend rom 64).writeBlocks w lo (4 * k) st f = some (st', f') ∧
      Staged w (lo + 256 * k) st' ∧ f'.mem = unitsMem m w lo (lo + 256 * k) ∧
      ∃ n ≤ k, st'.pageWriteCount = st.pageWriteCount + BitVec.ofNat 32 n) := by
  have hmod : lo % 256 = 0 := by
    rw [← hlo]
    exact sectorStart_mod lo
  induction k with
  | zero =>
      refine .inr ⟨fun j hj => absurd hj (Nat.not_lt_zero j), st, f, rfl, h, ?_, 0, le_rfl, ?_⟩
      · rw [hf, Nat.mul_zero, Nat.add_zero, unitsMem_self hlo]
      · exact (BitVec.add_zero _).symm
  | succ k ih =>
      have hblocks : 4 * (k + 1) = 4 * k + 4 := by omega
      have haddr : lo + 64 * (4 * k) = lo + 256 * k := by omega
      have hnext : lo + 256 * (k + 1) = lo + 256 * k + 256 := by omega
      rw [hblocks, Backend.writeBlocks_add, haddr, hnext]
      rcases ih (by omega) with
        ⟨⟨j, hj, hrefused⟩, hrun⟩ | ⟨haccepted, st₁, f₁, hrun, hstaged, hmem, n, hn, hcount⟩
      · rw [hrun]
        exact .inl ⟨⟨j, by omega, hrefused⟩, rfl⟩
      · rw [hrun, Option.bind_some]
        rcases writeBlocks_unit hrom (Nat.le_add_right lo (256 * k)) (by omega) (by omega) hstaged
          hmem with ⟨hrefused, hlast⟩ | ⟨hlast, st₂, f₂, hrun', hstaged', hmem', hcount'⟩
        · exact .inl ⟨⟨k, by omega, hrefused⟩, hlast⟩
        · refine .inr ⟨fun j hj => ?_, st₂, f₂, hrun', hstaged', hmem', ?_⟩
          · rcases Nat.lt_succ_iff_lt_or_eq.mp hj with hlt | rfl
            · exact haccepted j hlt
            · exact hlast
          · rcases hcount' with heq | heq
            · exact ⟨n, by omega, heq.trans hcount⟩
            · refine ⟨n + 1, by omega, ?_⟩
              rw [heq, hcount, BitVec.add_assoc, BitVec.ofNat_add]
              rfl

/-- **An image in order**: the run ends at the first full unit that is refused; otherwise
the full units are in flash and the rest is staged. -/
theorem writeBlocks_run (hrom : rom.Succeeds) {m : Mem} {lo : ℕ} (hlo : sectorMap.Aligned lo)
    (n : ℕ) (hbound : lo + 64 * n ≤ 2 ^ 32) (h : Staged w lo st) {f : Flash} (hf : f.mem = m) :
    ((∃ j < n / 4, UnitRefusedBy m w (lo + 256 * j)) ∧
      (backend rom 64).writeBlocks w lo n st f = none) ∨
    ((∀ j < n / 4, ¬UnitRefusedBy m w (lo + 256 * j)) ∧ ∃ st' f',
      (backend rom 64).writeBlocks w lo n st f = some (st', f') ∧
      Staged w (lo + 64 * n) st' ∧ f'.mem = unitsMem m w lo (lo + 256 * (n / 4)) ∧
      ∃ k ≤ n / 4, st'.pageWriteCount = st.pageWriteCount + BitVec.ofNat 32 k) := by
  have hmod : lo % 256 = 0 := by
    rw [← hlo]
    exact sectorStart_mod lo
  have hsplit : n = 4 * (n / 4) + n % 4 := by omega
  have haddr : lo + 64 * (4 * (n / 4)) = lo + 256 * (n / 4) := by omega
  have hrun : (backend rom 64).writeBlocks w lo n st f =
      ((backend rom 64).writeBlocks w lo (4 * (n / 4)) st f).bind fun r =>
        (backend rom 64).writeBlocks w (lo + 256 * (n / 4)) (n % 4) r.1 r.2 := by
    rw [← haddr, ← Backend.writeBlocks_add, ← hsplit]
  rw [hrun]
  rcases writeBlocks_units hrom hlo (n / 4) (by omega) h hf with
    ⟨hrefused, hnone⟩ | ⟨haccepted, st₁, f₁, hsome, hstaged, hmem, k, hk, hcount⟩
  · rw [hnone]
    exact .inl ⟨hrefused, rfl⟩
  · obtain ⟨st₂, hrest, hstaged', hcount'⟩ :=
      writeBlocks_staged rom hstaged (by omega) (r := n % 4) (by omega) f₁
    rw [hsome, Option.bind_some]
    refine .inr ⟨haccepted, st₂, f₁, hrest, ?_, hmem, k, hk, hcount'.trans hcount⟩
    rwa [show lo + 256 * (n / 4) + 64 * (n % 4) = lo + 64 * n by omega] at hstaged'

/-- **Completion** writes the staged rest of an image that ends in `0xFF`, unless its unit is
refused. -/
theorem flashComplete_staged (hrom : rom.Succeeds) {m : Mem} {lo c : ℕ} (hlo : lo ≤ c)
    (hc : c % 256 = 0) (hbound : c < 2 ^ 32) {r : ℕ} (hr : r < 4) (h : Staged w (c + 64 * r) st)
    (hpad : ∀ x, InRange (c + 64 * r) (256 - 64 * r) x → w x = 0xFF) {f : Flash}
    (hf : f.mem = unitsMem m w lo c) :
    (r = 0 ∧ flashComplete rom 64 st f = (st.pageWriteCount.toInt, st, f)) ∨
    (r ≠ 0 ∧ UnitRefusedBy m w c ∧ ∃ st', flashComplete rom 64 st f = (-2, st', f)) ∨
    (r ≠ 0 ∧ ¬UnitRefusedBy m w c ∧ ∃ st' f',
      flashComplete rom 64 st f = (st'.pageWriteCount.toInt, st', f') ∧
      f'.mem = unitsMem m w lo (c + 256) ∧
      (st'.pageWriteCount = st.pageWriteCount ∨
        st'.pageWriteCount = st.pageWriteCount + 1)) := by
  have hidx : st.nextAddress &&& (iapBufMinSize - 1) = st.nextAddress % 256 := and_255 _
  rw [flashComplete, hidx]
  by_cases hzero : r = 0
  · subst hzero
    have hnext : st.nextAddress % 256 = 0 := by
      rcases h.next with heq | ⟨-, hunit⟩
      · rw [heq]
        omega
      · exact hunit
    rw [if_neg fun hc => hc.2 hnext]
    exact .inl ⟨rfl, rfl⟩
  · have hnext : st.nextAddress = c + 64 * r := by
      rcases h.next with heq | ⟨hunit, -⟩
      · exact heq
      · omega
    have hmod : st.nextAddress % 256 = 64 * r := by omega
    have hbase : st.nextAddress - 64 * r = c := by omega
    have hsize : iapBufMinSize - 64 * r = 256 - 64 * r := rfl
    have hlen := h.length
    have hfill : (List.replicate (256 - 64 * r) (0xFF : Byte)).length = 256 - 64 * r :=
      List.length_replicate
    have hfits : 64 * r + (List.replicate (256 - 64 * r) (0xFF : Byte)).length ≤
        st.iapBuf.length := by omega
    have hbytes := h.bytes
    have hoff : (c + 64 * r) % 256 = 64 * r := by omega
    have hstart : c + 64 * r - 64 * r = c := by omega
    rw [hoff, hstart] at hbytes
    have hbuf : overwrite st.iapBuf (64 * r) (List.replicate (256 - 64 * r) 0xFF) =
        read w c 256 := by
      refine eq_read_of_getD_eq ((overwrite_length hfits).trans hlen) fun i hi => ?_
      rw [overwrite_getD hfits, hfill]
      split_ifs with hin
      · rw [hpad (c + i) ⟨by omega, by omega⟩, List.getD_eq_getElem?_getD,
          List.getElem?_replicate, if_pos (by omega)]
        rfl
      · exact hbytes i (by omega)
    have hcond : 64 < iapBufMinSize ∧ st.nextAddress % 256 ≠ 0 := ⟨by decide, by omega⟩
    rw [if_pos hcond]
    dsimp only
    rw [hmod, hbase, hsize, hbuf]
    rcases writeBuffer_unit hrom hlo hc hbound
      ⟨read w c 256, st.nextAddress, st.pageWriteCount⟩ hf with
      ⟨hrefused, hwrite⟩ | ⟨haccepted, n, f', hwrite, hcount, hmem⟩
    · have hneg : (-2 : ℤ) < 0 := by decide
      rw [hwrite, if_pos hneg]
      exact .inr (.inl ⟨hzero, hrefused, _, rfl⟩)
    · have hnonneg : ¬(0 : ℤ) < 0 := by decide
      rw [hwrite, if_neg hnonneg]
      exact .inr (.inr ⟨hzero, haccepted, _, f', rfl, hmem, hcount⟩)

end Lpc176x

end Terraboot
