import Terraboot.Dispatch

/-!
# Flash Operations Stay in the Application Area

`flashcmd_block_in_range` checks the address of a block, but what is erased or programmed
is a page, a staged unit or a buffer flushed by a later command. A driver is `Confined` to
an area if some invariant of its static variables makes each of its operations stay
there; every driver is, on the builds of the Kconfig files, and no sequence of requests
leads out of the area.

## Main results

* `commandDispatch_flash`: all a request can do to flash and driver is one checked block
  write or one completion.
* `Mach.confined`: the three drivers are confined to the application area.
* `serve_within`: no sequence of accepted frames erases or programs a byte outside.
-/

open LittleEndian NorFlash Paging

namespace Terraboot

variable {S T : Type}

/-! ### Requests -/

/-- A request: a frame that was accepted at the front of a receive buffer, and the time at
which it is dispatched. -/
structure Request (T : Type) where
  now : T
  buf : List Byte
  msglen : ℕ
  accepted : blockVerdict buf = .accept msglen

/-- The request that consists of one frame. -/
def Request.ofFrame (now : T) (cmd : Byte) (payload : List Byte)
    (h : payload.length % 4 = 0 ∧ payload.length ≤ 120) : Request T where
  now := now
  buf := frame cmd payload
  msglen := payload.length + 8
  accepted := (blockVerdict_accept_iff _ _).mpr
    ⟨by rw [messageMax]; omega, cmd, payload, _, [], ⟨h.1, by omega, rfl⟩,
      (List.append_nil _).symm, frame_length _ _⟩

/-- The device after a sequence of requests. -/
def serve (b : Board S T) (d : Device S T) (requests : List (Request T)) : Device S T :=
  requests.foldl (fun d r => (commandDispatch b r.now d r.buf r.msglen).1) d

theorem serve_cons (b : Board S T) (d : Device S T) (r : Request T) (requests : List (Request T)) :
    serve b d (r :: requests) = serve b (commandDispatch b r.now d r.buf r.msglen).1 requests :=
  rfl

/-- **All that a request can do to flash and driver**: nothing, one write of a block in
range, or one completion. -/
theorem commandDispatch_flash (b : Board S T) (now : T) (d : Device S T) (buf : List Byte)
    (msglen : ℕ) :
    ((commandDispatch b now d buf msglen).1.backend = d.backend ∧
      (commandDispatch b now d buf msglen).1.flash = d.flash) ∨
    (∃ ret block data, flashcmdBlockInRange b.cfg block = true ∧
      data.length ≤ b.cfg.blockSize ∧
      b.backend.flashWriteBlock d.backend d.flash block data =
        (ret, (commandDispatch b now d buf msglen).1.backend,
          (commandDispatch b now d buf msglen).1.flash)) ∨
    (∃ ret, b.backend.flashComplete d.backend d.flash =
      (ret, (commandDispatch b now d buf msglen).1.backend,
        (commandDispatch b now d buf msglen).1.flash)) := by
  generalize hcmd : (buf.take msglen).getD 2 0 = c
  have h := commandDispatch_dispatched b now d buf msglen hcmd
  generalize commandDispatch b now d buf msglen = r at h ⊢
  cases h with
  | written hcount hrange hwrite =>
      exact .inr (.inl ⟨_, _, _, hrange, List.length_take_le _ _, hwrite⟩)
  | completed hcomplete => exact .inr (.inr ⟨_, hcomplete⟩)
  | _ => exact .inl ⟨rfl, rfl⟩

/-! ### Confined drivers -/

/-- A driver is **confined** to `[lo, hi)` by an invariant of its static variables: every
operation it performs for a block of the area, and on completion, stays there. -/
structure Backend.Confined (B : Backend S) (blockSize lo hi : ℕ) (Inv : S → Prop) : Prop where
  init : Inv B.init
  write {st f block data} : Inv st → Within lo hi f.log → lo ≤ block → block + blockSize ≤ hi →
    data.length ≤ blockSize →
    Inv (B.flashWriteBlock st f block data).2.1 ∧
      Within lo hi (B.flashWriteBlock st f block data).2.2.log
  complete {st f} : Inv st → Within lo hi f.log →
    Inv (B.flashComplete st f).2.1 ∧ Within lo hi (B.flashComplete st f).2.2.log

theorem flashcmdBlockInRange_iff {cfg : Config} (h : cfg.blockSize ≤ cfg.flashEnd) (block : ℕ) :
    flashcmdBlockInRange cfg block = true ↔
      cfg.launchAppAddress ≤ block ∧ block + cfg.blockSize ≤ cfg.flashEnd := by
  rw [flashcmdBlockInRange]
  split_ifs with h₁ h₂
  · exact iff_of_false not_false (by omega)
  · exact iff_of_false not_false (by omega)
  · exact iff_of_true rfl (by omega)

/-- On a build, blocks have 64 bytes. -/
theorem Config.IsBuildOf.inRange_iff {cfg : Config} {m : Mach} (h : cfg.IsBuildOf m) (block : ℕ) :
    flashcmdBlockInRange cfg block = true ↔
      cfg.launchAppAddress ≤ block ∧ block + 64 ≤ cfg.flashEnd := by
  rw [flashcmdBlockInRange_iff h.blockSize_le_flashEnd, h.block]

/-- One request keeps the invariant of a confined driver and the confinement. -/
theorem Backend.Confined.commandDispatch {b : Board S T} {Inv : S → Prop}
    (hB : b.backend.Confined b.cfg.blockSize b.cfg.launchAppAddress b.cfg.flashEnd Inv)
    (hsize : b.cfg.blockSize ≤ b.cfg.flashEnd) (now : T) {d : Device S T} (buf : List Byte)
    (msglen : ℕ) (hinv : Inv d.backend)
    (hlog : Within b.cfg.launchAppAddress b.cfg.flashEnd d.flash.log) :
    Inv (Terraboot.commandDispatch b now d buf msglen).1.backend ∧
      Within b.cfg.launchAppAddress b.cfg.flashEnd
        (Terraboot.commandDispatch b now d buf msglen).1.flash.log := by
  rcases commandDispatch_flash b now d buf msglen with
    ⟨hst, hf⟩ | ⟨ret, block, data, hrange, hdata, hw⟩ | ⟨ret, hc⟩
  · rw [hst, hf]
    exact ⟨hinv, hlog⟩
  · obtain ⟨hlo, hhi⟩ := (flashcmdBlockInRange_iff hsize block).mp hrange
    have := hB.write hinv hlog hlo hhi hdata
    rwa [hw] at this
  · have := hB.complete hinv hlog
    rwa [hc] at this

/-- A confined driver stays in its area for every sequence of requests. -/
theorem Backend.Confined.serve {b : Board S T} {Inv : S → Prop}
    (hB : b.backend.Confined b.cfg.blockSize b.cfg.launchAppAddress b.cfg.flashEnd Inv)
    (hsize : b.cfg.blockSize ≤ b.cfg.flashEnd) (requests : List (Request T)) {d : Device S T}
    (hinv : Inv d.backend) (hlog : Within b.cfg.launchAppAddress b.cfg.flashEnd d.flash.log) :
    Inv (Terraboot.serve b d requests).backend ∧
      Within b.cfg.launchAppAddress b.cfg.flashEnd (Terraboot.serve b d requests).flash.log := by
  induction requests generalizing d with
  | nil => exact ⟨hinv, hlog⟩
  | cons r requests ih =>
      rw [serve_cons]
      obtain ⟨hinv', hlog'⟩ := hB.commandDispatch hsize r.now r.buf r.msglen hinv hlog
      exact ih hinv' hlog'

/-! ### The drivers are confined -/

section Stm32

variable {cfg : Config} {chip : Stm32}

/-- The STM32 driver remembers no address. -/
theorem Stm32.confined (h : cfg.IsBuildOf (.stm32 chip)) (reg : ℕ) :
    (Stm32.backend chip reg cfg.blockSize).Confined cfg.blockSize cfg.launchAppAddress
      cfg.flashEnd fun _ => True where
  init := trivial
  write {st f block data} _ hlog hlo hhi hdata := by
    refine ⟨trivial, ?_⟩
    have hpos : 0 < cfg.blockSize := by rw [h.block]; omega
    have hlt : block < 2 ^ 32 := by have := h.flashEnd_lt; omega
    obtain ⟨ret, st', f', hw, hf⟩ := flashWriteBlock_cases chip reg cfg.blockSize st f hlt data
    rw [show (Stm32.backend chip reg cfg.blockSize).flashWriteBlock st f block data = _ from hw]
    rcases hf with rfl | rfl | ⟨hstart, rfl⟩
    · exact hlog
    · exact hlog.program hlo (by omega)
    · have hend := (chip.pageMap reg).page_end_le (h.end_aligned reg) (a := block) (by omega)
      rw [hstart] at hend
      exact (hlog.erase hlo hend).program hlo (by omega)
  complete _ hlog := ⟨trivial, hlog⟩

end Stm32

section Lpc176x

variable {cfg : Config}

/-- The invariant of the LPC176x driver: the next address is the start of a unit, or in
the area. -/
structure Lpc176x.FlashState.Bounded (lo hi : ℕ) (st : Lpc176x.FlashState) : Prop where
  length : st.iapBuf.length = iapBufMinSize
  next : st.nextAddress % iapBufMinSize = 0 ∨ (lo ≤ st.nextAddress ∧ st.nextAddress ≤ hi)

/-- An area the LPC176x driver is confined to: whole units at its start, whole sectors at
its end. -/
structure Lpc176x.IsArea (lo hi : ℕ) : Prop where
  start : lo % iapBufMinSize = 0
  sector : sectorMap.Aligned hi
  units : hi % iapBufMinSize = 0
  bound : hi < 2 ^ 32

theorem Lpc176x.BufferEffect.within {lo hi a : ℕ} {data : List Byte} {f f' : Flash}
    (h : BufferEffect f a data f') (harea : IsArea lo hi) (hlog : Within lo hi f.log)
    (hlo : lo ≤ a) (hhi : a + data.length ≤ hi) (hpos : 0 < data.length) :
    Within lo hi f'.log := by
  have hend : sectorMap.start a = a → a + flashGetSectorSize a ≤ hi := by
    intro hstart
    have := sectorMap.page_end_le harea.sector (a := a) (by omega)
    rwa [hstart] at this
  cases h with
  | nothing => exact hlog
  | program => exact hlog.program hlo hhi
  | erase hstart => exact hlog.erase hlo (hend hstart)
  | eraseProgram hstart => exact (hlog.erase hlo (hend hstart)).program hlo hhi

theorem Lpc176x.writeBuffer_within (rom : IapRom) {lo hi a : ℕ} (st : FlashState) {f : Flash}
    (harea : IsArea lo hi) (hlen : st.iapBuf.length = iapBufMinSize)
    (hlog : Within lo hi f.log) (hlo : lo ≤ a) (hhi : a + iapBufMinSize ≤ hi) :
    (writeBuffer rom st f a st.iapBuf).2.1.iapBuf = st.iapBuf ∧
      (writeBuffer rom st f a st.iapBuf).2.1.nextAddress = st.nextAddress ∧
      Within lo hi (writeBuffer rom st f a st.iapBuf).2.2.log := by
  have hbound := harea.bound
  have hunit : iapBufMinSize = 256 := rfl
  obtain ⟨ret, c, f', hw, heff⟩ := writeBuffer_cases rom st f (a := a) (by omega) st.iapBuf
  rw [hw]
  exact ⟨rfl, rfl, heff.within harea hlog hlo (by omega) (by omega)⟩

/-- Buffering the block at `next_address` keeps the invariant. -/
theorem Lpc176x.bufferBlock_within {rom : IapRom} {lo hi block : ℕ} {st : FlashState} {f : Flash}
    {data : List Byte} (harea : IsArea lo hi) (hlen : st.iapBuf.length = iapBufMinSize)
    (hnext : st.nextAddress = block) (hlog : Within lo hi f.log) (hlo : lo ≤ block)
    (hhi : block + 64 ≤ hi) (haligned : block % 64 = 0) (hdata : data.length ≤ 64) :
    (bufferBlock rom 64 st f block data).2.1.Bounded lo hi ∧
      Within lo hi (bufferBlock rom 64 st f block data).2.2.log := by
  have hunit : iapBufMinSize = 256 := rfl
  have hstart : lo % 256 = 0 := harea.start
  have hend : hi % 256 = 0 := harea.units
  have hidx : block &&& (iapBufMinSize - 1) = block % 256 := and_255 block
  have hbuf : (overwrite st.iapBuf (block % 256) data).length = iapBufMinSize := by
    rw [overwrite_length (by omega), hlen]
  have hlo' : lo ≤ block - block % 256 := by omega
  have hhi' : block - block % 256 + iapBufMinSize ≤ hi := by omega
  have hbehind : lo ≤ block + 64 ∧ block + 64 ≤ hi := ⟨hlo.trans (Nat.le_add_right _ _), hhi⟩
  have hwrite := writeBuffer_within rom
    { st with iapBuf := overwrite st.iapBuf (block % 256) data } harea hbuf hlog hlo' hhi'
  rw [bufferBlock, hidx]
  dsimp only at hwrite ⊢
  generalize writeBuffer rom _ f (block - block % 256) _ = r at hwrite ⊢
  obtain ⟨hb, hn, hw⟩ := hwrite
  rw [hnext] at hn ⊢
  have hlength := (congrArg List.length hb).trans hbuf
  split_ifs with hlast hret
  · exact ⟨⟨hlength, .inr (hn ▸ ⟨hlo, (Nat.le_add_right _ _).trans hhi⟩)⟩, hw⟩
  · exact ⟨⟨hlength, .inr (hn ▸ hbehind)⟩, hw⟩
  · exact ⟨⟨hbuf, .inr hbehind⟩, hlog⟩

/-- The LPC176x driver programs whole units, also on completion. -/
theorem Lpc176x.confined {rom : IapRom} {lo hi : ℕ} (harea : IsArea lo hi) :
    (Lpc176x.backend rom 64).Confined 64 lo hi (FlashState.Bounded lo hi) where
  init := ⟨List.length_replicate, .inl rfl⟩
  write {st f block data} hinv hlog hlo hhi hdata := by
    have hmask : block &&& (64 - 1) = block % 64 := and_63 block
    rw [backend]
    dsimp only
    rw [flashWriteBlock, hmask]
    split_ifs with haligned hsize hnext hunits
    · exact ⟨hinv, hlog⟩
    · exact ⟨hinv, hlog⟩
    · exact bufferBlock_within harea hinv.length rfl hlog hlo hhi (not_not.mp haligned) hdata
    · exact bufferBlock_within harea hinv.length (not_not.mp hnext).symm hlog hlo hhi
        (not_not.mp haligned) hdata
    · exact absurd (show 64 < iapBufMinSize by decide) hsize
  complete {st f} hinv hlog := by
    have hunit : iapBufMinSize = 256 := rfl
    have hstart : lo % 256 = 0 := harea.start
    have hend : hi % 256 = 0 := harea.units
    have hidx : st.nextAddress &&& (iapBufMinSize - 1) = st.nextAddress % 256 := and_255 _
    rw [backend]
    dsimp only
    rw [flashComplete, hidx]
    by_cases hrest : 64 < iapBufMinSize ∧ st.nextAddress % 256 ≠ 0
    swap
    · rw [if_neg hrest]
      exact ⟨hinv, hlog⟩
    rw [if_pos hrest]
    obtain ⟨hlen, hzero | ⟨hlo, hhi⟩⟩ := hinv
    · exact absurd hzero hrest.2
    have hbuf : (overwrite st.iapBuf (st.nextAddress % 256)
        (List.replicate (iapBufMinSize - st.nextAddress % 256) 0xFF)).length = iapBufMinSize := by
      rw [overwrite_length (by rw [List.length_replicate]; omega), hlen]
    have hpos := hrest.2
    obtain ⟨hb, hn, hw⟩ := writeBuffer_within rom
      (a := st.nextAddress - st.nextAddress % 256) (⟨overwrite st.iapBuf (st.nextAddress % 256)
        (List.replicate (iapBufMinSize - st.nextAddress % 256) 0xFF), st.nextAddress,
        st.pageWriteCount⟩) harea hbuf hlog (by omega) (by omega)
    dsimp only at hb hn
    dsimp only
    split_ifs <;>
      exact ⟨⟨(congrArg List.length hb).trans hbuf, .inr ⟨hlo.trans_eq hn.symm, hn.trans_le hhi⟩⟩, hw⟩

end Lpc176x

section Rp2040

variable {cfg : Config}

/-- The invariant of the RP2040 driver: a used buffer is for a page of the area. -/
structure Rp2040.FlashState.Bounded (lo hi : ℕ) (st : Rp2040.FlashState) : Prop where
  length : st.buffer.length = 256
  page : st.bufferNotEmpty = true →
    lo ≤ st.bufferStartAddress ∧ st.bufferStartAddress + 256 ≤ hi

/-- An area the RP2040 driver is confined to: whole pages at its start, whole sectors at
its end. -/
structure Rp2040.IsArea (cfg : Config) (lo hi : ℕ) : Prop where
  base : cfg.flashStart ≤ lo
  start : lo % 256 = 0
  sector : hi % sectorSize = 0

/-- Flushing stays in the area, and leaves the buffer empty. -/
theorem Rp2040.flushBuffer_within {lo hi : ℕ} {st : FlashState} {f : Flash}
    (harea : IsArea cfg lo hi) (hinv : st.Bounded lo hi) (hlog : Within lo hi f.log) :
    (flushBuffer cfg st f).1.Bounded lo hi ∧ (flushBuffer cfg st f).1.bufferNotEmpty = false ∧
      Within lo hi (flushBuffer cfg st f).2.log := by
  rw [flushBuffer]
  by_cases hne : st.bufferNotEmpty = true
  swap
  · rw [if_pos (by simpa using hne)]
    exact ⟨hinv, by simpa using hne, hlog⟩
  rw [if_neg (by simpa using hne)]
  dsimp only
  obtain ⟨hlo, hhi⟩ := hinv.page hne
  have hbase := harea.base
  have hend : hi % 4096 = 0 := harea.sector
  have hsector : sectorSize = 4096 := rfl
  have haddr : cfg.flashStart + (st.bufferStartAddress - cfg.flashStart) =
      st.bufferStartAddress := by omega
  refine ⟨⟨hinv.length, by simp⟩, rfl, ?_⟩
  rw [flashRangeProgram, haddr]
  refine Within.program ?_ hlo (by rw [hinv.length]; exact hhi)
  split_ifs with hfirst
  · have hfirst' : st.bufferStartAddress % 4096 = 0 := hfirst
    rw [flashRangeErase, haddr]
    exact hlog.erase hlo (by omega)
  · exact hlog

theorem Rp2040.prepareBuffer_bounded {lo hi address : ℕ} {st : FlashState}
    (harea : IsArea cfg lo hi) (hblock : cfg.blockSize = 64) (hlo : lo ≤ address)
    (hhi : address + 64 ≤ hi) : (prepareBuffer cfg st address).Bounded lo hi := by
  have hpage : pageSize cfg.blockSize = 256 := by rw [hblock]; rfl
  have hstart := harea.start
  have hend : hi % 4096 = 0 := harea.sector
  have hsector : sectorSize = 4096 := rfl
  rw [prepareBuffer, hpage]
  exact ⟨List.length_replicate, fun _ => ⟨by dsimp only; omega, by dsimp only; omega⟩⟩

/-- The buffer that `ensure_buffer` prepares has a slot for the block. -/
theorem Rp2040.ensureBuffer_within {lo hi address : ℕ} {st : FlashState} {f : Flash}
    (harea : IsArea cfg lo hi) (hblock : cfg.blockSize = 64) (hinv : st.Bounded lo hi)
    (hlog : Within lo hi f.log) (hlo : lo ≤ address) (hhi : address + 64 ≤ hi)
    (haligned : address % 64 = 0) :
    (ensureBuffer cfg st f address).1.Bounded lo hi ∧
      address - (ensureBuffer cfg st f address).1.bufferStartAddress ≤ 192 ∧
      Within lo hi (ensureBuffer cfg st f address).2.log := by
  have hpage : pageSize cfg.blockSize = 256 := by rw [hblock]; rfl
  have hslot : ∀ st', address - (prepareBuffer cfg st' address).bufferStartAddress ≤ 192 := by
    intro st'
    rw [prepareBuffer, hpage]
    dsimp only
    omega
  rw [ensureBuffer]
  split_ifs with hne hfits
  · refine ⟨hinv, ?_, hlog⟩
    rw [hpage, hblock] at hfits
    dsimp only
    omega
  · obtain ⟨-, -, hlog'⟩ := flushBuffer_within harea hinv hlog
    exact ⟨prepareBuffer_bounded harea hblock hlo hhi, hslot _, hlog'⟩
  · exact ⟨prepareBuffer_bounded harea hblock hlo hhi, hslot _, hlog⟩

/-- The RP2040 driver flushes only pages it was given a block for. -/
theorem Rp2040.confined {lo hi : ℕ} (harea : IsArea cfg lo hi) (hblock : cfg.blockSize = 64) :
    (Rp2040.backend cfg).Confined 64 lo hi (FlashState.Bounded lo hi) where
  init := by
    have hpage : pageSize cfg.blockSize = 256 := by rw [hblock]; rfl
    rw [backend, FlashState.init, hpage]
    exact ⟨List.length_replicate, by simp⟩
  write {st f block data} hinv hlog hlo hhi hdata := by
    rw [backend]
    dsimp only
    rw [flashWriteBlock]
    split_ifs with hret
    · exact ⟨hinv, hlog⟩
    have haligned : block % 64 = 0 := by
      by_contra hne
      rw [checkValidFlashAddress, hblock, if_pos hne] at hret
      omega
    obtain ⟨hens, hslot, hlog'⟩ := ensureBuffer_within harea hblock hinv hlog hlo hhi haligned
    refine ⟨⟨?_, hens.page⟩, hlog'⟩
    rw [overwrite_length (by rw [hens.length]; omega), hens.length]
  complete {st f} hinv hlog := by
    obtain ⟨hinv', -, hlog'⟩ := flushBuffer_within harea hinv hlog
    exact ⟨hinv', hlog'⟩

end Rp2040

/-! ### Every build -/

section Build

variable {cfg : Config}

theorem Lpc176x.isArea {m : Mach} (h : cfg.IsBuildOf m) (hm : m = .lpc1768 ∨ m = .lpc1769) :
    Lpc176x.IsArea cfg.launchAppAddress cfg.flashEnd := by
  have hlaunch : cfg.launchAppAddress = 0x4000 := by
    rcases hm with rfl | rfl <;> exact List.mem_singleton.mp h.launch
  have hend : cfg.flashEnd = 0x80000 := by
    rw [Config.flashEnd, h.start, h.size]
    rcases hm with rfl | rfl <;> rfl
  rw [hlaunch, hend]
  exact ⟨rfl, by rw [PageMap.aligned_iff_dvd]; decide, rfl, by decide⟩

theorem Rp2040.isArea {m : Mach} (h : cfg.IsBuildOf m) (hm : m = .rp2040 ∨ m = .rp2350) :
    Rp2040.IsArea cfg cfg.launchAppAddress cfg.flashEnd := by
  have hlaunch : cfg.launchAppAddress = 0x10004000 := by
    rcases hm with rfl | rfl <;> exact List.mem_singleton.mp h.launch
  have hstart : cfg.flashStart = 0x10000000 := by
    rcases hm with rfl | rfl <;> exact h.start
  have hend : cfg.flashEnd = 0x10200000 := by
    rw [Config.flashEnd, h.start, h.size]
    rcases hm with rfl | rfl <;> rfl
  exact ⟨by omega, by omega, by rw [hend]; rfl⟩

/-- **Every driver is confined to the application area** of every build with it. -/
theorem Mach.confined (m : Mach) (hw : Hardware) (h : cfg.IsBuildOf m) :
    ∃ Inv, (m.backend hw cfg).Confined cfg.blockSize cfg.launchAppAddress cfg.flashEnd Inv := by
  have hblock := h.block
  cases m with
  | stm32 chip => exact ⟨_, Stm32.confined h hw.flashSizeReg⟩
  | lpc1768 =>
      rw [Mach.backend, hblock]
      exact ⟨_, Lpc176x.confined (Lpc176x.isArea h (.inl rfl))⟩
  | lpc1769 =>
      rw [Mach.backend, hblock]
      exact ⟨_, Lpc176x.confined (Lpc176x.isArea h (.inr rfl))⟩
  | rp2040 =>
      rw [hblock]
      exact ⟨_, Rp2040.confined (Rp2040.isArea h (.inl rfl)) hblock⟩
  | rp2350 =>
      rw [hblock]
      exact ⟨_, Rp2040.confined (Rp2040.isArea h (.inr rfl)) hblock⟩

/-- **The bootloader cannot damage itself.** On every build of every processor, whatever
the flash holds and whatever accepted frames arrive, no byte outside of the application
area is ever erased or programmed. -/
theorem serve_within (m : Mach) (hw : Hardware) (h : cfg.IsBuildOf m) (uuid : Uuid) (mem : Mem)
    (requests : List (Request Word)) :
    Within cfg.launchAppAddress cfg.flashEnd
      (serve (m.board hw cfg) (.init (m.board hw cfg) uuid ⟨mem, []⟩) requests).flash.log := by
  obtain ⟨Inv, hB⟩ := m.confined hw h
  exact (hB.serve (b := m.board hw cfg) h.blockSize_le_flashEnd requests hB.init
    (within_nil _ _)).2

/-- On the shipped configuration, a request to write beyond the end of the flash. -/
theorem serve_within_steinzeit :
    Within 0x8002000 0x8010000 (serve (Mach.board (.stm32 .f103)
      ⟨64, ⟨fun _ _ => 0, fun _ _ _ => 0⟩⟩ steinzeit)
      (.init (Mach.board (.stm32 .f103) ⟨64, ⟨fun _ _ => 0, fun _ _ _ => 0⟩⟩ steinzeit)
        steinzeitDevice.uuid ⟨fun _ => 0xFF, []⟩)
      [.ofFrame 0 0x12 (le32 0x9000000 ++ List.replicate 64 0) (by decide)]).flash.log :=
  serve_within (.stm32 .f103) _ steinzeit_isBuildOf _ _ _

end Build

end Terraboot
