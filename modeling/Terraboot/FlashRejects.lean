import Terraboot.CleanSession

/-!
# Refused Flash Requests

`SEND_BLOCK` and `REQUEST_BLOCK` are refused for their argument count or address range by
`flashcmd.c`, and for alignment and order by the flash driver. The handlers mark a transfer before
any of the checks, and `command_write_block` starts the byte counter over before it asks the driver.

## Main results

* `Mach.refused_unchanged`: a driver that refuses a block keeps the flash, its page counter, and
  the blocks that it accepts next.
* `rejected_noEffect_iff`: which refused requests have no effect.
-/

open LittleEndian NorFlash

namespace Terraboot

/-! ### The drivers -/

/-- The results with which a driver refuses a block for its alignment, its order or its range; with
any other negative result it reports that the flash could not be erased or programmed. -/
def Mach.refusals : Mach → List ℤ
  | .stm32 _ | .lpc1768 | .lpc1769 => [-1, -2]
  | .rp2040 | .rp2350 => [-1, -2, -3]

theorem Mach.refusals_neg {m : Mach} {ret : ℤ} (h : ret ∈ m.refusals) : ret < 0 := by
  cases m <;> simp only [Mach.refusals, List.mem_cons, List.not_mem_nil, or_false] at h <;> omega

/-- `page_write_count` -/
def Mach.pageWriteCount : (m : Mach) → m.FlashState → Word
  | .stm32 _ => Stm32.FlashState.pageWriteCount
  | .lpc1768 | .lpc1769 => Lpc176x.FlashState.pageWriteCount
  | .rp2040 | .rp2350 => Rp2040.FlashState.pageWriteCount

/-- The STM32 driver refuses a block before it touches anything. -/
theorem Stm32.flashWriteBlock_refused {chip : Stm32} {reg blockSize : ℕ} {st : FlashState}
    {f : Flash} {block : ℕ} {data : List Byte}
    (h : (flashWriteBlock chip reg blockSize st f block data).1 ∈ [(-1 : ℤ), -2]) :
    (flashWriteBlock chip reg blockSize st f block data).2 = (st, f) := by
  have hwrite : ∀ st needErase page,
      (eraseAndWrite chip reg st f needErase page block data).1 ∉ [(-1 : ℤ), -2] := by
    intro st needErase page
    rw [eraseAndWrite]
    split_ifs <;> simp
  revert h
  rw [flashWriteBlock]
  dsimp only
  split_ifs
  · exact fun _ => rfl
  · cases pageDecision f.mem blockSize (chip.flashGetPageSize reg block) block data with
    | alreadyErased => exact fun h => absurd h (hwrite _ _ _)
    | retransmit => exact fun _ => rfl
    | needErase => exact fun h => absurd h (hwrite _ _ _)
  · exact fun _ => rfl
  · exact fun _ => rfl
  · exact fun h => absurd h (hwrite _ _ _)

theorem Rp2040.flashWriteBlock_refused {cfg : Config} {st : FlashState} {f : Flash} {block : ℕ}
    {data : List Byte} (h : (flashWriteBlock cfg st f block data).1 < 0) :
    (flashWriteBlock cfg st f block data).2 = (st, f) := by
  revert h
  rw [flashWriteBlock]
  dsimp only
  split_ifs
  · exact fun _ => rfl
  · exact fun h => absurd h (lt_irrefl 0)

/-- `write_buffer` refuses a unit before it touches anything. -/
theorem Lpc176x.writeBuffer_refused {rom : IapRom} {st : FlashState} {f : Flash} {a : ℕ}
    {data : List Byte} (h : (writeBuffer rom st f a data).1 ∈ [(-1 : ℤ), -2]) :
    (writeBuffer rom st f a data).2 = (st, f) := by
  have hwrite : ∀ st f, (unlockAndWrite rom st f a data).1 ∉ [(-1 : ℤ), -2] := by
    intro st f
    rw [unlockAndWrite]
    split_ifs <;> simp
  revert h
  rw [writeBuffer]
  dsimp only
  split_ifs
  · exact fun h => absurd h (hwrite _ _)
  · exact fun _ => rfl
  · exact fun h => absurd h (by simp)
  · exact fun h => absurd h (hwrite _ _)
  · exact fun _ => rfl
  · exact fun _ => rfl
  · exact fun h => absurd h (hwrite _ _)

section Lpc176x

namespace Lpc176x

variable {rom : IapRom} {st : FlashState} {f : Flash} {block : ℕ} {data : List Byte}

/-- What an LPC176x driver that refuses a block can have done: stored the last block of a unit in
the buffer. -/
theorem flashWriteBlock_refused
    (h : (flashWriteBlock rom 64 st f block data).1 ∈ [(-1 : ℤ), -2]) :
    (flashWriteBlock rom 64 st f block data).2 = (st, f) ∨
      st.nextAddress % 256 = 192 ∧ (flashWriteBlock rom 64 st f block data).2 =
        ({ st with iapBuf := overwrite st.iapBuf 192 data }, f) := by
  by_cases h64 : block % 64 = 0
  swap
  · rw [flashWriteBlock_unaligned rom h64]
    exact .inl rfl
  by_cases hnext : st.nextAddress = block ∨ (block % 256 = 0 ∧ st.staged = 0)
  swap
  · rw [flashWriteBlock_out_of_order rom h64 (by omega) (by omega)]
    exact .inl rfl
  by_cases hlast : block % 256 = 192
  · obtain ⟨u, rfl⟩ : ∃ u, block = u + 192 := ⟨block - 192, by omega⟩
    have hu : st.nextAddress = u + 192 := by omega
    refine .inr ⟨by omega, ?_⟩
    rw [flashWriteBlock_ends (by omega) hu] at h ⊢
    dsimp only at h ⊢
    rw [← hu] at h ⊢
    split_ifs at h ⊢
    · exact writeBuffer_refused h
    · exact absurd h (by simp)
  · rw [flashWriteBlock_stages rom h64 hnext hlast] at h
    exact absurd h (by simp)

/-- The last block of a unit is stored over what the buffer holds at its place. -/
theorem flashWriteBlock_last_again {st' : FlashState} (hlast : st.nextAddress % 256 = 192)
    (hnext : st'.nextAddress = st.nextAddress) (hcount : st'.pageWriteCount = st.pageWriteCount)
    (hbuf : overwrite st'.iapBuf 192 data = overwrite st.iapBuf 192 data) (f : Flash) (a : ℕ) :
    (flashWriteBlock rom 64 st' f a data).1 = (flashWriteBlock rom 64 st f a data).1 := by
  by_cases h64 : a % 64 = 0
  swap
  · rw [flashWriteBlock_unaligned rom h64, flashWriteBlock_unaligned rom h64]
  by_cases ha : a = st.nextAddress
  · obtain ⟨u, rfl⟩ : ∃ u, a = u + 192 := ⟨a - 192, by omega⟩
    rw [flashWriteBlock_ends (by omega) ha.symm,
      flashWriteBlock_ends (by omega) (hnext.trans ha.symm), hbuf, hcount]
  · have hstaged : st.staged = 192 := hlast
    have hstaged' : st'.staged = 192 := by rw [FlashState.staged, hnext, hlast]
    rw [flashWriteBlock_out_of_order rom h64 ha (.inr (by omega)),
      flashWriteBlock_out_of_order rom h64 (hnext ▸ ha) (.inr (by omega))]

/-- So a refused block changes nothing that counts. -/
theorem flashWriteBlock_refused_results (hlen : st.iapBuf.length = 256) (hdata : data.length = 64)
    {ret : ℤ} {st' : FlashState} {f' : Flash}
    (hr : flashWriteBlock rom 64 st f block data = (ret, st', f')) (hret : ret ∈ [(-1 : ℤ), -2]) :
    f' = f ∧ st'.pageWriteCount = st.pageWriteCount ∧ ∀ a data', data'.length = 64 →
      (flashWriteBlock rom 64 st' f' a data').1 = (flashWriteBlock rom 64 st f a data').1 := by
  have hrefused : (flashWriteBlock rom 64 st f block data).1 ∈ [(-1 : ℤ), -2] := by rwa [hr]
  have h := flashWriteBlock_refused hrefused
  rw [hr] at h
  rcases h with hsame | ⟨hlast, hstored⟩
  · obtain ⟨rfl, rfl⟩ := Prod.mk.inj hsame
    exact ⟨rfl, rfl, fun _ _ _ => rfl⟩
  · obtain ⟨hst', rfl⟩ := Prod.mk.inj hstored
    have hbuf : st'.iapBuf = overwrite st.iapBuf 192 data := by rw [hst']
    have hnext : st'.nextAddress = st.nextAddress := by rw [hst']
    have hcount : st'.pageWriteCount = st.pageWriteCount := by rw [hst']
    refine ⟨rfl, hcount, fun a data' hdata' => ?_⟩
    refine flashWriteBlock_last_again hlast hnext hcount ?_ f' a
    rw [hbuf, overwrite_overwrite (by omega) (hdata.trans hdata'.symm)]

end Lpc176x

end Lpc176x

theorem Lpc176x.length_of_reachable {m : Mach} (hm : m = .lpc1768 ∨ m = .lpc1769) {rom : IapRom}
    {cfg : Config} (hcfg : cfg.IsBuildOf m) {d : Device FlashState Word}
    (h : (board rom cfg).Reachable d) : d.backend.iapBuf.length = 256 := by
  obtain ⟨uuid, mem, history, hdriver⟩ := h
  have hB : (board rom cfg).backend.Confined cfg.blockSize cfg.launchAppAddress cfg.flashEnd
      (FlashState.Bounded cfg.launchAppAddress cfg.flashEnd) := by
    rw [board, hcfg.block]
    exact confined (isArea hcfg hm)
  have hserved := hB.serve hcfg.blockSize_le_flashEnd history
    (d := .init (board rom cfg) uuid ⟨mem, []⟩) hB.init (within_nil _ _)
  have hbackend : d.backend = _ := congrArg Prod.fst hdriver
  rw [hbackend]
  exact hserved.1.length

/-! ### Every driver -/

/-- A driver that gave one of these results has kept the flash and its page counter, and gives the
same results for every next block as before. -/
structure Mach.Unchanged (m : Mach) (B : Backend m.FlashState) (st : m.FlashState) (f : Flash)
    (r : m.FlashState × Flash) : Prop where
  flash : r.2 = f
  pages : m.pageWriteCount r.1 = m.pageWriteCount st
  results : ∀ block data, data.length = 64 →
    (B.flashWriteBlock r.1 r.2 block data).1 = (B.flashWriteBlock st f block data).1

theorem Mach.unchanged_of_eq {m : Mach} {B : Backend m.FlashState} {st : m.FlashState} {f : Flash}
    {r : m.FlashState × Flash} (h : r = (st, f)) : m.Unchanged B st f r := by
  rw [h]
  exact ⟨rfl, rfl, fun _ _ _ => rfl⟩

/-- **A driver that refuses a block** for its alignment, order or range changes nothing that counts.
-/
theorem Mach.refused_unchanged (m : Mach) (hw : Hardware) {cfg : Config} (hcfg : cfg.IsBuildOf m)
    {d : Device m.FlashState Word} (hd : (m.board hw cfg).Reachable d) {block : ℕ} {data : List Byte}
    (hdata : data.length = 64)
    (h : ((m.backend hw cfg).flashWriteBlock d.backend d.flash block data).1 ∈ m.refusals) :
    m.Unchanged (m.backend hw cfg) d.backend d.flash
      ((m.backend hw cfg).flashWriteBlock d.backend d.flash block data).2 := by
  cases m with
  | stm32 chip =>
      have hret : (Stm32.flashWriteBlock chip hw.flashSizeReg cfg.blockSize d.backend d.flash block
        data).1 ∈ [(-1 : ℤ), -2] := h
      exact unchanged_of_eq (Stm32.flashWriteBlock_refused hret)
  | lpc1768 =>
      have hlen := Lpc176x.length_of_reachable (.inl rfl) hcfg hd
      rw [Mach.backend, hcfg.block] at h ⊢
      obtain ⟨hflash, hpages, hresults⟩ :=
        Lpc176x.flashWriteBlock_refused_results hlen hdata rfl h
      exact ⟨hflash, hpages, hresults⟩
  | lpc1769 =>
      have hlen := Lpc176x.length_of_reachable (.inr rfl) hcfg hd
      rw [Mach.backend, hcfg.block] at h ⊢
      obtain ⟨hflash, hpages, hresults⟩ :=
        Lpc176x.flashWriteBlock_refused_results hlen hdata rfl h
      exact ⟨hflash, hpages, hresults⟩
  | rp2040 =>
      have hret : (Rp2040.flashWriteBlock cfg d.backend d.flash block data).1 < 0 :=
        refusals_neg h
      exact unchanged_of_eq (Rp2040.flashWriteBlock_refused hret)
  | rp2350 =>
      have hret : (Rp2040.flashWriteBlock cfg d.backend d.flash block data).1 < 0 :=
        refusals_neg h
      exact unchanged_of_eq (Rp2040.flashWriteBlock_refused hret)

/-! ### Refused requests -/

/-- The bytes of a request, as `command_dispatch` copies them. -/
def Request.data {T : Type} (r : Request T) : List Byte := r.buf.take r.msglen

/-- The block address of a request. -/
def Request.blockAddress {T : Type} (r : Request T) : ℕ := (getWord r.data 1).toNat

/-- A `SEND_BLOCK` or `REQUEST_BLOCK` request is refused for its argument count, its address range,
its alignment or its order. -/
inductive Rejected (m : Mach) (hw : Hardware) (cfg : Config) (d : Device m.FlashState Word)
    (r : Request Word) : Prop
  | argCount (hcmd : r.data.getD 2 0 = 0x12)
      (hcount : commandGetArgCount r.data ≠ cfg.blockSize / 4 + 1)
  | range (hcmd : r.data.getD 2 0 = 0x12) (hrange : flashcmdBlockInRange cfg r.blockAddress = false)
  | driver (hcmd : r.data.getD 2 0 = 0x12) (hcount : commandGetArgCount r.data = cfg.blockSize / 4 + 1)
      (hrange : flashcmdBlockInRange cfg r.blockAddress = true)
      (hret : ((m.backend hw cfg).flashWriteBlock d.backend d.flash r.blockAddress
        ((r.data.drop 8).take cfg.blockSize)).1 ∈ m.refusals)
  | readRange (hcmd : r.data.getD 2 0 = 0x14)
      (hrange : flashcmdBlockInRange cfg r.blockAddress = false)

/-- `command_write_block` starts the byte counter over. -/
def RestartsCount (cfg : Config) (r : Request Word) : Prop :=
  r.data.getD 2 0 = 0x12 ∧ commandGetArgCount r.data = cfg.blockSize / 4 + 1 ∧
    r.blockAddress = cfg.launchAppAddress

instance (cfg : Config) (r : Request Word) : Decidable (RestartsCount cfg r) :=
  inferInstanceAs (Decidable (_ ∧ _))

/-- Neither the flash nor the transfer flag nor the counters change, and the driver accepts the same
blocks next. -/
structure NoEffect (m : Mach) (B : Backend m.FlashState) (d d' : Device m.FlashState Word) :
    Prop where
  flash : d'.flash = d.flash
  transfer : d'.isInTransfer = d.isInTransfer
  bytes : d'.totalBytesWritten = d.totalBytesWritten
  pages : m.pageWriteCount d'.backend = m.pageWriteCount d.backend
  accepts : ∀ block data, data.length = 64 →
    (0 ≤ (B.flashWriteBlock d'.backend d'.flash block data).1 ↔
      0 ≤ (B.flashWriteBlock d.backend d.flash block data).1)

/-- A block that the driver does not take: the byte counter has been started over. -/
theorem commandWriteBlock_of_negative {S T : Type} {b : Board S T} {d : Device S T}
    {data : List Byte} (hcount : commandGetArgCount data = b.cfg.blockSize / 4 + 1)
    (hrange : flashcmdBlockInRange b.cfg (getWord data 1).toNat = true) {ret : ℤ} {st : S}
    {f : Flash} (hwrite : b.backend.flashWriteBlock d.backend d.flash (getWord data 1).toNat
      ((data.drop 8).take b.cfg.blockSize) = (ret, st, f)) (hret : ret < 0) :
    commandWriteBlock b d data = ({ d with
      isInTransfer := true
      totalBytesWritten :=
        if (getWord data 1).toNat = b.cfg.launchAppAddress then 0 else d.totalBytesWritten
      backend := st
      flash := f }, [commandRespondCommandError]) := by
  rw [commandWriteBlock]
  dsimp only
  rw [if_neg (not_not.mpr hcount), hrange, if_neg (by decide)]
  split_ifs with hlaunch hneg hneg <;> rw [hwrite] at hneg ⊢ <;>
    first | rfl | exact absurd hret hneg

variable {m : Mach} {hw : Hardware} {cfg : Config} {d : Device m.FlashState Word} {r : Request Word}

/-- **What a refused request does**: it marks a transfer, may start the byte counter over, and is
answered by an error. -/
theorem Rejected.outcome (hcfg : cfg.IsBuildOf m) (hd : (m.board hw cfg).Reachable d)
    (h : Rejected m hw cfg d r) :
    ∃ st', commandDispatch (m.board hw cfg) r.now d r.buf r.msglen = ({ d with
        isInTransfer := true
        totalBytesWritten := if RestartsCount cfg r then 0 else d.totalBytesWritten
        backend := st' }, [commandRespondCommandError]) ∧
      m.Unchanged (m.backend hw cfg) d.backend d.flash (st', d.flash) := by
  have hsame : m.Unchanged (m.backend hw cfg) d.backend d.flash (d.backend, d.flash) :=
    Mach.unchanged_of_eq rfl
  have hlaunch : flashcmdBlockInRange cfg cfg.launchAppAddress = true := launch_inRange hcfg
  cases h with
  | argCount hcmd hcount =>
      have hrestart : ¬RestartsCount cfg r := fun h => hcount h.2.1
      rw [commandDispatch_eq _ _ _ _ _ hcmd, if_neg (by decide), if_pos rfl,
        commandWriteBlock_of_refused d fun h => hcount h.1, if_neg hrestart]
      exact ⟨_, rfl, hsame⟩
  | range hcmd hrange =>
      have hrestart : ¬RestartsCount cfg r := by
        rintro ⟨-, -, haddr⟩
        rw [haddr, hlaunch] at hrange
        exact absurd hrange nofun
      have hrefused : ¬(commandGetArgCount r.data = cfg.blockSize / 4 + 1 ∧
          flashcmdBlockInRange cfg r.blockAddress = true) := fun h =>
        absurd (hrange.symm.trans h.2) nofun
      rw [commandDispatch_eq _ _ _ _ _ hcmd, if_neg (by decide), if_pos rfl,
        commandWriteBlock_of_refused d hrefused, if_neg hrestart]
      exact ⟨_, rfl, hsame⟩
  | driver hcmd hcount hrange hret =>
      have hdata : ((r.data.drop 8).take cfg.blockSize).length = 64 := by
        rw [hcfg.block] at hcount ⊢
        exact r.block_length hcount
      have hunchanged := m.refused_unchanged hw hcfg hd hdata hret
      obtain ⟨ret, st', f', hwrite⟩ : ∃ ret st' f', (m.backend hw cfg).flashWriteBlock d.backend
          d.flash r.blockAddress ((r.data.drop 8).take cfg.blockSize) = (ret, st', f') :=
        ⟨_, _, _, rfl⟩
      rw [hwrite] at hret hunchanged
      obtain rfl : f' = d.flash := hunchanged.flash
      have hrestart : RestartsCount cfg r ↔ r.blockAddress = cfg.launchAppAddress :=
        ⟨fun h => h.2.2, fun h => ⟨hcmd, hcount, h⟩⟩
      rw [commandDispatch_eq _ _ _ _ _ hcmd, if_neg (by decide), if_pos rfl]
      refine ⟨st', ?_, hunchanged⟩
      rw [if_congr hrestart rfl rfl]
      exact commandWriteBlock_of_negative (b := m.board hw cfg) hcount hrange hwrite
        (Mach.refusals_neg hret)
  | readRange hcmd hrange =>
      have hrestart : ¬RestartsCount cfg r := fun h => absurd (hcmd.symm.trans h.1) (by decide)
      have hread : commandReadBlock (m.board hw cfg) d r.data =
          ({ d with isInTransfer := true }, [commandRespondCommandError]) := if_pos (by
        rw [show flashcmdBlockInRange (m.board hw cfg).cfg (getWord r.data 1).toNat = false from hrange]
        rfl)
      rw [commandDispatch_eq _ _ _ _ _ hcmd, if_neg (by decide), if_neg (by decide),
        if_neg (by decide), if_pos rfl, if_neg hrestart]
      exact ⟨_, hread, hsame⟩

/-- **Which refused requests have no effect**: on every build, in every reachable state, those that
arrive while a transfer is marked, and that do not start the byte counter over unless it is zero. -/
theorem rejected_noEffect_iff (m : Mach) (hw : Hardware) {cfg : Config} (hcfg : cfg.IsBuildOf m)
    {d : Device m.FlashState Word} (hd : (m.board hw cfg).Reachable d) {r : Request Word}
    (h : Rejected m hw cfg d r) :
    NoEffect m (m.backend hw cfg) d
        (commandDispatch (m.board hw cfg) r.now d r.buf r.msglen).1 ↔
      d.isInTransfer = true ∧ (RestartsCount cfg r → d.totalBytesWritten = 0) := by
  obtain ⟨st', hout, hunchanged⟩ := h.outcome hcfg hd
  rw [hout]
  constructor
  · intro hnone
    refine ⟨hnone.transfer.symm, fun hrestart => ?_⟩
    have hbytes := hnone.bytes
    rw [if_pos hrestart] at hbytes
    exact hbytes.symm
  · rintro ⟨htransfer, hbytes⟩
    refine ⟨rfl, htransfer.symm, ?_, hunchanged.pages, fun block data hdata => ?_⟩
    · dsimp only
      split_ifs with hrestart
      · exact (hbytes hrestart).symm
      · rfl
    · have hresult := hunchanged.results block data hdata
      dsimp only at hresult ⊢
      rw [hresult]

/-- A request for the block at address 0, which no build has. -/
def badRead : Request Word := .ofFrame 0 0x14 (le32 0) (by decide)

/-- The shipped board with a blank flash. -/
def blankSteinzeit : Board Stm32.FlashState Word :=
  Mach.board (.stm32 .f103) ⟨64, Lpc176x.workingRom⟩ steinzeit

def blankSteinzeitDevice : Device Stm32.FlashState Word :=
  .init blankSteinzeit someUuid ⟨fun _ => 0xFF, []⟩

theorem badRead_rejected (d : Device Stm32.FlashState Word) :
    Rejected (.stm32 .f103) ⟨64, Lpc176x.workingRom⟩ steinzeit d badRead :=
  .readRange (by decide) (by decide)

/-- The second of two bad requests has no effect. -/
theorem rejected_noEffect_again :
    NoEffect (.stm32 .f103) blankSteinzeit.backend
      (serve blankSteinzeit blankSteinzeitDevice [badRead])
      (commandDispatch blankSteinzeit badRead.now
        (serve blankSteinzeit blankSteinzeitDevice [badRead]) badRead.buf badRead.msglen).1 := by
  have hreach : blankSteinzeit.Reachable (serve blankSteinzeit blankSteinzeitDevice [badRead]) :=
    ⟨_, _, [badRead], rfl⟩
  exact (rejected_noEffect_iff (.stm32 .f103) ⟨64, Lpc176x.workingRom⟩ steinzeit_isBuildOf hreach
    (badRead_rejected _)).mpr ⟨by decide +kernel, fun _ => by decide +kernel⟩

/-- The first one stops the idle timeout. -/
theorem rejected_marks_transfer :
    blankSteinzeit.Reachable blankSteinzeitDevice ∧
      Rejected (.stm32 .f103) ⟨64, Lpc176x.workingRom⟩ steinzeit blankSteinzeitDevice badRead ∧
      ¬NoEffect (.stm32 .f103) blankSteinzeit.backend blankSteinzeitDevice
        (commandDispatch blankSteinzeit badRead.now blankSteinzeitDevice badRead.buf
          badRead.msglen).1 := by
  have hreach : blankSteinzeit.Reachable blankSteinzeitDevice := ⟨_, _, [], rfl⟩
  refine ⟨hreach, badRead_rejected _, fun hnone => ?_⟩
  obtain ⟨st', hout, -⟩ := (badRead_rejected blankSteinzeitDevice).outcome steinzeit_isBuildOf hreach
  have htransfer := hnone.transfer
  rw [show commandDispatch blankSteinzeit badRead.now blankSteinzeitDevice badRead.buf
    badRead.msglen = _ from hout] at htransfer
  exact absurd htransfer nofun

end Terraboot
