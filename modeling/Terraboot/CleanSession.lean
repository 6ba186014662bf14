import Terraboot.Boards
import Terraboot.Lpc176xSession
import Terraboot.Rp2040Session
import Terraboot.Stm32Session

/-!
# Clean Sessions

Whether what a device answers from `CONNECT` on depends on earlier sessions. `command_connect`
clears `is_in_transfer` and the byte counter, but not the variables of the flash drivers: the
number of pages, the page in the buffer of the RP2040, the staged blocks of the LPC176x.

## Main results

* `Board.Reachable.invariant`: what every call of a driver keeps holds of every reachable state.
* `connect_clean_iff`: on every build, two reachable states with the same flash content give the
  same sessions exactly if their drivers are the same as far as calls can see.
-/

open LittleEndian NorFlash

namespace Terraboot

variable {S T : Type}

/-! ### Reachable states -/

/-- A state of a running bootloader: its driver has served requests since the start. The variables
outside of the driver are free. -/
def Board.Reachable (b : Board S T) (d : Device S T) : Prop :=
  ∃ (uuid : Uuid) (mem : Mem) (history : List (Request T)),
    d.driver = (serve b (.init b uuid ⟨mem, []⟩) history).driver

/-- **All that a request can do to the driver**: nothing, or one call. -/
theorem Board.driver_request {b : Board S T} (hblock : b.cfg.blockSize = 64) (d : Device S T)
    (r : Request T) : (b.machine.step d r).driver = d.driver ∨
      ∃ call, (b.machine.step d r).driver = b.flashMachine.step d.driver call := by
  generalize hcmd : (r.buf.take r.msglen).getD 2 0 = c
  have h := commandDispatch_dispatched b r.now d r.buf r.msglen hcmd
  simp only [Board.machine]
  generalize commandDispatch b r.now d r.buf r.msglen = out at h ⊢
  cases h with
  | written hcount hrange hwrite =>
      have hdata : (((r.buf.take r.msglen).drop 8).take b.cfg.blockSize).length = 64 := by
        rw [hblock] at hcount ⊢
        exact r.block_length hcount
      refine .inr ⟨.write _ _ hrange hdata, ?_⟩
      rw [Board.flashMachine]
      exact (congrArg Prod.snd hwrite).symm
  | completed hcomplete => exact .inr ⟨.complete, (congrArg Prod.snd hcomplete).symm⟩
  | _ => exact .inl rfl

/-- **Invariants of a driver**: what holds at the start and is kept by every call holds of every
reachable state. -/
theorem Board.Reachable.invariant {b : Board S T} (hblock : b.cfg.blockSize = 64)
    {P : S × Flash → Prop} (hinit : ∀ mem, P (b.backend.init, ⟨mem, []⟩))
    (hstep : ∀ s call, P s → P (b.flashMachine.step s call)) {d : Device S T} (h : b.Reachable d) :
    P d.driver := by
  obtain ⟨uuid, mem, history, hdriver⟩ := h
  have hstart : P (Device.init b uuid ⟨mem, []⟩).driver := hinit mem
  rw [hdriver]
  refine Mealy.after_invariant (M := b.machine) (P := fun d => P d.driver) (fun d r hd => ?_) hstart
    history
  rcases b.driver_request hblock d r with hsame | ⟨call, hcall⟩
  · rw [hsame]
    exact hd
  · rw [hcall]
    exact hstep _ call hd

theorem Lpc176x.inArea_of_reachable {rom : IapRom} {cfg : Config} (hrom : rom.Succeeds)
    (hcfg : IsBuild cfg) {d : Device FlashState Word} (h : (board rom cfg).Reachable d) :
    InArea cfg d.backend :=
  h.invariant (P := fun s => InArea cfg s.1) hcfg.block
    (fun _ => ⟨⟨List.length_replicate, .inl rfl⟩, rfl⟩) (inArea_step hrom hcfg)

theorem Rp2040.inArea_of_reachable {cfg : Config} (hcfg : IsBuild cfg) {d : Device FlashState Word}
    (h : (board cfg).Reachable d) : InArea cfg d.backend := by
  have hempty : ¬(FlashState.init cfg.blockSize).bufferNotEmpty = true := Bool.false_ne_true
  refine h.invariant (P := fun s => InArea cfg s.1) hcfg.block (fun _ => ?_) (inArea_step hcfg)
  refine ⟨?_, fun hne => absurd hne hempty, fun hne => absurd hne hempty,
    fun hne => absurd hne hempty⟩
  show (List.replicate (pageSize cfg.blockSize) (0 : Byte)).length = 256
  rw [List.length_replicate, hcfg.block]
  rfl

/-! ### Which states give the same sessions -/

/-- The drivers are the same as far as calls can see, over the flash content `mem`: the STM32 has
counted the same number of pages; the LPC176x is at the same stage of a unit; the RP2040 has pages
in its buffer that program the same. -/
def Mach.SameDriver : (m : Mach) → Mem → m.FlashState → m.FlashState → Prop
  | .stm32 _, _, st, st' => Stm32.FlashState.pageWriteCount st = Stm32.FlashState.pageWriteCount st'
  | .lpc1768, mem, st, st' | .lpc1769, mem, st, st' => Lpc176x.SameStage mem st st'
  | .rp2040, mem, st, st' | .rp2350, mem, st, st' => Rp2040.SamePage mem st st'

/-- **When `CONNECT` starts a clean session**: on every build, two reachable states of a device with
the same flash content are answered alike, and leave the same flash content behind, in every
sequence of requests from `CONNECT` on, exactly if their drivers are the same as far as calls can
see. -/
theorem connect_clean_iff (m : Mach) (hw : Hardware)
    (hrom : m = .lpc1768 ∨ m = .lpc1769 → hw.iap.Succeeds) {cfg : Config} (hcfg : cfg.IsBuildOf m)
    {d d' : Device m.FlashState Word} (h : (m.board hw cfg).Reachable d)
    (h' : (m.board hw cfg).Reachable d') (huuid : d.uuid = d'.uuid)
    (hmem : d.flash.mem = d'.flash.mem) :
    CleanSession (m.board hw cfg) d d' ↔ m.SameDriver d.flash.mem d.backend d'.backend := by
  have hblock : (m.board hw cfg).cfg.blockSize = 64 := hcfg.block
  have hend : (m.board hw cfg).cfg.flashEnd < 2 ^ 32 := hcfg.flashEnd_lt
  rw [cleanSession_iff hblock hend huuid]
  cases m with
  | stm32 chip => exact Stm32.indist_iff hcfg hmem
  | lpc1768 =>
      have hrom := hrom (.inl rfl)
      have hb : Lpc176x.IsBuild cfg := .inl hcfg
      exact Lpc176x.indist_iff hrom hb (Lpc176x.inArea_of_reachable hrom hb h)
        (Lpc176x.inArea_of_reachable hrom hb h') hmem
  | lpc1769 =>
      have hrom := hrom (.inr rfl)
      have hb : Lpc176x.IsBuild cfg := .inr hcfg
      exact Lpc176x.indist_iff hrom hb (Lpc176x.inArea_of_reachable hrom hb h)
        (Lpc176x.inArea_of_reachable hrom hb h') hmem
  | rp2040 =>
      have hb : Rp2040.IsBuild cfg := .inl hcfg
      exact Rp2040.indist_iff hb (Rp2040.inArea_of_reachable hb h) (Rp2040.inArea_of_reachable hb h') hmem
  | rp2350 =>
      have hb : Rp2040.IsBuild cfg := .inr hcfg
      exact Rp2040.indist_iff hb (Rp2040.inArea_of_reachable hb h) (Rp2040.inArea_of_reachable hb h') hmem

/-- A board of the shipped configuration that was asked for its state before. -/
theorem connect_clean_iff_steinzeit :
    CleanSession steinzeitBoard steinzeitDevice
      (serve steinzeitBoard steinzeitDevice [sendConnect 0]) := by
  have hstart : steinzeitBoard.Reachable steinzeitDevice := ⟨_, _, [], rfl⟩
  have hasked : steinzeitBoard.Reachable (serve steinzeitBoard steinzeitDevice [sendConnect 0]) :=
    ⟨_, _, [sendConnect 0], rfl⟩
  exact (connect_clean_iff (.stm32 .f103) ⟨64, Lpc176x.workingRom⟩
    (fun _ => Lpc176x.workingRom_succeeds) steinzeit_isBuildOf hstart hasked rfl rfl).mpr rfl

/-! ### An upload that was given up -/

theorem zeroBlock_length : (List.replicate 64 (0 : Byte)).length = 64 := List.length_replicate

/-- Such a board after the first block of an upload. -/
def abortedDevice : Device Stm32.FlashState Word :=
  serve steinzeitBoard steinzeitDevice
    [sendBlock 0 0x8002000 (List.replicate 64 0) zeroBlock_length]

/-- The same board after a reset. -/
def restartedDevice : Device Stm32.FlashState Word :=
  .init steinzeitBoard steinzeitDevice.uuid ⟨abortedDevice.flash.mem, []⟩

/-- The host gives an upload up after one block: a session on the running bootloader can be told
apart from one after a reset, by the number of pages in the answer to `SEND_EOF`. -/
theorem connect_not_clean :
    steinzeitBoard.Reachable restartedDevice ∧ steinzeitBoard.Reachable abortedDevice ∧
      restartedDevice.uuid = abortedDevice.uuid ∧
      restartedDevice.flash.mem = abortedDevice.flash.mem ∧
      ¬CleanSession steinzeitBoard restartedDevice abortedDevice := by
  have huuid : restartedDevice.uuid = abortedDevice.uuid :=
    (commandDispatch_sameEntry steinzeitBoard _ steinzeitDevice _ _).uuid.symm
  refine ⟨⟨_, _, [], rfl⟩, ⟨_, _, _, rfl⟩, huuid, rfl, fun h => ?_⟩
  have hindist : (Stm32.board .f103 64 steinzeit).flashMachine.Indist
      (restartedDevice.backend, restartedDevice.flash) (abortedDevice.backend, abortedDevice.flash) :=
    (cleanSession_iff rfl (by decide) huuid).mp h
  have hmem : restartedDevice.flash.mem = abortedDevice.flash.mem := rfl
  have hcount := (Stm32.indist_iff steinzeit_isBuildOf hmem).mp hindist
  -- the block has started a page
  have hcounted : abortedDevice.backend.pageWriteCount = 0 + 1 := by
    obtain ⟨hbackend, -⟩ := commandDispatch_sendBlock (b := steinzeitBoard) rfl steinzeitDevice 0
      (a := 0x8002000) (by decide) (by decide) zeroBlock_length
    refine (congrArg Stm32.FlashState.pageWriteCount hbackend).trans ?_
    refine Stm32.flashWriteBlock_counts steinzeitDevice.backend steinzeitDevice.flash (by decide)
      rfl (by decide) fun hread => ?_
    exact absurd (congrArg (fun l : List Byte => l.getD 0 0) hread) (by decide)
  exact absurd (hcount.trans hcounted) (by decide)

end Terraboot
