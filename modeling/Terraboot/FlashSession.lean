import Terraboot.Mealy
import Terraboot.Upload

/-!
# Sessions with a Flash Driver

What the answers to requests can depend on besides the flash content: the device answers
requests, and asks its flash driver for writes and completions while it does so. Both are
machines that answer, and the second is seen through the first.

## Main results

* `indist_iff_flashMachine`: two states of a device with the same UUID can be told apart by
  requests exactly if their flash drivers can be told apart by calls.
* `cleanSession_iff`: likewise for sequences of requests that begin with `CONNECT`.
-/

open LittleEndian NorFlash

namespace Terraboot

variable {S T : Type}

/-- The calls of a flash driver that the command handlers make. -/
inductive FlashCall (cfg : Config)
  | write (block : ℕ) (data : List Byte) (hrange : flashcmdBlockInRange cfg block = true)
      (hdata : data.length = 64)
  | complete

/-- A flash driver and the flash as a machine; a negative result is answered by nothing. -/
def Board.flashMachine (b : Board S T) : Mealy (S × Flash) (FlashCall b.cfg) (Option Word) Mem where
  step
    | (st, f), .write block data _ _ => (b.backend.flashWriteBlock st f block data).2
    | (st, f), .complete => (b.backend.flashComplete st f).2
  output
    | (st, f), .write block data _ _ =>
        if (b.backend.flashWriteBlock st f block data).1 < 0 then none else some 0
    | (st, f), .complete =>
        if (b.backend.flashComplete st f).1 < 0 then none
        else some (BitVec.ofInt 32 (b.backend.flashComplete st f).1)
  view s := s.2.mem

/-- The device as a machine: requests, responses and the flash content. -/
def Board.machine (b : Board S T) : Mealy (Device S T) (Request T) (List (List Byte)) Mem where
  step d r := (commandDispatch b r.now d r.buf r.msglen).1
  output d r := (commandDispatch b r.now d r.buf r.msglen).2
  view d := d.flash.mem

/-- Every sequence of requests that begins with `CONNECT` is answered the same way in both states
and leaves the same flash content behind. -/
def CleanSession (b : Board S T) (d d' : Device S T) : Prop :=
  ∀ (connect : Request T) (requests : List (Request T)), connect.buf.getD 2 0 = 0x11 →
    b.machine.outputs d (connect :: requests) = b.machine.outputs d' (connect :: requests) ∧
    b.machine.view (b.machine.after d (connect :: requests)) =
      b.machine.view (b.machine.after d' (connect :: requests))

/-- The driver and the flash of a device. -/
def Device.driver (d : Device S T) : S × Flash := (d.backend, d.flash)

/-- The first block of the application area is in range. -/
theorem launch_inRange {cfg : Config} {m : Mach} (h : cfg.IsBuildOf m) :
    flashcmdBlockInRange cfg cfg.launchAppAddress = true :=
  (h.inRange_iff _).mpr ⟨le_rfl, h.launch_add_le⟩

/-- Some block is not what is in the flash. -/
theorem exists_read_ne (m : Mem) (a : ℕ) {n : ℕ} (hn : 0 < n) :
    ∃ data : List Byte, data.length = n ∧ data ≠ read m a n := by
  refine ⟨List.replicate n (m a + 1), List.length_replicate, fun h => ?_⟩
  have hfirst := congrArg (fun l : List Byte => l.getD 0 0) h
  rw [read_getD m a hn, List.getD_eq_getElem _ _ (by rw [List.length_replicate]; exact hn),
    List.getElem_replicate] at hfirst
  simp at hfirst

/-- The answer to a completion shows a count of zero. -/
theorem ofInt_result_zero {c : Word}
    (h : (if (0 : Word).toInt < 0 then none else some (BitVec.ofInt 32 (0 : Word).toInt)) =
      if c.toInt < 0 then none else some (BitVec.ofInt 32 c.toInt)) : c = 0 := by
  rw [if_neg (by decide)] at h
  split_ifs at h
  rw [BitVec.ofInt_toInt, BitVec.ofInt_toInt] at h
  exact (Option.some.inj h).symm

/-! ### Answers -/

/-- What the answer to `SEND_BLOCK` says about the driver's result. -/
def blockResult (out : List (List Byte)) : Option Word :=
  if out = [commandRespondCommandError] then none else some 0

/-- What the answer to `SEND_EOF` says about the driver's result. -/
def eofResult (out : List (List Byte)) : Option Word :=
  if out = [commandRespondCommandError] then none else some (getWord (out.headD []) 2)

theorem wordArray_four (w : Word) : setWord (wordArray 4) 2 w = wordArray 2 ++ le32 w ++ wordArray 1 := by
  have hlen : 4 * 2 = (wordArray 2).length := rfl
  exact setWord_replicate (k := 8) w hlen (by omega)

/-- The acknowledgement of a block and of the end of an upload. -/
theorem commandRespondAck_four (cmd w : Word) :
    commandRespondAck cmd (setWord (wordArray 4) 2 w) 4 = frame 0xa0 (le32 cmd ++ le32 w) := by
  rw [commandRespondAck_eq cmd (by omega) (by
    rw [setWord_wordArray_length (by omega)]), wordArray_four]
  rfl

theorem commandRespondAck_four_ne_error (cmd w : Word) :
    commandRespondAck cmd (setWord (wordArray 4) 2 w) 4 ≠ commandRespondCommandError := by
  rw [commandRespondAck_four, commandRespondCommandError_eq]
  intro h
  have hcmd : (0xa0 : Byte) = 0xf2 := congrArg (fun msg : List Byte => msg.getD 2 0) h
  exact absurd hcmd (by decide)

theorem blockResult_ack (cmd w : Word) :
    blockResult [commandRespondAck cmd (setWord (wordArray 4) 2 w) 4] = some 0 :=
  if_neg fun h => commandRespondAck_four_ne_error cmd w (List.singleton_inj.mp h)

/-- The second word behind the header of a frame. -/
theorem getWord_frame_two (cmd : Byte) (v w : Word) : getWord (frame cmd (le32 v ++ le32 w)) 2 = w := by
  obtain ⟨head, tail, hhead, hframe⟩ : ∃ head tail : List Byte, head.length = 8 ∧
      frame cmd (le32 v ++ le32 w) = head ++ (le32 w ++ tail) :=
    ⟨[messageStx1, messageStx2, cmd, wordCount (le32 v ++ le32 w)] ++ le32 v, _, rfl,
      by simp only [frame, List.append_assoc]; rfl⟩
  rw [hframe, getWord, List.drop_left' hhead, ofLe32_le32_append]

theorem eofResult_ack (cmd w : Word) :
    eofResult [commandRespondAck cmd (setWord (wordArray 4) 2 w) 4] = some w := by
  rw [eofResult, if_neg fun h => commandRespondAck_four_ne_error cmd w (List.singleton_inj.mp h),
    List.headD_cons, commandRespondAck_four, getWord_frame_two]

/-! ### Requests that make a call -/

theorem Device.driver_sendBlock {b : Board S T} (hblock : b.cfg.blockSize = 64)
    (hend : b.cfg.flashEnd < 2 ^ 32) (d : Device S T) (now : T) {a : ℕ}
    (hrange : flashcmdBlockInRange b.cfg a = true) {data : List Byte} (hdata : data.length = 64) :
    (b.machine.step d (sendBlock now a data hdata)).driver =
        b.flashMachine.step d.driver (.write a data hrange hdata) ∧
      b.flashMachine.output d.driver (.write a data hrange hdata) =
        blockResult (b.machine.output d (sendBlock now a data hdata)) := by
  have ha : a < 2 ^ 32 := by
    rw [flashcmdBlockInRange] at hrange
    split_ifs at hrange with hlo hhi
    omega
  obtain ⟨ret, st, f, hwrite⟩ : ∃ ret st f,
      b.backend.flashWriteBlock d.backend d.flash a data = (ret, st, f) := ⟨_, _, _, rfl⟩
  have htime : (sendBlock now a data hdata).now = now := rfl
  obtain ⟨total, hresult⟩ := commandDispatch_sendBlock_eq hblock d now ha hrange hdata hwrite
  simp only [Board.machine, Board.flashMachine, Device.driver, htime, hresult, hwrite, true_and]
  split_ifs
  · rfl
  · exact (blockResult_ack _ _).symm

theorem Device.driver_sendEof (b : Board S T) (d : Device S T) (now : T) :
    (b.machine.step d (sendEof now)).driver = b.flashMachine.step d.driver .complete ∧
      b.flashMachine.output d.driver .complete = eofResult (b.machine.output d (sendEof now)) := by
  have htime : (sendEof now : Request T).now = now := rfl
  obtain ⟨ret, st, f, hcomplete, hresult⟩ := commandDispatch_sendEof_eq b d now
  simp only [Board.machine, Board.flashMachine, Device.driver, htime, hresult, hcomplete, true_and]
  split_ifs
  · rfl
  · exact (eofResult_ack _ _).symm

/-! ### All requests -/

/-- `command_get_arg_count` is the byte at offset 3. -/
theorem commandGetArgCount_eq (data : List Byte) :
    commandGetArgCount data = (data.getD 3 0).toNat := by
  have hshift : getWord data 0 >>> 24 = (data.getD 3 0).setWidth 32 := by
    rw [getWord, Nat.mul_zero, List.drop_zero, ofLe32]
    generalize data.getD 0 0 = b₀
    generalize data.getD 1 0 = b₁
    generalize data.getD 2 0 = b₂
    generalize data.getD 3 0 = b₃
    refine BitVec.eq_of_getLsbD_eq fun i hi => ?_
    simp only [BitVec.getLsbD_ushiftRight, BitVec.getLsbD_append, BitVec.getLsbD_setWidth]
    grind
  rw [commandGetArgCount, hshift, BitVec.toNat_setWidth, Nat.mod_eq_of_lt]
  exact lt_trans (BitVec.isLt _) (by decide)

/-- A request with the right number of arguments carries a whole block. -/
theorem Request.block_length (r : Request T)
    (h : commandGetArgCount (r.buf.take r.msglen) = 64 / 4 + 1) :
    (((r.buf.take r.msglen).drop 8).take 64).length = 64 := by
  obtain ⟨hlen, -, hle, -⟩ := blockVerdict_accept r.accepted
  have hthree : (r.buf.take r.msglen).getD 3 0 = r.buf.getD 3 0 := by
    rw [List.getD_eq_getElem?_getD, List.getElem?_take_of_lt (by omega),
      ← List.getD_eq_getElem?_getD]
  rw [commandGetArgCount_eq, hthree] at h
  rw [List.length_take, List.length_drop, List.length_take]
  omega

/-- Two states of a device whose drivers cannot be told apart. -/
structure Agree (b : Board S T) (d d' : Device S T) : Prop where
  uuid : d.uuid = d'.uuid
  driver : b.flashMachine.Indist d.driver d'.driver

section Requests

variable {b : Board S T} {d d' : Device S T}

theorem Agree.mem (h : Agree b d d') : d.flash.mem = d'.flash.mem := h.driver.view

theorem Agree.commandConnect (h : Agree b d d') :
    (commandConnect b d).2 = (commandConnect b d').2 ∧
      Agree b (commandConnect b d).1 (commandConnect b d').1 := by
  rw [Terraboot.commandConnect, Terraboot.commandConnect]
  dsimp only
  rw [h.mem]
  exact ⟨rfl, h.uuid, h.driver⟩

theorem Agree.commandReadBlock (h : Agree b d d') (data : List Byte) :
    (commandReadBlock b d data).2 = (commandReadBlock b d' data).2 ∧
      Agree b (commandReadBlock b d data).1 (commandReadBlock b d' data).1 := by
  rw [Terraboot.commandReadBlock, Terraboot.commandReadBlock]
  dsimp only
  rw [h.mem]
  split_ifs
  · exact ⟨rfl, h.uuid, h.driver⟩
  · exact ⟨rfl, h.uuid, h.driver⟩

theorem Agree.commandEof (h : Agree b d d') :
    (commandEof b d).2 = (commandEof b d').2 ∧
      Agree b (commandEof b d).1 (commandEof b d').1 := by
  have hout := h.driver.output .complete
  have hstep := h.driver.step .complete
  obtain ⟨ret, st, f, hcomplete, heof⟩ := commandEof_cases b d
  obtain ⟨ret', st', f', hcomplete', heof'⟩ := commandEof_cases b d'
  simp only [Board.flashMachine, Device.driver, hcomplete, hcomplete'] at hout hstep
  rw [heof, heof']
  refine ⟨?_, h.uuid, hstep⟩
  -- the results are both negative, or the same
  split_ifs at hout ⊢ with hret hret'
  · rfl
  · rw [Option.some.inj hout]

theorem Agree.commandWriteBlock (h : Agree b d d') (hblock : b.cfg.blockSize = 64) (r : Request T) :
    (commandWriteBlock b d (r.buf.take r.msglen)).2 =
        (commandWriteBlock b d' (r.buf.take r.msglen)).2 ∧
      Agree b (commandWriteBlock b d (r.buf.take r.msglen)).1
        (commandWriteBlock b d' (r.buf.take r.msglen)).1 := by
  have hlen := r.block_length
  generalize r.buf.take r.msglen = data at *
  by_cases hok : commandGetArgCount data = b.cfg.blockSize / 4 + 1 ∧
      flashcmdBlockInRange b.cfg (getWord data 1).toNat = true
  swap
  · rw [commandWriteBlock_of_refused d hok, commandWriteBlock_of_refused d' hok]
    exact ⟨rfl, h.uuid, h.driver⟩
  obtain ⟨hcount, hrange⟩ := hok
  have hdata : ((data.drop 8).take b.cfg.blockSize).length = 64 := by
    rw [hblock] at hcount ⊢
    exact hlen hcount
  have hout := h.driver.output (.write _ _ hrange hdata)
  have hstep := h.driver.step (.write _ _ hrange hdata)
  obtain ⟨total, hd⟩ := commandWriteBlock_of_inRange (d := d) hcount hrange rfl
  obtain ⟨total', hd'⟩ := commandWriteBlock_of_inRange (d := d') hcount hrange rfl
  simp only [Board.flashMachine, Device.driver] at hout hstep
  rw [hd, hd']
  refine ⟨?_, h.uuid, hstep⟩
  -- the signs of the two results are the same
  split_ifs at hout ⊢ with hret hret'
  · rfl
  · rfl

theorem Agree.dispatchIdentify (h : Agree b d d') (now : T) (data : List Byte) :
    (dispatchIdentify b now d data).2 = (dispatchIdentify b now d' data).2 ∧
      Agree b (dispatchIdentify b now d data).1 (dispatchIdentify b now d' data).1 := by
  rw [Terraboot.dispatchIdentify, Terraboot.dispatchIdentify]
  split_ifs
  · exact ⟨rfl, h.uuid, h.driver⟩
  · exact ⟨rfl, h.uuid, h.driver⟩

/-- **A request is answered the same way where the drivers cannot be told apart**, and they cannot
be told apart afterwards. -/
theorem Agree.request (h : Agree b d d') (hblock : b.cfg.blockSize = 64) (r : Request T) :
    b.machine.output d r = b.machine.output d' r ∧
      Agree b (b.machine.step d r) (b.machine.step d' r) := by
  simp only [Board.machine]
  rw [commandDispatch_eq b r.now d r.buf r.msglen rfl,
    commandDispatch_eq b r.now d' r.buf r.msglen rfl]
  split_ifs
  · exact h.commandConnect
  · exact h.commandWriteBlock hblock r
  · exact h.commandEof
  · exact h.commandReadBlock _
  · exact ⟨rfl, h.uuid, h.driver⟩
  · refine ⟨?_, h.uuid, h.driver⟩
    rw [commandGetCanbusId, commandGetCanbusId, h.uuid]
  · exact h.dispatchIdentify _ _
  · exact h.dispatchIdentify _ _
  · exact ⟨rfl, h.uuid, h.driver⟩

end Requests

/-- **Two states of a device with the same UUID can be told apart by requests exactly if their
flash drivers can be told apart by calls.** -/
theorem indist_iff_flashMachine {b : Board S T} (hblock : b.cfg.blockSize = 64)
    (hend : b.cfg.flashEnd < 2 ^ 32) {d d' : Device S T} (huuid : d.uuid = d'.uuid) :
    b.machine.Indist d d' ↔ b.flashMachine.Indist d.driver d'.driver := by
  constructor
  · refine fun h => h.map Device.driver (fun _ => rfl) fun call => ?_
    cases call with
    | write a data hrange hdata =>
        exact ⟨sendBlock b.timer.zero a data hdata, blockResult,
          fun d => d.driver_sendBlock hblock hend b.timer.zero hrange hdata⟩
    | complete => exact ⟨sendEof b.timer.zero, eofResult, fun d => d.driver_sendEof b b.timer.zero⟩
  · exact fun h => Mealy.indist_of_bisim (R := Agree b) (fun _ _ hR => hR.mem)
      (fun _ _ r hR => (hR.request hblock r).1) (fun _ _ r hR => (hR.request hblock r).2) ⟨huuid, h⟩

/-- `CONNECT` leaves the driver alone. -/
theorem Board.machine_connect (b : Board S T) (d : Device S T) (now : T) :
    b.machine.step d (sendConnect now) = (commandConnect b d).1 :=
  congrArg Prod.fst (commandDispatch_connect b now d)

/-- **When `CONNECT` starts a clean session**: exactly if the flash drivers cannot be told apart. -/
theorem cleanSession_iff {b : Board S T} (hblock : b.cfg.blockSize = 64)
    (hend : b.cfg.flashEnd < 2 ^ 32) {d d' : Device S T} (huuid : d.uuid = d'.uuid) :
    CleanSession b d d' ↔ b.flashMachine.Indist d.driver d'.driver := by
  constructor
  · intro h
    have hstep := ((Mealy.indist_cons_iff (sendConnect b.timer.zero)).mp
      fun w => h (sendConnect b.timer.zero) w rfl).2
    rw [b.machine_connect, b.machine_connect, indist_iff_flashMachine hblock hend] at hstep
    · exact hstep
    · exact huuid
  · intro h connect requests _
    exact (indist_iff_flashMachine hblock hend huuid).mpr h (connect :: requests)

end Terraboot
