import Terraboot.FlashConfinement

/-!
# Uploads

What a host sends to store an image: the blocks of the image in order, each of them once or
more often in a row, and then `SEND_EOF`. The image is given by address, as are the times
at which the blocks arrive.

## Main results

* `commandDispatch_sendBlock`: a block is acknowledged exactly if the flash driver does not
  fail.
* `commandDispatch_sendEof`: likewise for the end of the upload.
-/

open LittleEndian NorFlash

namespace Terraboot

variable {S T : Type}

/-- A well-formed acknowledgement of a command. -/
def IsAck (cmd : Byte) (msg : List Byte) : Prop :=
  ∃ rest, IsFrame 0xa0 (le32 (cmd.setWidth 32) ++ rest) msg

/-- One acknowledgement is all a request gets. -/
def Acked (b : Board S T) (d : Device S T) (r : Request T) : Prop :=
  ∃ msg, (commandDispatch b r.now d r.buf r.msglen).2 = [msg] ∧ IsAck (r.buf.getD 2 0) msg

/-- Every request of a sequence is acknowledged. -/
def AllAcked (b : Board S T) : Device S T → List (Request T) → Prop
  | _, [] => True
  | d, r :: requests =>
      Acked b d r ∧ AllAcked b (commandDispatch b r.now d r.buf r.msglen).1 requests

/-- `SEND_BLOCK` -/
def sendBlock (now : T) (a : ℕ) (data : List Byte) (h : data.length = 64) : Request T :=
  .ofFrame now 0x12 (le32 (BitVec.ofNat 32 a) ++ data)
    (by rw [List.length_append, le32_length, h]; exact ⟨by decide, by decide⟩)

/-- `SEND_EOF` -/
def sendEof (now : T) : Request T := .ofFrame now 0x13 [] ⟨rfl, Nat.zero_le _⟩

/-- `CONNECT` -/
def sendConnect (now : T) : Request T := .ofFrame now 0x11 [] ⟨rfl, Nat.zero_le _⟩

/-- An upload of a number of 64-byte blocks. -/
structure Upload (T : Type) where
  /-- The content the host wants to store, by address. -/
  image : Mem
  blocks : ℕ
  /-- When the block for an address is delivered for the first time. -/
  first : ℕ → T
  /-- When it is delivered again. -/
  again : ℕ → List T
  eof : T

namespace Upload

variable (u : Upload T)

/-- The block for an address. -/
def block (a : ℕ) : List Byte := read u.image a 64

@[simp] theorem block_length (a : ℕ) : (u.block a).length = 64 := read_length _ _ _

/-- All deliveries of the block for an address. -/
def deliveries (a : ℕ) : List (Request T) :=
  (u.first a :: u.again a).map fun t => sendBlock t a (u.block a) (u.block_length a)

/-- The deliveries of the first blocks from an address on. -/
def sendBlocks (a : ℕ) : ℕ → List (Request T)
  | 0 => []
  | k + 1 => u.deliveries a ++ sendBlocks (a + 64) k

/-- All requests of an upload to an address. -/
def requests (a : ℕ) : List (Request T) := u.sendBlocks a u.blocks ++ [sendEof u.eof]

end Upload

/-! ### Sequences -/

theorem serve_append (b : Board S T) (d : Device S T) (rs rs' : List (Request T)) :
    serve b d (rs ++ rs') = serve b (serve b d rs) rs' :=
  List.foldl_append

theorem allAcked_append (b : Board S T) (d : Device S T) (rs rs' : List (Request T)) :
    AllAcked b d (rs ++ rs') ↔ AllAcked b d rs ∧ AllAcked b (serve b d rs) rs' := by
  induction rs generalizing d with
  | nil => exact (iff_of_eq (true_and _)).symm
  | cons r rs ih =>
      rw [List.cons_append, AllAcked, AllAcked, ih, and_assoc, serve_cons]

theorem allAcked_singleton (b : Board S T) (d : Device S T) (r : Request T) :
    AllAcked b d [r] ↔ Acked b d r :=
  iff_of_eq (and_true _)

/-! ### One request -/

theorem not_isAck_error (cmd : Byte) : ¬IsAck cmd commandRespondCommandError := by
  rintro ⟨rest, h⟩
  have hlen := h.length_eq
  rw [commandRespondCommandError_eq, frame_length, List.length_append, le32_length,
    List.length_nil] at hlen
  omega

theorem isAck_commandRespondAck {out : List Byte} {n : ℕ} (cmd : Byte) (h3 : 3 ≤ n)
    (h : n - 2 < 256) (hn : 4 * n ≤ out.length) :
    IsAck cmd (commandRespondAck (cmd.setWidth 32) out n) := by
  refine ((isResponseTo_commandRespondAck_iff cmd h3 hn).mpr h).resolve_left fun herror => ?_
  have hbytes := herror.bytes
  rw [commandRespondAck_eq _ h3 hn] at hbytes
  have hcmd : (0xa0 : Byte) = 0xf2 := congrArg (fun msg : List Byte => msg.getD 2 0) hbytes
  exact absurd hcmd (by decide)

/-- An answer according to a driver's result is an acknowledgement unless that is negative. -/
theorem isAck_answer_iff (cmd : Byte) (w : Word) (ret : ℤ) :
    (∃ msg, [if ret < 0 then commandRespondCommandError
        else commandRespondAck (cmd.setWidth 32) (setWord (wordArray 4) 2 w) 4] = [msg] ∧
      IsAck cmd msg) ↔ 0 ≤ ret := by
  constructor
  · rintro ⟨msg, hmsg, hack⟩
    by_contra hret
    rw [if_pos (Int.not_le.mp hret)] at hmsg
    obtain rfl := List.singleton_inj.mp hmsg
    exact not_isAck_error _ hack
  · intro hret
    rw [if_neg (Int.not_lt.mpr hret)]
    exact ⟨_, rfl, isAck_commandRespondAck cmd (by omega) (by omega) (by
      rw [setWord_wordArray_length (by omega)])⟩

/-- What the handler reads of a `SEND_BLOCK` frame. -/
theorem sendBlock_fields (w : Word) {data : List Byte} (h : data.length = 64) :
    commandGetArgCount (frame 0x12 (le32 w ++ data)) = 64 / 4 + 1 ∧
      getWord (frame 0x12 (le32 w ++ data)) 1 = w ∧
      ((frame 0x12 (le32 w ++ data)).drop 8).take 64 = data := by
  have hcount : wordCount (le32 w ++ data) = 17 := by
    rw [wordCount, List.length_append, le32_length, h]
    rfl
  obtain ⟨tail, htail⟩ : ∃ tail, frame 0x12 (le32 w ++ data) =
      [messageStx1, messageStx2, 0x12, 17] ++ (le32 w ++ (data ++ tail)) :=
    ⟨le16 (crc16Ccitt (0x12 :: wordCount (le32 w ++ data) :: (le32 w ++ data)))
      ++ [messageSync2, messageSync], by simp only [frame, hcount, List.append_assoc]⟩
  have hhead : ([messageStx1, messageStx2, 0x12, 17] : List Byte).length = 4 := rfl
  have haddr : ([messageStx1, messageStx2, 0x12, 17] ++ le32 w).length = 8 := rfl
  have hword : getWord ([messageStx1, messageStx2, 0x12, 17] ++ (le32 w ++ (data ++ tail))) 0 =
      0x11128801 := by
    have hle : ([messageStx1, messageStx2, 0x12, 17] : List Byte) = le32 0x11128801 := by decide
    rw [getWord, Nat.mul_zero, List.drop_zero, hle, ofLe32_le32_append]
  rw [htail, commandGetArgCount, hword]
  refine ⟨rfl, ?_, ?_⟩
  · rw [getWord, List.drop_left' hhead, ofLe32_le32_append]
  · rw [← List.append_assoc, List.drop_left' haddr, ← h, List.take_left]

/-- A block in range is handed to the driver, and answered according to its result. -/
theorem commandDispatch_sendBlock_eq {b : Board S T} (hblock : b.cfg.blockSize = 64)
    (d : Device S T) (now : T) {a : ℕ} (ha : a < 2 ^ 32)
    (hrange : flashcmdBlockInRange b.cfg a = true) {data : List Byte} (h : data.length = 64)
    {ret : ℤ} {st : S} {f : Flash}
    (hwrite : b.backend.flashWriteBlock d.backend d.flash a data = (ret, st, f)) :
    ∃ total, commandDispatch b now d (sendBlock now a data h).buf (sendBlock now a data h).msglen =
      ({ d with
        isInTransfer := true
        totalBytesWritten := total
        backend := st
        flash := f }, [if ret < 0 then commandRespondCommandError
          else commandRespondAck cmdRxBlock
            (setWord (wordArray 4) 2 (BitVec.ofNat 32 a)) 4]) := by
  obtain ⟨hcount, haddr, hdata⟩ := sendBlock_fields (BitVec.ofNat 32 a) h
  have hnat : (BitVec.ofNat 32 a).toNat = a := by rw [BitVec.toNat_ofNat, Nat.mod_eq_of_lt ha]
  have hdispatch : commandDispatch b now d (sendBlock now a data h).buf
      (sendBlock now a data h).msglen =
      commandWriteBlock b d (frame 0x12 (le32 (BitVec.ofNat 32 a) ++ data)) :=
    commandDispatch_writeBlock b now d _
  have hwrite' : b.backend.flashWriteBlock d.backend d.flash
      (getWord (frame 0x12 (le32 (BitVec.ofNat 32 a) ++ data)) 1).toNat
      (((frame 0x12 (le32 (BitVec.ofNat 32 a) ++ data)).drop 8).take b.cfg.blockSize) =
      (ret, st, f) := by
    rw [haddr, hnat, hblock, hdata]
    exact hwrite
  rw [← hnat, ← haddr] at hrange
  obtain ⟨total, hresult⟩ := commandWriteBlock_of_inRange (by rw [hcount, hblock]) hrange hwrite'
  rw [haddr] at hresult
  exact ⟨total, hdispatch.trans hresult⟩

/-- **A block in range is acknowledged exactly if the flash driver does not fail.** -/
theorem commandDispatch_sendBlock {b : Board S T} (hblock : b.cfg.blockSize = 64)
    (d : Device S T) (now : T) {a : ℕ} (ha : a < 2 ^ 32)
    (hrange : flashcmdBlockInRange b.cfg a = true) {data : List Byte} (h : data.length = 64) :
    (commandDispatch b now d (sendBlock now a data h).buf (sendBlock now a data h).msglen).1.backend
        = (b.backend.flashWriteBlock d.backend d.flash a data).2.1 ∧
      (commandDispatch b now d (sendBlock now a data h).buf
          (sendBlock now a data h).msglen).1.flash =
        (b.backend.flashWriteBlock d.backend d.flash a data).2.2 ∧
      (Acked b d (sendBlock now a data h) ↔
        0 ≤ (b.backend.flashWriteBlock d.backend d.flash a data).1) := by
  obtain ⟨ret, st, f, hwrite⟩ : ∃ ret st f,
      b.backend.flashWriteBlock d.backend d.flash a data = (ret, st, f) := ⟨_, _, _, rfl⟩
  obtain ⟨total, hresult⟩ := commandDispatch_sendBlock_eq hblock d now ha hrange h hwrite
  have hcmd : (sendBlock now a data h).buf.getD 2 0 = 0x12 := rfl
  have htime : (sendBlock now a data h).now = now := rfl
  rw [Acked, htime, hcmd, hresult, hwrite]
  exact ⟨rfl, rfl, isAck_answer_iff 0x12 _ ret⟩

/-- The end of an upload is answered according to the driver's result. -/
theorem commandDispatch_sendEof_eq (b : Board S T) (d : Device S T) (now : T) :
    ∃ ret st f, b.backend.flashComplete d.backend d.flash = (ret, st, f) ∧
      commandDispatch b now d (sendEof now).buf (sendEof now).msglen =
        ({ d with isInTransfer := false, backend := st, flash := f },
          [if ret < 0 then commandRespondCommandError
            else commandRespondAck cmdRxEof (setWord (wordArray 4) 2 (BitVec.ofInt 32 ret)) 4]) := by
  have hdispatch : commandDispatch b now d (sendEof now).buf (sendEof now).msglen =
      commandEof b d := commandDispatch_eof b now d
  rw [hdispatch]
  exact commandEof_cases b d

/-- **The end of an upload is acknowledged exactly if the flash driver does not fail.** -/
theorem commandDispatch_sendEof (b : Board S T) (d : Device S T) (now : T) :
    (commandDispatch b now d (sendEof now).buf (sendEof now).msglen).1.backend =
        (b.backend.flashComplete d.backend d.flash).2.1 ∧
      (commandDispatch b now d (sendEof now).buf (sendEof now).msglen).1.flash =
        (b.backend.flashComplete d.backend d.flash).2.2 ∧
      (Acked b d (sendEof now) ↔ 0 ≤ (b.backend.flashComplete d.backend d.flash).1) := by
  obtain ⟨ret, st, f, hcomplete, hresult⟩ := commandDispatch_sendEof_eq b d now
  have hcmd : (sendEof now : Request T).buf.getD 2 0 = 0x13 := rfl
  have htime : (sendEof now : Request T).now = now := rfl
  rw [Acked, htime, hcmd, hresult, hcomplete]
  exact ⟨rfl, rfl, isAck_answer_iff 0x13 _ ret⟩

end Terraboot
