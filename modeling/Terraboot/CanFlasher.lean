import Terraboot.FlashTool
import Terraboot.Interact

/-!
# Sending and Verifying a File

`send_command`, `send_file` and `verify_file` of the class `CanFlasher` in `scripts/flashtool.py`,
as programs that write frames to a node and read frames from it. Python's exceptions are what the
programs raise. A node is read frame by frame; that the loop of `send_command` takes whole frames
off the stream is shown on the bytes. The progress bar and the log are left out.

## Main results

* `CanFlasher.buildCommand_eq`: the host builds the frames of the protocol.
* `CanFlasher.readLoop_frame`: the reading loop takes one frame off the stream.
* `CanFlasher.checkResponse_frame`: the frames that are accepted as the answer to a command.
-/

open LittleEndian

namespace Terraboot

/-- The fields of a `CanFlasher`. Of `fw_sha` the bytes it was updated with are kept. -/
structure CanFlasher where
  primed : Bool
  fwSha : List Byte
  blockCount : ℕ
  appStartAddr : ℕ
  blockSize : ℕ

namespace CanFlasher

/-! ### Frames -/

/-- `CMD_HEADER` -/
def cmdHeader : List Byte := [0x01, 0x88]

/-- `CMD_TRAILER` -/
def cmdTrailer : List Byte := [0x99, 0x03]

def ackSuccess : Byte := 0xa0
def ackError : Byte := 0xf2
def ackBusy : Byte := 0xf3

/-- The commands of `BOOTLOADER_CMDS` that a transfer sends. -/
inductive Command
  | sendBlock | sendEof | requestBlock
  deriving DecidableEq, Repr

def Command.code : Command → Byte
  | .sendBlock => 0x12
  | .sendEof => 0x13
  | .requestBlock => 0x14

/-- The loop body of `crc16_ccitt`. -/
def crc16Step (crc : BitVec 16) (data : Byte) : BitVec 16 :=
  let data := data ^^^ crc.setWidth 8
  let data := data ^^^ ((data &&& 0x0f) <<< 4)
  (((data.setWidth 16 <<< 8) ||| (crc >>> 8)) ^^^ (data.setWidth 16 >>> 4))
    ^^^ (data.setWidth 16 <<< 3)

/-- `crc16_ccitt` -/
def crc16Ccitt (buf : List Byte) : BitVec 16 := buf.foldl crc16Step 0xffff

/-- `_build_command` -/
def buildCommand (cmd : Byte) (payload : List Byte) : List Byte :=
  let wordCnt := BitVec.ofNat 8 (payload.length / 4)
  let outCmd := cmdHeader ++ [cmd, wordCnt] ++ payload
  outCmd ++ le16 (crc16Ccitt (outCmd.drop 2)) ++ cmdTrailer

theorem crc16Step_eq (crc : BitVec 16) (data : Byte) :
    crc16Step crc data = Terraboot.crc16Step crc data := by
  -- what the mask takes away is shifted out anyway
  have hmask : ∀ j < 4, (0x0f : Byte).getLsbD j = true := by decide
  have hnibble : ∀ x : Byte, (x &&& 0x0f) <<< 4 = x <<< 4 := by
    intro x
    refine BitVec.eq_of_getLsbD_eq fun i hi => ?_
    have hbit := hmask (i - 4) (by omega)
    simp only [BitVec.getLsbD_shiftLeft, BitVec.getLsbD_and, hbit, Bool.and_true]
  have hshift : ∀ x : Byte, (x >>> 4).setWidth 16 = x.setWidth 16 >>> 4 := by
    intro x
    refine BitVec.eq_of_getLsbD_eq fun i hi => ?_
    simp only [BitVec.getLsbD_ushiftRight, BitVec.getLsbD_setWidth]
    grind
  rw [crc16Step, Terraboot.crc16Step, hnibble, hshift]

/-- **Host and device compute the same checksum.** -/
theorem crc16Ccitt_eq (buf : List Byte) : crc16Ccitt buf = Terraboot.crc16Ccitt buf := by
  rw [crc16Ccitt, Terraboot.crc16Ccitt, funext₂ crc16Step_eq]

/-- **The host builds the frames of the protocol.** -/
theorem buildCommand_eq (cmd : Byte) (payload : List Byte) :
    buildCommand cmd payload = frame cmd payload := by
  rw [buildCommand, crc16Ccitt_eq, frame, wordCount]
  rfl

/-! ### Reading a frame -/

/-- `StreamReader.readuntil(CMD_TRAILER)` on the bytes that have arrived: what it returns, and what
it leaves. -/
def readuntil : List Byte → Option (List Byte × List Byte)
  | a :: b :: rest =>
      if [a, b] = cmdTrailer then some ([a, b], rest)
      else (readuntil (b :: rest)).map fun r => (a :: r.1, r.2)
  | _ => none

/-- Bytes are taken off the front until a header stands there, or no frame fits any more. -/
def skipToHeader : List Byte → List Byte
  | [] => []
  | x :: data =>
      if 7 < (x :: data).length ∧ (x :: data).take 2 ≠ cmdHeader then skipToHeader data
      else x :: data

/-- The test that sets `read_done`. -/
def ReadDone (data : List Byte) : Prop :=
  7 < data.length ∧ data.length = (data.getD 3 0).toNat * 4 + 8

instance (data : List Byte) : Decidable (ReadDone data) := inferInstanceAs (Decidable (_ ∧ _))

theorem readuntil_append {rx chunk rest : List Byte} (h : readuntil rx = some (chunk, rest)) :
    rx = chunk ++ rest ∧ ∃ pre, chunk = pre ++ cmdTrailer := by
  induction rx using readuntil.induct generalizing chunk rest with
  | case1 a b r htrailer =>
      rw [readuntil, if_pos htrailer] at h
      obtain ⟨rfl, rfl⟩ := Prod.mk.inj (Option.some.inj h)
      exact ⟨rfl, [], htrailer⟩
  | case2 a b r htrailer ih =>
      rw [readuntil, if_neg htrailer, Option.map_eq_some_iff] at h
      obtain ⟨⟨chunk', rest'⟩, hread, heq⟩ := h
      obtain ⟨rfl, rfl⟩ := Prod.mk.inj heq
      obtain ⟨happend, pre, hpre⟩ := ih hread
      exact ⟨by rw [happend, List.cons_append], a :: pre, by rw [hpre, List.cons_append]⟩
  | case3 rx hshort =>
      cases rx with
      | nil => exact absurd h nofun
      | cons a rx =>
          cases rx with
          | nil => exact absurd h nofun
          | cons b r => exact absurd rfl (hshort a b r)

theorem readuntil_length_lt {rx chunk rest : List Byte} (h : readuntil rx = some (chunk, rest)) :
    rest.length < rx.length := by
  obtain ⟨happend, pre, hpre⟩ := readuntil_append h
  have htrailer : cmdTrailer.length = 2 := rfl
  rw [happend, hpre, List.length_append, List.length_append]
  omega

/-- The loop that collects a response, on the bytes that have arrived: the response and what is
left, or nothing if the loop still waits. -/
def readLoop (data rx : List Byte) : Option (List Byte × List Byte) :=
  match _h : readuntil rx with
  | none => none
  | some (ret, rest) =>
      let data := skipToHeader (data ++ ret)
      if ReadDone data then some (data, rest) else readLoop data rest
termination_by rx.length
decreasing_by
  exact readuntil_length_lt ‹_›

theorem readLoop_of_readuntil {rx ret rest : List Byte} (h : readuntil rx = some (ret, rest))
    (data : List Byte) : readLoop data rx =
      if ReadDone (skipToHeader (data ++ ret)) then some (skipToHeader (data ++ ret), rest)
      else readLoop (skipToHeader (data ++ ret)) rest := by
  rw [readLoop]
  split
  · rename_i hnone
    exact absurd (h.symm.trans hnone) nofun
  · rename_i ret' rest' hsome
    obtain ⟨rfl, rfl⟩ := Prod.mk.inj (Option.some.inj (h.symm.trans hsome))
    rfl

/-- A trailer is found in the bytes that end in one. -/
theorem readuntil_of_trailer (pre rest : List Byte) :
    ∃ chunk left, pre ++ cmdTrailer = chunk ++ left ∧
      readuntil (pre ++ cmdTrailer ++ rest) = some (chunk, left ++ rest) ∧
      (left = [] ∨ ∃ pre', left = pre' ++ cmdTrailer) := by
  induction pre with
  | nil => exact ⟨cmdTrailer, [], rfl, rfl, .inl rfl⟩
  | cons a pre ih =>
      obtain ⟨b, tail, hcons⟩ : ∃ b tail, pre ++ cmdTrailer ++ rest = b :: tail := by
        cases pre with
        | nil => exact ⟨_, _, rfl⟩
        | cons b pre => exact ⟨_, _, rfl⟩
      by_cases hfound : [a, b] = cmdTrailer
      · cases pre with
        | nil =>
            -- the first byte of the trailer does not end one
            obtain rfl : b = 0x99 := (List.cons.inj hcons).1.symm
            exact absurd (List.cons.inj (List.cons.inj hfound).2).1 (by decide)
        | cons c pre =>
            obtain rfl : c = b := (List.cons.inj hcons).1
            refine ⟨[a, c], pre ++ cmdTrailer, rfl, ?_, .inr ⟨pre, rfl⟩⟩
            exact if_pos hfound
      · obtain ⟨chunk, left, happend, hread, hleft⟩ := ih
        refine ⟨a :: chunk, left, by rw [List.cons_append, happend, List.cons_append], ?_, hleft⟩
        rw [List.cons_append, List.cons_append, hcons, readuntil, if_neg hfound, ← hcons, hread]
        rfl

/-- The front of a frame is not skipped. -/
theorem skipToHeader_of_prefix {data f : List Byte} (hf : f.take 2 = cmdHeader) (h : data <+: f) :
    skipToHeader data = data := by
  cases data with
  | nil => rfl
  | cons x data =>
      refine if_neg fun hskip => hskip.2 ?_
      obtain ⟨tail, rfl⟩ := h
      rwa [List.take_append_of_le_length (by omega)] at hf

/-- **The reading loop takes one frame off the stream**, also if the payload holds the bytes of a
trailer. -/
theorem readLoop_frame {cmd : Byte} {payload f : List Byte} (h : IsFrame cmd payload f)
    (rest : List Byte) : readLoop [] (f ++ rest) = some (f, rest) := by
  have hlen := h.length_eq
  have haligned := h.aligned
  have hcounted := h.counted
  have hheader : f.take 2 = cmdHeader := by
    rw [h.bytes]
    rfl
  have hcount : (f.getD 3 0).toNat * 4 + 8 = f.length := by
    have hthree : f.getD 3 0 = wordCount payload := by
      rw [h.bytes]
      rfl
    rw [hthree, wordCount, BitVec.toNat_ofNat, Nat.mod_eq_of_lt hcounted, hlen]
    omega
  -- the loop has collected `data` of the frame; `pre` and the trailer are still there
  have hloop : ∀ (n : ℕ) (data pre : List Byte), pre.length = n →
      data ++ (pre ++ cmdTrailer) = f → readLoop data (pre ++ cmdTrailer ++ rest) = some (f, rest) := by
    intro n
    induction n using Nat.strong_induction_on with
    | _ n ih =>
        intro data pre hn hdata
        obtain ⟨chunk, left, happend, hread, hleft⟩ := readuntil_of_trailer pre rest
        have hfront : data ++ chunk ++ left = f := by rw [List.append_assoc, ← happend, hdata]
        rw [readLoop_of_readuntil hread, skipToHeader_of_prefix hheader ⟨left, hfront⟩]
        rcases hleft with rfl | ⟨pre', rfl⟩
        · rw [List.append_nil] at hfront
          rw [hfront, if_pos ⟨by omega, hcount.symm⟩, List.nil_append]
        · have hfrontlen := congrArg List.length hfront
          have happendlen := congrArg List.length happend
          obtain ⟨-, p, hp⟩ := readuntil_append hread
          have hchunk := congrArg List.length hp
          have htrailer : cmdTrailer.length = 2 := rfl
          simp only [List.length_append] at hfrontlen happendlen hchunk
          rw [if_neg]
          · exact ih pre'.length (by omega) (data ++ chunk) pre' rfl hfront
          · rintro ⟨hlong, hdone⟩
            have hthree : (data ++ chunk).getD 3 0 = f.getD 3 0 := by
              rw [← hfront, List.getD_append (data ++ chunk) _ _ _ (by omega)]
            rw [hthree, hcount, List.length_append] at hdone
            omega
  obtain ⟨pre, hpre⟩ : ∃ pre, f = pre ++ cmdTrailer := ⟨_, h.bytes⟩
  have hread := hloop pre.length [] pre rfl hpre.symm
  rwa [← hpre] at hread

/-! ### Responses -/

/-- Why `send_command` does not accept a response. -/
inductive ResponseError
  | invalidTrailer | crcMismatch | errorResponse | busy | nack | wrongCommand
  deriving DecidableEq, Repr

/-- The variable `cmd_response` of `send_command`. -/
def cmdResponse (data : List Byte) : Word :=
  if (data.getD 3 0).toNat * 4 ≠ 0 then ofLe32 ((data.take 8).drop 4) else 0

/-- The checks of `send_command` on the bytes that were read, and the slice it returns. -/
def checkResponse (cmd : Byte) (data : List Byte) : Except ResponseError (List Byte) :=
  let trailer := data.drop (data.length - 2)
  let recdCrc := ofLe16 ((data.take (data.length - 2)).drop (data.length - 4))
  let calcCrc := crc16Ccitt ((data.take (data.length - 4)).drop 2)
  let recdAck := data.getD 2 0
  if trailer ≠ cmdTrailer then .error .invalidTrailer
  else if recdCrc ≠ calcCrc then .error .crcMismatch
  else if recdAck = ackError then .error .errorResponse
  else if recdAck = ackBusy then .error .busy
  else if recdAck ≠ ackSuccess then .error .nack
  else if cmdResponse data ≠ cmd.setWidth 32 then .error .wrongCommand
  else .ok (FlashTool.sendCommandPayload data)

/-- The CRC check of `send_command` fails. -/
def CrcFails (data : List Byte) : Prop :=
  data.drop (data.length - 2) ≠ cmdTrailer ∨
    ofLe16 ((data.take (data.length - 2)).drop (data.length - 4)) ≠
      crc16Ccitt ((data.take (data.length - 4)).drop 2)

theorem checkResponse_of_crcFails {data : List Byte} (h : CrcFails data) (cmd : Byte) :
    ∃ e, checkResponse cmd data = .error e := by
  rw [checkResponse]
  split_ifs with htrailer hcrc
  · exact ⟨_, rfl⟩
  · exact ⟨_, rfl⟩
  all_goals exact absurd h (not_or.mpr ⟨htrailer, hcrc⟩)

/-- **What an accepted response is**: an acknowledgement of the command. -/
theorem checkResponse_ok {cmd : Byte} {data ret : List Byte} (h : checkResponse cmd data = .ok ret) :
    data.getD 2 0 = ackSuccess ∧ cmdResponse data = cmd.setWidth 32 ∧
      ret = FlashTool.sendCommandPayload data := by
  rw [checkResponse] at h
  split_ifs at h with htrailer hcrc herror hbusy hnack hcmd
  exact ⟨not_not.mp hnack, not_not.mp hcmd, (Except.ok.inj h).symm⟩

/-- **The acknowledgements of a command** are accepted, with what they carry. -/
theorem checkResponse_frame (cmd : Byte) {q : List Byte} {k : ℕ} (hq : q.length = 4 * k)
    (hk : k + 1 < 256) :
    checkResponse cmd (frame ackSuccess (le32 (cmd.setWidth 32) ++ q)) = .ok q := by
  have hret : FlashTool.sendCommandPayload (frame ackSuccess (le32 (cmd.setWidth 32) ++ q)) = q := by
    have hslice := FlashTool.sendCommandPayload_frame (cmd.setWidth 32) hq
    rwa [Nat.mod_eq_of_lt hk, List.take_of_length_le (by omega)] at hslice
  have hcount : wordCount (le32 (cmd.setWidth 32) ++ q) = BitVec.ofNat 8 (k + 1) := by
    rw [wordCount, List.length_append, le32_length, hq]
    congr 1
    omega
  have hresponse : cmdResponse (frame ackSuccess (le32 (cmd.setWidth 32) ++ q)) =
      cmd.setWidth 32 := by
    have hthree : (frame ackSuccess (le32 (cmd.setWidth 32) ++ q)).getD 3 0 =
        wordCount (le32 (cmd.setWidth 32) ++ q) := rfl
    rw [cmdResponse, hthree, hcount, BitVec.toNat_ofNat, Nat.mod_eq_of_lt hk, if_pos (by omega)]
    exact ofLe32_le32 _
  -- the parts the checks look at
  obtain ⟨front, hfront⟩ : ∃ front, front = cmdHeader ++ [ackSuccess,
      wordCount (le32 (cmd.setWidth 32) ++ q)] ++ (le32 (cmd.setWidth 32) ++ q) := ⟨_, rfl⟩
  obtain ⟨crc, hcrc⟩ : ∃ crc, crc = Terraboot.crc16Ccitt (front.drop 2) := ⟨_, rfl⟩
  have hframe : frame ackSuccess (le32 (cmd.setWidth 32) ++ q) = front ++ le16 crc ++ cmdTrailer := by
    rw [hcrc, hfront]
    rfl
  have hack : (frame ackSuccess (le32 (cmd.setWidth 32) ++ q)).getD 2 0 = ackSuccess := rfl
  have hlen : (front ++ le16 crc ++ cmdTrailer).length = front.length + 4 := by
    rw [List.length_append, List.length_append, le16_length]
    rfl
  have hfour : (front ++ le16 crc).length = front.length + 2 := by
    rw [List.length_append, le16_length]
  rw [checkResponse, hresponse, hret, hack, hframe, hlen]
  have htwo : front.length + 4 - 2 = (front ++ le16 crc).length := by omega
  have hdrop : (front ++ le16 crc ++ cmdTrailer).take (front.length + 4 - 4) = front := by
    rw [Nat.add_sub_cancel, List.append_assoc, List.take_left]
  have hbytes : ((front ++ le16 crc ++ cmdTrailer).take (front.length + 4 - 2)).drop
      (front.length + 4 - 4) = le16 crc := by
    rw [htwo, List.take_left, Nat.add_sub_cancel, List.drop_left]
  have hread : ofLe16 (le16 crc) = crc := by
    have := ofLe16_le16_append crc []
    rwa [List.append_nil] at this
  rw [hbytes, hdrop, hread, crc16Ccitt_eq, ← hcrc, htwo, List.drop_left]
  simp [ackSuccess, ackError, ackBusy]

/-! ### Programs -/

/-- What the tool does with a node: `write`, one turn of the reading loop until it has a frame or
is interrupted, and `read(1024)` to clear the buffer. -/
inductive NodeOp
  | write (payload : List Byte)
  | readFrame
  | clear

/-- A read is answered by a frame, or by nothing if it has timed out or failed. -/
def NodeOp.Answer : NodeOp → Type
  | write _ => Unit
  | readFrame => Option (List Byte)
  | clear => Unit

/-- What a transfer can raise. -/
inductive TransferError
  | structError
  /-- "Error sending command [%s] to Device" -/
  | sending (cmd : Command)
  /-- "Flash write failed, flash address 0x{flash_address:4X}" -/
  | writeFailed (flashAddress : ℕ)
  /-- "Flash write failed, block address 0x{recd_addr:4X}" -/
  | blockAddress (recdAddr : ℕ)
  /-- "Block Request Error, block: %d" -/
  | blockRequest (block : ℕ)
  | checksumMismatch
  deriving DecidableEq

/-- A coroutine of the tool. -/
abbrev Coroutine (α : Type) := Prog NodeOp NodeOp.Answer TransferError α

/-- `struct.pack("<I", n)` -/
def packWord (n : ℕ) : Except TransferError (List Byte) :=
  if n < 2 ^ 32 then .ok (le32 (BitVec.ofNat 32 n)) else .error .structError

/-- `struct.unpack("<I", data)` -/
def unpackWord (data : List Byte) : Except TransferError ℕ :=
  if data.length = 4 then .ok (ofLe32 data).toNat else .error .structError

/-- A computation that may raise, within a coroutine. -/
def lift {α : Type} : Except TransferError α → Coroutine α
  | .ok a => .ret a
  | .error e => .raise e

/-- The reading loop of `send_command`: the first frame is dropped if the node was primed. The
result goes with the new value of `primed`. -/
def readResponse (primed : Bool) : Coroutine (Option (List Byte) × Bool) :=
  .op .readFrame fun
    | none => .ret (none, primed)
    | some data =>
        if primed then .op .readFrame fun r => .ret (r, false) else .ret (some data, false)

/-- `send_command`, with the number of tries left. -/
def sendCommand (cmd : Command) (payload : List Byte) : ℕ → Bool → Coroutine (List Byte × Bool)
  | 0, _ => .raise (.sending cmd)
  | tries + 1, primed =>
      .op (.write (buildCommand cmd.code payload)) fun _ =>
        (readResponse primed).bind fun
          | (none, primed) => .op .clear fun _ => sendCommand cmd payload tries primed
          | (some data, primed) =>
              match checkResponse cmd.code data with
              | .ok ret => .ret (ret, primed)
              | .error _ => .op .clear fun _ => sendCommand cmd payload tries primed

/-- The loop of `send_file` that sends one block, with the number of attempts left and the address
received last. -/
def sendBlock (flashAddress : ℕ) (payload : List Byte) : ℕ → ℕ → Bool → Coroutine Bool
  | 0, recdAddr, _ => .raise (.blockAddress recdAddr)
  | attempts + 1, _, primed =>
      ((sendCommand .sendBlock payload 3 primed).tryCatch fun _ =>
        .raise (.writeFailed flashAddress)).bind fun (resp, primed) =>
          (lift (unpackWord resp)).bind fun recdAddr =>
            if recdAddr = flashAddress then .ret primed
            else sendBlock flashAddress payload attempts recdAddr primed

/-- The loop of `send_file` over the blocks of a file: what is left of the file, the address of the
next block and the address received last. -/
def sendBlocks (data : List Byte) (flashAddress : ℕ) (c : CanFlasher) : Coroutine CanFlasher :=
  let buf := data.take c.blockSize
  if h : buf = [] then .ret c
  else
    let buf := buf ++ List.replicate (c.blockSize - buf.length) 0xFF
    (lift (packWord flashAddress)).bind fun pre =>
      (sendBlock flashAddress (pre ++ buf) 3 0 c.primed).bind fun primed =>
        sendBlocks (data.drop c.blockSize) (flashAddress + c.blockSize)
          { c with primed := primed, fwSha := c.fwSha ++ buf, blockCount := c.blockCount + 1 }
termination_by data.length
decreasing_by
  rw [List.take_eq_nil_iff] at h
  have := List.length_pos_iff.mpr (not_or.mp h).2
  rw [List.length_drop]
  omega

/-- `send_file` -/
def sendFile (file : List Byte) (c : CanFlasher) : Coroutine CanFlasher :=
  (sendBlocks file c.appStartAddr c).bind fun c =>
    (sendCommand .sendEof [] 5 c.primed).bind fun (resp, primed) =>
      (lift (unpackWord resp)).bind fun _pageCount => .ret { c with primed := primed }

/-- The loop of `verify_file` that requests one block, with the number of attempts left. -/
def requestBlock (block flashAddress : ℕ) : ℕ → Bool → Coroutine (List Byte × Bool)
  | 0, _ => .raise (.blockRequest block)
  | attempts + 1, primed =>
      (lift (packWord flashAddress)).bind fun payload =>
        (sendCommand .requestBlock payload 5 primed).bind fun (resp, primed) =>
          (lift (unpackWord (resp.take 4))).bind fun recdAddr =>
            if recdAddr = flashAddress then .ret (resp, primed)
            else requestBlock block flashAddress attempts primed

/-- The loop of `verify_file` over the blocks from number `i` on, `n` of them; `verSha` holds the
bytes that `ver_sha` was updated with. -/
def requestBlocks (c : CanFlasher) : ℕ → ℕ → List Byte → Bool → Coroutine (List Byte × Bool)
  | 0, _, verSha, primed => .ret (verSha, primed)
  | n + 1, i, verSha, primed =>
      (requestBlock i (i * c.blockSize + c.appStartAddr) 3 primed).bind fun (resp, primed) =>
        requestBlocks c n (i + 1) (verSha ++ resp.drop 4) primed

/-- `verify_file`; `sha1` gives the digest of the bytes an object was updated with. -/
def verifyFile {δ : Type} [DecidableEq δ] (sha1 : List Byte → δ) (c : CanFlasher) :
    Coroutine CanFlasher :=
  (requestBlocks c c.blockCount 0 [] c.primed).bind fun (verSha, primed) =>
    if sha1 verSha ≠ sha1 c.fwSha then .raise .checksumMismatch
    else .ret { c with primed := primed }

end CanFlasher

end Terraboot
