import Terraboot.Boards
import Terraboot.FindBlock
import Terraboot.FlashCmd

/-!
# Dispatching Commands

`command_dispatch` of `command.c`, with the conditional fall-through of its `switch`:
`GET_CANBUS_ID` falls into `IDENTIFY` on a build without CAN, and `IDENTIFY` into the
default on a build without LED.

## Main results

* `commandDispatch_dispatched`: all that a request can do.
* `isResponseTo_commandRespondAck_iff`: an acknowledgement is a well-formed frame exactly
  as long as its payload fits the length byte.
* `commandDispatch_answered_iff`: for which requests the answer is as the protocol says.
-/

open LittleEndian NorFlash

namespace Terraboot

variable {S T : Type}

/-- The cases of the `switch` from `CMD_IDENTIFY` on. -/
def dispatchIdentify (b : Board S T) (now : T) (d : Device S T) (data : List Byte) :
    Device S T × List (List Byte) :=
  if b.cfg.enableLed then (ledIdentify b now d, [commandRespondAck cmdIdentify data 2])
  else (d, [commandRespondCommandError])

/-- `command_dispatch`. Of the local array `data` only the copied part is ever read. -/
def commandDispatch (b : Board S T) (now : T) (d : Device S T) (buf : List Byte) (msglen : ℕ) :
    Device S T × List (List Byte) :=
  let data := buf.take msglen
  let cmd := (getWord data 0 >>> 16) &&& 0xff
  if cmd = cmdConnect then commandConnect b d
  else if cmd = cmdRxBlock then commandWriteBlock b d data
  else if cmd = cmdRxEof then commandEof b d
  else if cmd = cmdReqBlock then commandReadBlock b d data
  else if cmd = cmdComplete then commandComplete b now d
  else if cmd = cmdGetCanbusId then
    if b.cfg.canserial then commandGetCanbusId d else dispatchIdentify b now d data
  else if cmd = cmdIdentify then dispatchIdentify b now d data
  else (d, [commandRespondCommandError])

/-! ### The command byte -/

/-- The command that is dispatched is the byte at offset 2. -/
theorem getWord_cmd (data : List Byte) :
    (getWord data 0 >>> 16) &&& 0xff = (data.getD 2 0).setWidth 32 := by
  rw [getWord, Nat.mul_zero, List.drop_zero, ofLe32]
  generalize data.getD 0 0 = b₀
  generalize data.getD 1 0 = b₁
  generalize data.getD 2 0 = b₂
  generalize data.getD 3 0 = b₃
  have hmask : (0xff : Word) = (BitVec.allOnes 8).setWidth 32 := by decide
  rw [hmask]
  refine BitVec.eq_of_getLsbD_eq fun i hi => ?_
  simp only [BitVec.getLsbD_and, BitVec.getLsbD_ushiftRight, BitVec.getLsbD_append,
    BitVec.getLsbD_setWidth, BitVec.getLsbD_allOnes]
  grind

/-- Comparing the widened command byte with a constant. -/
theorem setWidth_eq_iff (c k : Byte) : c.setWidth 32 = k.setWidth 32 ↔ c = k := by
  constructor
  · intro h
    have := congrArg (BitVec.setWidth 8) h
    simpa using this
  · rintro rfl
    rfl

/-- The `switch` in terms of the command byte. -/
theorem commandDispatch_eq (b : Board S T) (now : T) (d : Device S T) (buf : List Byte)
    (msglen : ℕ) {c : Byte} (hc : (buf.take msglen).getD 2 0 = c) :
    commandDispatch b now d buf msglen =
      if c = 0x11 then commandConnect b d
      else if c = 0x12 then commandWriteBlock b d (buf.take msglen)
      else if c = 0x13 then commandEof b d
      else if c = 0x14 then commandReadBlock b d (buf.take msglen)
      else if c = 0x15 then commandComplete b now d
      else if c = 0x16 then
        if b.cfg.canserial then commandGetCanbusId d
        else dispatchIdentify b now d (buf.take msglen)
      else if c = 0x17 then dispatchIdentify b now d (buf.take msglen)
      else (d, [commandRespondCommandError]) := by
  obtain ⟨h₁, h₂, h₃, h₄, h₅, h₆, h₇⟩ :
      cmdConnect = (0x11 : Byte).setWidth 32 ∧ cmdRxBlock = (0x12 : Byte).setWidth 32 ∧
      cmdRxEof = (0x13 : Byte).setWidth 32 ∧ cmdReqBlock = (0x14 : Byte).setWidth 32 ∧
      cmdComplete = (0x15 : Byte).setWidth 32 ∧ cmdGetCanbusId = (0x16 : Byte).setWidth 32 ∧
      cmdIdentify = (0x17 : Byte).setWidth 32 := by decide
  rw [commandDispatch, getWord_cmd, hc, h₁, h₂, h₃, h₄, h₅, h₆, h₇]
  simp only [setWidth_eq_iff]

/-- A frame is dispatched by its command byte. -/
theorem commandDispatch_frame (b : Board S T) (now : T) (d : Device S T) (c : Byte)
    (payload : List Byte) :
    commandDispatch b now d (frame c payload) (payload.length + 8) =
      if c = 0x11 then commandConnect b d
      else if c = 0x12 then commandWriteBlock b d (frame c payload)
      else if c = 0x13 then commandEof b d
      else if c = 0x14 then commandReadBlock b d (frame c payload)
      else if c = 0x15 then commandComplete b now d
      else if c = 0x16 then
        if b.cfg.canserial then commandGetCanbusId d
        else dispatchIdentify b now d (frame c payload)
      else if c = 0x17 then dispatchIdentify b now d (frame c payload)
      else (d, [commandRespondCommandError]) := by
  have htake : (frame c payload).take (payload.length + 8) = frame c payload :=
    List.take_of_length_le (frame_length c payload).le
  have hcmd : ((frame c payload).take (payload.length + 8)).getD 2 0 = c := by
    rw [htake]
    rfl
  rw [commandDispatch_eq b now d _ _ hcmd, htake]

theorem commandDispatch_connect (b : Board S T) (now : T) (d : Device S T) :
    commandDispatch b now d (frame 0x11 []) 8 = commandConnect b d :=
  (commandDispatch_frame b now d 0x11 []).trans (if_pos rfl)

theorem commandDispatch_writeBlock (b : Board S T) (now : T) (d : Device S T)
    (payload : List Byte) :
    commandDispatch b now d (frame 0x12 payload) (payload.length + 8) =
      commandWriteBlock b d (frame 0x12 payload) :=
  (commandDispatch_frame b now d 0x12 payload).trans (by rw [if_neg (by decide), if_pos rfl])

theorem commandDispatch_eof (b : Board S T) (now : T) (d : Device S T) :
    commandDispatch b now d (frame 0x13 []) 8 = commandEof b d :=
  (commandDispatch_frame b now d 0x13 []).trans
    (by rw [if_neg (by decide), if_neg (by decide), if_pos rfl])

theorem commandDispatch_readBlock (b : Board S T) (now : T) (d : Device S T)
    (payload : List Byte) :
    commandDispatch b now d (frame 0x14 payload) (payload.length + 8) =
      commandReadBlock b d (frame 0x14 payload) :=
  (commandDispatch_frame b now d 0x14 payload).trans
    (by rw [if_neg (by decide), if_neg (by decide), if_neg (by decide), if_pos rfl])

/-! ### What a request can do -/

/-- The device after a request and its responses, by the command byte. -/
inductive Dispatched (b : Board S T) (now : T) (d : Device S T) (data : List Byte) :
    Byte → Device S T × List (List Byte) → Prop
  | connect : Dispatched b now d data 0x11 (commandConnect b d)
  | refused : Dispatched b now d data 0x12
      ({ d with isInTransfer := true }, [commandRespondCommandError])
  | written {ret : ℤ} {st : S} {f : Flash} {total : Word}
      (hcount : commandGetArgCount data = b.cfg.blockSize / 4 + 1)
      (hrange : flashcmdBlockInRange b.cfg (getWord data 1).toNat = true)
      (hwrite : b.backend.flashWriteBlock d.backend d.flash (getWord data 1).toNat
        ((data.drop 8).take b.cfg.blockSize) = (ret, st, f)) :
      Dispatched b now d data 0x12 ({ d with
        isInTransfer := true
        totalBytesWritten := total
        backend := st
        flash := f }, [if ret < 0 then commandRespondCommandError
          else commandRespondAck cmdRxBlock (setWord (wordArray 4) 2 (getWord data 1)) 4])
  | completed {ret : ℤ} {st : S} {f : Flash}
      (hcomplete : b.backend.flashComplete d.backend d.flash = (ret, st, f)) :
      Dispatched b now d data 0x13 ({ d with isInTransfer := false, backend := st, flash := f },
        [if ret < 0 then commandRespondCommandError
          else commandRespondAck cmdRxEof (setWord (wordArray 4) 2 (BitVec.ofInt 32 ret)) 4])
  | read {resp : List Byte}
      (hresp : resp = commandRespondCommandError ∨
        resp = commandRespondAck cmdReqBlock
          (overwrite (setWord (wordArray (b.cfg.blockSize / 4 + 4)) 2 (getWord data 1)) 12
            (read d.flash.mem (getWord data 1).toNat b.cfg.blockSize)) (b.cfg.blockSize / 4 + 4)) :
      Dispatched b now d data 0x14 ({ d with isInTransfer := true }, [resp])
  | complete : Dispatched b now d data 0x15 (commandComplete b now d)
  | getCanbusId : Dispatched b now d data 0x16 (commandGetCanbusId d)
  | identify {c : Byte} (hc : c = 0x16 ∨ c = 0x17) :
      Dispatched b now d data c (ledIdentify b now d, [commandRespondAck cmdIdentify data 2])
  | error {c : Byte} (hc : c ∉ [0x11, 0x12, 0x13, 0x14, 0x15]) :
      Dispatched b now d data c (d, [commandRespondCommandError])

theorem dispatchIdentify_dispatched (b : Board S T) (now : T) (d : Device S T) (data : List Byte)
    {c : Byte} (hc : c = 0x16 ∨ c = 0x17) :
    Dispatched b now d data c (dispatchIdentify b now d data) := by
  rw [dispatchIdentify]
  split_ifs
  · exact .identify hc
  · refine .error ?_
    rcases hc with rfl | rfl <;> decide

/-- **Every request does one of these things.** -/
theorem commandDispatch_dispatched (b : Board S T) (now : T) (d : Device S T) (buf : List Byte)
    (msglen : ℕ) {c : Byte} (hc : (buf.take msglen).getD 2 0 = c) :
    Dispatched b now d (buf.take msglen) c (commandDispatch b now d buf msglen) := by
  rw [commandDispatch_eq b now d buf msglen hc]
  generalize buf.take msglen = data
  split_ifs with h₁ h₂ h₃ h₄ h₅ h₆ hcan h₇
  · rw [h₁]
    exact .connect
  · rw [h₂]
    rcases commandWriteBlock_cases b d data with h | ⟨ret, st, f, total, hcount, hrange, hwrite, h⟩
    · rw [h]
      exact .refused
    · rw [h]
      exact .written hcount hrange hwrite
  · obtain ⟨ret, st, f, hcomplete, h⟩ := commandEof_cases b d
    rw [h₃, h]
    exact .completed hcomplete
  · obtain ⟨resp, h, hresp⟩ := commandReadBlock_cases b d data
    rw [h₄, h]
    exact .read hresp
  · rw [h₅]
    exact .complete
  · rw [h₆]
    exact .getCanbusId
  · exact dispatchIdentify_dispatched b now d data (.inl h₆)
  · exact dispatchIdentify_dispatched b now d data (.inr h₇)
  · exact .error (by simpa using ⟨h₁, h₂, h₃, h₄, h₅⟩)

/-- The variables that no command touches. -/
structure SameEntry (d d' : Device S T) : Prop where
  assignedId : d'.assignedId = d.assignedId
  uuid : d'.uuid = d.uuid
  timeoutStart : d'.timeoutStart = d.timeoutStart
  timeoutInitialized : d'.timeoutInitialized = d.timeoutInitialized
  commandedEntry : d'.commandedEntry = d.commandedEntry

/-- Commands leave node id, timeout and manner of entry alone. -/
theorem commandDispatch_sameEntry (b : Board S T) (now : T) (d : Device S T) (buf : List Byte)
    (msglen : ℕ) : SameEntry d (commandDispatch b now d buf msglen).1 := by
  generalize hcmd : (buf.take msglen).getD 2 0 = c
  have h := commandDispatch_dispatched b now d buf msglen hcmd
  generalize commandDispatch b now d buf msglen = r at h ⊢
  cases h <;> exact ⟨rfl, rfl, rfl, rfl, rfl⟩

/-! ### Responses -/

/-- A well-formed response to a request with command byte `cmd`: an error without payload,
or an acknowledgement whose first payload word is the command. -/
def IsResponseTo (cmd : Byte) (msg : List Byte) : Prop :=
  IsFrame 0xf2 [] msg ∨ ∃ rest, IsFrame 0xa0 (le32 (cmd.setWidth 32) ++ rest) msg

/-- The commands a configuration supports. -/
def Supported (cfg : Config) (cmd : Byte) : Prop :=
  cmd ∈ [0x11, 0x12, 0x13, 0x14, 0x15] ∨ (cmd = 0x16 ∧ cfg.canserial = true) ∨
    (cmd = 0x17 ∧ cfg.enableLed = true)

instance (cfg : Config) (cmd : Byte) : Decidable (Supported cfg cmd) :=
  inferInstanceAs (Decidable (_ ∨ _))

/-- A request is **answered**: by exactly one well-formed response, and if its command is
not supported, by an error and without any other effect. -/
structure Answered (cfg : Config) (cmd : Byte) (d : Device S T)
    (r : Device S T × List (List Byte)) : Prop where
  response : ∃ msg, r.2 = [msg] ∧ IsResponseTo cmd msg
  unsupported : ¬Supported cfg cmd → r = (d, [commandRespondCommandError])

theorem isResponseTo_error (cmd : Byte) : IsResponseTo cmd commandRespondCommandError :=
  .inl ⟨rfl, by decide, commandRespondCommandError_eq⟩

/-- **An acknowledgement is well formed exactly as long as its payload fits the length
byte.** -/
theorem isResponseTo_commandRespondAck_iff {out : List Byte} {n : ℕ} (cmd : Byte) (h3 : 3 ≤ n)
    (hn : 4 * n ≤ out.length) :
    IsResponseTo cmd (commandRespondAck (cmd.setWidth 32) out n) ↔ n - 2 < 256 := by
  rw [commandRespondAck_eq _ h3 hn]
  have hpay : (le32 (cmd.setWidth 32) ++ (out.drop 8).take (4 * (n - 3))).length =
      4 * (n - 2) := by
    rw [List.length_append, le32_length, List.length_take, List.length_drop]
    omega
  constructor
  · rintro (h | ⟨rest, h⟩)
    · have := h.length_eq
      rw [frame_length, hpay, List.length_nil] at this
      omega
    · have hlen := h.length_eq
      have hcnt := h.counted
      rw [frame_length, hpay] at hlen
      omega
  · intro h
    exact .inr ⟨_, by rw [hpay]; omega, by rw [hpay]; omega, rfl⟩

/-- An acknowledgement without payload answers no request. -/
theorem not_isResponseTo_ack_two {out : List Byte} (cmd : Byte) (ackedCmd : Word)
    (hn : 8 ≤ out.length) : ¬IsResponseTo cmd (commandRespondAck ackedCmd out 2) := by
  rw [commandRespondAck_two _ hn]
  rintro (h | ⟨rest, h⟩)
  · exact absurd h.bytes (by decide)
  · have := h.length_eq
    rw [frame_length, List.length_append, le32_length, List.length_nil] at this
    omega

theorem answered_error (cfg : Config) (cmd : Byte) (d : Device S T) :
    Answered cfg cmd d (d, [commandRespondCommandError]) :=
  ⟨⟨_, rfl, isResponseTo_error cmd⟩, fun _ => rfl⟩

/-- A supported request that gets one response is answered exactly if the response is
well formed. -/
theorem answered_iff_of_supported {cfg : Config} {cmd : Byte} {d d' : Device S T}
    {msg : List Byte} (h : Supported cfg cmd) :
    Answered cfg cmd d (d', [msg]) ↔ IsResponseTo cmd msg := by
  constructor
  · rintro ⟨⟨msg', hmsg, hresp⟩, -⟩
    obtain rfl := List.singleton_inj.mp hmsg
    exact hresp
  · exact fun hresp => ⟨⟨msg, rfl, hresp⟩, fun hun => absurd h hun⟩

/-! ### The handlers' answers -/

theorem commandConnect_answered_iff (b : Board S T) (d : Device S T) :
    Answered b.cfg 0x11 d (commandConnect b d) ↔
      connectOutLen b.cfg (appvalidateGetMetadata b.cfg d.flash.mem) - 2 < 256 := by
  have hlen := connectOut_length b.cfg (appvalidateGetMetadata b.cfg d.flash.mem)
  rw [commandConnect, answered_iff_of_supported (.inl (by decide))]
  refine isResponseTo_commandRespondAck_iff 0x11 ?_ hlen.ge
  rw [connectOutLen]
  omega

theorem commandWriteBlock_answered (b : Board S T) (d : Device S T) (data : List Byte) :
    Answered b.cfg 0x12 d (commandWriteBlock b d data) := by
  have hsup : Supported b.cfg 0x12 := .inl (by decide)
  rcases commandWriteBlock_cases b d data with h | ⟨ret, st, f, total, -, -, -, h⟩
  · rw [h, answered_iff_of_supported hsup]
    exact isResponseTo_error _
  · rw [h, answered_iff_of_supported hsup]
    split_ifs
    · exact isResponseTo_error _
    · exact (isResponseTo_commandRespondAck_iff 0x12 (by omega) (by
        rw [setWord_wordArray_length (by omega)])).mpr (by omega)

theorem commandEof_answered (b : Board S T) (d : Device S T) :
    Answered b.cfg 0x13 d (commandEof b d) := by
  have hsup : Supported b.cfg 0x13 := .inl (by decide)
  obtain ⟨ret, st, f, -, h⟩ := commandEof_cases b d
  rw [h, answered_iff_of_supported hsup]
  split_ifs
  · exact isResponseTo_error _
  · exact (isResponseTo_commandRespondAck_iff 0x13 (by omega) (by
      rw [setWord_wordArray_length (by omega)])).mpr (by omega)

theorem commandReadBlock_answered (b : Board S T) (d : Device S T) (data : List Byte)
    (hblock : b.cfg.blockSize = 64) : Answered b.cfg 0x14 d (commandReadBlock b d data) := by
  have hsup : Supported b.cfg 0x14 := .inl (by decide)
  obtain ⟨resp, h, hresp⟩ := commandReadBlock_cases b d data
  rw [h, answered_iff_of_supported hsup]
  rcases hresp with hresp | hresp
  · rw [hresp]
    exact isResponseTo_error _
  · rw [hresp, hblock]
    have hset : (setWord (wordArray (64 / 4 + 2 + 2)) 2 (getWord data 1)).length = 80 := by
      rw [setWord_wordArray_length (by omega)]
    refine (isResponseTo_commandRespondAck_iff 0x14 (by omega) ?_).mpr (by omega)
    rw [overwrite_length (by rw [hset, read_length]; omega), hset]

theorem commandComplete_answered (b : Board S T) (now : T) (d : Device S T) :
    Answered b.cfg 0x15 d (commandComplete b now d) := by
  rw [commandComplete, answered_iff_of_supported (.inl (by decide))]
  exact (isResponseTo_commandRespondAck_iff 0x15 (by omega) (by rw [wordArray_length])).mpr
    (by omega)

theorem commandGetCanbusId_answered {cfg : Config} (d : Device S T) (h : cfg.canserial = true) :
    Answered cfg 0x16 d (commandGetCanbusId d) := by
  rw [commandGetCanbusId, answered_iff_of_supported (.inr (.inl ⟨rfl, h⟩))]
  refine (isResponseTo_commandRespondAck_iff 0x16 (by omega) ?_).mpr (by omega)
  rw [overwrite_length (by rw [d.uuid.property, wordArray_length]; omega), wordArray_length]

/-- What the `IDENTIFY` case does is answered only where it amounts to an error. -/
theorem dispatchIdentify_answered_iff (b : Board S T) (now : T) (d : Device S T)
    {data : List Byte} (hdata : 8 ≤ data.length) (cmd : Byte) :
    Answered b.cfg cmd d (dispatchIdentify b now d data) ↔ b.cfg.enableLed = false := by
  rw [dispatchIdentify]
  split_ifs with hled
  · refine iff_of_false ?_ (by rw [hled]; decide)
    rintro ⟨⟨msg, hmsg, hresp⟩, -⟩
    obtain rfl := List.singleton_inj.mp hmsg
    exact not_isResponseTo_ack_two cmd _ hdata hresp
  · exact iff_of_true (answered_error _ _ _) (by simpa using hled)

/-! ### The answer to an accepted frame -/

/-- The requests whose answer is wrong: `IDENTIFY` where there is a LED, its acknowledgement
having no room for the payload; `GET_CANBUS_ID` where there is a LED but no CAN, falling
into it; and `CONNECT` where the strings do not fit the length byte. -/
def AnswerLost (cfg : Config) (m : Mem) (cmd : Byte) : Prop :=
  (cmd = 0x17 ∧ cfg.enableLed = true) ∨
  (cmd = 0x16 ∧ cfg.enableLed = true ∧ cfg.canserial = false) ∨
  (cmd = 0x11 ∧ 248 ≤ divRoundUp4 cfg.mcu.strlen + divRoundUp4 cfg.katapultVersion.strlen +
    divRoundUp4 (connectVariant (appvalidateGetMetadata cfg m)).length)

theorem not_answerLost {cfg : Config} {m : Mem} {cmd : Byte} (h₁ : cmd ≠ 0x11) (h₂ : cmd ≠ 0x16)
    (h₃ : cmd ≠ 0x17) : ¬AnswerLost cfg m cmd := by
  rintro (⟨h, -⟩ | ⟨h, -⟩ | ⟨h, -⟩)
  · exact h₃ h
  · exact h₂ h
  · exact h₁ h

theorem answerLost_connect_iff (cfg : Config) (m : Mem) :
    AnswerLost cfg m 0x11 ↔
      ¬connectOutLen cfg (appvalidateGetMetadata cfg m) - 2 < 256 := by
  rw [AnswerLost, connectOutLen]
  constructor
  · rintro (⟨h, -⟩ | ⟨h, -⟩ | ⟨-, hge⟩)
    · cases h
    · cases h
    · omega
  · intro hge
    exact .inr (.inr ⟨rfl, by omega⟩)

theorem answerLost_getCanbusId_iff (cfg : Config) (m : Mem) :
    AnswerLost cfg m 0x16 ↔ cfg.enableLed = true ∧ cfg.canserial = false := by
  constructor
  · rintro (⟨h, -⟩ | ⟨-, h⟩ | ⟨h, -⟩)
    · cases h
    · exact h
    · cases h
  · intro h
    exact .inr (.inl ⟨rfl, h⟩)

theorem answerLost_identify_iff (cfg : Config) (m : Mem) :
    AnswerLost cfg m 0x17 ↔ cfg.enableLed = true := by
  constructor
  · rintro (⟨-, h⟩ | ⟨h, -⟩ | ⟨h, -⟩)
    · exact h
    · cases h
    · cases h
  · intro h
    exact .inl ⟨rfl, h⟩

/-- **For which requests the answer is as it should be.** For every build, every state and
every accepted frame, the dispatch passes on exactly one well-formed response to the
request, and a mere error if the command is not supported, exactly outside of
`AnswerLost`. -/
theorem commandDispatch_answered_iff (b : Board S T) {m : Mach} (hb : b.cfg.IsBuildOf m)
    (now : T) (d : Device S T) {buf : List Byte} {s : SyncState}
    (h : (commandFindBlock buf s).ret = 1) :
    Answered b.cfg (buf.getD 2 0) d
        (commandDispatch b now d buf (commandFindBlock buf s).popCount) ↔
      ¬AnswerLost b.cfg d.flash.mem (buf.getD 2 0) := by
  obtain ⟨hk, -, hle, -⟩ := blockVerdict_accept (blockVerdict_of_ret_eq_one h)
  obtain ⟨k, hpop⟩ : ∃ k, (commandFindBlock buf s).popCount = k := ⟨_, rfl⟩
  rw [hpop] at hk hle ⊢
  have hdata : 8 ≤ (buf.take k).length := by
    rw [List.length_take]
    omega
  have hcmd : (buf.take k).getD 2 0 = buf.getD 2 0 := by
    rw [List.getD_eq_getElem?_getD, List.getElem?_take_of_lt (by omega),
      ← List.getD_eq_getElem?_getD]
  rw [commandDispatch_eq b now d buf k hcmd]
  generalize buf.getD 2 0 = cmd
  split_ifs with h₁ h₂ h₃ h₄ h₅ h₆ hcan h₇
  · subst h₁
    rw [commandConnect_answered_iff, answerLost_connect_iff, not_not]
  · subst h₂
    exact iff_of_true (commandWriteBlock_answered _ _ _)
      (not_answerLost (by decide) (by decide) (by decide))
  · subst h₃
    exact iff_of_true (commandEof_answered _ _)
      (not_answerLost (by decide) (by decide) (by decide))
  · subst h₄
    exact iff_of_true (commandReadBlock_answered _ _ _ hb.block)
      (not_answerLost (by decide) (by decide) (by decide))
  · subst h₅
    exact iff_of_true (commandComplete_answered _ _ _)
      (not_answerLost (by decide) (by decide) (by decide))
  · subst h₆
    rw [answerLost_getCanbusId_iff]
    exact iff_of_true (commandGetCanbusId_answered d hcan) (by simp [hcan])
  · subst h₆
    rw [dispatchIdentify_answered_iff b now d hdata, answerLost_getCanbusId_iff]
    simp [hcan]
  · subst h₇
    rw [dispatchIdentify_answered_iff b now d hdata, answerLost_identify_iff,
      Bool.not_eq_true]
  · exact iff_of_true (answered_error _ _ _) (not_answerLost h₁ h₆ h₇)

/-- A COMPLETE request on the shipped configuration is answered. -/
theorem commandDispatch_answered_complete :
    Answered steinzeit 0x15 steinzeitDevice (commandDispatch steinzeitBoard 0 steinzeitDevice
      (frame 0x15 []) (commandFindBlock (frame 0x15 []) .init).popCount) := by
  have haccepted : (commandFindBlock (frame 0x15 []) .init).ret = 1 := by decide
  exact (commandDispatch_answered_iff steinzeitBoard steinzeit_isBuildOf 0 steinzeitDevice
    haccepted).mpr (not_answerLost (by decide) (by decide) (by decide))

/-- An IDENTIFY request on the shipped configuration, which has a LED, is accepted but
acknowledged without naming the command. -/
theorem identify_not_answered :
    (commandFindBlock (frame 0x17 []) .init).ret = 1 ∧
    (commandFindBlock (frame 0x17 []) .init).popCount = 8 ∧
    ¬Answered steinzeit 0x17 steinzeitDevice
      (commandDispatch steinzeitBoard 0 steinzeitDevice (frame 0x17 []) 8) := by
  refine ⟨by decide, by decide, fun h => ?_⟩
  have hdata : 8 ≤ ((frame 0x17 []).take 8).length := by decide
  have hdispatch : commandDispatch steinzeitBoard 0 steinzeitDevice (frame 0x17 []) 8 =
      dispatchIdentify steinzeitBoard 0 steinzeitDevice ((frame 0x17 []).take 8) := by
    rw [commandDispatch, getWord_cmd]
    rfl
  rw [hdispatch] at h
  exact absurd ((dispatchIdentify_answered_iff steinzeitBoard 0 steinzeitDevice hdata _).mp h)
    (by decide)

end Terraboot
