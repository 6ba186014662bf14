import Terraboot.Device
import Terraboot.Respond

/-!
# Command Handlers

The handlers of `flashcmd.c`, `command_get_canbus_id` of `generic/canserial.c` and
`led_identify` of `led.c`. A handler maps the device state to the new state and the list
of messages it passes to `console_sendf`, in order. The request is the byte image of the
word array that `command_dispatch` copies it to.
-/

open LittleEndian NorFlash

namespace Terraboot

variable {S T : Type}

/-- `strnlen` -/
def strnlen (s : List Byte) (maxlen : ℕ) : ℕ := ((s.take maxlen).takeWhile (· != 0)).length

/-- Whether `command_connect` finds the metadata's magic. -/
def hasMagic (md : AppMetadata) : Prop := md.magic = appMetadataMagic

instance (md : AppMetadata) : Decidable (hasMagic md) := inferInstanceAs (Decidable (_ = _))

/-- The variable `variant_name` of `command_connect`, cut to `variant_len` bytes. -/
def connectVariant (md : AppMetadata) : List Byte :=
  if hasMagic md then md.appVariantName.take (strnlen md.appVariantName 32) else []

/-- The variable `app_version` of `command_connect`. -/
def connectAppVersion (md : AppMetadata) : Word := if hasMagic md then md.appVersion else 0

/-- The variable `app_flash_size` of `command_connect`. -/
def connectAppFlashSize (cfg : Config) : Word :=
  BitVec.ofNat 32 cfg.flashSize -
    (BitVec.ofNat 32 cfg.launchAppAddress - BitVec.ofNat 32 cfg.flashStart)

/-- The length in words of the array `out` of `command_connect`. -/
def connectOutLen (cfg : Config) (md : AppMetadata) : ℕ :=
  10 + divRoundUp4 cfg.mcu.strlen + divRoundUp4 cfg.katapultVersion.strlen
    + divRoundUp4 (connectVariant md).length

/-- The array `out` of `command_connect`, before the header, command and trailer words. -/
def connectOut (cfg : Config) (md : AppMetadata) : List Byte :=
  let mcuwords := divRoundUp4 cfg.mcu.strlen
  let versionWords := divRoundUp4 cfg.katapultVersion.strlen
  let out := wordArray (connectOutLen cfg md)
  let out := setWord out 2 protoVersion
  let out := setWord out 3 (BitVec.ofNat 32 cfg.launchAppAddress)
  let out := setWord out 4 (BitVec.ofNat 32 cfg.blockSize)
  let out := setWord out 5 (connectAppFlashSize cfg)
  let out := setWord out 6 (connectAppVersion md)
  let out := overwrite out (4 * 7) cfg.mcu.val
  let out := overwrite out (4 * (8 + mcuwords)) cfg.katapultVersion.val
  if 0 < (connectVariant md).length then
    overwrite out (4 * (9 + mcuwords + versionWords)) (connectVariant md)
  else out

/-- `command_connect` -/
def commandConnect (b : Board S T) (d : Device S T) : Device S T × List (List Byte) :=
  let d := { d with isInTransfer := false, totalBytesWritten := 0 }
  let md := appvalidateGetMetadata b.cfg d.flash.mem
  (d, [commandRespondAck cmdConnect (connectOut b.cfg md) (connectOutLen b.cfg md)])

/-- `command_complete` -/
def commandComplete (b : Board S T) (now : T) (d : Device S T) : Device S T × List (List Byte) :=
  ({ d with complete := true, completeEndtime := b.timer.add now (b.timer.fromUs 100000) },
    [commandRespondAck cmdComplete (wordArray 3) 3])

/-- `flashcmd_block_in_range` -/
def flashcmdBlockInRange (cfg : Config) (blockAddress : ℕ) : Bool :=
  if blockAddress < cfg.launchAppAddress then false
  else if cfg.flashEnd - cfg.blockSize < blockAddress then false
  else true

/-- `command_read_block` -/
def commandReadBlock (b : Board S T) (d : Device S T) (data : List Byte) :
    Device S T × List (List Byte) :=
  let d := { d with isInTransfer := true }
  let blockAddress := getWord data 1
  if !flashcmdBlockInRange b.cfg blockAddress.toNat then (d, [commandRespondCommandError])
  else
    let outLen := b.cfg.blockSize / 4 + 2 + 2
    let out := setWord (wordArray outLen) 2 blockAddress
    let out := overwrite out (4 * 3) (read d.flash.mem blockAddress.toNat b.cfg.blockSize)
    (d, [commandRespondAck cmdReqBlock out outLen])

/-- `command_write_block` -/
def commandWriteBlock (b : Board S T) (d : Device S T) (data : List Byte) :
    Device S T × List (List Byte) :=
  let d := { d with isInTransfer := true }
  if commandGetArgCount data ≠ b.cfg.blockSize / 4 + 1 then (d, [commandRespondCommandError])
  else
    let blockAddress := getWord data 1
    if !flashcmdBlockInRange b.cfg blockAddress.toNat then (d, [commandRespondCommandError])
    else
      let d :=
        if blockAddress.toNat = b.cfg.launchAppAddress then { d with totalBytesWritten := 0 }
        else d
      let r := b.backend.flashWriteBlock d.backend d.flash blockAddress.toNat
        ((data.drop 8).take b.cfg.blockSize)
      let d := { d with backend := r.2.1, flash := r.2.2 }
      if r.1 < 0 then (d, [commandRespondCommandError])
      else
        ({ d with totalBytesWritten := d.totalBytesWritten + BitVec.ofNat 32 b.cfg.blockSize },
          [commandRespondAck cmdRxBlock (setWord (wordArray 4) 2 blockAddress) 4])

/-- `command_eof` -/
def commandEof (b : Board S T) (d : Device S T) : Device S T × List (List Byte) :=
  let d := { d with isInTransfer := false }
  let r := b.backend.flashComplete d.backend d.flash
  let d := { d with backend := r.2.1, flash := r.2.2 }
  if r.1 < 0 then (d, [commandRespondCommandError])
  else (d, [commandRespondAck cmdRxEof (setWord (wordArray 4) 2 (BitVec.ofInt 32 r.1)) 4])

/-- `command_get_canbus_id` -/
def commandGetCanbusId (d : Device S T) : Device S T × List (List Byte) :=
  (d, [commandRespondAck cmdGetCanbusId (overwrite (wordArray 5) (4 * 2) d.uuid.val) 5])

/-- `led_identify` -/
def ledIdentify (b : Board S T) (now : T) (d : Device S T) : Device S T :=
  { d with modeEnd := b.timer.add now (b.timer.fromUs 10000000) }

/-! ### The layout of the CONNECT response -/

/-- A string filled up with zero bytes to whole words. -/
def padWords (s : List Byte) : List Byte :=
  s ++ List.replicate (4 * divRoundUp4 s.length - s.length) 0

theorem le_divRoundUp4 (n : ℕ) : n ≤ 4 * divRoundUp4 n := by
  rw [divRoundUp4]
  omega

@[simp] theorem padWords_length (s : List Byte) :
    (padWords s).length = 4 * divRoundUp4 s.length := by
  rw [padWords, List.length_append, List.length_replicate]
  have := le_divRoundUp4 s.length
  omega

/-- The five numbers of the response. -/
def connectFields (cfg : Config) (md : AppMetadata) : List Byte :=
  le32 protoVersion ++ le32 (BitVec.ofNat 32 cfg.launchAppAddress)
    ++ le32 (BitVec.ofNat 32 cfg.blockSize) ++ le32 (connectAppFlashSize cfg)
    ++ le32 (connectAppVersion md)

@[simp] theorem connectFields_length (cfg : Config) (md : AppMetadata) :
    (connectFields cfg md).length = 20 := rfl

/-- A string stored into a zeroed array pads itself. -/
theorem overwrite_padWords {pre s : List Byte} {off k : ℕ} (hoff : off = pre.length)
    (h : 4 * divRoundUp4 s.length ≤ k) :
    overwrite (pre ++ List.replicate k 0) off s =
      pre ++ padWords s ++ List.replicate (k - 4 * divRoundUp4 s.length) 0 := by
  have hle := le_divRoundUp4 s.length
  have hsplit : List.replicate (k - s.length) (0 : Byte) =
      List.replicate (4 * divRoundUp4 s.length - s.length) 0 ++
        List.replicate (k - 4 * divRoundUp4 s.length) 0 := by
    rw [List.replicate_append_replicate]
    congr 1
    omega
  rw [overwrite_replicate 0 hoff (by omega), List.replicate_zero, List.append_nil,
    Nat.sub_zero, hsplit, padWords]
  simp only [List.append_assoc]

@[simp] theorem padWords_nil : padWords [] = [] := rfl

/-- A zero word is left free before the next string. -/
theorem append_replicate_gap (pre : List Byte) (k : ℕ) :
    pre ++ List.replicate (4 + k) 0 = pre ++ wordArray 1 ++ List.replicate k 0 := by
  rw [List.append_assoc, wordArray, List.replicate_append_replicate]

/-- The five words in front, stored into a zeroed array with room for `k` more bytes. -/
theorem setWord_connectFields (cfg : Config) (md : AppMetadata) {n k : ℕ} (hn : 4 * n = 28 + k) :
    setWord (setWord (setWord (setWord (setWord (wordArray n)
        2 protoVersion) 3 (BitVec.ofNat 32 cfg.launchAppAddress))
        4 (BitVec.ofNat 32 cfg.blockSize)) 5 (connectAppFlashSize cfg))
        6 (connectAppVersion md) =
      wordArray 2 ++ connectFields cfg md ++ List.replicate k 0 := by
  have harr : wordArray n = wordArray 2 ++ List.replicate (20 + k) 0 := by
    rw [wordArray, wordArray, List.replicate_append_replicate, hn]
    congr 1
    omega
  have hrest : 20 + k - 4 - 4 - 4 - 4 - 4 = k := by omega
  rw [harr, setWord_replicate _ rfl (by omega), setWord_replicate _ rfl (by omega),
    setWord_replicate _ rfl (by omega), setWord_replicate _ rfl (by omega),
    setWord_replicate _ rfl (by omega), connectFields, hrest]
  simp only [List.append_assoc]

/-- The variant name is stored if there is one, and leaves a zero word behind it. -/
theorem overwrite_variant {pre s : List Byte} {off k : ℕ} (hoff : off = pre.length)
    (hk : k = 4 * divRoundUp4 s.length + 4) :
    (if 0 < s.length then overwrite (pre ++ List.replicate k 0) off s
      else pre ++ List.replicate k 0) = pre ++ padWords s ++ wordArray 1 := by
  have hleft : k - 4 * divRoundUp4 s.length = 4 * 1 := by omega
  split_ifs with hpos
  · rw [overwrite_padWords hoff (by omega), hleft, wordArray]
  · obtain rfl := List.eq_nil_of_length_eq_zero (Nat.eq_zero_of_not_pos hpos)
    rw [hk, padWords_nil, List.append_nil, wordArray]
    rfl

/-- **The layout of the CONNECT response**: five numbers and three padded strings, with a
zero word after each of the first two. -/
theorem connectOut_eq (cfg : Config) (md : AppMetadata) :
    connectOut cfg md = wordArray 2 ++ connectFields cfg md ++ padWords cfg.mcu.val
      ++ wordArray 1 ++ padWords cfg.katapultVersion.val ++ wordArray 1
      ++ padWords (connectVariant md) ++ wordArray 1 := by
  have hmcu : cfg.mcu.strlen = cfg.mcu.val.length := rfl
  have hversion : cfg.katapultVersion.strlen = cfg.katapultVersion.val.length := rfl
  obtain ⟨mw, hmw⟩ : ∃ mw, divRoundUp4 cfg.mcu.val.length = mw := ⟨_, rfl⟩
  obtain ⟨vw, hvw⟩ : ∃ vw, divRoundUp4 cfg.katapultVersion.val.length = vw := ⟨_, rfl⟩
  obtain ⟨nw, hnw⟩ : ∃ nw, divRoundUp4 (connectVariant md).length = nw := ⟨_, rfl⟩
  have hlen : 4 * connectOutLen cfg md = 28 + (12 + 4 * mw + 4 * vw + 4 * nw) := by
    rw [connectOutLen, hmcu, hversion, hmw, hvw, hnw]
    omega
  -- where the strings go
  have hA : (wordArray 2 ++ connectFields cfg md).length = 28 := rfl
  have hB : (wordArray 2 ++ connectFields cfg md ++ padWords cfg.mcu.val ++ wordArray 1).length =
      4 * (8 + mw) := by
    rw [List.length_append, List.length_append, hA, padWords_length, hmw, wordArray_length]
    omega
  have hC : (wordArray 2 ++ connectFields cfg md ++ padWords cfg.mcu.val ++ wordArray 1
      ++ padWords cfg.katapultVersion.val ++ wordArray 1).length = 4 * (9 + mw + vw) := by
    rw [List.length_append, List.length_append, hB, padWords_length, hvw, wordArray_length]
    omega
  have hafter₁ : 12 + 4 * mw + 4 * vw + 4 * nw - 4 * mw = 4 + (8 + 4 * vw + 4 * nw) := by omega
  have hafter₂ : 8 + 4 * vw + 4 * nw - 4 * vw = 4 + (4 * nw + 4) := by omega
  rw [connectOut, setWord_connectFields cfg md hlen, hmcu, hversion, hmw, hvw,
    overwrite_padWords hA.symm (by omega), hmw, hafter₁, append_replicate_gap,
    overwrite_padWords hB.symm (by omega), hvw, hafter₂, append_replicate_gap]
  exact overwrite_variant hC.symm (by omega)

theorem connectOut_length (cfg : Config) (md : AppMetadata) :
    (connectOut cfg md).length = 4 * connectOutLen cfg md := by
  have hmcu : cfg.mcu.strlen = cfg.mcu.val.length := rfl
  have hversion : cfg.katapultVersion.strlen = cfg.katapultVersion.val.length := rfl
  rw [connectOut_eq, connectOutLen, hmcu, hversion]
  simp only [List.length_append, wordArray_length, connectFields_length, padWords_length]
  omega

/-- The payload of the response, behind the command word. -/
def connectPayload (cfg : Config) (md : AppMetadata) : List Byte :=
  connectFields cfg md ++ padWords cfg.mcu.val ++ wordArray 1
    ++ padWords cfg.katapultVersion.val ++ wordArray 1 ++ padWords (connectVariant md)

theorem connectPayload_length (cfg : Config) (md : AppMetadata) :
    (connectPayload cfg md).length = 4 * (connectOutLen cfg md - 3) := by
  have hlen := connectOut_length cfg md
  rw [connectOut_eq] at hlen
  rw [connectPayload]
  simp only [List.length_append, wordArray_length] at hlen ⊢
  omega

/-- The response to CONNECT as a frame: the last word of the array is the trailer. -/
theorem commandRespondAck_connect (cfg : Config) (md : AppMetadata) :
    commandRespondAck cmdConnect (connectOut cfg md) (connectOutLen cfg md) =
      frame 0xa0 (le32 cmdConnect ++ connectPayload cfg md) := by
  have hn : 10 ≤ connectOutLen cfg md := by
    rw [connectOutLen]
    omega
  have hout : connectOut cfg md = wordArray 2 ++ (connectPayload cfg md ++ wordArray 1) := by
    rw [connectOut_eq, connectPayload]
    simp only [List.append_assoc]
  rw [commandRespondAck_eq cmdConnect (by omega) (connectOut_length cfg md).ge, hout,
    List.drop_left' (wordArray_length 2), ← connectPayload_length, List.take_left]

/-! ### What a write can change -/

/-- A block that is refused before the driver is called. -/
theorem commandWriteBlock_of_refused {b : Board S T} (d : Device S T) {data : List Byte}
    (h : ¬(commandGetArgCount data = b.cfg.blockSize / 4 + 1 ∧
      flashcmdBlockInRange b.cfg (getWord data 1).toNat = true)) :
    commandWriteBlock b d data =
      ({ d with isInTransfer := true }, [commandRespondCommandError]) := by
  rw [commandWriteBlock]
  dsimp only
  by_cases hcount : commandGetArgCount data = b.cfg.blockSize / 4 + 1
  · rw [if_neg (not_not.mpr hcount)]
    refine if_pos ?_
    rw [Bool.not_eq_true', Bool.eq_false_iff]
    exact fun hrange => h ⟨hcount, hrange⟩
  · exact if_pos hcount

/-- A block of the right size, in range, is handed to the driver and answered according to
the driver's result. -/
theorem commandWriteBlock_of_inRange {b : Board S T} {d : Device S T} {data : List Byte}
    (hcount : commandGetArgCount data = b.cfg.blockSize / 4 + 1)
    (hrange : flashcmdBlockInRange b.cfg (getWord data 1).toNat = true) {ret : ℤ} {st : S}
    {f : Flash} (hwrite : b.backend.flashWriteBlock d.backend d.flash (getWord data 1).toNat
      ((data.drop 8).take b.cfg.blockSize) = (ret, st, f)) :
    ∃ total, commandWriteBlock b d data = ({ d with
        isInTransfer := true
        totalBytesWritten := total
        backend := st
        flash := f }, [if ret < 0 then commandRespondCommandError
          else commandRespondAck cmdRxBlock (setWord (wordArray 4) 2 (getWord data 1)) 4]) := by
  obtain ⟨resp, hresp⟩ : ∃ resp, (if ret < 0 then commandRespondCommandError
      else commandRespondAck cmdRxBlock (setWord (wordArray 4) 2 (getWord data 1)) 4) = resp :=
    ⟨_, rfl⟩
  rw [hresp, commandWriteBlock]
  dsimp only
  split_ifs with hcount' hrange' hlaunch hret hret
  · exact absurd hcount hcount'
  · rw [hrange] at hrange'
    exact absurd hrange' nofun
  all_goals
    rw [hwrite] at hret ⊢
    first
    | exact ⟨_, by rw [← hresp, if_pos hret]⟩
    | exact ⟨_, by rw [← hresp, if_neg hret]⟩

/-- The outcomes of `command_write_block`: refused before the driver is called, or answered
according to the driver's result. -/
theorem commandWriteBlock_cases (b : Board S T) (d : Device S T) (data : List Byte) :
    commandWriteBlock b d data = ({ d with isInTransfer := true }, [commandRespondCommandError]) ∨
    ∃ ret st f total, commandGetArgCount data = b.cfg.blockSize / 4 + 1 ∧
      flashcmdBlockInRange b.cfg (getWord data 1).toNat = true ∧
      b.backend.flashWriteBlock d.backend d.flash (getWord data 1).toNat
        ((data.drop 8).take b.cfg.blockSize) = (ret, st, f) ∧
      commandWriteBlock b d data = ({ d with
        isInTransfer := true
        totalBytesWritten := total
        backend := st
        flash := f }, [if ret < 0 then commandRespondCommandError
          else commandRespondAck cmdRxBlock (setWord (wordArray 4) 2 (getWord data 1)) 4]) := by
  by_cases hok : commandGetArgCount data = b.cfg.blockSize / 4 + 1 ∧
      flashcmdBlockInRange b.cfg (getWord data 1).toNat = true
  · obtain ⟨hcount, hrange⟩ := hok
    obtain ⟨ret, st, f, hwrite⟩ : ∃ ret st f, b.backend.flashWriteBlock d.backend d.flash
        (getWord data 1).toNat ((data.drop 8).take b.cfg.blockSize) = (ret, st, f) := ⟨_, _, _, rfl⟩
    obtain ⟨total, h⟩ := commandWriteBlock_of_inRange (d := d) hcount hrange hwrite
    exact .inr ⟨ret, st, f, total, hcount, hrange, hwrite, h⟩
  · exact .inl (commandWriteBlock_of_refused d hok)

/-- `command_eof` is answered according to the driver's result. -/
theorem commandEof_cases (b : Board S T) (d : Device S T) : ∃ ret st f,
    b.backend.flashComplete d.backend d.flash = (ret, st, f) ∧
    commandEof b d = ({ d with isInTransfer := false, backend := st, flash := f },
      [if ret < 0 then commandRespondCommandError
        else commandRespondAck cmdRxEof (setWord (wordArray 4) 2 (BitVec.ofInt 32 ret)) 4]) := by
  refine ⟨_, _, _, rfl, ?_⟩
  rw [commandEof]
  dsimp only
  split_ifs <;> rfl

/-- `command_read_block` is answered by an error or by the block. -/
theorem commandReadBlock_cases (b : Board S T) (d : Device S T) (data : List Byte) : ∃ resp,
    commandReadBlock b d data = ({ d with isInTransfer := true }, [resp]) ∧
      (resp = commandRespondCommandError ∨
        resp = commandRespondAck cmdReqBlock
          (overwrite (setWord (wordArray (b.cfg.blockSize / 4 + 4)) 2 (getWord data 1)) 12
            (read d.flash.mem (getWord data 1).toNat b.cfg.blockSize)) (b.cfg.blockSize / 4 + 4)) := by
  rw [commandReadBlock]
  dsimp only
  split_ifs
  · exact ⟨_, rfl, .inl rfl⟩
  · exact ⟨_, rfl, .inr rfl⟩

/-- A block write marks a transfer, also when it is refused. -/
theorem commandWriteBlock_isInTransfer (b : Board S T) (d : Device S T) (data : List Byte) :
    (commandWriteBlock b d data).1.isInTransfer = true := by
  obtain h | ⟨_, _, _, _, -, -, -, h⟩ := commandWriteBlock_cases b d data <;> rw [h]

theorem commandReadBlock_isInTransfer (b : Board S T) (d : Device S T) (data : List Byte) :
    (commandReadBlock b d data).1.isInTransfer = true := by
  obtain ⟨_, h, -⟩ := commandReadBlock_cases b d data
  rw [h]

theorem commandEof_isInTransfer (b : Board S T) (d : Device S T) :
    (commandEof b d).1.isInTransfer = false := by
  obtain ⟨_, _, _, -, h⟩ := commandEof_cases b d
  rw [h]

end Terraboot
