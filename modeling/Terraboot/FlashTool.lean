import Mathlib.Data.List.DropRight
import Terraboot.Boards
import Terraboot.FlashCmd

/-!
# What the Flash Tool Makes of CONNECT

`CanFlasher.connect_btl` of `scripts/flashtool.py` and the slice of the acknowledgement
that `send_command` hands to it. Python's exceptions are the errors of `Except`; `bytes`
are lists of bytes, `decode` is strict UTF-8.

## Main results

* `FlashTool.sendCommandPayload_connect`: the slice of the device's response the tool
  looks at.
* `connectBtl_not_describes`: whatever the strings, the numbers and the metadata page, the
  tool never gets the device's description out of it.
-/

open LittleEndian NorFlash

namespace Terraboot

variable {S T : Type}

namespace FlashTool

/-- What `connect_btl` can raise. -/
inductive ConnectError
  | structError
  | invalidBlockSize (n : Word)
  | unicodeDecodeError
  | mcuMismatch
  deriving DecidableEq

/-- `bytes.decode` -/
def decode (s : List Byte) : Except ConnectError String :=
  match String.fromUTF8? ⟨(s.map UInt8.ofBitVec).toArray⟩ with
  | some str => .ok str
  | none => .error .unicodeDecodeError

/-- `bytes.rstrip(b"\x00")` -/
def rstrip (s : List Byte) : List Byte := s.rdropWhile (· == 0)

/-- `bytes.split(b"\x00", maxsplit=1)`: what stands before the first zero byte, and what
stands after it if there is one. -/
def split (s : List Byte) : List Byte × Option (List Byte) :=
  (s.takeWhile (· != 0), (s.dropWhile (· != 0)).tail?)

/-- What `connect_btl` learns about the device. -/
structure Connected where
  protoVersion : List Byte
  appStartAddr : Word
  blockSize : Word
  mcuType : String
  softwareVersion : String

/-- The MCU type and the software version that `connect_btl` reads from what follows the
first 12 bytes. -/
def decodeBuild (protoVersion mcuInfo : List Byte) : Except ConnectError (String × String) :=
  let mcuInfo := rstrip mcuInfo
  if protoVersion < [1, 1, 0] then do
    let mcuType ← decode mcuInfo
    return (mcuType, "?")
  else do
    let buildInfo := split mcuInfo
    let mcuType ← decode buildInfo.1
    match buildInfo.2 with
    | some version => do
        let softwareVersion ← decode version
        return (mcuType, softwareVersion)
    | none => return (mcuType, "?")

/-- `connect_btl` on the payload returned by `send_command`. The string is the MCU of the
`klipper_dict`, if there is one. -/
def connectBtl (binMcu : String) (ret : List Byte) : Except ConnectError Connected :=
  let pinfo := ret.take 12
  let mcuInfo := ret.drop 12
  -- `struct.unpack("<4sII", pinfo)`
  if pinfo.length ≠ 12 then .error .structError
  else
    let verBytes := pinfo.take 4
    let startAddr := ofLe32 (pinfo.drop 4)
    let blockSize := ofLe32 (pinfo.drop 8)
    let protoVersion := (verBytes.take 3).reverse
    if blockSize ∉ [64, 128, 256, 512] then .error (.invalidBlockSize blockSize)
    else do
      let (mcuType, softwareVersion) ← decodeBuild protoVersion mcuInfo
      if binMcu ≠ "" ∧ binMcu ≠ mcuType then .error .mcuMismatch
      else return ⟨protoVersion, startAddr, blockSize, mcuType, softwareVersion⟩

/-- What `send_command` returns of an accepted response: the payload without the
acknowledged command. -/
def sendCommandPayload (data : List Byte) : List Byte :=
  let recdLen := (data.getD 3 0).toNat * 4
  if recdLen ≤ 4 then [] else (data.take (recdLen + 4)).drop 8

/-- The tool has the device's description. -/
structure Connected.Describes (r : Connected) (cfg : Config) : Prop where
  protoVersion : r.protoVersion = ((le32 Terraboot.protoVersion).take 3).reverse
  appStartAddr : r.appStartAddr = BitVec.ofNat 32 cfg.launchAppAddress
  blockSize : r.blockSize = BitVec.ofNat 32 cfg.blockSize
  mcuType : decode cfg.mcu.val = .ok r.mcuType
  softwareVersion : decode cfg.katapultVersion.val = .ok r.softwareVersion

/-! ### Strings -/

theorem toByteArray_of_decode {s : List Byte} {str : String} (h : decode s = .ok str) :
    str.toByteArray = ⟨(s.map UInt8.ofBitVec).toArray⟩ := by
  rw [decode] at h
  split at h
  · rename_i str' hstr
    obtain rfl := Except.ok.inj h
    rw [String.fromUTF8?] at hstr
    split at hstr
    · obtain rfl := Option.some.inj hstr
      rfl
    · exact absurd hstr nofun
  · exact absurd h nofun

/-- Different bytes never decode to the same string. -/
theorem decode_injective {s t : List Byte} {str : String} (hs : decode s = .ok str)
    (ht : decode t = .ok str) : s = t := by
  have h := (toByteArray_of_decode hs).symm.trans (toByteArray_of_decode ht)
  have hlist : s.map UInt8.ofBitVec = t.map UInt8.ofBitVec :=
    congrArg (fun a : ByteArray => a.data.toList) h
  exact List.map_injective_iff.mpr (fun _ _ => UInt8.ofBitVec.inj) hlist

theorem decode_nil : decode [] = .ok "" := by
  have hvalid : String.fromUTF8? ⟨(([] : List Byte).map UInt8.ofBitVec).toArray⟩ = some "" :=
    dif_pos ByteArray.isValidUTF8_empty
  rw [decode, hvalid]

/-- Bytes that do not start with a character do not decode. -/
theorem decode_eq_error {s : List Byte} (hs : s ≠ [])
    (h : (⟨(s.map UInt8.ofBitVec).toArray⟩ : ByteArray).utf8DecodeChar? 0 = none) :
    decode s = .error .unicodeDecodeError := by
  cases hstr : String.fromUTF8? ⟨(s.map UInt8.ofBitVec).toArray⟩ with
  | none => rw [decode, hstr]
  | some str =>
      have hdecode : decode s = .ok str := by rw [decode, hstr]
      have hbytes := toByteArray_of_decode hdecode
      have hne : str ≠ "" := by
        rintro rfl
        have hsize : 0 = (s.map UInt8.ofBitVec).length := congrArg ByteArray.size hbytes
        rw [List.length_map] at hsize
        exact hs (List.eq_nil_of_length_eq_zero hsize.symm)
      have hsome := String.isSome_utf8DecodeChar?_zero hne
      rw [hbytes, h] at hsome
      exact absurd hsome nofun

/-- `rstrip` takes off zero bytes only. -/
theorem exists_rstrip (s : List Byte) : ∃ k, s = rstrip s ++ List.replicate k 0 := by
  have hzero : s.rtakeWhile (· == 0) = List.replicate (s.rtakeWhile (· == 0)).length 0 :=
    List.eq_replicate_of_mem fun x hx => by simpa using List.mem_rtakeWhile_imp hx
  refine ⟨(s.rtakeWhile (· == 0)).length, ?_⟩
  rw [← hzero]
  exact List.rdropWhile_append_rtakeWhile.symm

/-- Nothing it leaves ends in a zero byte. -/
theorem rstrip_ne_concat (s t : List Byte) : rstrip s ≠ t ++ [0] := by
  intro h
  have hne : rstrip s ≠ [] := by simp [h]
  have hlast := List.rdropWhile_last_not (· == (0 : Byte)) s hne
  simp [rstrip] at h
  simp [h] at hlast

/-- The parts of a split, put together again. -/
theorem eq_of_split (s : List Byte) :
    s = (split s).1 ++ ((split s).2.map (0 :: ·)).getD [] := by
  have hs := List.takeWhile_append_dropWhile (p := (· != (0 : Byte))) (l := s)
  have hhead := List.head?_dropWhile_not (· != (0 : Byte)) s
  rw [split]
  cases hd : s.dropWhile (· != 0) with
  | nil =>
      rw [hd] at hs
      exact hs.symm
  | cons x rest =>
      rw [hd] at hs hhead
      obtain rfl : x = 0 := by simpa using hhead
      exact hs.symm

/-- The number of bytes that are not zero. -/
def nonzero (s : List Byte) : ℕ := s.countP (· != 0)

@[simp] theorem nonzero_append (s t : List Byte) : nonzero (s ++ t) = nonzero s + nonzero t :=
  List.countP_append

@[simp] theorem nonzero_replicate (k : ℕ) : nonzero (List.replicate k 0) = 0 := by
  simp [nonzero]

@[simp] theorem nonzero_wordArray (n : ℕ) : nonzero (wordArray n) = 0 :=
  nonzero_replicate _

@[simp] theorem nonzero_padWords (s : List Byte) : nonzero (padWords s) = nonzero s := by
  rw [padWords, nonzero_append, nonzero_replicate, Nat.add_zero]

theorem nonzero_eq_length {s : List Byte} (h : 0 ∉ s) : nonzero s = s.length := by
  rw [nonzero, List.countP_eq_length]
  intro x hx
  simpa using ne_of_mem_of_not_mem hx h

theorem eq_replicate_of_nonzero {s : List Byte} (h : nonzero s = 0) :
    s = List.replicate s.length 0 := by
  rw [nonzero, List.countP_eq_zero] at h
  exact List.eq_replicate_of_mem fun x hx => by simpa using h x hx

/-- **No split where it should be.** With eight bytes in front of them, two strings with
zero bytes between and after them never come out as they went in. -/
theorem rstrip_ne_strings {front m v tail : List Byte} (hfront : front.length = 8) (hm : 0 ∉ m)
    (hv : 0 ∉ v) :
    rstrip (front ++ padWords m ++ wordArray 1 ++ padWords v ++ tail) ≠ m ++ 0 :: v := by
  intro h
  obtain ⟨k, hk⟩ := exists_rstrip (front ++ padWords m ++ wordArray 1 ++ padWords v ++ tail)
  rw [h] at hk
  have hcount := congrArg nonzero hk
  have hcons : nonzero (0 :: v) = nonzero v := by simp [nonzero]
  simp only [nonzero_append, nonzero_padWords, nonzero_wordArray, nonzero_replicate, hcons]
    at hcount
  obtain rfl : front = List.replicate 8 0 := by
    have hzero := eq_replicate_of_nonzero (s := front) (by omega)
    rwa [hfront] at hzero
  cases m with
  | cons x m =>
      obtain rfl : 0 = x := congrArg (fun l : List Byte => l.headD 0) hk
      exact hm (List.mem_cons_self ..)
  | nil =>
      cases v with
      | nil => exact rstrip_ne_concat _ [] h
      | cons y v =>
          obtain rfl : 0 = y := congrArg (fun l : List Byte => l.getD 1 0) hk
          exact hv (List.mem_cons_self ..)

/-- Nor does the first of them come out alone. -/
theorem rstrip_ne_string {front m v tail : List Byte} (hm : 0 ∉ m) (hv : 0 ∉ v) (hne : v ≠ []) :
    rstrip (front ++ padWords m ++ wordArray 1 ++ padWords v ++ tail) ≠ m := by
  intro h
  obtain ⟨k, hk⟩ := exists_rstrip (front ++ padWords m ++ wordArray 1 ++ padWords v ++ tail)
  rw [h] at hk
  have hcount := congrArg nonzero hk
  simp only [nonzero_append, nonzero_padWords, nonzero_wordArray, nonzero_replicate] at hcount
  have hpos : 0 < v.length := List.length_pos_iff.mpr hne
  rw [nonzero_eq_length hm, nonzero_eq_length hv] at hcount
  omega

/-- What a successful `connect_btl` has decoded, from protocol 1.1.0 on. -/
theorem decodeBuild_ok {protoVersion mcuInfo : List Byte} {m v : String}
    (hproto : ¬protoVersion < [1, 1, 0]) (h : decodeBuild protoVersion mcuInfo = .ok (m, v)) :
    (∃ pre rest, rstrip mcuInfo = pre ++ 0 :: rest ∧ decode pre = .ok m ∧ decode rest = .ok v) ∨
      decode (rstrip mcuInfo) = .ok m ∧ v = "?" := by
  have hs := eq_of_split (rstrip mcuInfo)
  rw [decodeBuild, if_neg hproto] at h
  obtain ⟨pre, rest, hsplit⟩ : ∃ pre rest, split (rstrip mcuInfo) = (pre, rest) := ⟨_, _, rfl⟩
  rw [hsplit] at h hs
  dsimp only at h hs
  cases hpre : decode pre with
  | error e =>
      rw [hpre] at h
      exact absurd h nofun
  | ok m' =>
      rw [hpre] at h
      cases rest with
      | none =>
          obtain ⟨rfl, rfl⟩ := Prod.mk.inj (Except.ok.inj h)
          obtain hs : rstrip mcuInfo = pre := by simpa using hs
          exact .inr ⟨by rw [hs, hpre], rfl⟩
      | some rest =>
          cases hrest : decode rest with
          | error e =>
              dsimp only [bind, Except.bind] at h
              rw [hrest] at h
              exact absurd h nofun
          | ok v' =>
              dsimp only [bind, Except.bind] at h
              rw [hrest] at h
              obtain ⟨rfl, rfl⟩ := Prod.mk.inj (Except.ok.inj h)
              exact .inl ⟨pre, rest, hs, hpre, hrest⟩

/-- The four numbers and two strings of a successful `connect_btl`. -/
theorem connectBtl_ok {binMcu : String} {ret : List Byte} {r : Connected}
    (h : connectBtl binMcu ret = .ok r) :
    r.protoVersion = (ret.take 3).reverse ∧
      decodeBuild r.protoVersion (ret.drop 12) = .ok (r.mcuType, r.softwareVersion) := by
  rw [connectBtl] at h
  dsimp only at h
  have htake : ((ret.take 12).take 4).take 3 = ret.take 3 := by
    rw [List.take_take, List.take_take]
    rfl
  rw [htake] at h
  split_ifs at h with hlen hblock
  cases hbuild : decodeBuild (ret.take 3).reverse (ret.drop 12) with
  | error e =>
      rw [hbuild] at h
      exact absurd h nofun
  | ok mv =>
      rw [hbuild] at h
      dsimp only [bind, Except.bind] at h
      split_ifs at h with hmcu
      obtain rfl := Except.ok.inj h
      exact ⟨rfl, hbuild⟩

/-! ### The payload the tool sees -/

/-- Of an acknowledgement `send_command` returns as many bytes as the length byte says,
which for long ones is less than there are. -/
theorem sendCommandPayload_frame (cmd : Word) {q : List Byte} {k : ℕ} (hq : q.length = 4 * k) :
    sendCommandPayload (frame 0xa0 (le32 cmd ++ q)) = q.take (4 * ((k + 1) % 256) - 4) := by
  have hcount : (wordCount (le32 cmd ++ q)).toNat = (k + 1) % 256 := by
    rw [wordCount, List.length_append, le32_length, hq, BitVec.toNat_ofNat]
    congr 1
    omega
  have hle : (k + 1) % 256 ≤ k + 1 := Nat.mod_le _ _
  obtain ⟨tail, htail⟩ : ∃ tail, frame 0xa0 (le32 cmd ++ q) =
      ([messageStx1, messageStx2, 0xa0, wordCount (le32 cmd ++ q)] ++ le32 cmd) ++ (q ++ tail) :=
    ⟨le16 (crc16Ccitt (0xa0 :: wordCount (le32 cmd ++ q) :: (le32 cmd ++ q)))
      ++ [messageSync2, messageSync], by
      simp only [frame, List.append_assoc, List.cons_append, List.nil_append]⟩
  have hlen : (frame 0xa0 (le32 cmd ++ q)).getD 3 0 = wordCount (le32 cmd ++ q) := rfl
  rw [sendCommandPayload, hlen, hcount, htail]
  split_ifs with hshort
  · have hzero : 4 * ((k + 1) % 256) - 4 = 0 := by omega
    rw [hzero, List.take_zero]
  · have hcut : (k + 1) % 256 * 4 + 4 - 8 = 4 * ((k + 1) % 256) - 4 := by omega
    have hdrop : ([messageStx1, messageStx2, 0xa0, wordCount (le32 cmd ++ q)] ++ le32 cmd).length =
        8 := rfl
    rw [List.drop_take, List.drop_left' hdrop, hcut, List.take_append_of_le_length (by omega)]

/-- **What the tool gets to see of the response to CONNECT.** -/
theorem sendCommandPayload_connect (cfg : Config) (md : AppMetadata) :
    sendCommandPayload (commandRespondAck cmdConnect (connectOut cfg md) (connectOutLen cfg md)) =
      (connectFields cfg md ++ padWords cfg.mcu.val ++ wordArray 1
        ++ padWords cfg.katapultVersion.val ++ wordArray 1
        ++ padWords (connectVariant md)).take (4 * ((connectOutLen cfg md - 2) % 256) - 4) := by
  have hn : 10 ≤ connectOutLen cfg md := by
    rw [connectOutLen]
    omega
  have hcount : connectOutLen cfg md - 3 + 1 = connectOutLen cfg md - 2 := by omega
  rw [commandRespondAck_connect, sendCommandPayload_frame cmdConnect
    (connectPayload_length cfg md), hcount, connectPayload]

/-- The variant name has at most 32 bytes. -/
theorem connectVariant_length_le (md : AppMetadata) : (connectVariant md).length ≤ 32 := by
  have hle : strnlen md.appVariantName 32 ≤ 32 := by
    rw [strnlen]
    exact (List.takeWhile_prefix _).length_le.trans (List.length_take_le _ _)
  rw [connectVariant]
  split_ifs
  · exact (List.length_take_le _ _).trans hle
  · exact Nat.zero_le _

/-- What stands behind the first 12 bytes of the payload: two numbers and three padded
strings, cut off if the length byte has wrapped around. -/
theorem sendCommandPayload_connect_drop (cfg : Config) (md : AppMetadata) :
    (sendCommandPayload (commandRespondAck cmdConnect (connectOut cfg md)
        (connectOutLen cfg md))).drop 12 =
      (le32 (connectAppFlashSize cfg) ++ le32 (connectAppVersion md) ++ padWords cfg.mcu.val
        ++ wordArray 1 ++ padWords cfg.katapultVersion.val
        ++ (wordArray 1 ++ padWords (connectVariant md))).take
          (4 * ((connectOutLen cfg md - 2) % 256) - 16) := by
  have hcut : 4 * ((connectOutLen cfg md - 2) % 256) - 4 - 12 =
      4 * ((connectOutLen cfg md - 2) % 256) - 16 := by omega
  have hfields : connectFields cfg md =
      (le32 protoVersion ++ le32 (BitVec.ofNat 32 cfg.launchAppAddress)
        ++ le32 (BitVec.ofNat 32 cfg.blockSize))
      ++ (le32 (connectAppFlashSize cfg) ++ le32 (connectAppVersion md)) := by
    rw [connectFields]
    simp only [List.append_assoc]
  rw [sendCommandPayload_connect, List.drop_take, hcut, hfields]
  simp only [List.append_assoc]
  have hdrop : (le32 protoVersion ++ le32 (BitVec.ofNat 32 cfg.launchAppAddress)
      ++ le32 (BitVec.ofNat 32 cfg.blockSize)).length = 12 := rfl
  rw [← List.append_assoc, ← List.append_assoc, List.drop_left' hdrop]

/-- The version `connect_btl` makes up is one character long. -/
theorem length_of_decode_question {s : List Byte} (h : decode s = .ok "?") : s.length = 1 := by
  have hsize : 1 = (s.map UInt8.ofBitVec).length :=
    congrArg ByteArray.size (toByteArray_of_decode h)
  rw [hsize, List.length_map]

end FlashTool

open FlashTool in
/-- **The tool never gets the device's description.** Whatever the strings, the numbers of
the configuration and the content of the metadata page, the device acknowledges CONNECT
with one message, and `connect_btl` either raises on its payload or returns something else
than the device's protocol version, application start, block size, MCU and version. -/
theorem connectBtl_not_describes (b : Board S T) (d : Device S T) (binMcu : String) :
    ∃ msg, (commandConnect b d).2 = [msg] ∧
      ∀ r, connectBtl binMcu (sendCommandPayload msg) = .ok r → ¬r.Describes b.cfg := by
  refine ⟨_, rfl, fun r hr hd => ?_⟩
  obtain ⟨md, hmd⟩ : ∃ md, appvalidateGetMetadata b.cfg d.flash.mem = md := ⟨_, rfl⟩
  obtain ⟨-, hbuild⟩ := connectBtl_ok hr
  have hproto : ¬r.protoVersion < [1, 1, 0] := by
    rw [hd.protoVersion]
    decide
  dsimp only at hbuild
  rw [hmd, sendCommandPayload_connect_drop] at hbuild
  obtain ⟨cut, hcut⟩ : ∃ cut, 4 * ((connectOutLen b.cfg md - 2) % 256) - 16 = cut := ⟨_, rfl⟩
  obtain ⟨info, hinfo⟩ : ∃ info, le32 (connectAppFlashSize b.cfg) ++ le32 (connectAppVersion md)
      ++ padWords b.cfg.mcu.val ++ wordArray 1 ++ padWords b.cfg.katapultVersion.val
      ++ (wordArray 1 ++ padWords (connectVariant md)) = info := ⟨_, rfl⟩
  have hlen := congrArg List.length hinfo
  simp only [List.length_append, le32_length, padWords_length, wordArray_length] at hlen
  have hvariant := connectVariant_length_le md
  have hn : connectOutLen b.cfg md = 10 + divRoundUp4 b.cfg.mcu.val.length
      + divRoundUp4 b.cfg.katapultVersion.val.length + divRoundUp4 (connectVariant md).length := rfl
  rw [divRoundUp4, divRoundUp4, divRoundUp4] at hn hlen
  rw [hcut, hinfo] at hbuild
  -- either the tool sees everything, or less than the two strings take up
  have hsees : info.take cut = info ∨
      cut + 4 ≤ b.cfg.mcu.val.length + b.cfg.katapultVersion.val.length := by
    by_cases hfit : connectOutLen b.cfg md - 2 < 256
    · rw [Nat.mod_eq_of_lt hfit] at hcut
      exact .inl (List.take_of_length_le (by omega))
    · have hmod := Nat.mod_lt (connectOutLen b.cfg md - 2) (show 256 > 0 by omega)
      exact .inr (by omega)
  obtain ⟨k, hk⟩ := exists_rstrip (info.take cut)
  have hstrip : (rstrip (info.take cut)).length ≤ cut := by
    have := congrArg List.length hk
    rw [List.length_append, List.length_take] at this
    omega
  rcases decodeBuild_ok hproto hbuild with ⟨pre, rest, hparts, hpre, hrest⟩ | ⟨hpre, hversion⟩
  · obtain rfl := decode_injective hpre hd.mcuType
    obtain rfl := decode_injective hrest hd.softwareVersion
    rcases hsees with hall | hshort
    · rw [hall, ← hinfo] at hparts
      exact rstrip_ne_strings rfl b.cfg.mcu.property b.cfg.katapultVersion.property hparts
    · rw [hparts, List.length_append, List.length_cons] at hstrip
      omega
  · have hmcu := decode_injective hpre hd.mcuType
    have hone : b.cfg.katapultVersion.val.length = 1 :=
      length_of_decode_question (by rw [hd.softwareVersion, hversion])
    rcases hsees with hall | hshort
    · rw [hall, ← hinfo] at hmcu
      exact rstrip_ne_string b.cfg.mcu.property b.cfg.katapultVersion.property
        (List.ne_nil_of_length_pos (by omega)) hmcu
    · rw [hmcu] at hstrip
      omega

open FlashTool in
/-- On a factory-fresh board of the shipped configuration, the number of writable bytes in
front of the strings starts with a zero byte: the MCU type comes out empty, and decoding
the rest, which starts with the number's next byte, raises. -/
theorem connectBtl_raises :
    ∃ msg, (commandConnect steinzeitBoard steinzeitDevice).2 = [msg] ∧
      connectBtl "" (sendCommandPayload msg) = .error .unicodeDecodeError := by
  refine ⟨_, rfl, ?_⟩
  have hinfo : (sendCommandPayload (commandRespondAck cmdConnect
      (connectOut steinzeitBoard.cfg (appvalidateGetMetadata steinzeitBoard.cfg
        steinzeitDevice.flash.mem))
      (connectOutLen steinzeitBoard.cfg (appvalidateGetMetadata steinzeitBoard.cfg
        steinzeitDevice.flash.mem)))).drop 12 =
      [0x00, 0xe0, 0x00, 0x00, 0x00, 0x00, 0x00, 0x00] ++ padWords steinzeit.mcu.val
        ++ wordArray 1 ++ padWords steinzeit.katapultVersion.val ++ wordArray 1 := by
    rw [sendCommandPayload_connect_drop]
    decide
  obtain ⟨payload, hpayload⟩ : ∃ payload, sendCommandPayload (commandRespondAck cmdConnect
      (connectOut steinzeitBoard.cfg (appvalidateGetMetadata steinzeitBoard.cfg
        steinzeitDevice.flash.mem))
      (connectOutLen steinzeitBoard.cfg (appvalidateGetMetadata steinzeitBoard.cfg
        steinzeitDevice.flash.mem))) = payload := ⟨_, rfl⟩
  have hpinfo : payload.take 12 =
      [0x00, 0x01, 0x01, 0x00, 0x00, 0x20, 0x00, 0x08, 0x40, 0x00, 0x00, 0x00] := by
    rw [← hpayload, sendCommandPayload_connect]
    decide
  rw [hpayload] at hinfo
  have hsplit : split (rstrip (payload.drop 12)) = ([], some ([0xe0, 0x00, 0x00, 0x00, 0x00, 0x00,
      0x00] ++ padWords steinzeit.mcu.val ++ wordArray 1 ++ steinzeit.katapultVersion.val)) := by
    rw [hinfo]
    decide
  have hbuild : decodeBuild [0x01, 0x01, 0x00] (payload.drop 12) = .error .unicodeDecodeError := by
    rw [decodeBuild, if_neg (by decide), hsplit]
    dsimp only
    rw [decode_nil, decode_eq_error (by decide) rfl]
    rfl
  rw [hpayload, connectBtl, hpinfo]
  dsimp only
  rw [if_neg (by decide), if_neg (by decide)]
  have hproto : ((([0x00, 0x01, 0x01, 0x00, 0x00, 0x20, 0x00, 0x08, 0x40, 0x00, 0x00, 0x00] :
      List Byte).take 4).take 3).reverse = [0x01, 0x01, 0x00] := rfl
  rw [hproto, hbuild]
  rfl

end Terraboot
