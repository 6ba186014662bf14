import Terraboot.CanSocket
import Terraboot.HashLanes

/-!
# The CAN UUID

The device derives its UUID from the id of its chip, `canserial_set_uuid`, and where it is a USB
device it shows the same id as its serial number, `usb_fill_serial`. `convert_usbsn_to_uuid` of
`scripts/flashtool.py` recovers the UUID from the serial number. It has its own `fasthash64`, on
unbounded integers that are masked.

## Main results

* `FlashTool.fasthash64_eq`: host and device compute the same hash.
* `fromHex_usbFillSerial`: the serial number is read back as the id of the chip.
* `convertUsbsnToUuid_eq`: the host derives the UUID of the device.
-/

open LittleEndian

namespace Terraboot

/-! ### The hash of the host -/

namespace FlashTool

/-- `MASK_64` -/
def mask64 : ℕ := 0xFFFFFFFFFFFFFFFF

/-- `mix` -/
def mix (val : ℕ) : ℕ :=
  let val := val ^^^ (val >>> 23)
  let val := (val * 0x2127599bf4325c37) &&& mask64
  val ^^^ (val >>> 47)

/-- `struct.unpack(f"<\x7bcount\x7dQ", buffer)` -/
def structUnpackQ (count : ℕ) (buffer : List Byte) : List ℕ :=
  (List.range count).map fun i => ofBytes ((buffer.drop (8 * i)).take 8)

/-- The loop of `fasthash64` over the bytes that remain. -/
def fasthashTail (remaining : List ℕ) : ℕ :=
  (List.range remaining.length).reverse.foldl (fun v i => v ^^^ (remaining.getD i 0 <<< (8 * i))) 0

/-- `fasthash64` -/
def fasthash64 (buffer : List Byte) (seed : ℕ) : ℕ :=
  let m := 0x880355f21e6d1965
  let h := seed ^^^ ((buffer.length * m) &&& mask64)
  let longCount := buffer.length / 8
  let byteCount := longCount * 8
  let h := if longCount ≠ 0 then
      (structUnpackQ longCount (buffer.take byteCount)).foldl
        (fun h v => ((h ^^^ mix v) * m) &&& mask64) h
    else h
  let remaining := if longCount ≠ 0 then buffer.drop byteCount else buffer
  let h := if remaining ≠ [] then
      let v := fasthashTail (remaining.map BitVec.toNat)
      ((h ^^^ mix v) * m) &&& mask64
    else h
  mix h

/-- A lane is folded in. -/
def foldLane (h v : ℕ) : ℕ := ((h ^^^ mix v) * 0x880355f21e6d1965) &&& mask64

theorem and_mask64 (x : ℕ) : x &&& mask64 = x % 2 ^ 64 := Nat.and_two_pow_sub_one_eq_mod x 64

theorem mix_toNat (h : BitVec 64) : mix h.toNat = (Terraboot.mix h).toNat := by
  rw [mix, Terraboot.mix, and_mask64, BitVec.toNat_xor, BitVec.toNat_ushiftRight, BitVec.toNat_mul,
    BitVec.toNat_xor, BitVec.toNat_ushiftRight]
  rfl

theorem fasthashM_toNat : fasthashM.toNat = 0x880355f21e6d1965 := by decide

theorem foldLane_toNat (h v : BitVec 64) :
    foldLane h.toNat v.toNat = (Terraboot.foldLane h v).toNat := by
  rw [foldLane, Terraboot.foldLane, and_mask64, BitVec.toNat_mul, BitVec.toNat_xor, mix_toNat,
    fasthashM_toNat]

/-- The hash starts from the length. -/
theorem start_toNat (seed : BitVec 64) (n : ℕ) :
    seed.toNat ^^^ ((n * 0x880355f21e6d1965) &&& mask64) =
      (seed ^^^ (BitVec.ofNat 64 n * fasthashM)).toNat := by
  rw [and_mask64, BitVec.toNat_xor, BitVec.toNat_mul, BitVec.toNat_ofNat, Nat.mod_mul_mod,
    fasthashM_toNat]

theorem foldl_foldLane_toNat (h : BitVec 64) (l : List (BitVec 64)) :
    (l.map BitVec.toNat).foldl foldLane h.toNat = (l.foldl Terraboot.foldLane h).toNat := by
  induction l generalizing h with
  | nil => rfl
  | cons v l ih => rw [List.map_cons, List.foldl_cons, List.foldl_cons, foldLane_toNat, ih]

/-- The lanes as numbers: the whole words, and what remains. -/
theorem lanes_map_toNat (buffer : List Byte) :
    (lanes buffer).map BitVec.toNat =
      structUnpackQ (buffer.length / 8) (buffer.take (buffer.length / 8 * 8)) ++
        if buffer.drop (buffer.length / 8 * 8) ≠ [] then
          [ofBytes (buffer.drop (buffer.length / 8 * 8))] else [] := by
  obtain ⟨k, hk⟩ : ∃ k, buffer.length / 8 = k := ⟨_, rfl⟩
  have hnum (i : ℕ) : (BitVec.ofNat 64 (ofBytes (laneBytes buffer i))).toNat =
      ofBytes (laneBytes buffer i) := by
    rw [BitVec.toNat_ofNat, Nat.mod_eq_of_lt]
    exact (ofBytes_lt _).trans_le (Nat.pow_le_pow_right (by decide) (laneBytes_length_le buffer i))
  have hwords : structUnpackQ k (buffer.take (k * 8)) =
      (List.range k).map fun i => ofBytes (laneBytes buffer i) := by
    refine List.map_congr_left fun i hi => ?_
    have hik := List.mem_range.mp hi
    rw [laneBytes, List.drop_take, List.take_take, Nat.min_eq_left (by omega)]
  have hmap : (lanes buffer).map BitVec.toNat =
      (List.range ((buffer.length + 7) / 8)).map fun i => ofBytes (laneBytes buffer i) := by
    rw [lanes, List.map_map]
    exact List.map_congr_left fun i _ => hnum i
  rw [hmap, hk, hwords]
  by_cases hrest : buffer.drop (k * 8) = []
  · have hlen := List.drop_eq_nil_iff.mp hrest
    have hcount : (buffer.length + 7) / 8 = k := by omega
    rw [if_neg (not_not.mpr hrest), List.append_nil, hcount]
  · have hlen : k * 8 < buffer.length := not_le.mp fun h => hrest (List.drop_eq_nil_of_le h)
    have hcount : (buffer.length + 7) / 8 = k + 1 := by omega
    have hlast : laneBytes buffer k = buffer.drop (k * 8) := by
      rw [laneBytes, Nat.mul_comm 8 k, List.take_of_length_le]
      rw [List.length_drop]
      omega
    rw [if_pos hrest, hcount, List.range_succ, List.map_append, List.map_singleton, hlast]

theorem fasthashTail_eq (remaining : List Byte) :
    fasthashTail (remaining.map BitVec.toNat) = ofBytes remaining := shiftPackNat_eq remaining

/-- The parts of the hash, from the value that it starts with. -/
def hashFrom (buffer : List Byte) (k start : ℕ) : ℕ :=
  let h := if k ≠ 0 then (structUnpackQ k (buffer.take (k * 8))).foldl foldLane start else start
  let remaining := if k ≠ 0 then buffer.drop (k * 8) else buffer
  if remaining ≠ [] then foldLane h (fasthashTail (remaining.map BitVec.toNat)) else h

theorem fasthash64_eq_hashFrom (buffer : List Byte) (seed : ℕ) :
    fasthash64 buffer seed = mix (hashFrom buffer (buffer.length / 8)
      (seed ^^^ ((buffer.length * 0x880355f21e6d1965) &&& mask64))) := by
  unfold fasthash64 hashFrom
  exact congrArg mix rfl

/-- The hash folds the whole words, and what remains. -/
theorem hashFrom_eq (buffer : List Byte) (start : ℕ) :
    hashFrom buffer (buffer.length / 8) start =
      ((lanes buffer).map BitVec.toNat).foldl foldLane start := by
  rw [lanes_map_toNat, List.foldl_append]
  generalize buffer.length / 8 = k
  -- without whole words nothing is unpacked and everything remains
  have hunpack : (if k ≠ 0 then
      (structUnpackQ k (buffer.take (k * 8))).foldl foldLane start else start) =
        (structUnpackQ k (buffer.take (k * 8))).foldl foldLane start := by
    split_ifs with hzero
    · rfl
    · obtain rfl : k = 0 := not_not.mp hzero
      rfl
  have hremaining : (if k ≠ 0 then buffer.drop (k * 8) else buffer) = buffer.drop (k * 8) := by
    split_ifs with hzero
    · rfl
    · obtain rfl : k = 0 := not_not.mp hzero
      rfl
  rw [hashFrom, hunpack, hremaining]
  split_ifs
  · rw [fasthashTail_eq, List.foldl_cons, List.foldl_nil]
  · rw [List.foldl_nil]

/-- **Host and device compute the same hash.** -/
theorem fasthash64_eq (buffer : List Byte) (seed : BitVec 64) :
    fasthash64 buffer seed.toNat = (Terraboot.fasthash64 buffer seed).toNat := by
  rw [fasthash64_eq_hashFrom, hashFrom_eq, start_toNat, foldl_foldLane_toNat, mix_toNat,
    Terraboot.fasthash64, fasthashLoop_eq]

end FlashTool

/-! ### The serial number -/

/-- `struct usb_string_descriptor`; the characters are UTF-16 code units. -/
structure UsbStringDescriptor where
  bLength : Byte
  bDescriptorType : Byte
  data : List (BitVec 16)
  deriving DecidableEq, Repr

/-- A hexadecimal digit as `usb_fill_serial` writes it. -/
def serialDigit (c : Byte) : BitVec 16 :=
  (if c < 10 then c + 0x30 else c - 10 + 0x41).setWidth 16

/-- `usb_fill_serial`. The length of the descriptor is a byte. -/
def usbFillSerial (strlen : ℕ) (id : List Byte) : UsbStringDescriptor where
  bLength := BitVec.ofNat 8 (2 + strlen * 2)
  -- `USB_DT_STRING`
  bDescriptorType := 0x03
  data := (List.range strlen).map fun i =>
    serialDigit (if i % 2 = 1 then id.getD (i / 2) 0 &&& 0x0f else id.getD (i / 2) 0 >>> 4)

/-- The serial number as `get_usb_info` returns it, in lower case. -/
def serialNumber (desc : UsbStringDescriptor) : List Char :=
  desc.data.map fun u => (Char.ofNat u.toNat).toLower

namespace FlashTool

/-- A hexadecimal digit of either case. -/
def hexDigit (c : Char) : Option ℕ :=
  if 0x30 ≤ c.toNat ∧ c.toNat ≤ 0x39 then some (c.toNat - 0x30)
  else if 0x61 ≤ c.toNat ∧ c.toNat ≤ 0x66 then some (c.toNat - 0x61 + 10)
  else if 0x41 ≤ c.toNat ∧ c.toNat ≤ 0x46 then some (c.toNat - 0x41 + 10)
  else none

/-- White space of ASCII. -/
def isSpace (c : Char) : Bool := c.toNat = 0x20 ∨ 0x09 ≤ c.toNat ∧ c.toNat ≤ 0x0d

/-- `bytes.fromhex`: two digits a byte, with white space between bytes skipped; `none` where it
raises. -/
def fromHex : List Char → Option (List Byte)
  | [] => some []
  | [c] => if isSpace c then some [] else none
  | c :: d :: rest =>
      if isSpace c then fromHex (d :: rest)
      else
        match hexDigit c, hexDigit d, fromHex rest with
        | some top, some bot, some tail => some (BitVec.ofNat 8 (16 * top + bot) :: tail)
        | _, _, _ => none

/-- `convert_usbsn_to_uuid` -/
def convertUsbsnToUuid (serialNumber : List Char) : Option ℕ :=
  (fromHex serialNumber).map fun chipId =>
    let result := fasthash64 chipId 0xA16231A7
    (List.range 6).foldl
      (fun swapped i => swapped ||| (((result >>> (i * 8)) &&& 0xFF) <<< ((5 - i) * 8))) 0

end FlashTool

/-- The digits of one byte. -/
theorem serialNumber_usbFillSerial_cons (b : Byte) (id : List Byte) :
    serialNumber (usbFillSerial (2 * (b :: id).length) (b :: id)) =
      (Char.ofNat (serialDigit (b >>> 4)).toNat).toLower ::
        (Char.ofNat (serialDigit (b &&& 0x0f)).toNat).toLower ::
        serialNumber (usbFillSerial (2 * id.length) id) := by
  have hdiv (i : ℕ) : (i + 1 + 1) / 2 = i / 2 + 1 := Nat.add_div_right i (show 0 < 2 by decide)
  have hmod (i : ℕ) : (i + 1 + 1) % 2 = i % 2 := Nat.add_mod_right i 2
  simp only [serialNumber, usbFillSerial, List.length_cons, Nat.mul_succ, List.range_succ_eq_map,
    List.map_cons, List.map_map, Function.comp_def, hdiv, hmod, List.getD_cons_succ]
  rfl

/-- The digits of a byte are read back. -/
theorem hexDigit_serialDigit : ∀ b : Byte,
    FlashTool.isSpace (Char.ofNat (serialDigit (b >>> 4)).toNat).toLower = false ∧
      FlashTool.hexDigit (Char.ofNat (serialDigit (b >>> 4)).toNat).toLower =
        some (b.toNat / 16) ∧
      FlashTool.hexDigit (Char.ofNat (serialDigit (b &&& 0x0f)).toNat).toLower =
        some (b.toNat % 16) := by
  decide +kernel

/-- **The serial number is read back** as the id of the chip. -/
theorem fromHex_usbFillSerial (id : List Byte) :
    FlashTool.fromHex (serialNumber (usbFillSerial (2 * id.length) id)) = some id := by
  induction id with
  | nil => rfl
  | cons b id ih =>
      obtain ⟨hspace, htop, hbot⟩ := hexDigit_serialDigit b
      have hbyte : BitVec.ofNat 8 (16 * (b.toNat / 16) + b.toNat % 16) = b := by
        rw [Nat.div_add_mod, BitVec.ofNat_toNat, BitVec.setWidth_eq]
      rw [serialNumber_usbFillSerial_cons, FlashTool.fromHex, hspace, if_neg Bool.false_ne_true,
        htop, hbot, ih]
      exact congrArg (fun x => some (x :: id)) hbyte

/-! ### The UUID -/

/-- The UUID that `canserial_set_uuid` stores. -/
def canserialSetUuid (rawUuid : List Byte) : Uuid :=
  ⟨(le64 (fasthash64 rawUuid 0xA16231A7)).take 6, rfl⟩

/-- The number that the bytes of a UUID denote, highest byte first. -/
def uuidNumber (uuid : Uuid) : ℕ := ofBytes uuid.1.reverse

/-- The bytes with which the host addresses a device are those of its UUID. -/
theorem uuidBytes_uuidNumber (uuid : Uuid) :
    CanSocket.uuidBytes (uuidNumber uuid) = uuid.1.map BitVec.toNat := by
  obtain ⟨u, hu⟩ := uuid
  match u, hu with
  | [x₀, x₁, x₂, x₃, x₄, x₅], _ =>
      simp only [CanSocket.uuidBytes, uuidNumber, List.range_succ, List.range_zero, List.nil_append,
        List.cons_append, List.map_cons, List.map_nil, List.reverse_cons, List.reverse_nil,
        ofBytes_cons, ofBytes_nil, and_255, Nat.shiftRight_eq_div_pow, List.cons.injEq, and_true]
      omega

/-- A byte of a hash. -/
theorem le64_getD_toNat (x : BitVec 64) : ∀ i < 6,
    ((le64 x).getD i 0).toNat = (x.toNat >>> (i * 8)) &&& 0xFF := by
  intro i hi
  rw [and_255]
  match i, hi with
  | 0, _ | 1, _ | 2, _ | 3, _ | 4, _ | 5, _ =>
      simp only [le64, le32, List.cons_append, List.nil_append, List.getD_cons_succ,
        List.getD_cons_zero, BitVec.extractLsb'_toNat, Nat.shiftRight_eq_div_pow]
      omega

/-- A byte is put below a number. -/
theorem shiftLeft_or_byte (v : ℕ) (x : Byte) : v <<< 8 ||| x.toNat = x.toNat + 256 * v := by
  rw [← Nat.shiftLeft_add_eq_or_of_lt x.isLt, Nat.shiftLeft_eq, Nat.add_comm, Nat.mul_comm]

/-- The bytes are swapped: the lowest one of six comes first. -/
theorem swap_eq (x₀ x₁ x₂ x₃ x₄ x₅ : Byte) :
    0 ||| x₀.toNat <<< 40 ||| x₁.toNat <<< 32 ||| x₂.toNat <<< 24 ||| x₃.toNat <<< 16 |||
        x₄.toNat <<< 8 ||| x₅.toNat <<< 0 =
      ofBytes [x₅, x₄, x₃, x₂, x₁, x₀] := by
  have hnest : 0 ||| x₀.toNat <<< 40 ||| x₁.toNat <<< 32 ||| x₂.toNat <<< 24 ||| x₃.toNat <<< 16 |||
        x₄.toNat <<< 8 ||| x₅.toNat <<< 0 =
      (((((0 <<< 8 ||| x₀.toNat) <<< 8 ||| x₁.toNat) <<< 8 ||| x₂.toNat) <<< 8 ||| x₃.toNat) <<< 8 |||
        x₄.toNat) <<< 8 ||| x₅.toNat := by
    simp only [Nat.shiftLeft_or_distrib, ← Nat.shiftLeft_add, Nat.zero_shiftLeft, Nat.shiftLeft_zero,
      Nat.reduceAdd]
  rw [hnest]
  simp only [shiftLeft_or_byte, ofBytes_cons, ofBytes_nil]

/-- The loop of the host over the bytes of a hash. -/
theorem swapped_eq (x : BitVec 64) :
    (List.range 6).foldl
        (fun swapped i => swapped ||| (((x.toNat >>> (i * 8)) &&& 0xFF) <<< ((5 - i) * 8))) 0 =
      ofBytes ((le64 x).take 6).reverse := by
  have hloop : (List.range 6).foldl
      (fun swapped i => swapped ||| (((x.toNat >>> (i * 8)) &&& 0xFF) <<< ((5 - i) * 8))) 0 =
        (List.range 6).foldl
          (fun swapped i => swapped ||| ((le64 x).getD i 0).toNat <<< ((5 - i) * 8)) 0 := by
    refine List.foldl_ext _ _ _ fun swapped i hi => ?_
    rw [le64_getD_toNat x i (List.mem_range.mp hi)]
  rw [hloop]
  exact swap_eq _ _ _ _ _ _

theorem uuidSeed_toNat : (0xA16231A7 : BitVec 64).toNat = 0xA16231A7 := by decide

/-- **The host derives the UUID of the device**: from the lower-case serial number of the device it
computes the number that the bytes of the UUID denote, and the hash that it uses for it is that of
the device. -/
theorem convertUsbsnToUuid_eq :
    (∀ buf seed, FlashTool.fasthash64 buf (BitVec.toNat seed) = (fasthash64 buf seed).toNat) ∧
      ∀ chipId, FlashTool.convertUsbsnToUuid
          (serialNumber (usbFillSerial (2 * chipId.length) chipId)) =
        some (uuidNumber (canserialSetUuid chipId)) := by
  refine ⟨FlashTool.fasthash64_eq, fun chipId => ?_⟩
  rw [FlashTool.convertUsbsnToUuid, fromHex_usbFillSerial, Option.map_some, ← uuidSeed_toNat,
    FlashTool.fasthash64_eq, uuidNumber, canserialSetUuid]
  exact congrArg some (swapped_eq _)

end Terraboot
