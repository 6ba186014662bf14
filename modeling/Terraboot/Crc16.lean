import Terraboot.CanFlasher
import Terraboot.ReflectedCrc

/-!
# The Checksum of a Frame

`crc16_ccitt` of the device, which works on 8-bit and 16-bit variables, and of
`scripts/flashtool.py`, which works on unbounded integers, are the bit-serial reflected checksum
with the polynomial `0x8408`: both take eight of its steps at once.

## Main results

* `crc16Step_eq_feed`: one byte is eight steps.
* `FlashTool.crc16Ccitt_eq`: the integers of the host are the words of the device.
* `crc16Ccitt_serial`: both are the bit-serial checksum, and no burst of at most 16 bits is missed.
-/

open LittleEndian ReflectedCrc

namespace Terraboot

/-! ### The bit-serial checksum -/

/-- The reflected polynomial x¹⁶ + x¹² + x⁵ + 1. -/
def crcPoly : BitVec 16 := 0x8408

/-- The bits of a byte, least significant first. -/
def byteBits (b : Byte) : List Bool := (List.range 8).map b.getLsbD

/-- The bits of a byte string, in the order in which they are fed into the checksum. -/
def bitsOf (buf : List Byte) : List Bool := buf.flatMap byteBits

/-- The bit-serial checksum: initial value `0xffff`, and no final exclusive or. -/
def crcSerial (buf : List Byte) : BitVec 16 := feed crcPoly 0xffff (bitsOf buf)

/-! ### The device -/

/-- What the byte `data` adds to the register, once the low half of the register has been added to
it. -/
def crcByte (data : Byte) : BitVec 16 :=
  let data := data ^^^ (data <<< 4)
  (data.setWidth 16 <<< 8) ^^^ (data >>> 4).setWidth 16 ^^^ (data.setWidth 16 <<< 3)

theorem pack_byteBits (b : Byte) : pack 16 (byteBits b) = b.setWidth 16 := by
  refine BitVec.eq_of_getLsbD_eq fun i hi => ?_
  rw [pack_getLsbD _ hi, BitVec.getLsbD_setWidth, decide_eq_true hi, Bool.true_and]
  by_cases hlow : i < 8
  · rw [List.getD_eq_getElem _ _ (by simpa [byteBits] using hlow)]
    simp [byteBits]
  · rw [List.getD_eq_default _ _ (by simpa [byteBits] using hlow),
      BitVec.getLsbD_of_ge b i (not_lt.mp hlow)]

/-- Eight shifts of a byte. -/
theorem iterate_shift_byte : ∀ data : Byte, (shift crcPoly)^[8] (data.setWidth 16) = crcByte data := by
  decide +kernel

/-- A word is its low byte and what is above it. -/
theorem eq_low_xor_high (x : BitVec 16) :
    x = (x.setWidth 8).setWidth 16 ^^^ (x >>> 8 <<< 8) := by
  refine BitVec.eq_of_getLsbD_eq fun i hi => ?_
  simp only [BitVec.getLsbD_xor, BitVec.getLsbD_setWidth, BitVec.getLsbD_shiftLeft,
    BitVec.getLsbD_ushiftRight]
  by_cases hlow : i < 8
  · simp [hlow, hi]
  · simp [hlow, hi, Nat.add_sub_cancel' (not_lt.mp hlow)]

/-- Eight shifts of a word. -/
theorem iterate_shift_eight (x : BitVec 16) :
    (shift crcPoly)^[8] x = crcByte (x.setWidth 8) ^^^ (x >>> 8) := by
  have hhigh : (shift crcPoly)^[8] (x >>> 8 <<< 8) = x >>> 8 := by
    rw [iterate_shift_of_low crcPoly _ fun i hi => by
      simp [hi]]
    refine BitVec.eq_of_getLsbD_eq fun i hi => ?_
    simp only [BitVec.getLsbD_shiftLeft, BitVec.getLsbD_ushiftRight]
    by_cases hin : 8 + i < 16
    · simp [hin]
    · simp [BitVec.getLsbD_of_ge x (8 + i) (not_lt.mp hin)]
  have hsplit := congrArg (shift crcPoly)^[8] (eq_low_xor_high x)
  rw [iterate_shift_xor, iterate_shift_byte, hhigh] at hsplit
  exact hsplit

/-- The halves of a word do not meet. -/
theorem shiftLeft_or_shiftRight (data : Byte) (crc : BitVec 16) :
    (data.setWidth 16 <<< 8) ||| (crc >>> 8) = (data.setWidth 16 <<< 8) ^^^ (crc >>> 8) := by
  refine BitVec.eq_of_getLsbD_eq fun i hi => ?_
  simp only [BitVec.getLsbD_or, BitVec.getLsbD_xor, BitVec.getLsbD_shiftLeft,
    BitVec.getLsbD_ushiftRight]
  by_cases hlow : i < 8
  · simp [hlow]
  · rw [BitVec.getLsbD_of_ge crc (8 + i) (by omega)]
    simp

theorem crc16Step_eq_byte (crc : BitVec 16) (b : Byte) :
    crc16Step crc b = crcByte (b ^^^ crc.setWidth 8) ^^^ (crc >>> 8) := by
  have hmove (w x y z : BitVec 16) : w ^^^ z ^^^ x ^^^ y = w ^^^ x ^^^ y ^^^ z := by ac_rfl
  rw [crc16Step, crcByte, shiftLeft_or_shiftRight, hmove]

/-- **One byte is eight steps** of the bit-serial checksum. -/
theorem crc16Step_eq_feed (crc : BitVec 16) (b : Byte) :
    crc16Step crc b = feed crcPoly crc (byteBits b) := by
  have hlow : (crc ^^^ b.setWidth 16).setWidth 8 = b ^^^ crc.setWidth 8 := by
    rw [BitVec.setWidth_xor, BitVec.setWidth_setWidth_of_le _ (by decide), BitVec.setWidth_eq,
      BitVec.xor_comm]
  have hhigh : (crc ^^^ b.setWidth 16) >>> 8 = crc >>> 8 := by
    have hzero : b.setWidth 16 >>> 8 = 0#16 := by
      refine BitVec.eq_of_getLsbD_eq fun i hi => ?_
      rw [BitVec.getLsbD_ushiftRight, BitVec.getLsbD_setWidth, BitVec.getLsbD_of_ge b _ (by omega)]
      simp
    rw [BitVec.ushiftRight_xor_distrib, hzero, BitVec.xor_zero]
  rw [feed_eq_iterate crcPoly crc (show (byteBits b).length ≤ 16 from by
    simp [byteBits]), pack_byteBits,
    crc16Step_eq_byte, ← hlow, ← hhigh]
  exact (iterate_shift_eight _).symm

/-- The device computes the bit-serial checksum. -/
theorem crc16Ccitt_eq_serial (buf : List Byte) : crc16Ccitt buf = crcSerial buf := by
  rw [crc16Ccitt, crcSerial, bitsOf]
  generalize (0xffff : BitVec 16) = crc
  induction buf generalizing crc with
  | nil => rfl
  | cons b buf ih =>
      rw [List.foldl_cons, ih, crc16Step_eq_feed, List.flatMap_cons, feed_append]

/-! ### The host -/

namespace FlashTool

/-- The loop body of `crc16_ccitt`. -/
def crc16Step (crc data : ℕ) : ℕ :=
  let data := data ^^^ (crc &&& 0xff)
  let data := data ^^^ ((data &&& 0x0f) <<< 4)
  ((data <<< 8) ||| (crc >>> 8)) ^^^ (data >>> 4) ^^^ (data <<< 3)

/-- `crc16_ccitt`. Only the result is masked. -/
def crc16Ccitt (buf : List Byte) : ℕ := (buf.map BitVec.toNat).foldl crc16Step 0xffff &&& 0xffff

/-- A small number loses nothing when it is shifted within 16 bits. -/
theorem toNat_shiftLeft_of_lt {x : BitVec 16} {k : ℕ} (hx : x.toNat < 256) (hk : k ≤ 8) :
    (x <<< k).toNat = x.toNat <<< k := by
  rw [BitVec.toNat_shiftLeft, Nat.mod_eq_of_lt]
  rw [Nat.shiftLeft_eq]
  have hpow : 2 ^ k ≤ 2 ^ 8 := Nat.pow_le_pow_right (by decide) hk
  calc x.toNat * 2 ^ k ≤ x.toNat * 2 ^ 8 := Nat.mul_le_mul_left _ hpow
    _ < 256 * 2 ^ 8 := Nat.mul_lt_mul_of_pos_right hx (by decide)

/-- The unbounded integers stay within 16 bits. -/
theorem crc16Step_toNat (crc : BitVec 16) (b : Byte) :
    crc16Step crc.toNat b.toNat = (CanFlasher.crc16Step crc b).toNat := by
  have hmask : (crc.setWidth 8).toNat = crc.toNat &&& 0xff := by
    rw [BitVec.toNat_setWidth, and_255]
  obtain ⟨d, hd⟩ : ∃ d, b ^^^ crc.setWidth 8 = d := ⟨_, rfl⟩
  have hdata : b.toNat ^^^ (crc.toNat &&& 0xff) = d.toNat := by
    rw [← hd, BitVec.toNat_xor, hmask]
  obtain ⟨e, he⟩ : ∃ e, d ^^^ ((d &&& 0x0f) <<< 4) = e := ⟨_, rfl⟩
  have hnibble : d.toNat ^^^ ((d.toNat &&& 0x0f) <<< 4) = e.toNat := by
    have hlow : d.toNat &&& 0x0f < 16 := Nat.lt_succ_of_le Nat.and_le_right
    have hfits : (d.toNat &&& 0x0f) <<< 4 < 2 ^ 8 := by
      rw [Nat.shiftLeft_eq]
      omega
    rw [← he, BitVec.toNat_xor, BitVec.toNat_shiftLeft, BitVec.toNat_and]
    exact congrArg (d.toNat ^^^ ·) (Nat.mod_eq_of_lt hfits).symm
  have hwide : (e.setWidth 16).toNat = e.toNat := by
    rw [BitVec.toNat_setWidth, Nat.mod_eq_of_lt (e.isLt.trans (by decide))]
  have hsmall : (e.setWidth 16).toNat < 256 := hwide.trans_lt e.isLt
  rw [crc16Step, CanFlasher.crc16Step, hdata, hnibble, hd, he, BitVec.toNat_xor, BitVec.toNat_xor,
    BitVec.toNat_or, toNat_shiftLeft_of_lt hsmall (by decide),
    toNat_shiftLeft_of_lt hsmall (by decide), BitVec.toNat_ushiftRight, BitVec.toNat_ushiftRight,
    hwide]

/-- **The integers of the host are the words of the device.** -/
theorem crc16Ccitt_eq (buf : List Byte) : crc16Ccitt buf = (Terraboot.crc16Ccitt buf).toNat := by
  have hfold (crc : BitVec 16) : (buf.map BitVec.toNat).foldl crc16Step crc.toNat =
      (buf.foldl CanFlasher.crc16Step crc).toNat := by
    induction buf generalizing crc with
    | nil => rfl
    | cons b buf ih => rw [List.map_cons, List.foldl_cons, List.foldl_cons, crc16Step_toNat, ih]
  have hmask (x : BitVec 16) : x.toNat &&& 0xffff = x.toNat :=
    (Nat.and_two_pow_sub_one_eq_mod x.toNat 16).trans (Nat.mod_eq_of_lt x.isLt)
  rw [← CanFlasher.crc16Ccitt_eq, crc16Ccitt, CanFlasher.crc16Ccitt]
  exact (congrArg (· &&& 0xffff) (hfold 0xffff)).trans (hmask _)

end FlashTool

/-! ### Bursts -/

/-- The bits of a byte string by their number. -/
theorem bitsOf_getElem? (buf : List Byte) (i : ℕ) :
    (bitsOf buf)[i]? = (buf[i / 8]?).map fun b => b.getLsbD (i % 8) := by
  induction buf generalizing i with
  | nil => rfl
  | cons b buf ih =>
      have hlen : (byteBits b).length = 8 := by simp [byteBits]
      rw [bitsOf, List.flatMap_cons]
      by_cases hi : i < 8
      · rw [List.getElem?_append_left (by omega), Nat.div_eq_of_lt hi, Nat.mod_eq_of_lt hi]
        simp [byteBits, hi]
      · obtain ⟨k, rfl⟩ : ∃ k, i = k + 8 := ⟨i - 8, by omega⟩
        rw [List.getElem?_append_right (by omega), hlen, Nat.add_sub_cancel,
          Nat.add_div_right k (by decide), Nat.add_mod_right, List.getElem?_cons_succ]
        exact ih k

theorem bitsOf_length (buf : List Byte) : (bitsOf buf).length = 8 * buf.length := by
  induction buf with
  | nil => rfl
  | cons b buf ih =>
      have hlen : (byteBits b).length = 8 := by simp [byteBits]
      rw [bitsOf, List.flatMap_cons, List.length_append, hlen, List.length_cons]
      rw [bitsOf] at ih
      omega

theorem bitsOf_injective : Function.Injective bitsOf := by
  intro a b h
  have hlength := congrArg List.length h
  rw [bitsOf_length, bitsOf_length] at hlength
  refine List.ext_getElem (by omega) fun i hia hib => BitVec.eq_of_getLsbD_eq fun k hk => ?_
  have hbit := congrArg (·[8 * i + k]?) h
  have hdiv : (8 * i + k) / 8 = i := by omega
  have hmod : (8 * i + k) % 8 = k := by omega
  simpa [bitsOf_getElem?, hdiv, hmod, hia, hib] using hbit

/-- **The checksum.** Device and host compute the bit-serial reflected checksum with the polynomial
`0x8408` and the initial value `0xffff`; and if two byte strings of one length differ, but only
within 16 consecutive bits, their checksums differ. -/
theorem crc16Ccitt_serial :
    (∀ buf, crc16Ccitt buf = crcSerial buf ∧ FlashTool.crc16Ccitt buf = (crcSerial buf).toNat) ∧
      ∀ (a b : List Byte) (s : ℕ), a.length = b.length → a ≠ b →
        (∀ i, (a.getD (i / 8) 0).getLsbD (i % 8) ≠ (b.getD (i / 8) 0).getLsbD (i % 8) →
          s ≤ i ∧ i < s + 16) →
        crc16Ccitt a ≠ crc16Ccitt b := by
  refine ⟨fun buf => ⟨crc16Ccitt_eq_serial buf, ?_⟩, ?_⟩
  · rw [FlashTool.crc16Ccitt_eq, crc16Ccitt_eq_serial]
  · intro a b s hlength hne hwindow
    rw [crc16Ccitt_eq_serial, crc16Ccitt_eq_serial]
    refine feed_ne_of_burst (s := s) (by decide) (by decide) 0xffff ?_ (bitsOf_injective.ne hne) ?_
    · rw [bitsOf_length, bitsOf_length, hlength]
    · intro i hout
      rw [bitsOf_getElem?, bitsOf_getElem?]
      by_cases hi : i / 8 < a.length
      · have hsame : (a.getD (i / 8) 0).getLsbD (i % 8) = (b.getD (i / 8) 0).getLsbD (i % 8) := by
          by_contra hdiffer
          have := hwindow i hdiffer
          omega
        have hib : i / 8 < b.length := hlength ▸ hi
        rw [List.getD_eq_getElem _ _ hi, List.getD_eq_getElem _ _ hib] at hsame
        rw [List.getElem?_eq_getElem hi, List.getElem?_eq_getElem hib]
        exact congrArg some hsame
      · rw [List.getElem?_eq_none (not_lt.mp hi), List.getElem?_eq_none (hlength ▸ not_lt.mp hi)]

/-- The last bit of a byte and the first one of the next are damaged. -/
theorem crc16Ccitt_serial_pair : crc16Ccitt [0x55, 0x80, 0x01] ≠ crc16Ccitt [0x55, 0x00, 0x00] := by
  refine crc16Ccitt_serial.2 [0x55, 0x80, 0x01] [0x55, 0x00, 0x00] 8 rfl (by decide) fun i hi => ?_
  by_cases hin : i < 24
  · have hdecide : ∀ k < 24, (([0x55, 0x80, 0x01] : List Byte).getD (k / 8) 0).getLsbD (k % 8) ≠
        (([0x55, 0x00, 0x00] : List Byte).getD (k / 8) 0).getLsbD (k % 8) → 8 ≤ k ∧ k < 8 + 16 := by
      decide
    exact hdecide i hin hi
  · refine absurd ?_ hi
    have hbeyond : 3 ≤ i / 8 := by omega
    rw [List.getD_eq_default _ _ hbeyond, List.getD_eq_default _ _ hbeyond]

end Terraboot
