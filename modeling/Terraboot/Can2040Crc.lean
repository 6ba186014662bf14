import Terraboot.CanFrame

/-!
# The Checksum of a CAN Frame

`crc_byte` of `can2040.c` looks up eight steps of the frame's CRC at once and lets what leaves the
15-bit register run over into the upper half of a word, which nobody reads. Its table is generated;
that it is the right one is checked here entry by entry.

## Main results

* `crcByte_setWidth`: the lookup is eight steps of the serial checksum.
* `crcBytes_setWidth`: so are the bytes of a word, whose unused upper ones do not count.
* `crcBytes_base`, `crcBytes_extended`: the header is fed in as it goes over the line, though it does
  not fill its bytes.
-/

open DirectCrc MsbBits

namespace Terraboot.Can2040

/-- `crc_table` -/
def crcTable : List (BitVec 16) :=
  [0x0000, 0x4599, 0x4eab, 0x0b32, 0x58cf, 0x1d56, 0x1664, 0x53fd, 0x7407, 0x319e,
    0x3aac, 0x7f35, 0x2cc8, 0x6951, 0x6263, 0x27fa, 0x2d97, 0x680e, 0x633c, 0x26a5,
    0x7558, 0x30c1, 0x3bf3, 0x7e6a, 0x5990, 0x1c09, 0x173b, 0x52a2, 0x015f, 0x44c6,
    0x4ff4, 0x0a6d, 0x5b2e, 0x1eb7, 0x1585, 0x501c, 0x03e1, 0x4678, 0x4d4a, 0x08d3,
    0x2f29, 0x6ab0, 0x6182, 0x241b, 0x77e6, 0x327f, 0x394d, 0x7cd4, 0x76b9, 0x3320,
    0x3812, 0x7d8b, 0x2e76, 0x6bef, 0x60dd, 0x2544, 0x02be, 0x4727, 0x4c15, 0x098c,
    0x5a71, 0x1fe8, 0x14da, 0x5143, 0x73c5, 0x365c, 0x3d6e, 0x78f7, 0x2b0a, 0x6e93,
    0x65a1, 0x2038, 0x07c2, 0x425b, 0x4969, 0x0cf0, 0x5f0d, 0x1a94, 0x11a6, 0x543f,
    0x5e52, 0x1bcb, 0x10f9, 0x5560, 0x069d, 0x4304, 0x4836, 0x0daf, 0x2a55, 0x6fcc,
    0x64fe, 0x2167, 0x729a, 0x3703, 0x3c31, 0x79a8, 0x28eb, 0x6d72, 0x6640, 0x23d9,
    0x7024, 0x35bd, 0x3e8f, 0x7b16, 0x5cec, 0x1975, 0x1247, 0x57de, 0x0423, 0x41ba,
    0x4a88, 0x0f11, 0x057c, 0x40e5, 0x4bd7, 0x0e4e, 0x5db3, 0x182a, 0x1318, 0x5681,
    0x717b, 0x34e2, 0x3fd0, 0x7a49, 0x29b4, 0x6c2d, 0x671f, 0x2286, 0x2213, 0x678a,
    0x6cb8, 0x2921, 0x7adc, 0x3f45, 0x3477, 0x71ee, 0x5614, 0x138d, 0x18bf, 0x5d26,
    0x0edb, 0x4b42, 0x4070, 0x05e9, 0x0f84, 0x4a1d, 0x412f, 0x04b6, 0x574b, 0x12d2,
    0x19e0, 0x5c79, 0x7b83, 0x3e1a, 0x3528, 0x70b1, 0x234c, 0x66d5, 0x6de7, 0x287e,
    0x793d, 0x3ca4, 0x3796, 0x720f, 0x21f2, 0x646b, 0x6f59, 0x2ac0, 0x0d3a, 0x48a3,
    0x4391, 0x0608, 0x55f5, 0x106c, 0x1b5e, 0x5ec7, 0x54aa, 0x1133, 0x1a01, 0x5f98,
    0x0c65, 0x49fc, 0x42ce, 0x0757, 0x20ad, 0x6534, 0x6e06, 0x2b9f, 0x7862, 0x3dfb,
    0x36c9, 0x7350, 0x51d6, 0x144f, 0x1f7d, 0x5ae4, 0x0919, 0x4c80, 0x47b2, 0x022b,
    0x25d1, 0x6048, 0x6b7a, 0x2ee3, 0x7d1e, 0x3887, 0x33b5, 0x762c, 0x7c41, 0x39d8,
    0x32ea, 0x7773, 0x248e, 0x6117, 0x6a25, 0x2fbc, 0x0846, 0x4ddf, 0x46ed, 0x0374,
    0x5089, 0x1510, 0x1e22, 0x5bbb, 0x0af8, 0x4f61, 0x4453, 0x01ca, 0x5237, 0x17ae,
    0x1c9c, 0x5905, 0x7eff, 0x3b66, 0x3054, 0x75cd, 0x2630, 0x63a9, 0x689b, 0x2d02,
    0x276f, 0x62f6, 0x69c4, 0x2c5d, 0x7fa0, 0x3a39, 0x310b, 0x7492, 0x5368, 0x16f1,
    0x1dc3, 0x585a, 0x0ba7, 0x4e3e, 0x450c, 0x0095]

/-- `crc_byte` -/
def crcByte (crc data : Word) : Word :=
  (crc <<< 8) ^^^ (crcTable.getD (((crc >>> 7) ^^^ data) &&& 0xff).toNat 0).setWidth 32

/-- `crc_bytes`: the cases fall through, and the default is four bytes. -/
def crcBytes (crc data : Word) (num : ℕ) : Word :=
  match num with
  | 1 => crcByte crc data
  | 2 => crcByte (crcByte crc (data >>> 8)) data
  | 3 => crcByte (crcByte (crcByte crc (data >>> 16)) (data >>> 8)) data
  | _ => crcByte (crcByte (crcByte (crcByte crc (data >>> 24)) (data >>> 16)) (data >>> 8)) data

/-! ### The table -/

/-- **The table is what a byte leaves in an empty register.** -/
theorem crcTable_eq :
    crcTable = (List.range 256).map fun i =>
      (feed canPoly 0#15 (msbBits (BitVec.ofNat 8 i) 8)).setWidth 16 := by
  decide +kernel

theorem crcTable_getD (x : Byte) :
    crcTable.getD x.toNat 0 = (feed canPoly 0#15 (msbBits x 8)).setWidth 16 := by
  rw [crcTable_eq, List.getD_eq_getElem _ _ (by simpa using x.isLt), List.getElem_map,
    List.getElem_range, BitVec.ofNat_toNat, BitVec.setWidth_eq]

/-- Fields of one length are added bit by bit. -/
theorem zipWith_xor_msbBits {m n k : ℕ} (v : BitVec m) (w : BitVec n) (x : BitVec k) (j : ℕ)
    (h : ∀ i < j, x.getLsbD i = (v.getLsbD i ^^ w.getLsbD i)) :
    List.zipWith xor (msbBits v j) (msbBits w j) = msbBits x j := by
  induction j with
  | zero => rfl
  | succ j ih =>
      rw [msbBits, msbBits, msbBits, List.zipWith_cons_cons, h j (Nat.lt_succ_self j),
        ih fun i hi => h i (Nat.lt_succ_of_lt hi)]

/-! ### Bytes -/

/-- **The lookup is eight steps**, whatever has run over. -/
theorem crcByte_setWidth (crc data : Word) :
    (crcByte crc data).setWidth 15 = feed canPoly (crc.setWidth 15) (msbBits data 8) := by
  have hindex : (((crc >>> 7) ^^^ data) &&& 0xff).toNat =
      (((crc >>> 7) ^^^ data).setWidth 8).toNat := by
    rw [BitVec.toNat_and, BitVec.toNat_setWidth]
    exact Nat.and_two_pow_sub_one_eq_mod _ 8
  have hbits : List.zipWith xor (msbBits (crc.setWidth 15 >>> (15 - 8)) 8) (msbBits data 8) =
      msbBits (((crc >>> 7) ^^^ data).setWidth 8) 8 := by
    refine zipWith_xor_msbBits _ _ _ 8 fun i hi => ?_
    have hin : 7 + i < 15 := by omega
    simp [hi, hin]
  have hlookup := crcTable_getD (((crc >>> 7) ^^^ data).setWidth 8)
  rw [crcByte, hindex, hlookup, feed_eq_shiftLeft canPoly (crc.setWidth 15) (by simp),
    length_msbBits, hbits]
  refine BitVec.eq_of_getLsbD_eq fun i hi => ?_
  simp [hi]

/-- **The bytes of a word**, the highest of those in use first. -/
theorem crcBytes_setWidth (crc data : Word) {num : ℕ} (hpos : 0 < num) :
    (crcBytes crc data num).setWidth 15 =
      feed canPoly (crc.setWidth 15) (msbBits data (8 * min num 4)) := by
  match num, hpos with
  | 1, _ => exact crcByte_setWidth crc data
  | 2, _ =>
      rw [crcBytes, crcByte_setWidth, crcByte_setWidth, ← feed_append, ← msbBits_add]
      rfl
  | 3, _ =>
      rw [crcBytes, crcByte_setWidth, crcByte_setWidth, crcByte_setWidth, ← feed_append,
        ← feed_append, ← msbBits_add data 8 8, ← msbBits_add data 8 (8 + 8)]
      rfl
  | num + 4, _ =>
      have hfour : min (num + 4) 4 = 4 := by omega
      have hdefault : crcBytes crc data (num + 4) = crcByte (crcByte (crcByte (crcByte crc
          (data >>> 24)) (data >>> 16)) (data >>> 8)) data := rfl
      rw [hfour, hdefault, crcByte_setWidth, crcByte_setWidth, crcByte_setWidth, crcByte_setWidth,
        ← feed_append, ← feed_append, ← feed_append, ← msbBits_add data 8 8,
        ← msbBits_add data 8 (8 + 8), ← msbBits_add data 8 (8 + (8 + 8))]

/-! ### Headers -/

/-- **The checksum of a base header**, which is padded to three bytes. -/
theorem crcBytes_base {hdr : Word} (h : ∀ i, 19 ≤ i → hdr.getLsbD i = false) :
    (crcBytes 0 hdr 3).setWidth 15 = canCrc (msbBits hdr 19) := by
  have hpad : msbBits hdr (8 * min 3 4) = List.replicate 5 false ++ msbBits hdr 19 :=
    msbBits_add_of_clear h 5
  rw [crcBytes_setWidth _ _ (by omega), hpad]
  exact feed_zero_replicate canPoly 5 _

/-- **The checksum of an extended header**, of which the last bits of the first half go with the
second one. -/
theorem crcBytes_extended {h1 h2 : Word} (hclear1 : ∀ i, 19 ≤ i → h1.getLsbD i = false)
    (hclear2 : ∀ i, 20 ≤ i → h2.getLsbD i = false) :
    (crcBytes (crcBytes 0 (h1 >>> 4) 2) (((h1 &&& 0x0f) <<< 20) ||| h2) 3).setWidth 15 =
      canCrc (msbBits h1 19 ++ msbBits h2 20) := by
  have hmask (i : ℕ) : (0x0f : Word).getLsbD i = decide (i < 4) :=
    getLsbD_lowMask (n := 32) (t := 4) (by omega) i
  have hupper : msbBits ((((h1 &&& 0x0f) <<< 20) ||| h2) >>> 20) 4 = msbBits h1 4 := by
    refine msbBits_congr fun i hi => ?_
    have hin : 20 + i < 32 := by omega
    have hlow : ¬20 + i < 20 := by omega
    rw [BitVec.getLsbD_ushiftRight, BitVec.getLsbD_or, BitVec.getLsbD_shiftLeft, BitVec.getLsbD_and,
      Nat.add_sub_cancel_left, hmask, hclear2 _ (Nat.le_add_right 20 i), decide_eq_true hin,
      decide_eq_false hlow, decide_eq_true hi]
    simp
  have hlower : msbBits (((h1 &&& 0x0f) <<< 20) ||| h2) 20 = msbBits h2 20 := by
    refine msbBits_congr fun i hi => ?_
    rw [BitVec.getLsbD_or, BitVec.getLsbD_shiftLeft, decide_eq_true hi]
    simp
  have hsecond : msbBits (((h1 &&& 0x0f) <<< 20) ||| h2) (8 * min 3 4) =
      msbBits h1 4 ++ msbBits h2 20 := by
    rw [← hupper, ← hlower]
    exact msbBits_add _ 4 20
  have hfirst : msbBits (h1 >>> 4) 16 ++ msbBits h1 4 = List.replicate 1 false ++ msbBits h1 19 :=
    (msbBits_add h1 16 4).symm.trans (msbBits_add_of_clear hclear1 1)
  calc (crcBytes (crcBytes 0 (h1 >>> 4) 2) (((h1 &&& 0x0f) <<< 20) ||| h2) 3).setWidth 15
      = feed canPoly (feed canPoly 0#15 (msbBits (h1 >>> 4) 16))
          (msbBits h1 4 ++ msbBits h2 20) := by
        rw [crcBytes_setWidth _ _ (by omega), crcBytes_setWidth _ _ (by omega), hsecond]
        rfl
    _ = feed canPoly 0#15 (List.replicate 1 false ++ (msbBits h1 19 ++ msbBits h2 20)) := by
        rw [← feed_append, ← List.append_assoc, hfirst, List.append_assoc]
    _ = canCrc (msbBits h1 19 ++ msbBits h2 20) := feed_zero_replicate canPoly 1 _

end Terraboot.Can2040
