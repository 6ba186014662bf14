import Mathlib.Data.List.Basic
import Mathlib.Tactic.Common

/-!
# Little-Endian Byte Strings

Fixed-width machine words as they lie in the memory of a little-endian processor. The
encoders list the bytes from the lowest address upward; the decoders read a word back
from the front of a byte string and take missing bytes as zero.

## Main results

* `ofLe16_le16_append`, `ofLe32_le32_append`, `ofLe64_le64_append`: decoding inverts encoding, whatever
  follows in memory.
* `le16_ofLe16`, `le32_ofLe32`: encoding inverts decoding.
* `overwrite_append`, `overwrite_replicate`, `setWord_replicate`: stores into an array that
  is kept as its byte image.
-/

namespace LittleEndian

/-- The bytes of a 16-bit word. -/
def le16 (x : BitVec 16) : List (BitVec 8) :=
  [x.extractLsb' 0 8, x.extractLsb' 8 8]

/-- The bytes of a 32-bit word. -/
def le32 (x : BitVec 32) : List (BitVec 8) :=
  [x.extractLsb' 0 8, x.extractLsb' 8 8, x.extractLsb' 16 8, x.extractLsb' 24 8]

/-- The bytes of a 64-bit word. -/
def le64 (x : BitVec 64) : List (BitVec 8) :=
  le32 (x.extractLsb' 0 32) ++ le32 (x.extractLsb' 32 32)

/-- The 16-bit word at the front of a byte string. -/
def ofLe16 (b : List (BitVec 8)) : BitVec 16 := b.getD 1 0 ++ b.getD 0 0

/-- The 32-bit word at the front of a byte string. -/
def ofLe32 (b : List (BitVec 8)) : BitVec 32 :=
  b.getD 3 0 ++ b.getD 2 0 ++ b.getD 1 0 ++ b.getD 0 0

/-- The 64-bit word at the front of a byte string. -/
def ofLe64 (b : List (BitVec 8)) : BitVec 64 := ofLe32 (b.drop 4) ++ ofLe32 b

/-- The low bits of a number. -/
theorem and_255 (x : ℕ) : x &&& 255 = x % 256 := Nat.and_two_pow_sub_one_eq_mod x 8

theorem and_63 (x : ℕ) : x &&& 63 = x % 64 := Nat.and_two_pow_sub_one_eq_mod x 6

@[simp] theorem le16_length (x : BitVec 16) : (le16 x).length = 2 := rfl

@[simp] theorem le32_length (x : BitVec 32) : (le32 x).length = 4 := rfl

@[simp] theorem le64_length (x : BitVec 64) : (le64 x).length = 8 := rfl

/-- Decoding inverts encoding, whatever bytes follow. -/
theorem ofLe16_le16_append (x : BitVec 16) (r : List (BitVec 8)) :
    ofLe16 (le16 x ++ r) = x := by
  simp only [ofLe16, le16, List.cons_append, List.nil_append, List.getD_cons_succ,
    List.getD_cons_zero]
  ext i hi
  simp only [BitVec.getElem_append, BitVec.getElem_extractLsb']
  split
  · simp [BitVec.getLsbD_eq_getElem hi]
  · rw [show 8 + (i - 8) = i by omega, BitVec.getLsbD_eq_getElem hi]

/-- Encoding inverts decoding of two bytes. -/
theorem le16_ofLe16 (a b : BitVec 8) : le16 (ofLe16 [a, b]) = [a, b] := by
  simp only [ofLe16, le16, List.getD_cons_succ, List.getD_cons_zero]
  refine List.cons_eq_cons.mpr ⟨?_, List.cons_eq_cons.mpr ⟨?_, rfl⟩⟩ <;>
  · ext i hi
    simp only [BitVec.getElem_extractLsb', BitVec.getLsbD_append]
    grind

/-- Decoding inverts encoding, whatever bytes follow. -/
theorem ofLe32_le32_append (x : BitVec 32) (r : List (BitVec 8)) :
    ofLe32 (le32 x ++ r) = x := by
  simp only [ofLe32, le32, List.cons_append, List.nil_append, List.getD_cons_succ,
    List.getD_cons_zero]
  ext i hi
  simp only [BitVec.getElem_append, BitVec.getElem_extractLsb']
  split
  · simp [BitVec.getLsbD_eq_getElem hi]
  · split
    · rw [show 8 + (i - 8) = i by omega, BitVec.getLsbD_eq_getElem hi]
    · split
      · rw [show 16 + (i - 8 - 8) = i by omega, BitVec.getLsbD_eq_getElem hi]
      · rw [show 24 + (i - 8 - 8 - 8) = i by omega, BitVec.getLsbD_eq_getElem hi]

theorem ofLe32_le32 (x : BitVec 32) : ofLe32 (le32 x) = x := by
  simpa using ofLe32_le32_append x []

/-- Encoding inverts decoding of four bytes. -/
theorem le32_ofLe32 (a b c d : BitVec 8) : le32 (ofLe32 [a, b, c, d]) = [a, b, c, d] := by
  simp only [ofLe32, le32, List.getD_cons_succ, List.getD_cons_zero]
  refine List.cons_eq_cons.mpr ⟨?_, List.cons_eq_cons.mpr ⟨?_, List.cons_eq_cons.mpr
    ⟨?_, List.cons_eq_cons.mpr ⟨?_, rfl⟩⟩⟩⟩ <;>
  · ext i hi
    simp only [BitVec.getElem_extractLsb', BitVec.getLsbD_append]
    grind

/-- Decoding inverts encoding, whatever bytes follow. -/
theorem ofLe64_le64_append (x : BitVec 64) (r : List (BitVec 8)) : ofLe64 (le64 x ++ r) = x := by
  rw [ofLe64, le64, List.append_assoc, ofLe32_le32_append, List.drop_left' (le32_length _),
    ofLe32_le32_append]
  refine BitVec.eq_of_getLsbD_eq fun i hi => ?_
  simp only [BitVec.getLsbD_append, BitVec.getLsbD_extractLsb']
  grind

/-- Only the first four bytes matter. -/
theorem ofLe32_take (b : List (BitVec 8)) : ofLe32 (b.take 4) = ofLe32 b := by
  simp only [ofLe32, List.getD_eq_getElem?_getD]
  rw [List.getElem?_take_of_lt (by omega), List.getElem?_take_of_lt (by omega),
    List.getElem?_take_of_lt (by omega), List.getElem?_take_of_lt (by omega)]

/-! ### Stores into an array -/

/-- `memcpy(&buf[off], data, len)` on a byte array. -/
def overwrite (buf : List (BitVec 8)) (off : ℕ) (data : List (BitVec 8)) : List (BitVec 8) :=
  buf.take off ++ data ++ buf.drop (off + data.length)

@[simp] theorem overwrite_length {buf data : List (BitVec 8)} {off : ℕ}
    (h : off + data.length ≤ buf.length) : (overwrite buf off data).length = buf.length := by
  rw [overwrite, List.length_append, List.length_append, List.length_take, List.length_drop]
  omega

/-- What an overwritten buffer holds, byte by byte. -/
theorem overwrite_getD {buf data : List (BitVec 8)} {off : ℕ}
    (h : off + data.length ≤ buf.length) (i : ℕ) :
    (overwrite buf off data).getD i 0 =
      if off ≤ i ∧ i < off + data.length then data.getD (i - off) 0 else buf.getD i 0 := by
  have htake : (buf.take off).length = off := by rw [List.length_take]; omega
  simp only [overwrite, List.getD_eq_getElem?_getD, List.append_assoc]
  by_cases hlo : off ≤ i
  · rw [List.getElem?_append_right (by omega), htake]
    by_cases hhi : i < off + data.length
    · rw [if_pos ⟨hlo, hhi⟩, List.getElem?_append_left (by omega)]
    · rw [if_neg (by omega), List.getElem?_append_right (by omega), List.getElem?_drop,
        show off + data.length + (i - off - data.length) = i by omega]
  · rw [if_neg (by omega), List.getElem?_append_left (by omega),
      List.getElem?_take_of_lt (by omega)]

/-- The bytes up to the end of the overwritten part. -/
theorem overwrite_take_end {buf data : List (BitVec 8)} {off : ℕ}
    (h : off + data.length ≤ buf.length) :
    (overwrite buf off data).take (off + data.length) = buf.take off ++ data := by
  have htake : (buf.take off).length = off := by rw [List.length_take]; omega
  have hlen : (buf.take off ++ data).length = off + data.length := by
    rw [List.length_append, htake]
  rw [overwrite, ← hlen, List.take_left]

/-- What stands before the overwritten part stays. -/
theorem overwrite_take {buf data : List (BitVec 8)} {off k : ℕ} (hk : k ≤ off)
    (hoff : off ≤ buf.length) : (overwrite buf off data).take k = buf.take k := by
  rw [overwrite, List.append_assoc,
    List.take_append_of_le_length (by rw [List.length_take]; omega), List.take_take,
    Nat.min_eq_left hk]

/-- A store into the middle part of an array. -/
theorem overwrite_append (a b c data : List (BitVec 8)) (h : b.length = data.length) :
    overwrite (a ++ b ++ c) a.length data = a ++ data ++ c := by
  rw [overwrite, ← h, List.append_assoc a b c, List.take_left,
    List.drop_append, List.drop_of_length_le (by omega), List.nil_append,
    Nat.add_sub_cancel_left, List.drop_left]

/-- A second store of the same length takes the place of the first. -/
theorem overwrite_overwrite {buf data data' : List (BitVec 8)} {off : ℕ} (hoff : off ≤ buf.length)
    (h : data.length = data'.length) :
    overwrite (overwrite buf off data) off data' = overwrite buf off data' := by
  have htake : (buf.take off).length = off := List.length_take_of_le hoff
  have hstore := overwrite_append (buf.take off) data (buf.drop (off + data.length)) data' h
  rw [htake] at hstore
  calc overwrite (overwrite buf off data) off data'
      = buf.take off ++ data' ++ buf.drop (off + data.length) := hstore
    _ = overwrite buf off data' := by rw [h, overwrite]

/-- A store into an array whose part from `pre.length` on is still uniform. -/
theorem overwrite_replicate {pre data : List (BitVec 8)} {z : BitVec 8} {off k : ℕ} (gap : ℕ)
    (hoff : off = pre.length + gap) (h : gap + data.length ≤ k) :
    overwrite (pre ++ List.replicate k z) off data =
      pre ++ List.replicate gap z ++ data ++ List.replicate (k - gap - data.length) z := by
  have hk : List.replicate k z = List.replicate gap z ++ List.replicate data.length z ++
      List.replicate (k - gap - data.length) z := by
    rw [List.replicate_append_replicate, List.replicate_append_replicate]
    congr 1
    omega
  have := overwrite_append (pre ++ List.replicate gap z) (List.replicate data.length z)
    (List.replicate (k - gap - data.length) z) data List.length_replicate
  rw [List.length_append, List.length_replicate, ← hoff] at this
  rw [hk, ← this]
  simp only [List.append_assoc]

/-- `data[i] = cpu_to_le32(w)` on the byte image of a word array. -/
def setWord (buf : List (BitVec 8)) (i : ℕ) (w : BitVec 32) : List (BitVec 8) :=
  overwrite buf (4 * i) (le32 w)

/-- `le32_to_cpu(data[i])` on the byte image of a word array. -/
def getWord (buf : List (BitVec 8)) (i : ℕ) : BitVec 32 := ofLe32 (buf.drop (4 * i))

/-- A store of the next word into an array that is filled from the front. -/
theorem setWord_replicate {pre : List (BitVec 8)} {z : BitVec 8} {i k : ℕ} (w : BitVec 32)
    (hi : 4 * i = pre.length) (h : 4 ≤ k) :
    setWord (pre ++ List.replicate k z) i w = pre ++ le32 w ++ List.replicate (k - 4) z := by
  rw [setWord, overwrite_replicate 0 hi (by rw [le32_length]; omega), List.replicate_zero,
    List.append_nil, Nat.sub_zero, le32_length]

theorem setWord_length {buf : List (BitVec 8)} {i : ℕ} (w : BitVec 32)
    (h : 4 * i + 4 ≤ buf.length) : (setWord buf i w).length = buf.length :=
  overwrite_length (by rw [le32_length]; omega)

end LittleEndian
