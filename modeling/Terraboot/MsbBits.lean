import Mathlib.Data.List.Basic
import Mathlib.Data.Nat.Bitwise
import Mathlib.Tactic.Common

/-!
# Words as Bits, the Highest First

The low bits of a word in the order in which a serial line carries them, the bits above a place in
the order of their age, and the word that a list of bits stands for.

## Main results

* `msbBits_add`: a field of a word is the upper bits and then the lower ones.
* `msbBits_ofMsb`: a short list is read back from its word.
-/

namespace MsbBits

variable {n : ℕ}

/-- The low `k` bits of a word, the highest first. -/
def msbBits (w : BitVec n) : ℕ → List Bool
  | 0 => []
  | k + 1 => w.getLsbD k :: msbBits w k

/-- The `k` bits of a word from place `p` up, the lowest first. -/
def bitsAbove (w : BitVec n) (p : ℕ) : ℕ → List Bool
  | 0 => []
  | k + 1 => w.getLsbD p :: bitsAbove w (p + 1) k

/-- The word that ends in the given bits. -/
def ofMsb (n : ℕ) : List Bool → BitVec n
  | [] => 0#n
  | b :: bits => (BitVec.ofBool b).setWidth n <<< bits.length ||| ofMsb n bits

@[simp] theorem msbBits_zero (w : BitVec n) : msbBits w 0 = [] := rfl

@[simp] theorem length_msbBits (w : BitVec n) (k : ℕ) : (msbBits w k).length = k := by
  induction k with
  | zero => rfl
  | succ k ih => rw [msbBits, List.length_cons, ih]

theorem msbBits_congr {m : ℕ} {v : BitVec m} {w : BitVec n} {k : ℕ}
    (h : ∀ i < k, v.getLsbD i = w.getLsbD i) : msbBits v k = msbBits w k := by
  induction k with
  | zero => rfl
  | succ k ih =>
      rw [msbBits, msbBits, h k (Nat.lt_succ_self k), ih fun i hi => h i (Nat.lt_succ_of_lt hi)]

theorem getLsbD_eq_of_msbBits_eq {m : ℕ} {v : BitVec m} {w : BitVec n} {k : ℕ}
    (h : msbBits v k = msbBits w k) : ∀ i < k, v.getLsbD i = w.getLsbD i := by
  induction k with
  | zero => exact fun i hi => absurd hi (Nat.not_lt_zero i)
  | succ k ih =>
      rw [msbBits, msbBits, List.cons.injEq] at h
      intro i hi
      rcases Nat.lt_succ_iff_lt_or_eq.mp hi with hlt | rfl
      · exact ih h.2 i hlt
      · exact h.1

/-- **The upper bits of a field, and then the lower ones.** -/
theorem msbBits_add (w : BitVec n) (j k : ℕ) :
    msbBits w (j + k) = msbBits (w >>> k) j ++ msbBits w k := by
  induction j with
  | zero => rw [Nat.zero_add, msbBits_zero, List.nil_append]
  | succ j ih =>
      rw [Nat.succ_add, msbBits, ih, msbBits, List.cons_append, BitVec.getLsbD_ushiftRight,
        Nat.add_comm k j]

/-- A short word in a longer field. -/
theorem msbBits_add_of_clear {w : BitVec n} {k : ℕ} (h : ∀ i, k ≤ i → w.getLsbD i = false)
    (j : ℕ) : msbBits w (j + k) = List.replicate j false ++ msbBits w k := by
  induction j with
  | zero => rw [Nat.zero_add, List.replicate_zero, List.nil_append]
  | succ j ih =>
      rw [Nat.succ_add, msbBits, ih, h (j + k) (Nat.le_add_left k j), List.replicate_succ,
        List.cons_append]

theorem bitsAbove_congr {m : ℕ} {v : BitVec m} {w : BitVec n} {p q k : ℕ}
    (h : ∀ i < k, v.getLsbD (p + i) = w.getLsbD (q + i)) :
    bitsAbove v p k = bitsAbove w q k := by
  induction k generalizing p q with
  | zero => rfl
  | succ k ih =>
      have hrest : bitsAbove v (p + 1) k = bitsAbove w (q + 1) k := by
        refine ih fun i hi => ?_
        have hi := h (i + 1) (Nat.succ_lt_succ hi)
        rwa [Nat.add_comm i 1, ← Nat.add_assoc, ← Nat.add_assoc] at hi
      rw [bitsAbove, bitsAbove, hrest]
      exact congrArg (· :: _) (h 0 (Nat.succ_pos k))

theorem bitsAbove_eq_take {w : BitVec n} {p k : ℕ} {l : List Bool} (hk : k ≤ l.length)
    (h : ∀ i < k, w.getLsbD (p + i) = l.getD i false) : bitsAbove w p k = l.take k := by
  induction k generalizing p l with
  | zero => rfl
  | succ k ih =>
      obtain ⟨b, l, rfl⟩ := List.exists_cons_of_length_pos (Nat.lt_of_lt_of_le (Nat.succ_pos k) hk)
      have hfirst : w.getLsbD p = b := h 0 (Nat.succ_pos k)
      have hrest : bitsAbove w (p + 1) k = l.take k := by
        refine ih (Nat.le_of_succ_le_succ hk) fun i hi => ?_
        have hi := h (i + 1) (Nat.succ_lt_succ hi)
        rwa [Nat.add_comm i 1, ← Nat.add_assoc, Nat.add_comm 1 i, List.getD_cons_succ] at hi
      rw [bitsAbove, hfirst, hrest, List.take_succ_cons]

@[simp] theorem length_bitsAbove (w : BitVec n) (p k : ℕ) : (bitsAbove w p k).length = k := by
  induction k generalizing p with
  | zero => rfl
  | succ k ih => rw [bitsAbove, List.length_cons, ih]

/-! ### Masks -/

theorem getLsbD_one_shiftLeft {t : ℕ} (ht : t < n) (i : ℕ) :
    (1#n <<< t).getLsbD i = decide (i = t) := by
  have hn : 0 < n := Nat.zero_lt_of_lt ht
  rw [BitVec.getLsbD_shiftLeft, BitVec.getLsbD_one, Bool.eq_iff_iff]
  simp only [hn, decide_true, Bool.true_and, Bool.and_eq_true, Bool.not_eq_true', decide_eq_true_eq,
    decide_eq_false_iff_not]
  omega

/-- The mask of the low bits of a word. -/
theorem getLsbD_lowMask {t : ℕ} (ht : t < n) (i : ℕ) :
    ((1#n <<< t) - 1#n).getLsbD i = decide (i < t) := by
  have hpow : 2 ^ t < 2 ^ n := Nat.pow_lt_pow_right (by decide) ht
  have hone : 1 ≤ 2 ^ t := Nat.one_le_two_pow
  have hlit : (1#n).toNat = 1 := by
    rw [BitVec.toNat_ofNat]
    exact Nat.mod_eq_of_lt (Nat.lt_of_le_of_lt hone hpow)
  have hshift : (1#n <<< t).toNat = 2 ^ t := by
    rw [BitVec.toNat_shiftLeft, Nat.shiftLeft_eq, hlit, Nat.one_mul, Nat.mod_eq_of_lt hpow]
  have hnat : ((1#n <<< t) - 1#n).toNat = 2 ^ t - 1 := by
    have hrot : 2 ^ n - 1 + 2 ^ t = 2 ^ t - 1 + 2 ^ n := by omega
    rw [BitVec.toNat_sub, hshift, hlit, hrot, Nat.add_mod_right, Nat.mod_eq_of_lt (by omega)]
  rw [← BitVec.testBit_toNat, hnat, Nat.testBit_two_pow_sub_one]

theorem and_bit_ne_zero_iff {w : BitVec n} {t : ℕ} (ht : t < n) :
    w &&& (1#n <<< t) ≠ 0#n ↔ w.getLsbD t = true := by
  have hbit (j : ℕ) : (w &&& (1#n <<< t)).getLsbD j = (w.getLsbD j && decide (j = t)) := by
    rw [BitVec.getLsbD_and, getLsbD_one_shiftLeft ht]
  constructor
  · intro hne
    by_contra hclear
    refine hne (BitVec.eq_of_getLsbD_eq fun j _ => ?_)
    rw [hbit, BitVec.getLsbD_zero]
    by_cases hj : j = t
    · rw [hj, Bool.eq_false_iff.mpr hclear, Bool.false_and]
    · simp [hj]
  · intro hset hzero
    have ht := hbit t
    rw [hzero, hset, BitVec.getLsbD_zero] at ht
    simp at ht

/-- No bit of a field is set if the mask of the field says so. -/
theorem and_mask_eq_zero_iff {w : BitVec n} {t p : ℕ} (ht : t < n) :
    w &&& (((1#n <<< t) - 1#n) <<< p) = 0#n ↔ ∀ i < t, w.getLsbD (p + i) = false := by
  have hbit (j : ℕ) : (w &&& (((1#n <<< t) - 1#n) <<< p)).getLsbD j =
      (w.getLsbD j && (decide (j < n) && !decide (j < p) && decide (j - p < t))) := by
    rw [BitVec.getLsbD_and, BitVec.getLsbD_shiftLeft, getLsbD_lowMask ht]
  constructor
  · intro hzero i hi
    by_cases hin : p + i < n
    · have hset := hbit (p + i)
      rw [hzero, BitVec.getLsbD_zero] at hset
      have hpi : ¬p + i < p := by omega
      simpa [hin, hi, hpi] using hset.symm
    · exact BitVec.getLsbD_of_ge w _ (Nat.le_of_not_lt hin)
  · intro hclear
    refine BitVec.eq_of_getLsbD_eq fun j hj => ?_
    rw [hbit, BitVec.getLsbD_zero]
    by_cases hin : p ≤ j ∧ j - p < t
    · have hj := hclear (j - p) hin.2
      rw [Nat.add_sub_cancel' hin.1] at hj
      simp [hj]
    · have hout : ¬j < p → ¬j - p < t := by omega
      by_cases hlow : j < p
      · simp [hlow]
      · simp [hout hlow]

/-! ### From bits to words -/

/-- The first bit of a list is the highest one of the word. -/
theorem getLsbD_ofMsb_cons (b : Bool) (bits : List Bool) (i : ℕ) :
    (ofMsb n (b :: bits)).getLsbD i =
      ((decide (i < n ∧ i = bits.length) && b) || (ofMsb n bits).getLsbD i) := by
  rw [ofMsb, BitVec.getLsbD_or, BitVec.getLsbD_shiftLeft, BitVec.getLsbD_setWidth,
    BitVec.getLsbD_ofBool]
  by_cases hi : i < n
  · by_cases hlt : i < bits.length
    · have hne : i ≠ bits.length := hlt.ne
      simp [hlt, hne]
    · have hsub : i - bits.length < n := by omega
      have hzero : i - bits.length = 0 ↔ i = bits.length := by omega
      simp [hi, hlt, hsub, hzero]
  · simp [hi]

/-- Bits that follow others push them up. -/
theorem shiftLeft_or_ofMsb_cons (w : BitVec n) (b : Bool) (bits : List Bool) :
    (w <<< (bits.length + 1)) ||| ofMsb n (b :: bits) =
      (((w <<< 1) ||| ofMsb n [b]) <<< bits.length) ||| ofMsb n bits := by
  have hsingle : ofMsb n [b] = (BitVec.ofBool b).setWidth n := by
    rw [ofMsb, ofMsb, List.length_nil, BitVec.shiftLeft_zero, BitVec.or_zero]
  rw [hsingle, BitVec.shiftLeft_or_distrib, ← BitVec.shiftLeft_add, Nat.add_comm 1, ofMsb,
    BitVec.or_assoc]

theorem shiftLeft_or_ofMsb_append (w : BitVec n) (a b : List Bool) :
    (w <<< (a ++ b).length) ||| ofMsb n (a ++ b) =
      (((w <<< a.length) ||| ofMsb n a) <<< b.length) ||| ofMsb n b := by
  induction a generalizing w with
  | nil => simp [ofMsb]
  | cons x a ih =>
      rw [List.cons_append, List.length_cons, List.length_cons, shiftLeft_or_ofMsb_cons,
        shiftLeft_or_ofMsb_cons, ih]

theorem getLsbD_ofMsb_of_le {bits : List Bool} {i : ℕ} (h : bits.length ≤ i) :
    (ofMsb n bits).getLsbD i = false := by
  induction bits with
  | nil => exact BitVec.getLsbD_zero
  | cons b bits ih =>
      rw [List.length_cons] at h
      have hne : i ≠ bits.length := by omega
      rw [getLsbD_ofMsb_cons, ih (by omega)]
      simp [hne]

theorem getLsbD_ofMsb_msbBits {m : ℕ} (w : BitVec m) (k i : ℕ) :
    (ofMsb n (msbBits w k)).getLsbD i = (decide (i < n ∧ i < k) && w.getLsbD i) := by
  induction k with
  | zero => simp [ofMsb]
  | succ k ih =>
      rw [msbBits, getLsbD_ofMsb_cons, ih, length_msbBits]
      rcases Nat.lt_trichotomy i k with hlt | rfl | hgt
      · simp [hlt, hlt.ne, Nat.lt_succ_of_lt hlt]
      · simp
      · simp [hgt.ne', Nat.not_lt.mpr hgt.le, Nat.not_lt.mpr (Nat.succ_le_of_lt hgt)]

/-- **A short list is read back from its word.** -/
theorem msbBits_ofMsb (bits : List Bool) (h : bits.length ≤ n) :
    msbBits (ofMsb n bits) bits.length = bits := by
  induction bits with
  | nil => rfl
  | cons b bits ih =>
      rw [List.length_cons] at h
      have hhigh : (ofMsb n (b :: bits)).getLsbD bits.length = b := by
        rw [getLsbD_ofMsb_cons, getLsbD_ofMsb_of_le (Nat.le_refl _), Bool.or_false]
        simp [Nat.lt_of_succ_le h]
      have hlow : msbBits (ofMsb n (b :: bits)) bits.length = bits := by
        refine Eq.trans (msbBits_congr fun i hi => ?_) (ih (Nat.le_of_succ_le h))
        rw [getLsbD_ofMsb_cons]
        simp [hi.ne]
      rw [List.length_cons, msbBits, hhigh, hlow]

theorem msbBits_shiftLeft (w : BitVec n) {j k : ℕ} (h : k + j ≤ n) :
    msbBits (w <<< j) (k + j) = msbBits w k ++ List.replicate j false := by
  have hlow : msbBits (w <<< j) j = List.replicate j false := by
    have hzero : msbBits (w <<< j) j = msbBits 0#n (j + 0) := by
      refine msbBits_congr fun i hi => ?_
      rw [BitVec.getLsbD_shiftLeft, BitVec.getLsbD_zero]
      simp [hi]
    rw [hzero, msbBits_add_of_clear fun i _ => BitVec.getLsbD_zero, msbBits_zero, List.append_nil]
  have hhigh : msbBits ((w <<< j) >>> j) k = msbBits w k := by
    refine msbBits_congr fun i hi => ?_
    have hin : j + i < n := by omega
    rw [BitVec.getLsbD_ushiftRight, BitVec.getLsbD_shiftLeft, Nat.add_sub_cancel_left]
    simp [hin]
  rw [msbBits_add, hlow, hhigh]

/-! ### Rows of words -/

/-- The bit at a place of a row of words, counted from the highest one of the first word. -/
def rowBit (row : List (BitVec n)) (p : ℕ) : Bool :=
  (row.getD (p / n) 0#n).getLsbD (n - 1 - p % n)

theorem getElem_msbBits (w : BitVec n) {k i : ℕ} (hi : i < (msbBits w k).length) :
    (msbBits w k)[i] = w.getLsbD (k - 1 - i) := by
  induction k generalizing i with
  | zero => exact absurd hi (Nat.not_lt_zero i)
  | succ k ih =>
      cases i with
      | zero => rfl
      | succ i =>
          rw [length_msbBits] at hi
          have hrest := ih (i := i) (by rw [length_msbBits]; omega)
          exact hrest.trans (congrArg _ (by omega))

theorem rowBit_take (row : List (BitVec n)) {k p : ℕ} (hp : p / n < k) :
    rowBit (row.take k) p = rowBit row p := by
  rw [rowBit, rowBit, List.getD_eq_getElem?_getD, List.getD_eq_getElem?_getD,
    List.getElem?_take_of_lt hp]

/-- What is written over a word of a row. -/
theorem rowBit_modify (row : List (BitVec n)) (v : BitVec n) {k : ℕ} (hk : k < row.length) (p : ℕ) :
    rowBit (row.modify k (· ||| v)) p =
      (rowBit row p || (decide (p / n = k) && v.getLsbD (n - 1 - p % n))) := by
  rw [rowBit, rowBit, List.getD_eq_getElem?_getD, List.getD_eq_getElem?_getD,
    List.getElem?_modify]
  by_cases hp : p / n = k
  · subst hp
    simp [List.getElem?_eq_getElem hk]
  · have hne : k ≠ p / n := fun h => hp h.symm
    simp [hp, hne]

theorem length_flatMap_msbBits (row : List (BitVec n)) (k : ℕ) :
    (row.flatMap (msbBits · k)).length = k * row.length := by
  induction row with
  | nil => rfl
  | cons w row ih =>
      rw [List.flatMap_cons, List.length_append, length_msbBits, ih, List.length_cons, Nat.mul_succ,
        Nat.add_comm]

/-- A row of words is told by its bits. -/
theorem flatMap_msbBits_inj {row row' : List (BitVec n)} (hlength : row.length = row'.length)
    (h : row.flatMap (msbBits · n) = row'.flatMap (msbBits · n)) : row = row' := by
  induction row generalizing row' with
  | nil => exact (List.length_eq_zero_iff.mp hlength.symm).symm
  | cons w row ih =>
      obtain ⟨w', row', rfl⟩ : ∃ w' l, row' = w' :: l := by
        refine List.exists_cons_of_length_pos ?_
        rw [← hlength]
        exact Nat.succ_pos row.length
      rw [List.flatMap_cons, List.flatMap_cons] at h
      obtain ⟨hfirst, hrest⟩ := List.append_inj h (by simp)
      have hword : w = w' := BitVec.eq_of_getLsbD_eq fun i hi => getLsbD_eq_of_msbBits_eq hfirst i hi
      rw [hword, ih (Nat.succ.inj hlength) hrest]

/-- **A row of words as bits.** -/
theorem flatMap_msbBits_eq (hn : 0 < n) {row : List (BitVec n)} {s : List Bool}
    (hlength : s.length = n * row.length) (h : ∀ p < s.length, rowBit row p = s.getD p false) :
    row.flatMap (msbBits · n) = s := by
  induction row generalizing s with
  | nil => exact (List.length_eq_zero_iff.mp hlength).symm
  | cons w row ih =>
      rw [List.length_cons, Nat.mul_succ] at hlength
      have hfirst : msbBits w n = s.take n := by
        refine List.ext_getElem (by simp [hlength]) fun i hi _ => ?_
        rw [length_msbBits] at hi
        have hbit := h i (by omega)
        rw [rowBit, Nat.div_eq_of_lt hi, Nat.mod_eq_of_lt hi, List.getD_cons_zero,
          List.getD_eq_getElem _ _ (by omega)] at hbit
        rw [getElem_msbBits, hbit, List.getElem_take]
      have hrest : row.flatMap (msbBits · n) = s.drop n := by
        refine ih (by rw [List.length_drop]; omega) fun p hp => ?_
        rw [List.length_drop] at hp
        have hbit := h (n + p) (by omega)
        rw [rowBit, Nat.add_div_left p hn, Nat.add_mod_left, List.getD_cons_succ,
          List.getD_eq_getElem s _ (by omega)] at hbit
        rw [rowBit, hbit, List.getD_eq_getElem _ _ (by rw [List.length_drop]; omega),
          List.getElem_drop]
      rw [List.flatMap_cons, hfirst, hrest, List.take_append_drop]

end MsbBits
