import Mathlib.Data.BitVec
import Mathlib.Data.Nat.Bitwise
import Mathlib.Tactic.Common
import Mathlib.Tactic.Ring

/-!
# Clocks That Wrap Around

A counter of `w` bits that counts the ticks of a true time, and the usual comparison of
two of its values by the sign of their difference. The comparison depends on the true
times only through their distance, and tells the order only for distances of at most half
the range.

## Main results

* `before_deadline`: until a deadline of at most half the range has passed, the clock is
  before it.
* `exists_past_deadline`: a longer deadline counts as passed at some time before it.
* `past_deadline_iff`: when a deadline counts as passed: for the first half of each round of the
  counter after it.
* `counter_halves`: a counter put together from a narrow one and a high part that advances in steps
  of half its range.
-/

namespace WrapClock

variable {w : ℕ}

/-- The counter at a true time. -/
def counter (w t : ℕ) : BitVec w := BitVec.ofNat w t

/-- Comparison by the sign of the difference. -/
def before (x y : BitVec w) : Bool := decide ((x - y).toInt < 0)

theorem before_iff (x y : BitVec w) : before x y = true ↔ 2 ^ w ≤ 2 * (x - y).toNat := by
  rw [before, decide_eq_true_iff, BitVec.toInt_neg_iff]

theorem counter_add (s e : ℕ) : counter w (s + e) = counter w s + counter w e :=
  BitVec.ofNat_add s e

/-- Only the elapsed time matters. -/
theorem counter_sub_deadline (s e p : ℕ) :
    counter w (s + e) - (counter w s + counter w p) = counter w e - counter w p := by
  rw [counter_add, add_sub_add_left_eq_sub]

/-- Until a deadline of at most half the range has passed, the clock is before it. -/
theorem before_deadline {s e p : ℕ} (hp : 2 * p ≤ 2 ^ w) (he : e < p) :
    before (counter w (s + e)) (counter w s + counter w p) = true := by
  rw [before_iff, counter_sub_deadline, counter, counter, BitVec.toNat_sub, BitVec.toNat_ofNat,
    BitVec.toNat_ofNat, Nat.mod_eq_of_lt (show p < 2 ^ w by omega),
    Nat.mod_eq_of_lt (show e < 2 ^ w by omega), Nat.mod_eq_of_lt (by omega)]
  omega

/-- A longer deadline counts as passed half a range before it. -/
theorem exists_past_deadline {p : ℕ} (hw : 0 < w) (hp : 2 ^ w < 2 * p) (s : ℕ) :
    ∃ e < p, before (counter w (s + e)) (counter w s + counter w p) = false := by
  obtain ⟨h, hh⟩ : ∃ h, 2 ^ w = 2 * h := ⟨2 ^ (w - 1), by
    rw [← Nat.pow_succ', Nat.succ_eq_add_one, Nat.sub_add_cancel hw]⟩
  have hpos : 0 < h := by
    have := Nat.two_pow_pos w
    omega
  obtain ⟨e, rfl⟩ : ∃ e, p = e + (h + 1) := ⟨p - (h + 1), by omega⟩
  refine ⟨e, by omega, ?_⟩
  have hdiff : (counter w (s + e) - (counter w s + counter w (e + (h + 1)))).toNat = h - 1 := by
    rw [counter_sub_deadline, counter_add, sub_add_cancel_left, counter, BitVec.toNat_neg,
      BitVec.toNat_ofNat, hh]
    obtain rfl | hbig : h = 1 ∨ h + 1 < 2 * h := by omega
    · rfl
    · rw [Nat.mod_eq_of_lt hbig, Nat.mod_eq_of_lt (by omega)]
      omega
  rw [← Bool.not_eq_true, before_iff, hdiff]
  omega

/-- The counter counts down by as many as a number has in excess of whole rounds. -/
theorem neg_counter_toNat (x : ℕ) :
    (-counter w (x + 1)).toNat = 2 ^ w - 1 - x % 2 ^ w := by
  have hpos := Nat.two_pow_pos w
  have hlt := Nat.mod_lt x hpos
  rw [counter, BitVec.toNat_neg, BitVec.toNat_ofNat, Nat.add_mod]
  obtain hone | hmany : 2 ^ w = 1 ∨ 1 < 2 ^ w := by omega
  · rw [hone, Nat.mod_one, Nat.mod_one]
  · rw [Nat.mod_eq_of_lt hmany]
    obtain hlast | hless : x % 2 ^ w + 1 = 2 ^ w ∨ x % 2 ^ w + 1 < 2 ^ w := by omega
    · rw [hlast, Nat.mod_self, Nat.sub_zero, Nat.mod_self]
      omega
    · rw [Nat.mod_eq_of_lt hless, Nat.mod_eq_of_lt (by omega)]
      omega

/-- **When a deadline counts as passed**: not before it, and then for half a round of the counter,
again and again. -/
theorem past_deadline_iff {s e p : ℕ} (hw : 0 < w) (hp : 2 * p < 2 ^ w) :
    before (counter w s + counter w p) (counter w (s + e)) = true ↔
      p < e ∧ 2 * ((e - p - 1) % 2 ^ w) < 2 ^ w := by
  have hdiff : counter w s + counter w p - counter w (s + e) = counter w p - counter w e := by
    rw [counter_add, add_sub_add_left_eq_sub]
  rw [before_iff, hdiff]
  obtain hle | hlt := (Nat.lt_or_ge p e).symm
  · obtain ⟨d, rfl⟩ := Nat.exists_eq_add_of_le hle
    have hahead : counter w (e + d) - counter w e = counter w d := by
      rw [counter_add, add_sub_cancel_left]
    rw [hahead, counter, BitVec.toNat_ofNat, Nat.mod_eq_of_lt (by omega)]
    omega
  · obtain ⟨x, rfl⟩ : ∃ x, e = p + (x + 1) := ⟨e - p - 1, by omega⟩
    have hbehind : counter w p - counter w (p + (x + 1)) = -counter w (x + 1) := by
      rw [counter_add, sub_add_cancel_left]
    have hround := Nat.mod_lt x (Nat.two_pow_pos w)
    obtain ⟨h, hh⟩ : ∃ h, 2 ^ w = 2 * h := ⟨2 ^ (w - 1), by
      rw [← Nat.pow_succ', Nat.succ_eq_add_one, Nat.sub_add_cancel hw]⟩
    have hexcess : p + (x + 1) - p - 1 = x := by omega
    rw [hbehind, neg_counter_toNat, hexcess]
    omega

/-! ### A high part that advances in halves -/

/-- A number, from one that is the same or behind by one, and its own parity. -/
theorem xor_parity {h u : ℕ} (hu : u = h ∨ u = h + 1) : (h ^^^ u % 2) + h % 2 = u := by
  have hparity : h % 2 = 0 ∨ h % 2 = 1 := Nat.mod_two_eq_zero_or_one h
  have hflip : h ^^^ 1 = if h % 2 = 0 then h + 1 else h - 1 := by
    split_ifs with heven
    · exact Nat.xor_one_of_even (Nat.even_iff.mpr heven)
    · exact Nat.xor_one_of_odd (Nat.odd_iff.mpr (by omega))
  have hkeep : h ^^^ 0 = h := Nat.xor_zero h
  rcases hu with rfl | rfl
  · obtain heven | hodd := hparity
    · rw [heven, hkeep, Nat.add_zero]
    · rw [hodd, hflip, if_neg (by omega)]
      omega
  · obtain heven | hodd := hparity
    · rw [show (h + 1) % 2 = 1 by omega, hflip, if_pos heven, heven]
    · rw [show (h + 1) % 2 = 0 by omega, hkeep, hodd]

/-- The same above `n` bits: a time, from the number of halves that have passed and the low part. -/
theorem xor_add_halves {n h t : ℕ} (hle : 2 ^ n * h ≤ t) (hlt : t < 2 ^ n * h + 2 ^ (n + 1)) :
    (2 ^ n * h ^^^ t % 2 ^ (n + 1)) + 2 ^ n * h % 2 ^ (n + 1) = t := by
  have hpos := Nat.two_pow_pos n
  have htwice : 2 ^ (n + 1) = 2 ^ n * 2 := pow_succ 2 n
  have hu : t / 2 ^ n = h ∨ t / 2 ^ n = h + 1 := by
    have hlo : h ≤ t / 2 ^ n := (Nat.le_div_iff_mul_le hpos).mpr (by rwa [Nat.mul_comm])
    have hhi : t / 2 ^ n < h + 2 := by
      rw [Nat.div_lt_iff_lt_mul hpos, Nat.add_mul, Nat.mul_comm h]
      omega
    omega
  have hxor : 2 ^ n * h ^^^ t % 2 ^ (n + 1) = 2 ^ n * (h ^^^ t / 2 ^ n % 2) + t % 2 ^ n := by
    have hdiv : (2 ^ n * h ^^^ t % 2 ^ (n + 1)) / 2 ^ n = h ^^^ t / 2 ^ n % 2 := by
      rw [Nat.xor_div_two_pow, Nat.mul_div_cancel_left _ hpos, htwice, Nat.mod_mul_right_div_self]
    have hmod : (2 ^ n * h ^^^ t % 2 ^ (n + 1)) % 2 ^ n = t % 2 ^ n := by
      rw [Nat.xor_mod_two_pow, Nat.mul_mod_right, Nat.zero_xor, htwice,
        Nat.mod_mul_right_mod]
    rw [← hdiv, ← hmod, Nat.div_add_mod]
  calc (2 ^ n * h ^^^ t % 2 ^ (n + 1)) + 2 ^ n * h % 2 ^ (n + 1)
      = 2 ^ n * (h ^^^ t / 2 ^ n % 2) + t % 2 ^ n + 2 ^ n * (h % 2) := by
        rw [hxor, htwice, Nat.mul_mod_mul_left]
    _ = 2 ^ n * ((h ^^^ t / 2 ^ n % 2) + h % 2) + t % 2 ^ n := by ring
    _ = t := by rw [xor_parity hu, Nat.div_add_mod]

/-- **A counter put together** from a narrow one of `n + 1` bits and the number of its halves that
have passed, which is known to be the right one or behind by one. -/
theorem counter_halves {n h t : ℕ} (hle : 2 ^ n * h ≤ t) (hlt : t < 2 ^ n * h + 2 ^ (n + 1)) :
    (counter w (2 ^ n * h) ^^^ counter w (t % 2 ^ (n + 1))) +
        (counter w (2 ^ n * h) &&& counter w (2 ^ (n + 1) - 1)) = counter w t := by
  rw [counter, counter, counter, ← BitVec.ofNat_xor, ← BitVec.ofNat_and, ← BitVec.ofNat_add,
    Nat.and_two_pow_sub_one_eq_mod, xor_add_halves hle hlt, counter]

end WrapClock
