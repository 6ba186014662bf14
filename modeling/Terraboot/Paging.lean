import Mathlib.Data.Nat.Bitwise
import Mathlib.Tactic.Common

/-!
# Page Maps

A flash whose pages (sectors) need not all have one size is described by the size of the
page at each address. The law that makes the description consistent is that the size is
constant over each page; then the pages partition the address space and rounding an
address down to the start of its page is idempotent.

## Main results

* `alignDown_eq`: on 32-bit addresses, rounding down by masking is rounding down by
  division, for every power of two.
* `PageMap.start_eq_of_mem`: all addresses of a page have the same start.
* `PageMap.le_start`, `PageMap.page_end_le`: the page of an address beyond an aligned
  boundary lies beyond that boundary, and likewise before one.
-/

namespace Paging

/-- Rounding down as a mask on a 32-bit address: `x & ~(a - 1)`. -/
def alignDown (x a : ℕ) : ℕ := x &&& ((2 ^ 32 - 1) ^^^ (a - 1))

/-- For a power of two, masking a 32-bit address is dividing and multiplying. -/
theorem alignDown_eq {x k : ℕ} (hx : x < 2 ^ 32) (hk : k ≤ 32) :
    alignDown x (2 ^ k) = x / 2 ^ k * 2 ^ k := by
  apply Nat.eq_of_testBit_eq
  intro i
  rw [alignDown, Nat.testBit_and, Nat.testBit_xor, Nat.testBit_two_pow_sub_one,
    Nat.testBit_two_pow_sub_one, Nat.testBit_mul_two_pow, Nat.testBit_div_two_pow]
  by_cases hi : i < 32
  · by_cases hki : k ≤ i
    · rw [Nat.sub_add_cancel hki]
      simp [hi, hki]
    · have : i < k := by omega
      simp [hi, hki, this]
  · have hbit : x.testBit i = false :=
      Nat.testBit_lt_two_pow (lt_of_lt_of_le hx (Nat.pow_le_pow_right (by decide) (by omega)))
    have : ¬ i < k := by omega
    by_cases hki : k ≤ i
    · rw [Nat.sub_add_cancel hki]
      simp [hbit]
    · omega

/-- A description of a flash by the size of the page at each address. -/
structure PageMap where
  /-- The size of the page that holds an address. -/
  size : ℕ → ℕ
  size_pos : ∀ a, 0 < size a
  /-- The size is constant over each page. -/
  size_const : ∀ a b, a / size a * size a ≤ b → b < a / size a * size a + size a →
    size b = size a

namespace PageMap

variable (P : PageMap)

/-- The start of the page that holds an address. -/
def start (a : ℕ) : ℕ := a / P.size a * P.size a

theorem start_le (a : ℕ) : P.start a ≤ a := Nat.div_mul_le_self a (P.size a)

theorem lt_start_add_size (a : ℕ) : a < P.start a + P.size a := by
  have := Nat.lt_div_mul_add (a := a) (P.size_pos a)
  exact this

/-- All addresses of a page have the same start. -/
theorem start_eq_of_mem {a b : ℕ} (h₁ : P.start a ≤ b) (h₂ : b < P.start a + P.size a) :
    P.start b = P.start a ∧ P.size b = P.size a := by
  have hs := P.size_const a b h₁ h₂
  refine ⟨?_, hs⟩
  have hq : b / P.size a = a / P.size a := by
    refine Nat.div_eq_of_lt_le h₁ ?_
    rw [Nat.succ_mul]
    exact h₂
  rw [start, hs, hq, start]

theorem start_start (a : ℕ) : P.start (P.start a) = P.start a ∧
    P.size (P.start a) = P.size a :=
  P.start_eq_of_mem le_rfl (by have := P.size_pos a; omega)

/-- A boundary between pages. -/
def Aligned (b : ℕ) : Prop := P.start b = b

theorem aligned_iff_dvd (b : ℕ) : P.Aligned b ↔ P.size b ∣ b := by
  constructor
  · intro h
    exact ⟨b / P.size b, by rw [Nat.mul_comm]; exact h.symm⟩
  · exact fun h => Nat.div_mul_cancel h

theorem aligned_start (a : ℕ) : P.Aligned (P.start a) := (P.start_start a).1

/-- Beyond an aligned boundary, whole pages lie beyond it. -/
theorem le_start {b a : ℕ} (hb : P.Aligned b) (h : b ≤ a) : b ≤ P.start a := by
  by_contra hc
  have := (P.start_eq_of_mem (by omega) (lt_of_le_of_lt h (P.lt_start_add_size a))).1
  rw [hb] at this
  omega

/-- Before an aligned boundary, whole pages lie before it. -/
theorem page_end_le {b a : ℕ} (hb : P.Aligned b) (h : a < b) : P.start a + P.size a ≤ b := by
  by_contra hc
  have := (P.start_eq_of_mem (b := b) (le_trans (P.start_le a) h.le) (by omega)).1
  rw [hb] at this
  have := P.start_le a
  omega

/-- Different pages do not overlap. -/
theorem start_add_size_le {a b : ℕ} (h : P.start a < P.start b) :
    P.start a + P.size a ≤ P.start b := by
  by_contra hc
  have := (P.start_eq_of_mem h.le (by omega)).1
  rw [P.aligned_start b] at this
  omega

/-- What lies beyond a page lies in a page beyond it. -/
theorem end_le_start {a x : ℕ} (h : P.start a + P.size a ≤ x) :
    P.start a + P.size a ≤ P.start x := by
  have hx := P.lt_start_add_size x
  rcases lt_trichotomy (P.start x) (P.start a) with hlt | heq | hgt
  · have := P.start_add_size_le hlt
    omega
  · have hsize := (P.start_start x).2
    rw [heq, (P.start_start a).2] at hsize
    omega
  · exact P.start_add_size_le hgt

end PageMap

end Paging
