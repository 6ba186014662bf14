import Mathlib.Data.Nat.Digits.Lemmas
import Terraboot.LittleEndian

/-!
# Numbers from Bytes

The number that a byte string denotes with its lowest byte first, and the ways in which programs
compute it: as a machine word, or by shifting each byte to its place. Packing by shifts is the same
in fixed-width words, as long as they are wide enough, and in unbounded integers.

## Main results

* `ofBytes_inj`: byte strings of one length are told apart by their numbers.
* `ofLe64_toNat`, `shiftPack_toNat`, `shiftPackNat_eq`: all of these are `ofBytes`.
-/

namespace LittleEndian

/-- The number that a byte string denotes, lowest byte first. -/
def ofBytes (b : List (BitVec 8)) : ℕ := Nat.ofDigits 256 (b.map BitVec.toNat)

@[simp] theorem ofBytes_nil : ofBytes [] = 0 := rfl

@[simp] theorem ofBytes_cons (x : BitVec 8) (b : List (BitVec 8)) :
    ofBytes (x :: b) = x.toNat + 256 * ofBytes b := Nat.ofDigits_cons

theorem forall_mem_map_toNat (b : List (BitVec 8)) : ∀ d ∈ b.map BitVec.toNat, d < 256 := by
  rw [List.forall_mem_map]
  exact fun x _ => x.isLt

theorem ofBytes_lt (b : List (BitVec 8)) : ofBytes b < 256 ^ b.length := by
  have hlt := Nat.ofDigits_lt_base_pow_length (by decide) (forall_mem_map_toNat b)
  rwa [List.length_map] at hlt

/-- A byte string of a known length is recovered from its number. -/
theorem ofBytes_inj {b b' : List (BitVec 8)} (hlength : b.length = b'.length)
    (h : ofBytes b = ofBytes b') : b = b' := by
  refine List.map_injective_iff.mpr (fun x y => BitVec.eq_of_toNat_eq) ?_
  exact Nat.ofDigits_inj_of_len_eq (by decide) (by simpa using hlength) (forall_mem_map_toNat b)
    (forall_mem_map_toNat b') h

/-! ### Machine words -/

theorem toNat_append_eq {m n : ℕ} (x : BitVec m) (y : BitVec n) :
    (x ++ y).toNat = x.toNat * 2 ^ n + y.toNat := by
  rw [BitVec.toNat_append, ← Nat.shiftLeft_add_eq_or_of_lt y.isLt, Nat.shiftLeft_eq]

/-- The 64-bit word at the front of eight bytes. -/
theorem ofLe64_toNat {b : List (BitVec 8)} (h : b.length = 8) : (ofLe64 b).toNat = ofBytes b := by
  obtain ⟨x₀, x₁, x₂, x₃, x₄, x₅, x₆, x₇, rfl⟩ : ∃ x₀ x₁ x₂ x₃ x₄ x₅ x₆ x₇,
      b = [x₀, x₁, x₂, x₃, x₄, x₅, x₆, x₇] := by
    match b, h with
    | [x₀, x₁, x₂, x₃, x₄, x₅, x₆, x₇], _ => exact ⟨x₀, x₁, x₂, x₃, x₄, x₅, x₆, x₇, rfl⟩
  simp only [ofLe64, ofLe32, List.drop_succ_cons, List.drop_zero, List.getD_cons_zero,
    List.getD_cons_succ, toNat_append_eq, ofBytes_cons, ofBytes_nil]
  omega

/-! ### Packing by shifts -/

/-- Each byte of a byte string shifted to its place, from the last one to the first. -/
def shiftPack (w : ℕ) (b : List (BitVec 8)) : BitVec w :=
  (List.range b.length).reverse.foldl
    (fun v i => v ^^^ ((b.getD i 0).setWidth w <<< (8 * i))) 0

/-- The same with unbounded integers. -/
def shiftPackNat (b : List ℕ) : ℕ :=
  (List.range b.length).reverse.foldl (fun v i => v ^^^ (b.getD i 0 <<< (8 * i))) 0

theorem foldr_shiftLeft (g : ℕ → ℕ) (k : ℕ) (l : List ℕ) :
    l.foldr (fun i v => v ^^^ (g i <<< k)) 0 = l.foldr (fun i v => v ^^^ g i) 0 <<< k := by
  induction l with
  | nil => exact (Nat.zero_shiftLeft k).symm
  | cons i l ih => rw [List.foldr_cons, List.foldr_cons, ih, Nat.shiftLeft_xor_distrib]

/-- A byte below a shifted number: the bits do not meet. -/
theorem shiftLeft_xor_byte (v : ℕ) {x : ℕ} (hx : x < 256) : v <<< 8 ^^^ x = x + 256 * v := by
  have hmod : (v <<< 8 ^^^ x) % 2 ^ 8 = x := by
    rw [Nat.xor_mod_two_pow, Nat.shiftLeft_eq, Nat.mul_mod_left, Nat.zero_xor, Nat.mod_eq_of_lt hx]
  have hdiv : (v <<< 8 ^^^ x) / 2 ^ 8 = v := by
    rw [Nat.xor_div_two_pow, Nat.shiftLeft_eq, Nat.mul_div_cancel _ (by decide),
      Nat.div_eq_of_lt hx, Nat.xor_zero]
  have hsplit := Nat.mod_add_div (v <<< 8 ^^^ x) (2 ^ 8)
  rw [hmod, hdiv] at hsplit
  exact hsplit.symm

theorem shiftPackNat_cons {x : ℕ} (hx : x < 256) (b : List ℕ) :
    shiftPackNat (x :: b) = x + 256 * shiftPackNat b := by
  rw [← shiftLeft_xor_byte _ hx]
  simp only [shiftPackNat, List.foldl_reverse, List.length_cons, List.range_succ_eq_map,
    List.foldr_cons, List.foldr_map, List.getD_cons_zero, List.getD_cons_succ, Nat.mul_zero,
    Nat.shiftLeft_zero]
  rw [← foldr_shiftLeft]
  simp only [← Nat.shiftLeft_add, Nat.mul_succ]

/-- Packing unbounded integers by shifts. -/
theorem shiftPackNat_eq (b : List (BitVec 8)) : shiftPackNat (b.map BitVec.toNat) = ofBytes b := by
  induction b with
  | nil => rfl
  | cons x b ih => rw [List.map_cons, shiftPackNat_cons x.isLt, ih, ofBytes_cons]

/-- **Packing a wide enough word by shifts.** -/
theorem shiftPack_toNat {w : ℕ} {b : List (BitVec 8)} (h : 8 * b.length ≤ w) :
    (shiftPack w b).toNat = ofBytes b := by
  rw [← shiftPackNat_eq, shiftPack, shiftPackNat, List.foldl_reverse, List.foldl_reverse,
    List.length_map]
  have hrange : ∀ i ∈ List.range b.length, 8 * i + 8 ≤ w := fun i hi => by
    have := List.mem_range.mp hi
    omega
  generalize List.range b.length = indices at hrange ⊢
  induction indices with
  | nil => rfl
  | cons i l ih =>
      have hbyte : ((b.getD i 0).setWidth w <<< (8 * i)).toNat =
          (b.map BitVec.toNat).getD i 0 <<< (8 * i) := by
        have hi := hrange i List.mem_cons_self
        have hwidth : (b.getD i 0).toNat < 2 ^ w :=
          (b.getD i 0).isLt.trans_le (Nat.pow_le_pow_right (by decide) (by omega))
        have hshift : (b.getD i 0).toNat <<< (8 * i) < 2 ^ w := by
          rw [Nat.shiftLeft_eq]
          refine lt_of_lt_of_le ?_ (Nat.pow_le_pow_right (by decide) hi)
          rw [Nat.add_comm, Nat.pow_add]
          exact Nat.mul_lt_mul_of_pos_right (b.getD i 0).isLt (Nat.two_pow_pos _)
        rw [BitVec.toNat_shiftLeft, BitVec.toNat_setWidth, Nat.mod_eq_of_lt hwidth,
          Nat.mod_eq_of_lt hshift]
        rw [List.getD_eq_getElem?_getD, List.getD_eq_getElem?_getD, List.getElem?_map]
        cases b[i]? <;> rfl
      rw [List.foldr_cons, List.foldr_cons, BitVec.toNat_xor, hbyte,
        ih fun k hk => hrange k (List.mem_cons_of_mem i hk)]

end LittleEndian
