import Mathlib.Data.Nat.ModEq
import Mathlib.Data.Nat.Prime.Basic
import Mathlib.Tactic.Common

/-!
# Mixing Steps

The steps of which multiplicative hash functions are built, and that lose nothing: the exclusive
or of a word with itself shifted down, the product with an odd number, and a fold of such steps over
a list.
A list in which one entry is changed is then folded to something else.

## Main results

* `xorShift_injective`: a word can be recovered from its exclusive or with itself shifted down.
* `mul_odd_injective`: a word can be recovered from its product with an odd number.
* `foldl_injective`, `foldl_ne`: folds of injective steps.
-/

namespace Mixing

variable {α β : Type*} {w : ℕ}

/-- The upper bits are untouched, and each bit is recovered from one above it. -/
theorem xorShift_injective {k : ℕ} (hk : 0 < k) :
    Function.Injective fun x : BitVec w => x ^^^ (x >>> k) := by
  intro x y hxy
  have hbit (i : ℕ) : (x.getLsbD i ^^ x.getLsbD (k + i)) = (y.getLsbD i ^^ y.getLsbD (k + i)) := by
    have hi := congrArg (fun z => BitVec.getLsbD z i) hxy
    simpa only [BitVec.getLsbD_xor, BitVec.getLsbD_ushiftRight] using hi
  -- downward from the top bit
  have hdown (n : ℕ) : ∀ i, w ≤ i + n → x.getLsbD i = y.getLsbD i := by
    induction n with
    | zero =>
        intro i hi
        rw [BitVec.getLsbD_of_ge x i hi, BitVec.getLsbD_of_ge y i hi]
    | succ n ih =>
        intro i hi
        have habove := hbit i
        rw [ih (k + i) (by omega)] at habove
        exact Bool.xor_left_inj.mp habove
  exact BitVec.eq_of_getLsbD_eq fun i _ => hdown w i (Nat.le_add_left w i)

/-- An odd factor is coprime to the modulus. -/
theorem mul_odd_injective {m : BitVec w} (hm : Odd m.toNat) :
    Function.Injective fun x : BitVec w => x * m := by
  intro x y hxy
  have hmod : x.toNat * m.toNat ≡ y.toNat * m.toNat [MOD 2 ^ w] := by
    have hnat : (x * m).toNat = (y * m).toNat := congrArg BitVec.toNat hxy
    rwa [BitVec.toNat_mul, BitVec.toNat_mul] at hnat
  have hcoprime : Nat.gcd (2 ^ w) m.toNat = 1 :=
    Nat.Coprime.pow_left w (Nat.coprime_two_left.mpr hm)
  have hcancel := Nat.ModEq.cancel_right_of_coprime hcoprime hmod
  rw [Nat.ModEq, Nat.mod_eq_of_lt x.isLt, Nat.mod_eq_of_lt y.isLt] at hcancel
  exact BitVec.eq_of_toNat_eq hcancel

theorem xor_injective (z : BitVec w) : Function.Injective fun x : BitVec w => z ^^^ x :=
  fun _ _ h => (BitVec.xor_right_inj z).mp h

/-- A fold of injective steps is injective. -/
theorem foldl_injective {f : α → β → α} (hf : ∀ b, Function.Injective fun a => f a b) (l : List β) :
    Function.Injective fun a => l.foldl f a := by
  induction l with
  | nil => exact Function.injective_id
  | cons b l ih => exact ih.comp (hf b)

/-- **One changed entry changes the fold.** -/
theorem foldl_ne {f : α → β → α} (hf : ∀ b, Function.Injective fun a => f a b)
    (hg : ∀ a, Function.Injective (f a)) {l l' : List β} {j : ℕ} (hj : l[j]? ≠ l'[j]?)
    (hlength : l.length = l'.length) (hrest : ∀ i, i ≠ j → l[i]? = l'[i]?) (a : α) :
    l.foldl f a ≠ l'.foldl f a := by
  induction l generalizing l' j a with
  | nil => exact absurd (congrArg (·[j]?) (List.length_eq_zero_iff.mp hlength.symm).symm) hj
  | cons b l ih =>
      cases l' with
      | nil => exact absurd hlength (by simp)
      | cons b' l' =>
          cases j with
          | zero =>
              have htail : l = l' := List.ext_getElem? fun i => by
                simpa using hrest (i + 1) (Nat.succ_ne_zero i)
              subst htail
              refine fun h => hj ?_
              exact congrArg some (hg a (foldl_injective hf l h))
          | succ j =>
              obtain rfl : b = b' := by simpa using hrest 0 (Nat.succ_ne_zero j).symm
              refine ih (by simpa using hj) (Nat.succ.inj hlength) ?_ _
              intro i hi
              simpa using hrest (i + 1) (fun h => hi (Nat.succ.inj h))

end Mixing
