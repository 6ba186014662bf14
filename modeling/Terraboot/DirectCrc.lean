import Terraboot.MsbBits

/-!
# Direct Checksums

Cyclic redundancy checks in the direct form: the register is shifted up one place a bit, and where
the bit that falls out differs from the bit of the message a polynomial is added. Since the step is
linear over exclusive or, a few bits at a time can be looked up: only the bits that fall out and
those of the message decide what is added.

## Main results

* `feed_xor`: the register is linear in its content and in the message.
* `feed_eq_shiftLeft`: a few bits are fed in with one shift and what they leave in an empty register.
* `feed_zero_replicate`: zeros in front of the message do not count.
-/

open MsbBits

namespace DirectCrc

variable {w : ℕ}

/-- A bit of the message is fed into the register. -/
def feedBit (poly c : BitVec w) (b : Bool) : BitVec w :=
  (c <<< 1) ^^^ if c.getLsbD (w - 1) ^^ b then poly else 0#w

/-- A message is fed into the register. -/
def feed (poly c : BitVec w) (bits : List Bool) : BitVec w := bits.foldl (feedBit poly) c

variable (poly : BitVec w)

theorem feed_append (c : BitVec w) (a b : List Bool) :
    feed poly c (a ++ b) = feed poly (feed poly c a) b := List.foldl_append

theorem feedBit_xor (c d : BitVec w) (a b : Bool) :
    feedBit poly (c ^^^ d) (a ^^ b) = feedBit poly c a ^^^ feedBit poly d b := by
  refine BitVec.eq_of_getLsbD_eq fun i _ => ?_
  simp only [feedBit, BitVec.shiftLeft_xor_distrib, BitVec.getLsbD_xor]
  cases c.getLsbD (w - 1) <;> cases d.getLsbD (w - 1) <;> cases a <;> cases b <;>
    cases (c <<< 1).getLsbD i <;> cases (d <<< 1).getLsbD i <;> simp

/-- **The register is linear** in its content and in the message. -/
theorem feed_xor (c d : BitVec w) {a b : List Bool} (h : a.length = b.length) :
    feed poly (c ^^^ d) (List.zipWith xor a b) = feed poly c a ^^^ feed poly d b := by
  induction a generalizing b c d with
  | nil =>
      obtain rfl : b = [] := List.length_eq_zero_iff.mp h.symm
      rfl
  | cons x a ih =>
      cases b with
      | nil => exact absurd h (by simp)
      | cons y b =>
          have hstep := ih (feedBit poly c x) (feedBit poly d y) (Nat.succ.inj h)
          rw [← feedBit_xor] at hstep
          exact hstep

/-- A message that agrees with the upper bits of the register only shifts it. -/
theorem feed_upper (c : BitVec w) {k : ℕ} (hk : k ≤ w) :
    feed poly c (msbBits (c >>> (w - k)) k) = c <<< k := by
  induction k generalizing c with
  | zero => simp [feed]
  | succ k ih =>
      have hstep : feedBit poly c (c.getLsbD (w - 1)) = c <<< 1 := by
        rw [feedBit, Bool.xor_self]
        exact BitVec.xor_zero
      have hbit : (c >>> (w - (k + 1))).getLsbD k = c.getLsbD (w - 1) := by
        rw [BitVec.getLsbD_ushiftRight]
        exact congrArg _ (by omega)
      have hrest : msbBits (c >>> (w - (k + 1))) k = msbBits ((c <<< 1) >>> (w - k)) k := by
        refine msbBits_congr fun i hi => ?_
        rw [BitVec.getLsbD_ushiftRight, BitVec.getLsbD_ushiftRight, BitVec.getLsbD_shiftLeft]
        have hin : w - k + i < w := by omega
        have hpos : ¬w - k + i < 1 := by omega
        have hsub : w - k + i - 1 = w - (k + 1) + i := by omega
        simp [hin, hpos, hsub]
      rw [msbBits, hbit, hrest]
      calc feed poly (feedBit poly c (c.getLsbD (w - 1))) (msbBits ((c <<< 1) >>> (w - k)) k)
          = feed poly (c <<< 1) (msbBits ((c <<< 1) >>> (w - k)) k) := by rw [hstep]
        _ = c <<< 1 <<< k := ih (c <<< 1) (Nat.le_of_succ_le hk)
        _ = c <<< (k + 1) := by rw [Nat.add_comm, BitVec.shiftLeft_add]

/-- **A few bits at a time**: the register is shifted, and to it is added what the bits that fall
out and those of the message leave in an empty one. -/
theorem feed_eq_shiftLeft (c : BitVec w) {bits : List Bool} (h : bits.length ≤ w) :
    feed poly c bits = c <<< bits.length ^^^
      feed poly 0#w (List.zipWith xor (msbBits (c >>> (w - bits.length)) bits.length) bits) := by
  obtain ⟨k, hk⟩ : ∃ k, bits.length = k := ⟨_, rfl⟩
  rw [hk] at h ⊢
  have hupper := length_msbBits (c >>> (w - k)) k
  have hsame : ∀ a : List Bool, a.length = bits.length →
      List.zipWith xor a (List.zipWith xor a bits) = bits := by
    intro a ha
    refine List.ext_getElem (by simp [ha]) fun i _ _ => ?_
    simp
  have hlinear := feed_xor poly c 0#w (a := msbBits (c >>> (w - k)) k)
    (b := List.zipWith xor (msbBits (c >>> (w - k)) k) bits) (by simp [hk])
  rwa [BitVec.xor_zero, hsame _ (hupper.trans hk.symm), feed_upper poly c h] at hlinear

/-- **Zeros in front of the message do not count.** -/
theorem feed_zero_replicate (k : ℕ) (bits : List Bool) :
    feed poly 0#w (List.replicate k false ++ bits) = feed poly 0#w bits := by
  induction k with
  | zero => rfl
  | succ k ih =>
      have hstep : feedBit poly 0#w false = 0#w := by simp [feedBit]
      rw [List.replicate_succ, List.cons_append, ← ih]
      exact congrArg (fun c => feed poly c _) hstep

end DirectCrc
