import Mathlib.Data.List.Basic
import Mathlib.Data.List.GetD
import Mathlib.Logic.Function.Iterate
import Mathlib.Tactic.Common

/-!
# Reflected Checksums

Cyclic redundancy checks in the reflected form: a register is shifted down one place a bit, and
where the bit that falls out differs from the bit of the message a polynomial is added. The step is
linear over exclusive or. If the top bit of the polynomial is set, it can be undone, and a burst of
errors that is no longer than the register is never missed.

## Main results

* `feed_eq_iterate`: feeding a few bits is adding them to the register and shifting.
* `feed_xor`: the register is linear in its content and in the message.
* `shift_injective`: a shift can be undone.
* `feed_ne_of_burst`: messages that differ within a window of the register's length are told apart.
-/

namespace ReflectedCrc

variable {w : ℕ}

/-- The register is shifted down by one place. -/
def shift (poly c : BitVec w) : BitVec w := (c >>> 1) ^^^ if c.getLsbD 0 then poly else 0#w

/-- A bit of the message is fed into the register. -/
def feedBit (poly c : BitVec w) (b : Bool) : BitVec w :=
  (c >>> 1) ^^^ if c.getLsbD 0 ^^ b then poly else 0#w

/-- A message is fed into the register. -/
def feed (poly c : BitVec w) (bits : List Bool) : BitVec w := bits.foldl (feedBit poly) c

/-- The bits of a short message as a word, the first one lowest. -/
def pack (w : ℕ) : List Bool → BitVec w
  | [] => 0#w
  | b :: bits => (BitVec.ofBool b).setWidth w ^^^ (pack w bits <<< 1)

variable {poly : BitVec w}

/-! ### Linearity -/

theorem xor_xor_xor_comm (a b c d : BitVec w) : (a ^^^ b) ^^^ (c ^^^ d) = (a ^^^ c) ^^^ (b ^^^ d) := by
  rw [BitVec.xor_assoc, BitVec.xor_assoc, ← BitVec.xor_assoc b, BitVec.xor_comm b c,
    BitVec.xor_assoc]

/-- What is added, depending on the bit that falls out. -/
theorem select_xor (poly : BitVec w) (a b : Bool) :
    (if a ^^ b then poly else 0#w) = (if a then poly else 0#w) ^^^ if b then poly else 0#w := by
  cases a <;> cases b <;> simp

theorem feedBit_xor (poly c d : BitVec w) (a b : Bool) :
    feedBit poly (c ^^^ d) (a ^^ b) = feedBit poly c a ^^^ feedBit poly d b := by
  have hbit : ((c ^^^ d).getLsbD 0 ^^ (a ^^ b)) = ((c.getLsbD 0 ^^ a) ^^ (d.getLsbD 0 ^^ b)) := by
    rw [BitVec.getLsbD_xor]
    cases c.getLsbD 0 <;> cases d.getLsbD 0 <;> cases a <;> cases b <;> rfl
  rw [feedBit, feedBit, feedBit, hbit, select_xor, BitVec.ushiftRight_xor_distrib, xor_xor_xor_comm]

theorem feedBit_false (poly c : BitVec w) : feedBit poly c false = shift poly c := by
  rw [feedBit, Bool.xor_false, shift]

theorem shift_xor (poly c d : BitVec w) : shift poly (c ^^^ d) = shift poly c ^^^ shift poly d := by
  have h := feedBit_xor poly c d false false
  rwa [Bool.xor_false, feedBit_false, feedBit_false, feedBit_false] at h

/-- **The register is linear** in its content and in the message. -/
theorem feed_xor (poly c d : BitVec w) {a b : List Bool} (h : a.length = b.length) :
    feed poly (c ^^^ d) (List.zipWith xor a b) = feed poly c a ^^^ feed poly d b := by
  induction a generalizing b c d with
  | nil =>
      obtain rfl : b = [] := List.length_eq_zero_iff.mp h.symm
      rfl
  | cons x a ih =>
      cases b with
      | nil => exact absurd h (by simp)
      | cons y b =>
          have hstep := ih (feedBit poly c x) (feedBit poly d y) (Nat.succ.inj h)
          rw [← feedBit_xor] at hstep
          exact hstep

/-! ### Short messages -/

theorem pack_getLsbD (bits : List Bool) {i : ℕ} (hi : i < w) :
    (pack w bits).getLsbD i = bits.getD i false := by
  induction bits generalizing i with
  | nil => exact BitVec.getLsbD_zero
  | cons b bits ih =>
      rw [pack, BitVec.getLsbD_xor, BitVec.getLsbD_setWidth, BitVec.getLsbD_shiftLeft,
        decide_eq_true hi, Bool.true_and, Bool.true_and]
      cases i with
      | zero => simp
      | succ i => simpa using ih (Nat.lt_of_succ_lt hi)

/-- The bit that falls out of the register is that of the message. -/
theorem feedBit_eq_shift (hw : 0 < w) (poly c : BitVec w) (b : Bool) :
    feedBit poly c b = shift poly (c ^^^ (BitVec.ofBool b).setWidth w) := by
  have hlow : ((BitVec.ofBool b).setWidth w).getLsbD 0 = b := by simp [hw]
  have hrest : (BitVec.ofBool b).setWidth w >>> 1 = 0#w := by
    refine BitVec.eq_of_getLsbD_eq fun i _ => ?_
    simp
  rw [feedBit, shift, BitVec.getLsbD_xor, hlow, BitVec.ushiftRight_xor_distrib, hrest]
  exact congrArg (· ^^^ _) (BitVec.xor_zero).symm

/-- A word that leaves room at the top moves down. -/
theorem shift_shiftLeft (poly : BitVec w) {x : BitVec w} (h : x.getLsbD (w - 1) = false) :
    shift poly (x <<< 1) = x := by
  have hlow : (x <<< 1).getLsbD 0 = false := by simp
  have hdown : x <<< 1 >>> 1 = x := by
    refine BitVec.eq_of_getLsbD_eq fun i hi => ?_
    rw [BitVec.getLsbD_ushiftRight, BitVec.getLsbD_shiftLeft]
    by_cases htop : i = w - 1
    · rw [htop, h]
      simp
      omega
    · have hin : 1 + i < w := by omega
      simp [hin]
  rw [shift, hlow, hdown, if_neg Bool.false_ne_true, BitVec.xor_zero]

/-- **A message that is no longer than the register** is added to it, and shifted. -/
theorem feed_eq_iterate (poly c : BitVec w) {bits : List Bool} (h : bits.length ≤ w) :
    feed poly c bits = (shift poly)^[bits.length] (c ^^^ pack w bits) := by
  induction bits generalizing c with
  | nil => exact (BitVec.xor_zero).symm
  | cons b bits ih =>
      rw [List.length_cons] at h
      have htop : (pack w bits).getLsbD (w - 1) = false := by
        rw [pack_getLsbD bits (by omega), List.getD_eq_default _ _ (by omega)]
      have hstep : shift poly (c ^^^ pack w (b :: bits)) = feedBit poly c b ^^^ pack w bits := by
        rw [pack, ← BitVec.xor_assoc, shift_xor, ← feedBit_eq_shift (by omega),
          shift_shiftLeft poly htop]
      rw [List.length_cons, Function.iterate_succ_apply, hstep, ← ih _ (by omega)]
      rfl

/-- Low bits that are clear fall out without a trace. -/
theorem iterate_shift_of_low (poly x : BitVec w) {k : ℕ} (h : ∀ i < k, x.getLsbD i = false) :
    (shift poly)^[k] x = x >>> k := by
  induction k with
  | zero => simp
  | succ k ih =>
      have hlow : (x >>> k).getLsbD 0 = false := by simpa using h k (Nat.lt_succ_self k)
      rw [Function.iterate_succ_apply', ih fun i hi => h i (Nat.lt_succ_of_lt hi), shift, hlow,
        if_neg Bool.false_ne_true, BitVec.xor_zero, BitVec.shiftRight_add]

theorem iterate_shift_xor (poly c d : BitVec w) (k : ℕ) :
    (shift poly)^[k] (c ^^^ d) = (shift poly)^[k] c ^^^ (shift poly)^[k] d := by
  induction k generalizing c d with
  | zero => rfl
  | succ k ih =>
      simp only [Function.iterate_succ_apply, shift_xor, ih]

/-! ### Errors -/

/-- **A shift can be undone** if the top bit of the polynomial is set: it tells which bit fell
out. -/
theorem shift_injective (hw : 0 < w) (hpoly : poly.getLsbD (w - 1) = true) :
    Function.Injective (shift poly) := by
  intro c d h
  have hbit (i : ℕ) : (c.getLsbD (1 + i) ^^ (if c.getLsbD 0 then poly else 0#w).getLsbD i) =
      (d.getLsbD (1 + i) ^^ (if d.getLsbD 0 then poly else 0#w).getLsbD i) := by
    have hi := congrArg (fun x => BitVec.getLsbD x i) h
    simpa only [shift, BitVec.getLsbD_xor, BitVec.getLsbD_ushiftRight] using hi
  have hlow : c.getLsbD 0 = d.getLsbD 0 := by
    have htop := hbit (w - 1)
    rw [BitVec.getLsbD_of_ge c _ (by omega), BitVec.getLsbD_of_ge d _ (by omega)] at htop
    cases hc : c.getLsbD 0 <;> cases hd : d.getLsbD 0 <;> simp_all
  refine BitVec.eq_of_getLsbD_eq fun i _ => ?_
  cases i with
  | zero => exact hlow
  | succ i =>
      have hi := hbit i
      rw [hlow, Nat.add_comm 1 i] at hi
      exact Bool.xor_left_inj.mp hi

/-- Zeros that are fed into the register only shift it. -/
theorem feed_eq_iterate_of_forall_false (poly c : BitVec w) {bits : List Bool}
    (h : ∀ b ∈ bits, b = false) : feed poly c bits = (shift poly)^[bits.length] c := by
  induction bits generalizing c with
  | nil => rfl
  | cons b bits ih =>
      obtain ⟨rfl, hrest⟩ := List.forall_mem_cons.mp h
      rw [List.length_cons, Function.iterate_succ_apply, ← feedBit_false, ← ih _ hrest]
      rfl

theorem feed_append (poly c : BitVec w) (a b : List Bool) :
    feed poly c (a ++ b) = feed poly (feed poly c a) b := List.foldl_append

theorem iterate_shift_zero (poly : BitVec w) (k : ℕ) : (shift poly)^[k] 0#w = 0#w := by
  rw [iterate_shift_of_low poly 0#w fun i _ => BitVec.getLsbD_zero]
  simp

/-- A burst leaves something in an empty register, and zeros do not remove it. -/
theorem feed_zero_ne_zero (hw : 0 < w) (hpoly : poly.getLsbD (w - 1) = true)
    {before burst after : List Bool} (hbefore : ∀ b ∈ before, b = false)
    (hburst : burst.length ≤ w) (hset : true ∈ burst) (hafter : ∀ b ∈ after, b = false) :
    feed poly 0#w (before ++ burst ++ after) ≠ 0#w := by
  have hpack : pack w burst ≠ 0#w := by
    intro hzero
    obtain ⟨i, hi, hbit⟩ := List.getElem_of_mem hset
    have hlsb := pack_getLsbD (w := w) burst (i := i) (by omega)
    rw [hzero, BitVec.getLsbD_zero, List.getD_eq_getElem _ _ hi, hbit] at hlsb
    exact Bool.false_ne_true hlsb
  have hiterate (k : ℕ) (x : BitVec w) (hx : x ≠ 0#w) : (shift poly)^[k] x ≠ 0#w := by
    rw [← iterate_shift_zero poly k]
    exact fun h => hx ((shift_injective hw hpoly).iterate k h)
  rw [feed_append, feed_append, feed_eq_iterate_of_forall_false poly _ hbefore, iterate_shift_zero,
    feed_eq_iterate poly _ hburst, BitVec.zero_xor, feed_eq_iterate_of_forall_false poly _ hafter]
  exact hiterate _ _ (hiterate _ _ hpack)

/-- Where two messages agree, their difference is zero. -/
theorem diff_eq_false {a b : List Bool} {i : ℕ} (hsame : a[i]? = b[i]?)
    (hi : i < (List.zipWith xor a b).length) : (List.zipWith xor a b)[i] = false := by
  have hboth : i < a.length ∧ i < b.length := by
    rw [List.length_zipWith] at hi
    omega
  rw [List.getElem?_eq_getElem hboth.1, List.getElem?_eq_getElem hboth.2] at hsame
  rw [List.getElem_zipWith, Option.some.inj hsame, Bool.xor_self]

/-- Messages of one length without a difference are the same. -/
theorem eq_of_diff {a b : List Bool} (hlength : a.length = b.length)
    (h : ∀ x ∈ List.zipWith xor a b, x = false) : a = b := by
  refine List.ext_getElem hlength fun i hia hib => ?_
  have hi : i < (List.zipWith xor a b).length := by
    rw [List.length_zipWith]
    omega
  have hbit := h _ (List.getElem_mem hi)
  rw [List.getElem_zipWith] at hbit
  exact bne_eq_false_iff_eq.mp hbit

/-- **Bursts are detected**: messages of one length that differ, but only within a window that is
no longer than the register. -/
theorem feed_ne_of_burst (hw : 0 < w) (hpoly : poly.getLsbD (w - 1) = true) (c : BitVec w)
    {a b : List Bool} (hlength : a.length = b.length) (hne : a ≠ b) {s : ℕ}
    (hwindow : ∀ i, i < s ∨ s + w ≤ i → a[i]? = b[i]?) : feed poly c a ≠ feed poly c b := by
  have hzero (i : ℕ) (hi : i < (List.zipWith xor a b).length) (hout : i < s ∨ s + w ≤ i) :
      (List.zipWith xor a b)[i] = false := diff_eq_false (hwindow i hout) hi
  have hnot : ¬∀ x ∈ List.zipWith xor a b, x = false := fun h => hne (eq_of_diff hlength h)
  have hlinear := feed_xor poly c c hlength
  obtain ⟨d, hd⟩ : ∃ d, List.zipWith xor a b = d := ⟨_, rfl⟩
  simp only [hd] at hzero hnot hlinear
  -- the difference is zero before and behind the window
  have hsplit : d = d.take s ++ (d.drop s).take w ++ (d.drop s).drop w := by
    rw [List.append_assoc, List.take_append_drop, List.take_append_drop]
  have hbefore : ∀ x ∈ d.take s, x = false := by
    intro x hx
    obtain ⟨i, hi, rfl⟩ := List.getElem_of_mem hx
    rw [List.length_take] at hi
    rw [List.getElem_take]
    exact hzero i (by omega) (.inl (by omega))
  have hafter : ∀ x ∈ (d.drop s).drop w, x = false := by
    intro x hx
    obtain ⟨i, hi, rfl⟩ := List.getElem_of_mem hx
    rw [List.length_drop, List.length_drop] at hi
    rw [List.getElem_drop, List.getElem_drop]
    exact hzero _ (by omega) (.inr (by omega))
  have hset : true ∈ (d.drop s).take w := by
    by_contra hnone
    refine hnot fun x hx => ?_
    rw [hsplit, List.mem_append, List.mem_append] at hx
    rcases hx with (hx | hx) | hx
    · exact hbefore x hx
    · exact Bool.eq_false_iff.mpr fun h => hnone (h ▸ hx)
    · exact hafter x hx
  have hfeed := feed_zero_ne_zero hw hpoly hbefore (List.length_take_le w _) hset hafter
  rw [← hsplit] at hfeed
  intro hsame
  rw [BitVec.xor_self, hsame, BitVec.xor_self] at hlinear
  exact hfeed hlinear

end ReflectedCrc
