import Terraboot.BitStuffing
import Terraboot.Frame
import Terraboot.MsbBits

/-!
# Bit Stuffing in Words

`bitstuff` of `can2040.c` looks for five equal bits at every place of a word at once and tries to
accept many places in one go, at first all of them, then ever fewer. The serial rule adds a bit
wherever the fifth equal bit has gone out. Both come to the same.

## Main results

* `bitstuffLoop_eq`: wherever the search starts, it ends as one place at a time would.
* `bitstuff_spec`: `bitstuff` stuffs the low bits of a word, with the upper ones as the past.
-/

open BitStuffing MsbBits

namespace Terraboot.Can2040

/-- `add_bits` in `bitstuff` and `rm_bits` in `unstuf_pull_bits`: the places at which five equal
bits end. -/
def fiveEqual (b : Word) : Word :=
  let edges := b ^^^ (b >>> 1)
  let e2 := edges ||| (edges >>> 1)
  let e4 := e2 ||| (e2 >>> 2)
  ~~~e4

/-- A word with a bit added behind the highest of the low `numBits`. -/
def insertStuffBit (b : Word) (numBits : ℕ) : Word :=
  let lowMask : Word := (1#32 <<< numBits) - 1
  let low := b &&& lowMask
  let high := (b &&& ~~~(lowMask >>> 1)) <<< 1
  high ^^^ low ^^^ (1#32 <<< (numBits - 1))

/-- The loops of `bitstuff`, both of them. -/
def bitstuffLoop : ℕ → Word → ℕ → ℕ → ℕ → Option (Word × ℕ)
  | 0, _, _, _, _ => none
  | fuel + 1, b, count, numBits, tryCnt =>
      let addBits := fiveEqual b
      let tryMask : Word := ((1#32 <<< tryCnt) - 1) <<< (numBits - tryCnt)
      if addBits &&& tryMask = 0 then
        if numBits ≤ tryCnt then some (b, count)
        else bitstuffLoop fuel b count (numBits - tryCnt) ((numBits - tryCnt + 1) / 2)
      else if addBits &&& (1#32 <<< (numBits - 1)) ≠ 0 then
        if numBits ≤ 4 then some (insertStuffBit b numBits, count + 1)
        else bitstuffLoop fuel (insertStuffBit b numBits) (count + 1) (numBits - 4) (numBits - 4)
      else bitstuffLoop fuel b count (numBits - 1) (tryCnt / 2)

/-- `bitstuff` -/
def bitstuff (b : Word) (numBits : ℕ) : Option (Word × ℕ) :=
  bitstuffLoop (numBits + 1) b numBits numBits numBits

/-- One place at a time. -/
def bitstuffSerial (b : Word) (count : ℕ) : ℕ → Word × ℕ
  | 0 => (b, count)
  | n + 1 =>
      if (fiveEqual b).getLsbD n then bitstuffSerial (insertStuffBit b (n + 1)) (count + 1) n
      else bitstuffSerial b count n

/-! ### One place at a time -/

theorem four_xor_eq_decide (a b c d e : Bool) :
    (!(((a ^^ b) || (b ^^ c)) || ((c ^^ d) || (d ^^ e)))) =
      decide (a = b ∧ b = c ∧ c = d ∧ d = e) := by
  revert a b c d e
  decide

/-- The places that `edges` and its shifts leave are those at which a run of five ends. -/
theorem getLsbD_fiveEqual (b : Word) {i : ℕ} (hi : i < 32) :
    (fiveEqual b).getLsbD i = decide (5 ≤ runLength (bitsAbove b i 5)) := by
  have hfive : 5 ≤ runLength (bitsAbove b i 5) ↔
      b.getLsbD i = b.getLsbD (i + 1) ∧ b.getLsbD (i + 1) = b.getLsbD (i + 2) ∧
      b.getLsbD (i + 2) = b.getLsbD (i + 3) ∧ b.getLsbD (i + 3) = b.getLsbD (i + 4) :=
    five_le_runLength_iff _ _ _ _ _ []
  rw [decide_eq_decide.mpr hfive]
  have hone : 1 + i = i + 1 := Nat.add_comm 1 i
  have htwo : 1 + (i + 1) = i + 2 := Nat.add_comm 1 (i + 1)
  have htwo' : 2 + i = i + 2 := Nat.add_comm 2 i
  have hthree : 1 + (i + 2) = i + 3 := Nat.add_comm 1 (i + 2)
  have hfour : 1 + (i + 3) = i + 4 := Nat.add_comm 1 (i + 3)
  simp only [fiveEqual, BitVec.getLsbD_not, BitVec.getLsbD_or, BitVec.getLsbD_xor,
    BitVec.getLsbD_ushiftRight, hone, htwo, htwo', hthree, hfour]
  rw [decide_eq_true hi, Bool.true_and, four_xor_eq_decide]

/-- The bits of a word with a bit added: those above move up, the highest of those below is
followed by its complement. -/
theorem getLsbD_insertStuffBit (b : Word) {n : ℕ} (hn : n + 1 ≤ 31) {i : ℕ} (hi : i < 32) :
    (insertStuffBit b (n + 1)).getLsbD i =
      if i < n then b.getLsbD i else if i = n then !b.getLsbD n else b.getLsbD (i - 1) := by
  have hlow : ((1#32 <<< (n + 1)) - 1).getLsbD i = decide (i < n + 1) :=
    getLsbD_lowMask (by omega) i
  have hhalf : ((1#32 <<< (n + 1)) - 1).getLsbD (1 + (i - 1)) = decide (1 + (i - 1) < n + 1) :=
    getLsbD_lowMask (by omega) _
  have hbit : (1#32 <<< n).getLsbD i = decide (i = n) := getLsbD_one_shiftLeft (by omega) i
  have hhigh : (decide (i < 32) && !decide (i < 1) && (b.getLsbD (i - 1) &&
      (decide (i - 1 < 32) && !decide (1 + (i - 1) < n + 1)))) =
      if n < i then b.getLsbD (i - 1) else false := by
    split_ifs with hni
    · have hpos : ¬i < 1 := by omega
      have hin : i - 1 < 32 := by omega
      have hout : ¬1 + (i - 1) < n + 1 := by omega
      simp [hi, hpos, hin, hout]
    · by_cases hzero : i < 1
      · simp [hzero]
      · have hout : 1 + (i - 1) < n + 1 := by omega
        simp [hout]
  simp only [insertStuffBit, BitVec.getLsbD_xor, BitVec.getLsbD_and, BitVec.getLsbD_not,
    BitVec.getLsbD_shiftLeft, BitVec.getLsbD_ushiftRight, Nat.add_sub_cancel, hlow, hhalf, hbit,
    hhigh]
  rcases Nat.lt_trichotomy i n with hlt | rfl | hgt
  · have hgt : ¬n < i := by omega
    simp [hlt, hgt, hlt.ne, Nat.lt_succ_of_lt hlt]
  · simp
  · have hlt : ¬i < n := by omega
    simp [hlt, hgt, hgt.ne', Nat.not_lt.mpr (Nat.succ_le_of_lt hgt)]

/-- Behind an added bit the next three places are not the fifth of equal bits. -/
theorem fiveEqual_insertStuffBit (b : Word) {n : ℕ} (hn : n + 1 ≤ 31) {i : ℕ} (hlo : n ≤ i + 3)
    (hi : i < n) : (fiveEqual (insertStuffBit b (n + 1))).getLsbD i = false := by
  have hbit (j : ℕ) (hj : j < 32) := getLsbD_insertStuffBit b hn hj
  have hedge : (insertStuffBit b (n + 1)).getLsbD n ≠
      (insertStuffBit b (n + 1)).getLsbD (n + 1) := by
    rw [hbit n (by omega), hbit (n + 1) (by omega)]
    simp
  rw [getLsbD_fiveEqual _ (by omega), decide_eq_false_iff_not]
  intro hrun
  obtain ⟨h₁, h₂, h₃, h₄⟩ := (five_le_runLength_iff _ _ _ _ _ []).mp hrun
  obtain rfl | rfl | rfl : n = i + 1 ∨ n = i + 2 ∨ n = i + 3 := by omega
  · exact hedge h₂
  · exact hedge h₃
  · exact hedge h₄

/-- Places at which no bit is to be added are skipped. -/
theorem bitstuffSerial_skip (b : Word) (count : ℕ) {m n : ℕ} (hmn : m ≤ n)
    (hnone : ∀ i, m ≤ i → i < n → (fiveEqual b).getLsbD i = false) :
    bitstuffSerial b count n = bitstuffSerial b count m := by
  induction n, hmn using Nat.le_induction with
  | base => rfl
  | succ n hmn ih =>
      rw [bitstuffSerial, hnone n hmn (Nat.lt_succ_self n), if_neg Bool.false_ne_true]
      exact ih fun i hmi hin => hnone i hmi (Nat.lt_succ_of_lt hin)

/-- **Wherever the search is**, it ends as one place at a time would. -/
theorem bitstuffLoop_eq {fuel : ℕ} {b : Word} {count n t : ℕ} (hfuel : n < fuel) (hn : n ≤ 31)
    (htn : t ≤ n) (hpos : 0 < n → 0 < t) :
    bitstuffLoop fuel b count n t = some (bitstuffSerial b count n) := by
  induction fuel generalizing b count n t with
  | zero => exact absurd hfuel (Nat.not_lt_zero n)
  | succ fuel ih =>
      have hmask : fiveEqual b &&& (((1#32 <<< t) - 1) <<< (n - t)) = 0 ↔
          ∀ i < t, (fiveEqual b).getLsbD (n - t + i) = false := and_mask_eq_zero_iff (by omega)
      have htop : fiveEqual b &&& (1#32 <<< (n - 1)) ≠ 0 ↔
          (fiveEqual b).getLsbD (n - 1) = true := and_bit_ne_zero_iff (by omega)
      rw [bitstuffLoop]
      by_cases hnone : fiveEqual b &&& (((1#32 <<< t) - 1) <<< (n - t)) = 0
      · -- no bit is to be added in the places tried
        rw [if_pos hnone]
        have hskip := bitstuffSerial_skip b count (Nat.sub_le n t) fun i hlo hi => by
          have hclear := hmask.mp hnone (i - (n - t)) (by omega)
          rwa [Nat.add_sub_cancel' hlo] at hclear
        by_cases hall : n ≤ t
        · rw [if_pos hall, hskip, Nat.sub_eq_zero_of_le hall, bitstuffSerial]
        · rw [if_neg hall, hskip]
          exact ih (by omega) (by omega) (by omega) (by omega)
      · rw [if_neg hnone]
        obtain ⟨m, rfl⟩ : ∃ m, n = m + 1 := by
          refine ⟨n - 1, ?_⟩
          by_contra hzero
          obtain rfl : t = 0 := by omega
          exact hnone (hmask.mpr fun i hi => absurd hi (Nat.not_lt_zero i))
        rw [Nat.add_sub_cancel] at htop ⊢
        rw [bitstuffSerial]
        by_cases hfive : fiveEqual b &&& (1#32 <<< m) ≠ 0
        · -- a bit is added behind the highest place
          rw [if_pos hfive, if_pos (htop.mp hfive)]
          have hskip := bitstuffSerial_skip (insertStuffBit b (m + 1)) (count + 1) (Nat.sub_le m 3)
            fun i hlo hi => fiveEqual_insertStuffBit b hn (by omega) hi
          by_cases hshort : m + 1 ≤ 4
          · rw [if_pos hshort, hskip, Nat.sub_eq_zero_of_le (by omega), bitstuffSerial]
          · rw [if_neg hshort, hskip]
            have hfour : m + 1 - 4 = m - 3 := by omega
            rw [hfour]
            exact ih (by omega) (by omega) (le_refl _) (by omega)
        · -- the highest place is accepted
          rw [if_neg hfive, if_neg fun h => hfive (htop.mpr h)]
          refine ih (by omega) (by omega) (by omega) fun hm => ?_
          by_contra hhalf
          obtain rfl : t = 1 := by
            have := hpos (Nat.succ_pos m)
            omega
          refine hnone (hmask.mpr fun i hi => ?_)
          obtain rfl : i = 0 := by omega
          exact Bool.eq_false_iff.mpr fun h => hfive (htop.mpr h)

/-! ### The line -/

/-- What one place at a time makes of the low bits of a word, by the rule of the line code: the
bits themselves, how many there are, and the bits above, which move up. -/
theorem bitstuffSerial_spec (b : Word) (count : ℕ) {n : ℕ} (hn : n + 5 ≤ 32) {s : List Bool}
    (hs : stuffNow 5 (bitsAbove b n 5) (msbBits b n) = s) (hlength : s.length ≤ 32) :
    (bitstuffSerial b count n).2 + n = count + s.length ∧
      msbBits (bitstuffSerial b count n).1 s.length = s ∧
      ∀ i, s.length + i < 32 →
        (bitstuffSerial b count n).1.getLsbD (s.length + i) = b.getLsbD (n + i) := by
  induction n generalizing b count s with
  | zero =>
      subst hs
      refine ⟨rfl, rfl, fun i _ => ?_⟩
      rw [msbBits, stuffNow_nil, List.length_nil, bitstuffSerial]
  | succ n ih =>
      have hwindow : bitsAbove b n 5 ++ [b.getLsbD (n + 5)] =
          b.getLsbD n :: bitsAbove b (n + 1) 5 := rfl
      have hsame := SameRun.of_append [b.getLsbD (n + 5)] (show 0 < 5 by omega)
        (show 5 ≤ (bitsAbove b n 5).length by simp)
      rw [hwindow] at hsame
      rw [msbBits, stuffNow] at hs
      rw [bitstuffSerial, getLsbD_fiveEqual b (by omega)]
      by_cases hfull : 5 ≤ runLength (bitsAbove b n 5)
      · -- a bit is added: the run above the rest is the one it starts
        have hbit (i : ℕ) (hi : i < 32) := getLsbD_insertStuffBit b (n := n) (by omega) hi
        have hat : (insertStuffBit b (n + 1)).getLsbD n = !b.getLsbD n := by
          rw [hbit n (by omega), if_neg (by omega), if_pos rfl]
        have habove (i : ℕ) (hi : n + 1 + i < 32) :
            (insertStuffBit b (n + 1)).getLsbD (n + 1 + i) = b.getLsbD (n + i) := by
          rw [hbit _ hi, if_neg (by omega), if_neg (by omega)]
          exact congrArg _ (by omega)
        have hwindow' : bitsAbove (insertStuffBit b (n + 1)) n 5 ++
            [b.getLsbD (n + 4), b.getLsbD (n + 5)] =
              (!b.getLsbD n) :: b.getLsbD n :: bitsAbove b (n + 1) 5 := by
          rw [bitsAbove, hat, bitsAbove_congr fun i hi => habove i (by omega)]
          rfl
        have hsame' := SameRun.of_append [b.getLsbD (n + 4), b.getLsbD (n + 5)]
          (show 0 < 5 by omega) (show 5 ≤ (bitsAbove (insertStuffBit b (n + 1)) n 5).length by simp)
        have hlow : msbBits (insertStuffBit b (n + 1)) n = msbBits b n := by
          refine msbBits_congr fun i hi => ?_
          rw [hbit i (by omega), if_pos hi]
        have hlong : 5 ≤ runLength (b.getLsbD n :: bitsAbove b (n + 1) 5) := by
          have hrun := hsame.2
          omega
        rw [hwindow'] at hsame'
        rw [stuffBit_of_le hlong, List.singleton_append, List.singleton_append,
          stuffNow_congr hsame', ← hlow] at hs
        subst hs
        rw [List.length_cons, List.length_cons] at hlength ⊢
        obtain ⟨hcount, hbits, hrest⟩ :=
          ih (insertStuffBit b (n + 1)) (count + 1) (by omega) rfl (by omega)
        have hle := length_le_stuffNow 5 (bitsAbove (insertStuffBit b (n + 1)) n 5)
          (msbBits (insertStuffBit b (n + 1)) n)
        rw [length_msbBits] at hle
        rw [if_pos (decide_eq_true hfull)]
        refine ⟨by omega, ?_, fun i hi => ?_⟩
        · have hfirst := hrest 1 (by omega)
          have hsecond := (hrest 0 (by omega)).trans hat
          rw [habove 0 (by omega)] at hfirst
          rw [msbBits, msbBits, hbits]
          exact congrArg₂ (fun x y => x :: y :: _) hfirst hsecond
        · have hmoved := hrest (2 + i) (by omega)
          have hplace : n + (2 + i) = n + 1 + (1 + i) := by omega
          rw [hplace, habove (1 + i) (by omega)] at hmoved
          exact (congrArg _ (by omega)).trans (hmoved.trans (congrArg _ (by omega)))
      · have hshort : ¬5 ≤ runLength (b.getLsbD n :: bitsAbove b (n + 1) 5) := by
          have hrun := hsame.2
          omega
        rw [stuffBit_of_lt (Nat.lt_of_not_le hshort), List.nil_append, List.nil_append,
          stuffNow_congr hsame] at hs
        subst hs
        rw [List.length_cons] at hlength ⊢
        obtain ⟨hcount, hbits, hrest⟩ := ih b count (by omega) rfl (by omega)
        rw [if_neg (by simpa using hfull)]
        refine ⟨by omega, ?_, fun i hi => ?_⟩
        · have hfirst := hrest 0 (by omega)
          rw [msbBits, hbits]
          exact congrArg (· :: _) hfirst
        · have hmoved := hrest (1 + i) (by omega)
          exact (congrArg _ (by omega)).trans (hmoved.trans (congrArg _ (by omega)))

/-- **`bitstuff` stuffs the low bits of a word**, with the upper ones as the past: it always ends,
the bits it makes are those of the line code, it counts them, and the upper ones move up. -/
theorem bitstuff_spec (b : Word) {n : ℕ} (hn : n ≤ 20) :
    ∃ w, bitstuff b n = some (w, (stuffNow 5 (bitsAbove b n 5) (msbBits b n)).length) ∧
      msbBits w (stuffNow 5 (bitsAbove b n 5) (msbBits b n)).length =
        stuffNow 5 (bitsAbove b n 5) (msbBits b n) ∧
      ∀ i, (stuffNow 5 (bitsAbove b n 5) (msbBits b n)).length + i < 32 →
        w.getLsbD ((stuffNow 5 (bitsAbove b n 5) (msbBits b n)).length + i) =
          b.getLsbD (n + i) := by
  have hbound := length_stuffNow_le_of_any (show 2 ≤ 5 by omega) (bitsAbove b n 5) (msbBits b n)
  rw [length_msbBits] at hbound
  have hlength : (stuffNow 5 (bitsAbove b n 5) (msbBits b n)).length ≤ 32 := by omega
  obtain ⟨hcount, hbits, habove⟩ := bitstuffSerial_spec b n (by omega) rfl hlength
  refine ⟨(bitstuffSerial b n n).1, ?_, hbits, habove⟩
  have hsecond := Nat.add_left_cancel ((Nat.add_comm n _).trans hcount)
  rw [bitstuff, bitstuffLoop_eq (Nat.lt_succ_self n) (by omega) (le_refl n) id, ← hsecond]

end Terraboot.Can2040
