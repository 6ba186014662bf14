import Mathlib.Data.List.Basic
import Mathlib.Tactic.Common

/-!
# Bit Stuffing

A line code that keeps runs short: behind `k` equal bits the sender puts one of the other value,
and the receiver drops it. What either side does depends on the bits that were on the line before,
here a list with the newest bit at its head.

There are two ways to say when the bit goes out. A sender adds it as soon as the run is full
(`stuffNow`); a receiver that takes a fixed number of bits for a field sees it before the next bit
(`stuff`). The two differ only at the end.

## Main results

* `stuffNow_append`: fields can be stuffed one after the other.
* `stuff_append_singleton`: a bit that follows the stuffed bits makes the two ways the same.
* `runLength_stuffBit_lt`: no bit is added behind an added one.
* `length_stuffNow_le`: how many bits are added at most.
* `not_replicate_infix_stuff`: no run gets too long.
* `stuff_congr`: of the past only the last run matters, and that only up to its full length.
-/

namespace BitStuffing

/-- The length of the run of equal bits at the head. -/
def runLength : List Bool → ℕ
  | [] => 0
  | b :: h => if h.head? = some b then runLength h + 1 else 1

/-- The bit that a full run calls for. -/
def stuffBit (k : ℕ) (h : List Bool) : List Bool :=
  if k ≤ runLength h then (h.head?.map not).toList else []

/-- The message on a line with the past `h`, with a bit added before the bit that would make a run
too long or end it. -/
def stuff (k : ℕ) : List Bool → List Bool → List Bool
  | _, [] => []
  | h, b :: bits => stuffBit k h ++ b :: stuff k (b :: (stuffBit k h ++ h)) bits

/-- The same with a bit added right behind each full run. -/
def stuffNow (k : ℕ) : List Bool → List Bool → List Bool
  | _, [] => []
  | h, b :: bits =>
      b :: (stuffBit k (b :: h) ++ stuffNow k (stuffBit k (b :: h) ++ b :: h) bits)

/-- Two pasts that the code does not tell apart. -/
def SameRun (k : ℕ) (h h' : List Bool) : Prop :=
  h.head? = h'.head? ∧ min k (runLength h) = min k (runLength h')

/-! ### Runs -/

theorem runLength_cons_le (b : Bool) (h : List Bool) : runLength (b :: h) ≤ runLength h + 1 := by
  rw [runLength]
  split_ifs <;> omega

theorem runLength_cons_pos (b : Bool) (h : List Bool) : 0 < runLength (b :: h) := by
  rw [runLength]
  split_ifs <;> omega

theorem runLength_of_head_ne {b : Bool} {h : List Bool} (hne : h.head? ≠ some b) :
    runLength (b :: h) = 1 := by
  rw [runLength, if_neg hne]

theorem runLength_cons_not (b : Bool) (h : List Bool) : runLength ((!b) :: b :: h) = 1 :=
  runLength_of_head_ne (by cases b <;> simp)

/-- A run of five, bit by bit. -/
theorem five_le_runLength_iff (a b c d e : Bool) (h : List Bool) :
    5 ≤ runLength (a :: b :: c :: d :: e :: h) ↔ a = b ∧ b = c ∧ c = d ∧ d = e := by
  have hpos := runLength_cons_pos e h
  simp only [runLength, List.head?_cons, Option.some.injEq] at hpos ⊢
  cases a <;> cases b <;> cases c <;> cases d <;> cases e <;> simp_all <;> omega

theorem stuffBit_of_lt {k : ℕ} {h : List Bool} (hlt : runLength h < k) : stuffBit k h = [] :=
  if_neg (by omega)

theorem stuffBit_of_le {k : ℕ} {b : Bool} {h : List Bool} (hle : k ≤ runLength (b :: h)) :
    stuffBit k (b :: h) = [!b] := by
  rw [stuffBit, if_pos hle]
  rfl

/-- **Behind the added bit the run is short again.** -/
theorem runLength_stuffBit_lt {k : ℕ} (hk : 2 ≤ k) (h : List Bool) :
    runLength (stuffBit k h ++ h) < k := by
  cases h with
  | nil =>
      rw [stuffBit_of_lt (h := []) (show 0 < k by omega)]
      exact show 0 < k by omega
  | cons b h =>
      by_cases hle : k ≤ runLength (b :: h)
      · rw [stuffBit_of_le hle, List.singleton_append, runLength_cons_not]
        omega
      · rw [stuffBit_of_lt (by omega), List.nil_append]
        omega

/-! ### Composition -/

@[simp] theorem stuff_nil (k : ℕ) (h : List Bool) : stuff k h [] = [] := rfl

@[simp] theorem stuffNow_nil (k : ℕ) (h : List Bool) : stuffNow k h [] = [] := rfl

/-- What was on the line after a bit, the newest first. -/
theorem reverse_stuffBit (k : ℕ) (h : List Bool) : (stuffBit k h).reverse = stuffBit k h := by
  rw [stuffBit]
  split_ifs
  · cases h.head? <;> rfl
  · rfl

/-- **Fields are stuffed one after the other.** -/
theorem stuffNow_append (k : ℕ) (h a b : List Bool) :
    stuffNow k h (a ++ b) = stuffNow k h a ++ stuffNow k ((stuffNow k h a).reverse ++ h) b := by
  induction a generalizing h with
  | nil => rfl
  | cons x a ih =>
      simp only [List.cons_append, stuffNow, ih, List.append_assoc, List.reverse_append,
        List.reverse_cons, reverse_stuffBit, List.nil_append]

/-- A bit at the end is preceded by the one that the run before it calls for. -/
theorem stuff_append_singleton {k : ℕ} (hk : 2 ≤ k) (h bits : List Bool) (b : Bool) :
    stuff k h (bits ++ [b]) = stuffBit k h ++ stuffNow k (stuffBit k h ++ h) bits ++ [b] := by
  induction bits generalizing h with
  | nil => simp [stuff]
  | cons x bits ih =>
      have hshort : stuffBit k (stuffBit k h ++ h) = [] :=
        stuffBit_of_lt (runLength_stuffBit_lt hk h)
      simp only [List.cons_append, stuff, stuffNow, ih, List.append_assoc]

/-! ### Runs stay short -/

theorem le_runLength_replicate (n : ℕ) (b : Bool) (h : List Bool) :
    n ≤ runLength (List.replicate n b ++ h) := by
  induction n with
  | zero => exact Nat.zero_le _
  | succ n ih =>
      rw [List.replicate_succ, List.cons_append]
      cases n with
      | zero => exact runLength_cons_pos b h
      | succ n =>
          rw [runLength, if_pos (by simp [List.replicate_succ])]
          omega

theorem runLength_stuff_le {k : ℕ} (hk : 2 ≤ k) {h bits x y : List Bool} (hrun : runLength h ≤ k)
    (hxy : stuff k h bits = x ++ y) : runLength (x.reverse ++ h) ≤ k := by
  induction bits generalizing h x with
  | nil =>
      obtain ⟨rfl, -⟩ := List.append_eq_nil_iff.mp hxy.symm
      exact hrun
  | cons b bits ih =>
      have hshort := runLength_stuffBit_lt hk h
      have hnext := runLength_cons_le b (stuffBit k h ++ h)
      rw [stuff, List.append_eq_append_iff] at hxy
      rcases hxy with ⟨z, rfl, hz⟩ | ⟨z, hz, -⟩
      · -- the added bit is among the first ones
        cases z with
        | nil =>
            rw [List.append_nil, reverse_stuffBit]
            omega
        | cons c z =>
            obtain ⟨rfl, hrest⟩ := List.cons.inj hz
            have hle := ih (by omega) hrest
            rw [List.reverse_append, List.reverse_cons, reverse_stuffBit]
            simpa using hle
      · -- and here it is not
        cases x with
        | nil => exact hrun
        | cons c x =>
            have hall : x = [] ∧ z = [] := by
              have hlength : (stuffBit k h).length ≤ 1 := by
                rw [stuffBit]
                split_ifs
                · cases h.head? <;> simp
                · simp
              rw [hz, List.cons_append, List.length_cons, List.length_append] at hlength
              exact ⟨List.length_eq_zero_iff.mp (by omega), List.length_eq_zero_iff.mp (by omega)⟩
            obtain ⟨rfl, rfl⟩ := hall
            rw [hz] at hshort
            exact Nat.le_of_lt hshort

/-- **No run on the line gets longer than `k`.** -/
theorem not_replicate_infix_stuff {k : ℕ} (hk : 2 ≤ k) {h : List Bool} (hrun : runLength h ≤ k)
    (bits : List Bool) (b : Bool) : ¬List.replicate (k + 1) b <:+: stuff k h bits := by
  rintro ⟨s, t, hst⟩
  have hle := runLength_stuff_le hk hrun hst.symm
  have hlong := le_runLength_replicate (k + 1) b (s.reverse ++ h)
  rw [List.reverse_append, List.reverse_replicate, List.append_assoc] at hle
  omega

/-! ### Length -/

theorem length_le_stuffNow (k : ℕ) (h bits : List Bool) :
    bits.length ≤ (stuffNow k h bits).length := by
  induction bits generalizing h with
  | nil => exact Nat.zero_le _
  | cons b bits ih =>
      have hrest := ih (stuffBit k (b :: h) ++ b :: h)
      rw [stuffNow, List.length_cons, List.length_cons, List.length_append]
      omega

theorem length_le_stuff (k : ℕ) (h bits : List Bool) : bits.length ≤ (stuff k h bits).length := by
  induction bits generalizing h with
  | nil => exact Nat.zero_le _
  | cons b bits ih =>
      have hrest := ih (b :: (stuffBit k h ++ h))
      rw [stuff, List.length_append, List.length_cons, List.length_cons]
      omega

/-- **At most every `k - 1` bits one is added**, and the run before the message counts. -/
theorem length_stuffNow_le {k : ℕ} (hk : 2 ≤ k) {h : List Bool} (hpos : 0 < runLength h)
    (hlt : runLength h < k) (bits : List Bool) :
    (k - 1) * (stuffNow k h bits).length + 1 ≤ k * bits.length + runLength h := by
  obtain ⟨j, rfl⟩ : ∃ j, k = j + 1 := ⟨k - 1, by omega⟩
  rw [Nat.add_sub_cancel]
  induction bits generalizing h with
  | nil =>
      simp only [stuffNow_nil, List.length_nil, Nat.mul_zero]
      omega
  | cons b bits ih =>
      have hrun := runLength_cons_le b h
      rw [stuffNow, List.length_cons, List.length_append, List.length_cons]
      by_cases hfull : j + 1 ≤ runLength (b :: h)
      · have hone : runLength (stuffBit (j + 1) (b :: h) ++ b :: h) = 1 := by
          rw [stuffBit_of_le hfull]
          exact runLength_cons_not b h
        have hrest := ih (h := stuffBit (j + 1) (b :: h) ++ b :: h) (by omega) (by omega)
        rw [hone] at hrest
        rw [stuffBit_of_le hfull] at hrest ⊢
        simp only [Nat.mul_add, Nat.add_mul, Nat.mul_one, Nat.one_mul, List.length_singleton]
          at hrest ⊢
        omega
      · have hrest := ih (runLength_cons_pos b h) (by omega)
        rw [stuffBit_of_lt (by omega)]
        simp only [Nat.mul_add, Nat.add_mul, Nat.mul_one, Nat.one_mul, List.length_nil,
          List.nil_append, Nat.zero_add] at hrest ⊢
        omega

/-- The same for any past: a full run costs one bit more. -/
theorem length_stuffNow_le_of_any {k : ℕ} (hk : 2 ≤ k) (h bits : List Bool) :
    (k - 1) * (stuffNow k h bits).length + 1 ≤ k * bits.length + (k - 1) := by
  cases bits with
  | nil =>
      rw [stuffNow_nil, List.length_nil, Nat.mul_zero]
      omega
  | cons b bits =>
      obtain ⟨j, rfl⟩ : ∃ j, k = j + 1 := ⟨k - 1, by omega⟩
      rw [Nat.add_sub_cancel, stuffNow, List.length_cons, List.length_append, List.length_cons]
      by_cases hfull : j + 1 ≤ runLength (b :: h)
      · have hone : runLength (stuffBit (j + 1) (b :: h) ++ b :: h) = 1 := by
          rw [stuffBit_of_le hfull]
          exact runLength_cons_not b h
        have hrest := length_stuffNow_le hk (h := stuffBit (j + 1) (b :: h) ++ b :: h) (by omega)
          (by omega) bits
        rw [hone] at hrest
        rw [stuffBit_of_le hfull] at hrest ⊢
        simp only [Nat.mul_add, Nat.add_mul, Nat.mul_one, Nat.one_mul, List.length_singleton,
          Nat.add_sub_cancel] at hrest ⊢
        omega
      · have hrest := length_stuffNow_le hk (runLength_cons_pos b h) (by omega) bits
        rw [stuffBit_of_lt (by omega)]
        simp only [Nat.mul_add, Nat.add_mul, Nat.mul_one, Nat.one_mul, List.length_nil,
          List.nil_append, Nat.zero_add, Nat.add_sub_cancel] at hrest ⊢
        omega

/-! ### What matters of the past -/

theorem SameRun.refl (k : ℕ) (h : List Bool) : SameRun k h h := ⟨rfl, rfl⟩

theorem SameRun.symm {k : ℕ} {h h' : List Bool} (hs : SameRun k h h') : SameRun k h' h :=
  ⟨hs.1.symm, hs.2.symm⟩

theorem min_runLength_append {k : ℕ} {h : List Bool} (t : List Bool) (hk : k ≤ h.length) :
    min k (runLength (h ++ t)) = min k (runLength h) := by
  induction h generalizing k with
  | nil =>
      obtain rfl : k = 0 := Nat.le_zero.mp hk
      simp
  | cons b h ih =>
      cases h with
      | nil =>
          have hleft := runLength_cons_pos b t
          have hright := runLength_cons_pos b []
          rw [List.length_singleton] at hk
          rw [List.singleton_append]
          omega
      | cons c h =>
          rw [List.length_cons] at hk
          have hrest := ih (k := k - 1) (by omega)
          rw [List.cons_append, runLength, runLength, List.head?_append, List.head?_cons,
            Option.some_or]
          split_ifs
          · omega
          · rfl

/-- A run ends where the other value begins. -/
theorem runLength_append_not (l : List Bool) (b : Bool) (t : List Bool) :
    runLength (l ++ b :: (!b) :: t) = runLength (l ++ [b]) := by
  induction l with
  | nil => cases b <;> rfl
  | cons c l ih =>
      have hhead : (l ++ b :: (!b) :: t).head? = (l ++ [b]).head? := by
        cases l <;> rfl
      rw [List.cons_append, List.cons_append, runLength, runLength, hhead, ih]

/-- **A past that is long enough** can be cut off. -/
theorem SameRun.of_append {k : ℕ} {h : List Bool} (t : List Bool) (hpos : 0 < k)
    (hk : k ≤ h.length) : SameRun k (h ++ t) h := by
  refine ⟨?_, min_runLength_append t hk⟩
  obtain ⟨b, h, rfl⟩ := List.exists_cons_of_length_pos (Nat.lt_of_lt_of_le hpos hk)
  rfl

theorem SameRun.cons {k : ℕ} {h h' : List Bool} (hs : SameRun k h h') (b : Bool) :
    SameRun k (b :: h) (b :: h') := by
  obtain ⟨hhead, hrun⟩ := hs
  refine ⟨rfl, ?_⟩
  rw [runLength, runLength, hhead]
  split_ifs
  · omega
  · rfl

theorem SameRun.append {k : ℕ} {h h' : List Bool} (hs : SameRun k h h') (bits : List Bool) :
    SameRun k (bits ++ h) (bits ++ h') := by
  induction bits with
  | nil => exact hs
  | cons b bits ih => exact ih.cons b

theorem SameRun.stuffBit_eq {k : ℕ} {h h' : List Bool} (hs : SameRun k h h') :
    stuffBit k h = stuffBit k h' := by
  obtain ⟨hhead, hrun⟩ := hs
  have hiff : k ≤ runLength h ↔ k ≤ runLength h' := by omega
  rw [stuffBit, stuffBit, hhead]
  exact if_congr hiff rfl rfl

/-- **Only the last run matters**, up to its full length. -/
theorem stuff_congr {k : ℕ} {h h' : List Bool} (hs : SameRun k h h') (bits : List Bool) :
    stuff k h bits = stuff k h' bits := by
  induction bits generalizing h h' with
  | nil => rfl
  | cons b bits ih =>
      have hnext := (hs.append (stuffBit k h)).cons b
      rw [stuff, stuff, ← hs.stuffBit_eq, ih hnext]

theorem stuffNow_congr {k : ℕ} {h h' : List Bool} (hs : SameRun k h h') (bits : List Bool) :
    stuffNow k h bits = stuffNow k h' bits := by
  induction bits generalizing h h' with
  | nil => rfl
  | cons b bits ih =>
      have hnext := (hs.cons b).append (stuffBit k (b :: h))
      rw [stuffNow, stuffNow, ← (hs.cons b).stuffBit_eq, ih hnext]

end BitStuffing
