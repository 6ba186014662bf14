import Mathlib.Data.List.Basic
import Mathlib.Data.Nat.ModEq
import Mathlib.Logic.Function.Basic

/-!
# Rings and Logs

A ring of `n` slots between one writer and one reader, seen next to the log of everything ever
written to it. The entries from the read position `lo` up to the write position `hi`, both of
which only ever grow, are in the ring, each in the slot of its number modulo `n`.

## Main results

* `RingLog.push`, `RingLog.pop`: the two moves.
* `RingLog.fill`, `RingLog.submit`: the first of them in two steps.
* `RingLog.front`: the slot at the read position holds the oldest entry not yet taken.
-/

variable {α : Type*} {n : ℕ} [NeZero n]

/-- The ring holds the entries `lo` to `hi` of a log with `hi` entries. -/
structure RingLog (ring : Fin n → α) (log : List α) (lo hi : ℕ) : Prop where
  length : log.length = hi
  le : lo ≤ hi
  room : hi ≤ lo + n
  slot : ∀ i, lo ≤ i → i < hi → log[i]? = some (ring (Fin.ofNat n i))

namespace RingLog

theorem empty (ring : Fin n → α) : RingLog ring [] 0 0 :=
  ⟨rfl, le_rfl, Nat.zero_le _, fun i _ hi => absurd hi (Nat.not_lt_zero i)⟩

/-- Positions less than a turn apart are in different slots. -/
theorem ofNat_ne {i j : ℕ} (hij : i < j) (hj : j < i + n) : Fin.ofNat n i ≠ Fin.ofNat n j := by
  intro heq
  have hmod : i % n = j % n := congrArg Fin.val heq
  have hdvd : n ∣ j - i := (Nat.modEq_iff_dvd' hij.le).mp hmod
  have hle := Nat.le_of_dvd (by omega) hdvd
  omega

variable {ring : Fin n → α} {log : List α} {lo hi : ℕ}

/-- An entry is written while there is room. -/
theorem push (h : RingLog ring log lo hi) (hroom : hi < lo + n) (x : α) :
    RingLog (Function.update ring (Fin.ofNat n hi) x) (log ++ [x]) lo (hi + 1) := by
  refine ⟨by rw [List.length_append, h.length, List.length_singleton], h.le.trans (Nat.le_succ _),
    hroom, fun i hlo hlt => ?_⟩
  rcases Nat.lt_or_eq_of_le (Nat.le_of_lt_succ hlt) with hold | rfl
  · rw [List.getElem?_append_left (by rw [h.length]; exact hold),
      Function.update_of_ne (ofNat_ne hold (by omega))]
    exact h.slot i hlo hold
  · rw [Function.update_self, ← h.length, List.getElem?_concat_length]

/-- A free slot can be filled before the entry counts as written. -/
theorem fill (h : RingLog ring log lo hi) (hroom : hi < lo + n) (x : α) :
    RingLog (Function.update ring (Fin.ofNat n hi) x) log lo hi := by
  refine ⟨h.length, h.le, h.room, fun i hlo hlt => ?_⟩
  rw [Function.update_of_ne (ofNat_ne hlt (by omega))]
  exact h.slot i hlo hlt

/-- The slot that has been filled is counted. -/
theorem submit (h : RingLog ring log lo hi) (hroom : hi < lo + n) :
    RingLog ring (log ++ [ring (Fin.ofNat n hi)]) lo (hi + 1) := by
  have hpush := h.push hroom (ring (Fin.ofNat n hi))
  rwa [Function.update_eq_self] at hpush

/-- The oldest entry is taken. -/
theorem pop (h : RingLog ring log lo hi) (hlt : lo < hi) : RingLog ring log (lo + 1) hi := by
  have hroom := h.room
  exact ⟨h.length, hlt, by omega, fun i hlo hi => h.slot i (by omega) hi⟩

/-- The slot at the read position holds the next entry. -/
theorem front (h : RingLog ring log lo hi) (hlt : lo < hi) :
    log.take (lo + 1) = log.take lo ++ [ring (Fin.ofNat n lo)] := by
  rw [List.take_add_one, h.slot lo le_rfl hlt]
  rfl

/-- The slot at the read position keeps its entry while others are written. -/
theorem update_front (hlt : lo < hi) (hroom : hi < lo + n) (x : α) :
    Function.update ring (Fin.ofNat n hi) x (Fin.ofNat n lo) = ring (Fin.ofNat n lo) :=
  Function.update_of_ne (ofNat_ne hlt hroom) _ _

/-- Everything has been taken from an empty ring. -/
theorem take_eq (h : RingLog ring log lo lo) : log.take lo = log :=
  List.take_of_length_le h.length.le

end RingLog
