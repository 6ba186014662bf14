import Terraboot.RingLog

/-!
# Rings Handed Over by Flags

A ring between one writer and one reader who share no position. Each slot has a flag that says
whose turn it is: the writer fills the slot at its own position while the flag is down and then
raises it, the reader takes the entry at its own position while the flag is up and then lowers it.
Neither side sees where the other stands, and neither has to.

## Main results

* `Handoff.lt_of_up`, `Handoff.room_of_down`: what a flag tells the side that looks at it.
* `Handoff.raise`, `Handoff.lower`: the two moves.
* `Handoff.drained`: with every flag down the reader has had everything.
-/

variable {α : Type*} {n : ℕ} [NeZero n]

/-- A ring with a log, and the flag of a slot is up exactly while the slot holds an entry. -/
structure Handoff (up : Fin n → Bool) (ring : Fin n → α) (log : List α) (lo hi : ℕ) : Prop
    extends RingLog ring log lo hi where
  up_iff : ∀ i, lo ≤ i → i < lo + n → (up (Fin.ofNat n i) = true ↔ i < hi)

namespace Handoff

theorem empty {up : Fin n → Bool} (hup : ∀ b, up b = false) (ring : Fin n → α) :
    Handoff up ring [] 0 0 :=
  ⟨RingLog.empty ring, fun i _ _ => by simp [hup]⟩

variable {up : Fin n → Bool} {ring : Fin n → α} {log : List α} {lo hi : ℕ}

/-- The reader finds the flag up at its position: there is an entry. -/
theorem lt_of_up (h : Handoff up ring log lo hi) (hup : up (Fin.ofNat n lo) = true) : lo < hi :=
  (h.up_iff lo le_rfl (Nat.lt_add_of_pos_right (Nat.pos_of_neZero n))).mp hup

/-- The writer finds the flag down at its position: there is room. -/
theorem room_of_down (h : Handoff up ring log lo hi) (hup : up (Fin.ofNat n hi) = false) :
    hi < lo + n := by
  refine Nat.lt_of_le_of_ne h.room fun heq => ?_
  have hslot : Fin.ofNat n hi = Fin.ofNat n lo := Fin.ext (by simp [heq])
  have hlt : lo < hi := by
    have hpos := Nat.pos_of_neZero n
    omega
  have hlo := (h.up_iff lo le_rfl (by omega)).mpr hlt
  rw [← hslot, hup] at hlo
  exact Bool.noConfusion hlo

theorem up_front (h : Handoff up ring log lo hi) (hlt : lo < hi) : up (Fin.ofNat n lo) = true :=
  (h.up_iff lo le_rfl (Nat.lt_add_of_pos_right (Nat.pos_of_neZero n))).mpr hlt

/-- A free slot can be filled before it is handed over. -/
theorem fill (h : Handoff up ring log lo hi) (hroom : hi < lo + n) (x : α) :
    Handoff up (Function.update ring (Fin.ofNat n hi) x) log lo hi :=
  ⟨h.toRingLog.fill hroom x, h.up_iff⟩

/-- The writer hands over the entry it has put in its slot. -/
theorem raise (h : Handoff up ring log lo hi) (hroom : hi < lo + n) (x : α) :
    Handoff (Function.update up (Fin.ofNat n hi) true)
      (Function.update ring (Fin.ofNat n hi) x) (log ++ [x]) lo (hi + 1) := by
  refine ⟨h.toRingLog.push hroom x, fun i hlo hlt => ?_⟩
  rcases Nat.lt_trichotomy i hi with hbelow | rfl | habove
  · rw [Function.update_of_ne (RingLog.ofNat_ne hbelow (by omega))]
    exact (h.up_iff i hlo hlt).trans ⟨fun h => by omega, fun _ => hbelow⟩
  · simp
  · rw [Function.update_of_ne (RingLog.ofNat_ne habove (by have := h.le; omega)).symm]
    exact (h.up_iff i hlo hlt).trans ⟨fun h => by omega, fun h => by omega⟩

/-- The reader hands the slot of the oldest entry back. -/
theorem lower (h : Handoff up ring log lo hi) (hlt : lo < hi) :
    Handoff (Function.update up (Fin.ofNat n lo) false) ring log (lo + 1) hi := by
  refine ⟨h.toRingLog.pop hlt, fun i hlo hi' => ?_⟩
  rcases Nat.lt_or_eq_of_le (show i ≤ lo + n by omega) with hnear | rfl
  · rw [Function.update_of_ne (RingLog.ofNat_ne (by omega) hnear).symm]
    exact h.up_iff i (by omega) hnear
  · have hslot : Fin.ofNat n (lo + n) = Fin.ofNat n lo := Fin.ext (by simp)
    have hroom := h.room
    rw [hslot, Function.update_self]
    simp only [Bool.false_eq_true, false_iff]
    omega

/-- Every flag is down: the reader has taken everything. -/
theorem drained (h : Handoff up ring log lo hi) (hup : ∀ b, up b = false) : lo = hi := by
  refine Nat.le_antisymm h.le (Nat.le_of_not_lt fun hlt => ?_)
  have hfront := h.up_front hlt
  rw [hup] at hfront
  exact Bool.noConfusion hfront

end Handoff
