import Mathlib.Data.List.Basic
import Mathlib.Tactic.Common

/-!
# Packets

Data cut into packets of a fixed size, the last of which takes what is left.

## Main results

* `split_isSplit`: every packet but the last is full, and together they are the data.
-/

namespace Packets

variable {α : Type*}

/-- Packets that carry the items of `l` in order: each but the last has exactly `n` of them. -/
structure IsSplit (n : ℕ) (l : List α) (packets : List (List α)) : Prop where
  flatten : packets.flatten = l
  full : ∀ p ∈ packets.dropLast, p.length = n
  pos : ∀ p ∈ packets, 0 < p.length
  le : ∀ p ∈ packets, p.length ≤ n

/-- The data cut from the front; no data make one empty packet. -/
def split (n : ℕ) (l : List α) : List (List α) :=
  if 0 < n ∧ n < l.length then l.take n :: split n (l.drop n) else [l]
termination_by l.length
decreasing_by
  rw [List.length_drop]
  omega

theorem split_of_le {n : ℕ} {l : List α} (h : l.length ≤ n) : split n l = [l] := by
  rw [split, if_neg (by omega)]

theorem split_of_lt {n : ℕ} {l : List α} (hn : 0 < n) (h : n < l.length) :
    split n l = l.take n :: split n (l.drop n) := by
  rw [split, if_pos ⟨hn, h⟩]

theorem split_ne_nil (n : ℕ) (l : List α) : split n l ≠ [] := by
  rw [split]
  split_ifs <;> exact List.cons_ne_nil _ _

/-- One full packet in front of a split. -/
theorem IsSplit.cons {n : ℕ} {p l : List α} {packets : List (List α)} (hn : 0 < n)
    (hp : p.length = n) (hne : packets ≠ []) (h : IsSplit n l packets) :
    IsSplit n (p ++ l) (p :: packets) where
  flatten := by rw [List.flatten_cons, h.flatten]
  full q hq := by
    rw [List.dropLast_cons_of_ne_nil hne] at hq
    rcases List.mem_cons.mp hq with rfl | hq
    · exact hp
    · exact h.full q hq
  pos q hq := by
    rcases List.mem_cons.mp hq with rfl | hq
    · omega
    · exact h.pos q hq
  le q hq := by
    rcases List.mem_cons.mp hq with rfl | hq
    · exact Nat.le_of_eq hp
    · exact h.le q hq

/-- **Every packet but the last is full**, and together they are the data. -/
theorem split_isSplit {n : ℕ} (hn : 0 < n) {l : List α} (hl : l ≠ []) :
    IsSplit n l (split n l) := by
  induction l using split.induct n with
  | case1 l h ih =>
      rw [split_of_lt hn h.2]
      have hrest : l.drop n ≠ [] := by
        intro hnil
        have hlen := congrArg List.length hnil
        rw [List.length_drop, List.length_nil] at hlen
        omega
      have htake : (l.take n).length = n := List.length_take_of_le (Nat.le_of_lt h.2)
      have hcons := (ih hrest).cons hn htake (split_ne_nil _ _)
      rwa [List.take_append_drop] at hcons
  | case2 l h =>
      have hle : l.length ≤ n := by omega
      have hpos : 0 < l.length := List.length_pos_of_ne_nil hl
      rw [split_of_le hle]
      refine ⟨by simp, by simp, ?_, ?_⟩ <;> simp only [List.mem_singleton, forall_eq]
      · exact hpos
      · exact hle

end Packets
