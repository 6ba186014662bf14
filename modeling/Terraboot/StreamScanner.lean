import Mathlib.Data.List.Basic
import Mathlib.Data.List.DropRight
import Mathlib.Tactic.Common

/-!
# Scanning a Stream for Embedded Blocks

A receiver that looks for blocks inside an unreliable byte stream decides, at the first
position it has not decided yet, whether a block starts there, whether none does, or
whether more input is needed. This module fixes that decision as a `Classifier` and
develops the greedy left-to-right decomposition it induces.

The one law a classifier must obey is stability: a decision, once taken, is not changed
by input that arrives later. Stability alone lets a receiver that only keeps the undecided
part of the stream, and is given the stream in pieces, be compared with the whole stream
(`Tracks`).

## Main results

* `Classifier.blocks_dead_append`: symbols at which no block can start may be dropped in
  front of any stream without changing the blocks found in it.
* `Classifier.Tracks`: the simulation invariant of a receiver, with one rule for each
  thing a receiver does to its buffer.
-/

namespace StreamScanner

variable {α : Type*}

/-- The decision about the first position of a stream: not enough input yet, no block
starts here, or the first `n` symbols are a block. -/
inductive Verdict
  | undecided
  | reject
  | accept (n : ℕ)
  deriving DecidableEq, Repr

/-- A decision procedure for the first position of a stream, stable under extension of
the input. -/
structure Classifier (α : Type*) where
  /-- The decision on the input received so far. -/
  classify : List α → Verdict
  /-- Input that arrives later does not change a decision. -/
  stable : ∀ w v, classify w ≠ .undecided → classify (w ++ v) = classify w
  /-- Nothing is decided about an empty input. -/
  nil_undecided : classify [] = .undecided
  /-- Blocks are nonempty. -/
  accept_pos : ∀ w n, classify w = .accept n → 0 < n
  /-- A block lies within the input it was found in. -/
  accept_le : ∀ w n, classify w = .accept n → n ≤ w.length

namespace Classifier

variable (C : Classifier α)

/-- The greedy decomposition with a bound on the number of decisions. -/
def scanAux : ℕ → List α → List (List α) × List α
  | 0, w => ([], w)
  | k + 1, w =>
      match C.classify w with
      | .undecided => ([], w)
      | .reject => scanAux k w.tail
      | .accept n => ((w.take n) :: (scanAux k (w.drop n)).1, (scanAux k (w.drop n)).2)

/-- The **greedy decomposition** of a stream: the blocks found from left to right, and
the tail that starts at the first undecided position. Every decision consumes at least
one symbol, so the length of the stream bounds their number. -/
def scan (w : List α) : List (List α) × List α := C.scanAux w.length w

/-- The blocks of the greedy decomposition. -/
def blocks (w : List α) : List (List α) := (C.scan w).1

/-- The undecided tail of the greedy decomposition. -/
def rest (w : List α) : List α := (C.scan w).2

/-! ### Unfolding the decomposition -/

theorem length_tail_lt_of_reject {w : List α} (h : C.classify w = .reject) :
    w.tail.length < w.length := by
  cases w with
  | nil => rw [C.nil_undecided] at h; cases h
  | cons x w => simp

theorem length_drop_lt_of_accept {w : List α} {n : ℕ} (h : C.classify w = .accept n) :
    (w.drop n).length < w.length := by
  have hpos := C.accept_pos w n h
  have hle := C.accept_le w n h
  rw [List.length_drop]
  omega

/-- The bound on the number of decisions is immaterial once it reaches the length. -/
theorem scanAux_eq_scan : ∀ (k : ℕ) (w : List α), w.length ≤ k → C.scanAux k w = C.scan w := by
  suffices h : ∀ (k m : ℕ) (w : List α), w.length ≤ k → w.length ≤ m →
      C.scanAux k w = C.scanAux m w by
    intro k w hk
    exact h k w.length w hk le_rfl
  intro k
  induction k with
  | zero =>
      intro m w hk _
      obtain rfl : w = [] := List.length_eq_zero_iff.mp (by omega)
      cases m with
      | zero => rfl
      | succ m => simp only [scanAux, C.nil_undecided]
  | succ k ih =>
      intro m w hk hm
      cases m with
      | zero =>
          obtain rfl : w = [] := List.length_eq_zero_iff.mp (by omega)
          simp only [scanAux, C.nil_undecided]
      | succ m =>
          cases hc : C.classify w with
          | undecided => simp only [scanAux, hc]
          | reject =>
              have hlt := C.length_tail_lt_of_reject hc
              simp only [scanAux, hc]
              exact ih m w.tail (by omega) (by omega)
          | accept n =>
              have hlt := C.length_drop_lt_of_accept hc
              simp only [scanAux, hc]
              rw [ih m (w.drop n) (by omega) (by omega)]

theorem scan_undecided {w : List α} (h : C.classify w = .undecided) : C.scan w = ([], w) := by
  unfold scan
  cases hl : w.length with
  | zero => rfl
  | succ k => simp only [scanAux, h]

theorem scan_reject {w : List α} (h : C.classify w = .reject) : C.scan w = C.scan w.tail := by
  have hlt := C.length_tail_lt_of_reject h
  obtain ⟨k, hk⟩ : ∃ k, w.length = k + 1 := ⟨w.length - 1, by omega⟩
  rw [scan, hk]
  simp only [scanAux, h]
  exact C.scanAux_eq_scan k w.tail (by omega)

theorem scan_accept {w : List α} {n : ℕ} (h : C.classify w = .accept n) :
    C.scan w = (w.take n :: C.blocks (w.drop n), C.rest (w.drop n)) := by
  have hlt := C.length_drop_lt_of_accept h
  obtain ⟨k, hk⟩ : ∃ k, w.length = k + 1 := ⟨w.length - 1, by omega⟩
  rw [scan, hk]
  simp only [scanAux, h, blocks, rest]
  rw [C.scanAux_eq_scan k (w.drop n) (by omega)]

theorem blocks_undecided {w : List α} (h : C.classify w = .undecided) : C.blocks w = [] := by
  rw [blocks, C.scan_undecided h]

theorem rest_undecided {w : List α} (h : C.classify w = .undecided) : C.rest w = w := by
  rw [rest, C.scan_undecided h]

theorem blocks_reject {w : List α} (h : C.classify w = .reject) :
    C.blocks w = C.blocks w.tail := by
  rw [blocks, C.scan_reject h, blocks]

theorem rest_reject {w : List α} (h : C.classify w = .reject) : C.rest w = C.rest w.tail := by
  rw [rest, C.scan_reject h, rest]

theorem blocks_accept {w : List α} {n : ℕ} (h : C.classify w = .accept n) :
    C.blocks w = w.take n :: C.blocks (w.drop n) := by
  rw [blocks, C.scan_accept h]

theorem rest_accept {w : List α} {n : ℕ} (h : C.classify w = .accept n) :
    C.rest w = C.rest (w.drop n) := by
  rw [rest, C.scan_accept h]

/-- Induction along the decisions the scan takes. -/
theorem scan_induction {P : List α → Prop}
    (undecided : ∀ w, C.classify w = .undecided → P w)
    (reject : ∀ w, C.classify w = .reject → P w.tail → P w)
    (accept : ∀ w n, C.classify w = .accept n → P (w.drop n) → P w) (w : List α) : P w := by
  induction hl : w.length using Nat.strong_induction_on generalizing w with
  | _ l ih =>
      subst hl
      cases hc : C.classify w with
      | undecided => exact undecided w hc
      | reject =>
          exact reject w hc (ih _ (C.length_tail_lt_of_reject hc) w.tail rfl)
      | accept n =>
          exact accept w n hc (ih _ (C.length_drop_lt_of_accept hc) (w.drop n) rfl)

/-! ### More input -/

theorem classify_append_of_decided {w : List α} (v : List α) {d : Verdict}
    (h : C.classify w = d) (hd : d ≠ .undecided) : C.classify (w ++ v) = d := by
  rw [C.stable w v (by rw [h]; exact hd), h]

/-! ### Dead symbols -/

/-- The symbols `p` selects are **dead**: no block starts at one of them, and where the
decision about one is still open the input is too short for any block at all. -/
def Dead (p : α → Bool) : Prop :=
  ∀ x w, p x = true → C.classify (x :: w) = .reject ∨
    (C.classify (x :: w) = .undecided ∧ C.classify w = .undecided)

variable {C} {p : α → Bool}

theorem blocks_dead_cons (hp : C.Dead p) {x : α} (hx : p x = true) (w : List α) :
    C.blocks (x :: w) = C.blocks w := by
  rcases hp x w hx with h | ⟨h, hw⟩
  · rw [C.blocks_reject h, List.tail_cons]
  · rw [C.blocks_undecided h, C.blocks_undecided hw]

/-- Dead symbols in front of a stream do not change the blocks found in it. -/
theorem blocks_dead_append (hp : C.Dead p) {junk : List α} (hj : ∀ x ∈ junk, p x = true)
    (w : List α) : C.blocks (junk ++ w) = C.blocks w := by
  induction junk with
  | nil => rfl
  | cons x junk ih =>
      rw [List.cons_append, blocks_dead_cons hp (hj x (by simp)),
        ih (fun y hy => hj y (by simp [hy]))]

variable (C p) in
/-- The **pending** part of a stream: its undecided tail, from the first symbol on at
which a block can start. -/
def pending (w : List α) : List α := (C.rest w).dropWhile p

theorem pending_undecided {w : List α} (h : C.classify w = .undecided) :
    C.pending p w = w.dropWhile p := by
  rw [pending, C.rest_undecided h]

theorem pending_reject {w : List α} (h : C.classify w = .reject) :
    C.pending p w = C.pending p w.tail := by
  rw [pending, C.rest_reject h, pending]

theorem pending_accept {w : List α} {n : ℕ} (h : C.classify w = .accept n) :
    C.pending p w = C.pending p (w.drop n) := by
  rw [pending, C.rest_accept h, pending]

theorem pending_dead_cons (hp : C.Dead p) {x : α} (hx : p x = true) (w : List α) :
    C.pending p (x :: w) = C.pending p w := by
  rcases hp x w hx with h | ⟨h, hw⟩
  · rw [pending_reject h, List.tail_cons]
  · rw [pending_undecided h, pending_undecided hw, List.dropWhile_cons_of_pos hx]

/-- Dead symbols in front of a stream do not change what is pending at its end. -/
theorem pending_dead_append (hp : C.Dead p) {junk : List α} (hj : ∀ x ∈ junk, p x = true)
    (w : List α) : C.pending p (junk ++ w) = C.pending p w := by
  induction junk with
  | nil => rfl
  | cons x junk ih =>
      rw [List.cons_append, pending_dead_cons hp (hj x (by simp)),
        ih (fun y hy => hj y (by simp [hy]))]

/-- What is pending at the end of a stream is a part of it. -/
theorem length_pending_le (w : List α) : (C.pending p w).length ≤ w.length := by
  induction w using C.scan_induction with
  | undecided w h =>
      rw [pending_undecided h]
      exact List.length_dropWhile_le _ _
  | reject w h ih =>
      rw [pending_reject h]
      exact le_trans ih (C.length_tail_lt_of_reject h).le
  | accept w n h ih =>
      rw [pending_accept h]
      exact le_trans ih (C.length_drop_lt_of_accept h).le

/-! ### Receivers

A receiver keeps a buffer of input it has not dealt with and a list of blocks it has
passed on. It is compared with the whole stream `s` it has been given through every
possible continuation `v` of the input, so no separate account of the dead symbols it
has already thrown away is needed. -/

variable (C p) in
/-- A receiver holding `buf` that has passed on `out` **tracks** the stream `s`: for
every continuation of the input, what it will still find completes what the greedy
decomposition finds. -/
structure Tracks (s buf : List α) (out : List (List α)) : Prop where
  blocks_eq : ∀ v, C.blocks (s ++ v) = out ++ C.blocks (buf ++ v)
  pending_eq : ∀ v, C.pending p (s ++ v) = C.pending p (buf ++ v)

namespace Tracks

variable {s buf : List α} {out : List (List α)}

/-- The receiver that has been given nothing. -/
theorem init : C.Tracks p [] [] [] := ⟨fun _ => rfl, fun _ => rfl⟩

/-- New input is appended to the buffer. -/
theorem receive (h : C.Tracks p s buf out) (c : List α) :
    C.Tracks p (s ++ c) (buf ++ c) out where
  blocks_eq v := by rw [List.append_assoc, h.blocks_eq, List.append_assoc]
  pending_eq v := by rw [List.append_assoc, h.pending_eq, List.append_assoc]

/-- An accepted block is removed from the buffer and passed on. -/
theorem accept (h : C.Tracks p s buf out) {n : ℕ} (hc : C.classify buf = .accept n) :
    C.Tracks p s (buf.drop n) (out ++ [buf.take n]) where
  blocks_eq v := by
    have hle := C.accept_le buf n hc
    have hv := C.classify_append_of_decided v hc (by simp)
    rw [h.blocks_eq, C.blocks_accept hv, List.drop_append_of_le_length hle,
      List.take_append_of_le_length hle, List.append_assoc, List.singleton_append]
  pending_eq v := by
    have hle := C.accept_le buf n hc
    have hv := C.classify_append_of_decided v hc (by simp)
    rw [h.pending_eq, pending_accept hv, List.drop_append_of_le_length hle]

/-- A rejected position is removed from the buffer. -/
theorem reject (h : C.Tracks p s buf out) (hc : C.classify buf = .reject) :
    C.Tracks p s buf.tail out := by
  have hne : buf ≠ [] := by
    rintro rfl
    rw [C.nil_undecided] at hc
    cases hc
  constructor
  · intro v
    have hv := C.classify_append_of_decided v hc (by simp)
    rw [h.blocks_eq, C.blocks_reject hv, List.tail_append_of_ne_nil hne]
  · intro v
    have hv := C.classify_append_of_decided v hc (by simp)
    rw [h.pending_eq, pending_reject hv, List.tail_append_of_ne_nil hne]

/-- Dead symbols at the front of the buffer are thrown away. -/
theorem dropDead (h : C.Tracks p s buf out) (hp : C.Dead p) {n : ℕ}
    (hd : ∀ x ∈ buf.take n, p x = true) : C.Tracks p s (buf.drop n) out := by
  constructor
  · intro v
    rw [h.blocks_eq]
    conv_lhs => rw [← List.take_append_drop n buf, List.append_assoc]
    rw [blocks_dead_append hp hd]
  · intro v
    rw [h.pending_eq]
    conv_lhs => rw [← List.take_append_drop n buf, List.append_assoc]
    rw [pending_dead_append hp hd]

/-- A receiver that waits for more input has passed on every block of the stream. -/
theorem blocks_eq_of_undecided (h : C.Tracks p s buf out) (hc : C.classify buf = .undecided) :
    C.blocks s = out := by
  have := h.blocks_eq []
  rwa [List.append_nil, List.append_nil, C.blocks_undecided hc, List.append_nil] at this

/-- What is pending in the stream is pending in the buffer. -/
theorem pending_eq_pending (h : C.Tracks p s buf out) : C.pending p s = C.pending p buf := by
  simpa using h.pending_eq []

end Tracks

end Classifier

end StreamScanner
