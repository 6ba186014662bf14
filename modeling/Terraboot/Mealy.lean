import Mathlib.Data.BitVec
import Mathlib.Tactic.Basic

/-!
# Machines That Answer

A deterministic machine answers every input, and part of its state can be looked at. Two states
are indistinguishable if no sequence of inputs shows a difference, in the answers or in the view
of the state at the end.

## Main results

* `Mealy.indist_of_bisim`: states related by a bisimulation are indistinguishable.
* `Mealy.Indist.map`: states of a machine that another one runs on are no easier to tell apart
  there.
* `Mealy.Indist.count_eq`: a counter that can be stepped and whose zero can be seen is the same
  in indistinguishable states.
-/

/-- States `σ`, inputs `ι`, answers `ο`, and what is seen of a state `ω`. -/
structure Mealy (σ ι ο ω : Type*) where
  step : σ → ι → σ
  output : σ → ι → ο
  view : σ → ω

namespace Mealy

variable {σ ι ο ω σ' ι' ο' : Type*}

/-- The state after a sequence of inputs. -/
def after (M : Mealy σ ι ο ω) (s : σ) (w : List ι) : σ := w.foldl M.step s

/-- The answers to a sequence of inputs. -/
def outputs (M : Mealy σ ι ο ω) : σ → List ι → List ο
  | _, [] => []
  | s, i :: w => M.output s i :: M.outputs (M.step s i) w

/-- No sequence of inputs tells the two states apart. -/
def Indist (M : Mealy σ ι ο ω) (s t : σ) : Prop :=
  ∀ w, M.outputs s w = M.outputs t w ∧ M.view (M.after s w) = M.view (M.after t w)

variable {M : Mealy σ ι ο ω} {s t : σ}

theorem Indist.view (h : M.Indist s t) : M.view s = M.view t := (h []).2

theorem Indist.output (h : M.Indist s t) (i : ι) : M.output s i = M.output t i :=
  (List.cons.inj (h [i]).1).1

theorem Indist.step (h : M.Indist s t) (i : ι) : M.Indist (M.step s i) (M.step t i) :=
  fun w => ⟨(List.cons.inj (h (i :: w)).1).2, (h (i :: w)).2⟩

theorem Indist.after (h : M.Indist s t) (w : List ι) : M.Indist (M.after s w) (M.after t w) := by
  induction w generalizing s t with
  | nil => exact h
  | cons i w ih => exact ih (h.step i)

theorem Indist.symm (h : M.Indist s t) : M.Indist t s := fun w => ⟨(h w).1.symm, (h w).2.symm⟩

/-- What every input keeps holds after any inputs. -/
theorem after_invariant {P : σ → Prop} (hstep : ∀ s i, P s → P (M.step s i)) (hs : P s)
    (w : List ι) : P (M.after s w) := by
  induction w generalizing s with
  | nil => exact hs
  | cons i w ih => exact ih (hstep s i hs)

/-- One input at a time. -/
theorem indist_cons_iff (i : ι) :
    (∀ w, M.outputs s (i :: w) = M.outputs t (i :: w) ∧
        M.view (M.after s (i :: w)) = M.view (M.after t (i :: w))) ↔
      M.output s i = M.output t i ∧ M.Indist (M.step s i) (M.step t i) := by
  constructor
  · intro h
    exact ⟨(List.cons.inj (h []).1).1, fun w => ⟨(List.cons.inj (h w).1).2, (h w).2⟩⟩
  · rintro ⟨hout, hstep⟩ w
    exact ⟨congrArg₂ List.cons hout (hstep w).1, (hstep w).2⟩

/-- **States related by a bisimulation** are indistinguishable. -/
theorem indist_of_bisim {R : σ → σ → Prop} (hview : ∀ s t, R s t → M.view s = M.view t)
    (houtput : ∀ s t i, R s t → M.output s i = M.output t i)
    (hstep : ∀ s t i, R s t → R (M.step s i) (M.step t i)) (h : R s t) : M.Indist s t := by
  intro w
  induction w generalizing s t with
  | nil => exact ⟨rfl, hview s t h⟩
  | cons i w ih =>
      obtain ⟨hout, hend⟩ := ih (hstep s t i h)
      exact ⟨congrArg₂ List.cons (houtput s t i h) hout, hend⟩

/-- **A machine that another one runs on**: if each of its inputs can be given to it through the
other one, and the answer read off that one's, then indistinguishable states of the other are
indistinguishable in it. -/
theorem Indist.map {N : Mealy σ' ι' ο' ω} (f : σ → σ') (hview : ∀ s, N.view (f s) = M.view s)
    (hinput : ∀ i', ∃ (i : ι) (g : ο → ο'), ∀ s,
      f (M.step s i) = N.step (f s) i' ∧ N.output (f s) i' = g (M.output s i))
    (h : M.Indist s t) : N.Indist (f s) (f t) := by
  refine indist_of_bisim (R := fun x y => ∃ s t, M.Indist s t ∧ x = f s ∧ y = f t) ?_ ?_ ?_
    ⟨s, t, h, rfl, rfl⟩
  · rintro _ _ ⟨s, t, h, rfl, rfl⟩
    rw [hview, hview, h.view]
  · rintro _ _ i' ⟨s, t, h, rfl, rfl⟩
    obtain ⟨i, g, hi⟩ := hinput i'
    rw [(hi s).2, (hi t).2, h.output]
  · rintro _ _ i' ⟨s, t, h, rfl, rfl⟩
    obtain ⟨i, g, hi⟩ := hinput i'
    exact ⟨_, _, h.step i, (hi s).1.symm, (hi t).1.symm⟩

/-- **Counters.** Where indistinguishable states can be taken to indistinguishable states in which
both counters have moved on by one, a counter that runs through zero sooner or later, and a zero
can be seen, the counters agree. -/
theorem Indist.count_eq {C : Type*} [AddCommGroup C] {one : C}
    (hcycle : ∀ c : C, ∃ k : ℕ, c + k • one = 0) (count : σ → C) {P : σ → σ → Prop}
    (hzero : ∀ s t, P s t → M.Indist s t → count s = 0 → count t = 0)
    (hmove : ∀ s t, P s t → M.Indist s t → ∃ s' t', P s' t' ∧ M.Indist s' t' ∧
      count s' = count s + one ∧ count t' = count t + one)
    (hP : P s t) (h : M.Indist s t) : count s = count t := by
  have hreach : ∀ (k : ℕ) (s t : σ), P s t → M.Indist s t →
      count s + k • one = 0 → count t + k • one = 0 := by
    intro k
    induction k with
    | zero =>
        intro s t hP h hs
        rw [zero_nsmul, add_zero] at hs ⊢
        exact hzero s t hP h hs
    | succ k ih =>
        intro s t hP h hs
        obtain ⟨s', t', hP', h', hs', ht'⟩ := hmove s t hP h
        rw [succ_nsmul', ← add_assoc] at hs ⊢
        rw [← hs'] at hs
        rw [← ht']
        exact ih s' t' hP' h' hs
  obtain ⟨k, hk⟩ := hcycle (count s)
  exact add_right_cancel (hk.trans (hreach k s t hP h hk).symm)

/-- A machine word runs through zero. -/
theorem exists_add_nsmul_one_eq_zero {n : ℕ} (c : BitVec n) :
    ∃ k : ℕ, c + k • (1 : BitVec n) = 0 := by
  refine ⟨(-c).toNat, ?_⟩
  rw [nsmul_one, BitVec.natCast_eq_ofNat, BitVec.ofNat_toNat, BitVec.setWidth_eq, add_neg_cancel]

end Mealy
