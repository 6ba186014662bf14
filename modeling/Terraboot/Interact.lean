import Mathlib.Logic.Relation
import Mathlib.Tactic.Basic

/-!
# Programs in an Environment

A sequential program that performs operations in a world which also moves on its own. The answer
to an operation, and the steps the world takes in between, are not determined. A triple
says what holds when the program returns, whatever the world does; an assertion can be kept only
if the steps of the world keep it.

## Main results

* `Prog.Triple.op`: one operation from a stable assertion.
* `Prog.Triple.bind`, `Prog.Triple.tryCatch`: programs in sequence, and with a handler.
* `Prog.Run.map`: the runs of a program in a world that another one abstracts from.
-/

universe u v w x y

/-- A program: it returns, raises, or performs an operation and goes on with the answer. -/
inductive Prog (Op : Type u) (Ans : Op → Type v) (ε : Type w) (α : Type x)
  | ret (a : α)
  | raise (e : ε)
  | op (o : Op) (k : Ans o → Prog Op Ans ε α)

/-- What a program runs in: the steps it takes on its own, and what an operation may be answered
and leave behind. -/
structure World (σ : Type y) (Op : Type u) (Ans : Op → Type v) where
  step : σ → σ → Prop
  perform : (o : Op) → σ → Ans o → σ → Prop

namespace Prog

variable {σ : Type y} {Op : Type u} {Ans : Op → Type v} {ε : Type w} {α β : Type x}

/-- One program after the other. -/
def bind : Prog Op Ans ε α → (α → Prog Op Ans ε β) → Prog Op Ans ε β
  | ret a, k => k a
  | raise e, _ => raise e
  | op o p, k => op o fun ans => (p ans).bind k

/-- A program with a handler for what it raises. -/
def tryCatch : Prog Op Ans ε α → (ε → Prog Op Ans ε α) → Prog Op Ans ε α
  | ret a, _ => ret a
  | raise e, h => h e
  | op o p, h => op o fun ans => (p ans).tryCatch h

/-- A run: the program and the world take steps in any order. -/
inductive Run (W : World σ Op Ans) : Prog Op Ans ε α → σ → Prog Op Ans ε α → σ → Prop
  | refl (p : Prog Op Ans ε α) (s : σ) : Run W p s p s
  | world {p q : Prog Op Ans ε α} {s s' t : σ} (h : W.step s s') (hrun : Run W p s' q t) :
      Run W p s q t
  | op {o : Op} {k : Ans o → Prog Op Ans ε α} {q : Prog Op Ans ε α} {s s' t : σ} {a : Ans o}
      (h : W.perform o s a s') (hrun : Run W (k a) s' q t) : Run W (op o k) s q t

/-- Steps of the world keep the assertion. -/
def Stable (W : World σ Op Ans) (P : σ → Prop) : Prop := ∀ s s', P s → W.step s s' → P s'

/-- Whenever the program, started where `P` holds, has returned, `Q` holds. -/
def Triple (W : World σ Op Ans) (P : σ → Prop) (p : Prog Op Ans ε α) (Q : α → σ → Prop) : Prop :=
  ∀ s a t, P s → Run W p s (ret a) t → Q a t

variable {W : World σ Op Ans} {P P' : σ → Prop} {Q Q' : α → σ → Prop} {R : β → σ → Prop}

/-! ### Runs of composed programs -/

theorem Run.of_bind {p : Prog Op Ans ε α} {k : α → Prog Op Ans ε β} {b : β} {s t : σ}
    (h : Run W (p.bind k) s (ret b) t) :
    ∃ a u, Run W p s (ret a) u ∧ Run W (k a) u (ret b) t := by
  generalize hq : p.bind k = q at h
  generalize hr : (ret b : Prog Op Ans ε β) = r at h
  induction h generalizing p with
  | refl q s =>
      cases p with
      | ret a =>
          subst hr
          have hk : k a = ret b := hq
          exact ⟨a, s, .refl _ s, by rw [hk]; exact .refl _ s⟩
      | raise e =>
          subst hr
          cases hq
      | op o k' =>
          subst hr
          cases hq
  | world h _ ih =>
      obtain ⟨a, u, hp, hk⟩ := ih hq hr
      exact ⟨a, u, .world h hp, hk⟩
  | op h hrun ih =>
      cases p with
      | ret a =>
          subst hr
          have hk : k a = _ := hq
          exact ⟨a, _, .refl _ _, by rw [hk]; exact .op h hrun⟩
      | raise e => cases hq
      | op o k' =>
          cases hq
          obtain ⟨a, u, hp, hk⟩ := ih rfl hr
          exact ⟨a, u, .op h hp, hk⟩

theorem Run.of_tryCatch {p : Prog Op Ans ε α} {k : ε → Prog Op Ans ε α} {a : α} {s t : σ}
    (h : Run W (p.tryCatch k) s (ret a) t) :
    Run W p s (ret a) t ∨ ∃ e u, Run W p s (raise e) u ∧ Run W (k e) u (ret a) t := by
  generalize hq : p.tryCatch k = q at h
  generalize hr : (ret a : Prog Op Ans ε α) = r at h
  induction h generalizing p with
  | refl q s =>
      cases p with
      | ret a' =>
          subst hr
          cases hq
          exact .inl (.refl _ s)
      | raise e =>
          subst hr
          have hk : k e = ret a := hq
          exact .inr ⟨e, s, .refl _ s, by rw [hk]; exact .refl _ s⟩
      | op o k' =>
          subst hr
          cases hq
  | world h _ ih =>
      rcases ih hq hr with hp | ⟨e, u, hp, hk⟩
      · exact .inl (.world h hp)
      · exact .inr ⟨e, u, .world h hp, hk⟩
  | op h hrun ih =>
      cases p with
      | ret a' => cases hq
      | raise e =>
          subst hr
          have hk : k e = _ := hq
          exact .inr ⟨e, _, .refl _ _, by rw [hk]; exact .op h hrun⟩
      | op o k' =>
          cases hq
          rcases ih rfl hr with hp | ⟨e, u, hp, hk⟩
          · exact .inl (.op h hp)
          · exact .inr ⟨e, u, .op h hp, hk⟩

theorem Run.trans {p q r : Prog Op Ans ε α} {s t u : σ} (h : Run W p s q t)
    (h' : Run W q t r u) : Run W p s r u := by
  induction h with
  | refl p s => exact h'
  | world hstep _ ih => exact .world hstep (ih h')
  | op hop _ ih => exact .op hop (ih h')

/-- The world moves first. -/
theorem Run.worlds {p q : Prog Op Ans ε α} {s t u : σ} (h : Relation.ReflTransGen W.step s t)
    (hrun : Run W p t q u) : Run W p s q u := by
  induction h using Relation.ReflTransGen.head_induction_on with
  | refl => exact hrun
  | head hstep _ ih => exact .world hstep ih

/-- What the first of two programs does. -/
theorem Run.bind {p q : Prog Op Ans ε α} {s t : σ} (h : Run W p s q t)
    (k : α → Prog Op Ans ε β) : Run W (p.bind k) s (q.bind k) t := by
  induction h with
  | refl p s => exact .refl _ s
  | world hstep _ ih => exact .world hstep ih
  | op hop _ ih => exact .op hop ih

/-- What a program does within a handler. -/
theorem Run.tryCatch {p q : Prog Op Ans ε α} {s t : σ} (h : Run W p s q t)
    (k : ε → Prog Op Ans ε α) : Run W (p.tryCatch k) s (q.tryCatch k) t := by
  induction h with
  | refl p s => exact .refl _ s
  | world hstep _ ih => exact .world hstep ih
  | op hop _ ih => exact .op hop ih

/-- **Abstraction**: if every step of a world is one of another world or nothing there, and every
answer to an operation is one there, then programs run there as well. -/
theorem Run.map {τ : Type*} {V : World τ Op Ans} (f : σ → τ)
    (hstep : ∀ s s', W.step s s' → f s' = f s ∨ V.step (f s) (f s'))
    (hperform : ∀ o s a s', W.perform o s a s' → V.perform o (f s) a (f s'))
    {p q : Prog Op Ans ε α} {s t : σ} (h : Run W p s q t) : Run V p (f s) q (f t) := by
  induction h with
  | refl p s => exact .refl p (f s)
  | world h _ ih =>
      rcases hstep _ _ h with heq | hV
      · rwa [← heq]
      · exact .world hV ih
  | op h _ ih => exact .op (hperform _ _ _ _ h) ih

/-! ### Rules -/

theorem Triple.conseq {p : Prog Op Ans ε α} (h : Triple W P p Q) (hpre : ∀ s, P' s → P s)
    (hpost : ∀ a s, Q a s → Q' a s) : Triple W P' p Q' :=
  fun s a t hs hrun => hpost a t (h s a t (hpre s hs) hrun)

/-- What is stable still holds when a program that does nothing has returned. -/
theorem Triple.ret (hP : Stable W P) (a : α) :
    Triple W P (ret a : Prog Op Ans ε α) fun b s => b = a ∧ P s := by
  intro s b t hs hrun
  generalize hp : (Prog.ret a : Prog Op Ans ε α) = p at hrun
  generalize hq : (Prog.ret b : Prog Op Ans ε α) = q at hrun
  induction hrun with
  | refl p s =>
      subst hp
      cases hq
      exact ⟨rfl, hs⟩
  | world h _ ih => exact ih (hP _ _ hs h) hp hq
  | op h _ _ => cases hp

theorem Triple.raise (e : ε) : Triple W P (raise e : Prog Op Ans ε α) Q := by
  rintro s b t - hrun
  generalize hp : (Prog.raise e : Prog Op Ans ε α) = p at hrun
  generalize hq : (Prog.ret b : Prog Op Ans ε α) = q at hrun
  induction hrun with
  | refl p s =>
      subst hp
      cases hq
  | world _ _ ih => exact ih hp hq
  | op _ _ _ => cases hp

/-- **One operation**: the steps of the world before it keep the assertion. -/
theorem Triple.op {o : Op} {k : Ans o → Prog Op Ans ε α} {M : Ans o → σ → Prop}
    (hP : Stable W P) (ho : ∀ s a s', P s → W.perform o s a s' → M a s')
    (hk : ∀ a, Triple W (M a) (k a) Q) : Triple W P (op o k) Q := by
  intro s b t hs hrun
  generalize hp : (Prog.op o k : Prog Op Ans ε α) = p at hrun
  generalize hq : (Prog.ret b : Prog Op Ans ε α) = q at hrun
  induction hrun with
  | refl p s =>
      subst hp
      cases hq
  | world h _ ih => exact ih (hP _ _ hs h) hp hq
  | op h hrun _ =>
      cases hp
      subst hq
      exact hk _ _ _ _ (ho _ _ _ hs h) hrun

/-- **Programs in sequence**. -/
theorem Triple.bind {p : Prog Op Ans ε α} {k : α → Prog Op Ans ε β} (hp : Triple W P p Q)
    (hk : ∀ a, Triple W (Q a) (k a) R) : Triple W P (p.bind k) R := by
  intro s b t hs hrun
  obtain ⟨a, u, hfirst, hrest⟩ := hrun.of_bind
  exact hk a u b t (hp s a u hs hfirst) hrest

/-- **A program whose errors are handled**, without a word on where it raises. -/
theorem Triple.tryCatch {p : Prog Op Ans ε α} {k : ε → Prog Op Ans ε α} (hp : Triple W P p Q)
    (hk : ∀ e, Triple W (fun _ => True) (k e) Q) : Triple W P (p.tryCatch k) Q := by
  intro s a t hs hrun
  rcases hrun.of_tryCatch with h | ⟨e, u, -, h⟩
  · exact hp s a t hs h
  · exact hk e u a t trivial h

end Prog
