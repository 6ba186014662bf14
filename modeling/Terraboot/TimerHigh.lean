import Terraboot.Frame
import Terraboot.WrapClock

/-!
# A 16-Bit Timer Extended to 32 Bits

`stm32/stm32f0_timer.c` on chips that have the 16-bit timer `TIM3` only: a compare interrupt advances
`timer_high` whenever half a round of the counter has passed, and `timer_read_time` puts the two
together. The interrupt handler is cut at its stores, and `timer_read_time` at its two reads. Ticks,
the handler's steps and calls of `timer_read_time`, one inside the other, come in any order.

## Main results

* `Tim3.Inv.run`: in every run `timer_high` is never ahead of the time, and the next compare is half
  a round behind it.
* `Tim3.run_prompt`: if the interrupts are serviced in time, it is less than a round behind.
* `timer_reads_true`: what a call returns, and that calls do not go backwards.
-/

open WrapClock

namespace Terraboot

/-- `timer_read_time`, from the two values that it reads. -/
def timerReadTime (th : Word) (cur : BitVec 16) : Word := (th ^^^ cur.setWidth 32) + (th &&& 0xffff)

/-- Where `TIMx_IRQHandler` stands: not running, or before one of the two stores of `timer_set`. -/
inductive TimerPc
  | idle
  | setCcr1
  | clearSr
  deriving DecidableEq

/-- A call of `timer_read_time` that has read `timer_high`, with the number of times that this had
been advanced. -/
structure TimerCall where
  th : Word
  halves : ℕ
  deriving DecidableEq

/-- A call that has returned: when the counter was sampled, with the number of times that the
`timer_high` it read had been advanced. -/
structure TimerRead where
  value : Word
  sampled : ℕ
  halves : ℕ
  deriving DecidableEq

/-- The timer and `timer_high`. The counter shows the low bits of the true time, which is the number
of ticks since `timer_setup`. History are the number of times that `timer_high` has been advanced,
the time at which the pending compare was reached, and the calls. -/
structure Tim3 where
  time : ℕ
  ccr1 : BitVec 16
  pending : Bool
  timerHigh : Word
  pc : TimerPc
  halves : ℕ
  reached : ℕ
  calls : List TimerCall
  reads : List TimerRead
  deriving DecidableEq

/-- The register `CNT`. -/
def Tim3.cnt (s : Tim3) : BitVec 16 := counter 16 s.time

/-- `timer_setup` -/
def Tim3.setup : Tim3 where
  time := 0
  ccr1 := 0x8000
  pending := false
  timerHigh := 0
  pc := .idle
  halves := 0
  reached := 0
  calls := []
  reads := []

/-- The counter advances, and is compared. -/
def Tim3.tick (s : Tim3) : Tim3 :=
  let s := { s with time := s.time + 1 }
  if s.cnt = s.ccr1 ∧ s.pending = false then { s with pending := true, reached := s.time } else s

/-- One step of `TIMx_IRQHandler`. -/
def timIrqHandler (s : Tim3) : Tim3 :=
  match s.pc with
  | .idle =>
      if s.pending then
        { s with timerHigh := s.timerHigh + 0x8000, halves := s.halves + 1, pc := .setCcr1 }
      else s
  -- `timer_set`
  | .setCcr1 => { s with ccr1 := (s.timerHigh + 0x8000).setWidth 16, pc := .clearSr }
  | .clearSr => { s with pending := false, pc := .idle }

/-- What happens next: a tick, a step of the handler, or a step of a call of `timer_read_time`. A call
that interrupts another one returns before it. -/
inductive TimerEvent
  | tick
  | irq
  | readHigh
  | sample
  deriving DecidableEq

/-- One event. -/
def Tim3.step (s : Tim3) : TimerEvent → Tim3
  | .tick => s.tick
  | .irq => timIrqHandler s
  | .readHigh => { s with calls := ⟨s.timerHigh, s.halves⟩ :: s.calls }
  | .sample =>
      match s.calls with
      | [] => s
      | c :: calls =>
          { s with
            calls := calls
            reads := s.reads ++ [⟨timerReadTime c.th s.cnt, s.time, c.halves⟩] }

/-- A run. -/
def Tim3.run (s : Tim3) (events : List TimerEvent) : Tim3 := events.foldl Tim3.step s

/-- The time when `timer_high` has been advanced some number of times. -/
def halfTicks (halves : ℕ) : ℕ := 0x8000 * halves

/-- A compare that is pending has been reached less than `0x8000` ticks ago. -/
def Tim3.Prompt (s : Tim3) : Prop := s.pending = true → s.time < s.reached + 0x8000

instance (s : Tim3) : Decidable s.Prompt := inferInstanceAs (Decidable (_ → _))

/-- Every interrupt of a run is serviced less than `0x8000` ticks after its compare is reached. -/
def Tim3.AllPrompt (s : Tim3) : List TimerEvent → Prop
  | [] => s.Prompt
  | e :: events => s.Prompt ∧ (s.step e).AllPrompt events

/-- The time in `timer_high` is less than a round ago. -/
def Tim3.Close (s : Tim3) : Prop := s.time < halfTicks s.halves + 0x10000

/-- The counter was sampled less than a round after the time in the `timer_high` that was read. -/
def TimerRead.InTime (r : TimerRead) : Prop := r.sampled < halfTicks r.halves + 0x10000

instance (r : TimerRead) : Decidable r.InTime := inferInstanceAs (Decidable (_ < _))

/-- What a call returns. -/
def TimerRead.Exact (r : TimerRead) : Prop := r.value = counter 32 r.sampled

/-! ### Putting the two parts together -/

/-- The call gets the right time if `timer_high` is not ahead and less than a round behind. -/
theorem timerReadTime_eq {h t : ℕ} (hle : halfTicks h ≤ t) (hlt : t < halfTicks h + 0x10000) :
    timerReadTime (counter 32 (halfTicks h)) (counter 16 t) = counter 32 t := by
  have hcur : (counter 16 t).setWidth 32 = counter 32 (t % 2 ^ 16) := by
    refine BitVec.eq_of_toNat_eq ?_
    rw [counter, counter, BitVec.toNat_setWidth, BitVec.toNat_ofNat, BitVec.toNat_ofNat]
  rw [timerReadTime, hcur]
  exact counter_halves (n := 15) hle hlt

theorem halfTicks_succ (h : ℕ) : halfTicks (h + 1) = halfTicks h + 0x8000 := Nat.mul_succ _ _

theorem counter_half (h : ℕ) :
    counter 32 (halfTicks h) + 0x8000 = counter 32 (halfTicks (h + 1)) := by
  rw [halfTicks_succ, counter_add]
  rfl

/-- The counter matches one number of halves only once in a round. -/
theorem counter_eq_half {t h : ℕ} (heq : counter 16 t = counter 16 (halfTicks h)) :
    t % 0x10000 = halfTicks h % 0x10000 := by
  have hnat := congrArg BitVec.toNat heq
  rwa [counter, counter, BitVec.toNat_ofNat, BitVec.toNat_ofNat] at hnat

/-! ### Every run -/

/-- The time that `timer_high` holds is not ahead, and the next compare is half a round behind it;
likewise for the calls that have read it. The calls that have returned did so in order, and with the
right time if `timer_high` was less than a round behind. -/
structure Tim3.Inv (s : Tim3) : Prop where
  high : s.timerHigh = counter 32 (halfTicks s.halves)
  past : halfTicks s.halves ≤ s.time
  compare : s.pc ≠ .setCcr1 → s.ccr1 = counter 16 (halfTicks (s.halves + 1))
  reached : s.pc = .idle → s.pending = true → halfTicks (s.halves + 1) ≤ s.time
  calls : ∀ c ∈ s.calls, c.th = counter 32 (halfTicks c.halves) ∧ halfTicks c.halves ≤ s.time
  reads : ∀ r ∈ s.reads, r.sampled ≤ s.time ∧ (r.InTime → r.Exact)
  ordered : s.reads.Pairwise fun r r' => r.sampled ≤ r'.sampled

theorem Tim3.setup_inv : Tim3.setup.Inv where
  high := rfl
  past := Nat.zero_le _
  compare _ := rfl
  reached _ h := absurd h nofun
  calls := nofun
  reads := nofun
  ordered := .nil

theorem Tim3.tick_inv {s : Tim3} (h : s.Inv) : s.tick.Inv := by
  have hcalls : ∀ c ∈ s.calls, c.th = counter 32 (halfTicks c.halves) ∧
      halfTicks c.halves ≤ s.time + 1 := fun c hc =>
    ⟨(h.calls c hc).1, (h.calls c hc).2.trans (Nat.le_succ _)⟩
  have hreads : ∀ r ∈ s.reads, r.sampled ≤ s.time + 1 ∧ (r.InTime → r.Exact) := fun r hr =>
    ⟨(h.reads r hr).1.trans (Nat.le_succ _), (h.reads r hr).2⟩
  have hpast := h.past
  rw [tick]
  dsimp only
  split_ifs with hmatch
  · refine ⟨h.high, hpast.trans (Nat.le_succ _), h.compare, fun hpc _ => ?_, hcalls, hreads,
      h.ordered⟩
    have hpc' : s.pc ≠ .setCcr1 := by
      intro hset
      exact absurd (hpc.symm.trans hset) (by decide)
    have hmod := counter_eq_half (hmatch.1.trans (h.compare hpc'))
    dsimp only at hmod ⊢
    rw [halfTicks_succ] at hmod ⊢
    omega
  · exact ⟨h.high, hpast.trans (Nat.le_succ _), h.compare,
      fun hpc hpending => (h.reached hpc hpending).trans (Nat.le_succ _), hcalls, hreads, h.ordered⟩

theorem timIrqHandler_inv {s : Tim3} (h : s.Inv) : (timIrqHandler s).Inv := by
  rw [timIrqHandler]
  cases hpc : s.pc with
  | idle =>
      dsimp only
      split_ifs with hpending
      · refine ⟨?_, h.reached hpc hpending, fun hne => absurd rfl hne, nofun, h.calls, h.reads,
          h.ordered⟩
        rw [h.high, counter_half]
      · exact h
  | setCcr1 =>
      dsimp only
      refine ⟨h.high, h.past, fun _ => ?_, nofun, h.calls, h.reads, h.ordered⟩
      dsimp only
      rw [h.high, counter_half]
      exact BitVec.setWidth_ofNat_of_le (by decide) _
  | clearSr =>
      have hcompare := h.compare (by rw [hpc]; decide)
      exact ⟨h.high, h.past, fun _ => hcompare, fun _ => nofun, h.calls, h.reads, h.ordered⟩

/-- The second read of a call. -/
theorem Tim3.sample_inv {s : Tim3} (h : s.Inv) : (s.step .sample).Inv := by
  rw [step]
  cases hcalls : s.calls with
  | nil => exact h
  | cons c calls =>
      have hall := h.calls
      rw [hcalls, List.forall_mem_cons] at hall
      obtain ⟨⟨hth, hle⟩, hrest⟩ := hall
      refine ⟨h.high, h.past, h.compare, h.reached, hrest, ?_, ?_⟩
      · intro r hr
        rcases List.mem_append.mp hr with hr | hr
        · exact h.reads r hr
        · obtain rfl := List.mem_singleton.mp hr
          refine ⟨le_rfl, fun hlt => ?_⟩
          rw [TimerRead.Exact, hth]
          exact timerReadTime_eq hle hlt
      · refine List.pairwise_append.mpr
          ⟨h.ordered, List.pairwise_singleton _ _, fun r hr r' hr' => ?_⟩
        obtain rfl := List.mem_singleton.mp hr'
        exact (h.reads r hr).1

/-- **In every run** `timer_high` is never ahead of the time. -/
theorem Tim3.Inv.run {s : Tim3} (h : s.Inv) (events : List TimerEvent) : (s.run events).Inv := by
  induction events generalizing s with
  | nil => exact h
  | cons e events ih =>
      refine ih ?_
      cases e with
      | tick => exact tick_inv h
      | irq => exact timIrqHandler_inv h
      | readHigh =>
          refine ⟨h.high, h.past, h.compare, h.reached, ?_, h.reads, h.ordered⟩
          exact List.forall_mem_cons.mpr ⟨⟨h.high, h.past⟩, h.calls⟩
      | sample => exact sample_inv h

/-! ### Runs in which the interrupts are serviced in time -/

/-- A compare is reached exactly half a round after the last one, and the handler is done with it
before the next one. -/
structure Tim3.OnTime (s : Tim3) : Prop where
  waiting : s.pc = .idle → s.pending = false → s.time < halfTicks (s.halves + 1)
  pending : s.pc = .idle → s.pending = true → s.reached = halfTicks (s.halves + 1)
  handled : s.pc ≠ .idle → s.pending = true ∧ s.reached = halfTicks s.halves

theorem Tim3.setup_onTime : Tim3.setup.OnTime where
  waiting _ _ := by decide
  pending _ h := absurd h nofun
  handled h := absurd rfl h

theorem Tim3.tick_onTime {s : Tim3} (hinv : s.Inv) (h : s.OnTime) : s.tick.OnTime := by
  have hpast := hinv.past
  rw [tick]
  dsimp only
  split_ifs with hmatch
  · obtain ⟨hcnt, hidle⟩ := hmatch
    have hpc : s.pc = .idle := by
      by_contra hpc
      exact absurd (hidle.symm.trans (h.handled hpc).1) nofun
    have hwaiting := h.waiting hpc hidle
    have hmod := counter_eq_half (hcnt.trans (hinv.compare (by rw [hpc]; decide)))
    refine ⟨fun _ => nofun, fun _ _ => ?_, fun hne => absurd hpc hne⟩
    dsimp only at hmod ⊢
    rw [halfTicks_succ] at hwaiting hmod ⊢
    omega
  · refine ⟨fun hpc hidle => ?_, h.pending, h.handled⟩
    have hwaiting := h.waiting hpc hidle
    have hcompare := hinv.compare (by rw [hpc]; decide)
    have hne : s.time + 1 ≠ halfTicks (s.halves + 1) := by
      intro heq
      refine hmatch ⟨?_, hidle⟩
      rw [hcompare, ← heq]
      rfl
    dsimp only
    omega

theorem timIrqHandler_onTime {s : Tim3} (hprompt : s.Prompt) (h : s.OnTime) :
    (timIrqHandler s).OnTime := by
  rw [timIrqHandler]
  cases hpc : s.pc with
  | idle =>
      dsimp only
      split_ifs with hpending
      · exact ⟨nofun, nofun, fun _ => ⟨hpending, h.pending hpc hpending⟩⟩
      · exact h
  | setCcr1 =>
      dsimp only
      exact ⟨nofun, nofun, fun _ => h.handled (by rw [hpc]; decide)⟩
  | clearSr =>
      obtain ⟨hpending, hreached⟩ := h.handled (by rw [hpc]; decide)
      have hin := hprompt hpending
      refine ⟨fun _ _ => ?_, fun _ => nofun, fun hne => absurd rfl hne⟩
      dsimp only
      rw [halfTicks_succ]
      omega

theorem Tim3.step_onTime {s : Tim3} (hinv : s.Inv) (hprompt : s.Prompt) (h : s.OnTime)
    (e : TimerEvent) : (s.step e).OnTime := by
  cases e with
  | tick => exact tick_onTime hinv h
  | irq => exact timIrqHandler_onTime hprompt h
  | readHigh => exact ⟨h.waiting, h.pending, h.handled⟩
  | sample =>
      rw [step]
      cases s.calls with
      | nil => exact h
      | cons c calls => exact ⟨h.waiting, h.pending, h.handled⟩

theorem Tim3.OnTime.close {s : Tim3} (h : s.OnTime) (hprompt : s.Prompt) : s.Close := by
  have hnext := halfTicks_succ s.halves
  rw [Close]
  by_cases hpc : s.pc = .idle
  · cases hpending : s.pending with
    | false =>
        have hwaiting := h.waiting hpc hpending
        omega
    | true =>
        have hreached := h.pending hpc hpending
        have hlast := hprompt hpending
        omega
  · obtain ⟨hpending, hreached⟩ := h.handled hpc
    have hlast := hprompt hpending
    omega

/-- **If the interrupts are serviced in time**, `timer_high` is less than a round behind. -/
theorem Tim3.run_prompt {s : Tim3} (hinv : s.Inv) (h : s.OnTime) {events : List TimerEvent}
    (hprompt : s.AllPrompt events) : (s.run events).Close := by
  induction events generalizing s with
  | nil => exact h.close hprompt
  | cons e events ih =>
      obtain ⟨hin, hrest⟩ := hprompt
      exact ih (hinv.run [e]) (step_onTime hinv hin h e) hrest

/-! ### The calls -/

/-- What two exact calls tell about the time between them. -/
theorem TimerRead.Exact.sub {r r' : TimerRead} (h : r.Exact) (h' : r'.Exact)
    (hle : r.sampled ≤ r'.sampled) : r'.value - r.value = counter 32 (r'.sampled - r.sampled) := by
  obtain ⟨elapsed, hlater⟩ := Nat.exists_eq_add_of_le hle
  rw [h, h', hlater, counter_add, add_sub_cancel_left, Nat.add_sub_cancel_left]

/-- The earlier call is not the later one, if they are less than half the range apart. -/
theorem TimerRead.Exact.not_before {r r' : TimerRead} (h : r.Exact) (h' : r'.Exact)
    (hle : r.sampled ≤ r'.sampled) (hnear : r'.sampled - r.sampled < 2 ^ 31) :
    before r'.value r.value = false := by
  rw [← Bool.not_eq_true, before_iff, h.sub h' hle, counter, BitVec.toNat_ofNat,
    Nat.mod_eq_of_lt (by omega)]
  omega

/-- **What `timer_read_time` returns**: in every run, every call that samples the counter less than a
round after the time in the `timer_high` that it read returns the true time, so such calls do not go
backwards. If the interrupts are serviced in time, that time is always less than a round ago. -/
theorem timer_reads_true (events : List TimerEvent) :
    let s := Tim3.setup.run events
    (∀ r ∈ s.reads, r.InTime → r.value = counter 32 r.sampled) ∧
      (s.reads.Pairwise fun r r' => r.InTime → r'.InTime → r.sampled ≤ r'.sampled ∧
        r'.value - r.value = counter 32 (r'.sampled - r.sampled) ∧
        (r'.sampled - r.sampled < 2 ^ 31 → before r'.value r.value = false)) ∧
      (Tim3.setup.AllPrompt events → s.Close) := by
  intro s
  have hinv : s.Inv := Tim3.setup_inv.run events
  refine ⟨fun r hr => (hinv.reads r hr).2, ?_, Tim3.run_prompt Tim3.setup_inv Tim3.setup_onTime⟩
  refine hinv.ordered.imp_of_mem fun {r r'} hr hr' hle hin hin' => ?_
  have hexact := (hinv.reads r hr).2 hin
  have hexact' := (hinv.reads r' hr').2 hin'
  exact ⟨hle, hexact.sub hexact' hle, hexact.not_before hexact' hle⟩

/-- Two calls soon after the start. -/
def twoCalls : List TimerEvent := [.tick, .readHigh, .tick, .sample, .readHigh, .sample]

theorem timer_reads_true_twice :
    (∀ r ∈ (Tim3.setup.run twoCalls).reads, r.value = counter 32 r.sampled) ∧
      ((Tim3.setup.run twoCalls).reads.Pairwise fun r r' => before r'.value r.value = false) ∧
      (Tim3.setup.run twoCalls).Close := by
  obtain ⟨hexact, hordered, hclose⟩ := timer_reads_true twoCalls
  have hin : ∀ r ∈ (Tim3.setup.run twoCalls).reads, r.InTime := by decide
  have hnear : ∀ r ∈ (Tim3.setup.run twoCalls).reads, r.sampled < 2 ^ 31 := by decide
  have hprompt : Tim3.setup.AllPrompt twoCalls :=
    ⟨nofun, nofun, nofun, nofun, nofun, nofun, nofun⟩
  refine ⟨fun r hr => hexact r hr (hin r hr), ?_, hclose hprompt⟩
  refine hordered.imp_of_mem fun {r r'} hr hr' hpair => ?_
  have hlt := hnear r' hr'
  exact (hpair (hin r hr) (hin r' hr')).2.2 (by omega)

end Terraboot
