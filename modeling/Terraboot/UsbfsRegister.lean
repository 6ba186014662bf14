import Terraboot.Frame

/-!
# The endpoint registers of the stm32 USB device

`USB_EPR` of `stm32/usbfs.c` has three kinds of bits besides those that can only be read: bits that
a write of 1 toggles, bits that are written as they are, and flags that the hardware sets and a
write of 0 clears. `calc_epr_bits` makes, of a value that was read, the value to write so that the
fields named by a mask change and the others do not. Between the read and the write the hardware may
change the register, and an interrupt may update it.

## Main results

* `getLsbD_eprUpdate`: what a bit of the register is after an update.
* `epr_exact`: over every run, the bits that no update names are as the hardware alone leaves them.
-/

namespace Terraboot.Usbfs

/-- `EPR_TBITS`, `EPR_RWBITS` and `EPR_RWCBITS` -/
def eprTbits : Word := 0x7070
def eprRwbits : Word := 0x070f
def eprRwcbits : Word := 0x8080

/-- `calc_epr_bits` -/
def calcEprBits (epr mask value : Word) : Word :=
  let tmask := mask &&& eprTbits
  let tvalue := value &&& tmask
  let rwmask := mask &&& eprRwbits
  let rwbits := value &&& rwmask
  let cbits := eprRwcbits &&& ~~~mask
  ((epr &&& (eprRwbits ||| tmask)) ^^^ tvalue) &&& ~~~rwmask ||| rwbits ||| cbits

/-- A write of the register. -/
def eprWrite (reg x : Word) : Word :=
  (reg ^^^ x) &&& eprTbits ||| x &&& eprRwbits ||| reg &&& x &&& eprRwcbits |||
    reg &&& ~~~(eprTbits ||| eprRwbits ||| eprRwcbits)

/-- The hardware changes the register: it toggles bits and sets flags. -/
def eprHardware (reg toggle set : Word) : Word :=
  reg ^^^ toggle &&& ~~~(eprRwbits ||| eprRwcbits) ||| set &&& eprRwcbits

/-- What happens to a register. A task reads it and writes it later; so does the interrupt. -/
inductive EprEvent
  | hardware (toggle set : Word)
  | read (irq : Bool)
  | write (irq : Bool) (mask value : Word)

/-- The register, and what the task and the interrupt have read. -/
structure Epr where
  reg : Word
  epr : Bool → Word

namespace Epr

def step (s : Epr) : EprEvent → Epr
  | .hardware toggle set => { s with reg := eprHardware s.reg toggle set }
  | .read irq => { s with epr := Function.update s.epr irq s.reg }
  | .write irq mask value => { s with reg := eprWrite s.reg (calcEprBits (s.epr irq) mask value) }

def run (s : Epr) (events : List EprEvent) : Epr := events.foldl step s

/-- A register that has been read by both. -/
def start (reg : Word) : Epr := ⟨reg, fun _ => reg⟩

end Epr

/-- The bits that the updates of a run name. -/
def named : List EprEvent → Word
  | [] => 0
  | .write _ mask _ :: events => mask ||| named events
  | _ :: events => named events

/-- What the hardware alone makes of a register. -/
def hardwareRun (reg : Word) : List EprEvent → Word
  | [] => reg
  | .hardware toggle set :: events => hardwareRun (eprHardware reg toggle set) events
  | _ :: events => hardwareRun reg events

/-! ### Bits -/

/-- The kinds of bits do not overlap. -/
theorem epr_kinds {i : ℕ} (hi : i < 32) :
    (eprTbits.getLsbD i && eprRwbits.getLsbD i) = false ∧
      (eprTbits.getLsbD i && eprRwcbits.getLsbD i) = false ∧
      (eprRwbits.getLsbD i && eprRwcbits.getLsbD i) = false := by
  have hall : ∀ i < 32, (eprTbits.getLsbD i && eprRwbits.getLsbD i) = false ∧
      (eprTbits.getLsbD i && eprRwcbits.getLsbD i) = false ∧
      (eprRwbits.getLsbD i && eprRwcbits.getLsbD i) = false := by decide
  exact hall i hi

/-- **A bit after an update**, of what was read, when the register has become something else. -/
theorem getLsbD_eprUpdate (reg epr mask value : Word) {i : ℕ} (hi : i < 32) :
    (eprWrite reg (calcEprBits epr mask value)).getLsbD i =
      if eprTbits.getLsbD i then
        if mask.getLsbD i then value.getLsbD i ^^ (epr.getLsbD i ^^ reg.getLsbD i)
        else reg.getLsbD i
      else if eprRwbits.getLsbD i then
        if mask.getLsbD i then value.getLsbD i else epr.getLsbD i
      else if eprRwcbits.getLsbD i then !mask.getLsbD i && reg.getLsbD i
      else reg.getLsbD i := by
  obtain ⟨htrw, htc, hrwc⟩ := epr_kinds hi
  simp only [eprWrite, calcEprBits, BitVec.getLsbD_or, BitVec.getLsbD_and, BitVec.getLsbD_xor,
    BitVec.getLsbD_not, hi, decide_true, Bool.true_and]
  generalize eprTbits.getLsbD i = t at *
  generalize eprRwbits.getLsbD i = rw at *
  generalize eprRwcbits.getLsbD i = c at *
  generalize mask.getLsbD i = m
  generalize value.getLsbD i = v
  generalize epr.getLsbD i = e
  generalize reg.getLsbD i = r
  revert t rw c m v e r
  decide

theorem getLsbD_eprHardware (reg toggle set : Word) {i : ℕ} (hi : i < 32) :
    (eprHardware reg toggle set).getLsbD i =
      if eprRwbits.getLsbD i then reg.getLsbD i
      else if eprRwcbits.getLsbD i then reg.getLsbD i || set.getLsbD i
      else reg.getLsbD i ^^ toggle.getLsbD i := by
  obtain ⟨-, -, hrwc⟩ := epr_kinds hi
  simp only [eprHardware, BitVec.getLsbD_or, BitVec.getLsbD_and, BitVec.getLsbD_xor,
    BitVec.getLsbD_not, hi, decide_true, Bool.true_and]
  generalize eprRwbits.getLsbD i = rw at *
  generalize eprRwcbits.getLsbD i = c at *
  generalize toggle.getLsbD i = t
  generalize set.getLsbD i = u
  generalize reg.getLsbD i = r
  revert rw c t u r
  decide

/-! ### Runs -/

/-- A bit that is not named is as the hardware leaves it, and a bit of the configuration was so
whenever it was read. -/
structure Epr.Follows (s : Epr) (alone : Word) (i : ℕ) : Prop where
  reg_eq : s.reg.getLsbD i = alone.getLsbD i
  epr_eq : eprRwbits.getLsbD i = true → ∀ irq, (s.epr irq).getLsbD i = alone.getLsbD i

theorem Epr.Follows.run {s : Epr} {alone : Word} {i : ℕ} (h : s.Follows alone i) (hi : i < 32)
    {events : List EprEvent} (hnamed : (named events).getLsbD i = false) :
    (s.run events).reg.getLsbD i = (hardwareRun alone events).getLsbD i := by
  induction events generalizing s alone with
  | nil => exact h.reg_eq
  | cons e events ih =>
      cases e with
      | hardware toggle set =>
          refine ih ⟨?_, fun hrw irq => ?_⟩ hnamed
          · show (eprHardware s.reg toggle set).getLsbD i = _
            rw [getLsbD_eprHardware _ _ _ hi, getLsbD_eprHardware _ _ _ hi, h.reg_eq]
          · show (s.epr irq).getLsbD i = _
            rw [getLsbD_eprHardware _ _ _ hi, if_pos hrw, h.epr_eq hrw irq]
      | read irq =>
          refine ih ⟨h.reg_eq, fun hrw irq' => ?_⟩ hnamed
          show (Function.update s.epr irq s.reg irq').getLsbD i = _
          rcases eq_or_ne irq' irq with rfl | hne
          · rw [Function.update_self, h.reg_eq]
          · rw [Function.update_of_ne hne, h.epr_eq hrw irq']
      | write irq mask value =>
          obtain ⟨hmask, hrest⟩ : mask.getLsbD i = false ∧ (named events).getLsbD i = false := by
            rw [named, BitVec.getLsbD_or] at hnamed
            exact Bool.or_eq_false_iff.mp hnamed
          refine ih ⟨?_, h.epr_eq⟩ hrest
          show (eprWrite s.reg (calcEprBits (s.epr irq) mask value)).getLsbD i = _
          rw [getLsbD_eprUpdate _ _ _ _ hi, hmask]
          simpa [h.reg_eq] using fun _ hrw => h.epr_eq hrw irq

/-- **Updates change what they name and nothing else.** Over every run of updates by a task and an
interrupt, with changes by the hardware at any time, the bits of the register that no update names
are as the hardware alone would have left them, so that no event is lost; and in the state that the
run has reached, an update that nothing comes in between sets the fields it names and clears the
flags it names. -/
theorem epr_exact (reg : Word) (events : List EprEvent) :
    let s := (Epr.start reg).run events
    s.reg &&& ~~~named events = hardwareRun reg events &&& ~~~named events ∧
      ∀ irq mask value,
        let s' := s.run [.read irq, .write irq mask value]
        s'.reg &&& (mask &&& (eprTbits ||| eprRwbits)) =
            value &&& (mask &&& (eprTbits ||| eprRwbits)) ∧
          s'.reg &&& (mask &&& eprRwcbits) = 0 := by
  intro s
  refine ⟨BitVec.eq_of_getLsbD_eq fun i hi => ?_, fun irq mask value => ?_⟩
  · rw [BitVec.getLsbD_and, BitVec.getLsbD_and, BitVec.getLsbD_not]
    cases hnamed : (named events).getLsbD i with
    | true => simp
    | false =>
        have hfollows : (Epr.start reg).Follows reg i := ⟨rfl, fun _ _ => rfl⟩
        rw [hfollows.run hi hnamed]
  · have hreg : (s.run [.read irq, .write irq mask value]).reg =
        eprWrite s.reg (calcEprBits s.reg mask value) := by
      show eprWrite s.reg (calcEprBits (Function.update s.epr irq s.reg irq) mask value) = _
      rw [Function.update_self]
    intro s'
    rw [show s'.reg = _ from hreg]
    refine ⟨BitVec.eq_of_getLsbD_eq fun i hi => ?_, BitVec.eq_of_getLsbD_eq fun i hi => ?_⟩
    · simp only [BitVec.getLsbD_and, BitVec.getLsbD_or, getLsbD_eprUpdate _ _ _ _ hi]
      cases mask.getLsbD i <;> cases eprTbits.getLsbD i <;> cases eprRwbits.getLsbD i <;> simp
    · obtain ⟨-, htc, hrwc⟩ := epr_kinds hi
      simp only [BitVec.getLsbD_and, getLsbD_eprUpdate _ _ _ _ hi]
      cases hmask : mask.getLsbD i <;> cases hc : eprRwcbits.getLsbD i <;> simp_all

end Terraboot.Usbfs
