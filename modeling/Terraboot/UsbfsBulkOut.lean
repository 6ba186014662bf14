import Terraboot.MsbBits
import Terraboot.RingLog
import Terraboot.UsbfsRegister

/-!
# Packets from the host on the stm32

The endpoint `USB_CDC_EP_BULK_OUT` of `stm32/usbfs.c` has two buffers. `USB_EP_DTOG_RX` says which
one the controller fills next, and it takes no packet while `USB_EP_DTOG_TX` is the same. After a
packet somebody has to toggle `USB_EP_DTOG_TX`: the interrupt handler when `usb_read_bulk_out` has
left it a flag, and `usb_read_bulk_out` itself when it finds both that the controller waits and that
nobody has taken the flag.

The interrupt comes before the next access of the task, and any number of packets may come between
the accesses of either.

## Main results

* `BulkOut.Good.step`: the invariant of the toggles and of the flag is kept.
* `dbufOut_exact`: over every run each packet is returned once and in order, and the controller
  never waits for a toggle that nobody makes.
-/

namespace Terraboot.Usbfs

/-- `USB_EP_CTR_RX`, `USB_EP_CTR_TX`, `USB_EP_DTOG_RX` and `USB_EP_DTOG_TX` -/
def usbEpCtrRx : Word := 0x8000
def usbEpCtrTx : Word := 0x80
def usbEpDtogRx : Word := 0x4000
def usbEpDtogTx : Word := 0x40

/-- `epr_is_dbuf_blocking` -/
def eprIsDbufBlocking (epr : Word) : Bool := (epr >>> 8 ^^^ epr) &&& usbEpDtogTx == 0

/-- The buffer for a toggle. -/
def dbuf (b : Bool) : Fin 2 := bif b then ⟨1, Nat.one_lt_two⟩ else ⟨0, Nat.two_pos⟩

/-- Where `usb_read_bulk_out` is: before it reads the flag, in `btable_read_packet`, before it reads
`USB_EPR`, before it reads the flag again, before it clears it, and before it writes `USB_EPR`. -/
inductive ReadPc
  | idle
  | copy (bufnum : Fin 2) (got : List Byte)
  | flagged (got : List Byte)
  | looked (got : List Byte) (epr : Word)
  | notify (got : List Byte) (epr : Word)
  | toggle (got : List Byte) (epr : Word)

/-- Where `USB_IRQHandler` is: not running, before it writes `USB_EPR`, and before it clears the
flag. -/
inductive IrqPc
  | idle
  | entered (epr : Word)
  | written
  deriving DecidableEq

/-- `USB_EPR[USB_CDC_EP_BULK_OUT]`, the two buffers, `bulk_out_push_flag` and `bulk_out_pop_count`,
with the packets that the controller has received and those that have been returned. -/
structure BulkOut where
  epr : Word
  bufs : Fin 2 → List Byte
  pushFlag : Word
  popCount : Word
  pc : ReadPc
  irq : IrqPc
  received : List (List Byte)
  returned : List (List Byte)

inductive OutEvent
  | receive (packet : List Byte)
  | irq
  | task

namespace BulkOut

/-- `usb_reset` and then `usb_set_configure`: a reset of the bus clears the register. -/
def usbSetConfigure (bufs : Fin 2 → List Byte) : BulkOut where
  epr :=
    let epr := eprWrite 0 (0x2 ||| 0x100 ||| 0x2000 ||| usbEpDtogTx)
    eprWrite epr (calcEprBits epr 0x3000 0x3000)
  bufs := bufs
  pushFlag := usbEpDtogTx
  popCount := 0
  pc := .idle
  irq := .idle
  received := []
  returned := []

/-- The interrupt is neither running nor waiting. -/
def Quiet (s : BulkOut) : Prop := s.irq = .idle ∧ s.epr.getLsbD 15 = false

instance (s : BulkOut) : Decidable s.Quiet := inferInstanceAs (Decidable (_ ∧ _))

/-- `usb_read_bulk_out` returns. -/
def ret (s : BulkOut) (got : List Byte) : BulkOut :=
  { s with pc := .idle, returned := s.returned ++ [got] }

/-- `usb_read_bulk_out`, one access to what is shared at a time -/
def usbReadBulkOut (maxLen : ℕ) (s : BulkOut) : BulkOut :=
  match s.pc with
  | .idle =>
      if s.pushFlag ≠ 0 then s
      else { s with pc := .copy (dbuf (s.popCount.getLsbD 0)) [], popCount := s.popCount + 1 }
  | .copy bufnum got =>
      match ((s.bufs bufnum).take maxLen)[got.length]? with
      | some x => { s with pc := .copy bufnum (got ++ [x]) }
      | none => { s with pc := .flagged got, pushFlag := usbEpDtogTx }
  | .flagged got => { s with pc := .looked got s.epr }
  | .looked got epr =>
      if eprIsDbufBlocking epr ∧ s.pushFlag ≠ 0 then { s with pc := .notify got epr }
      else s.ret got
  | .notify got epr => { s with pushFlag := 0, pc := .toggle got epr }
  | .toggle got epr =>
      { s with epr := eprWrite s.epr (calcEprBits epr 0 0 ||| usbEpDtogTx) }.ret got

/-- The branch of `USB_IRQHandler` for the endpoint -/
def usbIrqHandler (s : BulkOut) : BulkOut :=
  match s.irq with
  | .idle => if s.epr.getLsbD 15 then { s with irq := .entered s.epr } else s
  | .entered epr =>
      { s with
        epr := eprWrite s.epr (calcEprBits epr (usbEpCtrRx ||| usbEpCtrTx) 0 ||| s.pushFlag)
        irq := .written }
  | .written => { s with pushFlag := 0, irq := .idle }

/-- The controller receives a packet, or has the host send it again. -/
def receive (s : BulkOut) (packet : List Byte) : BulkOut :=
  if eprIsDbufBlocking s.epr then s
  else
    { s with
      bufs := Function.update s.bufs (dbuf (s.epr.getLsbD 14)) packet
      epr := eprHardware s.epr usbEpDtogRx usbEpCtrRx
      received := s.received ++ [packet] }

def step (maxLen : ℕ) (s : BulkOut) : OutEvent → BulkOut
  | .receive packet => s.receive packet
  | .irq => s.usbIrqHandler
  | .task => if s.Quiet then s.usbReadBulkOut maxLen else s

def run (maxLen : ℕ) (s : BulkOut) (events : List OutEvent) : BulkOut :=
  events.foldl (step maxLen) s

end BulkOut

/-! ### Toggles -/

/-- What a toggle is after `k` changes. -/
def odd (k : ℕ) : Bool := decide (k % 2 = 1)

theorem odd_succ (k : ℕ) : odd (k + 1) = !odd k := by
  rw [odd, odd, ← decide_not, decide_eq_decide]
  omega

theorem dbuf_odd (k : ℕ) : dbuf (odd k) = Fin.ofNat 2 k := by
  refine Fin.ext ?_
  rw [Fin.val_ofNat, dbuf, odd]
  rcases Nat.mod_two_eq_zero_or_one k with hk | hk <;> simp [hk]

theorem getLsbD_zero_succ (w : Word) : (w + 1).getLsbD 0 = !w.getLsbD 0 := by
  rw [BitVec.getLsbD_add (Nat.succ_pos _), BitVec.carry_zero, Bool.xor_false]
  exact Bool.xor_true _

theorem eprIsDbufBlocking_eq (epr : Word) :
    eprIsDbufBlocking epr = (epr.getLsbD 14 == epr.getLsbD 6) := by
  have hbit : ∀ i, ((epr >>> 8 ^^^ epr) &&& usbEpDtogTx).getLsbD i =
      ((epr.getLsbD 14 ^^ epr.getLsbD 6) && decide (i = 6)) := by
    intro i
    have hmask : usbEpDtogTx = 1#32 <<< 6 := by decide
    rw [BitVec.getLsbD_and, BitVec.getLsbD_xor, BitVec.getLsbD_ushiftRight, hmask,
      MsbBits.getLsbD_one_shiftLeft (by decide)]
    by_cases hi : i = 6
    · rw [hi]
    · rw [decide_eq_false hi, Bool.and_false, Bool.and_false]
  rw [eprIsDbufBlocking]
  cases hxor : (epr.getLsbD 14 ^^ epr.getLsbD 6) with
  | false =>
      have hzero : (epr >>> 8 ^^^ epr) &&& usbEpDtogTx = 0 := by
        refine BitVec.eq_of_getLsbD_eq fun i _ => ?_
        rw [hbit, hxor, Bool.false_and]
        exact BitVec.getLsbD_zero.symm
      rw [hzero, bne_eq_false_iff_eq.mp hxor]
      simp
  | true =>
      have hne : (epr >>> 8 ^^^ epr) &&& usbEpDtogTx ≠ 0 := fun hzero => by
        have hsix := hbit 6
        rw [hzero, hxor] at hsix
        exact absurd hsix (by decide)
      rw [beq_eq_false_iff_ne.mpr hne]
      revert hxor
      cases epr.getLsbD 14 <;> cases epr.getLsbD 6 <;> decide

/-- An update that names no toggle flips those that are added to it. -/
theorem getLsbD_eprWrite_toggle (reg epr mask flag : Word) {i : ℕ} (hi : i < 32)
    (ht : eprTbits.getLsbD i = true) (hmask : mask.getLsbD i = false) :
    (eprWrite reg (calcEprBits epr mask 0 ||| flag)).getLsbD i =
      (reg.getLsbD i ^^ flag.getLsbD i) := by
  obtain ⟨hrw, hc, -⟩ := epr_kinds hi
  rw [ht, Bool.true_and] at hrw hc
  simp only [eprWrite, calcEprBits, BitVec.getLsbD_or, BitVec.getLsbD_and, BitVec.getLsbD_xor,
    BitVec.getLsbD_not, ht, hrw, hc, hmask, hi]
  simp

/-- It clears the flags that it names, unless they are added to it. -/
theorem getLsbD_eprWrite_ctr (reg epr mask flag : Word) {i : ℕ} (hi : i < 32)
    (hc : eprRwcbits.getLsbD i = true) :
    (eprWrite reg (calcEprBits epr mask 0 ||| flag)).getLsbD i =
      (reg.getLsbD i && (!mask.getLsbD i || flag.getLsbD i)) := by
  obtain ⟨-, ht, hrw⟩ := epr_kinds hi
  rw [hc, Bool.and_true] at ht hrw
  simp only [eprWrite, calcEprBits, BitVec.getLsbD_or, BitVec.getLsbD_and, BitVec.getLsbD_xor,
    BitVec.getLsbD_not, ht, hrw, hc, hi]
  simp

/-! ### The invariant -/

/-- The packet that has been taken out of its buffer but not returned. -/
def ReadPc.done : ReadPc → List (List Byte)
  | .idle | .copy _ _ => []
  | .flagged got | .looked got _ | .notify got _ | .toggle got _ => [got]

/-- How far `bulk_out_pop_count` is ahead. -/
def ReadPc.claimed : ReadPc → ℕ
  | .copy _ _ => 1
  | _ => 0

namespace BulkOut

/-- `USB_EP_DTOG_TX` has been toggled for each packet read, and once more if the flag is taken. -/
def Turn (s : BulkOut) (lo t : ℕ) : Prop :=
  t = lo + if s.pushFlag = 0 ∨ s.irq = .written then 1 else 0

/-- What holds at each place of `usb_read_bulk_out`. -/
def PcGood (maxLen : ℕ) (s : BulkOut) (lo t : ℕ) : ReadPc → Prop
  | .idle => s.Turn lo t ∧ (s.Quiet → s.pushFlag ≠ 0 → s.received.length = t)
  | .copy bufnum got =>
      s.Turn lo t ∧ s.pushFlag = 0 ∧ bufnum = dbuf (odd lo) ∧
        got = ((s.bufs bufnum).take maxLen).take got.length
  | .flagged _ => s.Turn lo t
  | .looked _ epr =>
      s.Turn lo t ∧
        (s.Quiet → s.pushFlag ≠ 0 → (eprIsDbufBlocking epr = true ↔ s.received.length = t + 1))
  | .notify _ _ => s.Quiet ∧ s.received.length = t + 1 ∧ t = lo
  | .toggle _ _ => s.Quiet ∧ s.received.length = t + 1 ∧ t = lo ∧ s.pushFlag = 0

/-- `lo` packets have been read, and `USB_EP_DTOG_TX` has been toggled `t` times. -/
structure Good (maxLen : ℕ) (s : BulkOut) (lo t : ℕ) : Prop where
  ring : RingLog s.bufs s.received lo s.received.length
  le : t ≤ s.received.length
  room : s.received.length ≤ t + 1
  dtogRx : s.epr.getLsbD 14 = odd s.received.length
  dtogTx : s.epr.getLsbD 6 = !odd t
  returned : s.returned ++ s.pc.done = (s.received.take lo).map (List.take maxLen)
  popCount : s.popCount.getLsbD 0 = odd (lo + s.pc.claimed)
  flag : s.pushFlag = 0 ∨ s.pushFlag = usbEpDtogTx
  pending : s.epr.getLsbD 15 = true → s.received.length = t + 1
  entered : ∀ epr, s.irq = .entered epr → s.received.length = t + 1
  pc : s.PcGood maxLen lo t s.pc

variable {maxLen : ℕ} {s : BulkOut} {lo t : ℕ}

theorem usbSetConfigure_epr (bufs : Fin 2 → List Byte) : (usbSetConfigure bufs).epr = 0x3142 := by
  simp only [usbSetConfigure]
  decide

theorem Good.usbSetConfigure (maxLen : ℕ) (bufs : Fin 2 → List Byte) :
    Good maxLen (usbSetConfigure bufs) 0 0 where
  ring := RingLog.empty bufs
  le := le_rfl
  room := Nat.zero_le _
  dtogRx := by
    rw [usbSetConfigure_epr]
    rfl
  dtogTx := by
    rw [usbSetConfigure_epr]
    rfl
  returned := rfl
  popCount := by
    show (0#32).getLsbD 0 = odd 0
    decide
  flag := Or.inr rfl
  pending := fun h => by
    rw [usbSetConfigure_epr] at h
    exact absurd h (by decide)
  entered := fun _ h => nomatch h
  pc := ⟨rfl, fun _ _ => rfl⟩

/-- The controller waits exactly while the toggle for the last packet has not been made. -/
theorem Good.blocking_iff (h : Good maxLen s lo t) :
    eprIsDbufBlocking s.epr = true ↔ s.received.length = t + 1 := by
  rw [eprIsDbufBlocking_eq, h.dtogRx, h.dtogTx, beq_iff_eq]
  rcases Nat.lt_or_eq_of_le h.le with hlt | heq
  · have hlen : s.received.length = t + 1 := Nat.le_antisymm h.room hlt
    simp [hlen, odd_succ]
  · rw [← heq]
    simp

/-! ### Steps of the controller and of the interrupt -/

/-- While the interrupt is at work nothing is known of the flag where it is read. -/
theorem PcGood.of_busy {s' : BulkOut} {t' : ℕ} {pc : ReadPc} (h : s.PcGood maxLen lo t pc)
    (hbusy : ¬ s.Quiet ∨ s.received.length ≠ t + 1) (hturn : s.Turn lo t → s'.Turn lo t')
    (hquiet : s'.Quiet → s'.pushFlag = 0)
    (hflag : s.Turn lo t → s.pushFlag = 0 →
      s'.pushFlag = 0 ∧ s'.bufs (dbuf (odd lo)) = s.bufs (dbuf (odd lo))) :
    s'.PcGood maxLen lo t' pc := by
  cases pc with
  | idle => exact ⟨hturn h.1, fun hq hne => absurd (hquiet hq) hne⟩
  | copy bufnum got =>
      obtain ⟨ht, hzero, rfl, hgot⟩ := h
      obtain ⟨hzero', hbuf⟩ := hflag ht hzero
      refine ⟨hturn ht, hzero', rfl, ?_⟩
      rwa [hbuf]
  | flagged got => exact hturn h
  | looked got epr => exact ⟨hturn h.1, fun hq hne => absurd (hquiet hq) hne⟩
  | notify got epr => exact absurd h.1 (hbusy.resolve_right (not_not_intro h.2.1))
  | toggle got epr => exact absurd h.1 (hbusy.resolve_right (not_not_intro h.2.1))

theorem Turn.le {lo t : ℕ} (h : s.Turn lo t) : lo ≤ t ∧ t ≤ lo + 1 := by
  rw [Turn] at h
  split_ifs at h <;> omega

theorem Good.toggled (h : Good maxLen s lo t) : lo ≤ t ∧ t ≤ lo + 1 := by
  have hpc := h.pc
  cases hs : s.pc with
  | idle | copy _ _ | looked _ _ =>
      rw [hs] at hpc
      exact hpc.1.le
  | flagged _ =>
      rw [hs] at hpc
      exact Turn.le hpc
  | notify _ _ =>
      rw [hs] at hpc
      obtain ⟨-, -, rfl⟩ := hpc
      omega
  | toggle _ _ =>
      rw [hs] at hpc
      obtain ⟨-, -, rfl, -⟩ := hpc
      omega

/-- **A packet comes**, into the buffer that is not being read. -/
theorem Good.receive (h : Good maxLen s lo t) (packet : List Byte) :
    Good maxLen (s.receive packet) lo t := by
  rw [BulkOut.receive]
  split_ifs with hblock
  · exact h
  · have hle := h.le
    have hroom := h.room
    have htoggled := h.toggled
    have hlen : s.received.length = t := by
      have hne := h.blocking_iff.not.mp hblock
      omega
    have hnew : (s.received ++ [packet]).length = s.received.length + 1 :=
      List.length_append
    have hbuf : dbuf (s.epr.getLsbD 14) = Fin.ofNat 2 s.received.length := by
      rw [h.dtogRx, dbuf_odd]
    have hctr : (eprHardware s.epr usbEpDtogRx usbEpCtrRx).getLsbD 15 = true := by
      rw [getLsbD_eprHardware _ _ _ (by decide), if_neg (by decide), if_pos (by decide),
        Bool.or_eq_true]
      exact Or.inr (by decide)
    refine ⟨?_, ?_, ?_, ?_, ?_, ?_, h.popCount, h.flag, fun _ => ?_, fun epr hirq => ?_, ?_⟩
    · rw [hbuf, hnew]
      exact h.ring.push (by omega) packet
    · rw [hnew]
      omega
    · rw [hnew]
      omega
    · rw [getLsbD_eprHardware _ _ _ (by decide), if_neg (by decide), if_neg (by decide), h.dtogRx,
        hnew, odd_succ]
      exact Bool.xor_true _
    · rw [getLsbD_eprHardware _ _ _ (by decide), if_neg (by decide), if_neg (by decide), h.dtogTx]
      exact Bool.xor_false _
    · rw [List.take_append_of_le_length h.ring.le]
      exact h.returned
    · rw [hnew, hlen]
    · have hbusy := h.entered epr hirq
      omega
    · refine h.pc.of_busy (Or.inr (by omega)) id ?_ fun hturn hzero => ⟨hzero, ?_⟩
      · rintro ⟨-, hidle⟩
        rw [hctr] at hidle
        exact Bool.noConfusion hidle
      · have hlt : lo < s.received.length := by
          rw [Turn, if_pos (Or.inl hzero)] at hturn
          omega
        rw [hbuf, dbuf_odd]
        exact RingLog.update_front hlt (by omega) packet

/-- **The interrupt handler** makes the toggle if it finds the flag. -/
theorem Good.irq (h : Good maxLen s lo t) : ∃ t', Good maxLen s.usbIrqHandler lo t' := by
  rw [usbIrqHandler]
  cases hs : s.irq with
  | idle =>
      dsimp only
      split_ifs with hctr
      · have hbusy : ¬ s.Quiet := fun hq => by
          rw [hq.2] at hctr
          exact Bool.noConfusion hctr
        refine ⟨t, { h with entered := fun _ _ => h.pending hctr, pc := ?_ }⟩
        refine h.pc.of_busy (Or.inl hbusy) ?_ (fun hq => nomatch hq.1) fun _ hzero => ⟨hzero, rfl⟩
        intro hturn
        simpa [Turn, hs] using hturn
      · exact ⟨t, h⟩
  | entered epr =>
      have hlen := h.entered epr hs
      have hbusy : ¬ s.Quiet := fun hq => by
        rw [Quiet, hs] at hq
        exact nomatch hq.1
      have hdtogTx := getLsbD_eprWrite_toggle s.epr epr (usbEpCtrRx ||| usbEpCtrTx) s.pushFlag
        (show 6 < 32 by decide) (by decide) (by decide)
      have hdtogRx := getLsbD_eprWrite_toggle s.epr epr (usbEpCtrRx ||| usbEpCtrTx) s.pushFlag
        (show 14 < 32 by decide) (by decide) (by decide)
      have hctr := getLsbD_eprWrite_ctr s.epr epr (usbEpCtrRx ||| usbEpCtrTx) s.pushFlag
        (show 15 < 32 by decide) (by decide)
      rw [h.dtogTx] at hdtogTx
      rw [h.dtogRx] at hdtogRx
      obtain hf | hf := h.flag
      · -- nobody has left a flag
        have hclear : s.pushFlag.getLsbD 15 = false ∧ s.pushFlag.getLsbD 14 = false ∧
            s.pushFlag.getLsbD 6 = false := by
          rw [hf]
          decide
        obtain ⟨h15, h14, h6⟩ := hclear
        rw [h15] at hctr
        rw [h14, Bool.xor_false] at hdtogRx
        rw [h6, Bool.xor_false] at hdtogTx
        refine ⟨t, { h with
          dtogRx := hdtogRx
          dtogTx := hdtogTx
          pending := fun hpending => ?_
          entered := fun _ h => (nomatch h)
          pc := ?_ }⟩
        · rw [hctr] at hpending
          exact absurd hpending (by simp [usbEpCtrRx, usbEpCtrTx])
        · refine h.pc.of_busy (Or.inl hbusy) ?_ (fun hq => nomatch hq.1) fun _ hz => ⟨hz, rfl⟩
          intro hturn
          simpa [Turn, hf] using hturn
      · have hset : s.pushFlag.getLsbD 15 = false ∧ s.pushFlag.getLsbD 14 = false ∧
            s.pushFlag.getLsbD 6 = true := by
          rw [hf]
          decide
        obtain ⟨h15, h14, h6⟩ := hset
        rw [h15] at hctr
        rw [h14, Bool.xor_false] at hdtogRx
        rw [h6, Bool.xor_true, ← odd_succ] at hdtogTx
        refine ⟨t + 1, { h with
          le := hlen.ge
          room := hlen.le.trans (Nat.le_succ _)
          dtogRx := hdtogRx
          dtogTx := hdtogTx
          pending := fun hpending => ?_
          entered := fun _ h => (nomatch h)
          pc := ?_ }⟩
        · rw [hctr] at hpending
          exact absurd hpending (by simp [usbEpCtrRx, usbEpCtrTx])
        · refine h.pc.of_busy (Or.inl hbusy) ?_ (fun hq => nomatch hq.1) fun _ hz => ⟨hz, rfl⟩
          intro hturn
          have ht : t = lo := by
            rw [Turn, hf, hs, if_neg (by simp [usbEpDtogTx])] at hturn
            exact hturn
          show t + 1 = lo + if s.pushFlag = 0 ∨ IrqPc.written = .written then 1 else 0
          rw [if_pos (Or.inr rfl), ht]
  | written =>
      have hbusy : ¬ s.Quiet := fun hq => by
        rw [Quiet, hs] at hq
        exact nomatch hq.1
      refine ⟨t, { h with flag := Or.inl rfl, entered := fun _ h => (nomatch h), pc := ?_ }⟩
      refine h.pc.of_busy (Or.inl hbusy) ?_ (fun _ => rfl) fun _ _ => ⟨rfl, rfl⟩
      intro hturn
      simpa [Turn, hs] using hturn

/-! ### Steps of the task -/

theorem Turn.eq_of_quiet (h : s.Turn lo t) (hq : s.Quiet) :
    t = lo + if s.pushFlag = 0 then 1 else 0 := by
  rw [Turn, hq.1] at h
  simpa using h

/-- **An access of `usb_read_bulk_out`**, with the interrupt neither running nor waiting. -/
theorem Good.task (h : Good maxLen s lo t) (hq : s.Quiet) :
    ∃ lo' t', Good maxLen (s.usbReadBulkOut maxLen) lo' t' := by
  have hpc := h.pc
  have hcount := h.popCount
  have hreturned := h.returned
  rw [usbReadBulkOut]
  cases hs : s.pc with
  | idle =>
      rw [hs] at hpc hcount hreturned
      dsimp only
      split_ifs with hne
      · exact ⟨lo, t, h⟩
      · have hzero : s.pushFlag = 0 := not_not.mp hne
        refine ⟨lo, t, { h with returned := hreturned, popCount := ?_, pc := ?_ }⟩
        · show (s.popCount + 1).getLsbD 0 = odd (lo + 1)
          rw [getLsbD_zero_succ, hcount, odd_succ]
          rfl
        · exact ⟨hpc.1, hzero, congrArg dbuf hcount, rfl⟩
  | copy bufnum got =>
      rw [hs] at hpc hcount hreturned
      obtain ⟨hturn, hzero, rfl, hgot⟩ := hpc
      have ht := hturn.eq_of_quiet hq
      rw [if_pos hzero] at ht
      rw [dbuf_odd] at hgot hreturned hcount
      dsimp only
      rw [dbuf_odd]
      cases hx : ((s.bufs (Fin.ofNat 2 lo)).take maxLen)[got.length]? with
      | some x =>
          refine ⟨lo, t, { h with returned := hreturned, popCount := hcount, pc := ?_ }⟩
          refine ⟨hturn, hzero, (dbuf_odd lo).symm, ?_⟩
          rw [List.length_append, List.length_singleton, List.take_add_one, ← hgot, hx]
          rfl
      | none =>
          have hlt : lo < s.received.length := by
            have hle := h.le
            omega
          have hall : got = (s.bufs (Fin.ofNat 2 lo)).take maxLen := by
            rw [hgot]
            exact List.take_of_length_le (List.getElem?_eq_none_iff.mp hx)
          refine ⟨lo + 1, t, { h with
            ring := h.ring.pop hlt
            returned := ?_
            popCount := hcount
            flag := Or.inr rfl
            pc := ?_ }⟩
          · rw [h.ring.front hlt, List.map_append, ← hreturned, hall]
            simp [ReadPc.done]
          · show t = lo + 1 + if usbEpDtogTx = 0 ∨ s.irq = .written then 1 else 0
            rw [if_neg (by rw [hq.1]; decide), ht]
  | flagged got =>
      rw [hs] at hpc hcount hreturned
      exact ⟨lo, t, { h with
        returned := hreturned
        popCount := hcount
        pc := ⟨hpc, fun _ _ => h.blocking_iff⟩ }⟩
  | looked got epr =>
      rw [hs] at hpc hcount hreturned
      obtain ⟨hturn, hblock⟩ := hpc
      dsimp only
      split_ifs with hnotify
      · have ht := hturn.eq_of_quiet hq
        rw [if_neg hnotify.2] at ht
        exact ⟨lo, t, { h with
          returned := hreturned
          popCount := hcount
          pc := ⟨hq, (hblock hq hnotify.2).mp hnotify.1, ht⟩ }⟩
      · refine ⟨lo, t, { h with
          returned := (List.append_nil _).trans hreturned
          popCount := hcount
          pc := ⟨hturn, fun _ hne => ?_⟩ }⟩
        have hfree : s.received.length ≠ t + 1 := fun hlen =>
          hnotify ⟨(hblock hq hne).mpr hlen, hne⟩
        exact Nat.le_antisymm (Nat.le_of_lt_succ (lt_of_le_of_ne h.room hfree)) h.le
  | notify got epr =>
      rw [hs] at hpc hcount hreturned
      obtain ⟨hquiet, hlen, ht⟩ := hpc
      exact ⟨lo, t, { h with
        returned := hreturned
        popCount := hcount
        flag := Or.inl rfl
        pc := ⟨hquiet, hlen, ht, rfl⟩ }⟩
  | toggle got epr =>
      rw [hs] at hpc hcount hreturned
      obtain ⟨hquiet, hlen, ht, hzero⟩ := hpc
      have hdtogTx := getLsbD_eprWrite_toggle s.epr epr 0 usbEpDtogTx
        (show 6 < 32 by decide) (by decide) (by decide)
      have hdtogRx := getLsbD_eprWrite_toggle s.epr epr 0 usbEpDtogTx
        (show 14 < 32 by decide) (by decide) (by decide)
      have hctr := getLsbD_eprWrite_ctr s.epr epr 0 usbEpDtogTx
        (show 15 < 32 by decide) (by decide)
      rw [hquiet.2, Bool.false_and] at hctr
      refine ⟨lo, t + 1, { h with
        le := hlen.ge
        room := hlen.le.trans (Nat.le_succ _)
        dtogRx := ?_
        dtogTx := ?_
        returned := (List.append_nil _).trans hreturned
        popCount := hcount
        pending := fun hpending => ?_
        entered := fun _ hirq => ?_
        pc := ⟨?_, fun _ hne => absurd hzero hne⟩ }⟩
      · exact hdtogRx.trans ((Bool.xor_false _).trans h.dtogRx)
      · refine hdtogTx.trans ?_
        rw [h.dtogTx, odd_succ]
        exact Bool.xor_true _
      · exact absurd (hctr.symm.trans hpending) Bool.false_ne_true
      · exact nomatch hquiet.1.symm.trans hirq
      · show t + 1 = lo + if s.pushFlag = 0 ∨ s.irq = .written then 1 else 0
        rw [if_pos (Or.inl hzero), ht]

theorem Good.step (h : Good maxLen s lo t) (e : OutEvent) :
    ∃ lo' t', Good maxLen (s.step maxLen e) lo' t' := by
  cases e with
  | receive packet => exact ⟨lo, t, h.receive packet⟩
  | irq => exact ⟨lo, h.irq⟩
  | task =>
      rw [BulkOut.step]
      split_ifs with hq
      · exact h.task hq
      · exact ⟨lo, t, h⟩

theorem Good.run (h : Good maxLen s lo t) (events : List OutEvent) :
    ∃ lo' t', Good maxLen (s.run maxLen events) lo' t' := by
  induction events generalizing s lo t with
  | nil => exact ⟨lo, t, h⟩
  | cons e events ih =>
      obtain ⟨lo', t', hstep⟩ := h.step e
      exact ih hstep

end BulkOut

/-- **No packet from the host is lost, and none comes twice.** Over every run, the packets returned
are the first of those received, in order and each as far as the caller has room; at most three
have not been returned, of which one is in the call that is under way. Between two calls, with no
interrupt to come, either the next call finds the next packet, or all have been returned and the
controller is ready to receive. -/
theorem dbufOut_exact (maxLen : ℕ) (bufs : Fin 2 → List Byte) (events : List OutEvent) :
    let s := (BulkOut.usbSetConfigure bufs).run maxLen events
    ∃ n ≤ s.received.length,
      s.returned = (s.received.take n).map (List.take maxLen) ∧ s.received.length ≤ n + 3 ∧
      (s.pc = .idle → s.Quiet → s.received.length ≤ n + 2 ∧
        if s.pushFlag = 0 then s.received[n]? = some (s.bufs (dbuf (s.popCount.getLsbD 0)))
        else n = s.received.length ∧ eprIsDbufBlocking s.epr = false) := by
  intro s
  obtain ⟨lo, t, h⟩ : ∃ lo t, BulkOut.Good maxLen s lo t :=
    (BulkOut.Good.usbSetConfigure maxLen bufs).run events
  have hle := h.ring.le
  have hroom := h.ring.room
  have hlen := congrArg List.length h.returned
  rw [List.length_append, List.length_map, List.length_take_of_le hle] at hlen
  have hdone : s.pc.done.length ≤ 1 := by cases s.pc <;> simp [ReadPc.done]
  refine ⟨s.returned.length, by omega, ?_, by omega, fun hidle hq => ?_⟩
  · have htake := congrArg (List.take s.returned.length) h.returned
    rwa [List.take_left, ← List.map_take, List.take_take, Nat.min_eq_left (by omega)] at htake
  · have hpc := h.pc
    have hcount := h.popCount
    rw [hidle] at hpc hcount hlen
    have hlo : s.returned.length = lo := hlen
    have ht := hpc.1.eq_of_quiet hq
    refine ⟨by omega, ?_⟩
    rw [hlo]
    split_ifs with hzero
    · rw [if_pos hzero] at ht
      have hle := h.le
      have hbuf : dbuf (s.popCount.getLsbD 0) = Fin.ofNat 2 lo := by
        rw [hcount]
        exact dbuf_odd lo
      rw [hbuf]
      exact h.ring.slot lo le_rfl (by omega)
    · rw [if_neg hzero] at ht
      have hall := hpc.2 hq hzero
      refine ⟨ht.symm.trans hall.symm, Bool.eq_false_iff.mpr fun hblock => ?_⟩
      have hwait := h.blocking_iff.mp hblock
      omega

end Terraboot.Usbfs
