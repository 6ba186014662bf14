import Terraboot.UsbfsBulkOut

/-!
# Packets to the host on the stm32

The endpoint `USB_CDC_EP_BULK_IN` of `stm32/usbfs.c` has two buffers. `USB_EP_DTOG_TX` says which
one the controller sends next, and after a packet it waits while `USB_EP_DTOG_RX` is the same. When
the endpoint is started the controller sends two packets, so that `usb_send_bulk_in` starts it when
both buffers are full. From then on somebody has to toggle `USB_EP_DTOG_RX` for each packet: the
interrupt handler when it finds the flag, or `usb_send_bulk_in` when it finds that the controller
waits and that nobody has taken the flag.

## Main results

* `BulkIn.Good.step`: the invariant of the toggles and of the flag is kept.
* `dbufIn_exact`: over every run each packet is sent once and in order, out of a buffer that is not
  being written, and a caller never waits for an interrupt that does not come.
-/

namespace Terraboot.Usbfs

/-- `BI_START`, `USB_EP_KIND`, `USB_EPTX_STAT` and `USB_EP_TX_VALID` -/
def biStart : Word := 2
def usbEpKind : Word := 0x100
def usbEptxStat : Word := 0x30
def usbEpTxValid : Word := 0x30

/-- A buffer: the number of bytes in its descriptor, and the memory. -/
structure Buf where
  count : ℕ
  mem : ℕ → Byte

/-- The packet in a buffer. -/
def Buf.packet (b : Buf) : List Byte := (List.range b.count).map b.mem

/-- Where `usb_send_bulk_in` is: before it reads the flag, in `btable_write_packet`, before it
writes the flag, before it reads `USB_EPR`, before it reads the flag again, before it clears it,
before it decides what to do, and before it starts the endpoint. -/
inductive SendPc
  | idle
  | copy (bipp : Word) (data : List Byte) (i : ℕ)
  | copied (bipp : Word)
  | flagged (bipp : Word)
  | looked (bipp epr : Word)
  | notify (bipp epr : Word)
  | cleared (bipp epr : Word)
  | start (epr : Word)

/-- `USB_EPR[USB_CDC_EP_BULK_IN]`, the two buffers, `bulk_in_pop_flag` and `bulk_in_push_pos`, with
the packets that have been accepted and those that the host has acknowledged. -/
structure BulkIn where
  epr : Word
  bufs : Fin 2 → Buf
  popFlag : Word
  pushPos : Word
  pc : SendPc
  irq : IrqPc
  accepted : List (List Byte)
  sent : List (List Byte)

inductive InEvent
  | call (data : List Byte)
  | task
  | irq
  | transmit

namespace BulkIn

/-- `usb_reset` and then `usb_set_configure` -/
def usbSetConfigure (bufs : Fin 2 → Buf) : BulkIn where
  epr := eprWrite 0 (0x1 ||| usbEpKind ||| 0x20)
  bufs := bufs
  popFlag := 0
  pushPos := biStart
  pc := .idle
  irq := .idle
  accepted := []
  sent := []

/-- The interrupt is neither running nor waiting. -/
def Quiet (s : BulkIn) : Prop := s.irq = .idle ∧ s.epr.getLsbD 7 = false

instance (s : BulkIn) : Decidable s.Quiet := inferInstanceAs (Decidable (_ ∧ _))

/-- `usb_send_bulk_in` is called. -/
def usbSendBulkIn (s : BulkIn) (data : List Byte) : BulkIn :=
  match s.pc with
  | .idle =>
      if s.popFlag ≠ 0 then s
      else { s with pc := .copy s.pushPos data 0, pushPos := s.pushPos ^^^ 1 }
  | _ => s

/-- The buffer of a position, `bufnum` -/
def bufnum (bipp : Word) : Fin 2 := dbuf (bipp.getLsbD 0)

/-- The rest of `usb_send_bulk_in`, one access to what is shared at a time -/
def pushBulkIn (s : BulkIn) : BulkIn :=
  match s.pc with
  | .idle => s
  | .copy bipp data i =>
      let b := s.bufs (bufnum bipp)
      match data[i]? with
      | some x =>
          { s with
            bufs := Function.update s.bufs (bufnum bipp) { b with mem := Function.update b.mem i x }
            pc := .copy bipp data (i + 1) }
      | none =>
          { s with
            bufs := Function.update s.bufs (bufnum bipp) { b with count := data.length }
            pc := .copied bipp
            accepted := s.accepted ++ [data] }
  | .copied bipp => { s with popFlag := usbEpDtogRx, pc := .flagged bipp }
  | .flagged bipp => { s with pc := .looked bipp s.epr }
  | .looked bipp epr =>
      if eprIsDbufBlocking epr ∧ s.popFlag ≠ 0 then { s with pc := .notify bipp epr }
      else { s with pc := .idle }
  | .notify bipp epr => { s with popFlag := 0, pc := .cleared bipp epr }
  | .cleared bipp epr =>
      if bipp &&& biStart ≠ 0 then
        if bipp = biStart ||| 1 then
          { s with pushPos := 0, popFlag := usbEpKind, pc := .start epr }
        else { s with pc := .idle }
      else { s with epr := eprWrite s.epr (calcEprBits epr 0 0 ||| usbEpDtogRx), pc := .idle }
  | .start epr =>
      { s with epr := eprWrite s.epr (calcEprBits epr usbEptxStat usbEpTxValid), pc := .idle }

/-- The branch of `USB_IRQHandler` for the endpoint -/
def usbIrqHandler (s : BulkIn) : BulkIn :=
  match s.irq with
  | .idle => if s.epr.getLsbD 7 then { s with irq := .entered s.epr } else s
  | .entered epr =>
      { s with
        epr := eprWrite s.epr (calcEprBits epr (usbEpCtrRx ||| usbEpCtrTx) 0 ||| s.popFlag)
        irq := .written }
  | .written => { s with popFlag := 0, irq := .idle }

/-- The endpoint has been started, and the controller has a packet to send: the first one after the
start in any case, another one while the toggles differ. -/
def sends (s : BulkIn) : Bool :=
  s.epr.getLsbD 4 && s.epr.getLsbD 5 && (s.sent.isEmpty || !eprIsDbufBlocking s.epr)

/-- The host acknowledges a packet of the controller. -/
def transmit (s : BulkIn) : BulkIn :=
  if s.sends then
    { s with
      sent := s.sent ++ [(s.bufs (dbuf (s.epr.getLsbD 6))).packet]
      epr := eprHardware s.epr usbEpDtogTx usbEpCtrTx }
  else s

def step (s : BulkIn) : InEvent → BulkIn
  | .call data => if s.Quiet then s.usbSendBulkIn data else s
  | .task => if s.Quiet then s.pushBulkIn else s
  | .irq => s.usbIrqHandler
  | .transmit => s.transmit

def run (s : BulkIn) (events : List InEvent) : BulkIn := events.foldl step s

end BulkIn

/-! ### Positions -/

/-- `bulk_in_push_pos` after `k` packets, before the start and later. -/
def posOf (on : Bool) (k : ℕ) : Word :=
  (bif on then 0 else biStart) ||| (bif odd k then 1 else 0)

theorem posOf_succ (on : Bool) (k : ℕ) : posOf on k ^^^ 1 = posOf on (k + 1) := by
  rw [posOf, posOf, odd_succ]
  cases on <;> cases odd k <;> decide

theorem bufnum_posOf (on : Bool) (k : ℕ) : BulkIn.bufnum (posOf on k) = Fin.ofNat 2 k := by
  have hbit : (posOf on k).getLsbD 0 = odd k := by
    rw [posOf]
    cases on <;> cases odd k <;> decide
  rw [BulkIn.bufnum, hbit, dbuf_odd]

theorem posOf_start (on : Bool) (k : ℕ) : posOf on k &&& biStart ≠ 0 ↔ on = false := by
  rw [posOf]
  cases on <;> cases odd k <;> decide

theorem posOf_full (k : ℕ) : posOf false k = biStart ||| 1 ↔ odd k = true := by
  rw [posOf]
  cases odd k <;> decide

namespace BulkIn

/-- `USB_EP_DTOG_RX` has been toggled for each packet after the first two, except the one whose flag
is not taken. -/
def Turn (s : BulkIn) (t : ℕ) : Prop :=
  s.accepted.length = t + 2 + if s.popFlag = usbEpDtogRx ∧ s.irq ≠ .written then 1 else 0

/-- A value of the register from before the start. -/
def Waits (epr : Word) : Prop :=
  eprIsDbufBlocking epr = true ∧ epr.getLsbD 4 = false ∧ epr.getLsbD 5 = true

/-- The packet that is being pushed came from `bipp`. -/
def At (s : BulkIn) (on : Bool) (bipp : Word) : Prop :=
  (on = false → s.accepted.length ≤ 2) ∧ s.pushPos = posOf on s.accepted.length ∧
    ∃ k, s.accepted.length = k + 1 ∧ bipp = posOf on k

/-- What holds at each place of `usb_send_bulk_in`. -/
def PcGood (s : BulkIn) (t : ℕ) (on : Bool) : SendPc → Prop
  | .idle =>
      (on = true → s.Turn t) ∧ (on = false → s.popFlag = 0 ∧ s.accepted.length < 2) ∧
        s.pushPos = posOf on s.accepted.length ∧
        (s.Quiet → s.popFlag ≠ 0 → s.sent.length < t + 2)
  | .copy bipp data i =>
      (on = true → s.Turn t) ∧ (on = false → s.accepted.length < 2) ∧ s.popFlag = 0 ∧
        bipp = posOf on s.accepted.length ∧ s.pushPos = posOf on (s.accepted.length + 1) ∧
        i ≤ data.length ∧ ∀ j < i, data[j]? = some ((s.bufs (bufnum bipp)).mem j)
  | .copied bipp =>
      (on = true → s.accepted.length = t + 3) ∧ s.popFlag = 0 ∧ s.At on bipp
  | .flagged bipp =>
      (on = true → s.Turn t) ∧ (on = false → s.popFlag = usbEpDtogRx) ∧ s.At on bipp
  | .looked bipp epr =>
      (on = true → s.Turn t) ∧ (on = false → s.popFlag = usbEpDtogRx ∧ Waits epr) ∧
        s.At on bipp ∧ (on = true → s.Quiet → s.popFlag ≠ 0 →
          (eprIsDbufBlocking epr = true ↔ s.sent.length = t + 2))
  | .notify bipp epr =>
      (on = true → s.Quiet ∧ s.accepted.length = t + 3 ∧ s.sent.length = t + 2) ∧
        (on = false → Waits epr) ∧ s.At on bipp
  | .cleared bipp epr =>
      (on = true → s.Quiet ∧ s.accepted.length = t + 3 ∧ s.sent.length = t + 2) ∧
        (on = false → Waits epr) ∧ s.At on bipp ∧ s.popFlag = 0
  | .start epr =>
      on = false ∧ Waits epr ∧ s.accepted.length = 2 ∧ s.popFlag = usbEpKind ∧ s.pushPos = 0

/-- `USB_EP_DTOG_RX` has been toggled `t` times, and the endpoint is on. -/
structure Good (s : BulkIn) (t : ℕ) (on : Bool) : Prop where
  ring : RingLog (Buf.packet ∘ s.bufs) s.accepted s.sent.length s.accepted.length
  sent : s.sent = s.accepted.take s.sent.length
  dtogTx : s.epr.getLsbD 6 = odd s.sent.length
  dtogRx : s.epr.getLsbD 14 = odd t
  stat : s.epr.getLsbD 4 = on ∧ s.epr.getLsbD 5 = true
  le : s.sent.length ≤ t + 2
  begun : s.sent.length = 0 ∧ t = 0 ∨ t + 1 ≤ s.sent.length
  flag : s.popFlag = 0 ∨ s.popFlag = usbEpDtogRx ∨
    s.popFlag = usbEpKind ∧ t = 0 ∧ (s.pc = .idle ∨ ∃ epr, s.pc = .start epr)
  off : on = false → s.sent.length = 0 ∧ s.Quiet
  busy : ¬ s.Quiet → 0 < s.sent.length
  fresh : on = true → s.sent.length = 0 → s.popFlag = usbEpKind
  due : s.popFlag = usbEpDtogRx → (s.epr.getLsbD 7 = true ∨ ∃ epr, s.irq = .entered epr) →
    s.sent.length = t + 2
  pc : s.PcGood t on s.pc

variable {s : BulkIn} {t : ℕ} {on : Bool}

theorem usbSetConfigure_epr (bufs : Fin 2 → Buf) : (usbSetConfigure bufs).epr = 0x121 := by
  simp only [usbSetConfigure]
  decide

theorem Good.usbSetConfigure (bufs : Fin 2 → Buf) : Good (usbSetConfigure bufs) 0 false := by
  have hquiet : (BulkIn.usbSetConfigure bufs).Quiet := by
    rw [Quiet, usbSetConfigure_epr]
    exact ⟨rfl, by decide⟩
  exact {
    ring := RingLog.empty _
    sent := rfl
    dtogTx := by
      rw [usbSetConfigure_epr]
      rfl
    dtogRx := by
      rw [usbSetConfigure_epr]
      rfl
    stat := by
      rw [usbSetConfigure_epr]
      decide
    le := Nat.zero_le _
    begun := Or.inl ⟨rfl, rfl⟩
    flag := Or.inl rfl
    off := fun _ => ⟨rfl, hquiet⟩
    busy := fun h => absurd hquiet h
    fresh := fun h => nomatch h
    due := fun h => absurd (show (0 : Word) = usbEpDtogRx from h) (by decide)
    pc := ⟨nofun, fun _ => ⟨rfl, Nat.zero_lt_two⟩, show biStart = posOf false 0 by decide,
      fun _ h => absurd rfl h⟩ }

/-- The controller waits exactly while the toggle for the next packet has not been made. -/
theorem Good.blocking_iff (h : Good s t on) (hpos : 0 < s.sent.length) :
    eprIsDbufBlocking s.epr = true ↔ s.sent.length = t + 2 := by
  have hle := h.le
  have hbegun : t + 1 ≤ s.sent.length := h.begun.resolve_left fun hzero => by omega
  rw [eprIsDbufBlocking_eq, h.dtogRx, h.dtogTx, beq_iff_eq]
  rcases Nat.lt_or_eq_of_le hle with hlt | heq
  · have hlen : s.sent.length = t + 1 := by omega
    simp [hlen, odd_succ]
  · simp [heq, odd_succ]

theorem turn_iff (hflag : s.popFlag ≠ usbEpDtogRx ∨ s.irq = .written) :
    s.Turn t ↔ s.accepted.length = t + 2 := by
  rw [Turn, if_neg fun h => hflag.elim (fun hne => hne h.1) h.2, Nat.add_zero]

theorem turn_iff_of_flag (hflag : s.popFlag = usbEpDtogRx) (hirq : s.irq ≠ .written) :
    s.Turn t ↔ s.accepted.length = t + 3 := by
  rw [Turn, if_pos ⟨hflag, hirq⟩]

/-- The controller and the interrupt change nothing that is known while the interrupt is at work. -/
theorem PcGood.of_busy {s' : BulkIn} {t' : ℕ} {pc : SendPc} (h : s.PcGood t true pc)
    (hbusy : ¬ s.Quiet ∨ s.sent.length ≠ t + 2) (hturn : s.Turn t → s'.Turn t')
    (hzero : s.popFlag = 0 → s'.popFlag = 0 ∧ t' = t) (hquiet : s'.Quiet → s'.popFlag = 0)
    (hbufs : s'.bufs = s.bufs) (haccepted : s'.accepted = s.accepted)
    (hpos : s'.pushPos = s.pushPos) : s'.PcGood t' true pc := by
  have hat : ∀ bipp, s.At true bipp → s'.At true bipp := fun bipp h => by
    rwa [At, haccepted, hpos]
  cases pc with
  | idle =>
      obtain ⟨ht, -, hp, -⟩ := h
      refine ⟨fun _ => hturn (ht rfl), nofun, ?_, fun hq hne => absurd (hquiet hq) hne⟩
      rwa [haccepted, hpos]
  | copy bipp data i =>
      obtain ⟨ht, -, hf, hb, hp, hi, hmem⟩ := h
      refine ⟨fun _ => hturn (ht rfl), nofun, (hzero hf).1, ?_, ?_, hi, ?_⟩
      · rwa [haccepted]
      · rwa [haccepted, hpos]
      · rwa [hbufs]
  | copied bipp =>
      obtain ⟨hlen, hf, hb⟩ := h
      refine ⟨fun _ => ?_, (hzero hf).1, hat bipp hb⟩
      rw [haccepted, (hzero hf).2]
      exact hlen rfl
  | flagged bipp => exact ⟨fun _ => hturn (h.1 rfl), nofun, hat bipp h.2.2⟩
  | looked bipp epr =>
      exact ⟨fun _ => hturn (h.1 rfl), nofun, hat bipp h.2.2.1,
        fun _ hq hne => absurd (hquiet hq) hne⟩
  | notify bipp epr =>
      obtain ⟨hq, -, hlen⟩ := h.1 rfl
      exact absurd hq (hbusy.resolve_right (not_not_intro hlen))
  | cleared bipp epr =>
      obtain ⟨hq, -, hlen⟩ := h.1 rfl
      exact absurd hq (hbusy.resolve_right (not_not_intro hlen))
  | start epr => exact nomatch h.1

/-! ### Steps of the controller and of the interrupt -/

theorem Good.on_of_busy (h : Good s t on) (hbusy : ¬ s.Quiet) : on = true := by
  cases on with
  | false => exact absurd (h.off rfl).2 hbusy
  | true => rfl

/-- After the start, a packet that is not the first goes out when the toggles differ. -/
theorem Good.of_sends (h : Good s t on) (hsends : s.sends = true) :
    on = true ∧ (s.sent.length = 0 ∧ t = 0 ∨ s.sent.length = t + 1) := by
  rw [sends, Bool.and_eq_true, Bool.and_eq_true, Bool.or_eq_true, h.stat.1] at hsends
  obtain ⟨⟨hon, -⟩, hempty | hfree⟩ := hsends
  · have hlen : s.sent.length = 0 := by
      rw [List.isEmpty_iff.mp hempty]
      rfl
    refine ⟨hon, Or.inl ⟨hlen, ?_⟩⟩
    have hbegun := h.begun
    omega
  · refine ⟨hon, ?_⟩
    rcases h.begun with hzero | hbegun
    · exact Or.inl hzero
    · have hne : s.sent.length ≠ t + 2 := fun hlen => by
        rw [(h.blocking_iff (by omega)).mpr hlen] at hfree
        exact Bool.noConfusion hfree
      have hle := h.le
      exact Or.inr (by omega)

theorem Good.sends_of_lt (h : Good s t true) (hlt : s.sent.length < t + 2) : s.sends = true := by
  rw [sends, h.stat.1, h.stat.2]
  rcases Nat.eq_zero_or_pos s.sent.length with hzero | hpos
  · rw [List.length_eq_zero_iff.mp hzero]
    rfl
  · have hfree : eprIsDbufBlocking s.epr = false :=
      Bool.eq_false_iff.mpr fun hblock => hlt.ne ((h.blocking_iff hpos).mp hblock)
    rw [hfree]
    simp

/-- What has been accepted at the start, and later. -/
theorem Good.accepted_ge (h : Good s t true) : t + 2 ≤ s.accepted.length := by
  have hpc := h.pc
  have hturn : s.Turn t → t + 2 ≤ s.accepted.length := fun hturn => by
    rw [hturn]
    exact Nat.le_add_right _ _
  cases hs : s.pc with
  | idle | copy _ _ _ | flagged _ | looked _ _ =>
      rw [hs] at hpc
      exact hturn (hpc.1 rfl)
  | copied _ =>
      rw [hs] at hpc
      exact (hpc.1 rfl).ge.trans' (Nat.le_succ _)
  | notify _ _ | cleared _ _ =>
      rw [hs] at hpc
      exact (hpc.1 rfl).2.1.ge.trans' (Nat.le_succ _)
  | start _ =>
      rw [hs] at hpc
      exact nomatch hpc.1

/-- **The host acknowledges a packet**, which is the next one. -/
theorem Good.transmit (h : Good s t on) : Good s.transmit t on := by
  rw [BulkIn.transmit]
  split_ifs with hsends
  · obtain ⟨rfl, hlen⟩ := h.of_sends hsends
    have hlow : s.sent.length < t + 2 := by omega
    have haccepted := h.accepted_ge
    have hlt : s.sent.length < s.accepted.length := by omega
    have hbuf : dbuf (s.epr.getLsbD 6) = Fin.ofNat 2 s.sent.length := by
      rw [h.dtogTx, dbuf_odd]
    have hctr : (eprHardware s.epr usbEpDtogTx usbEpCtrTx).getLsbD 7 = true := by
      rw [getLsbD_eprHardware _ _ _ (by decide), if_neg (by decide), if_pos (by decide),
        Bool.or_eq_true]
      exact Or.inr (by decide)
    have hbit : ∀ i < 32, eprRwbits.getLsbD i = false → eprRwcbits.getLsbD i = false →
        (eprHardware s.epr usbEpDtogTx usbEpCtrTx).getLsbD i =
          (s.epr.getLsbD i ^^ usbEpDtogTx.getLsbD i) := fun i hi hrw hc => by
      rw [getLsbD_eprHardware _ _ _ hi, hrw, hc]
      rfl
    have hnew : (s.sent ++ [(s.bufs (dbuf (s.epr.getLsbD 6))).packet]).length =
        s.sent.length + 1 := List.length_append
    have hbusy : ∀ irq, ¬ (irq = IrqPc.idle ∧
        (eprHardware s.epr usbEpDtogTx usbEpCtrTx).getLsbD 7 = false) := fun irq hq => by
      rw [hctr] at hq
      exact Bool.noConfusion hq.2
    refine {
      ring := ?_
      sent := ?_
      dtogTx := ?_
      dtogRx := ?_
      stat := ⟨?_, ?_⟩
      le := ?_
      begun := ?_
      flag := h.flag
      off := nofun
      busy := fun _ => ?_
      fresh := fun _ hzero => ?_
      due := fun hflag _ => ?_
      pc := ?_ }
    · rw [hnew]
      exact h.ring.pop hlt
    · rw [hnew, h.ring.front hlt, ← h.sent, hbuf]
      rfl
    · rw [hnew, odd_succ, hbit 6 (by decide) (by decide) (by decide), h.dtogTx]
      exact Bool.xor_true _
    · rw [hbit 14 (by decide) (by decide) (by decide), h.dtogRx]
      exact Bool.xor_false _
    · rw [hbit 4 (by decide) (by decide) (by decide), h.stat.1]
      exact Bool.xor_false _
    · rw [hbit 5 (by decide) (by decide) (by decide), h.stat.2]
      exact Bool.xor_false _
    · rw [hnew]
      omega
    · rw [hnew]
      omega
    · rw [hnew]
      omega
    · rw [hnew] at hzero
      omega
    · rw [hnew]
      rcases hlen with ⟨hzero, -⟩ | hlen
      · have hkind := h.fresh rfl hzero
        exact absurd (hflag.symm.trans hkind) (by decide)
      · rw [hlen]
    · exact h.pc.of_busy (Or.inr hlow.ne) id (fun hzero => ⟨hzero, rfl⟩)
        (fun hq => absurd hq (hbusy _)) rfl rfl rfl
  · exact h

/-- **The interrupt handler** makes the toggle if it finds the flag. -/
theorem Good.irqHandler (h : Good s t on) : ∃ t', Good s.usbIrqHandler t' on := by
  rw [usbIrqHandler]
  cases hs : s.irq with
  | idle =>
      dsimp only
      split_ifs with hctr
      · have hbusy : ¬ s.Quiet := fun hq => by
          rw [hq.2] at hctr
          exact Bool.noConfusion hctr
        obtain rfl := h.on_of_busy hbusy
        refine ⟨t, { h with
          off := nofun
          busy := fun _ => h.busy hbusy
          due := fun hflag _ => h.due hflag (Or.inl hctr)
          pc := ?_ }⟩
        refine h.pc.of_busy (Or.inl hbusy) (fun hturn => ?_) (fun hzero => ⟨hzero, rfl⟩)
          (fun hq => nomatch hq.1) rfl rfl rfl
        simpa [Turn, hs] using hturn
      · exact ⟨t, h⟩
  | entered epr =>
      have hbusy : ¬ s.Quiet := fun hq => by
        rw [Quiet, hs] at hq
        exact nomatch hq.1
      obtain rfl := h.on_of_busy hbusy
      have hpos := h.busy hbusy
      have hmask : ∀ i < 32, eprTbits.getLsbD i = true →
          (usbEpCtrRx ||| usbEpCtrTx).getLsbD i = false := by decide
      have hbit : ∀ i < 32, eprTbits.getLsbD i = true →
          (eprWrite s.epr (calcEprBits epr (usbEpCtrRx ||| usbEpCtrTx) 0 ||| s.popFlag)).getLsbD i =
            (s.epr.getLsbD i ^^ s.popFlag.getLsbD i) := fun i hi ht =>
        getLsbD_eprWrite_toggle s.epr epr _ s.popFlag hi ht (hmask i hi ht)
      have hctr := getLsbD_eprWrite_ctr s.epr epr (usbEpCtrRx ||| usbEpCtrTx) s.popFlag
        (show 7 < 32 by decide) (by decide)
      have hlow : s.popFlag.getLsbD 4 = false ∧ s.popFlag.getLsbD 5 = false ∧
          s.popFlag.getLsbD 6 = false ∧ s.popFlag.getLsbD 7 = false := by
        obtain hf | hf | ⟨hf, -⟩ := h.flag <;> rw [hf] <;> decide
      obtain ⟨h4, h5, h6, h7⟩ := hlow
      rw [h7] at hctr
      have hquiet : ¬ (IrqPc.written = .idle ∧ (eprWrite s.epr (calcEprBits epr
          (usbEpCtrRx ||| usbEpCtrTx) 0 ||| s.popFlag)).getLsbD 7 = false) := fun hq => nomatch hq.1
      have hcleared : (eprWrite s.epr (calcEprBits epr
          (usbEpCtrRx ||| usbEpCtrTx) 0 ||| s.popFlag)).getLsbD 7 = false := by
        rw [hctr]
        exact Bool.and_false _
      dsimp only
      refine ⟨if s.popFlag = usbEpDtogRx then t + 1 else t, {
        ring := h.ring
        sent := h.sent
        dtogTx := ?_
        dtogRx := ?_
        stat := ⟨?_, ?_⟩
        le := ?_
        begun := ?_
        flag := ?_
        off := nofun
        busy := fun _ => hpos
        fresh := fun _ hzero => absurd hzero hpos.ne'
        due := fun _ hdue => ?_
        pc := ?_ }⟩
      · rw [hbit 6 (by decide) (by decide), h6, Bool.xor_false]
        exact h.dtogTx
      · rw [hbit 14 (by decide) (by decide), h.dtogRx]
        split_ifs with hf
        · rw [hf, odd_succ]
          exact Bool.xor_true _
        · have h14 : s.popFlag.getLsbD 14 = false := by
            obtain hf' | hf' | ⟨hf', -⟩ := h.flag
            · rw [hf']
              decide
            · exact absurd hf' hf
            · rw [hf']
              decide
          rw [h14, Bool.xor_false]
      · rw [hbit 4 (by decide) (by decide), h4, Bool.xor_false]
        exact h.stat.1
      · rw [hbit 5 (by decide) (by decide), h5, Bool.xor_false]
        exact h.stat.2
      · have hle := h.le
        refine hle.trans ?_
        split_ifs <;> omega
      · have hbegun := h.begun
        by_cases hf : s.popFlag = usbEpDtogRx
        · have hdue := h.due hf (Or.inr ⟨epr, hs⟩)
          rw [if_pos hf]
          exact Or.inr hdue.ge
        · rw [if_neg hf]
          exact hbegun
      · obtain hf | hf | ⟨hf, ht, hpc⟩ := h.flag
        · exact Or.inl hf
        · exact Or.inr (Or.inl hf)
        · refine Or.inr (Or.inr ⟨hf, ?_, hpc⟩)
          rw [if_neg (by rw [hf]; decide)]
          exact ht
      · obtain hdue | ⟨_, hdue⟩ := hdue
        · exact absurd (hcleared.symm.trans hdue) Bool.false_ne_true
        · exact nomatch hdue
      · refine h.pc.of_busy (Or.inl hbusy) (fun hturn => ?_) (fun hzero => ⟨hzero, ?_⟩)
          (fun hq => absurd hq hquiet) rfl rfl rfl
        · by_cases hf : s.popFlag = usbEpDtogRx
          · rw [if_pos hf]
            exact (turn_iff (Or.inr rfl)).mpr
              ((turn_iff_of_flag hf (by rw [hs]; nofun)).mp hturn)
          · rw [if_neg hf]
            exact (turn_iff (Or.inr rfl)).mpr ((turn_iff (Or.inl hf)).mp hturn)
        · rw [if_neg (by rw [hzero]; decide)]
  | written =>
      have hbusy : ¬ s.Quiet := fun hq => by
        rw [Quiet, hs] at hq
        exact nomatch hq.1
      obtain rfl := h.on_of_busy hbusy
      have hpos := h.busy hbusy
      refine ⟨t, { h with
        flag := Or.inl rfl
        off := nofun
        busy := fun _ => hpos
        fresh := fun _ hzero => absurd hzero hpos.ne'
        due := fun hflag => absurd (show (0 : Word) = usbEpDtogRx from hflag) (by decide)
        pc := ?_ }⟩
      refine h.pc.of_busy (Or.inl hbusy) (fun hturn => ?_) (fun _ => ⟨rfl, rfl⟩)
        (fun _ => rfl) rfl rfl rfl
      have hne : (0 : Word) ≠ usbEpDtogRx := by decide
      exact (turn_iff (Or.inl hne)).mpr ((turn_iff (Or.inr hs)).mp hturn)

/-! ### Steps of the task -/

theorem Turn.eq_of_zero (h : s.Turn t) (hzero : s.popFlag = 0) : s.accepted.length = t + 2 :=
  (turn_iff (Or.inl (by rw [hzero]; decide))).mp h

theorem Good.plain (h : Good s t on) (hidle : s.pc ≠ .idle) (hstart : ∀ epr, s.pc ≠ .start epr) :
    s.popFlag = 0 ∨ s.popFlag = usbEpDtogRx := by
  obtain hf | hf | ⟨-, -, hpc | ⟨epr, hpc⟩⟩ := h.flag
  · exact Or.inl hf
  · exact Or.inr hf
  · exact absurd hpc hidle
  · exact absurd hpc (hstart epr)

/-- Once the endpoint is on, somebody who finds no dummy flag comes after the first packet. -/
theorem Good.sent_pos (h : Good s t true) (hflag : s.popFlag = 0 ∨ s.popFlag = usbEpDtogRx) :
    0 < s.sent.length := by
  refine Nat.pos_of_ne_zero fun hzero => ?_
  have hkind := h.fresh rfl hzero
  rw [hkind] at hflag
  revert hflag
  decide

theorem Good.waits (h : Good s t false) : Waits s.epr := by
  have hlen := (h.off rfl).1
  have ht : t = 0 := by
    have hbegun := h.begun
    omega
  refine ⟨?_, h.stat⟩
  rw [eprIsDbufBlocking_eq, h.dtogRx, h.dtogTx, hlen, ht]
  decide

theorem Good.call (h : Good s t on) (data : List Byte) : Good (s.usbSendBulkIn data) t on := by
  have hpc := h.pc
  rw [BulkIn.usbSendBulkIn]
  cases hs : s.pc with
  | idle =>
      rw [hs] at hpc
      obtain ⟨hturn, hoff, hpos, -⟩ := hpc
      dsimp only
      split_ifs with hne
      · exact h
      · have hzero : s.popFlag = 0 := not_not.mp hne
        refine { h with flag := Or.inl hzero, pc := ?_ }
        refine ⟨hturn, fun hon => (hoff hon).2, hzero, hpos, ?_, Nat.zero_le _,
          fun j hj => absurd hj (Nat.not_lt_zero j)⟩
        show s.pushPos ^^^ 1 = _
        rw [hpos, posOf_succ]
  | _ => exact h

/-- There is room for a packet that is being written. -/
theorem Good.room (h : Good s t on) (hzero : s.popFlag = 0)
    (hturn : on = true → s.Turn t) (hoff : on = false → s.accepted.length < 2) :
    s.accepted.length < s.sent.length + 2 := by
  cases on with
  | false =>
      have hlt := hoff rfl
      omega
  | true =>
      have hlen := (hturn rfl).eq_of_zero hzero
      have hpos := h.sent_pos (Or.inl hzero)
      have hbegun := h.begun
      omega

theorem comp_update_packet (bufs : Fin 2 → Buf) (b : Fin 2) (x : Buf) :
    Buf.packet ∘ Function.update bufs b x = Function.update (Buf.packet ∘ bufs) b x.packet :=
  Function.comp_update Buf.packet bufs b x

/-- **An access of `usb_send_bulk_in`**, with the interrupt neither running nor waiting. -/
theorem Good.task (h : Good s t on) (hq : s.Quiet) : ∃ t' on', Good s.pushBulkIn t' on' := by
  have hpc := h.pc
  have hnodue : ∀ {p : Prop}, (s.epr.getLsbD 7 = true ∨ ∃ epr, s.irq = .entered epr) → p := by
    rintro p (hctr | ⟨epr, hirq⟩)
    · exact absurd (hq.2.symm.trans hctr) Bool.false_ne_true
    · exact IrqPc.noConfusion (hq.1.symm.trans hirq)
  have hirq : s.irq ≠ .written := by
    rw [hq.1]
    decide
  rw [pushBulkIn]
  cases hs : s.pc with
  | idle => exact ⟨t, on, h⟩
  | copy bipp data i =>
      rw [hs] at hpc
      obtain ⟨hturn, hoff, hzero, rfl, hpos, hi, hmem⟩ := hpc
      have hroom := h.room hzero hturn hoff
      rw [bufnum_posOf] at hmem
      dsimp only
      rw [bufnum_posOf]
      cases hx : data[i]? with
      | some x =>
          refine ⟨t, on, { h with ring := ?_, flag := Or.inl hzero, pc := ?_ }⟩
          · rw [comp_update_packet]
            exact h.ring.fill hroom _
          · refine ⟨hturn, hoff, hzero, rfl, hpos, (List.getElem?_eq_some_iff.mp hx).1,
              fun j hj => ?_⟩
            show _ = some ((Function.update s.bufs (Fin.ofNat 2 s.accepted.length) _
              (bufnum (posOf on s.accepted.length))).mem j)
            rw [bufnum_posOf, Function.update_self]
            show _ = some (Function.update (s.bufs (Fin.ofNat 2 s.accepted.length)).mem i x j)
            rcases Nat.lt_or_eq_of_le (Nat.le_of_lt_succ hj) with hlt | rfl
            · rw [Function.update_of_ne hlt.ne]
              exact hmem j hlt
            · rw [Function.update_self]
              exact hx
      | none =>
          have hlen : i = data.length := Nat.le_antisymm hi (List.getElem?_eq_none_iff.mp hx)
          have hpacket : Buf.packet { s.bufs (Fin.ofNat 2 s.accepted.length) with
              count := data.length } = data := by
            refine List.ext_getElem? fun j => ?_
            rw [Buf.packet, List.getElem?_map]
            rcases Nat.lt_or_ge j data.length with hlt | hge
            · rw [List.getElem?_range hlt]
              exact (hmem j (by omega)).symm
            · rw [List.getElem?_eq_none (by simpa using hge), List.getElem?_eq_none hge]
              rfl
          have hnew : (s.accepted ++ [data]).length = s.accepted.length + 1 := List.length_append
          refine ⟨t, on, { h with
            ring := ?_
            sent := ?_
            flag := Or.inl hzero
            pc := ?_ }⟩
          · rw [comp_update_packet, hpacket, hnew]
            exact h.ring.push hroom data
          · rw [List.take_append_of_le_length h.ring.le]
            exact h.sent
          · refine ⟨fun hon => ?_, hzero, fun hon => ?_, ?_, s.accepted.length, hnew, rfl⟩
            · rw [hnew, (hturn hon).eq_of_zero hzero]
            · rw [hnew]
              exact hoff hon
            · rw [hnew]
              exact hpos
  | copied bipp =>
      rw [hs] at hpc
      obtain ⟨hlen, hzero, hat⟩ := hpc
      refine ⟨t, on, { h with
        flag := Or.inr (Or.inl rfl)
        fresh := fun hon hnone => ?_
        due := fun _ hdue => hnodue hdue
        pc := ⟨fun hon => ?_, fun _ => rfl, hat⟩ }⟩
      · subst hon
        exact absurd hnone (h.sent_pos (Or.inl hzero)).ne'
      · have hturn : Turn { s with popFlag := usbEpDtogRx } t ↔ s.accepted.length = t + 3 :=
          turn_iff_of_flag rfl hirq
        exact hturn.mpr (hlen hon)
  | flagged bipp =>
      have hplain := h.plain (by simp [hs]) (by simp [hs])
      rw [hs] at hpc
      obtain ⟨hturn, hoff, hat⟩ := hpc
      refine ⟨t, on, { h with
        flag := hplain.imp id Or.inl
        pc := ⟨hturn, fun hon => ⟨hoff hon, ?_⟩, hat, fun hon _ _ => ?_⟩ }⟩
      · subst hon
        exact h.waits
      · subst hon
        exact h.blocking_iff (h.sent_pos hplain)
  | looked bipp epr =>
      have hplain := h.plain (by simp [hs]) (by simp [hs])
      rw [hs] at hpc
      obtain ⟨hturn, hoff, hat, hlook⟩ := hpc
      dsimp only
      split_ifs with hnotify
      · refine ⟨t, on, { h with
          flag := hplain.imp id Or.inl
          pc := ⟨fun hon => ⟨hq, ?_, ?_⟩, fun hon => (hoff hon).2, hat⟩ }⟩
        · exact (turn_iff_of_flag (hplain.resolve_left hnotify.2) hirq).mp (hturn hon)
        · exact (hlook hon hq hnotify.2).mp hnotify.1
      · have hon : on = true := by
          cases on with
          | true => rfl
          | false =>
              obtain ⟨hflag, hwaits⟩ := hoff rfl
              exact absurd ⟨hwaits.1, by rw [hflag]; decide⟩ hnotify
        subst hon
        refine ⟨t, true, { h with
          flag := hplain.imp id Or.inl
          pc := ⟨hturn, Bool.noConfusion, hat.2.1, fun _ hne => ?_⟩ }⟩
        have hfree : s.sent.length ≠ t + 2 := fun hlen =>
          hnotify ⟨(hlook rfl hq hne).mpr hlen, hne⟩
        exact lt_of_le_of_ne h.le hfree
  | notify bipp epr =>
      rw [hs] at hpc
      obtain ⟨hon, hoff, hat⟩ := hpc
      refine ⟨t, on, { h with
        flag := Or.inl rfl
        fresh := fun hstart hnone => ?_
        due := fun hflag => absurd (show (0 : Word) = usbEpDtogRx from hflag) (by decide)
        pc := ⟨hon, hoff, hat, rfl⟩ }⟩
      have hlen := (hon hstart).2.2
      exact absurd (hlen.symm.trans hnone) (Nat.succ_ne_zero _)
  | cleared bipp epr =>
      rw [hs] at hpc
      obtain ⟨hon, hoff, ⟨hsmall, hpos, k, hk, rfl⟩, hzero⟩ := hpc
      dsimp only
      cases on with
      | false =>
          have hsmall := hsmall rfl
          have hbegun := h.begun
          have hlow := (h.off rfl).1
          rw [if_pos ((posOf_start false k).mpr rfl)]
          split_ifs with hfull
          · have htwo : s.accepted.length = 2 := by
              have hodd := (posOf_full k).mp hfull
              rw [odd, decide_eq_true_iff] at hodd
              omega
            exact ⟨t, false, { h with
              flag := Or.inr (Or.inr ⟨rfl, by omega, Or.inr ⟨epr, rfl⟩⟩)
              fresh := Bool.noConfusion
              due := fun hflag => absurd (show usbEpKind = usbEpDtogRx from hflag) (by decide)
              pc := ⟨rfl, hoff rfl, htwo, rfl, rfl⟩ }⟩
          · have hone : s.accepted.length < 2 := by
              have hodd := (posOf_full k).not.mp hfull
              rw [odd, decide_eq_true_iff] at hodd
              omega
            exact ⟨t, false, { h with
              flag := Or.inl hzero
              pc := ⟨Bool.noConfusion, fun _ => ⟨hzero, hone⟩, hpos, fun _ hne => absurd hzero hne⟩ }⟩
      | true =>
          obtain ⟨-, hall, hlen⟩ := hon rfl
          have hstarted : ¬ (posOf true k &&& biStart ≠ 0) := fun hne =>
            Bool.noConfusion ((posOf_start true k).mp hne)
          have hbit : ∀ i < 32, eprTbits.getLsbD i = true →
              (eprWrite s.epr (calcEprBits epr 0 0 ||| usbEpDtogRx)).getLsbD i =
                (s.epr.getLsbD i ^^ usbEpDtogRx.getLsbD i) := fun i hi ht =>
            getLsbD_eprWrite_toggle s.epr epr 0 usbEpDtogRx hi ht BitVec.getLsbD_zero
          have hctr := getLsbD_eprWrite_ctr s.epr epr 0 usbEpDtogRx
            (show 7 < 32 by decide) (by decide)
          rw [hq.2, Bool.false_and] at hctr
          rw [if_neg hstarted]
          refine ⟨t + 1, true, { h with
            dtogTx := ?_
            dtogRx := ?_
            stat := ⟨?_, ?_⟩
            le := hlen.le.trans (Nat.le_succ _)
            begun := Or.inr hlen.ge
            flag := Or.inl hzero
            off := Bool.noConfusion
            busy := fun hbusy => absurd ⟨hq.1, hctr⟩ hbusy
            due := fun hflag => absurd (hzero.symm.trans hflag) (by decide)
            pc := ⟨fun _ => ?_, Bool.noConfusion, hpos, fun _ hne => absurd hzero hne⟩ }⟩
          · rw [hbit 6 (by decide) (by decide), h.dtogTx]
            exact Bool.xor_false _
          · rw [hbit 14 (by decide) (by decide), h.dtogRx, odd_succ]
            exact Bool.xor_true _
          · rw [hbit 4 (by decide) (by decide), h.stat.1]
            exact Bool.xor_false _
          · rw [hbit 5 (by decide) (by decide), h.stat.2]
            exact Bool.xor_false _
          · exact (turn_iff (Or.inl (by rw [hzero]; decide))).mpr hall
  | start epr =>
      rw [hs] at hpc
      obtain ⟨rfl, hwaits, htwo, hkind, hpos⟩ := hpc
      have hlow := (h.off rfl).1
      have hbegun := h.begun
      obtain rfl : t = 0 := by omega
      have hbit := fun i hi => getLsbD_eprUpdate s.epr epr usbEptxStat usbEpTxValid (i := i) hi
      have hkeep : ∀ i < 32, usbEptxStat.getLsbD i = false → eprRwbits.getLsbD i = false →
          (eprWrite s.epr (calcEprBits epr usbEptxStat usbEpTxValid)).getLsbD i =
            s.epr.getLsbD i := fun i hi hmask hrw => by
        rw [hbit i hi, hmask, hrw]
        simp
      have hctr := (hkeep 7 (by decide) (by decide) (by decide)).trans hq.2
      refine ⟨0, true, { h with
        dtogTx := ?_
        dtogRx := ?_
        stat := ⟨?_, ?_⟩
        begun := Or.inl ⟨hlow, rfl⟩
        flag := Or.inr (Or.inr ⟨hkind, rfl, Or.inl rfl⟩)
        off := Bool.noConfusion
        busy := fun hbusy => absurd ⟨hq.1, hctr⟩ hbusy
        fresh := fun _ _ => hkind
        due := fun hflag => absurd (hkind.symm.trans hflag) (by decide)
        pc := ⟨fun _ => ?_, Bool.noConfusion, ?_, fun _ _ => ?_⟩ }⟩
      · rw [hkeep 6 (by decide) (by decide) (by decide)]
        exact h.dtogTx
      · rw [hkeep 14 (by decide) (by decide) (by decide)]
        exact h.dtogRx
      · rw [hbit 4 (by decide), hwaits.2.1, h.stat.1]
        decide
      · rw [hbit 5 (by decide), hwaits.2.2, h.stat.2]
        decide
      · exact (turn_iff (Or.inl (by rw [hkind]; decide))).mpr htwo
      · show s.pushPos = posOf true s.accepted.length
        rw [hpos, htwo]
        decide
      · show s.sent.length < 0 + 2
        omega

theorem Good.step (h : Good s t on) (e : InEvent) : ∃ t' on', Good (s.step e) t' on' := by
  cases e with
  | call data =>
      rw [BulkIn.step]
      split_ifs with hq
      · exact ⟨t, on, h.call data⟩
      · exact ⟨t, on, h⟩
  | task =>
      rw [BulkIn.step]
      split_ifs with hq
      · exact h.task hq
      · exact ⟨t, on, h⟩
  | irq =>
      obtain ⟨t', hirq⟩ := h.irqHandler
      exact ⟨t', on, hirq⟩
  | transmit => exact ⟨t, on, h.transmit⟩

theorem Good.run (h : Good s t on) (events : List InEvent) :
    ∃ t' on', Good (s.run events) t' on' := by
  induction events generalizing s t on with
  | nil => exact ⟨t, on, h⟩
  | cons e events ih =>
      obtain ⟨t', on', hstep⟩ := h.step e
      exact ih hstep

end BulkIn

/-- **No packet to the host is lost, and none goes out twice.** Over every run, the packets that the
host has taken are the first of those that `usb_send_bulk_in` has accepted, each whole, once and in
order, and at most two are missing. A packet is never written to the buffer that is being sent.
Between two calls, with no interrupt to come, the controller has a packet to send if the next call
finds no room, and if it has none then all have been sent, save that the first packet waits for the
second. -/
theorem dbufIn_exact (bufs : Fin 2 → Buf) (events : List InEvent) :
    let s := (BulkIn.usbSetConfigure bufs).run events
    s.sent = s.accepted.take s.sent.length ∧ s.accepted.length ≤ s.sent.length + 2 ∧
      (∀ bipp data i, s.pc = .copy bipp data i → s.sends = true →
        BulkIn.bufnum bipp ≠ dbuf (s.epr.getLsbD 6)) ∧
      (s.pc = .idle → s.Quiet → (s.popFlag ≠ 0 → s.sends = true) ∧
        (s.sends = false → s.sent = s.accepted ∨ s.accepted.length = 1)) := by
  intro s
  obtain ⟨t, on, h⟩ : ∃ t on, BulkIn.Good s t on :=
    (BulkIn.Good.usbSetConfigure bufs).run events
  have hpc := h.pc
  refine ⟨h.sent, h.ring.room, fun bipp data i hs hsends => ?_, fun hs hq => ?_⟩
  · rw [hs] at hpc
    obtain ⟨hturn, -, hzero, rfl, -⟩ := hpc
    obtain ⟨rfl, hlen⟩ := h.of_sends hsends
    have hpos := h.sent_pos (Or.inl hzero)
    have hall := (hturn rfl).eq_of_zero hzero
    rw [bufnum_posOf, h.dtogTx, dbuf_odd]
    exact (RingLog.ofNat_ne (by omega) (by omega)).symm
  · rw [hs] at hpc
    obtain ⟨hturn, hoff, -, hwait⟩ := hpc
    refine ⟨fun hne => ?_, fun hidle => ?_⟩
    · cases on with
      | false => exact absurd (hoff rfl).1 hne
      | true => exact h.sends_of_lt (hwait hq hne)
    · cases on with
      | false =>
          have hnone := List.length_eq_zero_iff.mp (h.off rfl).1
          have hfew := (hoff rfl).2
          rcases Nat.lt_or_eq_of_le (Nat.le_of_lt_succ hfew) with hempty | hone
          · refine Or.inl (hnone.trans ?_)
            exact (List.length_eq_zero_iff.mp (Nat.lt_one_iff.mp hempty)).symm
          · exact Or.inr hone
      | true =>
          have hdone : ¬ s.sent.length < t + 2 := fun hlt => by
            rw [h.sends_of_lt hlt] at hidle
            exact Bool.noConfusion hidle
          have hzero : s.popFlag = 0 := by
            by_contra hne
            exact hdone (hwait hq hne)
          have hall := (hturn rfl).eq_of_zero hzero
          left
          rw [h.sent, List.take_of_length_le (by omega)]

end Terraboot.Usbfs
