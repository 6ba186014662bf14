import Terraboot.Can2040Queue

/-!
# Every Run of the Controller

What the controller does next depends on what it has received, on the interrupts that are enabled, on
the report that is due and on the transmission under way, and all four change together. This module
says what holds of them after any received words, interrupts, overflows and calls of
`can2040_transmit`: a frame is reported only behind its data, what is confirmed is the oldest message,
and an interrupt that hands over the next message is always enabled or about to be.

## Main results

* `Sound.lineEvent`, `Sound.dataStateUpdate`, `Sound.senderStep`: everything that can happen keeps
  the state sound.
* `run_regroups`: where the groups of received bits begin and end does not matter.
* `run_delivers`: messages are confirmed in the order in which they were accepted, and nothing but the
  oldest one is ever handed over.
* `run_wakes`: no message is forgotten.
-/

open MsbBits

namespace Terraboot.Can2040

/-! ### Reports -/

/-- The controller takes what comes in for the echo of its own oldest message. -/
structure Own (cd : State) : Prop where
  pending : cd.txPushPos ≠ cd.txPullPos
  txState_ne : cd.txState ≠ .queued
  parseMsg_eq : cd.parseMsg = (oldest cd).msg
  ackdone_eq : cd.pio.inte0.ackdone = false
  txpending_eq : cd.pio.inte0.txpending = false

/-- **A confirmed message** is the oldest one, and is removed. -/
theorem SendInv.reportCallbackTxMsg {cd : State} (h : SendInv cd) (hown : Own cd) :
    SendInv (reportCallbackTxMsg cd) := by
  obtain ⟨log, lo, hi, hq⟩ := h.queue
  have hlt := hq.pending_iff.mp hown.pending
  have hmsg : cd.parseMsg = (cd.txQueue (Fin.ofNat 4 lo)).msg := by
    rw [hown.parseMsg_eq, hq.oldest_eq]
  refine ⟨⟨log, lo + 1, hi, hq.ring.pop hlt, ?_, hq.push, hq.accepted, ?_, ?_⟩,
    fun hqueued => absurd hqueued hown.txState_ne, fun _ => h.flag hown.pending⟩
  · change cd.txPullPos + 1 = _
    rw [hq.pull, BitVec.ofNat_add]
    rfl
  · change (cd.calls ++ [Notify.tx cd.parseMsg]).filterMap Notify.confirmed = _
    rw [List.filterMap_append, hq.confirmed, hq.ring.front hlt, List.map_append, hmsg]
    rfl
  · intro msg hfilled
    obtain ⟨hroom, hslot⟩ := hq.filled msg hfilled
    exact ⟨by omega, hslot⟩

theorem SendInv.reportHandleEof {cd : State} (h : SendInv cd)
    (hown : cd.reportState.isTx = true → Own cd) : SendInv (reportHandleEof cd) := by
  cases hstate : cd.reportState with
  | needTxEof =>
      obtain ⟨hpending, hne, hmsg, hack, htx⟩ := hown (by rw [hstate]; rfl)
      have hstart : SendInv (pioSyncNormalStartSignal cd) :=
        h.congr rfl rfl rfl rfl rfl rfl id (fun _ => .inl rfl) id
      have hcall := hstart.reportCallbackTxMsg ⟨hpending, hne, hmsg, hack, htx⟩
      rw [reportHandleEof_tx hstate]
      exact hcall.congr rfl rfl rfl rfl rfl rfl id (fun _ => .inl rfl) id
  | needRxEof =>
      have hcalls : (cd.calls ++ [Notify.rx cd.parseMsg]).filterMap Notify.confirmed =
          cd.calls.filterMap Notify.confirmed := by
        rw [List.filterMap_append]
        exact List.append_nil _
      rw [reportHandleEof_rx hstate]
      exact h.congr rfl rfl rfl rfl rfl hcalls id (fun _ => .inl rfl) id
  | _ =>
      rw [reportHandleEof_of_not (by rw [hstate]; rfl)]
      exact h.congr rfl rfl rfl rfl rfl rfl id (fun _ => .inl rfl) id

/-! ### Interrupts and the parser -/

section

variable (window : List SenderStep) (cd : State)

theorem txScheduleTransmit_parser_eq :
    (txScheduleTransmit (window.foldl senderStep ·) cd).1.parser = cd.parser :=
  congrArg Receiver.parser (txScheduleTransmit_receiver window cd)

theorem reportHandleEof_parser_eq : (reportHandleEof cd).parser = cd.parser := by
  obtain ⟨_, _, _, _, heof⟩ := reportHandleEof_eq cd
  rw [heof]
  rfl

theorem reportLineAckdone_parser_eq :
    (reportLineAckdone (window.foldl senderStep ·) cd).parser = cd.parser := by
  rw [reportLineAckdone]
  exact txScheduleTransmit_parser_eq window (pioMatchCheck cd _)

theorem reportLineMatched_parser_eq :
    (reportLineMatched (window.foldl senderStep ·) cd).parser = cd.parser := by
  have heof := reportHandleEof_parser_eq { cd with reportState := cd.reportState.setEofFlag }
  rw [reportLineMatched]
  split_ifs
  · exact (txScheduleTransmit_parser_eq window _).trans heof
  · exact txScheduleTransmit_parser_eq window cd

theorem reportLineMaytx_parser_eq :
    (reportLineMaytx (window.foldl senderStep ·) cd).parser = cd.parser := by
  rw [reportLineMaytx]
  split_ifs
  · exact (txScheduleTransmit_parser_eq window _).trans (reportHandleEof_parser_eq cd)
  · exact txScheduleTransmit_parser_eq window cd

theorem reportLineTxpending_parser_eq :
    (reportLineTxpending (window.foldl senderStep ·) cd).parser = cd.parser := by
  rw [reportLineTxpending]
  dsimp only
  split_ifs
  · rfl
  · exact txScheduleTransmit_parser_eq window cd

/-- **No interrupt disturbs the parser.** -/
theorem lineEvent_parser_eq (maytx matched ackdone : Bool) :
    (lineEvent maytx matched ackdone (window.foldl senderStep ·) cd).parser = cd.parser := by
  rw [lineEvent]
  split_ifs
  · exact reportLineAckdone_parser_eq window cd
  · exact reportLineMatched_parser_eq window cd
  · exact reportLineMaytx_parser_eq window cd
  · exact reportLineTxpending_parser_eq window cd
  · rfl

end

/-! ### Everything together -/

/-- The data of the frame have come. -/
def ParseState.afterData : ParseState → Bool
  | .crc | .ack | .eof0 | .eof1 => true
  | _ => false

/-- The frame has begun, and its data have not come. -/
def ParseState.beforeCrc : ParseState → Bool
  | .header | .extHeader | .data0 | .data1 => true
  | _ => false

/-- What holds of every state. -/
structure Sound (cd : State) : Prop extends SendInv cd where
  quiet : cd.parseState.afterData = false → cd.reportState = .idle
  masked : cd.parseState.beforeCrc = true →
    cd.pio.inte0.ackdone = false ∧ (cd.pio.inte0.txpending = true → cd.txState ≠ .queued)
  own : cd.reportState.isTx = true → Own cd
  armed : cd.txState = .queued ∨ cd.pio.inte0.maytx = true ∨
    cd.pio.inte0.txpending = true ∨ cd.parseState = .crc ∧ cd.reportState = .needTxAck

theorem SendInv.pioIrqSet {cd : State} (h : SendInv cd) (irqs : Irqs) : SendInv (pioIrqSet cd irqs) :=
  h.congr rfl rfl rfl rfl rfl rfl id (fun _ => .inl rfl) id

/-- The next message is handed over, and some interrupts are enabled. -/
theorem SendInv.sound_schedule {cd : State} (h : SendInv cd)
    (hquiet : cd.parseState.afterData = false → cd.reportState = .idle)
    (hnot : cd.reportState.isTx = false) (window : List SenderStep) {irqs : Irqs}
    (htx : irqs.txpending =
      (Can2040.txScheduleTransmit (window.foldl Can2040.senderStep ·) cd).2)
    (hack : cd.parseState.beforeCrc = true → irqs.ackdone = false) :
    Sound (Can2040.pioIrqSet
      (Can2040.txScheduleTransmit (window.foldl Can2040.senderStep ·) cd).1 irqs) := by
  have hsend := h.txScheduleTransmit window
  have hframe := txScheduleTransmit_receiver window cd
  have hcheck := txScheduleTransmit_snd window cd
  obtain ⟨r, hr⟩ : ∃ r, Can2040.txScheduleTransmit (window.foldl Can2040.senderStep ·) cd = r :=
    ⟨_, rfl⟩
  rw [hr] at htx hsend hframe hcheck ⊢
  have hparse : r.1.parseState = cd.parseState := congrArg (fun r => r.parser.parseState) hframe
  have hreport : r.1.reportState = cd.reportState := congrArg Receiver.reportState hframe
  rw [hcheck] at htx
  refine ⟨hsend.pioIrqSet irqs, fun hbefore => ?_, fun hbefore => ⟨?_, fun hon => ?_⟩,
    fun hown => ?_, ?_⟩
  · exact hreport.trans (hquiet (hparse ▸ hbefore))
  · exact hack (hparse ▸ hbefore)
  · exact of_decide_eq_true (htx.symm.trans hon)
  · have hcd : cd.reportState.isTx = true := hreport ▸ hown
    exact absurd (hnot.symm.trans hcd) Bool.false_ne_true
  · by_cases hqueued : r.1.txState = .queued
    · exact .inl hqueued
    · exact .inr (.inr (.inl (htx.trans (decide_eq_true hqueued))))

/-- A frame is reported, or given up, and then the next message is handed over. -/
theorem SendInv.sound_reportLineEof {cd : State} (h : SendInv cd) (hidle : cd.reportState = .idle)
    (window : List SenderStep) :
    Sound (let r := Can2040.txScheduleTransmit (window.foldl Can2040.senderStep ·) cd
      Can2040.pioIrqSet r.1 { txpending := r.2 }) :=
  h.sound_schedule (fun _ => hidle) (hidle ▸ rfl) window rfl fun _ => rfl

/-! ### The interrupts -/

section

variable {cd : State} (h : Sound cd) (window : List SenderStep)

include h

theorem Sound.not_isTx_of_ackdone (hack : cd.pio.inte0.ackdone = true) :
    cd.reportState.isTx = false := by
  rw [Bool.eq_false_iff]
  intro hown
  exact Bool.false_ne_true ((h.own hown).ackdone_eq.symm.trans hack)

theorem Sound.not_isTx_of_txpending (htx : cd.pio.inte0.txpending = true) :
    cd.reportState.isTx = false := by
  rw [Bool.eq_false_iff]
  intro hown
  exact Bool.false_ne_true ((h.own hown).txpending_eq.symm.trans htx)

theorem Sound.reportLineAckdone (hack : cd.pio.inte0.ackdone = true) :
    Sound (reportLineAckdone (window.foldl senderStep ·) cd) := by
  have hbefore (hb : cd.parseState.beforeCrc = true) : False :=
    Bool.false_ne_true ((h.masked hb).1.symm.trans hack)
  rw [Can2040.reportLineAckdone]
  obtain ⟨key, hkey⟩ : ∃ key,
      pioMatchCalcKey ((cd.parseCrcBits <<< 8) ||| 0x7f#32) (cd.parseCrcPos + 8) = key := ⟨_, rfl⟩
  rw [hkey]
  have hmatch : SendInv (pioMatchCheck cd key) :=
    h.toSendInv.congr rfl rfl rfl rfl rfl rfl id (fun _ => .inl rfl) id
  exact hmatch.sound_schedule h.quiet (h.not_isTx_of_ackdone hack) window rfl
    fun hb => (hbefore hb).elim

theorem Sound.reportLineMatched : Sound (reportLineMatched (window.foldl senderStep ·) cd) := by
  rw [Can2040.reportLineMatched]
  by_cases hidle : cd.reportState = .idle
  · rw [if_neg (not_not.mpr hidle)]
    exact h.toSendInv.sound_reportLineEof hidle window
  · rw [if_pos hidle]
    have hflag : SendInv { cd with reportState := cd.reportState.setEofFlag } :=
      h.toSendInv.congr rfl rfl rfl rfl rfl rfl id (fun _ => .inl rfl) id
    have hisTx : cd.reportState.setEofFlag.isTx = cd.reportState.isTx := by
      cases cd.reportState <;> rfl
    refine (hflag.reportHandleEof fun hown => ?_).sound_reportLineEof rfl window
    obtain ⟨hpending, hne, hmsg, hack, htx⟩ := h.own (hisTx ▸ hown)
    exact ⟨hpending, hne, hmsg, hack, htx⟩

theorem Sound.reportLineMaytx : Sound (reportLineMaytx (window.foldl senderStep ·) cd) := by
  rw [Can2040.reportLineMaytx]
  by_cases hidle : cd.reportState = .idle
  · rw [if_neg (not_not.mpr hidle)]
    exact h.toSendInv.sound_reportLineEof hidle window
  · rw [if_pos hidle]
    exact (h.toSendInv.reportHandleEof h.own).sound_reportLineEof rfl window

theorem Sound.reportLineTxpending (htx : cd.pio.inte0.txpending = true) :
    Sound (reportLineTxpending (window.foldl senderStep ·) cd) := by
  have hnot := h.not_isTx_of_txpending htx
  rw [Can2040.reportLineTxpending]
  dsimp only
  split_ifs with hinject
  · -- an acknowledgement is due
    have hafter : cd.parseState.afterData = true := by
      by_contra hbefore
      have hidle := h.quiet (Bool.eq_false_iff.mpr hbefore)
      rw [hinject.2] at hidle
      cases hidle
    have hbefore : cd.parseState.beforeCrc = false := by
      cases hstate : cd.parseState <;> simp [hstate, ParseState.afterData, ParseState.beforeCrc] at hafter ⊢
    refine ⟨h.toSendInv.congr rfl rfl rfl rfl rfl rfl (fun hq => ?_) (fun hq => ?_) id, h.quiet,
      fun hb => ?_, fun hown => ?_, .inr (.inl rfl)⟩
    · cases hq
    · cases hq
    · exact absurd (hbefore.symm.trans hb) Bool.false_ne_true
    · exact absurd (hnot.symm.trans hown) Bool.false_ne_true
  · exact h.toSendInv.sound_schedule h.quiet hnot window rfl fun hb => (h.masked hb).1

/-- **Whatever interrupt is handled.** -/
theorem Sound.lineEvent (maytx matched ackdone : Bool) :
    Sound (lineEvent maytx matched ackdone (window.foldl senderStep ·) cd) := by
  rw [Can2040.lineEvent]
  split_ifs with hack hmatched hmaytx htx
  · exact h.reportLineAckdone window (Bool.and_eq_true_iff.mp hack).2
  · exact h.reportLineMatched window
  · exact h.reportLineMaytx window
  · exact h.reportLineTxpending window (Bool.and_eq_true_iff.mp htx).2
  · exact h

end

/-! ### Received bits -/

theorem SendInv.reportNoteDiscarding {cd : State} (h : SendInv cd) (numBits : ℕ) :
    Sound (reportNoteDiscarding (dataStateGoNext cd .discard numBits)) := by
  rw [Can2040.reportNoteDiscarding]
  by_cases hidle : cd.reportState = .idle
  · have hnone : ¬(dataStateGoNext cd .discard numBits).reportState ≠ .idle := not_not.mpr hidle
    rw [if_neg hnone]
    refine ⟨h.congr rfl rfl rfl rfl rfl rfl id (fun _ => .inl rfl) id, fun _ => hidle,
      fun hbefore => ?_, fun hown => ?_, .inr (.inl rfl)⟩
    · cases hbefore
    · have hisTx : ReportState.isTx .idle = true := hidle ▸ hown
      cases hisTx
  · have hsome : (dataStateGoNext cd .discard numBits).reportState ≠ .idle := hidle
    rw [if_pos hsome]
    refine ⟨h.congr rfl rfl rfl rfl rfl rfl id (fun _ => .inl rfl) id, fun _ => rfl,
      fun hbefore => ?_, fun hown => ?_, .inr (.inl rfl)⟩
    · cases hbefore
    · cases hown

/-- The state machines are set up anew. -/
theorem SendInv.pioSmSetup {cd : State} (h : SendInv cd) :
    SendInv (pioSmSetup (dataStateClearBits cd)) :=
  h.congr rfl rfl rfl rfl rfl rfl id (fun _ => .inr rfl) fun _ => rfl

/-- **A frame is given up.** -/
theorem SendInv.dataStateGoDiscard {cd : State} (h : SendInv cd) : Sound (dataStateGoDiscard cd) := by
  rw [Can2040.dataStateGoDiscard]
  split_ifs
  · have hcalls : (cd.calls ++ [Notify.error 0]).filterMap Notify.confirmed =
        cd.calls.filterMap Notify.confirmed := by
      rw [List.filterMap_append]
      exact List.append_nil _
    have herror : SendInv (reportCallbackError (Can2040.pioSmSetup (dataStateClearBits cd)) 0) :=
      h.pioSmSetup.congr rfl rfl rfl rfl rfl hcalls id (fun _ => .inl rfl) id
    exact herror.reportNoteDiscarding 32
  · exact h.reportNoteDiscarding 32

theorem SendInv.dataStateGoError {cd : State} (h : SendInv cd) : Sound (dataStateGoError cd) :=
  @SendInv.dataStateGoDiscard { cd with
    stats := { cd.stats with parseError := cd.stats.parseError + 1 } }
    (h.congr rfl rfl rfl rfl rfl rfl id (fun _ => .inl rfl) id)

/-- What is known while the data of a frame come. -/
structure Gathering (cd : State) : Prop extends SendInv cd where
  idle : cd.reportState = .idle
  ackdone_eq : cd.pio.inte0.ackdone = false
  txState_ne : cd.pio.inte0.txpending = true → cd.txState ≠ .queued
  armed : cd.txState = .queued ∨ cd.pio.inte0.maytx = true ∨
    cd.pio.inte0.txpending = true

theorem Sound.gathering {cd : State} (h : Sound cd) (hstate : cd.parseState.beforeCrc = true) :
    Gathering cd := by
  obtain ⟨hack, htx⟩ := h.masked hstate
  refine ⟨h.toSendInv, h.quiet ?_, hack, htx, ?_⟩
  · cases hs : cd.parseState <;> simp [hs, ParseState.beforeCrc] at hstate <;> rfl
  · rcases h.armed with hqueued | hmaytx | hon | hcrc
    · exact .inl hqueued
    · exact .inr (.inl hmaytx)
    · exact .inr (.inr hon)
    · rw [hcrc.1] at hstate
      cases hstate

/-- The parser writes down what it has found. -/
theorem Gathering.parse {cd : State} (h : Gathering cd) (unstuf : Unstuf) (msg : CanbusMsg)
    (crc crcBits crcPos : Word) : Gathering { cd with
      unstuf
      parseMsg := msg
      parseCrc := crc
      parseCrcBits := crcBits
      parseCrcPos := crcPos } :=
  ⟨h.toSendInv.congr rfl rfl rfl rfl rfl rfl id (fun _ => .inl rfl) id, h.idle, h.ackdone_eq,
    h.txState_ne, h.armed⟩

/-- More of the frame is to come. -/
theorem Gathering.dataStateGoNext {cd : State} (h : Gathering cd) (state : ParseState)
    (numBits : ℕ) : Sound (dataStateGoNext cd state numBits) := by
  refine ⟨h.toSendInv.congr rfl rfl rfl rfl rfl rfl id (fun _ => .inl rfl) id, fun _ => h.idle,
    fun _ => ⟨h.ackdone_eq, h.txState_ne⟩, fun hown => ?_, ?_⟩
  · have hisTx : ReportState.isTx .idle = true := h.idle ▸ hown
    cases hisTx
  · rcases h.armed with hqueued | hmaytx | htx
    · exact .inl hqueued
    · exact .inr (.inl hmaytx)
    · exact .inr (.inr (.inl htx))

/-- The frame is that of another sender. -/
theorem Gathering.other {cd : State} (h : Gathering cd) :
    Sound (Can2040.dataStateGoNext (pioIrqSet
      (pioSignalSetTxpending { cd with reportState := .needRxAck })
        { maytx := true, txpending := true }) .crc 16) := by
  refine ⟨h.toSendInv.congr rfl rfl rfl rfl rfl rfl id (fun _ => .inl rfl) fun _ => rfl,
    fun hafter => ?_, fun hbefore => ?_, fun hown => ?_, .inr (.inl rfl)⟩
  · cases hafter
  · cases hbefore
  · cases hown

/-- The frame is the echo of the oldest message. -/
theorem Gathering.echo {cd : State} (h : Gathering cd) (hqueued : cd.txState = .queued)
    (hmsg : cd.parseMsg = (oldest cd).msg) (key : Word) :
    Sound (Can2040.dataStateGoNext (pioMatchCheck
      { cd with txState := .confirmTx, reportState := .needTxAck } key) .crc 16) := by
  have htx : cd.pio.inte0.txpending = false :=
    Bool.eq_false_iff.mpr fun hon => h.txState_ne hon hqueued
  refine ⟨h.toSendInv.congr rfl rfl rfl rfl rfl rfl (fun hq => ?_) (fun _ => .inl rfl) id,
    fun hafter => ?_, fun hbefore => ?_, fun _ => ?_, .inr (.inr (.inr ⟨rfl, rfl⟩))⟩
  · cases hq
  · cases hafter
  · cases hbefore
  · refine ⟨(h.sent hqueued).1, fun hq => ?_, hmsg, h.ackdone_eq, htx⟩
    cases hq

/-- **The checksum is to come**: what came before is the echo of the oldest message, another
message, or a conflict of the two. -/
theorem Gathering.dataStateGoCrc {cd : State} (h : Gathering cd) : Sound (dataStateGoCrc cd) := by
  have hexpect : Gathering (dataStateExpectCrc cd) := h.parse cd.unstuf cd.parseMsg _ _ _
  obtain ⟨cd', hcd'⟩ : ∃ cd', dataStateExpectCrc cd = cd' := ⟨_, rfl⟩
  rw [hcd'] at hexpect
  rw [Can2040.dataStateGoCrc, hcd', reportNoteCrcStart, txCheckLocalMessage]
  by_cases hqueued : cd'.txState = .queued
  · rw [if_neg (not_not.mpr hqueued)]
    dsimp only
    by_cases hid : (cd'.txQueue (txQpos cd'.txPullPos)).msg.id = cd'.parseMsg.id
    · rw [if_pos hid]
      split_ifs with hdiff
      · exact hexpect.toSendInv.dataStateGoError
      · rw [not_or, not_or, not_not, not_not, not_not] at hdiff
        exact hexpect.echo hqueued (CanbusMsg.ext hid hdiff.2.1 hdiff.2.2).symm _
    · rw [if_neg hid]
      exact hexpect.other
  · rw [if_pos hqueued]
    exact hexpect.other

theorem Gathering.dataStateGoData {cd : State} (h : Gathering cd) (id data : Word) :
    Sound (dataStateGoData cd id data) := by
  have hmsg := h.parse cd.unstuf (headerMsg id data) cd.parseCrc cd.parseCrcBits cd.parseCrcPos
  rw [Can2040.dataStateGoData]
  dsimp only
  split_ifs
  · exact h.toSendInv.dataStateGoDiscard
  all_goals first
    | exact hmsg.dataStateGoNext _ _
    | exact hmsg.dataStateGoCrc

theorem Sound.unstuf {cd : State} (h : Sound cd) (unstuf : Unstuf) (n : Word) :
    Sound { cd with unstuf, rawBitCount := n } := by
  refine ⟨h.toSendInv.congr rfl rfl rfl rfl rfl rfl id (fun _ => .inl rfl) id, h.quiet, h.masked,
    fun hown => ?_, h.armed⟩
  obtain ⟨hpending, hne, hmsg, hack, htx⟩ := h.own hown
  exact ⟨hpending, hne, hmsg, hack, htx⟩

section

variable {cd : State} (h : Sound cd) (data : Word)

include h

theorem Sound.dataStateUpdateStart (hstate : cd.parseState = .start) :
    Sound (dataStateUpdateStart cd data) := by
  have hidle : cd.reportState = .idle := h.quiet (hstate ▸ rfl)
  refine ⟨h.toSendInv.congr rfl rfl rfl rfl rfl rfl id (fun _ => .inl rfl) id, fun _ => hidle,
    fun _ => ⟨rfl, fun hon => ?_⟩, fun hown => ?_, .inr (.inl rfl)⟩
  · cases hon
  · have hisTx : ReportState.isTx .idle = true := hidle ▸ hown
    cases hisTx

theorem Sound.dataStateUpdateHeader (hstate : cd.parseState = .header) :
    Sound (dataStateUpdateHeader cd data) := by
  have hgather := h.gathering (hstate ▸ rfl)
  rw [Can2040.dataStateUpdateHeader]
  dsimp only
  split_ifs
  · exact (hgather.parse cd.unstuf { cd.parseMsg with id := data ||| (cd.parseMsg.id <<< 17) }
      cd.parseCrc cd.parseCrcBits cd.parseCrcPos).dataStateGoNext _ _
  · exact (hgather.parse cd.unstuf cd.parseMsg (crcBytes 0 (data ||| (cd.parseMsg.id <<< 17)) 3)
      cd.parseCrcBits cd.parseCrcPos).dataStateGoData _ _

theorem Sound.dataStateUpdateExtHeader (hstate : cd.parseState = .extHeader) :
    Sound (dataStateUpdateExtHeader cd data) :=
  ((h.gathering (hstate ▸ rfl)).parse cd.unstuf cd.parseMsg _ cd.parseCrcBits
    cd.parseCrcPos).dataStateGoData _ _

theorem Sound.dataStateUpdateData0 (hstate : cd.parseState = .data0) :
    Sound (dataStateUpdateData0 cd data) := by
  have hgather := (h.gathering (hstate ▸ rfl)).parse cd.unstuf
    (setData32Low cd.parseMsg
      (data <<< (32 - if 4 ≤ cd.parseMsg.dlc.toNat then 32 else cd.parseMsg.dlc.toNat * 8)))
    (crcBytes cd.parseCrc data cd.parseMsg.dlc.toNat) cd.parseCrcBits cd.parseCrcPos
  rw [Can2040.dataStateUpdateData0]
  by_cases hmore : 4 < cd.parseMsg.dlc.toNat
  · rw [if_pos hmore]
    exact hgather.dataStateGoNext _ _
  · rw [if_neg hmore]
    exact hgather.dataStateGoCrc

theorem Sound.dataStateUpdateData1 (hstate : cd.parseState = .data1) :
    Sound (dataStateUpdateData1 cd data) :=
  ((h.gathering (hstate ▸ rfl)).parse cd.unstuf (setData32High cd.parseMsg _) _ cd.parseCrcBits
    cd.parseCrcPos).dataStateGoCrc

end

/-- What is known while the end of a frame comes. -/
structure Ending (cd : State) : Prop extends SendInv cd where
  own : cd.reportState.isTx = true → Own cd
  armed : cd.txState = .queued ∨ cd.pio.inte0.maytx = true ∨
    cd.pio.inte0.txpending = true

theorem Sound.ending {cd : State} (h : Sound cd)
    (hcrc : cd.parseState ≠ .crc ∨ cd.reportState ≠ .needTxAck) : Ending cd := by
  refine ⟨h.toSendInv, h.own, ?_⟩
  rcases h.armed with hqueued | hmaytx | hon | ⟨hparse, hreport⟩
  · exact .inl hqueued
  · exact .inr (.inl hmaytx)
  · exact .inr (.inr hon)
  · rcases hcrc with hne | hne
    · exact absurd hparse hne
    · exact absurd hreport hne

theorem Ending.dataStateGoNext {cd : State} (h : Ending cd) (unstuf : Unstuf) {state : ParseState}
    (hstate : state.afterData = true ∨ cd.reportState = .idle) (hbefore : state.beforeCrc = false)
    (numBits : ℕ) : Sound (dataStateGoNext { cd with unstuf } state numBits) := by
  refine ⟨h.toSendInv.congr rfl rfl rfl rfl rfl rfl id (fun _ => .inl rfl) id, fun hafter => ?_,
    fun hb => absurd (hbefore.symm.trans hb) Bool.false_ne_true, fun hown => ?_, ?_⟩
  · exact hstate.resolve_left fun ha => Bool.false_ne_true (hafter.symm.trans ha)
  · obtain ⟨hpending, hne, hmsg, hack, htx⟩ := h.own hown
    exact ⟨hpending, hne, hmsg, hack, htx⟩
  · rcases h.armed with hqueued | hmaytx | htx
    · exact .inl hqueued
    · exact .inr (.inl hmaytx)
    · exact .inr (.inr (.inl htx))

/-- The checksum is right. -/
theorem Sound.reportNoteCrcSuccess {cd : State} (h : Sound cd) : Ending (reportNoteCrcSuccess cd) := by
  rw [Can2040.reportNoteCrcSuccess]
  split_ifs with hack
  · refine ⟨h.toSendInv.pioIrqSet _, fun hown => ?_, .inr (.inl rfl)⟩
    obtain ⟨hpending, hne, hmsg, -, -⟩ := h.own hown
    exact ⟨hpending, hne, hmsg, rfl, rfl⟩
  · exact h.ending (.inr hack)

/-- The frame has been acknowledged. -/
theorem Ending.reportNoteAckSuccess {cd : State} (h : Ending cd) :
    Ending (reportNoteAckSuccess cd) := by
  have hisTx : cd.reportState.setEofFlag.isTx = cd.reportState.isTx := by
    cases cd.reportState <;> rfl
  rw [Can2040.reportNoteAckSuccess]
  split_ifs
  · exact h
  · refine ⟨h.toSendInv.congr rfl rfl rfl rfl rfl rfl id (fun _ => .inl rfl) id, fun hown => ?_,
      h.armed⟩
    obtain ⟨hpending, hne, hmsg, hack, htx⟩ := h.own (hisTx ▸ hown)
    exact ⟨hpending, hne, hmsg, hack, htx⟩

/-- **The frame has ended**, and is reported unless it has been already. -/
theorem Ending.reportNoteEofSuccess {cd : State} (h : Ending cd) :
    Ending (reportNoteEofSuccess cd) ∧ (reportNoteEofSuccess cd).reportState = .idle := by
  rw [Can2040.reportNoteEofSuccess]
  split_ifs with hidle
  · exact ⟨h, hidle⟩
  · refine ⟨⟨(h.toSendInv.reportHandleEof h.own).pioIrqSet _, fun hown => ?_,
      .inr (.inr rfl)⟩, rfl⟩
    cases hown

section

variable {cd : State} (h : Sound cd) (data : Word)

include h

theorem Sound.dataStateUpdateCrc : Sound (dataStateUpdateCrc cd data) := by
  rw [Can2040.dataStateUpdateCrc]
  split_ifs
  · exact h.toSendInv.dataStateGoError
  · exact h.reportNoteCrcSuccess.dataStateGoNext _ (.inl rfl) rfl 2

theorem Sound.dataStateUpdateAck (hstate : cd.parseState = .ack) :
    Sound (dataStateUpdateAck cd data) := by
  have hending := h.ending (.inl (hstate ▸ by simp))
  rw [Can2040.dataStateUpdateAck]
  split_ifs
  · exact SendInv.dataStateGoError
      (h.toSendInv.congr rfl rfl rfl rfl rfl rfl id (fun _ => .inl rfl) id)
  · exact hending.reportNoteAckSuccess.dataStateGoNext _ (.inl rfl) rfl 4

theorem Sound.dataStateUpdateEof0 (hstate : cd.parseState = .eof0) :
    Sound (dataStateUpdateEof0 cd data) := by
  rw [Can2040.dataStateUpdateEof0]
  split_ifs
  · exact h.toSendInv.dataStateGoError
  · exact (h.ending (.inl (hstate ▸ by simp))).dataStateGoNext _ (.inl rfl) rfl 5

theorem Sound.dataStateUpdateEof1 (hstate : cd.parseState = .eof1) :
    Sound (dataStateUpdateEof1 cd data) := by
  obtain ⟨hending, hidle⟩ := (h.ending (.inl (hstate ▸ by simp))).reportNoteEofSuccess
  rw [Can2040.dataStateUpdateEof1]
  split_ifs
  · exact hending.dataStateGoNext _ (.inr hidle) rfl 1
  · exact hending.toSendInv.dataStateGoDiscard
  · exact h.toSendInv.dataStateGoError

/-- **Whatever field is parsed.** -/
theorem Sound.dataStateUpdate : Sound (dataStateUpdate cd data) := by
  rw [Can2040.dataStateUpdate]
  cases hstate : cd.parseState with
  | start => exact h.dataStateUpdateStart data hstate
  | header => exact h.dataStateUpdateHeader data hstate
  | extHeader => exact h.dataStateUpdateExtHeader data hstate
  | data0 => exact h.dataStateUpdateData0 data hstate
  | data1 => exact h.dataStateUpdateData1 data hstate
  | crc => exact h.dataStateUpdateCrc data
  | ack => exact h.dataStateUpdateAck data hstate
  | eof0 => exact h.dataStateUpdateEof0 data hstate
  | eof1 => exact h.dataStateUpdateEof1 data hstate
  | discard => exact h.toSendInv.dataStateGoDiscard

theorem Sound.dataStateLinePassive : Sound (dataStateLinePassive cd) := by
  rw [Can2040.dataStateLinePassive]
  dsimp only
  split_ifs with hbusy
  · exact h.toSendInv.dataStateGoError
  · exact h.toSendInv.pioSmSetup.dataStateGoDiscard
  · have hidle : cd.reportState = .idle := by
      refine h.quiet ?_
      rw [not_and_or, not_not, not_not] at hbusy
      rcases hbusy with hstate | hstate <;> rw [hstate] <;> rfl
    refine (h.ending (.inr ?_)).dataStateGoNext cd.unstuf (.inr hidle) rfl 1
    rw [hidle]
    simp
  · exact h.toSendInv.dataStateGoDiscard

theorem Sound.dataStateLineError : Sound (dataStateLineError cd) := by
  rw [Can2040.dataStateLineError]
  split_ifs
  · exact h.toSendInv.dataStateGoDiscard
  · exact h.toSendInv.dataStateGoError

end

theorem keptByParser_sound : KeptByParser Sound where
  unstuf _ unstuf n h := h.unstuf unstuf n
  update _ data h := h.dataStateUpdate data
  linePassive _ h := h.dataStateLinePassive
  lineError _ h := h.dataStateLineError

/-! ### Runs -/

theorem Own.senderStep {cd : State} (h : Own cd) (hsend : SendInv cd) (s : SenderStep) :
    Own (senderStep cd s) := by
  obtain ⟨log, lo, hi, hq⟩ := hsend.queue
  obtain ⟨hpending, holdest⟩ := hq.oldest_senderStep h.pending s
  have hframe := senderStep_receiver cd s
  have hparse : (Can2040.senderStep cd s).parseMsg = cd.parseMsg :=
    congrArg (fun r => r.parser.parseMsg) hframe
  have hinte0 : (Can2040.senderStep cd s).pio.inte0 = cd.pio.inte0 := congrArg Receiver.inte0 hframe
  refine ⟨hpending, senderStep_txState cd s ▸ h.txState_ne, ?_, ?_, ?_⟩
  · rw [hparse, holdest]
    exact h.parseMsg_eq
  · rw [hinte0]
    exact h.ackdone_eq
  · rw [hinte0]
    exact h.txpending_eq

theorem Sound.senderStep {cd : State} (h : Sound cd) (s : SenderStep) : Sound (senderStep cd s) := by
  have hframe := senderStep_receiver cd s
  have hparse : (Can2040.senderStep cd s).parseState = cd.parseState :=
    congrArg (fun r => r.parser.parseState) hframe
  have hreport : (Can2040.senderStep cd s).reportState = cd.reportState :=
    congrArg Receiver.reportState hframe
  have hinte0 : (Can2040.senderStep cd s).pio.inte0 = cd.pio.inte0 := congrArg Receiver.inte0 hframe
  have hstate := senderStep_txState cd s
  refine ⟨h.toSendInv.senderStep s, ?_, ?_, fun hown => ?_, ?_⟩
  · rw [hparse, hreport]
    exact h.quiet
  · rw [hparse, hinte0, hstate]
    exact h.masked
  · exact (h.own (hreport ▸ hown)).senderStep h.toSendInv s
  · rw [hparse, hreport, hinte0, hstate]
    exact h.armed

/-- **Whatever happens**, the controller goes on, and everything stays in order. -/
theorem Sound.step {cd : State} (h : Sound cd) (htidy : Tidy cd) (i : Input) :
    ∃ cd', step cd i = some cd' ∧ Tidy cd' ∧ Sound cd' := by
  have htidy' (cd' : State) (hunstuf : cd'.unstuf = cd.unstuf) : Tidy cd' :=
    ⟨hunstuf ▸ htidy.countStuff_eq, hunstuf ▸ htidy.countUnstuff_pos⟩
  have hframe (cd' : State) (hparser : cd'.parser = cd.parser) : Tidy cd' :=
    htidy' cd' (congrArg Parser.unstuf hparser)
  cases i with
  | rx data => exact processRx_rule keptByParser_sound htidy (by decide) data h
  | line maytx matched ackdone window =>
      exact ⟨_, rfl, hframe _ (lineEvent_parser_eq window cd maytx matched ackdone),
        h.lineEvent window maytx matched ackdone⟩
  | sender s =>
      exact ⟨_, rfl, hframe _ (congrArg Receiver.parser (senderStep_receiver cd s)), h.senderStep s⟩
  | rxStall =>
      refine ⟨_, rfl, htidy' _ rfl, h.toSendInv.congr rfl rfl rfl rfl rfl rfl id (fun _ => .inl rfl) id,
        h.quiet, h.masked, fun hown => ?_, h.armed⟩
      obtain ⟨hpending, hne, hmsg, hack, htx⟩ := h.own hown
      exact ⟨hpending, hne, hmsg, hack, htx⟩
  | txDidFail failed =>
      refine ⟨_, rfl, htidy' _ rfl, h.toSendInv.congr rfl rfl rfl rfl rfl rfl id (fun _ => .inl rfl) id,
        h.quiet, h.masked, fun hown => ?_, h.armed⟩
      obtain ⟨hpending, hne, hmsg, hack, htx⟩ := h.own hown
      exact ⟨hpending, hne, hmsg, hack, htx⟩

theorem sendInv_setup (pio : Pio) : SendInv (setup pio) := by
  have hring : RingLog (setup pio).txQueue [] 0 0 := RingLog.empty _
  refine ⟨⟨[], 0, 0, hring, rfl, rfl, .nil, rfl, ?_⟩, ?_, fun hne => absurd rfl hne⟩
  · rintro msg ⟨⟩
  · intro hqueued
    cases hqueued

theorem sound_start (pio : Pio) : Sound (start (setup pio)) :=
  (sendInv_setup pio).pioSmSetup.dataStateGoDiscard

theorem tidy_start (cd : State) : Tidy (start cd) := by
  have hzero := dataStateGoDiscard_countStuff_le (pioSmSetup (dataStateClearBits cd))
  exact ⟨Nat.le_zero.mp hzero, dataStateGoDiscard_countUnstuff _ ▸ Nat.succ_pos 31⟩

/-- **Every run goes on for ever**, and every state of it is sound. -/
theorem Sound.of_run (pio : Pio) (inputs : List Input) :
    ∃ cd, run pio inputs = some cd ∧ Tidy cd ∧ Sound cd := by
  have hrun (inputs : List Input) (cd : State) (htidy : Tidy cd) (h : Sound cd) :
      ∃ cd', inputs.foldlM Can2040.step cd = some cd' ∧ Tidy cd' ∧ Sound cd' := by
    induction inputs generalizing cd with
    | nil => exact ⟨cd, rfl, htidy, h⟩
    | cons i inputs ih =>
        obtain ⟨cd', hstep, htidy', h'⟩ := h.step htidy i
        rw [List.foldlM_cons, hstep]
        exact ih cd' htidy' h'
  exact hrun inputs _ (tidy_start _) (sound_start pio)

/-- The bits of some groups, each with its length. -/
def groupBits (groups : List (ℕ × Word)) : List Bool := groups.flatMap fun g => msbBits g.2 g.1

/-- `process_rx` for one group after the other. -/
def processGroups (cd : State) (groups : List (ℕ × Word)) : Option State :=
  groups.foldlM (fun cd g => processRx g.1 cd g.2) cd

theorem calmRun_append {cd : State} {bits bits' : List Bool} (h : CalmRun cd (bits ++ bits')) :
    CalmRun cd bits ∧ CalmRun (bits.foldl bitStep cd) bits' := by
  induction bits generalizing cd with
  | nil => exact ⟨trivial, h⟩
  | cons b bits ih =>
      obtain ⟨hfirst, hlast⟩ := ih h.2
      exact ⟨⟨h.1, hfirst⟩, hlast⟩

theorem Tidy.foldl {cd : State} (h : Tidy cd) {bits : List Bool} (hcalm : CalmRun cd bits) :
    Tidy (bits.foldl Can2040.bitStep cd) := by
  induction bits generalizing cd with
  | nil => exact h
  | cons b bits ih => exact ih (h.bitStep hcalm.1) hcalm.2

theorem processGroups_eq {cd : State} (htidy : Tidy cd) {groups : List (ℕ × Word)}
    (hsmall : ∀ g ∈ groups, g.1 ≤ 10) (hcalm : CalmRun cd (groupBits groups)) :
    processGroups cd groups = some ((groupBits groups).foldl bitStep cd) := by
  induction groups generalizing cd with
  | nil => rfl
  | cons g groups ih =>
      have hbits : groupBits (g :: groups) = msbBits g.2 g.1 ++ groupBits groups := rfl
      rw [hbits] at hcalm ⊢
      obtain ⟨hfirst, hlast⟩ := calmRun_append hcalm
      have hgroup := processRx_eq_foldl htidy (hsmall g List.mem_cons_self) hfirst
      have hrest := ih (htidy.foldl hfirst) (fun g' hg' => hsmall g' (List.mem_cons_of_mem g hg')) hlast
      rw [processGroups, List.foldlM_cons, hgroup, List.foldl_append]
      exact hrest

/-- **Where the groups of bits begin and end does not matter** in any state that a run leads to, as
long as the receive queue does not overflow and the line is not taken for stuck. -/
theorem run_regroups {pio : Pio} {inputs : List Input} {cd : State} (hrun : run pio inputs = some cd)
    {groups groups' : List (ℕ × Word)} (hsmall : ∀ g ∈ groups, g.1 ≤ 10)
    (hsmall' : ∀ g ∈ groups', g.1 ≤ 10) (hbits : groupBits groups = groupBits groups')
    (hcalm : CalmRun cd (groupBits groups)) : processGroups cd groups = processGroups cd groups' := by
  obtain ⟨cd', hrun', htidy, -⟩ := Sound.of_run pio inputs
  obtain rfl : cd' = cd := Option.some.inj (hrun'.symm.trans hrun)
  rw [processGroups_eq htidy hsmall hcalm, hbits, processGroups_eq htidy hsmall' (hbits ▸ hcalm)]

/-- The registers before the setup. -/
def quietPio : Pio where
  inte0 := {}
  matchKey := 0
  tx := .reset
  eomInstr := 0
  txpending := false
  rxStall := false
  txDidFail := false

theorem run_regroups_two :
    processGroups (start (setup quietPio)) [(2, 1)] =
      processGroups (start (setup quietPio)) [(1, 0), (1, 1)] := by
  have hrun : run quietPio [] = some (start (setup quietPio)) := rfl
  refine run_regroups hrun (by simp) (by simp) (by decide) ?_
  exact ⟨⟨rfl, by decide +kernel⟩, ⟨rfl, by decide +kernel⟩, trivial⟩

/-! ### What a run does with messages -/

theorem encode_msg {msg : CanbusMsg} {t : Transmit} (h : encode msg = some t) :
    t.msg = msgOf (frameOf msg) := by
  obtain ⟨t', ht', hmsg, -⟩ := encode_wire msg
  rw [h] at ht'
  rw [Option.some.inj ht', hmsg]

theorem encode_take_wire {msg : CanbusMsg} {t : Transmit} (h : encode msg = some t) :
    ∃ k < 32, (t.stuffedData.take t.stuffedWords).flatMap (msbBits · 32) =
      (frameOf msg).line ++ List.replicate k true := by
  obtain ⟨t', ht', -, -, -, hwire⟩ := encode_wire msg
  rw [h] at ht'
  rw [Option.some.inj ht']
  exact hwire

theorem forall₂_encode_map {msgs : List CanbusMsg} {log : List Transmit}
    (h : List.Forall₂ (fun msg t => encode msg = some t) msgs log) :
    log.map Transmit.msg = msgs.map fun msg => msgOf (frameOf msg) := by
  induction h with
  | nil => rfl
  | cons hfirst _ ih => rw [List.map_cons, List.map_cons, encode_msg hfirst, ih]

theorem QueueInv.accepted_getElem? {cd : State} {log : List Transmit} {lo hi : ℕ}
    (h : QueueInv cd log lo hi) (hlt : lo < hi) :
    ∃ msg, cd.accepted[lo]? = some msg ∧ encode msg = some (oldest cd) := by
  obtain ⟨hlength, hget⟩ := List.forall₂_iff_get.mp h.accepted
  have hlog : lo < log.length := by rw [h.ring.length]; exact hlt
  have hslot := h.ring.slot lo le_rfl hlt
  rw [List.getElem?_eq_getElem hlog] at hslot
  have hentry := hget lo (hlength ▸ hlog) hlog
  refine ⟨_, List.getElem?_eq_getElem (hlength ▸ hlog), ?_⟩
  rw [h.oldest_eq, ← Option.some.inj hslot]
  exact hentry

/-- **Messages are confirmed in the order in which they were accepted**, each of them once, and at
most four are waiting; what the state machine has been told to send is the frame of the oldest one
that waits. The interrupt handler always returns. -/
theorem run_delivers (pio : Pio) (inputs : List Input) :
    ∃ cd n, run pio inputs = some cd ∧ n ≤ cd.accepted.length ∧ cd.accepted.length ≤ n + 4 ∧
      cd.calls.filterMap Notify.confirmed =
        (cd.accepted.take n).map (fun msg => msgOf (frameOf msg)) ∧
      (cd.txState = .queued → ∃ msg, cd.accepted[n]? = some msg ∧
        (cd.pio.tx = .reset ∨ ∃ words, cd.pio.tx = .send words ∧ ∃ k < 32,
          words.flatMap (msbBits · 32) = (frameOf msg).line ++ List.replicate k true)) := by
  obtain ⟨cd, hrun, -, hsound⟩ := Sound.of_run pio inputs
  obtain ⟨log, lo, hi, hq⟩ := hsound.queue
  have hlength : cd.accepted.length = hi := hq.accepted.length_eq.trans hq.ring.length
  refine ⟨cd, lo, hrun, hlength ▸ hq.ring.le, hlength ▸ hq.ring.room, ?_, fun hqueued => ?_⟩
  · rw [hq.confirmed]
    exact forall₂_encode_map (List.forall₂_take lo hq.accepted)
  · obtain ⟨hpending, hsent⟩ := hsound.sent hqueued
    obtain ⟨msg, hmsg, hslot⟩ := hq.accepted_getElem? (hq.pending_iff.mp hpending)
    refine ⟨msg, hmsg, hsent.imp_right fun hsend => ⟨_, hsend, ?_⟩⟩
    exact encode_take_wire hslot

/-- The handler hands a message over if there is one. -/
theorem txScheduleTransmit_done (window : List SenderStep) (cd : State) :
    let cd' := (txScheduleTransmit (window.foldl senderStep ·) cd).1
    cd'.txState = .queued ∨ cd'.txPushPos = cd'.txPullPos := by
  have hpull := congrArg Receiver.txPullPos
    (window_receiver window (pioSignalClearTxpending { cd with txState := .idle }))
  rw [txScheduleTransmit]
  dsimp only
  split_ifs with hqueued _ hnone
  · exact .inl hqueued.1
  · exact .inr (hnone.trans hpull.symm)
  · exact .inl rfl
  · exact .inl rfl

/-- **No message is forgotten**: while one waits that has not been handed over, and the caller is not
about to wake the handler, an interrupt is enabled by which the handler hands a message over as soon
as the line is idle. The only exception is the checksum of the echo of a message, of which more bits
are to come. -/
theorem run_wakes (pio : Pio) (inputs : List Input) (window : List SenderStep) :
    ∃ cd, run pio inputs = some cd ∧
      (cd.txPushPos ≠ cd.txPullPos → cd.sender ≠ .submitted →
        ¬(cd.parseState = .crc ∧ cd.reportState = .needTxAck) →
        let cd' := lineEvent true false false (window.foldl senderStep ·) cd
        cd'.txState = .queued ∨ cd'.txPushPos = cd'.txPullPos) := by
  obtain ⟨cd, hrun, -, hsound⟩ := Sound.of_run pio inputs
  refine ⟨cd, hrun, fun hpending hsender hecho => ?_⟩
  have hflag := (hsound.flag hpending).resolve_right hsender
  have hdone := txScheduleTransmit_done window
  rw [lineEvent]
  dsimp only
  rw [Bool.false_and, Bool.false_and, if_neg Bool.false_ne_true, if_neg Bool.false_ne_true,
    Bool.true_and, hflag, Bool.true_and]
  by_cases hmaytx : cd.pio.inte0.maytx = true
  · rw [if_pos hmaytx]
    exact hdone _
  · rw [if_neg hmaytx]
    by_cases htx : cd.pio.inte0.txpending = true
    · have hnone : ¬(cd.pio.inte0 = { maytx := true, txpending := true, rxData := true } ∧
          cd.reportState = .needRxAck) := fun h => hmaytx (h.1 ▸ rfl)
      rw [if_pos htx, reportLineTxpending]
      dsimp only
      rw [if_neg hnone]
      exact hdone cd
    · rw [if_neg htx]
      rcases hsound.armed with hqueued | hon | hon | hcrc
      · exact .inl hqueued
      · exact absurd hon hmaytx
      · exact absurd hon htx
      · exact absurd hcrc hecho

end Terraboot.Can2040
