import Terraboot.Can2040Transmit

/-!
# The Software CAN Controller

`can2040.c` receives and sends CAN frames with the programmable state machines of the rp2040. One
of them samples the line and hands over ten bits at a time; the processor takes the added bits out,
parses the fields and checks the checksum, and tells the other state machines when to acknowledge a
frame, when to send the next one, and what bits to wait for. All this happens in one interrupt
handler; only `can2040_transmit` runs outside of it.

What the state machines do on their own is not part of the state here: the interrupt flags they
raise, whether the receive queue has overflowed and whether a transmission has failed are given from
outside. The loops of the source that search for added bits, and the one that takes in the fields,
have no result here if they do not end.

A call of `can2040_transmit` may come to a stop anywhere while the interrupt handler runs, and may go
on while the handler looks whether there is something to send. It is cut into three steps: the slot
is filled, the message is submitted, and the handler is woken.

## Main results

* `reportHandleEof_rx`, `reportHandleEof_tx`, `reportHandleEof_of_not`: what is reported.
-/

open MsbBits

namespace Terraboot.Can2040

/-! ### The hardware -/

/-- The interrupts that the host takes part in (`SI_MAYTX` and so on). -/
structure Irqs where
  maytx : Bool := false
  matched : Bool := false
  ackdone : Bool := false
  rxData : Bool := false
  txpending : Bool := false
  deriving DecidableEq

/-- What the state machine that drives the line was last told to do. -/
inductive Tx where
  | reset
  | send (words : List Word)
  | injectAck
  deriving DecidableEq

/-- The registers of the state machines that the processor writes, and two conditions it reads. -/
structure Pio where
  inte0 : Irqs
  matchKey : Word
  tx : Tx
  /-- the instruction that the "sync" state machine starts to count recessive bits with -/
  eomInstr : Word
  txpending : Bool
  /-- `pio_rx_check_stall` -/
  rxStall : Bool
  /-- `pio_tx_did_fail` -/
  txDidFail : Bool
  deriving DecidableEq

/-- `pio_match_calc_key` -/
def pioMatchCalcKey (rawBits rxBitPos : Word) : Word :=
  (rawBits &&& 0x1fffff#32) ||| ((-rxBitPos) <<< 21)

/-! ### The state -/

/-- `struct can2040_bitunstuffer` -/
structure Unstuf where
  stuffedBits : Word
  countStuff : ℕ
  unstuffedBits : Word
  countUnstuff : ℕ
  deriving DecidableEq

/-- Parsing states. -/
inductive ParseState where
  | start | header | extHeader | data0 | data1 | crc | ack | eof0 | eof1 | discard
  deriving DecidableEq

/-- Transmit states. -/
inductive TxState where
  | idle | queued | ackingRx | confirmTx
  deriving DecidableEq

/-- The values of `report_state`, which is kept as flags in the source. -/
inductive ReportState where
  | idle | needRxAck | needTxAck | needRxEof | needTxEof
  deriving DecidableEq

/-- `RS_NEED_EOF_FLAG` -/
def ReportState.hasEofFlag : ReportState → Bool
  | .needRxEof | .needTxEof => true
  | _ => false

/-- `RS_NEED_TX_ACK` as a flag -/
def ReportState.isTx : ReportState → Bool
  | .needTxAck | .needTxEof => true
  | _ => false

/-- `RS_NEED_EOF_FLAG` is set; it never is in `RS_IDLE`. -/
def ReportState.setEofFlag : ReportState → ReportState
  | .needRxAck => .needRxEof
  | .needTxAck => .needTxEof
  | s => s

/-- The calls of `rx_cb`. -/
inductive Notify where
  | rx (msg : CanbusMsg)
  | tx (msg : CanbusMsg)
  | error (code : Word)
  deriving DecidableEq

/-- `struct can2040_stats` -/
structure Stats where
  rxTotal : Word
  txTotal : Word
  txAttempt : Word
  parseError : Word
  deriving DecidableEq

/-- How far a call of `can2040_transmit` has come. -/
inductive Sender where
  | idle
  | filled (msg : CanbusMsg)
  | submitted
  deriving DecidableEq

/-- `struct can2040`, the registers, the call of `can2040_transmit` that is under way, and a record
of the calls of `rx_cb` and of the messages accepted so far. -/
structure State where
  stats : Stats
  unstuf : Unstuf
  rawBitCount : Word
  parseState : ParseState
  parseCrc : Word
  parseCrcBits : Word
  parseCrcPos : Word
  parseMsg : CanbusMsg
  reportState : ReportState
  txState : TxState
  txPullPos : Word
  txPushPos : Word
  txQueue : Fin 4 → Transmit
  pio : Pio
  sender : Sender
  calls : List Notify
  accepted : List CanbusMsg

/-- `pio_irq_set` -/
def pioIrqSet (cd : State) (irqs : Irqs) : State :=
  { cd with pio := { cd.pio with inte0 := { irqs with rxData := true } } }

/-- `pio_match_check` -/
def pioMatchCheck (cd : State) (matchKey : Word) : State :=
  { cd with pio := { cd.pio with matchKey } }

/-- `pio_match_clear` -/
def pioMatchClear (cd : State) : State := pioMatchCheck cd 0

/-- `pio_sync_normal_start_signal` -/
def pioSyncNormalStartSignal (cd : State) : State :=
  { cd with pio := { cd.pio with eomInstr := 0xe12a } }

/-- `pio_sync_slow_start_signal` -/
def pioSyncSlowStartSignal (cd : State) : State :=
  { cd with pio := { cd.pio with eomInstr := 0xa127 } }

/-- `pio_signal_set_txpending` -/
def pioSignalSetTxpending (cd : State) : State :=
  { cd with pio := { cd.pio with txpending := true } }

/-- `pio_signal_clear_txpending` -/
def pioSignalClearTxpending (cd : State) : State :=
  { cd with pio := { cd.pio with txpending := false } }

/-- `pio_sm_setup`: the program is loaded anew, and the overflow is forgotten. -/
def pioSmSetup (cd : State) : State :=
  { cd with
    pio := { cd.pio with txpending := true, eomInstr := 0xe029, tx := .reset, rxStall := false } }

/-- `pio_tx_send` -/
def pioTxSend (cd : State) (words : List Word) : State :=
  { cd with pio := { cd.pio with tx := .send words } }

/-- `pio_tx_inject_ack` -/
def pioTxInjectAck (cd : State) (matchKey : Word) : State :=
  pioMatchCheck { cd with pio := { cd.pio with tx := .injectAck } } matchKey

/-! ### Bit unstuffing -/

/-- `unstuf_add_bits` -/
def unstufAddBits (bu : Unstuf) (data : Word) (count : ℕ) : Unstuf :=
  { bu with
    stuffedBits := (bu.stuffedBits <<< count) ||| (data &&& ((1#32 <<< count) - 1))
    countStuff := count }

/-- `unstuf_set_count` -/
def unstufSetCount (bu : Unstuf) (numBits : ℕ) : Unstuf :=
  { bu with unstuffedBits := 0, countUnstuff := numBits }

/-- `unstuf_clear_state` -/
def unstufClearState (bu : Unstuf) : Unstuf :=
  let lb := 1#32 <<< bu.countStuff
  { bu with stuffedBits := (bu.stuffedBits &&& (lb - 1#32)) ||| (lb <<< 1) }

/-- `unstuf_restore_state` -/
def unstufRestoreState (bu : Unstuf) (data : Word) : Unstuf :=
  { bu with
    stuffedBits := (bu.stuffedBits &&& ((1#32 <<< bu.countStuff) - 1)) ||| (data <<< bu.countStuff) }

/-- `unstuf_get_raw` -/
def unstufGetRaw (bu : Unstuf) : Word := bu.stuffedBits >>> bu.countStuff

/-- What `unstuf_pull_bits` returns: 1, 0, -1 or -2. -/
inductive Pull where
  | needMore | pulled | sixHigh | sixLow
  deriving DecidableEq

/-- The loops of `unstuf_pull_bits`, both of them, with the number of bits that are tried at
once. -/
def unstufPullLoop (sb rmBits : Word) : ℕ → Unstuf → ℕ → Option (Pull × Unstuf)
  | 0, _, _ => none
  | fuel + 1, bu, tryCnt =>
      let tryMask := ((1#32 <<< tryCnt) - 1) <<< (bu.countStuff + 1 - tryCnt)
      if rmBits &&& tryMask = 0 then
        -- no added bits among those tried: they are copied
        let cu := bu.countUnstuff - tryCnt
        let cs := bu.countStuff - tryCnt
        let bu := { bu with
          countUnstuff := cu
          countStuff := cs
          unstuffedBits := bu.unstuffedBits ||| (((sb >>> cs) &&& ((1#32 <<< tryCnt) - 1)) <<< cu) }
        if cu = 0 then some (.pulled, bu)
        else if cs = 0 then some (.needMore, bu)
        else unstufPullLoop sb rmBits fuel bu (min cs cu)
      else
        let cs := bu.countStuff - 1
        if rmBits &&& (1#32 <<< (cs + 1)) ≠ 0 then
          -- the highest bit was added, or is the sixth
          if rmBits &&& (1#32 <<< cs) ≠ 0 then
            some (if sb &&& (1#32 <<< cs) ≠ 0 then .sixHigh else .sixLow, { bu with countStuff := cs })
          else if cs = 0 then some (.needMore, { bu with countStuff := cs })
          else unstufPullLoop sb rmBits fuel { bu with countStuff := cs } (min cs bu.countUnstuff)
        else
          let cu := bu.countUnstuff - 1
          unstufPullLoop sb rmBits fuel { bu with
            countStuff := cs
            countUnstuff := cu
            unstuffedBits := bu.unstuffedBits ||| (((sb >>> cs) &&& 1#32) <<< cu) } (tryCnt / 2)

/-- `unstuf_pull_bits` -/
def unstufPullBits (bu : Unstuf) : Option (Pull × Unstuf) :=
  if bu.countStuff = 0 then some (.needMore, bu)
  else
    unstufPullLoop bu.stuffedBits (fiveEqual bu.stuffedBits) (bu.countStuff + 1) bu
      (min bu.countStuff bu.countUnstuff)

/-! ### Transmit state tracking -/

/-- `tx_qpos` -/
def txQpos (pos : Word) : Fin 4 := ⟨pos.toNat % 4, Nat.mod_lt _ (by decide)⟩

/-- The end of `tx_schedule_transmit`. -/
def txStart (cd : State) (txPullPos : Word) : State :=
  let qt := cd.txQueue (txQpos txPullPos)
  pioTxSend { cd with
    txState := .queued
    stats := { cd.stats with txAttempt := cd.stats.txAttempt + 1 } }
    (qt.stuffedData.take qt.stuffedWords)

/-- `tx_schedule_transmit`: it looks for new messages twice, and `window` is what the other side
does in between. The result says whether `SI_TXPENDING` is to be enabled. -/
def txScheduleTransmit (window : State → State) (cd : State) : State × Bool :=
  if cd.txState = .queued ∧ cd.pio.txDidFail = false then (cd, false)
  else
    let txPullPos := cd.txPullPos
    if cd.txPushPos = txPullPos then
      let cd := window (pioSignalClearTxpending { cd with txState := .idle })
      if cd.txPushPos = txPullPos then (cd, true)
      else (txStart (pioSignalSetTxpending cd) txPullPos, false)
    else (txStart cd txPullPos, false)

/-- `tx_inject_ack` -/
def txInjectAck (cd : State) (matchKey : Word) : State :=
  pioTxInjectAck { cd with txState := .ackingRx } matchKey

/-- What `tx_check_local_message` returns: -1, 0 or 1. -/
inductive Local where
  | conflict | other | own
  deriving DecidableEq

/-- `tx_check_local_message` -/
def txCheckLocalMessage (cd : State) : State × Local :=
  if cd.txState ≠ .queued then (cd, .other)
  else
    let qt := cd.txQueue (txQpos cd.txPullPos)
    let pm := cd.parseMsg
    let tm := qt.msg
    if tm.id = pm.id then
      if qt.crc ≠ cd.parseCrc ∨ tm.dlc ≠ pm.dlc ∨ tm.data ≠ pm.data then (cd, .conflict)
      else ({ cd with txState := .confirmTx }, .own)
    else (cd, .other)

/-! ### Notification callbacks -/

/-- A call of `rx_cb`. -/
def rxCb (cd : State) (n : Notify) : State := { cd with calls := cd.calls ++ [n] }

/-- `report_callback_error` -/
def reportCallbackError (cd : State) (errorCode : Word) : State := rxCb cd (.error errorCode)

/-- `report_callback_rx_msg` -/
def reportCallbackRxMsg (cd : State) : State :=
  rxCb { cd with stats := { cd.stats with rxTotal := cd.stats.rxTotal + 1 } } (.rx cd.parseMsg)

/-- `report_callback_tx_msg` -/
def reportCallbackTxMsg (cd : State) : State :=
  rxCb { cd with
    txPullPos := cd.txPullPos + 1
    stats := { cd.stats with txTotal := cd.stats.txTotal + 1 } } (.tx cd.parseMsg)

/-- `report_handle_eof` -/
def reportHandleEof (cd : State) : State :=
  let cd :=
    if cd.reportState.hasEofFlag then
      let cd := pioSyncNormalStartSignal cd
      if cd.reportState = .needTxEof then reportCallbackTxMsg cd else reportCallbackRxMsg cd
    else cd
  pioMatchClear { cd with reportState := .idle }

theorem reportHandleEof_rx {cd : State} (h : cd.reportState = .needRxEof) :
    reportHandleEof cd = pioMatchClear
      { reportCallbackRxMsg (pioSyncNormalStartSignal cd) with reportState := .idle } := by
  simp [reportHandleEof, h, ReportState.hasEofFlag, pioSyncNormalStartSignal]

theorem reportHandleEof_tx {cd : State} (h : cd.reportState = .needTxEof) :
    reportHandleEof cd = pioMatchClear
      { reportCallbackTxMsg (pioSyncNormalStartSignal cd) with reportState := .idle } := by
  simp [reportHandleEof, h, ReportState.hasEofFlag, pioSyncNormalStartSignal]

theorem reportHandleEof_of_not {cd : State} (h : cd.reportState.hasEofFlag = false) :
    reportHandleEof cd = pioMatchClear { cd with reportState := .idle } := by
  simp [reportHandleEof, h]

/-- What a report changes. -/
theorem reportHandleEof_eq (cd : State) : ∃ stats txPullPos calls eomInstr,
    reportHandleEof cd = { cd with
      stats, txPullPos, calls, reportState := .idle
      pio := { cd.pio with matchKey := 0, eomInstr } } := by
  cases h : cd.reportState with
  | needRxEof => exact ⟨_, _, _, _, reportHandleEof_rx h⟩
  | needTxEof => exact ⟨_, _, _, _, reportHandleEof_tx h⟩
  | _ => exact ⟨_, _, _, _, reportHandleEof_of_not (by rw [h]; rfl)⟩

/-- `report_is_not_in_tx` -/
def reportIsNotInTx (cd : State) : Bool := !cd.reportState.isTx

/-- `report_note_message_start` -/
def reportNoteMessageStart (cd : State) : State := pioIrqSet cd { maytx := true }

/-- `report_note_crc_start`, and whether it fails -/
def reportNoteCrcStart (cd : State) : State × Bool :=
  match txCheckLocalMessage cd with
  | (cd, .conflict) => (cd, true)
  | (cd, .own) =>
      let cd : State := { cd with reportState := .needTxAck }
      let bits := (cd.parseCrcBits <<< 9) ||| 0x0ff#32
      (pioMatchCheck cd (pioMatchCalcKey bits (cd.parseCrcPos + 9)), false)
  | (cd, .other) =>
      let cd := pioSignalSetTxpending { cd with reportState := .needRxAck }
      (pioIrqSet cd { maytx := true, txpending := true }, false)

/-- `report_note_crc_success` -/
def reportNoteCrcSuccess (cd : State) : State :=
  if cd.reportState = .needTxAck then pioIrqSet cd { maytx := true, matched := true } else cd

/-- `report_note_ack_success` -/
def reportNoteAckSuccess (cd : State) : State :=
  if cd.reportState = .idle then cd else { cd with reportState := cd.reportState.setEofFlag }

/-- `report_note_eof_success` -/
def reportNoteEofSuccess (cd : State) : State :=
  if cd.reportState = .idle then cd else pioIrqSet (reportHandleEof cd) { txpending := true }

/-- `report_note_discarding` -/
def reportNoteDiscarding (cd : State) : State :=
  let cd :=
    if cd.reportState ≠ .idle then pioMatchClear { cd with reportState := .idle } else cd
  pioIrqSet (pioSyncSlowStartSignal cd) { maytx := true, txpending := true }

/-- `report_line_ackdone` -/
def reportLineAckdone (window : State → State) (cd : State) : State :=
  let bits := (cd.parseCrcBits <<< 8) ||| 0x7f#32
  let cd := pioMatchCheck cd (pioMatchCalcKey bits (cd.parseCrcPos + 8))
  let (cd, checkTxpending) := txScheduleTransmit window cd
  pioIrqSet cd { maytx := true, matched := true, txpending := checkTxpending }

/-- `report_line_matched` -/
def reportLineMatched (window : State → State) (cd : State) : State :=
  let cd :=
    if cd.reportState ≠ .idle then
      reportHandleEof { cd with reportState := cd.reportState.setEofFlag }
    else cd
  let (cd, checkTxpending) := txScheduleTransmit window cd
  pioIrqSet cd { txpending := checkTxpending }

/-- `report_line_maytx` -/
def reportLineMaytx (window : State → State) (cd : State) : State :=
  let cd := if cd.reportState ≠ .idle then reportHandleEof cd else cd
  let (cd, checkTxpending) := txScheduleTransmit window cd
  pioIrqSet cd { txpending := checkTxpending }

/-- `report_line_txpending` -/
def reportLineTxpending (window : State → State) (cd : State) : State :=
  let pioIrqs := cd.pio.inte0
  if pioIrqs = { maytx := true, txpending := true, rxData := true } ∧
      cd.reportState = .needRxAck then
    let mk := pioMatchCalcKey cd.parseCrcBits cd.parseCrcPos
    pioIrqSet (txInjectAck cd mk) { maytx := true, ackdone := true }
  else
    let (cd, checkTxpending) := txScheduleTransmit window cd
    pioIrqSet cd { pioIrqs with txpending := checkTxpending }

/-! ### Input state tracking -/

/-- `data_state_clear_bits` -/
def dataStateClearBits (cd : State) : State :=
  { cd with rawBitCount := 0, unstuf := { cd.unstuf with stuffedBits := 0, countStuff := 0 } }

/-- `data_state_go_next` -/
def dataStateGoNext (cd : State) (state : ParseState) (numBits : ℕ) : State :=
  { cd with parseState := state, unstuf := unstufSetCount cd.unstuf numBits }

/-- `data_state_go_discard` -/
def dataStateGoDiscard (cd : State) : State :=
  let cd :=
    if cd.pio.rxStall then reportCallbackError (pioSmSetup (dataStateClearBits cd)) 0 else cd
  reportNoteDiscarding (dataStateGoNext cd .discard 32)

/-- `data_state_go_error` -/
def dataStateGoError (cd : State) : State :=
  dataStateGoDiscard { cd with stats := { cd.stats with parseError := cd.stats.parseError + 1 } }

/-- `data_state_line_error` -/
def dataStateLineError (cd : State) : State :=
  if cd.parseState = .discard then dataStateGoDiscard cd else dataStateGoError cd

/-- `data_state_line_passive` -/
def dataStateLinePassive (cd : State) : State :=
  if cd.parseState ≠ .discard ∧ cd.parseState ≠ .start then dataStateGoError cd
  else
    let domBits := ~~~(unstufGetRaw cd.unstuf)
    if domBits = 0 then dataStateGoDiscard (pioSmSetup (dataStateClearBits cd))
    else if domBits &&& 0x3ff = 0 then dataStateGoNext cd .start 1
    else dataStateGoDiscard cd

/-- The bits that the parser expects of the checksum, stuffed, and how many there are; `bitstuff`
always ends. -/
def crcRawBits (raw parseCrc : Word) : Word × ℕ :=
  let crcBits := (raw <<< 15) ||| parseCrc
  (bitstuff crcBits (15 + 1)).getD (crcBits, 15 + 1)

/-- The first half of `data_state_go_crc`: the bits that are expected after the data, with the
delimiter, and the place of the last one. -/
def dataStateExpectCrc (cd : State) : State :=
  let cd := { cd with parseCrc := cd.parseCrc &&& 0x7fff }
  let crcstartBitpos := cd.rawBitCount - BitVec.ofNat 32 cd.unstuf.countStuff - 1
  let r := crcRawBits (unstufGetRaw cd.unstuf) cd.parseCrc
  let crcBitcount := BitVec.ofNat 32 r.2 - 1
  { cd with
    parseCrcBits := (r.1 <<< 1) ||| 0x01#32
    parseCrcPos := crcstartBitpos + crcBitcount + 1 }

/-- `data_state_go_crc` -/
def dataStateGoCrc (cd : State) : State :=
  match reportNoteCrcStart (dataStateExpectCrc cd) with
  | (cd, true) => dataStateGoError cd
  | (cd, false) => dataStateGoNext cd .crc 16

/-- The message as the header tells it. -/
def headerMsg (id data : Word) : CanbusMsg :=
  { CanbusMsg.zero with
    id := if data &&& (1#32 <<< 6) ≠ 0 then id ||| idRtr else id
    dlc := data &&& 0x0f }

/-- `data_state_go_data` -/
def dataStateGoData (cd : State) (id data : Word) : State :=
  if data &&& (0x03#32 <<< 4) ≠ 0 then dataStateGoDiscard cd
  else
    let cd := { cd with parseMsg := headerMsg id data }
    let dlc := if data &&& (1#32 <<< 6) ≠ 0 then 0 else (data &&& 0x0f).toNat
    if dlc ≠ 0 then dataStateGoNext cd .data0 (if 4 ≤ dlc then 32 else dlc * 8)
    else dataStateGoCrc cd

/-- `data_state_update_start` -/
def dataStateUpdateStart (cd : State) (data : Word) : State :=
  let cd := { cd with parseMsg := { cd.parseMsg with id := data } }
  dataStateGoNext (reportNoteMessageStart cd) .header 17

/-- `data_state_update_header` -/
def dataStateUpdateHeader (cd : State) (data : Word) : State :=
  let data := data ||| (cd.parseMsg.id <<< 17)
  if data &&& 0x60 = 0x60 then
    dataStateGoNext { cd with parseMsg := { cd.parseMsg with id := data } } .extHeader 20
  else
    dataStateGoData { cd with parseCrc := crcBytes 0 data 3 } ((data >>> 7) &&& 0x7ff) data

/-- `data_state_update_ext_header` -/
def dataStateUpdateExtHeader (cd : State) (data : Word) : State :=
  let hdr1 := cd.parseMsg.id
  let crc := crcBytes 0 (hdr1 >>> 4) 2
  let cd := { cd with parseCrc := crcBytes crc (((hdr1 &&& 0x0f) <<< 20) ||| data) 3 }
  let id := ((hdr1 <<< 11) &&& 0x1ffc0000#32) ||| ((hdr1 <<< 13) &&& 0x3e000#32) ||| (data >>> 7) |||
    idEff
  dataStateGoData cd id data

/-- The four bytes of `__builtin_bswap32` in the order of the memory. -/
def bswap32Bytes (x : Word) : List Byte :=
  [(x >>> 24).setWidth 8, (x >>> 16).setWidth 8, (x >>> 8).setWidth 8, x.setWidth 8]

/-- `data32[0]` is set. -/
def setData32Low (msg : CanbusMsg) (x : Word) : CanbusMsg :=
  { msg with
    data := bswap32Bytes x ++ msg.data.drop 4
    data_length := by simp [bswap32Bytes, msg.data_length] }

/-- `data32[1]` is set. -/
def setData32High (msg : CanbusMsg) (x : Word) : CanbusMsg :=
  { msg with
    data := msg.data.take 4 ++ bswap32Bytes x
    data_length := by simp [bswap32Bytes, msg.data_length] }

/-- `data_state_update_data0` -/
def dataStateUpdateData0 (cd : State) (data : Word) : State :=
  let dlc := cd.parseMsg.dlc.toNat
  let bits := if 4 ≤ dlc then 32 else dlc * 8
  let cd := { cd with
    parseCrc := crcBytes cd.parseCrc data dlc
    parseMsg := setData32Low cd.parseMsg (data <<< (32 - bits)) }
  if 4 < dlc then dataStateGoNext cd .data1 (if 8 ≤ dlc then 32 else (dlc - 4) * 8)
  else dataStateGoCrc cd

/-- `data_state_update_data1` -/
def dataStateUpdateData1 (cd : State) (data : Word) : State :=
  let dlc := cd.parseMsg.dlc.toNat
  let bits := if 8 ≤ dlc then 32 else (dlc - 4) * 8
  dataStateGoCrc { cd with
    parseCrc := crcBytes cd.parseCrc data (dlc - 4)
    parseMsg := setData32High cd.parseMsg (data <<< (32 - bits)) }

/-- `data_state_update_crc` -/
def dataStateUpdateCrc (cd : State) (data : Word) : State :=
  if (cd.parseCrc <<< 1) ||| 1#32 ≠ data then dataStateGoError cd
  else
    let cd := reportNoteCrcSuccess cd
    dataStateGoNext { cd with unstuf := unstufClearState cd.unstuf } .ack 2

/-- `data_state_update_ack` -/
def dataStateUpdateAck (cd : State) (data : Word) : State :=
  if data ≠ 0x01 then
    dataStateGoError
      { cd with unstuf := unstufRestoreState cd.unstuf ((cd.parseCrcBits <<< 2) ||| data) }
  else dataStateGoNext (reportNoteAckSuccess cd) .eof0 4

/-- `data_state_update_eof0` -/
def dataStateUpdateEof0 (cd : State) (data : Word) : State :=
  if data ≠ 0x0f ∨ cd.pio.rxStall = true then dataStateGoError cd
  else dataStateGoNext { cd with unstuf := unstufClearState cd.unstuf } .eof1 5

/-- `data_state_update_eof1` -/
def dataStateUpdateEof1 (cd : State) (data : Word) : State :=
  if data = 0x1f then dataStateGoNext (reportNoteEofSuccess cd) .start 1
  else if 0x1c ≤ data ∨ (0x18 ≤ data ∧ reportIsNotInTx cd = true) then
    -- an overload frame follows
    dataStateGoDiscard (reportNoteEofSuccess cd)
  else dataStateGoError cd

/-- `data_state_update` -/
def dataStateUpdate (cd : State) (data : Word) : State :=
  match cd.parseState with
  | .start => dataStateUpdateStart cd data
  | .header => dataStateUpdateHeader cd data
  | .extHeader => dataStateUpdateExtHeader cd data
  | .data0 => dataStateUpdateData0 cd data
  | .data1 => dataStateUpdateData1 cd data
  | .crc => dataStateUpdateCrc cd data
  | .ack => dataStateUpdateAck cd data
  | .eof0 => dataStateUpdateEof0 cd data
  | .eof1 => dataStateUpdateEof1 cd data
  | .discard => dataStateGoDiscard cd

/-! ### Input processing -/

/-- The loop of `process_rx`. -/
def processRxLoop : ℕ → State → Option State
  | 0, _ => none
  | fuel + 1, cd =>
      match unstufPullBits cd.unstuf with
      | none => none
      | some (ret, unstuf) =>
          let cd := { cd with unstuf }
          match ret with
          | .needMore => some cd
          | .pulled => processRxLoop fuel (dataStateUpdate cd cd.unstuf.unstuffedBits)
          | .sixHigh => processRxLoop fuel (dataStateLinePassive cd)
          | .sixLow => processRxLoop fuel (dataStateLineError cd)

/-- `process_rx`, for any number of bits at a time. -/
def processRx (wakeBits : ℕ) (cd : State) (rxData : Word) : Option State :=
  processRxLoop (wakeBits + 1) { cd with
    unstuf := unstufAddBits cd.unstuf rxData wakeBits
    rawBitCount := cd.rawBitCount + BitVec.ofNat 32 wakeBits }

/-- `PIO_RX_WAKE_BITS` -/
def pioRxWakeBits : ℕ := 10

/-- The end of `can2040_pio_irq_handler`, when no received bits are left: the most urgent of the
enabled interrupts is handled. -/
def lineEvent (maytx matched ackdone : Bool) (window : State → State) (cd : State) : State :=
  let inte0 := cd.pio.inte0
  if ackdone && inte0.ackdone then reportLineAckdone window cd
  else if matched && inte0.matched then reportLineMatched window cd
  else if maytx && inte0.maytx then reportLineMaytx window cd
  else if cd.pio.txpending && inte0.txpending then reportLineTxpending window cd
  else cd

/-- `can2040_pio_irq_handler`, with the words that it finds in the receive queue. -/
def pioIrqHandler (rxData : List Word) (maytx matched ackdone : Bool) (window : State → State)
    (cd : State) : Option State :=
  (rxData.foldlM (processRx pioRxWakeBits) cd).map (lineEvent maytx matched ackdone window)

/-! ### Transmit queuing -/

/-- `can2040_check_transmit` -/
def checkTransmit (cd : State) : Bool := decide ((cd.txPushPos - cd.txPullPos).toNat < 4)

/-- What a call of `can2040_transmit` does next. -/
inductive SenderStep where
  | call (msg : CanbusMsg)
  | submit
  | wake

/-- `can2040_transmit` up to the submission; nothing happens if the queue is full. -/
def transmitFill (cd : State) (msg : CanbusMsg) : State :=
  if checkTransmit cd then
    match encode msg with
    | some qt =>
        { cd with
          txQueue := Function.update cd.txQueue (txQpos cd.txPushPos) qt, sender := .filled msg }
    | none => cd
  else cd

/-- The submission. -/
def transmitSubmit (cd : State) (msg : CanbusMsg) : State :=
  { cd with
    txPushPos := cd.txPushPos + 1
    sender := .submitted
    accepted := cd.accepted ++ [msg] }

/-- The end of `can2040_transmit` -/
def transmitWake (cd : State) : State := { pioSignalSetTxpending cd with sender := .idle }

/-- A step of `can2040_transmit`, which is not called again before it has returned. -/
def senderStep (cd : State) (step : SenderStep) : State :=
  match cd.sender, step with
  | .idle, .call msg => transmitFill cd msg
  | .filled msg, .submit => transmitSubmit cd msg
  | .submitted, .wake => transmitWake cd
  | _, _ => cd

/-- `can2040_transmit`, from the call to the return. -/
def transmit (cd : State) (msg : CanbusMsg) : State :=
  [SenderStep.call msg, .submit, .wake].foldl senderStep cd

/-! ### The whole driver -/

/-- `can2040_setup`: everything is zero. -/
def setup (pio : Pio) : State where
  stats := { rxTotal := 0, txTotal := 0, txAttempt := 0, parseError := 0 }
  unstuf := { stuffedBits := 0, countStuff := 0, unstuffedBits := 0, countUnstuff := 0 }
  rawBitCount := 0
  parseState := .start
  parseCrc := 0
  parseCrcBits := 0
  parseCrcPos := 0
  parseMsg := CanbusMsg.zero
  reportState := .idle
  txState := .idle
  txPullPos := 0
  txPushPos := 0
  txQueue := fun _ => {
    msg := CanbusMsg.zero
    crc := 0
    stuffedWords := 0
    stuffedData := List.replicate 5 0 }
  pio := pio
  sender := .idle
  calls := []
  accepted := []

/-- `can2040_start` -/
def start (cd : State) : State := dataStateGoDiscard (pioSmSetup (dataStateClearBits cd))

/-- What can happen to the controller. -/
inductive Input where
  /-- a word of received bits is processed -/
  | rx (data : Word)
  /-- the interrupt handler runs with no received bits left -/
  | line (maytx matched ackdone : Bool) (window : List SenderStep)
  /-- `can2040_transmit` goes on -/
  | sender (step : SenderStep)
  /-- the receive queue overflows -/
  | rxStall
  /-- `pio_tx_did_fail` changes -/
  | txDidFail (failed : Bool)

/-- What it does about it. -/
def step (cd : State) : Input → Option State
  | .rx data => processRx pioRxWakeBits cd data
  | .line maytx matched ackdone window =>
      some (lineEvent maytx matched ackdone (window.foldl senderStep ·) cd)
  | .sender s => some (senderStep cd s)
  | .rxStall => some { cd with pio := { cd.pio with rxStall := true } }
  | .txDidFail failed => some { cd with pio := { cd.pio with txDidFail := failed } }

/-- A run of the driver from its start. -/
def run (pio : Pio) (inputs : List Input) : Option State :=
  inputs.foldlM step (start (setup pio))

/-- A call of the interrupt handler is a part of such a run. -/
theorem pioIrqHandler_eq (rxData : List Word) (maytx matched ackdone : Bool)
    (window : List SenderStep) (cd : State) :
    pioIrqHandler rxData maytx matched ackdone (window.foldl senderStep ·) cd =
      (rxData.map Input.rx ++ [Input.line maytx matched ackdone window]).foldlM step cd := by
  rw [pioIrqHandler, List.foldlM_append, List.foldlM_map]
  simp only [step, Option.map_eq_bind, List.foldlM_cons, List.foldlM_nil]
  rfl

end Terraboot.Can2040
