import Terraboot.Can2040Fields
import Terraboot.Can2040Sound

/-!
# What the Parser Makes of a Frame

The parser takes a frame apart into fields, one for each of its states, and this module follows it
from field to field: when the bits of a field of a frame have come, the next field it waits for is the
next one of that frame, and what it has written down so far is what the frame says. The report that is
due moves along.

## Main results

* `leftBits_start`: the fields of a frame, one after the other, are the frame on the line.
* `Parsed.update`: from one field to the next.
-/

open BitStuffing DirectCrc MsbBits

namespace Terraboot.Can2040

/-! ### Fields -/

/-- The header behind the start of the frame. -/
def headerBits (f : BusFrame) : List Bool := f.header.drop 1

/-- Some of the data bytes. -/
def dataBits (data : List Byte) : List Bool := data.flatMap (msbBits · 8)

/-- The checksum and its delimiter. -/
def crcField (f : BusFrame) : List Bool := msbBits (canCrc f.bits) 15 ++ [true]

/-- The field of a frame that the parser waits for. -/
def fieldBits (f : BusFrame) : ParseState → List Bool
  | .start => (headerBits f).take 1
  | .header => ((headerBits f).drop 1).take 17
  | .extHeader => (headerBits f).drop 18
  | .data0 => dataBits (f.data.take 4)
  | .data1 => dataBits (f.data.drop 4)
  | .crc => crcField f
  | .ack => [false, true]
  | .eof0 => List.replicate 4 true
  | .eof1 => List.replicate 5 true
  | .discard => []

/-- The fields behind it, up to the next place where the unstuffer begins anew. -/
def laterBits (f : BusFrame) : ParseState → List Bool
  | .start => (headerBits f).drop 1 ++ dataBits f.data ++ crcField f
  | .header => (headerBits f).drop 18 ++ dataBits f.data ++ crcField f
  | .extHeader => dataBits f.data ++ crcField f
  | .data0 => dataBits (f.data.drop 4) ++ crcField f
  | .data1 => crcField f
  | .ack => List.replicate 4 true
  | _ => []

/-- What follows on the line behind that place. -/
def tailBits : ParseState → List Bool
  | .ack | .eof0 => List.replicate 5 true
  | .eof1 | .discard => []
  | _ => [false, true] ++ List.replicate 4 true ++ List.replicate 5 true

/-- The field behind the header. -/
def stateBehindHeader (f : BusFrame) : ParseState := if f.data = [] then .crc else .data0

/-- The next field. -/
def nextState (f : BusFrame) : ParseState → ParseState
  | .start => .header
  | .header => match f.id with
      | .base _ => stateBehindHeader f
      | .extended _ => .extHeader
  | .extHeader => stateBehindHeader f
  | .data0 => if 4 < f.data.length then .data1 else .crc
  | .data1 => .crc
  | .crc => .ack
  | .ack => .eof0
  | .eof0 => .eof1
  | .eof1 => .start
  | .discard => .discard

/-- A frame as it is handed over by the receiving state machine, behind at least ten recessive bits:
with the acknowledgement and ten recessive bits more. -/
def onLine (f : BusFrame) : List Bool :=
  f.line ++ [false, true] ++ List.replicate 4 true ++ List.replicate 5 true

theorem length_data_le (f : BusFrame) : f.data.length ≤ 8 := by
  rw [f.length_data]
  split_ifs <;> omega

theorem headerBits_base {f : BusFrame} {id : BitVec 11} (hid : f.id = .base id) :
    headerBits f = msbBits id 11 ++ f.remote :: false :: false :: msbBits f.dlc 4 := by
  rw [headerBits, BusFrame.header, hid]
  simp

theorem headerBits_extended {f : BusFrame} {id : BitVec 29} (hid : f.id = .extended id) :
    headerBits f = (msbBits (id >>> 18) 11 ++ true :: true :: msbBits (id >>> 13) 5) ++
      (msbBits id 13 ++ f.remote :: false :: false :: msbBits f.dlc 4) := by
  have hsplit : msbBits id 18 = msbBits (id >>> 13) 5 ++ msbBits id 13 := msbBits_add id 5 13
  rw [headerBits, BusFrame.header, hid]
  simp [hsplit]

theorem header_eq (f : BusFrame) : f.header = false :: headerBits f := by
  rw [headerBits, BusFrame.header]
  cases f.id <;> rfl

theorem bits_eq (f : BusFrame) : f.bits = false :: (headerBits f ++ dataBits f.data) := by
  rw [BusFrame.bits, header_eq]
  rfl

theorem length_headerBits (f : BusFrame) :
    (headerBits f).length = match f.id with | .base _ => 18 | .extended _ => 38 := by
  cases hid : f.id with
  | base id => rw [headerBits_base hid]; simp
  | extended id => rw [headerBits_extended hid]; simp

theorem le_length_headerBits (f : BusFrame) : 18 ≤ (headerBits f).length := by
  rw [length_headerBits]
  cases f.id <;> simp

theorem length_dataBits (data : List Byte) : (dataBits data).length = 8 * data.length :=
  length_flatMap_msbBits data 8

theorem dataBits_take_drop (data : List Byte) (k : ℕ) :
    dataBits (data.take k) ++ dataBits (data.drop k) = dataBits data := by
  rw [dataBits, dataBits, ← List.flatMap_append, List.take_append_drop]
  rfl

/-- The unstuffer begins anew behind the checksum and in the middle of the end of a frame. -/
def clearsBehind : ParseState → Bool
  | .crc | .eof0 => true
  | _ => false

/-- What the unstuffer remembers behind a field. -/
def pastBehind (state : ParseState) (h : List Bool) : List Bool :=
  if clearsBehind state then [false] else h

/-- What is left of a frame on the line. -/
def leftBits (f : BusFrame) (state : ParseState) (h field : List Bool) : List Bool :=
  stuff 5 h (field ++ laterBits f state) ++ tailBits state

theorem laterBits_header (f : BusFrame) :
    dataBits f.data ++ crcField f =
      fieldBits f (stateBehindHeader f) ++ laterBits f (stateBehindHeader f) := by
  rw [stateBehindHeader]
  split_ifs with hdata
  · rw [hdata]
    exact (List.append_nil _).symm
  · rw [← dataBits_take_drop f.data 4, List.append_assoc]
    rfl

theorem tailBits_header (f : BusFrame) : tailBits (stateBehindHeader f) = tailBits .start := by
  rw [stateBehindHeader]
  split_ifs <;> rfl

/-- **The fields of a frame follow one another** on the line. -/
theorem leftBits_nil (f : BusFrame) {state : ParseState} (hend : state ≠ .eof1)
    (hdiscard : state ≠ .discard) (h : List Bool) :
    leftBits f state h [] = leftBits f (nextState f state) (pastBehind state h)
      (fieldBits f (nextState f state)) := by
  have hsame (hlater : laterBits f state =
      fieldBits f (nextState f state) ++ laterBits f (nextState f state))
      (htail : tailBits state = tailBits (nextState f state)) (hclear : clearsBehind state = false) :
      leftBits f state h [] = leftBits f (nextState f state) (pastBehind state h)
        (fieldBits f (nextState f state)) := by
    rw [leftBits, leftBits, pastBehind, hclear, if_neg Bool.false_ne_true, List.nil_append, hlater,
      htail]
  cases state with
  | start =>
      refine hsame ?_ rfl rfl
      have hdrop : (headerBits f).drop 18 = ((headerBits f).drop 1).drop 17 := by
        rw [List.drop_drop]
      change (headerBits f).drop 1 ++ dataBits f.data ++ crcField f =
        ((headerBits f).drop 1).take 17 ++ ((headerBits f).drop 18 ++ dataBits f.data ++ crcField f)
      rw [hdrop, ← List.append_assoc, ← List.append_assoc, List.take_append_drop]
  | header =>
      cases hid : f.id with
      | base id =>
          have hnext : nextState f .header = stateBehindHeader f := by rw [nextState, hid]
          have hdrop : (headerBits f).drop 18 = [] := by
            refine List.drop_of_length_le ?_
            rw [length_headerBits, hid]
          refine hsame ?_ (by rw [hnext, tailBits_header]; rfl) rfl
          rw [hnext, ← laterBits_header, laterBits, hdrop, List.nil_append]
      | extended id =>
          have hnext : nextState f .header = .extHeader := by rw [nextState, hid]
          refine hsame ?_ (by rw [hnext]; rfl) rfl
          rw [hnext]
          exact List.append_assoc _ _ _
  | extHeader => exact hsame (laterBits_header f) (tailBits_header f).symm rfl
  | data0 =>
      by_cases hmore : 4 < f.data.length
      · have hnext : nextState f .data0 = .data1 := if_pos hmore
        exact hsame (by rw [hnext]; rfl) (by rw [hnext]; rfl) rfl
      · have hnext : nextState f .data0 = .crc := if_neg hmore
        have hdrop : f.data.drop 4 = [] := List.drop_of_length_le (by omega)
        refine hsame ?_ (by rw [hnext]; rfl) rfl
        rw [hnext, laterBits, hdrop]
        exact (List.append_nil _).symm
  | data1 => exact hsame (List.append_nil _).symm rfl rfl
  | crc => rfl
  | ack => exact hsame (List.append_nil _).symm rfl rfl
  | eof0 => rfl
  | eof1 => exact absurd rfl hend
  | discard => exact absurd rfl hdiscard

/-- A long recessive past. -/
def recessivePast : List Bool := List.replicate 5 true

/-- **The fields of a frame, one after the other, are the frame on the line.** The start of the frame
is for the unstuffer an added bit. -/
theorem leftBits_start (f : BusFrame) :
    leftBits f .start recessivePast (fieldBits f .start) = onLine f := by
  have hbody : fieldBits f .start ++ laterBits f .start =
      headerBits f ++ dataBits f.data ++ crcField f := by
    rw [fieldBits, laterBits, ← List.append_assoc, ← List.append_assoc, List.take_append_drop]
  have hchecked : f.checked ++ [true] = false :: (headerBits f ++ dataBits f.data ++ crcField f) := by
    rw [BusFrame.checked, List.append_assoc]
    exact congrArg (· ++ crcField f) (bits_eq f)
  have hline : f.line = false :: stuff 5 [false, true] (headerBits f ++ dataBits f.data ++
      crcField f) := by
    rw [BusFrame.line, hchecked]
    rfl
  obtain ⟨b, body, hcons⟩ : ∃ b body, headerBits f ++ dataBits f.data ++ crcField f = b :: body := by
    refine List.exists_cons_of_length_pos ?_
    have hlength := le_length_headerBits f
    simp only [List.length_append]
    omega
  have hpast : SameRun 5 (b :: [false, true]) (b :: (false :: recessivePast)) :=
    SameRun.cons ⟨rfl, rfl⟩ b
  have hstuff : stuff 5 recessivePast (b :: body) = false :: stuff 5 [false, true] (b :: body) := by
    change false :: b :: stuff 5 (b :: (false :: recessivePast)) body =
      false :: b :: stuff 5 (b :: [false, true]) body
    rw [stuff_congr hpast]
  rw [leftBits, hbody, onLine, hline, hcons, hstuff]
  simp [tailBits]

/-! ### What has been written down -/

/-- What the parser has written down when it begins to wait for a field. -/
def Written (f : BusFrame) (msg : CanbusMsg) (crc : Word) : ParseState → Prop
  | .start => True
  | .header => msg.id = ofMsb 32 ((headerBits f).take 1)
  | .extHeader => (∃ id, f.id = .extended id) ∧ msg.id = ofMsb 32 ((headerBits f).take 18)
  | .data0 => f.data ≠ [] ∧ msg = partMsg f 0 ∧ crc.setWidth 15 = canCrc f.header
  | .data1 => 4 < f.data.length ∧ msg = partMsg f 4 ∧
      crc.setWidth 15 = canCrc (f.header ++ dataBits (f.data.take 4))
  | .crc => msg = msgOf f ∧ crc = (canCrc f.bits).setWidth 32
  | .discard => False
  | _ => msg = msgOf f

/-- The report that is due when the checksum has been announced. -/
def needAck (own : Bool) : ReportState := if own then .needTxAck else .needRxAck

/-- The report of a frame. -/
def report (f : BusFrame) (own : Bool) : Notify := if own then .tx (msgOf f) else .rx (msgOf f)

/-- The frame is the one that the state machine has been told to send. -/
def Echo (f : BusFrame) (cd : State) : Prop :=
  cd.txState = .queued ∧ (oldest cd).msg = msgOf f ∧
    (oldest cd).crc = (canCrc f.bits).setWidth 32

/-- What has been reported when the parser begins to wait for a field. A frame may have been reported
before its end, and then nothing is due any more. -/
def Reported (f : BusFrame) (own : Bool) (calls₀ : List Notify) (due : ReportState)
    (calls : List Notify) (echo : Prop) : ParseState → Prop
  | .crc | .ack => due = needAck own ∧ calls = calls₀ ∨ due = .idle ∧ calls = calls₀ ++ [report f own]
  | .eof0 | .eof1 => due = (needAck own).setEofFlag ∧ calls = calls₀ ∨
      due = .idle ∧ calls = calls₀ ++ [report f own]
  | _ => due = .idle ∧ calls = calls₀ ∧ (own = true → echo)

variable {f : BusFrame} {own : Bool} {calls₀ : List Notify}

/-- The parser is at a field of a frame. -/
structure Parsed (f : BusFrame) (own : Bool) (calls₀ : List Notify) (cd : State)
    (state : ParseState) : Prop where
  parseState_eq : cd.parseState = state
  countStuff_eq : cd.unstuf.countStuff = 0
  rxStall_eq : cd.pio.rxStall = false
  written : Written f cd.parseMsg cd.parseCrc state
  reported : Reported f own calls₀ cd.reportState cd.calls (Echo f cd) state

/-- The parser begins to wait for a field of a frame. -/
structure Awaits (f : BusFrame) (own : Bool) (calls₀ : List Notify) (stuffedBits : Word)
    (cd : State) (state : ParseState) : Prop extends Parsed f own calls₀ cd state where
  unstuf_eq : cd.unstuf = {
    stuffedBits, countStuff := 0, unstuffedBits := 0, countUnstuff := (fieldBits f state).length }

/-- The parser goes to the next field. -/
theorem awaits_dataStateGoNext {cd : State} {state : ParseState} {stuffedBits : Word} {n : ℕ}
    (hword : cd.unstuf.stuffedBits = stuffedBits) (hzero : cd.unstuf.countStuff = 0)
    (hstall : cd.pio.rxStall = false) (hn : n = (fieldBits f state).length)
    (hwritten : Written f cd.parseMsg cd.parseCrc state)
    (hreported : Reported f own calls₀ cd.reportState cd.calls (Echo f cd) state) :
    Awaits f own calls₀ stuffedBits (dataStateGoNext cd state n) state := by
  refine ⟨⟨rfl, hzero, hstall, hwritten, hreported⟩, ?_⟩
  rw [dataStateGoNext, unstufSetCount, ← hword, ← hn, ← hzero]

/-! ### The checksum -/

theorem and_lowMask_eq {w : Word} {v : BitVec 15} (h : w.setWidth 15 = v) :
    w &&& 0x7fff = v.setWidth 32 := by
  subst h
  have hmask (i : ℕ) : (0x7fff : Word).getLsbD i = decide (i < 15) :=
    getLsbD_lowMask (n := 32) (t := 15) (by omega) i
  refine BitVec.eq_of_getLsbD_eq fun i hi => ?_
  rw [BitVec.getLsbD_and, hmask]
  simp [hi, Bool.and_comm]

/-- **Whose frame it is** is decided when its data have come. -/
theorem awaits_dataStateGoCrc {cd : State} (hzero : cd.unstuf.countStuff = 0)
    (hstall : cd.pio.rxStall = false) (hmsg : cd.parseMsg = msgOf f)
    (hcrc : cd.parseCrc.setWidth 15 = canCrc f.bits) (hcalls : cd.calls = calls₀)
    (hecho : own = true → Echo f cd)
    (hforeign : own = false → cd.txState = .queued → (oldest cd).msg.id ≠ (msgOf f).id) :
    Awaits f own calls₀ cd.unstuf.stuffedBits (dataStateGoCrc cd) .crc := by
  have hcrc' : (dataStateExpectCrc cd).parseCrc = (canCrc f.bits).setWidth 32 := and_lowMask_eq hcrc
  have hwritten : Written f (dataStateExpectCrc cd).parseMsg (dataStateExpectCrc cd).parseCrc .crc :=
    ⟨hmsg, hcrc'⟩
  have hlength : 16 = (fieldBits f .crc).length := by
    rw [fieldBits, crcField, List.length_append, length_msbBits]
    rfl
  obtain ⟨cd', hcd'⟩ : ∃ cd', dataStateExpectCrc cd = cd' := ⟨_, rfl⟩
  have hparse : cd'.parseMsg = msgOf f := by rw [← hcd']; exact hmsg
  have hframe : cd'.unstuf = cd.unstuf ∧ cd'.pio = cd.pio ∧ cd'.calls = cd.calls ∧
      cd'.txState = cd.txState ∧ oldest cd' = oldest cd := by
    rw [← hcd']
    exact ⟨rfl, rfl, rfl, rfl, rfl⟩
  obtain ⟨hunstuf, hpio, hcalls', htxState, holdest⟩ := hframe
  have hstall' : cd'.pio.rxStall = false := by rw [hpio]; exact hstall
  have hzero' : cd'.unstuf.countStuff = 0 := by rw [hunstuf]; exact hzero
  rw [hcd'] at hcrc' hwritten
  rw [dataStateGoCrc, hcd', reportNoteCrcStart, txCheckLocalMessage]
  cases own with
  | true =>
      obtain ⟨hqueued, hslot, hslotCrc⟩ := hecho rfl
      have hqueued' : cd'.txState = .queued := htxState.trans hqueued
      have hid : (cd'.txQueue (txQpos cd'.txPullPos)).msg = msgOf f := (congrArg _ holdest).trans hslot
      have hcrc'' : (cd'.txQueue (txQpos cd'.txPullPos)).crc = (canCrc f.bits).setWidth 32 :=
        (congrArg _ holdest).trans hslotCrc
      have hsame : (cd'.txQueue (txQpos cd'.txPullPos)).msg.id = cd'.parseMsg.id := by
        rw [hid, hparse]
      have hequal : ¬((cd'.txQueue (txQpos cd'.txPullPos)).crc ≠ cd'.parseCrc ∨
          (cd'.txQueue (txQpos cd'.txPullPos)).msg.dlc ≠ cd'.parseMsg.dlc ∨
          (cd'.txQueue (txQpos cd'.txPullPos)).msg.data ≠ cd'.parseMsg.data) := by
        rw [hid, hparse, hcrc'', hcrc']
        simp
      rw [if_neg (not_not.mpr hqueued')]
      dsimp only
      rw [if_pos hsame, if_neg hequal]
      exact awaits_dataStateGoNext (congrArg _ hunstuf) hzero' hstall' hlength hwritten
        (.inl ⟨rfl, hcalls'.trans hcalls⟩)
  | false =>
      have hother : Awaits f false calls₀ cd.unstuf.stuffedBits (dataStateGoNext (pioIrqSet
          (pioSignalSetTxpending { cd' with reportState := .needRxAck })
            { maytx := true, txpending := true }) .crc 16) .crc :=
        awaits_dataStateGoNext (congrArg _ hunstuf) hzero' hstall' hlength hwritten
          (.inl ⟨rfl, hcalls'.trans hcalls⟩)
      by_cases hqueued : cd'.txState = .queued
      · have hne : ¬(cd'.txQueue (txQpos cd'.txPullPos)).msg.id = (msgOf f).id := by
          have hid : (cd'.txQueue (txQpos cd'.txPullPos)).msg = (oldest cd).msg := congrArg _ holdest
          rw [hid]
          exact hforeign rfl (htxState.symm.trans hqueued)
        rw [if_neg (not_not.mpr hqueued)]
        dsimp only
        rw [hparse, if_neg hne]
        exact hother
      · rw [if_pos hqueued]
        exact hother

/-! ### The header and the data -/

/-- What stays as it is while the header and the data come. -/
structure Coming (f : BusFrame) (own : Bool) (calls₀ : List Notify) (cd : State) : Prop where
  countStuff_eq : cd.unstuf.countStuff = 0
  rxStall_eq : cd.pio.rxStall = false
  idle : cd.reportState = .idle
  calls_eq : cd.calls = calls₀
  echo : own = true → Echo f cd
  foreign : own = false → cd.txState = .queued → (oldest cd).msg.id ≠ (msgOf f).id

theorem Coming.goNext {cd : State} (h : Coming f own calls₀ cd) {state : ParseState}
    (hstate : state.beforeCrc = true) {n : ℕ} (hn : n = (fieldBits f state).length)
    (hwritten : Written f cd.parseMsg cd.parseCrc state) :
    Awaits f own calls₀ cd.unstuf.stuffedBits (dataStateGoNext cd state n) state := by
  refine awaits_dataStateGoNext rfl h.countStuff_eq h.rxStall_eq hn hwritten ?_
  cases state with
  | header | extHeader | data0 | data1 => exact ⟨h.idle, h.calls_eq, h.echo⟩
  | _ => cases hstate

theorem Coming.goCrc {cd : State} (h : Coming f own calls₀ cd) (hmsg : cd.parseMsg = msgOf f)
    (hcrc : cd.parseCrc.setWidth 15 = canCrc f.bits) :
    Awaits f own calls₀ cd.unstuf.stuffedBits (dataStateGoCrc cd) .crc :=
  awaits_dataStateGoCrc h.countStuff_eq h.rxStall_eq hmsg hcrc h.calls_eq h.echo h.foreign

/-- The number of data bytes, as the parser has it. -/
theorem length_data_of_header {x : Word}
    (hx : msbBits x 7 = f.remote :: false :: false :: msbBits f.dlc 4) :
    f.data.length = min (if x &&& (1#32 <<< 6) ≠ 0 then 0 else (x &&& 0x0f).toNat) 8 := by
  obtain ⟨-, hremote, hdlc⟩ := header_low hx
  have hcode : (x &&& 0x0f).toNat = f.dlc.toNat := by
    rw [hdlc, BitVec.toNat_setWidth]
    exact Nat.mod_eq_of_lt (by omega)
  rw [f.length_data, if_congr hremote rfl rfl, hcode]
  cases f.remote <;> rfl

theorem fieldLength_first {n : ℕ} (h : f.data.length = min n 8) :
    (if 4 ≤ n then 32 else n * 8) = (fieldBits f .data0).length := by
  rw [fieldBits, length_dataBits, List.length_take, h]
  split_ifs <;> omega

/-- **Behind the header** come the data, or the checksum if there are none. -/
theorem Coming.goData {cd : State} (h : Coming f own calls₀ cd) {id x : Word}
    (hmsg : headerMsg id x = partMsg f 0)
    (hx : msbBits x 7 = f.remote :: false :: false :: msbBits f.dlc 4)
    (hcrc : cd.parseCrc.setWidth 15 = canCrc f.header) :
    Awaits f own calls₀ cd.unstuf.stuffedBits (dataStateGoData cd id x) (stateBehindHeader f) := by
  obtain ⟨hreserved, -, -⟩ := header_low hx
  have hlength := length_data_of_header hx
  have hcoming : Coming f own calls₀ { cd with parseMsg := headerMsg id x } :=
    ⟨h.countStuff_eq, h.rxStall_eq, h.idle, h.calls_eq, h.echo, h.foreign⟩
  rw [dataStateGoData, if_neg hreserved, stateBehindHeader]
  dsimp only
  obtain ⟨n, hn⟩ : ∃ n, (if x &&& (1#32 <<< 6) ≠ 0 then 0 else (x &&& 0x0f).toNat) = n := ⟨_, rfl⟩
  rw [hn] at hlength ⊢
  by_cases hdata : f.data = []
  · have hnone : n = 0 := by
      rw [hdata, List.length_nil] at hlength
      omega
    have hbits : f.bits = f.header := by
      rw [BusFrame.bits, hdata]
      exact List.append_nil _
    rw [if_neg (not_not.mpr hnone), if_pos hdata]
    refine hcoming.goCrc (hmsg.trans (partMsg_eq (by rw [hdata]; exact le_rfl))) ?_
    rw [hbits]
    exact hcrc
  · have hsome : n ≠ 0 := by
      have hpos := List.length_pos_iff.mpr hdata
      omega
    rw [if_pos hsome, if_neg hdata]
    exact hcoming.goNext rfl (fieldLength_first hlength) ⟨hdata, hmsg, hcrc⟩

theorem ofMsb_append (a b : List Bool) :
    (ofMsb 32 a <<< b.length) ||| ofMsb 32 b = ofMsb 32 (a ++ b) := by
  have happend := shiftLeft_or_ofMsb_append (0 : Word) a b
  simpa using happend.symm

/-- The bits of a short field, as the parser has them in a word. -/
theorem getLsbD_ofMsb_clear {bits : List Bool} {k : ℕ} (h : bits.length ≤ k) (i : ℕ) (hi : k ≤ i) :
    (ofMsb 32 bits).getLsbD i = false :=
  getLsbD_ofMsb_of_le (h.trans hi)

/-- Both bits of the mask are set. -/
theorem and_0x60_eq_iff (x : Word) :
    x &&& 0x60 = 0x60 ↔ x.getLsbD 5 = true ∧ x.getLsbD 6 = true := by
  have hmask := getLsbD_mask 0x60#32 5 7 (by omega) (by decide)
  constructor
  · intro heq
    have hbit (i : ℕ) (hi : 5 ≤ i ∧ i < 7) : x.getLsbD i = true := by
      have hi' := congrArg (fun w => BitVec.getLsbD w i) heq
      rw [BitVec.getLsbD_and] at hi'
      have hset : (0x60 : Word).getLsbD i = true := (hmask i).trans (decide_eq_true hi)
      rw [hset, Bool.and_true] at hi'
      exact hi'
    exact ⟨hbit 5 (by omega), hbit 6 (by omega)⟩
  · rintro ⟨h5, h6⟩
    refine BitVec.eq_of_getLsbD_eq fun i hi => ?_
    rw [BitVec.getLsbD_and]
    have hset : (0x60 : Word).getLsbD i = decide (5 ≤ i ∧ i < 7) := hmask i
    rw [hset]
    by_cases hin : 5 ≤ i ∧ i < 7
    · obtain rfl | rfl : i = 5 ∨ i = 6 := by omega
      · simp [h5]
      · simp [h6]
    · simp [hin]

theorem Parsed.coming {cd : State} {state : ParseState} (h : Parsed f own calls₀ cd state)
    (hstate : state = .start ∨ state.beforeCrc = true)
    (hforeign : own = false → cd.txState = .queued → (oldest cd).msg.id ≠ (msgOf f).id) :
    Coming f own calls₀ cd := by
  have hreported : cd.reportState = .idle ∧ cd.calls = calls₀ ∧ (own = true → Echo f cd) := by
    have hall := h.reported
    cases state with
    | start | header | extHeader | data0 | data1 => exact hall
    | _ => simp [ParseState.beforeCrc] at hstate
  exact ⟨h.countStuff_eq, h.rxStall_eq, hreported.1, hreported.2.1, hreported.2.2, hforeign⟩

section

variable {cd : State}
  (hforeign : own = false → cd.txState = .queued → (oldest cd).msg.id ≠ (msgOf f).id)

include hforeign

theorem Parsed.updateStart (h : Parsed f own calls₀ cd .start) :
    Awaits f own calls₀ cd.unstuf.stuffedBits (dataStateUpdateStart cd (ofMsb 32 (fieldBits f .start)))
      .header := by
  have hcoming := h.coming (.inl rfl) hforeign
  have hlength := le_length_headerBits f
  have hfield : 17 = (fieldBits f .header).length := by
    rw [fieldBits, List.length_take, List.length_drop]
    omega
  exact awaits_dataStateGoNext rfl h.countStuff_eq h.rxStall_eq hfield rfl
    ⟨hcoming.idle, hcoming.calls_eq, hcoming.echo⟩

theorem Parsed.updateHeader (h : Parsed f own calls₀ cd .header) :
    Awaits f own calls₀ cd.unstuf.stuffedBits
      (dataStateUpdateHeader cd (ofMsb 32 (fieldBits f .header))) (nextState f .header) := by
  have hcoming := h.coming (.inr rfl) hforeign
  have hlength := le_length_headerBits f
  have hcount : ((headerBits f).take 18).length = 18 := by
    rw [List.length_take]
    omega
  have hword : ofMsb 32 (fieldBits f .header) ||| (cd.parseMsg.id <<< 17) =
      ofMsb 32 ((headerBits f).take 18) := by
    have hid : cd.parseMsg.id = ofMsb 32 ((headerBits f).take 1) := h.written
    have hfield : (fieldBits f .header).length = 17 := by
      rw [fieldBits, List.length_take, List.length_drop]
      omega
    have happend := ofMsb_append ((headerBits f).take 1) (fieldBits f .header)
    rw [hfield] at happend
    rw [hid, BitVec.or_comm, happend, fieldBits, ← List.take_add]
  obtain ⟨x, hx⟩ : ∃ x, ofMsb 32 ((headerBits f).take 18) = x := ⟨_, rfl⟩
  have hbits : msbBits x 18 = (headerBits f).take 18 := by
    have hread := msbBits_ofMsb (n := 32) ((headerBits f).take 18) (by omega)
    rwa [hcount, hx] at hread
  have hclear (i : ℕ) (hi : 18 ≤ i) : x.getLsbD i = false := by
    rw [← hx]
    exact getLsbD_ofMsb_clear hcount.le i hi
  rw [dataStateUpdateHeader, hword, hx]
  dsimp only
  cases hid : f.id with
  | base id =>
      have hhdr := headerBits_base hid
      have htake : (headerBits f).take 18 = headerBits f := by
        refine List.take_of_length_le ?_
        rw [length_headerBits, hid]
      rw [htake] at hbits
      have hfields := hbits.trans hhdr
      have hlow : msbBits x 7 = f.remote :: false :: false :: msbBits f.dlc 4 := by
        have hsplit : msbBits x 18 = msbBits (x >>> 7) 11 ++ msbBits x 7 := msbBits_add x 11 7
        exact (List.append_inj (hsplit.symm.trans hfields) (by simp)).2
      have hbase : ¬x &&& 0x60 = 0x60 := by
        have h5 : x.getLsbD 5 = false := by
          have hsplit : msbBits x 7 = x.getLsbD 6 :: x.getLsbD 5 :: msbBits x 5 := rfl
          rw [hsplit, List.cons.injEq, List.cons.injEq] at hlow
          exact hlow.2.1
        rw [and_0x60_eq_iff, h5]
        simp
      have hcrc : (crcBytes 0 x 3).setWidth 15 = canCrc f.header := by
        have htop : msbBits x 19 = false :: msbBits x 18 := by
          rw [msbBits, hclear 18 le_rfl]
        rw [crcBytes_base fun i hi => hclear i (by omega), htop, hbits, header_eq]
      have hnext : nextState f .header = stateBehindHeader f := by rw [nextState, hid]
      have hparsed : Coming f own calls₀ { cd with parseCrc := crcBytes 0 x 3 } :=
        ⟨hcoming.countStuff_eq, hcoming.rxStall_eq, hcoming.idle, hcoming.calls_eq, hcoming.echo,
          hcoming.foreign⟩
      rw [if_neg hbase, hnext]
      exact hparsed.goData (headerMsg_base hid hfields) hlow hcrc
  | extended id =>
      have hhdr := headerBits_extended hid
      have htake : (headerBits f).take 18 =
          msbBits (id >>> 18) 11 ++ true :: true :: msbBits (id >>> 13) 5 := by
        rw [hhdr, List.take_append_of_le_length (by simp)]
        exact List.take_of_length_le (by simp)
      have hlow : msbBits x 7 = true :: true :: msbBits (id >>> 13) 5 := by
        have hsplit : msbBits x 18 = msbBits (x >>> 7) 11 ++ msbBits x 7 := msbBits_add x 11 7
        exact (List.append_inj (hsplit.symm.trans (hbits.trans htake)) (by simp)).2
      have hextended : x &&& 0x60 = 0x60 := by
        have hsplit : msbBits x 7 = x.getLsbD 6 :: x.getLsbD 5 :: msbBits x 5 := rfl
        rw [hsplit, List.cons.injEq, List.cons.injEq] at hlow
        exact (and_0x60_eq_iff x).mpr ⟨hlow.2.1, hlow.1⟩
      have hfield : 20 = (fieldBits f .extHeader).length := by
        rw [fieldBits, List.length_drop, length_headerBits, hid]
        rfl
      have hnext : nextState f .header = .extHeader := by rw [nextState, hid]
      have hparsed : Coming f own calls₀ { cd with parseMsg := { cd.parseMsg with id := x } } :=
        ⟨hcoming.countStuff_eq, hcoming.rxStall_eq, hcoming.idle, hcoming.calls_eq, hcoming.echo,
          hcoming.foreign⟩
      rw [if_pos hextended, hnext]
      exact hparsed.goNext rfl hfield ⟨⟨id, hid⟩, hx.symm⟩

theorem Parsed.updateExtHeader (h : Parsed f own calls₀ cd .extHeader) :
    Awaits f own calls₀ cd.unstuf.stuffedBits
      (dataStateUpdateExtHeader cd (ofMsb 32 (fieldBits f .extHeader))) (stateBehindHeader f) := by
  have hcoming := h.coming (.inr rfl) hforeign
  obtain ⟨⟨id, hid⟩, hfirst⟩ := h.written
  have hhdr := headerBits_extended hid
  have hlength : (headerBits f).length = 38 := by rw [length_headerBits, hid]
  have htake : (headerBits f).take 18 =
      msbBits (id >>> 18) 11 ++ true :: true :: msbBits (id >>> 13) 5 := by
    rw [hhdr, List.take_append_of_le_length (by simp)]
    exact List.take_of_length_le (by simp)
  have hdrop : (headerBits f).drop 18 =
      msbBits id 13 ++ f.remote :: false :: false :: msbBits f.dlc 4 := by
    rw [hhdr]
    exact List.drop_left' (by simp)
  have hcount1 : ((headerBits f).take 18).length = 18 := by rw [List.length_take, hlength]; rfl
  have hcount2 : ((headerBits f).drop 18).length = 20 := by rw [List.length_drop, hlength]
  obtain ⟨h1, hh1⟩ : ∃ h1, cd.parseMsg.id = h1 := ⟨_, rfl⟩
  obtain ⟨x, hx⟩ : ∃ x, ofMsb 32 (fieldBits f .extHeader) = x := ⟨_, rfl⟩
  have hbits1 : msbBits h1 18 = (headerBits f).take 18 := by
    have hread := msbBits_ofMsb (n := 32) ((headerBits f).take 18) (by omega)
    rwa [hcount1, ← hfirst, hh1] at hread
  have hbits2 : msbBits x 20 = (headerBits f).drop 18 := by
    have hread := msbBits_ofMsb (n := 32) ((headerBits f).drop 18) (by omega)
    rw [hcount2] at hread
    rw [← hx]
    exact hread
  have hclear1 (i : ℕ) (hi : 18 ≤ i) : h1.getLsbD i = false := by
    rw [← hh1, hfirst]
    exact getLsbD_ofMsb_clear hcount1.le i hi
  have hclear2 (i : ℕ) (hi : 20 ≤ i) : x.getLsbD i = false := by
    rw [← hx]
    exact getLsbD_ofMsb_clear hcount2.le i hi
  have hfields := hbits2.trans hdrop
  have hlow : msbBits x 7 = f.remote :: false :: false :: msbBits f.dlc 4 := by
    have hsplit : msbBits x 20 = msbBits (x >>> 7) 13 ++ msbBits x 7 := msbBits_add x 13 7
    exact (List.append_inj (hsplit.symm.trans hfields) (by simp)).2
  have hcrc : (crcBytes (crcBytes 0 (h1 >>> 4) 2) (((h1 &&& 0x0f) <<< 20) ||| x) 3).setWidth 15 =
      canCrc f.header := by
    have htop : msbBits h1 19 = false :: msbBits h1 18 := by
      rw [msbBits, hclear1 18 le_rfl]
    rw [crcBytes_extended (fun i hi => hclear1 i (by omega)) hclear2, htop, hbits1, hbits2,
      List.cons_append, List.take_append_drop, header_eq]
  have hparsed : Coming f own calls₀ { cd with
      parseCrc := crcBytes (crcBytes 0 (h1 >>> 4) 2) (((h1 &&& 0x0f) <<< 20) ||| x) 3 } :=
    ⟨hcoming.countStuff_eq, hcoming.rxStall_eq, hcoming.idle, hcoming.calls_eq, hcoming.echo,
      hcoming.foreign⟩
  rw [dataStateUpdateExtHeader, hx, hh1]
  exact hparsed.goData (headerMsg_extended hid (hbits1.trans htake) hfields hclear2) hlow hcrc

end

/-- The length code of a frame with data. -/
theorem length_data_of_ne_nil (hdata : f.data ≠ []) :
    f.data.length = min (msgOf f).dlc.toNat 8 := by
  have hpos := List.length_pos_iff.mpr hdata
  have hcode : (msgOf f).dlc.toNat = f.dlc.toNat := by
    change (f.dlc.setWidth 32).toNat = f.dlc.toNat
    rw [BitVec.toNat_setWidth]
    exact Nat.mod_eq_of_lt (by omega)
  have hlength := f.length_data
  rw [hcode]
  cases hremote : f.remote with
  | true =>
      rw [hremote, if_pos rfl] at hlength
      omega
  | false =>
      rw [hremote] at hlength
      exact hlength

/-- What is made of a field of data bytes. -/
theorem dataField_eq {l : List Byte} {n : ℕ} (hl : l.length = min n 4) (hn : 0 < n) (crc : Word) :
    (crcBytes crc (ofMsb 32 (dataBits l)) n).setWidth 15 =
        feed canPoly (crc.setWidth 15) (dataBits l) ∧
      bswap32Bytes (ofMsb 32 (dataBits l) <<< (32 - if 4 ≤ n then 32 else n * 8)) =
        l ++ List.replicate (4 - l.length) 0 := by
  have hlength := length_dataBits l
  have hread : msbBits (ofMsb 32 (dataBits l)) (8 * min n 4) = dataBits l := by
    have hread := msbBits_ofMsb (n := 32) (dataBits l) (by omega)
    rwa [hlength, hl] at hread
  have hshift : (if 4 ≤ n then 32 else n * 8) = 8 * l.length := by
    rw [hl]
    split_ifs <;> omega
  refine ⟨by rw [crcBytes_setWidth _ _ hn, hread], ?_⟩
  rw [hshift]
  exact bswap32Bytes_ofMsb (by omega)

/-- The first bytes end up in the message. -/
theorem setData32Low_partMsg {x : Word} (h : bswap32Bytes x =
    f.data.take 4 ++ List.replicate (4 - (f.data.take 4).length) 0) :
    setData32Low (partMsg f 0) x = partMsg f 4 := by
  have hle : (f.data.take 4).length ≤ 4 := List.length_take_le 4 _
  have hpad : 4 - (f.data.take 4).length + 4 = 8 - (f.data.take 4).length := by omega
  refine CanbusMsg.ext rfl rfl ?_
  change bswap32Bytes x ++ List.replicate 4 0 = f.data.take 4 ++ List.replicate _ 0
  rw [h, List.append_assoc, List.replicate_append_replicate, hpad]

/-- So do the others. -/
theorem setData32High_partMsg {x : Word} (hmore : 4 < f.data.length) (h : bswap32Bytes x =
    f.data.drop 4 ++ List.replicate (4 - (f.data.drop 4).length) 0) :
    setData32High (partMsg f 4) x = msgOf f := by
  have hlength := length_data_le f
  have hfour : (f.data.take 4).length = 4 := by
    rw [List.length_take]
    omega
  have hpad : 4 - (f.data.drop 4).length = 8 - f.data.length := by
    rw [List.length_drop]
    omega
  refine CanbusMsg.ext rfl rfl ?_
  change (f.data.take 4 ++ List.replicate _ 0).take 4 ++ bswap32Bytes x =
    f.data ++ List.replicate (8 - f.data.length) 0
  rw [List.take_left' hfour, h, hpad, ← List.append_assoc, List.take_append_drop]

section

variable {cd : State}
  (hforeign : own = false → cd.txState = .queued → (oldest cd).msg.id ≠ (msgOf f).id)

include hforeign

theorem Parsed.updateData0 (h : Parsed f own calls₀ cd .data0) :
    Awaits f own calls₀ cd.unstuf.stuffedBits
      (dataStateUpdateData0 cd (ofMsb 32 (fieldBits f .data0))) (nextState f .data0) := by
  have hcoming := h.coming (.inr rfl) hforeign
  obtain ⟨hdata, hmsg, hcrc⟩ := h.written
  have hlength := length_data_of_ne_nil hdata
  have hpos := List.length_pos_iff.mpr hdata
  have hdlc : cd.parseMsg.dlc.toNat = (msgOf f).dlc.toNat := by rw [hmsg]; rfl
  obtain ⟨n, hn⟩ : ∃ n, (msgOf f).dlc.toNat = n := ⟨_, rfl⟩
  rw [hn] at hlength hdlc
  have htake : (f.data.take 4).length = min n 4 := by
    rw [List.length_take, hlength]
    omega
  obtain ⟨hcrc', hbytes⟩ := dataField_eq htake (by omega) cd.parseCrc
  have hsum : (crcBytes cd.parseCrc (ofMsb 32 (dataBits (f.data.take 4))) n).setWidth 15 =
      canCrc (f.header ++ dataBits (f.data.take 4)) := by
    rw [hcrc', hcrc, canCrc, canCrc, feed_append]
  have hmsg' := setData32Low_partMsg hbytes
  rw [← hmsg] at hmsg'
  have hparsed : Coming f own calls₀ { cd with
      parseCrc := crcBytes cd.parseCrc (ofMsb 32 (dataBits (f.data.take 4))) n
      parseMsg := setData32Low cd.parseMsg
        (ofMsb 32 (dataBits (f.data.take 4)) <<< (32 - if 4 ≤ n then 32 else n * 8)) } :=
    ⟨hcoming.countStuff_eq, hcoming.rxStall_eq, hcoming.idle, hcoming.calls_eq, hcoming.echo,
      hcoming.foreign⟩
  have hfield : fieldBits f .data0 = dataBits (f.data.take 4) := rfl
  rw [dataStateUpdateData0, hfield, hdlc]
  by_cases hmore : 4 < n
  · have hmore' : 4 < f.data.length := by omega
    have hnext : nextState f .data0 = .data1 := if_pos hmore'
    have hcount : (if 8 ≤ n then 32 else (n - 4) * 8) = (fieldBits f .data1).length := by
      rw [fieldBits, length_dataBits, List.length_drop, hlength]
      split_ifs <;> omega
    rw [if_pos hmore, hnext]
    exact hparsed.goNext rfl hcount ⟨hmore', hmsg', hsum⟩
  · have hless : ¬4 < f.data.length := by omega
    have hnext : nextState f .data0 = .crc := if_neg hless
    have hall : f.data.take 4 = f.data := List.take_of_length_le (by omega)
    rw [if_neg hmore, hnext]
    refine hparsed.goCrc (hmsg'.trans (partMsg_eq (by omega))) (hsum.trans ?_)
    rw [hall]
    rfl

theorem Parsed.updateData1 (h : Parsed f own calls₀ cd .data1) :
    Awaits f own calls₀ cd.unstuf.stuffedBits
      (dataStateUpdateData1 cd (ofMsb 32 (fieldBits f .data1))) .crc := by
  have hcoming := h.coming (.inr rfl) hforeign
  obtain ⟨hmore, hmsg, hcrc⟩ := h.written
  have hdata : f.data ≠ [] := by
    rintro hnil
    rw [hnil] at hmore
    exact absurd hmore (Nat.not_lt_zero 4)
  have hlength := length_data_of_ne_nil hdata
  have hdlc : cd.parseMsg.dlc.toNat = (msgOf f).dlc.toNat := by rw [hmsg]; rfl
  obtain ⟨n, hn⟩ : ∃ n, (msgOf f).dlc.toNat = n := ⟨_, rfl⟩
  rw [hn] at hlength hdlc
  have hdrop : (f.data.drop 4).length = min (n - 4) 4 := by
    rw [List.length_drop, hlength]
    omega
  obtain ⟨hcrc', hbytes⟩ := dataField_eq hdrop (by omega) cd.parseCrc
  have hsum : (crcBytes cd.parseCrc (ofMsb 32 (dataBits (f.data.drop 4))) (n - 4)).setWidth 15 =
      canCrc f.bits := by
    rw [hcrc', hcrc, canCrc, canCrc, ← feed_append, List.append_assoc, dataBits_take_drop]
    rfl
  have hbits : (if 8 ≤ n then 32 else (n - 4) * 8) = if 4 ≤ n - 4 then 32 else (n - 4) * 8 :=
    if_congr (by omega) rfl rfl
  have hmsg' := setData32High_partMsg hmore hbytes
  rw [← hmsg, ← hbits] at hmsg'
  have hparsed : Coming f own calls₀ { cd with
      parseCrc := crcBytes cd.parseCrc (ofMsb 32 (dataBits (f.data.drop 4))) (n - 4)
      parseMsg := setData32High cd.parseMsg
        (ofMsb 32 (dataBits (f.data.drop 4)) <<< (32 - if 8 ≤ n then 32 else (n - 4) * 8)) } :=
    ⟨hcoming.countStuff_eq, hcoming.rxStall_eq, hcoming.idle, hcoming.calls_eq, hcoming.echo,
      hcoming.foreign⟩
  have hfield : fieldBits f .data1 = dataBits (f.data.drop 4) := rfl
  rw [dataStateUpdateData1, hfield, hdlc]
  exact hparsed.goCrc hmsg' hsum

end

/-! ### The end of a frame -/

theorem ofMsb_crcField (f : BusFrame) :
    ofMsb 32 (crcField f) = ((canCrc f.bits).setWidth 32 <<< 1) ||| 1#32 := by
  have hcrc : ofMsb 32 (msbBits (canCrc f.bits) 15) = (canCrc f.bits).setWidth 32 := by
    refine BitVec.eq_of_getLsbD_eq fun i hi => ?_
    rw [getLsbD_ofMsb_msbBits, BitVec.getLsbD_setWidth]
    by_cases hlow : i < 15
    · simp [hi, hlow]
    · rw [BitVec.getLsbD_of_ge _ i (Nat.le_of_not_lt hlow), Bool.and_false, Bool.and_false]
  have happend := ofMsb_append (msbBits (canCrc f.bits) 15) [true]
  rw [crcField, ← happend, hcrc]
  rfl

theorem unstufClearState_eq {bu : Unstuf} (hzero : bu.countStuff = 0) :
    unstufClearState bu = { bu with stuffedBits := 2#32 } := by
  have hempty : bu.stuffedBits &&& ((1#32 <<< 0) - 1#32) = 0#32 := BitVec.and_zero
  rw [unstufClearState, hzero, hempty]
  rfl

section

variable {cd : State}

theorem Parsed.updateCrc (h : Parsed f own calls₀ cd .crc) :
    Awaits f own calls₀ 2#32 (dataStateUpdateCrc cd (ofMsb 32 (fieldBits f .crc))) .ack := by
  obtain ⟨hmsg, hcrc⟩ := h.written
  have hright : ¬(cd.parseCrc <<< 1) ||| 1#32 ≠ ofMsb 32 (fieldBits f .crc) := by
    rw [hcrc]
    exact not_not.mpr (ofMsb_crcField f).symm
  rw [dataStateUpdateCrc, if_neg hright, reportNoteCrcSuccess]
  split_ifs
  all_goals exact awaits_dataStateGoNext (congrArg Unstuf.stuffedBits
    (unstufClearState_eq h.countStuff_eq)) h.countStuff_eq h.rxStall_eq rfl hmsg h.reported

theorem Parsed.updateAck (h : Parsed f own calls₀ cd .ack) :
    Awaits f own calls₀ cd.unstuf.stuffedBits (dataStateUpdateAck cd (ofMsb 32 (fieldBits f .ack)))
      .eof0 := by
  have hright : ¬ofMsb 32 (fieldBits f .ack) ≠ 0x01 := not_not.mpr rfl
  have hidle : needAck own ≠ .idle := by cases own <;> simp [needAck]
  rw [dataStateUpdateAck, if_neg hright, reportNoteAckSuccess]
  rcases h.reported with ⟨hdue, hcalls⟩ | ⟨hdue, hcalls⟩
  · rw [if_neg (hdue ▸ hidle)]
    exact awaits_dataStateGoNext rfl h.countStuff_eq h.rxStall_eq rfl h.written
      (.inl ⟨congrArg ReportState.setEofFlag hdue, hcalls⟩)
  · rw [if_pos hdue]
    exact awaits_dataStateGoNext rfl h.countStuff_eq h.rxStall_eq rfl h.written
      (.inr ⟨hdue, hcalls⟩)

theorem Parsed.updateEof0 (h : Parsed f own calls₀ cd .eof0) :
    Awaits f own calls₀ 2#32 (dataStateUpdateEof0 cd (ofMsb 32 (fieldBits f .eof0))) .eof1 := by
  have hright : ¬(ofMsb 32 (fieldBits f .eof0) ≠ 0x0f ∨ cd.pio.rxStall = true) := by
    rw [h.rxStall_eq]
    exact not_or.mpr ⟨not_not.mpr rfl, Bool.false_ne_true⟩
  rw [dataStateUpdateEof0, if_neg hright]
  exact awaits_dataStateGoNext (congrArg Unstuf.stuffedBits (unstufClearState_eq h.countStuff_eq))
    h.countStuff_eq h.rxStall_eq rfl h.written h.reported

/-- **The frame has come**, and has been reported. -/
theorem Parsed.updateEof1 (h : Parsed f own calls₀ cd .eof1) (g : BusFrame) :
    Awaits g false (calls₀ ++ [report f own]) cd.unstuf.stuffedBits
      (dataStateUpdateEof1 cd (ofMsb 32 (fieldBits f .eof1))) .start := by
  have hright : ofMsb 32 (fieldBits f .eof1) = 0x1f := rfl
  have hone : 1 = (fieldBits g .start).length := by
    have hlength := le_length_headerBits g
    rw [fieldBits, List.length_take]
    omega
  have hmsg : cd.parseMsg = msgOf f := h.written
  rw [dataStateUpdateEof1, if_pos hright, reportNoteEofSuccess]
  rcases h.reported with ⟨hdue, hcalls⟩ | ⟨hdue, hcalls⟩
  · cases own with
    | true =>
        have hstate : cd.reportState = .needTxEof := hdue
        rw [if_neg (by rw [hstate]; simp), reportHandleEof_tx hstate]
        refine awaits_dataStateGoNext rfl h.countStuff_eq h.rxStall_eq hone trivial
          ⟨rfl, ?_, fun hown => absurd hown Bool.false_ne_true⟩
        change cd.calls ++ [Notify.tx cd.parseMsg] = _
        rw [hcalls, hmsg]
        rfl
    | false =>
        have hstate : cd.reportState = .needRxEof := hdue
        rw [if_neg (by rw [hstate]; simp), reportHandleEof_rx hstate]
        refine awaits_dataStateGoNext rfl h.countStuff_eq h.rxStall_eq hone trivial
          ⟨rfl, ?_, fun hown => absurd hown Bool.false_ne_true⟩
        change cd.calls ++ [Notify.rx cd.parseMsg] = _
        rw [hcalls, hmsg]
        rfl
  · rw [if_pos hdue]
    exact awaits_dataStateGoNext rfl h.countStuff_eq h.rxStall_eq hone trivial
      ⟨hdue, hcalls, fun hown => absurd hown Bool.false_ne_true⟩

/-- **From one field to the next.** -/
theorem Parsed.update {state : ParseState} (h : Parsed f own calls₀ cd state)
    (hend : state ≠ .eof1)
    (hforeign : own = false → cd.txState = .queued → (oldest cd).msg.id ≠ (msgOf f).id) :
    Awaits f own calls₀ (if clearsBehind state then 2#32 else cd.unstuf.stuffedBits)
      (dataStateUpdate cd (ofMsb 32 (fieldBits f state))) (nextState f state) := by
  rw [dataStateUpdate, h.parseState_eq]
  cases state with
  | start => exact h.updateStart hforeign
  | header => exact h.updateHeader hforeign
  | extHeader => exact h.updateExtHeader hforeign
  | data0 => exact h.updateData0 hforeign
  | data1 => exact h.updateData1 hforeign
  | crc => exact h.updateCrc
  | ack => exact h.updateAck
  | eof0 => exact h.updateEof0
  | eof1 => exact absurd rfl hend
  | discard => exact h.written.elim

end

end Terraboot.Can2040
