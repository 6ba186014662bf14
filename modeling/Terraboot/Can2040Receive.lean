import Terraboot.Can2040Parse

/-!
# Frames on the Line

A frame that comes over the line is reported once, as received or as sent, whatever interrupts are
handled on the way and wherever the groups of bits begin and end. This module follows the frame bit by
bit: every bit leads on in the frame, and no interrupt leads out of it.

## Main results

* `Reading.bitStep`: from one bit to the next.
* `Parsed.lineEvent`, `Parsed.senderStep`: whatever happens in between.
-/

open BitStuffing MsbBits

namespace Terraboot.Can2040

variable {f : BusFrame} {own : Bool} {calls₀ : List Notify} {cd : State} {state : ParseState}
  {h field : List Bool}

/-- Some bits of a field are still to come, on a line with the past `h`. -/
structure Reading (f : BusFrame) (own : Bool) (calls₀ : List Notify) (cd : State)
    (state : ParseState) (h field : List Bool) : Prop extends Parsed f own calls₀ cd state where
  past : SameRun 5 h (bitsAbove cd.unstuf.stuffedBits 0 5)
  field_ne : field ≠ []
  countUnstuff_eq : cd.unstuf.countUnstuff = field.length
  value : cd.unstuf.unstuffedBits ||| ofMsb 32 field = ofMsb 32 (fieldBits f state)
  ending : state = .eof1 → ∃ k ≤ 5, h = List.replicate k true ++ [false] ∧
    field = List.replicate (5 - k) true

/-- No field is empty. -/
theorem Parsed.fieldBits_ne (h : Parsed f own calls₀ cd state) : fieldBits f state ≠ [] := by
  have hheader := le_length_headerBits f
  have hne (bits : List Bool) (hpos : 0 < bits.length) : bits ≠ [] := List.length_pos_iff.mp hpos
  have hwritten := h.written
  cases state with
  | start => exact hne _ (by rw [fieldBits, List.length_take]; omega)
  | header => exact hne _ (by rw [fieldBits, List.length_take, List.length_drop]; omega)
  | extHeader =>
      obtain ⟨⟨id, hid⟩, -⟩ := hwritten
      have hlength : (headerBits f).length = 38 := by rw [length_headerBits, hid]
      exact hne _ (by rw [fieldBits, List.length_drop]; omega)
  | data0 =>
      have hpos := List.length_pos_iff.mpr hwritten.1
      exact hne _ (by rw [fieldBits, length_dataBits, List.length_take]; omega)
  | data1 =>
      have hmore : 4 < f.data.length := hwritten.1
      exact hne _ (by rw [fieldBits, length_dataBits, List.length_drop]; omega)
  | crc => exact hne _ (by rw [fieldBits, crcField, List.length_append, length_msbBits]; omega)
  | ack | eof0 | eof1 => exact List.cons_ne_nil _ _
  | discard => exact hwritten.elim

/-- The first bit of a field is next. -/
theorem Awaits.reading {word : Word} (ha : Awaits f own calls₀ word cd state)
    (hpast : SameRun 5 h (bitsAbove word 0 5)) (hend : state = .eof1 → h = [false]) :
    Reading f own calls₀ cd state h (fieldBits f state) := by
  refine ⟨ha.toParsed, ?_, ha.toParsed.fieldBits_ne, ?_, ?_, fun hstate => ⟨0, by omega, hend hstate, ?_⟩⟩
  · rw [ha.unstuf_eq]
    exact hpast
  · rw [ha.unstuf_eq]
  · rw [ha.unstuf_eq]
    exact BitVec.zero_or
  · rw [hstate]
    rfl

/-- The unstuffer has just begun anew. -/
theorem sameRun_clear : SameRun 5 [false] (bitsAbove 2#32 0 5) := ⟨rfl, rfl⟩

/-- The end of a frame is too short for a bit to be added. -/
theorem runLength_ending {k : ℕ} (hk : k < 5) : runLength (List.replicate k true ++ [false]) < 5 := by
  obtain rfl | rfl | rfl | rfl | rfl : k = 0 ∨ k = 1 ∨ k = 2 ∨ k = 3 ∨ k = 4 := by omega
  all_goals decide

theorem eq_eof0_of_nextState {f : BusFrame} {state : ParseState} (h : nextState f state = .eof1) :
    state = .eof0 := by
  have hheader : stateBehindHeader f ≠ .eof1 := by
    rw [stateBehindHeader]
    split_ifs <;> simp
  cases state with
  | eof0 => rfl
  | header =>
      rw [nextState] at h
      cases hid : f.id with
      | base id =>
          rw [hid] at h
          exact absurd h hheader
      | extended id =>
          rw [hid] at h
          cases h
  | extHeader => exact absurd h hheader
  | data0 =>
      rw [nextState] at h
      split_ifs at h
  | _ => cases h

/-- A bit has been taken in, and nothing else has changed. -/
theorem Parsed.shift (hp : Parsed f own calls₀ cd state) (b : Bool) (value : Word) (more : ℕ) :
    Parsed f own calls₀ (cd.shift b value more) state :=
  ⟨hp.parseState_eq, rfl, hp.rxStall_eq, hp.written, hp.reported⟩

theorem leftBits_cons (f : BusFrame) (state : ParseState) (h : List Bool) (c : Bool)
    (field : List Bool) :
    leftBits f state h (c :: field) =
      stuffBit 5 h ++ c :: leftBits f state (c :: (stuffBit 5 h ++ h)) field := by
  rw [leftBits, leftBits, List.cons_append, stuff, List.append_assoc]
  rfl

/-- **From one bit of a frame to the next**; behind the last one the frame has been reported, and any
other one may begin. -/
theorem Reading.bitStep (hr : Reading f own calls₀ cd state h field)
    (hforeign : own = false → cd.txState = .queued → (oldest cd).msg.id ≠ (msgOf f).id) {b : Bool}
    {l : List Bool} (hl : leftBits f state h field = b :: l) :
    Calm cd b ∧
      ((∃ state' h' field', Reading f own calls₀ (bitStep cd b) state' h' field' ∧
          leftBits f state' h' field' = l) ∨
        l = [] ∧ ∀ g, Reading g false (calls₀ ++ [report f own]) (bitStep cd b) .start recessivePast
          (fieldBits g .start)) := by
  obtain ⟨c, field, rfl⟩ := List.exists_cons_of_ne_nil hr.field_ne
  rw [leftBits_cons] at hl
  by_cases hfull : 5 ≤ runLength h
  · -- a bit that was added
    obtain ⟨x, t, rfl⟩ : ∃ x t, h = x :: t := by
      cases h with
      | nil => exact absurd hfull (show ¬5 ≤ 0 by omega)
      | cons x t => exact ⟨x, t, rfl⟩
    rw [stuffBit_of_le hfull, List.singleton_append, List.cons.injEq] at hl
    obtain ⟨rfl, rfl⟩ := hl
    obtain ⟨hcalm, hstep⟩ := bitStep_added hr.past hfull hr.rxStall_eq
    have hshort : stuffBit 5 ((!x) :: x :: t) = [] := by
      refine stuffBit_of_lt ?_
      rw [runLength_cons_not]
      omega
    refine ⟨hcalm, .inl ⟨state, (!x) :: x :: t, c :: field, ?_, ?_⟩⟩
    · rw [hstep]
      refine ⟨hr.toParsed.shift _ _ _, sameRun_pend hr.past _, hr.field_ne, hr.countUnstuff_eq,
        hr.value, fun hstate => ?_⟩
      obtain ⟨k, -, hpast, hfield⟩ := hr.ending hstate
      have hk : k < 5 := by
        have hlength := congrArg List.length hfield
        rw [List.length_cons, List.length_replicate] at hlength
        omega
      rw [hpast] at hfull
      exact absurd hfull (Nat.not_le.mpr (runLength_ending hk))
    · rw [leftBits_cons, hshort]
      rfl
  · -- a bit of the field
    have hlt : runLength h < 5 := Nat.lt_of_not_le hfull
    rw [stuffBit_of_lt hlt, List.nil_append, List.nil_append, List.cons.injEq] at hl
    obtain ⟨rfl, rfl⟩ := hl
    obtain ⟨hcalm, hstep⟩ := bitStep_taken hlt hr.past hr.rxStall_eq c
    refine ⟨hcalm, ?_⟩
    have hcount : cd.unstuf.countUnstuff - 1 = field.length := by
      rw [hr.countUnstuff_eq]
      rfl
    rw [hcount] at hstep
    have hvalue : (cd.unstuf.unstuffedBits ||| (BitVec.ofBool c).setWidth 32 <<< field.length) |||
        ofMsb 32 field = ofMsb 32 (fieldBits f state) := by
      rw [BitVec.or_assoc]
      exact hr.value
    obtain ⟨v, hv⟩ : ∃ v, cd.unstuf.unstuffedBits |||
        (BitVec.ofBool c).setWidth 32 <<< field.length = v := ⟨_, rfl⟩
    rw [hv] at hstep hvalue
    have hpast : SameRun 5 (c :: h) (bitsAbove (cd.shift c v field.length).unstuf.stuffedBits 0 5) :=
      sameRun_pend hr.past c
    have hparsed := hr.toParsed.shift c v field.length
    have hending : state = .eof1 → ∃ k ≤ 5, c :: h = List.replicate k true ++ [false] ∧
        field = List.replicate (5 - k) true := by
      intro hstate
      obtain ⟨k, hk, rfl, hfield⟩ := hr.ending hstate
      obtain ⟨m, hm⟩ : ∃ m, 5 - k = m + 1 := by
        have hlength := congrArg List.length hfield
        rw [List.length_cons, List.length_replicate] at hlength
        exact ⟨field.length, hlength.symm⟩
      rw [hm, List.replicate_succ, List.cons.injEq] at hfield
      have hrest : m = 5 - (k + 1) := by omega
      exact ⟨k + 1, by omega, by rw [hfield.1]; rfl, hrest ▸ hfield.2⟩
    cases field with
    | cons d field =>
        rw [if_neg (by simp)] at hstep
        refine .inl ⟨state, c :: h, d :: field, ?_, rfl⟩
        rw [hstep]
        exact ⟨hparsed, hpast, List.cons_ne_nil _ _, rfl, hvalue, hending⟩
    | nil =>
        -- the field is complete
        have hpull : bitStep cd c = afterPull .pulled (cd.shift c v 0) := hstep
        have hparsed : Parsed f own calls₀ (cd.shift c v 0) state := hparsed
        rw [ofMsb, BitVec.or_zero] at hvalue
        have hupdate : bitStep cd c =
            dataStateUpdate (cd.shift c v 0) (ofMsb 32 (fieldBits f state)) := by
          rw [hpull, ← hvalue]
          rfl
        rw [hupdate]
        by_cases hend : state = .eof1
        · subst hend
          obtain ⟨k, hk, hpast', hnil⟩ := hending rfl
          have hk5 : k = 5 := by
            have hlength := congrArg List.length hnil
            rw [List.length_nil, List.length_replicate] at hlength
            omega
          have hlong : SameRun 5 recessivePast (c :: h) := by
            rw [hpast', hk5]
            exact ⟨rfl, rfl⟩
          have hupdateEof : dataStateUpdate (cd.shift c v 0) (ofMsb 32 (fieldBits f .eof1)) =
              dataStateUpdateEof1 (cd.shift c v 0) (ofMsb 32 (fieldBits f .eof1)) := by
            rw [dataStateUpdate, hparsed.parseState_eq]
          refine .inr ⟨rfl, fun g => ?_⟩
          rw [hupdateEof]
          refine (hparsed.updateEof1 g).reading ?_ fun hstate => ?_
          · exact ⟨hlong.1.trans hpast.1, hlong.2.trans hpast.2⟩
          · cases hstate
        · have hnext := hparsed.update hend hforeign
          have hdiscard : state ≠ .discard := by
            rintro rfl
            exact hr.written
          refine .inl ⟨nextState f state, pastBehind state (c :: h), fieldBits f (nextState f state), ?_,
            (leftBits_nil f hend hdiscard (c :: h)).symm⟩
          refine hnext.reading ?_ ?_
          · rw [pastBehind]
            split_ifs
            · exact sameRun_clear
            · exact hpast
          · intro hstate
            rw [pastBehind, eq_eof0_of_nextState hstate]
            rfl

/-! ### What happens in between -/

section

variable (window : List SenderStep) (cd : State)

/-- **What an interrupt can do to a report**: nothing, or make it. -/
theorem lineEvent_report (maytx matched ackdone : Bool) :
    let cd' := Can2040.lineEvent maytx matched ackdone (window.foldl senderStep ·) cd
    (cd'.reportState = cd.reportState ∧ cd'.calls = cd.calls) ∨
      (cd.reportState ≠ .idle ∧ cd'.reportState = .idle ∧
        ∃ due, (due = cd.reportState.setEofFlag ∨ maytx = true ∧ due = cd.reportState) ∧
          cd'.calls = (reportHandleEof { cd with reportState := due }).calls) := by
  have hschedule (cd : State) := txScheduleTransmit_receiver window cd
  have hsame (cd₁ : State) (hreport : cd₁.reportState = cd.reportState)
      (hcalls : cd₁.calls = cd.calls) :
      (txScheduleTransmit (window.foldl senderStep ·) cd₁).1.reportState = cd.reportState ∧
        (txScheduleTransmit (window.foldl senderStep ·) cd₁).1.calls = cd.calls :=
    ⟨(congrArg Receiver.reportState (hschedule cd₁)).trans hreport,
      (congrArg Receiver.calls (hschedule cd₁)).trans hcalls⟩
  have hmade (due : ReportState) :
      (txScheduleTransmit (window.foldl senderStep ·)
        (reportHandleEof { cd with reportState := due })).1.reportState = .idle ∧
      (txScheduleTransmit (window.foldl senderStep ·)
        (reportHandleEof { cd with reportState := due })).1.calls =
          (reportHandleEof { cd with reportState := due }).calls :=
    ⟨(congrArg Receiver.reportState (hschedule _)).trans rfl,
      congrArg Receiver.calls (hschedule _)⟩
  rw [lineEvent]
  dsimp only
  split_ifs with hack hmatched hmaytx htx
  · exact .inl (hsame (pioMatchCheck cd _) rfl rfl)
  · rw [reportLineMatched]
    split_ifs with hdue
    · obtain ⟨hidle, hcalls⟩ := hmade cd.reportState.setEofFlag
      exact .inr ⟨hdue, hidle, _, .inl rfl, hcalls⟩
    · exact .inl (hsame cd rfl rfl)
  · rw [reportLineMaytx]
    split_ifs with hdue
    · obtain ⟨hidle, hcalls⟩ := hmade cd.reportState
      exact .inr ⟨hdue, hidle, _, .inr ⟨(Bool.and_eq_true_iff.mp hmaytx).1, rfl⟩, hcalls⟩
    · exact .inl (hsame cd rfl rfl)
  · rw [reportLineTxpending]
    dsimp only
    split_ifs
    · exact .inl ⟨rfl, rfl⟩
    · exact .inl (hsame cd rfl rfl)
  · exact .inl ⟨rfl, rfl⟩

end

/-- The report that is made. -/
theorem reportHandleEof_calls (own : Bool) (cd : State) :
    (reportHandleEof { cd with reportState := (needAck own).setEofFlag }).calls =
      cd.calls ++ [if own then .tx cd.parseMsg else .rx cd.parseMsg] := by
  cases own with
  | true => rw [reportHandleEof_tx rfl]; rfl
  | false => rw [reportHandleEof_rx rfl]; rfl

theorem Echo.txScheduleTransmit (he : Echo f cd) (hsend : SendInv cd) (window : List SenderStep) :
    Echo f (txScheduleTransmit (window.foldl Can2040.senderStep ·) cd).1 := by
  rw [Can2040.txScheduleTransmit]
  dsimp only
  split_ifs with hqueued hnone
  · exact he
  · exact absurd hnone (hsend.sent he.1).1
  · exact absurd hnone (hsend.sent he.1).1
  · exact ⟨rfl, he.2⟩

/-- No interrupt changes what the state machine has been told to send. -/
theorem Echo.lineEvent (he : Echo f cd) (hsend : SendInv cd) (hidle : cd.reportState = .idle)
    (window : List SenderStep) (maytx matched ackdone : Bool) :
    Echo f (lineEvent maytx matched ackdone (window.foldl Can2040.senderStep ·) cd) := by
  have hnone : ¬cd.reportState ≠ .idle := not_not.mpr hidle
  have hinject : ¬(cd.pio.inte0 = { maytx := true, txpending := true, rxData := true } ∧
      cd.reportState = .needRxAck) := by
    rw [hidle]
    simp
  have hmatch (key : Word) : SendInv (pioMatchCheck cd key) :=
    hsend.congr rfl rfl rfl rfl rfl rfl id (fun _ => .inl rfl) id
  rw [Can2040.lineEvent]
  split_ifs
  · rw [reportLineAckdone]
    obtain ⟨key, hkey⟩ : ∃ key, pioMatchCalcKey ((cd.parseCrcBits <<< 8) ||| 0x7f#32)
        (cd.parseCrcPos + 8) = key := ⟨_, rfl⟩
    have he' : Echo f (pioMatchCheck cd key) := he
    rw [hkey]
    exact he'.txScheduleTransmit (hmatch key) window
  · rw [reportLineMatched, if_neg hnone]
    exact he.txScheduleTransmit hsend window
  · rw [reportLineMaytx, if_neg hnone]
    exact he.txScheduleTransmit hsend window
  · rw [reportLineTxpending]
    dsimp only
    rw [if_neg hinject]
    exact he.txScheduleTransmit hsend window
  · exact he

/-- The message is complete behind the data. -/
theorem Parsed.parseMsg_eq (hp : Parsed f own calls₀ cd state) (hstate : state.afterData = true) :
    cd.parseMsg = msgOf f := by
  have hwritten := hp.written
  cases state with
  | crc => exact hwritten.1
  | ack | eof0 | eof1 => exact hwritten
  | _ => cases hstate

/-- **No interrupt leads out of the frame**, if the line is not taken for idle before the frame has
been acknowledged. -/
theorem Parsed.lineEvent (hp : Parsed f own calls₀ cd state) (hsend : SendInv cd)
    (window : List SenderStep) {maytx matched ackdone : Bool}
    (hmaytx : maytx = true → state ≠ .crc ∧ state ≠ .ack) :
    Parsed f own calls₀
      (lineEvent maytx matched ackdone (window.foldl Can2040.senderStep ·) cd) state := by
  have hparser := lineEvent_parser_eq window cd maytx matched ackdone
  have hreport := lineEvent_report window cd maytx matched ackdone
  have hecho (he : Echo f cd) (hidle : cd.reportState = .idle) :=
    he.lineEvent hsend hidle window maytx matched ackdone
  obtain ⟨cd', hcd'⟩ : ∃ cd',
      Can2040.lineEvent maytx matched ackdone (window.foldl Can2040.senderStep ·) cd = cd' := ⟨_, rfl⟩
  rw [hcd'] at hparser hreport hecho ⊢
  have hmsg : cd'.parseMsg = cd.parseMsg := congrArg Parser.parseMsg hparser
  have hcrc : cd'.parseCrc = cd.parseCrc := congrArg Parser.parseCrc hparser
  have hunstuf : cd'.unstuf = cd.unstuf := congrArg Parser.unstuf hparser
  refine ⟨(congrArg Parser.parseState hparser).trans hp.parseState_eq, hunstuf ▸ hp.countStuff_eq,
    (congrArg Parser.rxStall hparser).trans hp.rxStall_eq, ?_, ?_⟩
  · rw [hmsg, hcrc]
    exact hp.written
  · have hquiet (hall : cd.reportState = .idle) :
        cd'.reportState = .idle ∧ cd'.calls = cd.calls := by
      rcases hreport with ⟨hdue, hcalls⟩ | ⟨hdue, -⟩
      · exact ⟨hdue.trans hall, hcalls⟩
      · exact absurd hall hdue
    have hcalled {due : ReportState} (hdue : due = (needAck own).setEofFlag)
        (hwritten : cd.parseMsg = msgOf f) (hcalls : cd.calls = calls₀) :
        (reportHandleEof { cd with reportState := due }).calls = calls₀ ++ [report f own] := by
      rw [hdue, reportHandleEof_calls, hwritten, hcalls]
      rfl
    have hflag : ReportState.setEofFlag (needAck own).setEofFlag = (needAck own).setEofFlag := by
      cases own <;> rfl
    have hafter (hwritten : cd.parseMsg = msgOf f) (hearly : maytx = true → cd.reportState =
          (needAck own).setEofFlag)
        (hdue : cd.reportState = needAck own ∨ cd.reportState = (needAck own).setEofFlag)
        (hcalls : cd.calls = calls₀) :
        cd'.reportState = cd.reportState ∧ cd'.calls = calls₀ ∨
          cd'.reportState = .idle ∧ cd'.calls = calls₀ ++ [report f own] := by
      rcases hreport with ⟨hsame, hcalls'⟩ | ⟨-, hidle, due, hmade, hcalls'⟩
      · exact .inl ⟨hsame, hcalls'.trans hcalls⟩
      · refine .inr ⟨hidle, hcalls'.trans (hcalled ?_ hwritten hcalls)⟩
        rcases hmade with hmade | ⟨hon, hmade⟩
        · rcases hdue with hdue | hdue
          · rw [hmade, hdue]
          · rw [hmade, hdue, hflag]
        · rw [hmade, hearly hon]
    have hreported := hp.reported
    cases state with
    | start | header | extHeader | data0 | data1 =>
        obtain ⟨hidle, hcalls, hown⟩ := hreported
        obtain ⟨hidle', hcalls'⟩ := hquiet hidle
        exact ⟨hidle', hcalls'.trans hcalls, fun htrue => hecho (hown htrue) hidle⟩
    | crc | ack =>
        rcases hreported with ⟨hdue, hcalls⟩ | ⟨hidle, hcalls⟩
        · have hearly (hon : maytx = true) : cd.reportState = (needAck own).setEofFlag := by
            have hne := hmaytx hon
            simp at hne
          have hall := hafter (hp.parseMsg_eq rfl) hearly (.inl hdue) hcalls
          exact hall.imp_left fun hkept => ⟨hkept.1.trans hdue, hkept.2⟩
        · obtain ⟨hidle', hcalls'⟩ := hquiet hidle
          exact .inr ⟨hidle', hcalls'.trans hcalls⟩
    | eof0 | eof1 =>
        rcases hreported with ⟨hdue, hcalls⟩ | ⟨hidle, hcalls⟩
        · have hall := hafter (hp.parseMsg_eq rfl) (fun _ => hdue) (.inr hdue) hcalls
          exact hall.imp_left fun hkept => ⟨hkept.1.trans hdue, hkept.2⟩
        · obtain ⟨hidle', hcalls'⟩ := hquiet hidle
          exact .inr ⟨hidle', hcalls'.trans hcalls⟩
    | discard => exact hp.written.elim

/-- **Nor does the caller.** -/
theorem Parsed.senderStep (hp : Parsed f own calls₀ cd state) (hsend : SendInv cd) (s : SenderStep) :
    Parsed f own calls₀ (senderStep cd s) state := by
  have hframe := senderStep_receiver cd s
  have hparser := congrArg Receiver.parser hframe
  have hmsg : (Can2040.senderStep cd s).parseMsg = cd.parseMsg := congrArg Parser.parseMsg hparser
  have hcrc : (Can2040.senderStep cd s).parseCrc = cd.parseCrc := congrArg Parser.parseCrc hparser
  have hunstuf : (Can2040.senderStep cd s).unstuf = cd.unstuf := congrArg Parser.unstuf hparser
  have hdue : (Can2040.senderStep cd s).reportState = cd.reportState :=
    congrArg Receiver.reportState hframe
  have hcalls : (Can2040.senderStep cd s).calls = cd.calls := congrArg Receiver.calls hframe
  have hecho (he : Echo f cd) : Echo f (Can2040.senderStep cd s) := by
    obtain ⟨log, lo, hi, hq⟩ := hsend.queue
    obtain ⟨-, holdest⟩ := hq.oldest_senderStep (hsend.sent he.1).1 s
    exact ⟨(senderStep_txState cd s).trans he.1, by rw [holdest]; exact he.2⟩
  refine ⟨(congrArg Parser.parseState hparser).trans hp.parseState_eq, hunstuf ▸ hp.countStuff_eq,
    (congrArg Parser.rxStall hparser).trans hp.rxStall_eq, ?_, ?_⟩
  · rw [hmsg, hcrc]
    exact hp.written
  · rw [hdue, hcalls]
    have hreported := hp.reported
    cases state with
    | start | header | extHeader | data0 | data1 =>
        exact ⟨hreported.1, hreported.2.1, fun hown => hecho (hreported.2.2 hown)⟩
    | crc | ack | eof0 | eof1 => exact hreported
    | discard => exact hp.written.elim

/-- Only the bits on the line lead on in a frame. -/
theorem Reading.congr {cd' : State} (hr : Reading f own calls₀ cd state h field)
    (hp : Parsed f own calls₀ cd' state) (hunstuf : cd'.unstuf = cd.unstuf) :
    Reading f own calls₀ cd' state h field :=
  ⟨hp, hunstuf ▸ hr.past, hr.field_ne, hunstuf ▸ hr.countUnstuff_eq, hunstuf ▸ hr.value, hr.ending⟩

end Terraboot.Can2040
