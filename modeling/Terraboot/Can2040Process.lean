import Terraboot.Can2040Serial

/-!
# Any Words at All

`process_rx` loops until the unstuffer wants more bits, whatever the parser has made of the fields in
between. Every turn takes at least one of the bits that wait, and nothing puts new ones there, so the
loop ends for any word and in any state. What a maintainer wants to know about all words is then
shown for one field, or one error, at a time.

## Main results

* `pullSerial_countStuff_lt`: every turn takes a bit.
* `processRx_rule`: `process_rx` ends, and keeps what every turn of it keeps.
-/

open MsbBits

namespace Terraboot.Can2040

/-! ### Every turn takes a bit -/

/-- **Every turn takes a bit**, and the last one takes all. -/
theorem pullSerial_countStuff_lt (sb : Word) {cs : ℕ} {bu : Unstuf} (h : bu.countStuff = cs) :
    if (pullSerial sb cs bu).1 = .needMore then (pullSerial sb cs bu).2.countStuff = 0
    else (pullSerial sb cs bu).2.countStuff < cs := by
  induction cs generalizing bu with
  | zero => exact h
  | succ cs ih =>
      have hrest (bu : Unstuf) (hbu : bu.countStuff = cs) :
          if (pullSerial sb cs bu).1 = .needMore then (pullSerial sb cs bu).2.countStuff = 0
          else (pullSerial sb cs bu).2.countStuff < cs + 1 := by
        have hnext := ih hbu
        split_ifs at hnext ⊢
        · exact hnext
        · exact Nat.lt_succ_of_lt hnext
      rw [pullSerial]
      dsimp only
      by_cases hstuff : (fiveEqual sb).getLsbD (cs + 1) = true
      · rw [if_pos hstuff]
        by_cases hsix : (fiveEqual sb).getLsbD cs = true
        · rw [if_pos hsix]
          cases sb.getLsbD cs <;> exact Nat.lt_succ_self cs
        · rw [if_neg hsix]
          exact hrest _ rfl
      · rw [if_neg hstuff]
        by_cases hfull : bu.countUnstuff - 1 = 0
        · rw [if_pos hfull]
          exact Nat.lt_succ_self cs
        · rw [if_neg hfull]
          exact hrest _ rfl

/-- A field that is not complete stays so. -/
theorem pullSerial_countUnstuff (sb : Word) {cs : ℕ} {bu : Unstuf} (h : 0 < bu.countUnstuff)
    (hmore : (pullSerial sb cs bu).1 = .needMore) : 0 < (pullSerial sb cs bu).2.countUnstuff := by
  induction cs generalizing bu with
  | zero => exact h
  | succ cs ih =>
      rw [pullSerial] at hmore ⊢
      dsimp only at hmore ⊢
      split_ifs at hmore ⊢
      · exact ih h hmore
      · exact ih (Nat.pos_of_ne_zero ‹_›) hmore

/-! ### Nothing puts bits there -/

section

variable (cd : State)

theorem dataStateGoDiscard_countStuff_le :
    (dataStateGoDiscard cd).unstuf.countStuff ≤ cd.unstuf.countStuff := by
  rw [dataStateGoDiscard, reportNoteDiscarding]
  split_ifs
  · exact Nat.zero_le _
  · exact Nat.zero_le _
  · exact le_rfl
  · exact le_rfl

theorem dataStateGoError_countStuff_le :
    (dataStateGoError cd).unstuf.countStuff ≤ cd.unstuf.countStuff :=
  dataStateGoDiscard_countStuff_le _

theorem txCheckLocalMessage_unstuf : (txCheckLocalMessage cd).1.unstuf = cd.unstuf := by
  rw [txCheckLocalMessage]
  dsimp only
  split_ifs <;> rfl

theorem reportNoteCrcStart_unstuf : (reportNoteCrcStart cd).1.unstuf = cd.unstuf := by
  rw [reportNoteCrcStart, ← txCheckLocalMessage_unstuf cd]
  rcases txCheckLocalMessage cd with ⟨cd', _ | _ | _⟩ <;> rfl

theorem dataStateGoCrc_countStuff_le :
    (dataStateGoCrc cd).unstuf.countStuff ≤ cd.unstuf.countStuff := by
  have hunstuf := reportNoteCrcStart_unstuf (dataStateExpectCrc cd)
  rw [dataStateGoCrc]
  rcases h : reportNoteCrcStart (dataStateExpectCrc cd) with ⟨cd', _ | _⟩
  all_goals
    rw [h] at hunstuf
    have hcount : cd'.unstuf.countStuff = cd.unstuf.countStuff := congrArg Unstuf.countStuff hunstuf
  · exact hcount.le
  · exact (dataStateGoError_countStuff_le cd').trans hcount.le

theorem dataStateGoData_countStuff_le (id data : Word) :
    (dataStateGoData cd id data).unstuf.countStuff ≤ cd.unstuf.countStuff := by
  rw [dataStateGoData]
  dsimp only
  split_ifs
  · exact dataStateGoDiscard_countStuff_le cd
  all_goals first
    | exact le_rfl
    | exact dataStateGoCrc_countStuff_le _

theorem reportHandleEof_unstuf : (reportHandleEof cd).unstuf = cd.unstuf := by
  obtain ⟨_, _, _, _, heof⟩ := reportHandleEof_eq cd
  rw [heof]

theorem reportNoteEofSuccess_unstuf : (reportNoteEofSuccess cd).unstuf = cd.unstuf := by
  rw [reportNoteEofSuccess]
  split_ifs
  · rfl
  · exact reportHandleEof_unstuf cd

/-- **No bits are added while a field is parsed.** -/
theorem dataStateUpdate_countStuff_le (data : Word) :
    (dataStateUpdate cd data).unstuf.countStuff ≤ cd.unstuf.countStuff := by
  rw [dataStateUpdate]
  cases cd.parseState with
  | start => exact le_rfl
  | header =>
      dsimp only
      rw [dataStateUpdateHeader]
      dsimp only
      split_ifs
      · exact le_rfl
      · exact dataStateGoData_countStuff_le _ _ _
  | extHeader => exact dataStateGoData_countStuff_le _ _ _
  | data0 =>
      dsimp only
      rw [dataStateUpdateData0]
      by_cases hmore : 4 < cd.parseMsg.dlc.toNat
      · rw [if_pos hmore]
        exact le_rfl
      · rw [if_neg hmore]
        exact dataStateGoCrc_countStuff_le _
  | data1 => exact dataStateGoCrc_countStuff_le _
  | crc =>
      dsimp only
      rw [dataStateUpdateCrc, reportNoteCrcSuccess]
      split_ifs
      · exact dataStateGoError_countStuff_le _
      · exact le_rfl
      · exact le_rfl
  | ack =>
      dsimp only
      rw [dataStateUpdateAck, reportNoteAckSuccess]
      split_ifs
      · exact dataStateGoError_countStuff_le _
      · exact le_rfl
      · exact le_rfl
  | eof0 =>
      dsimp only
      rw [dataStateUpdateEof0]
      split_ifs
      · exact dataStateGoError_countStuff_le _
      · exact le_rfl
  | eof1 =>
      have heof := congrArg Unstuf.countStuff (reportNoteEofSuccess_unstuf cd)
      dsimp only
      rw [dataStateUpdateEof1]
      split_ifs
      · exact heof.le
      · exact (dataStateGoDiscard_countStuff_le _).trans heof.le
      · exact dataStateGoError_countStuff_le _
  | discard => exact dataStateGoDiscard_countStuff_le cd

theorem dataStateLinePassive_countStuff_le :
    (dataStateLinePassive cd).unstuf.countStuff ≤ cd.unstuf.countStuff := by
  rw [dataStateLinePassive]
  dsimp only
  split_ifs
  · exact dataStateGoError_countStuff_le cd
  · exact (dataStateGoDiscard_countStuff_le _).trans (Nat.zero_le _)
  · exact le_rfl
  · exact dataStateGoDiscard_countStuff_le cd

theorem dataStateLineError_countStuff_le :
    (dataStateLineError cd).unstuf.countStuff ≤ cd.unstuf.countStuff := by
  rw [dataStateLineError]
  split_ifs
  · exact dataStateGoDiscard_countStuff_le cd
  · exact dataStateGoError_countStuff_le cd

end

theorem afterPull_countStuff_le (ret : Pull) (cd : State) :
    (afterPull ret cd).unstuf.countStuff ≤ cd.unstuf.countStuff := by
  cases ret with
  | needMore => exact le_rfl
  | pulled => exact dataStateUpdate_countStuff_le cd _
  | sixHigh => exact dataStateLinePassive_countStuff_le cd
  | sixLow => exact dataStateLineError_countStuff_le cd

theorem afterPull_countUnstuff {ret : Pull} {cd : State}
    (h : ret = .needMore → 0 < cd.unstuf.countUnstuff) :
    0 < (afterPull ret cd).unstuf.countUnstuff := by
  cases ret with
  | needMore => exact h rfl
  | pulled => exact dataStateUpdate_countUnstuff cd _
  | sixHigh => exact dataStateLinePassive_countUnstuff cd
  | sixLow => exact dataStateLineError_countUnstuff cd

/-! ### The caller's part of the queue -/

/-- What only `can2040_transmit` changes. -/
structure Caller where
  txPushPos : Word
  txQueue : Fin 4 → Transmit
  sender : Sender
  accepted : List CanbusMsg

/-- The caller's part of a state. -/
def State.caller (cd : State) : Caller where
  txPushPos := cd.txPushPos
  txQueue := cd.txQueue
  sender := cd.sender
  accepted := cd.accepted

section

variable (cd : State)

theorem dataStateGoDiscard_caller : (dataStateGoDiscard cd).caller = cd.caller := by
  rw [dataStateGoDiscard, reportNoteDiscarding]
  split_ifs <;> rfl

theorem dataStateGoError_caller : (dataStateGoError cd).caller = cd.caller :=
  dataStateGoDiscard_caller _

theorem txCheckLocalMessage_caller : (txCheckLocalMessage cd).1.caller = cd.caller := by
  rw [txCheckLocalMessage]
  dsimp only
  split_ifs <;> rfl

theorem reportNoteCrcStart_caller : (reportNoteCrcStart cd).1.caller = cd.caller := by
  rw [reportNoteCrcStart, ← txCheckLocalMessage_caller cd]
  rcases txCheckLocalMessage cd with ⟨cd', _ | _ | _⟩ <;> rfl

theorem dataStateGoCrc_caller : (dataStateGoCrc cd).caller = cd.caller := by
  have hstart := reportNoteCrcStart_caller (dataStateExpectCrc cd)
  rw [dataStateGoCrc]
  rcases h : reportNoteCrcStart (dataStateExpectCrc cd) with ⟨cd', _ | _⟩
  all_goals rw [h] at hstart
  · exact hstart
  · exact (dataStateGoError_caller cd').trans hstart

theorem dataStateGoData_caller (id data : Word) :
    (dataStateGoData cd id data).caller = cd.caller := by
  rw [dataStateGoData]
  dsimp only
  split_ifs
  · exact dataStateGoDiscard_caller cd
  all_goals first
    | rfl
    | exact dataStateGoCrc_caller _

theorem reportHandleEof_caller : (reportHandleEof cd).caller = cd.caller := by
  obtain ⟨_, _, _, _, heof⟩ := reportHandleEof_eq cd
  rw [heof]
  rfl

theorem reportNoteEofSuccess_caller : (reportNoteEofSuccess cd).caller = cd.caller := by
  rw [reportNoteEofSuccess]
  split_ifs
  · rfl
  · exact reportHandleEof_caller cd

/-- **The parser leaves the caller alone.** -/
theorem dataStateUpdate_caller (data : Word) : (dataStateUpdate cd data).caller = cd.caller := by
  rw [dataStateUpdate]
  cases cd.parseState with
  | start => rfl
  | header =>
      dsimp only
      rw [dataStateUpdateHeader]
      dsimp only
      split_ifs
      · rfl
      · exact dataStateGoData_caller _ _ _
  | extHeader => exact dataStateGoData_caller _ _ _
  | data0 =>
      dsimp only
      rw [dataStateUpdateData0]
      by_cases hmore : 4 < cd.parseMsg.dlc.toNat
      · rw [if_pos hmore]
        rfl
      · rw [if_neg hmore]
        exact dataStateGoCrc_caller _
  | data1 => exact dataStateGoCrc_caller _
  | crc =>
      dsimp only
      rw [dataStateUpdateCrc, reportNoteCrcSuccess]
      split_ifs
      · exact dataStateGoError_caller _
      · rfl
      · rfl
  | ack =>
      dsimp only
      rw [dataStateUpdateAck, reportNoteAckSuccess]
      split_ifs
      · exact dataStateGoError_caller _
      · rfl
      · rfl
  | eof0 =>
      dsimp only
      rw [dataStateUpdateEof0]
      split_ifs
      · exact dataStateGoError_caller _
      · rfl
  | eof1 =>
      have heof := reportNoteEofSuccess_caller cd
      dsimp only
      rw [dataStateUpdateEof1]
      split_ifs
      · exact heof
      · exact (dataStateGoDiscard_caller _).trans heof
      · exact dataStateGoError_caller _
  | discard => exact dataStateGoDiscard_caller cd

theorem dataStateLinePassive_caller : (dataStateLinePassive cd).caller = cd.caller := by
  rw [dataStateLinePassive]
  dsimp only
  split_ifs
  · exact dataStateGoError_caller cd
  · exact dataStateGoDiscard_caller _
  · rfl
  · exact dataStateGoDiscard_caller cd

theorem dataStateLineError_caller : (dataStateLineError cd).caller = cd.caller := by
  rw [dataStateLineError]
  split_ifs
  · exact dataStateGoDiscard_caller cd
  · exact dataStateGoError_caller cd

end

/-! ### The loop -/

/-- A property of the state that the bits and their count have no part in, and that the parser
keeps. -/
structure KeptByParser (P : State → Prop) : Prop where
  unstuf : ∀ cd (unstuf : Unstuf) (n : Word), P cd → P { cd with unstuf, rawBitCount := n }
  update : ∀ cd data, P cd → P (dataStateUpdate cd data)
  linePassive : ∀ cd, P cd → P (dataStateLinePassive cd)
  lineError : ∀ cd, P cd → P (dataStateLineError cd)

theorem KeptByParser.afterPull {P : State → Prop} (h : KeptByParser P) (ret : Pull) {cd : State}
    (hcd : P cd) : P (afterPull ret cd) := by
  cases ret with
  | needMore => exact hcd
  | pulled => exact h.update cd _ hcd
  | sixHigh => exact h.linePassive cd hcd
  | sixLow => exact h.lineError cd hcd

theorem keptByParser_caller (c : Caller) : KeptByParser (fun cd => cd.caller = c) where
  unstuf _ _ _ h := h
  update cd data h := (dataStateUpdate_caller cd data).trans h
  linePassive cd h := (dataStateLinePassive_caller cd).trans h
  lineError cd h := (dataStateLineError_caller cd).trans h

/-- One bit at a time. -/
theorem KeptByParser.bitStep {P : State → Prop} (h : KeptByParser P) {cd : State} (hcd : P cd)
    (b : Bool) : P (bitStep cd b) := by
  rw [bitStep_eq]
  exact h.afterPull _ (h.unstuf cd _ _ hcd)

theorem processRxLoop_succ {fuel : ℕ} {cd : State} (hcs : cd.unstuf.countStuff < 31)
    (hcu : 0 < cd.unstuf.countUnstuff) :
    processRxLoop (fuel + 1) cd =
      let r := pullSerial cd.unstuf.stuffedBits cd.unstuf.countStuff cd.unstuf
      if r.1 = .needMore then some { cd with unstuf := r.2 }
      else processRxLoop fuel (afterPull r.1 { cd with unstuf := r.2 }) := by
  rw [processRxLoop, unstufPullBits_eq hcs hcu]
  rcases pullSerial cd.unstuf.stuffedBits cd.unstuf.countStuff cd.unstuf with ⟨_ | _ | _ | _, bu⟩ <;>
    rfl

theorem processRxLoop_rule {P : State → Prop} (h : KeptByParser P) {fuel : ℕ} {cd : State}
    (hfuel : cd.unstuf.countStuff < fuel) (hcs : cd.unstuf.countStuff < 31)
    (hcu : 0 < cd.unstuf.countUnstuff) (hcd : P cd) :
    ∃ cd', processRxLoop fuel cd = some cd' ∧ Tidy cd' ∧ P cd' := by
  induction fuel generalizing cd with
  | zero => exact absurd hfuel (Nat.not_lt_zero _)
  | succ fuel ih =>
      have hless := @pullSerial_countStuff_lt cd.unstuf.stuffedBits _ cd.unstuf rfl
      have hopen := @pullSerial_countUnstuff cd.unstuf.stuffedBits cd.unstuf.countStuff _ hcu
      rw [processRxLoop_succ hcs hcu]
      obtain ⟨r, hr⟩ : ∃ r,
          pullSerial cd.unstuf.stuffedBits cd.unstuf.countStuff cd.unstuf = r := ⟨_, rfl⟩
      rw [hr] at hless hopen ⊢
      dsimp only
      have hnext : P { cd with unstuf := r.2 } := h.unstuf cd r.2 cd.rawBitCount hcd
      by_cases hmore : r.1 = .needMore
      · rw [if_pos hmore] at hless ⊢
        exact ⟨_, rfl, ⟨hless, hopen hmore⟩, hnext⟩
      · have hle : (afterPull r.1 { cd with unstuf := r.2 }).unstuf.countStuff ≤ r.2.countStuff :=
          afterPull_countStuff_le r.1 { cd with unstuf := r.2 }
        rw [if_neg hmore] at hless ⊢
        exact ih (by omega) (by omega) (afterPull_countUnstuff fun hret => absurd hret hmore)
          (h.afterPull r.1 hnext)

/-- **`process_rx` ends**, and keeps what the parser keeps. -/
theorem processRx_rule {P : State → Prop} (h : KeptByParser P) {cd : State} (htidy : Tidy cd)
    {n : ℕ} (hn : n < 31) (rxData : Word) (hcd : P cd) :
    ∃ cd', processRx n cd rxData = some cd' ∧ Tidy cd' ∧ P cd' :=
  processRxLoop_rule h (Nat.lt_succ_self n) hn htidy.countUnstuff_pos
    (h.unstuf cd (unstufAddBits cd.unstuf rxData n) (cd.rawBitCount + BitVec.ofNat 32 n) hcd)

end Terraboot.Can2040
