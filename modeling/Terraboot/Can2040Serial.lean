import Terraboot.Can2040

/-!
# Ten Bits at a Time

The receiver takes ten bits at once, tries as many of them as the field still lacks, and hands a
field to the parser while later bits are already waiting. This module shows that all this is the
same as taking one bit at a time: where the groups begin and end does not matter.

There are two exceptions, both of them in the source: after an overflow of the receive queue the
waiting bits are dropped, and a line that is recessive for 32 bits is noticed only between the
groups. The "sync" state machine hands over ten recessive bits at most.

## Main results

* `unstufPullBits_eq`: trying many bits at once ends as one at a time would.
* `dataStateUpdate_pend`, `dataStateLinePassive_pend`, `dataStateLineError_pend`: what the parser
  does with a field or an error does not depend on the bits that wait.
* `processRx_eq_foldl`: a group of bits is taken in as its bits one after the other.
-/

open BitStuffing MsbBits

namespace Terraboot.Can2040

/-! ### One place at a time -/

/-- `unstuf_pull_bits` with one bit at a time. -/
def pullSerial (sb : Word) : ℕ → Unstuf → Pull × Unstuf
  | 0, bu => (.needMore, bu)
  | cs + 1, bu =>
      if (fiveEqual sb).getLsbD (cs + 1) then
        if (fiveEqual sb).getLsbD cs then
          (if sb.getLsbD cs then .sixHigh else .sixLow, { bu with countStuff := cs })
        else pullSerial sb cs { bu with countStuff := cs }
      else
        let cu := bu.countUnstuff - 1
        let bu := { bu with
          countStuff := cs
          countUnstuff := cu
          unstuffedBits := bu.unstuffedBits ||| (((sb >>> cs) &&& 1#32) <<< cu) }
        if cu = 0 then (.pulled, bu) else pullSerial sb cs bu

/-- Bits of a word that are copied to a place of another one. -/
def copyBits (sb : Word) (cs t cu : ℕ) : Word := ((sb >>> cs) &&& ((1#32 <<< t) - 1)) <<< cu

theorem getLsbD_copyBits (sb : Word) (cs : ℕ) {t : ℕ} (ht : t < 32) (cu : ℕ) {i : ℕ} (hi : i < 32) :
    (copyBits sb cs t cu).getLsbD i =
      (decide (cu ≤ i ∧ i < cu + t) && sb.getLsbD (cs + (i - cu))) := by
  have hmask : ((1#32 <<< t) - 1).getLsbD (i - cu) = decide (i - cu < t) := getLsbD_lowMask ht _
  rw [copyBits, BitVec.getLsbD_shiftLeft, BitVec.getLsbD_and, BitVec.getLsbD_ushiftRight, hmask,
    decide_eq_true hi, Bool.true_and]
  by_cases hlow : i < cu
  · have hout : ¬(cu ≤ i ∧ i < cu + t) := by omega
    rw [decide_eq_true hlow, decide_eq_false hout]
    rfl
  · have hiff : i - cu < t ↔ cu ≤ i ∧ i < cu + t := by omega
    rw [decide_eq_false hlow, decide_eq_decide.mpr hiff, Bool.and_comm (sb.getLsbD _)]
    rfl

/-- One bit more. -/
theorem copyBits_succ (sb : Word) (cs : ℕ) {t : ℕ} (ht : t + 1 < 32) (cu : ℕ) :
    copyBits sb (cs + t) 1 (cu + t) ||| copyBits sb cs t cu = copyBits sb cs (t + 1) cu := by
  refine BitVec.eq_of_getLsbD_eq fun i hi => ?_
  rw [BitVec.getLsbD_or, getLsbD_copyBits sb _ (by omega) _ hi, getLsbD_copyBits sb _ (by omega) _ hi,
    getLsbD_copyBits sb _ ht _ hi]
  by_cases htop : i = cu + t
  · subst htop
    simp
  · have hout : ¬(cu + t ≤ i ∧ i < cu + t + 1) := by omega
    have hiff : (cu ≤ i ∧ i < cu + t) ↔ cu ≤ i ∧ i < cu + (t + 1) := by omega
    rw [decide_eq_false hout, decide_eq_decide.mpr hiff, Bool.false_and, Bool.false_or]

/-- **Bits among which none was added** are taken at once. -/
theorem pullSerial_skip (sb : Word) {t cs cu : ℕ} {bu : Unstuf} (ht : t + 1 < 32)
    (hcs : bu.countStuff = cs + (t + 1)) (hcu : bu.countUnstuff = cu + (t + 1))
    (hnone : ∀ i < t + 1, (fiveEqual sb).getLsbD (cs + 1 + i) = false) :
    pullSerial sb bu.countStuff bu =
      let bu' := { bu with
        countUnstuff := cu
        countStuff := cs
        unstuffedBits := bu.unstuffedBits ||| copyBits sb cs (t + 1) cu }
      if cu = 0 then (.pulled, bu') else pullSerial sb cs bu' := by
  induction t generalizing bu with
  | zero =>
      have hfirst : ¬(fiveEqual sb).getLsbD (cs + 1) = true := by
        rw [← Nat.add_zero (cs + 1), hnone 0 (by omega)]
        exact Bool.false_ne_true
      rw [hcs, pullSerial, if_neg hfirst, hcu]
      rfl
  | succ t ih =>
      have hfirst : ¬(fiveEqual sb).getLsbD (cs + (t + 1) + 1) = true := by
        have hclear := hnone (t + 1) (by omega)
        rw [Nat.add_right_comm cs 1] at hclear
        rw [hclear]
        exact Bool.false_ne_true
      have hmore : ¬cu + (t + 1) = 0 := by omega
      have hsub : cu + (t + 1 + 1) - 1 = cu + (t + 1) := by omega
      have hrest := @ih { bu with
        countStuff := cs + (t + 1)
        countUnstuff := cu + (t + 1)
        unstuffedBits := bu.unstuffedBits ||| copyBits sb (cs + (t + 1)) 1 (cu + (t + 1)) }
        (by omega) rfl rfl fun i hi => hnone i (by omega)
      have hsucc : cs + (t + 1 + 1) = cs + (t + 1) + 1 := rfl
      rw [hcs, hsucc, pullSerial, if_neg hfirst, hcu, hsub, if_neg hmore]
      refine Eq.trans ?_ (hrest.trans ?_)
      · rfl
      · rw [← copyBits_succ sb cs ht cu, BitVec.or_assoc]

/-- **However many bits are tried**, the end is that of one at a time. -/
theorem unstufPullLoop_eq (sb : Word) {fuel : ℕ} {bu : Unstuf} {t : ℕ}
    (hfuel : bu.countStuff < fuel) (hcs : bu.countStuff < 31) (hpos : 0 < t)
    (htcs : t ≤ bu.countStuff) (htcu : t ≤ bu.countUnstuff) :
    unstufPullLoop sb (fiveEqual sb) fuel bu t = some (pullSerial sb bu.countStuff bu) := by
  induction fuel generalizing bu t with
  | zero => exact absurd hfuel (Nat.not_lt_zero _)
  | succ fuel ih =>
      obtain ⟨t, rfl⟩ : ∃ t', t = t' + 1 := ⟨t - 1, by omega⟩
      obtain ⟨cs, hcs'⟩ : ∃ cs, bu.countStuff = cs + (t + 1) := ⟨bu.countStuff - (t + 1), by omega⟩
      obtain ⟨cu, hcu'⟩ : ∃ cu, bu.countUnstuff = cu + (t + 1) :=
        ⟨bu.countUnstuff - (t + 1), by omega⟩
      have hplace : bu.countStuff + 1 - (t + 1) = cs + 1 := by omega
      have hsub : bu.countStuff - (t + 1) = cs := by omega
      have hsub' : bu.countUnstuff - (t + 1) = cu := by omega
      have hmask : fiveEqual sb &&& (((1#32 <<< (t + 1)) - 1) <<< (cs + 1)) = 0 ↔
          ∀ i < t + 1, (fiveEqual sb).getLsbD (cs + 1 + i) = false := and_mask_eq_zero_iff (by omega)
      rw [unstufPullLoop]
      dsimp only
      rw [hplace, hsub, hsub']
      by_cases hnone : fiveEqual sb &&& (((1#32 <<< (t + 1)) - 1) <<< (cs + 1)) = 0
      · -- no added bits among those tried
        rw [if_pos hnone, pullSerial_skip sb (by omega) hcs' hcu' (hmask.mp hnone)]
        by_cases hfull : cu = 0
        · rw [if_pos hfull]
          dsimp only
          rw [if_pos hfull]
          rfl
        · rw [if_neg hfull]
          dsimp only
          rw [if_neg hfull]
          by_cases hempty : cs = 0
          · rw [if_pos hempty, hempty, pullSerial]
            rfl
          · rw [if_neg hempty]
            exact ih (by dsimp only; omega) (by dsimp only; omega) (by omega) (by dsimp only; omega)
              (by dsimp only; omega)
      · obtain ⟨n, hn⟩ : ∃ n, n = cs + t := ⟨_, rfl⟩
        have hpred : bu.countStuff - 1 = n := by omega
        have hsucc : bu.countStuff = n + 1 := by omega
        have hbit (i : ℕ) (hi : i < 32) : fiveEqual sb &&& (1#32 <<< i) ≠ 0 ↔
            (fiveEqual sb).getLsbD i = true := and_bit_ne_zero_iff hi
        have hvalue : sb &&& (1#32 <<< n) ≠ 0 ↔ sb.getLsbD n = true :=
          and_bit_ne_zero_iff (by omega)
        rw [if_neg hnone, hpred, hsucc, pullSerial]
        by_cases hstuff : fiveEqual sb &&& (1#32 <<< (n + 1)) ≠ 0
        · rw [if_pos hstuff, if_pos ((hbit (n + 1) (by omega)).mp hstuff)]
          by_cases hsix : fiveEqual sb &&& (1#32 <<< n) ≠ 0
          · rw [if_pos hsix, if_pos ((hbit n (by omega)).mp hsix), if_congr hvalue rfl rfl]
          · rw [if_neg hsix, if_neg fun h => hsix ((hbit n (by omega)).mpr h)]
            by_cases hempty : n = 0
            · rw [if_pos hempty, hempty, pullSerial]
            · rw [if_neg hempty]
              exact ih (by dsimp only; omega) (by dsimp only; omega) (by omega)
                (by dsimp only; omega) (by dsimp only; omega)
        · -- the highest bit is accepted, and fewer are tried
          have hclear : ¬(fiveEqual sb).getLsbD (n + 1) = true := fun h =>
            hstuff ((hbit (n + 1) (by omega)).mpr h)
          have hmany : t ≠ 0 := by
            rintro rfl
            refine hnone (hmask.mpr fun i hi => ?_)
            obtain rfl : i = 0 := by omega
            have hplace' : cs + 1 + 0 = n + 1 := by omega
            rw [hplace']
            exact Bool.eq_false_iff.mpr hclear
          have hmore : ¬bu.countUnstuff - 1 = 0 := by omega
          rw [if_neg hstuff, if_neg hclear]
          dsimp only
          rw [if_neg hmore]
          exact ih (by dsimp only; omega) (by dsimp only; omega) (by omega) (by dsimp only; omega)
            (by dsimp only; omega)

/-- **`unstuf_pull_bits` takes the bits one by one.** -/
theorem unstufPullBits_eq {bu : Unstuf} (hcs : bu.countStuff < 31) (hcu : 0 < bu.countUnstuff) :
    unstufPullBits bu = some (pullSerial bu.stuffedBits bu.countStuff bu) := by
  rw [unstufPullBits]
  by_cases hzero : bu.countStuff = 0
  · rw [if_pos hzero, hzero, pullSerial]
  · rw [if_neg hzero]
    exact unstufPullLoop_eq _ (by omega) hcs (by omega) (by omega) (by omega)

/-! ### Bits that wait -/

/-- The unstuffer with bits that wait. -/
def Unstuf.pend (bu : Unstuf) (bits : List Bool) : Unstuf :=
  { bu with
    stuffedBits := (bu.stuffedBits <<< bits.length) ||| ofMsb 32 bits
    countStuff := bits.length }

/-- The receiver with bits that wait. -/
def State.pend (cd : State) (bits : List Bool) : State :=
  { cd with
    rawBitCount := cd.rawBitCount + BitVec.ofNat 32 bits.length
    unstuf := cd.unstuf.pend bits }

/-- The unstuffer takes in one bit. -/
def unstufBit (bu : Unstuf) (b : Bool) : Pull × Unstuf :=
  pullSerial (bu.pend [b]).stuffedBits 1 (bu.pend [b])

theorem pend_cons_stuffedBits (bu : Unstuf) (b : Bool) (bits : List Bool) :
    (bu.pend (b :: bits)).stuffedBits =
      ((bu.pend [b]).stuffedBits <<< bits.length) ||| ofMsb 32 bits :=
  shiftLeft_or_ofMsb_cons bu.stuffedBits b bits

/-- Above the bits that wait, a word is that without them. -/
theorem getLsbD_pend {w : Word} {bits : List Bool} {i : ℕ} (hi : bits.length + i < 32) :
    ((w <<< bits.length) ||| ofMsb 32 bits).getLsbD (bits.length + i) = w.getLsbD i := by
  have hlow : ¬bits.length + i < bits.length := by omega
  rw [BitVec.getLsbD_or, BitVec.getLsbD_shiftLeft, getLsbD_ofMsb_of_le (Nat.le_add_right _ _),
    Nat.add_sub_cancel_left, decide_eq_true hi, decide_eq_false hlow]
  simp

theorem fiveEqual_pend {w : Word} {bits : List Bool} {i : ℕ} (hi : bits.length + i + 4 < 32) :
    (fiveEqual ((w <<< bits.length) ||| ofMsb 32 bits)).getLsbD (bits.length + i) =
      (fiveEqual w).getLsbD i := by
  have hwindow : bitsAbove ((w <<< bits.length) ||| ofMsb 32 bits) (bits.length + i) 5 =
      bitsAbove w i 5 := by
    refine bitsAbove_congr fun j hj => ?_
    rw [Nat.add_assoc]
    exact getLsbD_pend (by omega)
  rw [getLsbD_fiveEqual _ (by omega), getLsbD_fiveEqual _ (by omega), hwindow]

theorem ushiftRight_and_one (w : Word) (i : ℕ) :
    (w >>> i) &&& 1#32 = (BitVec.ofBool (w.getLsbD i)).setWidth 32 := by
  rw [BitVec.and_one_eq_setWidth_ofBool_getLsbD, BitVec.getLsbD_ushiftRight, Nat.add_zero]

/-- The new bit is the lowest one. -/
theorem getLsbD_pend_singleton (bu : Unstuf) (b : Bool) :
    (bu.pend [b]).stuffedBits.getLsbD 0 = b := by
  have hword : (bu.pend [b]).stuffedBits = (bu.stuffedBits <<< 1) ||| ofMsb 32 [b] := rfl
  rw [hword, BitVec.getLsbD_or, getLsbD_ofMsb_cons]
  simp [ofMsb]

/-- The bits before the new one are those of before. -/
theorem fiveEqual_pend_singleton (bu : Unstuf) (b : Bool) :
    (fiveEqual (bu.pend [b]).stuffedBits).getLsbD 1 =
      decide (5 ≤ runLength (bitsAbove bu.stuffedBits 0 5)) := by
  have hfive := @fiveEqual_pend bu.stuffedBits [b] 0
    (show 1 + 0 + 4 < 32 by omega)
  exact hfive.trans (getLsbD_fiveEqual _ (by omega))

/-- **What becomes of a bit**: it is dropped, counts as an error, or belongs to the field. -/
theorem unstufBit_eq (bu : Unstuf) (b : Bool) :
    unstufBit bu b =
      let w := (bu.pend [b]).stuffedBits
      let bu' := { bu with stuffedBits := w, countStuff := 0 }
      if (fiveEqual w).getLsbD 1 then
        if (fiveEqual w).getLsbD 0 then (if b then .sixHigh else .sixLow, bu') else (.needMore, bu')
      else
        let cu := bu.countUnstuff - 1
        (if cu = 0 then .pulled else .needMore, { bu' with
          countUnstuff := cu
          unstuffedBits := bu.unstuffedBits ||| (BitVec.ofBool b).setWidth 32 <<< cu }) := by
  have hbit : ((bu.pend [b]).stuffedBits >>> 0) &&& 1#32 = (BitVec.ofBool b).setWidth 32 := by
    rw [ushiftRight_and_one, getLsbD_pend_singleton]
  have hcu : (bu.pend [b]).countUnstuff = bu.countUnstuff := rfl
  rw [unstufBit, pullSerial, hbit, getLsbD_pend_singleton, hcu]
  dsimp only
  split_ifs <;> rfl

/-- **The first of the bits that wait** is taken in as if it were alone. -/
theorem pullSerial_pend (bu : Unstuf) (b : Bool) {bits : List Bool} (hbits : bits.length ≤ 20) :
    pullSerial (bu.pend (b :: bits)).stuffedBits (bits.length + 1) (bu.pend (b :: bits)) =
      if (unstufBit bu b).1 = .needMore then
        pullSerial ((unstufBit bu b).2.pend bits).stuffedBits bits.length
          ((unstufBit bu b).2.pend bits)
      else ((unstufBit bu b).1, (unstufBit bu b).2.pend bits) := by
  have hword := pend_cons_stuffedBits bu b bits
  have hlsb := getLsbD_pend_singleton bu b
  obtain ⟨w, hw⟩ : ∃ w, (bu.pend [b]).stuffedBits = w := ⟨_, rfl⟩
  have hhigh : (fiveEqual ((w <<< bits.length) ||| ofMsb 32 bits)).getLsbD (bits.length + 1) =
      (fiveEqual w).getLsbD 1 := fiveEqual_pend (by omega)
  have hlow : (fiveEqual ((w <<< bits.length) ||| ofMsb 32 bits)).getLsbD bits.length =
      (fiveEqual w).getLsbD 0 := fiveEqual_pend (i := 0) (by omega)
  have hbit : ((w <<< bits.length) ||| ofMsb 32 bits).getLsbD bits.length = b :=
    (getLsbD_pend (i := 0) (by omega)).trans (hw ▸ hlsb)
  have hpend : bu.pend (b :: bits) = { bu with
      stuffedBits := (w <<< bits.length) ||| ofMsb 32 bits, countStuff := bits.length + 1 } := by
    rw [← hw, ← hword]
    rfl
  rw [unstufBit_eq, hw, hpend]
  dsimp only
  rw [pullSerial, hhigh, hlow, ushiftRight_and_one, hbit]
  dsimp only
  by_cases hstuff : (fiveEqual w).getLsbD 1 = true
  · rw [if_pos hstuff, if_pos hstuff]
    by_cases hsix : (fiveEqual w).getLsbD 0 = true
    · rw [if_pos hsix, if_pos hsix]
      cases b <;> rfl
    · rw [if_neg hsix, if_neg hsix, if_pos rfl]
      rfl
  · rw [if_neg hstuff, if_neg hstuff]
    by_cases hfull : bu.countUnstuff - 1 = 0
    · rw [if_pos hfull, if_pos hfull, if_neg (by simp)]
      rfl
    · rw [if_neg hfull, if_neg hfull, if_pos rfl]
      rfl

/-! ### The overflow of the receive queue -/

section

variable (cd : State)

theorem txCheckLocalMessage_pio : (txCheckLocalMessage cd).1.pio = cd.pio := by
  rw [txCheckLocalMessage]
  dsimp only
  split_ifs <;> rfl

theorem reportNoteCrcStart_rxStall :
    (reportNoteCrcStart cd).1.pio.rxStall = cd.pio.rxStall := by
  have hpio := txCheckLocalMessage_pio cd
  rw [reportNoteCrcStart, ← hpio]
  rcases txCheckLocalMessage cd with ⟨cd', _ | _ | _⟩ <;> rfl

theorem reportHandleEof_rxStall : (reportHandleEof cd).pio.rxStall = cd.pio.rxStall := by
  obtain ⟨_, _, _, _, heof⟩ := reportHandleEof_eq cd
  rw [heof]

theorem reportNoteEofSuccess_rxStall :
    (reportNoteEofSuccess cd).pio.rxStall = cd.pio.rxStall := by
  rw [reportNoteEofSuccess]
  split_ifs
  · rfl
  · exact reportHandleEof_rxStall cd

end

/-! ### The parser -/

section

variable (cd : State) (bits : List Bool)

theorem reportState_pend : (cd.pend bits).reportState = cd.reportState := rfl

theorem reportHandleEof_pend : reportHandleEof (cd.pend bits) = (reportHandleEof cd).pend bits := by
  cases h : cd.reportState with
  | needRxEof => rw [reportHandleEof_rx h, @reportHandleEof_rx (cd.pend bits) h]; rfl
  | needTxEof => rw [reportHandleEof_tx h, @reportHandleEof_tx (cd.pend bits) h]; rfl
  | _ =>
      have hflag : cd.reportState.hasEofFlag = false := by rw [h]; rfl
      rw [reportHandleEof_of_not hflag, @reportHandleEof_of_not (cd.pend bits) hflag]
      rfl

theorem reportNoteDiscarding_pend :
    reportNoteDiscarding (cd.pend bits) = (reportNoteDiscarding cd).pend bits := by
  rw [reportNoteDiscarding, reportNoteDiscarding, reportState_pend]
  split_ifs <;> rfl

theorem reportNoteCrcSuccess_pend :
    reportNoteCrcSuccess (cd.pend bits) = (reportNoteCrcSuccess cd).pend bits := by
  rw [reportNoteCrcSuccess, reportNoteCrcSuccess, reportState_pend]
  split_ifs <;> rfl

theorem reportNoteAckSuccess_pend :
    reportNoteAckSuccess (cd.pend bits) = (reportNoteAckSuccess cd).pend bits := by
  rw [reportNoteAckSuccess, reportNoteAckSuccess, reportState_pend]
  split_ifs <;> rfl

theorem reportNoteEofSuccess_pend :
    reportNoteEofSuccess (cd.pend bits) = (reportNoteEofSuccess cd).pend bits := by
  rw [reportNoteEofSuccess, reportNoteEofSuccess]
  rw [reportState_pend, reportHandleEof_pend]
  split_ifs <;> rfl

theorem txCheckLocalMessage_pend : txCheckLocalMessage (cd.pend bits) =
    ((txCheckLocalMessage cd).1.pend bits, (txCheckLocalMessage cd).2) := by
  have hstate : (cd.pend bits).txState = cd.txState := rfl
  have hqueue : (cd.pend bits).txQueue (txQpos (cd.pend bits).txPullPos) =
      cd.txQueue (txQpos cd.txPullPos) := rfl
  have hmsg : (cd.pend bits).parseMsg = cd.parseMsg := rfl
  have hcrc : (cd.pend bits).parseCrc = cd.parseCrc := rfl
  rw [txCheckLocalMessage, txCheckLocalMessage, hstate, hqueue, hmsg, hcrc]
  dsimp only
  split_ifs <;> rfl

theorem reportNoteCrcStart_pend : reportNoteCrcStart (cd.pend bits) =
    ((reportNoteCrcStart cd).1.pend bits, (reportNoteCrcStart cd).2) := by
  rw [reportNoteCrcStart, reportNoteCrcStart, txCheckLocalMessage_pend]
  rcases txCheckLocalMessage cd with ⟨cd', _ | _ | _⟩ <;> rfl

theorem dataStateGoNext_pend (state : ParseState) (numBits : ℕ) :
    dataStateGoNext (cd.pend bits) state numBits = (dataStateGoNext cd state numBits).pend bits := rfl

end

section

variable {cd : State} (hstall : cd.pio.rxStall = false) (bits : List Bool)

include hstall

theorem dataStateGoDiscard_pend :
    dataStateGoDiscard (cd.pend bits) = (dataStateGoDiscard cd).pend bits := by
  have hstall' : (cd.pend bits).pio.rxStall = false := hstall
  rw [dataStateGoDiscard, dataStateGoDiscard, hstall, hstall', if_neg Bool.false_ne_true,
    if_neg Bool.false_ne_true, dataStateGoNext_pend, reportNoteDiscarding_pend]

theorem dataStateGoError_pend :
    dataStateGoError (cd.pend bits) = (dataStateGoError cd).pend bits :=
  @dataStateGoDiscard_pend { cd with
    stats := { cd.stats with parseError := cd.stats.parseError + 1 } } hstall bits

/-- **Six dominant bits** end a frame in the same way, whatever waits. -/
theorem dataStateLineError_pend :
    dataStateLineError (cd.pend bits) = (dataStateLineError cd).pend bits := by
  have hstate : (cd.pend bits).parseState = cd.parseState := rfl
  rw [dataStateLineError, dataStateLineError, hstate, dataStateGoDiscard_pend hstall,
    dataStateGoError_pend hstall]
  split_ifs <;> rfl

theorem dataStateUpdateEof1_pend (data : Word) :
    dataStateUpdateEof1 (cd.pend bits) data = (dataStateUpdateEof1 cd data).pend bits := by
  have hstall' := (reportNoteEofSuccess_rxStall cd).trans hstall
  have hnotTx : reportIsNotInTx (cd.pend bits) = reportIsNotInTx cd := rfl
  rw [dataStateUpdateEof1, dataStateUpdateEof1, hnotTx, reportNoteEofSuccess_pend,
    dataStateGoDiscard_pend hstall', dataStateGoError_pend hstall]
  split_ifs <;> rfl

end

theorem stuffedBits_pend_and (bu : Unstuf) {bits : List Bool} (hbits : bits.length < 32) :
    (bu.pend bits).stuffedBits &&& ((1#32 <<< bits.length) - 1) = ofMsb 32 bits := by
  have hmask (i : ℕ) : ((1#32 <<< bits.length) - 1).getLsbD i = decide (i < bits.length) :=
    getLsbD_lowMask hbits i
  have hword : (bu.pend bits).stuffedBits = (bu.stuffedBits <<< bits.length) ||| ofMsb 32 bits := rfl
  refine BitVec.eq_of_getLsbD_eq fun i hi => ?_
  rw [hword, BitVec.getLsbD_and, BitVec.getLsbD_or, BitVec.getLsbD_shiftLeft, hmask]
  by_cases hlow : i < bits.length
  · simp [hlow]
  · rw [getLsbD_ofMsb_of_le (Nat.le_of_not_lt hlow)]
    simp [hlow]

/-- The bits that wait are kept when those before them are replaced. -/
theorem unstufRestoreState_pend {bu : Unstuf} (hzero : bu.countStuff = 0) (data : Word)
    {bits : List Bool} (hbits : bits.length < 32) :
    unstufRestoreState (bu.pend bits) data = (unstufRestoreState bu data).pend bits := by
  have hlow := stuffedBits_pend_and bu hbits
  have hcount : (bu.pend bits).countStuff = bits.length := rfl
  have hempty : bu.stuffedBits &&& ((1#32 <<< 0) - 1) = 0#32 := by
    rw [BitVec.shiftLeft_zero]
    exact BitVec.and_zero
  rw [unstufRestoreState, unstufRestoreState, hcount, hlow, hzero, hempty, BitVec.zero_or,
    BitVec.shiftLeft_zero, BitVec.or_comm]
  rfl

theorem unstufClearState_pend {bu : Unstuf} (hzero : bu.countStuff = 0)
    {bits : List Bool} (hbits : bits.length < 32) :
    unstufClearState (bu.pend bits) = (unstufClearState bu).pend bits := by
  have hlow : (bu.pend bits).stuffedBits &&& ((1#32 <<< bits.length) - 1#32) = ofMsb 32 bits :=
    stuffedBits_pend_and bu hbits
  have hcount : (bu.pend bits).countStuff = bits.length := rfl
  have hempty : bu.stuffedBits &&& ((1#32 <<< 0) - 1#32) = 0#32 := by
    rw [BitVec.shiftLeft_zero]
    exact BitVec.and_zero
  have hcomm : (1#32 <<< bits.length) <<< 1 = ((1#32 <<< 0) <<< 1) <<< bits.length := by
    rw [← BitVec.shiftLeft_add, ← BitVec.shiftLeft_add, ← BitVec.shiftLeft_add, Nat.add_comm]
    exact congrArg _ (by omega)
  rw [unstufClearState, unstufClearState, hcount, hlow, hzero, hempty, BitVec.zero_or, hcomm,
    BitVec.or_comm]
  rfl

/-- What was taken so far, without the bits that wait. -/
theorem unstufGetRaw_pend {bu : Unstuf} (hzero : bu.countStuff = 0) {bits : List Bool} {i : ℕ}
    (hi : bits.length + i < 32) :
    (unstufGetRaw (bu.pend bits)).getLsbD i = (unstufGetRaw bu).getLsbD i := by
  rw [unstufGetRaw, unstufGetRaw, BitVec.getLsbD_ushiftRight, BitVec.getLsbD_ushiftRight, hzero,
    Nat.zero_add]
  exact getLsbD_pend hi

section

variable {cd : State} (hzero : cd.unstuf.countStuff = 0) {bits : List Bool}
  (hbits : bits.length ≤ 10)

include hzero hbits

theorem dataStateExpectCrc_pend :
    dataStateExpectCrc (cd.pend bits) = (dataStateExpectCrc cd).pend bits := by
  have hpos : (cd.pend bits).rawBitCount - BitVec.ofNat 32 (cd.pend bits).unstuf.countStuff =
      cd.rawBitCount - BitVec.ofNat 32 cd.unstuf.countStuff := by
    have hcount : (cd.pend bits).rawBitCount - BitVec.ofNat 32 (cd.pend bits).unstuf.countStuff =
      cd.rawBitCount + BitVec.ofNat 32 bits.length - BitVec.ofNat 32 bits.length := rfl
    rw [hcount, hzero, BitVec.add_sub_cancel]
    simp
  have hraw : unstufGetRaw (cd.pend bits).unstuf <<< 15 = unstufGetRaw cd.unstuf <<< 15 := by
    refine BitVec.eq_of_getLsbD_eq fun i hi => ?_
    rw [BitVec.getLsbD_shiftLeft, BitVec.getLsbD_shiftLeft]
    by_cases hlow : i < 15
    · simp [hlow]
    · exact congrArg _ (unstufGetRaw_pend hzero (by omega))
  have hcrc (crc : Word) : crcRawBits (unstufGetRaw (cd.pend bits).unstuf) crc =
      crcRawBits (unstufGetRaw cd.unstuf) crc := by
    rw [crcRawBits, crcRawBits, hraw]
  have hparse : (cd.pend bits).parseCrc = cd.parseCrc := rfl
  rw [dataStateExpectCrc, dataStateExpectCrc]
  rw [hpos, hparse, hcrc]
  rfl

variable (hstall : cd.pio.rxStall = false)

include hstall

theorem dataStateGoCrc_pend : dataStateGoCrc (cd.pend bits) = (dataStateGoCrc cd).pend bits := by
  have hstall' : (reportNoteCrcStart (dataStateExpectCrc cd)).1.pio.rxStall = false :=
    (reportNoteCrcStart_rxStall _).trans hstall
  rw [dataStateGoCrc, dataStateGoCrc, dataStateExpectCrc_pend hzero hbits, reportNoteCrcStart_pend]
  rcases h : reportNoteCrcStart (dataStateExpectCrc cd) with ⟨cd', _ | _⟩
  · rfl
  · rw [h] at hstall'
    exact dataStateGoError_pend hstall' bits

theorem dataStateGoData_pend (id data : Word) :
    dataStateGoData (cd.pend bits) id data = (dataStateGoData cd id data).pend bits := by
  have hcrc := @dataStateGoCrc_pend { cd with parseMsg := headerMsg id data } hzero _ hbits
    hstall
  rw [dataStateGoData, dataStateGoData, dataStateGoDiscard_pend hstall]
  dsimp only
  split_ifs
  all_goals first
    | rfl
    | exact hcrc

theorem dataStateUpdateHeader_pend (data : Word) :
    dataStateUpdateHeader (cd.pend bits) data = (dataStateUpdateHeader cd data).pend bits := by
  have hmsg : (cd.pend bits).parseMsg = cd.parseMsg := rfl
  rw [dataStateUpdateHeader, dataStateUpdateHeader, hmsg]
  dsimp only
  split_ifs
  · rfl
  · exact @dataStateGoData_pend { cd with
      parseCrc := crcBytes 0 (data ||| (cd.parseMsg.id <<< 17)) 3 } hzero _ hbits hstall _ _

theorem dataStateUpdateExtHeader_pend (data : Word) :
    dataStateUpdateExtHeader (cd.pend bits) data = (dataStateUpdateExtHeader cd data).pend bits :=
  @dataStateGoData_pend { cd with
    parseCrc := crcBytes (crcBytes 0 (cd.parseMsg.id >>> 4) 2)
      (((cd.parseMsg.id &&& 0x0f) <<< 20) ||| data) 3 } hzero _ hbits hstall _ _

theorem dataStateUpdateData0_pend (data : Word) :
    dataStateUpdateData0 (cd.pend bits) data = (dataStateUpdateData0 cd data).pend bits := by
  have hmsg : (cd.pend bits).parseMsg = cd.parseMsg := rfl
  have hcrc := @dataStateGoCrc_pend { cd with
    parseCrc := crcBytes cd.parseCrc data cd.parseMsg.dlc.toNat
    parseMsg := setData32Low cd.parseMsg
      (data <<< (32 - if 4 ≤ cd.parseMsg.dlc.toNat then 32 else cd.parseMsg.dlc.toNat * 8)) }
    hzero _ hbits hstall
  rw [dataStateUpdateData0, dataStateUpdateData0, hmsg]
  by_cases hmore : 4 < cd.parseMsg.dlc.toNat
  · rw [if_pos hmore, if_pos hmore]
    rfl
  · rw [if_neg hmore, if_neg hmore]
    exact hcrc

theorem dataStateUpdateData1_pend (data : Word) :
    dataStateUpdateData1 (cd.pend bits) data = (dataStateUpdateData1 cd data).pend bits :=
  @dataStateGoCrc_pend { cd with
    parseCrc := crcBytes cd.parseCrc data (cd.parseMsg.dlc.toNat - 4)
    parseMsg := setData32High cd.parseMsg
      (data <<< (32 - if 8 ≤ cd.parseMsg.dlc.toNat then 32 else (cd.parseMsg.dlc.toNat - 4) * 8)) }
    hzero _ hbits hstall

theorem dataStateUpdateCrc_pend (data : Word) :
    dataStateUpdateCrc (cd.pend bits) data = (dataStateUpdateCrc cd data).pend bits := by
  have hparse : (cd.pend bits).parseCrc = cd.parseCrc := rfl
  have hunstuf : (reportNoteCrcSuccess cd).unstuf = cd.unstuf := by
    rw [reportNoteCrcSuccess]
    split_ifs <;> rfl
  have hlength : bits.length < 32 := by omega
  have hclear := unstufClearState_pend ((congrArg Unstuf.countStuff hunstuf).trans hzero) hlength
  rw [dataStateUpdateCrc, dataStateUpdateCrc, hparse, dataStateGoError_pend hstall,
    reportNoteCrcSuccess_pend]
  dsimp only
  split_ifs
  · rfl
  · rw [← dataStateGoNext_pend]
    exact congrArg (fun u => dataStateGoNext { (reportNoteCrcSuccess cd).pend bits with
      unstuf := u } .ack 2) hclear

theorem dataStateUpdateAck_pend (data : Word) :
    dataStateUpdateAck (cd.pend bits) data = (dataStateUpdateAck cd data).pend bits := by
  have hrestore := @unstufRestoreState_pend _ hzero ((cd.parseCrcBits <<< 2) ||| data) bits
    (by omega)
  have herror := @dataStateGoError_pend { cd with
    unstuf := unstufRestoreState cd.unstuf ((cd.parseCrcBits <<< 2) ||| data) } hstall bits
  rw [dataStateUpdateAck, dataStateUpdateAck, reportNoteAckSuccess_pend]
  split_ifs
  · rw [← herror]
    exact congrArg (fun u => dataStateGoError { cd.pend bits with unstuf := u }) hrestore
  · rfl

theorem dataStateUpdateEof0_pend (data : Word) :
    dataStateUpdateEof0 (cd.pend bits) data = (dataStateUpdateEof0 cd data).pend bits := by
  have hstall' : (cd.pend bits).pio.rxStall = cd.pio.rxStall := rfl
  have hlength : bits.length < 32 := by omega
  have hclear := unstufClearState_pend hzero hlength
  rw [dataStateUpdateEof0, dataStateUpdateEof0, hstall', dataStateGoError_pend hstall]
  split_ifs
  · rfl
  · exact congrArg (fun u => dataStateGoNext { cd.pend bits with unstuf := u } .eof1 5) hclear

/-- **A field is parsed in the same way**, whatever waits. -/
theorem dataStateUpdate_pend (data : Word) :
    dataStateUpdate (cd.pend bits) data = (dataStateUpdate cd data).pend bits := by
  have hstate : (cd.pend bits).parseState = cd.parseState := rfl
  rw [dataStateUpdate, dataStateUpdate, hstate]
  cases cd.parseState with
  | start => rfl
  | header => exact dataStateUpdateHeader_pend hzero hbits hstall data
  | extHeader => exact dataStateUpdateExtHeader_pend hzero hbits hstall data
  | data0 => exact dataStateUpdateData0_pend hzero hbits hstall data
  | data1 => exact dataStateUpdateData1_pend hzero hbits hstall data
  | crc => exact dataStateUpdateCrc_pend hzero hbits hstall data
  | ack => exact dataStateUpdateAck_pend hzero hbits hstall data
  | eof0 => exact dataStateUpdateEof0_pend hzero hbits hstall data
  | eof1 => exact dataStateUpdateEof1_pend hstall bits data
  | discard => exact dataStateGoDiscard_pend hstall bits

/-- **Six recessive bits** are taken in the same way, unless the line has been recessive for long. -/
theorem dataStateLinePassive_pend (hdom : ~~~(unstufGetRaw cd.unstuf) ≠ 0) :
    dataStateLinePassive (cd.pend bits) = (dataStateLinePassive cd).pend bits := by
  have hstate : (cd.pend bits).parseState = cd.parseState := rfl
  have hunstuf : (cd.pend bits).unstuf = cd.unstuf.pend bits := rfl
  have hbit (i : ℕ) (hi : bits.length + i < 32) := @unstufGetRaw_pend cd.unstuf hzero _ _ hi
  have hdom' : ~~~(unstufGetRaw (cd.unstuf.pend bits)) ≠ 0 := by
    intro hall
    have hset (i : ℕ) (hi : i < 32) : (unstufGetRaw (cd.unstuf.pend bits)).getLsbD i = true := by
      have hclear := congrArg (fun w => BitVec.getLsbD w i) hall
      simpa [hi] using hclear
    have hnil : bits.length = 0 := by
      by_contra hsome
      have htop := hset 31 (by omega)
      rw [unstufGetRaw, BitVec.getLsbD_ushiftRight, BitVec.getLsbD_of_ge] at htop
      · exact Bool.false_ne_true htop
      · have hcount : (cd.unstuf.pend bits).countStuff = bits.length := rfl
        omega
    refine hdom (BitVec.eq_of_getLsbD_eq fun i hi => ?_)
    rw [BitVec.getLsbD_not, ← hbit i (by omega), hset i hi]
    simp
  have hten : ~~~(unstufGetRaw (cd.unstuf.pend bits)) &&& 0x3ff =
      ~~~(unstufGetRaw cd.unstuf) &&& 0x3ff := by
    have hmask (i : ℕ) : (0x3ff : Word).getLsbD i = decide (i < 10) :=
      getLsbD_lowMask (n := 32) (t := 10) (by omega) i
    refine BitVec.eq_of_getLsbD_eq fun i hi => ?_
    rw [BitVec.getLsbD_and, BitVec.getLsbD_and, BitVec.getLsbD_not, BitVec.getLsbD_not, hmask]
    by_cases hlow : i < 10
    · rw [hbit i (by omega)]
    · simp [hlow]
  rw [dataStateLinePassive, dataStateLinePassive, hstate, hunstuf, dataStateGoError_pend hstall,
    dataStateGoDiscard_pend hstall]
  dsimp only
  rw [if_neg hdom, if_neg hdom', hten]
  split_ifs <;> rfl

end

/-! ### Groups of bits -/

/-- The receiver takes in one bit. -/
def bitStep (cd : State) (b : Bool) : State :=
  let r := unstufBit cd.unstuf b
  let cd := { cd with rawBitCount := cd.rawBitCount + 1, unstuf := r.2 }
  match r.1 with
  | .needMore => cd
  | .pulled => dataStateUpdate cd cd.unstuf.unstuffedBits
  | .sixHigh => dataStateLinePassive cd
  | .sixLow => dataStateLineError cd

/-- No bits wait, and the field is not complete. -/
structure Tidy (cd : State) : Prop where
  countStuff_eq : cd.unstuf.countStuff = 0
  countUnstuff_pos : 0 < cd.unstuf.countUnstuff

/-- The receive queue has not overflowed, and the line is not taken as recessive for too long. -/
structure Calm (cd : State) (b : Bool) : Prop where
  rxStall_eq : cd.pio.rxStall = false
  dominant : (unstufBit cd.unstuf b).1 = .sixHigh → ~~~(cd.unstuf.pend [b]).stuffedBits ≠ 0

/-- Nothing of the kind happens while some bits are taken in. -/
def CalmRun (cd : State) : List Bool → Prop
  | [] => True
  | b :: bits => Calm cd b ∧ CalmRun (bitStep cd b) bits

theorem pend_nil {cd : State} (h : cd.unstuf.countStuff = 0) : cd.pend [] = cd := by
  obtain ⟨stats, ⟨sb, cs, ub, cu⟩, raw⟩ := cd
  dsimp only at h
  subst h
  simp [State.pend, Unstuf.pend, ofMsb]

theorem dataStateGoDiscard_countUnstuff (cd : State) :
    (dataStateGoDiscard cd).unstuf.countUnstuff = 32 := by
  rw [dataStateGoDiscard, reportNoteDiscarding]
  split_ifs <;> rfl

theorem dataStateGoCrc_countUnstuff (cd : State) :
    0 < (dataStateGoCrc cd).unstuf.countUnstuff := by
  rw [dataStateGoCrc]
  rcases reportNoteCrcStart (dataStateExpectCrc cd) with ⟨cd', _ | _⟩
  · exact Nat.succ_pos 15
  · exact (dataStateGoDiscard_countUnstuff _).symm ▸ Nat.succ_pos 31

theorem dataStateGoData_countUnstuff (cd : State) (id data : Word) :
    0 < (dataStateGoData cd id data).unstuf.countUnstuff := by
  have hdiscard : 0 < (dataStateGoDiscard cd).unstuf.countUnstuff :=
    (dataStateGoDiscard_countUnstuff cd).symm ▸ Nat.succ_pos 31
  have hnext (cd : State) {n : ℕ} (hn : n ≠ 0) :
      0 < (dataStateGoNext cd .data0 (if 4 ≤ n then 32 else n * 8)).unstuf.countUnstuff := by
    change 0 < if 4 ≤ n then 32 else n * 8
    split_ifs <;> omega
  rw [dataStateGoData]
  dsimp only
  by_cases hreserved : data &&& (0x03#32 <<< 4) ≠ 0
  · rwa [if_pos hreserved]
  · rw [if_neg hreserved]
    by_cases hdata : (if data &&& (1#32 <<< 6) ≠ 0 then 0 else (data &&& 0x0f).toNat) ≠ 0
    · rw [if_pos hdata]
      exact hnext _ hdata
    · rw [if_neg hdata]
      exact dataStateGoCrc_countUnstuff _

/-- **The parser always waits for some bits.** -/
theorem dataStateUpdate_countUnstuff (cd : State) (data : Word) :
    0 < (dataStateUpdate cd data).unstuf.countUnstuff := by
  have hdiscard (cd : State) : 0 < (dataStateGoDiscard cd).unstuf.countUnstuff :=
    (dataStateGoDiscard_countUnstuff cd).symm ▸ Nat.succ_pos 31
  have hnext (cd : State) (state : ParseState) {n : ℕ} (hn : 0 < n) :
      0 < (dataStateGoNext cd state n).unstuf.countUnstuff := hn
  rw [dataStateUpdate]
  cases cd.parseState with
  | start => exact hnext _ .header (by omega)
  | header =>
      dsimp only
      rw [dataStateUpdateHeader]
      dsimp only
      split_ifs
      · exact hnext _ .extHeader (by omega)
      · exact dataStateGoData_countUnstuff _ _ _
  | extHeader => exact dataStateGoData_countUnstuff _ _ _
  | data0 =>
      dsimp only
      rw [dataStateUpdateData0]
      by_cases hmore : 4 < cd.parseMsg.dlc.toNat
      · rw [if_pos hmore]
        refine hnext _ .data1 ?_
        split_ifs <;> omega
      · rw [if_neg hmore]
        exact dataStateGoCrc_countUnstuff _
  | data1 => exact dataStateGoCrc_countUnstuff _
  | crc =>
      dsimp only
      rw [dataStateUpdateCrc]
      split_ifs
      · exact hdiscard _
      · exact hnext _ .ack (by omega)
  | ack =>
      dsimp only
      rw [dataStateUpdateAck]
      split_ifs
      · exact hdiscard _
      · exact hnext _ .eof0 (by omega)
  | eof0 =>
      dsimp only
      rw [dataStateUpdateEof0]
      split_ifs
      · exact hdiscard _
      · exact hnext _ .eof1 (by omega)
  | eof1 =>
      dsimp only
      rw [dataStateUpdateEof1]
      split_ifs
      · exact hnext _ .start (by omega)
      · exact hdiscard _
      · exact hdiscard _
  | discard => exact hdiscard cd

theorem dataStateLinePassive_countUnstuff (cd : State) :
    0 < (dataStateLinePassive cd).unstuf.countUnstuff := by
  have hdiscard (cd : State) : 0 < (dataStateGoDiscard cd).unstuf.countUnstuff :=
    (dataStateGoDiscard_countUnstuff cd).symm ▸ Nat.succ_pos 31
  rw [dataStateLinePassive]
  dsimp only
  split_ifs
  · exact hdiscard _
  · exact hdiscard _
  · exact Nat.succ_pos 0
  · exact hdiscard _

theorem dataStateLineError_countUnstuff (cd : State) :
    0 < (dataStateLineError cd).unstuf.countUnstuff := by
  rw [dataStateLineError]
  split_ifs <;> exact (dataStateGoDiscard_countUnstuff _).symm ▸ Nat.succ_pos 31

/-- What becomes of a bit, with the bits that wait behind it. -/
def afterPull (ret : Pull) (cd : State) : State :=
  match ret with
  | .needMore => cd
  | .pulled => dataStateUpdate cd cd.unstuf.unstuffedBits
  | .sixHigh => dataStateLinePassive cd
  | .sixLow => dataStateLineError cd

/-- **Whatever is done about a bit** does not depend on those that wait. -/
theorem afterPull_pend {ret : Pull} {cd : State} (hstall : cd.pio.rxStall = false)
    (hzero : cd.unstuf.countStuff = 0) {bits : List Bool} (hbits : bits.length ≤ 10)
    (hdom : ret = .sixHigh → ~~~(unstufGetRaw cd.unstuf) ≠ 0) :
    afterPull ret (cd.pend bits) = (afterPull ret cd).pend bits := by
  cases ret with
  | needMore => rfl
  | pulled => exact dataStateUpdate_pend hzero hbits hstall _
  | sixHigh => exact dataStateLinePassive_pend hzero hbits hstall (hdom rfl)
  | sixLow => exact dataStateLineError_pend hstall bits

theorem unstufBit_countStuff (bu : Unstuf) (b : Bool) : (unstufBit bu b).2.countStuff = 0 := by
  rw [unstufBit_eq]
  dsimp only
  split_ifs <;> rfl

theorem unstufBit_stuffedBits (bu : Unstuf) (b : Bool) :
    (unstufBit bu b).2.stuffedBits = (bu.pend [b]).stuffedBits := by
  rw [unstufBit_eq]
  dsimp only
  split_ifs <;> rfl

theorem unstufBit_countUnstuff {bu : Unstuf} (hpos : 0 < bu.countUnstuff) {b : Bool}
    (hmore : (unstufBit bu b).1 = .needMore) : 0 < (unstufBit bu b).2.countUnstuff := by
  rw [unstufBit_eq] at hmore ⊢
  dsimp only at hmore ⊢
  split_ifs at hmore ⊢
  · exact hpos
  · exact Nat.pos_of_ne_zero ‹_›

/-- The receiver with a bit taken in, before anything is done about it. -/
def takeBit (cd : State) (b : Bool) : State :=
  { cd with rawBitCount := cd.rawBitCount + 1, unstuf := (unstufBit cd.unstuf b).2 }

theorem bitStep_eq (cd : State) (b : Bool) :
    bitStep cd b = afterPull (unstufBit cd.unstuf b).1 (takeBit cd b) := rfl

theorem Tidy.bitStep {cd : State} (h : Tidy cd) {b : Bool} (hc : Calm cd b) :
    Tidy (bitStep cd b) := by
  have hzero : (takeBit cd b).unstuf.countStuff = 0 := unstufBit_countStuff cd.unstuf b
  have hraw : unstufGetRaw (takeBit cd b).unstuf = (cd.unstuf.pend [b]).stuffedBits := by
    rw [unstufGetRaw, hzero]
    exact (BitVec.ushiftRight_zero _).trans (unstufBit_stuffedBits cd.unstuf b)
  have hpend := @afterPull_pend (unstufBit cd.unstuf b).1 (takeBit cd b)
    hc.rxStall_eq hzero [] (Nat.zero_le 10) fun hsix => hraw ▸ hc.dominant hsix
  rw [pend_nil hzero] at hpend
  refine ⟨?_, ?_⟩
  · rw [bitStep_eq, hpend]
    rfl
  · rw [bitStep_eq]
    cases hret : (unstufBit cd.unstuf b).1 with
    | needMore => exact unstufBit_countUnstuff h.countUnstuff_pos hret
    | pulled => exact dataStateUpdate_countUnstuff _ _
    | sixHigh => exact dataStateLinePassive_countUnstuff _
    | sixLow => exact dataStateLineError_countUnstuff _

/-- **Bits that wait are taken in one after the other.** -/
theorem processRxLoop_eq {fuel : ℕ} {cd : State} {bits : List Bool} (h : Tidy cd)
    (hcalm : CalmRun cd bits) (hbits : bits.length ≤ 10) (hfuel : bits.length < fuel) :
    processRxLoop fuel (cd.pend bits) = some (bits.foldl bitStep cd) := by
  induction bits generalizing cd fuel with
  | nil =>
      obtain ⟨fuel, rfl⟩ : ∃ n, fuel = n + 1 := ⟨fuel - 1, by omega⟩
      rw [pend_nil h.countStuff_eq, processRxLoop, unstufPullBits, if_pos h.countStuff_eq]
      rfl
  | cons b bits ih =>
      obtain ⟨fuel, rfl⟩ : ∃ n, fuel = n + 1 := ⟨fuel - 1, by omega⟩
      obtain ⟨hc, hcalm⟩ := hcalm
      rw [List.length_cons] at hbits hfuel
      have htidy := h.bitStep hc
      have hzero : (takeBit cd b).unstuf.countStuff = 0 := unstufBit_countStuff cd.unstuf b
      have hraw : unstufGetRaw (takeBit cd b).unstuf = (cd.unstuf.pend [b]).stuffedBits := by
        rw [unstufGetRaw, hzero]
        exact (BitVec.ushiftRight_zero _).trans (unstufBit_stuffedBits cd.unstuf b)
      have hafter := @afterPull_pend (unstufBit cd.unstuf b).1 (takeBit cd b)
        hc.rxStall_eq hzero bits (by omega) fun hsix => hraw ▸ hc.dominant hsix
      rw [← bitStep_eq] at hafter
      have hcount : cd.rawBitCount + BitVec.ofNat 32 (bits.length + 1) =
          cd.rawBitCount + 1 + BitVec.ofNat 32 bits.length := by
        rw [BitVec.add_assoc, Nat.add_comm, BitVec.ofNat_add]
        rfl
      -- what is left of the state when the first bit has been taken
      have hframe (u : Unstuf) : { cd.pend (b :: bits) with unstuf := u } =
          { (takeBit cd b).pend bits with unstuf := u } :=
        congrArg (fun n => { cd with rawBitCount := n, unstuf := u }) hcount
      have hpull : unstufPullBits (cd.pend (b :: bits)).unstuf = some
          (pullSerial (cd.unstuf.pend (b :: bits)).stuffedBits (bits.length + 1)
            (cd.unstuf.pend (b :: bits))) :=
        @unstufPullBits_eq (cd.unstuf.pend (b :: bits))
          (show bits.length + 1 < 31 by omega) h.countUnstuff_pos
      rw [pullSerial_pend cd.unstuf b (by omega)] at hpull
      rw [processRxLoop, hpull, List.foldl_cons]
      by_cases hmore : (unstufBit cd.unstuf b).1 = .needMore
      · -- the field is not complete: the same loop goes on with the next bit
        have hstep : bitStep cd b = takeBit cd b := by
          rw [bitStep_eq, hmore]
          rfl
        have hnext := @ih (fuel + 1) _ htidy hcalm (by omega) (by omega)
        have hpos := htidy.countUnstuff_pos
        rw [hstep] at hpos
        have hpull' : unstufPullBits ((takeBit cd b).pend bits).unstuf = some
            (pullSerial ((unstufBit cd.unstuf b).2.pend bits).stuffedBits bits.length
              ((unstufBit cd.unstuf b).2.pend bits)) :=
          @unstufPullBits_eq ((unstufBit cd.unstuf b).2.pend bits)
            (show bits.length < 31 by omega) hpos
        rw [hstep, processRxLoop, hpull'] at hnext
        rw [if_pos hmore, hstep, ← hnext]
        dsimp only
        rw [hframe]
      · have hnext := @ih fuel _ htidy hcalm (by omega) (by omega)
        rw [if_neg hmore, ← hnext, ← hafter]
        dsimp only
        rw [hframe]
        cases hret : (unstufBit cd.unstuf b).1 with
        | needMore => exact absurd hret hmore
        | _ => rfl

/-- **Where the groups begin and end does not matter**: a group of bits is taken in as its bits one
after the other. -/
theorem processRx_eq_foldl {cd : State} (h : Tidy cd) {n : ℕ} (hn : n ≤ 10) {rxData : Word}
    (hcalm : CalmRun cd (msbBits rxData n)) :
    processRx n cd rxData = some ((msbBits rxData n).foldl bitStep cd) := by
  have hmask (i : ℕ) : ((1#32 <<< n) - 1).getLsbD i = decide (i < n) := getLsbD_lowMask (by omega) i
  have hdata : rxData &&& ((1#32 <<< n) - 1) = ofMsb 32 (msbBits rxData n) := by
    refine BitVec.eq_of_getLsbD_eq fun i hi => ?_
    rw [BitVec.getLsbD_and, hmask, getLsbD_ofMsb_msbBits, Bool.decide_and, decide_eq_true hi,
      Bool.true_and, Bool.and_comm]
  have hadd : unstufAddBits cd.unstuf rxData n = cd.unstuf.pend (msbBits rxData n) := by
    rw [unstufAddBits, hdata, Unstuf.pend, length_msbBits]
  have hloop := @processRxLoop_eq (n + 1) _ _ h hcalm (by rwa [length_msbBits])
    (by rw [length_msbBits]; omega)
  rw [State.pend, length_msbBits] at hloop
  rw [processRx, hadd, hloop]

end Terraboot.Can2040
