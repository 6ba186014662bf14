import Terraboot.Can2040Serial

/-!
# The Fields of a Frame

The bits of a field reach the parser as a word once the last of them is there, without those that
were added on the way. What the parser makes of the header and of the data bytes is the message that
the frame was made from.

## Main results

* `bitStep_added`, `bitStep_taken`: added bits are dropped, and the others belong to the field.
* `headerMsg_base`, `headerMsg_extended`: the header tells the identifier, the kind and the length.
* `bswap32Bytes_ofMsb`: the data bytes end up in their places.
-/

open BitStuffing MsbBits

namespace Terraboot.Can2040

/-- The state when one more bit has been taken in, and the field as it is then. -/
def State.shift (cd : State) (b : Bool) (value : Word) (more : ℕ) : State :=
  { cd with
    rawBitCount := cd.rawBitCount + 1
    unstuf := {
      stuffedBits := (cd.unstuf.pend [b]).stuffedBits
      countStuff := 0
      unstuffedBits := value
      countUnstuff := more } }

/-! ### The past -/

theorem bitsAbove_zero_five (w : Word) : bitsAbove w 0 5 =
    [w.getLsbD 0, w.getLsbD 1, w.getLsbD 2, w.getLsbD 3, w.getLsbD 4] := rfl

theorem sameRun_pend {h : List Bool} {bu : Unstuf}
    (hs : SameRun 5 h (bitsAbove bu.stuffedBits 0 5)) (b : Bool) :
    SameRun 5 (b :: h) (bitsAbove (bu.pend [b]).stuffedBits 0 5) := by
  have hbit (i : ℕ) (hi : 1 + i < 32) : (bu.pend [b]).stuffedBits.getLsbD (1 + i) =
      bu.stuffedBits.getLsbD i := @getLsbD_pend _ [b] _ hi
  have hwindow : b :: bitsAbove bu.stuffedBits 0 5 =
      bitsAbove (bu.pend [b]).stuffedBits 0 5 ++ [bu.stuffedBits.getLsbD 4] := by
    rw [bitsAbove_zero_five, bitsAbove_zero_five, getLsbD_pend_singleton, hbit 0 (by omega),
      hbit 1 (by omega), hbit 2 (by omega), hbit 3 (by omega)]
    rfl
  have hcons := hs.cons b
  rw [hwindow] at hcons
  have hcut := SameRun.of_append [bu.stuffedBits.getLsbD 4] (show 0 < 5 by omega)
    (show 5 ≤ (bitsAbove (bu.pend [b]).stuffedBits 0 5).length by simp)
  exact ⟨hcons.1.trans hcut.1, hcons.2.trans hcut.2⟩

/-- The next bit is read as the line code has it. -/
theorem unstufBit_read {bu : Unstuf} {h : List Bool}
    (hs : SameRun 5 h (bitsAbove bu.stuffedBits 0 5)) (b : Bool) :
    (fiveEqual (bu.pend [b]).stuffedBits).getLsbD 1 = decide (5 ≤ runLength h) ∧
      (fiveEqual (bu.pend [b]).stuffedBits).getLsbD 0 = decide (5 ≤ runLength (b :: h)) := by
  have hnext := sameRun_pend hs b
  have hiff : 5 ≤ runLength (bitsAbove bu.stuffedBits 0 5) ↔ 5 ≤ runLength h := by
    have hmin := hs.2
    omega
  have hiff' : 5 ≤ runLength (bitsAbove (bu.pend [b]).stuffedBits 0 5) ↔
      5 ≤ runLength (b :: h) := by
    have hmin := hnext.2
    omega
  rw [fiveEqual_pend_singleton, getLsbD_fiveEqual _ (by omega), decide_eq_decide.mpr hiff,
    decide_eq_decide.mpr hiff']
  exact ⟨rfl, rfl⟩

/-- **A bit that was added is dropped.** -/
theorem bitStep_added {cd : State} {c : Bool} {h : List Bool}
    (hs : SameRun 5 (c :: h) (bitsAbove cd.unstuf.stuffedBits 0 5))
    (hfull : 5 ≤ runLength (c :: h)) (hstall : cd.pio.rxStall = false) :
    Calm cd (!c) ∧
      bitStep cd (!c) = cd.shift (!c) cd.unstuf.unstuffedBits cd.unstuf.countUnstuff := by
  obtain ⟨hone, hzero⟩ := unstufBit_read hs (!c)
  have hshort : ¬5 ≤ runLength ((!c) :: c :: h) := by
    rw [runLength_cons_not]
    omega
  have hbit := unstufBit_eq cd.unstuf (!c)
  dsimp only at hbit
  rw [hone, hzero, if_pos (decide_eq_true hfull), if_neg (by simpa using hshort)] at hbit
  refine ⟨⟨hstall, fun hsix => ?_⟩, ?_⟩
  · rw [hbit] at hsix
    cases hsix
  · rw [bitStep_eq, takeBit, hbit]
    rfl

/-- **A bit of the field is taken**, and the field handed over if it is the last. -/
theorem bitStep_taken {cd : State} {h : List Bool} (hlt : runLength h < 5)
    (hs : SameRun 5 h (bitsAbove cd.unstuf.stuffedBits 0 5)) (hstall : cd.pio.rxStall = false)
    (b : Bool) :
    Calm cd b ∧ bitStep cd b =
      afterPull (if cd.unstuf.countUnstuff - 1 = 0 then .pulled else .needMore)
        (cd.shift b (cd.unstuf.unstuffedBits |||
          (BitVec.ofBool b).setWidth 32 <<< (cd.unstuf.countUnstuff - 1))
          (cd.unstuf.countUnstuff - 1)) := by
  have hone := (unstufBit_read hs b).1
  have hbit := unstufBit_eq cd.unstuf b
  dsimp only at hbit
  rw [hone, if_neg (by simpa using hlt)] at hbit
  refine ⟨⟨hstall, fun hsix => ?_⟩, ?_⟩
  · rw [hbit] at hsix
    dsimp only at hsix
    split_ifs at hsix
  · rw [bitStep_eq, takeBit, hbit]
    rfl

/-! ### The header -/

/-- What the lower half of a header tells. -/
theorem header_low {x : Word} {remote : Bool} {dlc : BitVec 4}
    (h : msbBits x 7 = remote :: false :: false :: msbBits dlc 4) :
    ¬x &&& (0x03#32 <<< 4) ≠ 0 ∧ (x &&& (1#32 <<< 6) ≠ 0 ↔ remote = true) ∧
      x &&& 0x0f = dlc.setWidth 32 := by
  have hsplit : msbBits x 7 = x.getLsbD 6 :: x.getLsbD 5 :: x.getLsbD 4 :: msbBits x 4 := rfl
  rw [hsplit, List.cons.injEq, List.cons.injEq, List.cons.injEq] at h
  obtain ⟨h6, h5, h4, hdlc⟩ := h
  refine ⟨?_, ?_, ?_⟩
  · have hmask : x &&& (((1#32 <<< 2) - 1#32) <<< 4) = 0 ↔
        ∀ i < 2, x.getLsbD (4 + i) = false := and_mask_eq_zero_iff (by omega)
    refine not_not.mpr (hmask.mpr fun i hi => ?_)
    obtain rfl | rfl : i = 0 ∨ i = 1 := by omega
    · exact h4
    · exact h5
  · rw [← h6]
    exact and_bit_ne_zero_iff (by omega)
  · refine BitVec.eq_of_getLsbD_eq fun i hi => ?_
    have hmask : (0x0f : Word).getLsbD i = decide (i < 4) :=
      getLsbD_lowMask (n := 32) (t := 4) (by omega) i
    rw [BitVec.getLsbD_and, hmask, BitVec.getLsbD_setWidth, decide_eq_true hi, Bool.true_and]
    by_cases hlow : i < 4
    · rw [getLsbD_eq_of_msbBits_eq hdlc i hlow, decide_eq_true hlow, Bool.and_true]
    · rw [decide_eq_false hlow, Bool.and_false, BitVec.getLsbD_of_ge dlc i (Nat.le_of_not_lt hlow)]

/-- The message of a frame of which the first `k` bytes have come. -/
def partMsg (f : BusFrame) (k : ℕ) : CanbusMsg where
  id := (msgOf f).id
  dlc := (msgOf f).dlc
  data := f.data.take k ++ List.replicate (8 - (f.data.take k).length) 0
  data_length := by
    have hle : (f.data.take k).length ≤ 8 := by
      rw [List.length_take, f.length_data]
      split_ifs <;> omega
    rw [List.length_append, List.length_replicate]
    omega

/-- All bytes have come. -/
theorem partMsg_eq {f : BusFrame} {k : ℕ} (h : f.data.length ≤ k) : partMsg f k = msgOf f := by
  refine CanbusMsg.ext rfl rfl ?_
  change f.data.take k ++ List.replicate (8 - (f.data.take k).length) 0 = (msgOf f).data
  rw [List.take_of_length_le h]
  rfl

theorem headerMsg_eq {f : BusFrame} {w x : Word}
    (hw : w = match f.id with
      | .base id => id.setWidth 32
      | .extended id => id.setWidth 32 ||| idEff)
    (hx : msbBits x 7 = f.remote :: false :: false :: msbBits f.dlc 4) :
    headerMsg w x = partMsg f 0 := by
  obtain ⟨-, hremote, hdlc⟩ := header_low hx
  have hid : (if x &&& (1#32 <<< 6) ≠ 0 then w ||| idRtr else w) = (msgOf f).id := by
    rw [if_congr hremote rfl rfl, hw, msgOf]
    cases f.remote
    · exact BitVec.or_zero.symm
    · rfl
  exact CanbusMsg.ext hid hdlc rfl

/-- **The header of a base frame** tells its message. -/
theorem headerMsg_base {f : BusFrame} {id : BitVec 11} (hid : f.id = .base id) {x : Word}
    (hx : msbBits x 18 = msbBits id 11 ++ f.remote :: false :: false :: msbBits f.dlc 4) :
    headerMsg ((x >>> 7) &&& 0x7ff) x = partMsg f 0 := by
  have hsplit : msbBits x 18 = msbBits (x >>> 7) 11 ++ msbBits x 7 := msbBits_add x 11 7
  obtain ⟨hupper, hlower⟩ := List.append_inj (hsplit.symm.trans hx) (by simp)
  have hmask (i : ℕ) : (0x7ff : Word).getLsbD i = decide (i < 11) :=
    getLsbD_lowMask (n := 32) (t := 11) (by omega) i
  refine headerMsg_eq ?_ hlower
  rw [hid]
  refine BitVec.eq_of_getLsbD_eq fun i hi => ?_
  rw [BitVec.getLsbD_and, hmask, BitVec.getLsbD_setWidth, decide_eq_true hi, Bool.true_and]
  by_cases hlow : i < 11
  · rw [getLsbD_eq_of_msbBits_eq hupper i hlow, decide_eq_true hlow, Bool.and_true]
  · rw [decide_eq_false hlow, Bool.and_false, BitVec.getLsbD_of_ge id i (Nat.le_of_not_lt hlow)]

/-- **The header of an extended frame**, of which two words have come, tells its message. -/
theorem headerMsg_extended {f : BusFrame} {id : BitVec 29} (hid : f.id = .extended id) {h1 x : Word}
    (h1bits : msbBits h1 18 =
      msbBits (id >>> 18) 11 ++ true :: true :: msbBits (id >>> 13) 5)
    (hx : msbBits x 20 = msbBits id 13 ++ f.remote :: false :: false :: msbBits f.dlc 4)
    (hclear : ∀ i, 20 ≤ i → x.getLsbD i = false) :
    headerMsg (((h1 <<< 11) &&& 0x1ffc0000#32) ||| ((h1 <<< 13) &&& 0x3e000#32) ||| (x >>> 7) |||
      idEff) x = partMsg f 0 := by
  have hsplit : msbBits x 20 = msbBits (x >>> 7) 13 ++ msbBits x 7 := msbBits_add x 13 7
  obtain ⟨hlow13, hlower⟩ := List.append_inj (hsplit.symm.trans hx) (by simp)
  have hsplit1 : msbBits h1 18 = msbBits (h1 >>> 7) 11 ++ msbBits h1 7 := msbBits_add h1 11 7
  obtain ⟨hhigh11, hmid7⟩ := List.append_inj (hsplit1.symm.trans h1bits) (by simp)
  have hsplit2 : msbBits h1 7 = h1.getLsbD 6 :: h1.getLsbD 5 :: msbBits h1 5 := rfl
  rw [hsplit2, List.cons.injEq, List.cons.injEq] at hmid7
  have hmid5 := hmid7.2.2
  have hhigh := getLsbD_mask 0x1ffc0000#32 18 29 (by omega) (by decide)
  have hmid := getLsbD_mask 0x3e000#32 13 18 (by omega) (by decide)
  refine headerMsg_eq ?_ hlower
  rw [hid]
  refine BitVec.eq_of_getLsbD_eq fun i hi => ?_
  rw [BitVec.getLsbD_or, BitVec.getLsbD_or, BitVec.getLsbD_or, BitVec.getLsbD_or,
    BitVec.getLsbD_and, BitVec.getLsbD_and, hhigh, hmid, BitVec.getLsbD_shiftLeft,
    BitVec.getLsbD_shiftLeft, BitVec.getLsbD_setWidth, decide_eq_true hi, Bool.true_and,
    Bool.true_and]
  -- the three parts of the identifier, from the lowest one up
  obtain h | h | h | h : i < 13 ∨ (13 ≤ i ∧ i < 18) ∨ (18 ≤ i ∧ i < 29) ∨ 29 ≤ i := by omega
  · have hbit := getLsbD_eq_of_msbBits_eq hlow13 i h
    have h₁ : ¬(13 ≤ i ∧ i < 18) := by omega
    have h₂ : ¬(18 ≤ i ∧ i < 29) := by omega
    rw [hbit, decide_eq_false h₁, decide_eq_false h₂]
    simp
  · have hbit := getLsbD_eq_of_msbBits_eq hmid5 (i - 13) (by omega)
    have hrest : (x >>> 7).getLsbD i = false := by
      rw [BitVec.getLsbD_ushiftRight]
      exact hclear _ (by omega)
    have h₂ : ¬(18 ≤ i ∧ i < 29) := by omega
    have hge : ¬i < 13 := by omega
    rw [hbit, hrest, decide_eq_true h, decide_eq_false h₂, decide_eq_false hge,
      BitVec.getLsbD_ushiftRight, Nat.add_sub_cancel' h.1]
    simp
  · have hbit := getLsbD_eq_of_msbBits_eq hhigh11 (i - 18) (by omega)
    have hrest : (x >>> 7).getLsbD i = false := by
      rw [BitVec.getLsbD_ushiftRight]
      exact hclear _ (by omega)
    have h₁ : ¬(13 ≤ i ∧ i < 18) := by omega
    have hge : ¬i < 11 := by omega
    have hplace : 7 + (i - 18) = i - 11 := by omega
    rw [BitVec.getLsbD_ushiftRight, BitVec.getLsbD_ushiftRight, Nat.add_sub_cancel' h.1,
      hplace] at hbit
    rw [hbit, hrest, decide_eq_true h, decide_eq_false h₁, decide_eq_false hge]
    simp
  · have hrest : (x >>> 7).getLsbD i = false := by
      rw [BitVec.getLsbD_ushiftRight]
      exact hclear _ (by omega)
    have h₁ : ¬(13 ≤ i ∧ i < 18) := by omega
    have h₂ : ¬(18 ≤ i ∧ i < 29) := by omega
    rw [hrest, decide_eq_false h₁, decide_eq_false h₂, BitVec.getLsbD_of_ge id i h]
    simp

/-! ### The data -/

/-- **Bytes in a word** end up in their places in memory, with zeros behind them. -/
theorem bswap32Bytes_ofMsb {l : List Byte} (hl : l.length ≤ 4) :
    bswap32Bytes (ofMsb 32 (l.flatMap (msbBits · 8)) <<< (32 - 8 * l.length)) =
      l ++ List.replicate (4 - l.length) 0 := by
  have hlength := length_flatMap_msbBits l 8
  have hword (x : Word) : (bswap32Bytes x).flatMap (msbBits · 8) = msbBits x 32 := by
    have hcut (v : Word) : msbBits (v.setWidth 8) 8 = msbBits v 8 :=
      msbBits_congr fun i hi => by simp [hi]
    have hsplit : msbBits x (8 + (8 + (8 + 8))) = msbBits (x >>> 24) 8 ++ (msbBits (x >>> 16) 8 ++
        (msbBits (x >>> 8) 8 ++ msbBits x 8)) := by
      rw [msbBits_add, msbBits_add, msbBits_add]
    rw [bswap32Bytes, List.flatMap_cons, List.flatMap_cons, List.flatMap_cons, List.flatMap_cons,
      hcut, hcut, hcut, hcut, List.flatMap_nil, List.append_nil]
    exact hsplit.symm
  have hpad (n : ℕ) : (List.replicate n (0 : Byte)).flatMap (msbBits · 8) =
      List.replicate (8 * n) false := by
    induction n with
    | zero => rfl
    | succ n ih =>
        rw [List.replicate_succ, List.flatMap_cons, ih, Nat.mul_succ, Nat.add_comm,
          ← List.replicate_append_replicate]
        rfl
  refine flatMap_msbBits_inj ?_ ?_
  · rw [List.length_append, List.length_replicate]
    change 4 = _
    omega
  · have hcount : 32 = 8 * l.length + 8 * (4 - l.length) := by omega
    have hshift : 32 - 8 * l.length = 8 * (4 - l.length) := by omega
    have hread : msbBits (ofMsb 32 (l.flatMap (msbBits · 8))) (8 * l.length) =
        l.flatMap (msbBits · 8) := by
      rw [← hlength]
      exact msbBits_ofMsb _ (by rw [hlength]; omega)
    calc (bswap32Bytes (ofMsb 32 (l.flatMap (msbBits · 8)) <<< (32 - 8 * l.length))).flatMap
          (msbBits · 8)
        = msbBits (ofMsb 32 (l.flatMap (msbBits · 8)) <<< (8 * (4 - l.length)))
            (8 * l.length + 8 * (4 - l.length)) := by rw [hword, hshift, ← hcount]
      _ = l.flatMap (msbBits · 8) ++ List.replicate (8 * (4 - l.length)) false := by
          rw [msbBits_shiftLeft _ (by omega), hread]
      _ = (l ++ List.replicate (4 - l.length) (0 : Byte)).flatMap (msbBits · 8) := by
          rw [List.flatMap_append, hpad]

end Terraboot.Can2040
