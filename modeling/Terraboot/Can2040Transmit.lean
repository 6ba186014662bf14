import Terraboot.Can2040Crc
import Terraboot.Can2040Stuff

/-!
# Encoding a Frame

`can2040_transmit` turns a message into the bits of a frame, ready for the line: the identifier, the
length and the data, the checksum over them, all of it stuffed and packed into five words. A bit
that is added anywhere moves all that follows, so every field is pushed through a word that holds
the last bits sent above it, and these are written over themselves.

## Main results

* `bsPush_holds`: a field adds its stuffed bits to those that were sent.
* `encode_wire`: the words hold the frame as the standard has it, checksum and delimiter included,
  and fit into the buffer.
* `encode_runs`: no six equal bits in a row are sent.
-/

open BitStuffing MsbBits

namespace Terraboot.Can2040

/-! ### The stuffer -/

/-- `struct bitstuffer_s` -/
structure BitStuffer where
  prevStuffed : Word
  bitpos : ℕ
  buf : List Word

/-- `bs_pushraw`; a write outside the buffer has no result. -/
def bsPushraw (bs : BitStuffer) (data : Word) (count : ℕ) : Option BitStuffer :=
  let wp := bs.bitpos / 32
  let bitused := bs.bitpos % 32
  let bitavail := 32 - bitused
  if count ≤ bitavail then
    if wp < bs.buf.length then
      some { bs with
        bitpos := bs.bitpos + count
        buf := bs.buf.modify wp (· ||| data <<< (bitavail - count)) }
    else none
  else
    if wp + 1 < bs.buf.length then
      some { bs with
        bitpos := bs.bitpos + count
        buf := (bs.buf.modify wp (· ||| data >>> (count - bitavail))).modify (wp + 1)
          (· ||| data <<< (32 - (count - bitavail))) }
    else none

/-- `bs_push` -/
def bsPush (bs : BitStuffer) (data : Word) (count : ℕ) : Option BitStuffer := do
  let data := data &&& ((1#32 <<< count) - 1)
  let (stuf, newcount) ← bitstuff ((bs.prevStuffed <<< count) ||| data) count
  let bs ← bsPushraw bs stuf newcount
  return { bs with prevStuffed := stuf }

/-- `bs_finalize`: the number of words, and the buffer with the last one filled up. -/
def bsFinalize (bs : BitStuffer) : ℕ × List Word :=
  let words := (bs.bitpos + 31) / 32
  let extra := words * 32 - bs.bitpos
  (words, if extra = 0 then bs.buf else bs.buf.modify (words - 1) (· ||| ((1#32 <<< extra) - 1)))

/-! ### The encoder -/

/-- `struct can2040_transmit` -/
structure Transmit where
  msg : CanbusMsg
  crc : Word
  stuffedWords : ℕ
  stuffedData : List Word

/-- What `pio_tx_send` hands to the state machine that drives the line, which shifts every word out
from its highest bit. -/
def Transmit.wire (t : Transmit) : List Bool :=
  (t.stuffedData.take t.stuffedWords).flatMap (msbBits · 32)

/-- The identifier as it is queued. -/
def queuedId (id : Word) : Word :=
  if id &&& idEff ≠ 0 then id &&& ~~~0x20000000 else id &&& (idRtr ||| 0x7ff)

/-- The number of data bytes of a queued message. -/
def dataLen (id dlc : Word) : ℕ :=
  if id &&& idRtr ≠ 0 then 0 else if 8 < dlc.toNat then 8 else dlc.toNat

theorem dataLen_le (id dlc : Word) : dataLen id dlc ≤ 8 := by
  rw [dataLen]
  split_ifs <;> omega

/-- The message as it is queued: `can2040_transmit` drops what a frame has no place for. -/
def queuedMsg (msg : CanbusMsg) : CanbusMsg where
  id := queuedId msg.id
  dlc := msg.dlc &&& 0x0f
  data :=
    let n := dataLen (queuedId msg.id) (msg.dlc &&& 0x0f)
    msg.data.take n ++ List.replicate (8 - n) 0
  data_length := by
    have hle := dataLen_le (queuedId msg.id) (msg.dlc &&& 0x0f)
    rw [List.length_append, List.length_take, List.length_replicate, msg.data_length]
    omega

/-- The data bytes are pushed one by one, and the checksum is kept. -/
def pushData (bs : BitStuffer) (crc : Word) : List Byte → Option (BitStuffer × Word)
  | [] => some (bs, crc)
  | v :: data => do
      let crc := crcByte crc (v.setWidth 32)
      let bs ← bsPush bs (v.setWidth 32) 8
      pushData bs crc data

/-- The header of a queued message is pushed, and its checksum taken. -/
def pushHeader (bs : BitStuffer) (m : CanbusMsg) : Option (BitStuffer × Word) := do
  let edlc := m.dlc ||| if m.id &&& idRtr ≠ 0 then 0x40 else 0
  if m.id &&& idEff ≠ 0 then
    let h1 := ((m.id &&& 0x1ffc0000) >>> 11) ||| 0x60#32 ||| ((m.id &&& 0x3e000) >>> 13)
    let h2 := ((m.id &&& 0x1fff) <<< 7) ||| edlc
    let crc := crcBytes 0 (h1 >>> 4) 2
    let crc := crcBytes crc (((h1 &&& 0x0f) <<< 20) ||| h2) 3
    let bs ← bsPush bs h1 19
    let bs ← bsPush bs h2 20
    return (bs, crc)
  else
    let hdr := ((m.id &&& 0x7ff) <<< 7) ||| edlc
    let crc := crcBytes 0 hdr 3
    let bs ← bsPush bs hdr 19
    return (bs, crc)

/-- What `can2040_transmit` writes into a slot of the queue. -/
def encode (msg : CanbusMsg) : Option Transmit := do
  let m := queuedMsg msg
  let (bs, crc) ← pushHeader { prevStuffed := 1, bitpos := 0, buf := List.replicate 5 0 } m
  let (bs, crc) ← pushData bs crc (m.data.take (dataLen m.id m.dlc))
  let crc := crc &&& 0x7fff
  let bs ← bsPush bs crc 15
  let bs ← bsPushraw bs 1 1
  let r := bsFinalize bs
  return { msg := m, crc, stuffedWords := r.1, stuffedData := r.2 }

/-! ### The queued message -/

theorem getLsbD_queuedId (id : Word) (i : ℕ) :
    (queuedId id).getLsbD i = (id.getLsbD i && if id.getLsbD 31 then decide (i ≠ 29)
      else decide (i < 11 ∨ i = 30)) := by
  by_cases hi : i < 32
  · have hext : (0x20000000 : Word).getLsbD i = decide (i = 29) :=
      getLsbD_one_shiftLeft (n := 32) (t := 29) (by omega) i
    have hbase : (0x7ff : Word).getLsbD i = decide (i < 11) :=
      getLsbD_lowMask (n := 32) (t := 11) (by omega) i
    rw [queuedId]
    by_cases heff : id.getLsbD 31 = true
    · rw [if_pos ((and_idEff_ne_zero_iff id).mpr heff), if_pos heff]
      rw [BitVec.getLsbD_and, BitVec.getLsbD_not, hext, decide_eq_true hi, Bool.true_and,
        decide_not]
    · rw [if_neg fun h => heff ((and_idEff_ne_zero_iff id).mp h), if_neg heff]
      rw [BitVec.getLsbD_and, BitVec.getLsbD_or, getLsbD_idRtr, hbase, Bool.decide_or,
        Bool.or_comm]
  · rw [BitVec.getLsbD_of_ge _ _ (Nat.le_of_not_lt hi),
      BitVec.getLsbD_of_ge id _ (Nat.le_of_not_lt hi), Bool.false_and]

/-- The queued identifier is that of the frame that the message asks for. -/
theorem queuedId_eq (msg : CanbusMsg) : queuedId msg.id = (msgOf (frameOf msg)).id := by
  refine BitVec.eq_of_getLsbD_eq fun i hi => ?_
  have hremote : (frameOf msg).remote = msg.id.getLsbD 30 := by
    rw [frameOf, Bool.eq_iff_iff, decide_eq_true_eq]
    exact and_idRtr_ne_zero_iff msg.id
  rw [getLsbD_queuedId, getLsbD_msgOf_id, hremote]
  by_cases heff : msg.id.getLsbD 31 = true
  · have hid : (frameOf msg).id = .extended (msg.id.setWidth 29) :=
      if_pos ((and_idEff_ne_zero_iff msg.id).mpr heff)
    rw [hid, if_pos heff]
    dsimp only
    rw [BitVec.getLsbD_setWidth]
    obtain hlow | rfl | rfl | rfl : i < 29 ∨ i = 29 ∨ i = 30 ∨ i = 31 := by omega
    · have h30 : i ≠ 30 := by omega
      have h31 : i ≠ 31 := by omega
      simp [hlow, hlow.ne, h30, h31]
    · simp
    · simp
    · simp [heff]
  · have hid : (frameOf msg).id = .base (msg.id.setWidth 11) :=
      if_neg fun h => heff ((and_idEff_ne_zero_iff msg.id).mp h)
    rw [hid, if_neg heff]
    dsimp only
    rw [BitVec.getLsbD_setWidth]
    by_cases h30 : i = 30
    · simp [h30]
    · simp [h30, Bool.and_comm]

theorem queuedDlc_eq (msg : CanbusMsg) : msg.dlc &&& 0x0f = (msgOf (frameOf msg)).dlc := by
  refine BitVec.eq_of_getLsbD_eq fun i hi => ?_
  have hmask : (0x0f : Word).getLsbD i = decide (i < 4) :=
    getLsbD_lowMask (n := 32) (t := 4) (by omega) i
  have hdlc : (msgOf (frameOf msg)).dlc = (msg.dlc.setWidth 4).setWidth 32 := rfl
  rw [hdlc, BitVec.getLsbD_and, hmask, BitVec.getLsbD_setWidth, BitVec.getLsbD_setWidth,
    decide_eq_true hi, Bool.true_and, Bool.and_comm]

theorem dataLen_msgOf (f : BusFrame) : dataLen (msgOf f).id (msgOf f).dlc = f.data.length := by
  have hdlc : (msgOf f).dlc.toNat = f.dlc.toNat := by
    have hlt := f.dlc.isLt
    have hword : (msgOf f).dlc = f.dlc.setWidth 32 := rfl
    rw [hword, BitVec.toNat_setWidth, Nat.mod_eq_of_lt (by omega)]
  rw [dataLen, f.length_data, hdlc, if_congr (msgOf_remote f) rfl rfl]
  refine if_congr Iff.rfl rfl ?_
  split_ifs <;> omega

/-- **What is queued is the message of the frame.** -/
theorem queuedMsg_eq (msg : CanbusMsg) : queuedMsg msg = msgOf (frameOf msg) := by
  have hlength := dataLen_msgOf (frameOf msg)
  rw [queuedMsg, CanbusMsg.mk.injEq]
  refine ⟨queuedId_eq msg, queuedDlc_eq msg, ?_⟩
  rw [queuedId_eq, queuedDlc_eq, hlength]
  refine congrArg (· ++ _) ?_
  rw [frameOf]
  dsimp only
  rw [List.take_eq_take_iff, List.length_take]
  omega

/-! ### What was sent -/

/-- The stuffer has sent the given bits: its buffer holds them, and the word above the next field
holds the last of them, with a recessive bit before the first. -/
structure BitStuffer.Holds (bs : BitStuffer) (sent : List Bool) : Prop where
  length_buf : bs.buf.length = 5
  bitpos_eq : bs.bitpos = sent.length
  rowBit_eq : ∀ p < 160, rowBit bs.buf p = sent.getD p false
  prev_eq : ∀ i < 32, bs.prevStuffed.getLsbD i = (sent.reverse ++ [true]).getD i false

/-- What `bs_pushraw` sets at a place of the buffer: the bit of the word that comes to stand there,
but none in a word before that of the first new bit. -/
def pushed (data : Word) (bitpos count p : ℕ) : Bool :=
  decide (bitpos / 32 ≤ p / 32 ∧ p < bitpos + count) && data.getLsbD (bitpos + count - 1 - p)

theorem bsPushraw_eq {bs : BitStuffer} (data : Word) {count : ℕ} (hlength : bs.buf.length = 5)
    (hpos : 0 < count) (hcount : count ≤ 32) (hroom : bs.bitpos + count ≤ 160) :
    ∃ bs', bsPushraw bs data count = some bs' ∧ bs'.buf.length = 5 ∧
      bs'.bitpos = bs.bitpos + count ∧ bs'.prevStuffed = bs.prevStuffed ∧
      ∀ p, rowBit bs'.buf p = (rowBit bs.buf p || pushed data bs.bitpos count p) := by
  obtain ⟨wp, used, hpos32, hused⟩ : ∃ wp used, bs.bitpos = 32 * wp + used ∧ used < 32 :=
    ⟨bs.bitpos / 32, bs.bitpos % 32, (Nat.div_add_mod _ _).symm, Nat.mod_lt _ (by omega)⟩
  have hdiv : bs.bitpos / 32 = wp := by omega
  have hmod : bs.bitpos % 32 = used := by omega
  rw [bsPushraw, hdiv, hmod]
  by_cases hfits : count ≤ 32 - used
  · have hwp : wp < bs.buf.length := by omega
    rw [if_pos hfits, if_pos hwp]
    refine ⟨_, rfl, by rw [List.length_modify, hlength], rfl, rfl, fun p => ?_⟩
    rw [rowBit_modify _ _ hwp, pushed, hdiv, BitVec.getLsbD_shiftLeft]
    refine congrArg _ ?_
    by_cases hp : p / 32 = wp
    · have hin : 32 - 1 - p % 32 < 32 := by omega
      by_cases hend : p < bs.bitpos + count
      · have hlow : ¬32 - 1 - p % 32 < 32 - used - count := by omega
        have hplace : 32 - 1 - p % 32 - (32 - used - count) = bs.bitpos + count - 1 - p := by omega
        simp [hp, hend, hin, hlow, hplace]
      · have hlow : 32 - 1 - p % 32 < 32 - used - count := by omega
        simp [hend, hlow]
    · have hout : ¬(wp ≤ p / 32 ∧ p < bs.bitpos + count) := by omega
      simp [hp, hout]
  · have hwp : wp < bs.buf.length := by omega
    have hnext : wp + 1 < bs.buf.length := by omega
    rw [if_neg hfits, if_pos hnext]
    refine ⟨_, rfl, by rw [List.length_modify, List.length_modify, hlength], rfl, rfl, fun p => ?_⟩
    rw [rowBit_modify _ _ (by rwa [List.length_modify]), rowBit_modify _ _ hwp, pushed, hdiv,
      BitVec.getLsbD_shiftLeft, BitVec.getLsbD_ushiftRight, Bool.or_assoc]
    refine congrArg _ ?_
    by_cases hp : p / 32 = wp
    · have hend : p < bs.bitpos + count := by omega
      have hplace : count - (32 - used) + (32 - 1 - p % 32) = bs.bitpos + count - 1 - p := by omega
      simp [hp, hend, hplace]
    · by_cases hp' : p / 32 = wp + 1
      · have hin : 32 - 1 - p % 32 < 32 := by omega
        by_cases hend : p < bs.bitpos + count
        · have hlow : ¬32 - 1 - p % 32 < 32 - (count - (32 - used)) := by omega
          have hplace : 32 - 1 - p % 32 - (32 - (count - (32 - used))) =
              bs.bitpos + count - 1 - p := by omega
          simp [hp', hend, hin, hlow, hplace]
        · have hlow : 32 - 1 - p % 32 < 32 - (count - (32 - used)) := by omega
          simp [hp', hend, hlow]
      · have hout : ¬(wp ≤ p / 32 ∧ p < bs.bitpos + count) := by omega
        simp [hp, hp', hout]

theorem getD_msbBits {n : ℕ} (w : BitVec n) (k i : ℕ) :
    (msbBits w k).getD i false = (decide (i < k) && w.getLsbD (k - 1 - i)) := by
  by_cases hi : i < k
  · rw [List.getD_eq_getElem _ _ (by simpa using hi), getElem_msbBits]
    simp [hi]
  · rw [List.getD_eq_default _ _ (by simpa using hi)]
    simp [hi]

/-- **Bits are written behind those that were sent.** What the word has above them is either there
already or falls out. -/
theorem bsPushraw_holds {bs : BitStuffer} {sent : List Bool} (hb : bs.Holds sent) (data : Word)
    (count : ℕ) (hcount : count ≤ 32) (hroom : sent.length + count ≤ 160) (hpos : 0 < count)
    (habove : ∀ i, i < sent.length → data.getLsbD (count + i) = true →
      sent.reverse.getD i false = true) :
    ∃ bs', bsPushraw bs data count = some bs' ∧ bs'.buf.length = 5 ∧
      bs'.bitpos = (sent ++ msbBits data count).length ∧
      bs'.prevStuffed = bs.prevStuffed ∧
      ∀ p < 160, rowBit bs'.buf p = (sent ++ msbBits data count).getD p false := by
  obtain ⟨bs', hs, hlength, hbitpos, hprev, hrow⟩ :=
    bsPushraw_eq data hb.length_buf hpos hcount (by rw [hb.bitpos_eq]; exact hroom)
  refine ⟨bs', hs, hlength, ?_, hprev, fun p hp => ?_⟩
  · rw [hbitpos, hb.bitpos_eq, List.length_append, length_msbBits]
  · rw [hrow p, hb.rowBit_eq p hp, pushed, hb.bitpos_eq]
    by_cases hold : p < sent.length
    · -- an old bit, which can only be written over itself
      rw [List.getD_append _ _ _ _ hold]
      cases hset : sent.getD p false with
      | true => rfl
      | false =>
          have hplace : sent.length + count - 1 - p = count + (sent.length - 1 - p) := by omega
          have hrev : sent.reverse.getD (sent.length - 1 - p) false = false := by
            rw [List.getD_eq_getElem _ _ (by rw [List.length_reverse]; omega), List.getElem_reverse,
              ← hset, List.getD_eq_getElem _ _ hold]
            exact getElem_congr_idx (by omega)
          have hclear : data.getLsbD (count + (sent.length - 1 - p)) = false := by
            refine Bool.eq_false_iff.mpr fun h => ?_
            have hcontra := habove (sent.length - 1 - p) (by omega) h
            rw [hrev] at hcontra
            exact Bool.false_ne_true hcontra
          rw [hplace, hclear, Bool.and_false, Bool.or_false]
    · rw [List.getD_append_right _ _ _ _ (Nat.le_of_not_lt hold), getD_msbBits,
        List.getD_eq_default _ _ (Nat.le_of_not_lt hold), Bool.false_or]
      by_cases hend : p < sent.length + count
      · have hin : sent.length / 32 ≤ p / 32 := Nat.div_le_div_right (Nat.le_of_not_lt hold)
        have hlow : p - sent.length < count := by omega
        have hplace : sent.length + count - 1 - p = count - 1 - (p - sent.length) := by omega
        simp [hend, hin, hlow, hplace]
      · have hlow : ¬p - sent.length < count := by omega
        simp [hend, hlow]

/-- The bits above a field are the last ones sent, as far as the code looks. -/
theorem BitStuffer.Holds.sameRun {bs : BitStuffer} {sent : List Bool} (hb : bs.Holds sent)
    {w : Word} {p : ℕ} (hw : ∀ i < 5, w.getLsbD (p + i) = bs.prevStuffed.getLsbD i) :
    SameRun 5 (sent.reverse ++ [true]) (bitsAbove w p 5) := by
  have hpad (i : ℕ) : (sent.reverse ++ true :: (!true) :: List.replicate 3 false).getD i false =
      (sent.reverse ++ [true]).getD i false := by
    rw [List.append_cons]
    by_cases hi : i < (sent.reverse ++ [true]).length
    · exact List.getD_append _ _ _ _ hi
    · rw [List.getD_append_right _ _ _ _ (Nat.le_of_not_lt hi),
        List.getD_eq_default _ _ (Nat.le_of_not_lt hi)]
      match i - (sent.reverse ++ [true]).length with
      | 0 | 1 | 2 | 3 => rfl
      | _ + 4 => rfl
  have htake := bitsAbove_eq_take (w := w) (p := p) (k := 5)
    (l := sent.reverse ++ true :: (!true) :: List.replicate 3 false) (by simp) fun i hi => by
      rw [hw i hi, hb.prev_eq i (by omega), hpad]
  have hrun : SameRun 5 (sent.reverse ++ [true])
      (sent.reverse ++ true :: (!true) :: List.replicate 3 false) := by
    refine ⟨?_, by rw [runLength_append_not]⟩
    cases sent.reverse <;> rfl
  have hcut := SameRun.of_append
    ((sent.reverse ++ true :: (!true) :: List.replicate 3 false).drop 5) (show 0 < 5 by omega)
    (h := (sent.reverse ++ true :: (!true) :: List.replicate 3 false).take 5) (by simp)
  rw [List.take_append_drop] at hcut
  rw [htake]
  exact ⟨hrun.1.trans hcut.1, hrun.2.trans hcut.2⟩

/-- **A field adds its stuffed bits** to those that were sent. -/
theorem bsPush_holds {bs : BitStuffer} {sent : List Bool} (hb : bs.Holds sent) (data : Word)
    {count : ℕ} (hpos : 0 < count) (hcount : count ≤ 20)
    (hroom : (sent ++ stuffNow 5 (sent.reverse ++ [true]) (msbBits data count)).length ≤ 160) :
    ∃ bs', bsPush bs data count = some bs' ∧
      bs'.Holds (sent ++ stuffNow 5 (sent.reverse ++ [true]) (msbBits data count)) := by
  obtain ⟨b, hword⟩ : ∃ b, (bs.prevStuffed <<< count) ||| (data &&& ((1#32 <<< count) - 1)) = b :=
    ⟨_, rfl⟩
  have hmask (i : ℕ) : ((1#32 <<< count) - 1).getLsbD i = decide (i < count) :=
    getLsbD_lowMask (by omega) i
  have hlow : msbBits b count = msbBits data count := by
    refine msbBits_congr fun i hi => ?_
    rw [← hword, BitVec.getLsbD_or, BitVec.getLsbD_shiftLeft, BitVec.getLsbD_and, hmask]
    simp [hi]
  have hhigh (i : ℕ) (hi : count + i < 32) : b.getLsbD (count + i) = bs.prevStuffed.getLsbD i := by
    have hlt : ¬count + i < count := by omega
    rw [← hword, BitVec.getLsbD_or, BitVec.getLsbD_shiftLeft, BitVec.getLsbD_and, hmask]
    simp [hlt, hi]
  have hsame := hb.sameRun (w := b) (p := count) fun i hi => hhigh i (by omega)
  obtain ⟨w, hw, hbits, habove⟩ := bitstuff_spec b hcount
  rw [hlow, ← stuffNow_congr hsame] at hw hbits habove
  obtain ⟨s, hs⟩ : ∃ s, stuffNow 5 (sent.reverse ++ [true]) (msbBits data count) = s := ⟨_, rfl⟩
  rw [hs] at hroom hw hbits habove ⊢
  have hle : count ≤ s.length := by
    have hle := length_le_stuffNow 5 (sent.reverse ++ [true]) (msbBits data count)
    rwa [length_msbBits, hs] at hle
  have hbound := length_stuffNow_le_of_any (show 2 ≤ 5 by omega) (sent.reverse ++ [true])
    (msbBits data count)
  rw [length_msbBits, hs] at hbound
  -- what the word has above the field is what was sent before
  have holder (i : ℕ) (hi : s.length + i < 32) :
      w.getLsbD (s.length + i) = (sent.reverse ++ [true]).getD i false := by
    rw [habove i hi, hhigh i (by omega), hb.prev_eq i (by omega)]
  obtain ⟨bs', hraw, hlength, hbitpos, -, hrow⟩ := bsPushraw_holds hb w s.length
    (by omega) (by rwa [List.length_append] at hroom) (by omega)
    fun i hi hset => by
      have hin : s.length + i < 32 := BitVec.lt_of_getLsbD hset
      rw [holder i hin, List.getD_append _ _ _ _ (by rwa [List.length_reverse])] at hset
      exact hset
  rw [hbits] at hbitpos hrow
  refine ⟨{ bs' with prevStuffed := w }, ?_, hlength, hbitpos, hrow, fun i hi => ?_⟩
  · simp only [bsPush, hword, hw, hraw, Option.bind_eq_bind, Option.bind_some]
    rfl
  · rw [List.reverse_append, List.append_assoc]
    by_cases hnew : i < s.length
    · rw [List.getD_append _ _ _ _ (by rwa [List.length_reverse]),
        List.getD_eq_getElem _ _ (by rwa [List.length_reverse]), List.getElem_reverse]
      have hbit := getD_msbBits w s.length (s.length - 1 - i)
      have hlt : s.length - 1 - i < s.length := by omega
      have hplace : s.length - 1 - (s.length - 1 - i) = i := by omega
      rw [hbits, hplace, decide_eq_true hlt, Bool.true_and, List.getD_eq_getElem _ _ hlt] at hbit
      exact hbit.symm
    · obtain ⟨j, rfl⟩ : ∃ j, i = s.length + j := ⟨i - s.length, by omega⟩
      rw [List.getD_append_right _ _ _ _ (by simp), List.length_reverse, Nat.add_sub_cancel_left]
      exact holder j hi

/-- A field is pushed behind the bits of a frame. -/
theorem bsPush_bits {bs : BitStuffer} {bits : List Bool} (hb : bs.Holds (stuffNow 5 [true] bits))
    (data : Word) (count : ℕ) (hpos : 0 < count) (hcount : count ≤ 20)
    (hroom : bits.length + count ≤ 128) :
    ∃ bs', bsPush bs data count = some bs' ∧
      bs'.Holds (stuffNow 5 [true] (bits ++ msbBits data count)) := by
  have hbound := length_stuffNow_le (show 2 ≤ 5 by omega) (h := [true]) (by decide) (by decide)
    (bits ++ msbBits data count)
  have hrun : runLength [true] = 1 := rfl
  rw [hrun, List.length_append, length_msbBits] at hbound
  rw [stuffNow_append] at hbound ⊢
  exact bsPush_holds hb data hpos hcount (by omega)

/-! ### The fields -/

/-- The lower half of a header: the low bits of the identifier, the kind and the length. -/
theorem msbBits_header (id mask : Word) (remote : Bool) (dlc : BitVec 4) {k : ℕ} (hk : k ≤ 13)
    (hmask : ∀ i, mask.getLsbD i = decide (i < k)) {w : Word}
    (hw : w = ((id &&& mask) <<< 7) ||| (dlc.setWidth 32 ||| if remote then 0x40 else 0)) :
    msbBits w (k + 7) = msbBits id k ++ remote :: false :: false :: msbBits dlc 4 ∧
      ∀ i, k + 7 ≤ i → w.getLsbD i = false := by
  have hremote (i : ℕ) : (if remote then 0x40 else 0 : Word).getLsbD i =
      (decide (i = 6) && remote) := by
    have hbit : (0x40 : Word).getLsbD i = decide (i = 6) :=
      getLsbD_one_shiftLeft (n := 32) (t := 6) (by omega) i
    cases remote
    · simp
    · rw [if_pos rfl, hbit, Bool.and_true]
  have hbit (i : ℕ) : w.getLsbD i = ((decide (i < 32) && !decide (i < 7) &&
      (id.getLsbD (i - 7) && decide (i - 7 < k))) ||
        (decide (i < 32) && dlc.getLsbD i || decide (i = 6) && remote)) := by
    rw [hw, BitVec.getLsbD_or, BitVec.getLsbD_or, BitVec.getLsbD_shiftLeft, BitVec.getLsbD_and,
      BitVec.getLsbD_setWidth, hremote, hmask]
  have hdlc (i : ℕ) (hi : 4 ≤ i) : dlc.getLsbD i = false := BitVec.getLsbD_of_ge dlc i hi
  constructor
  · have hid : msbBits (w >>> 7) k = msbBits id k := by
      refine msbBits_congr fun i hi => ?_
      have hin : 7 + i < 32 := by omega
      rw [BitVec.getLsbD_ushiftRight, hbit, Nat.add_sub_cancel_left, hdlc _ (by omega)]
      simp [hin, hi]
      omega
    have hlow : msbBits w 4 = msbBits dlc 4 := by
      refine msbBits_congr fun i hi => ?_
      have hin : i < 32 := by omega
      have hlt : i < 7 := by omega
      have hne : i ≠ 6 := by omega
      rw [hbit]
      simp [hin, hlt, hne]
    have hseven : msbBits w 7 = w.getLsbD 6 :: w.getLsbD 5 :: w.getLsbD 4 :: msbBits w 4 := rfl
    rw [msbBits_add, hid, hseven, hlow, hbit 6, hbit 5, hbit 4, hdlc 6 (by omega),
      hdlc 5 (by omega), hdlc 4 (by omega)]
    simp
  · intro i hi
    have hlt : ¬i - 7 < k := by omega
    have hne : i ≠ 6 := by omega
    rw [hbit, hdlc i (by omega)]
    simp [hlt, hne]

/-- The bits of a mask of one field. -/
theorem getLsbD_mask (w : Word) (lo hi : ℕ) (hhi : hi ≤ 32)
    (h : ∀ i < 32, w.getLsbD i = decide (lo ≤ i ∧ i < hi)) (i : ℕ) :
    w.getLsbD i = decide (lo ≤ i ∧ i < hi) := by
  by_cases hi32 : i < 32
  · exact h i hi32
  · have hout : ¬(lo ≤ i ∧ i < hi) := by omega
    rw [BitVec.getLsbD_of_ge w i (Nat.le_of_not_lt hi32), decide_eq_false hout]

/-- The upper half of an extended header. -/
theorem msbBits_header1 (id : Word) {w : Word}
    (hw : w = ((id &&& 0x1ffc0000) >>> 11) ||| 0x60#32 ||| ((id &&& 0x3e000) >>> 13)) :
    msbBits w 19 = false :: msbBits (id >>> 18) 11 ++ true :: true :: msbBits (id >>> 13) 5 ∧
      ∀ i, 18 ≤ i → w.getLsbD i = false := by
  have hhigh := getLsbD_mask 0x1ffc0000 18 29 (by omega) (by decide)
  have hkind := getLsbD_mask 0x60#32 5 7 (by omega) (by decide)
  have hlow := getLsbD_mask 0x3e000 13 18 (by omega) (by decide)
  have hbit (i : ℕ) : w.getLsbD i = ((id.getLsbD (11 + i) && decide (18 ≤ 11 + i ∧ 11 + i < 29) ||
      decide (5 ≤ i ∧ i < 7)) || id.getLsbD (13 + i) && decide (13 ≤ 13 + i ∧ 13 + i < 18)) := by
    rw [hw, BitVec.getLsbD_or, BitVec.getLsbD_or, BitVec.getLsbD_ushiftRight,
      BitVec.getLsbD_ushiftRight, BitVec.getLsbD_and, BitVec.getLsbD_and, hhigh, hkind, hlow]
  have hclear (i : ℕ) (hi : 18 ≤ i) : w.getLsbD i = false := by
    have h₁ : ¬(18 ≤ 11 + i ∧ 11 + i < 29) := by omega
    have h₂ : ¬(5 ≤ i ∧ i < 7) := by omega
    have h₃ : ¬(13 ≤ 13 + i ∧ 13 + i < 18) := by omega
    rw [hbit, decide_eq_false h₁, decide_eq_false h₂, decide_eq_false h₃]
    simp
  have hupper : msbBits (w >>> 7) 11 = msbBits (id >>> 18) 11 := by
    refine msbBits_congr fun i hi => ?_
    have h₁ : 18 ≤ 11 + (7 + i) ∧ 11 + (7 + i) < 29 := by omega
    have h₂ : ¬(5 ≤ 7 + i ∧ 7 + i < 7) := by omega
    have h₃ : ¬(13 ≤ 13 + (7 + i) ∧ 13 + (7 + i) < 18) := by omega
    rw [BitVec.getLsbD_ushiftRight, BitVec.getLsbD_ushiftRight, hbit, decide_eq_true h₁,
      decide_eq_false h₂, decide_eq_false h₃, ← Nat.add_assoc]
    simp
  have hlower : msbBits w 5 = msbBits (id >>> 13) 5 := by
    refine msbBits_congr fun i hi => ?_
    have h₁ : ¬(18 ≤ 11 + i ∧ 11 + i < 29) := by omega
    have h₂ : ¬(5 ≤ i ∧ i < 7) := by omega
    have h₃ : 13 ≤ 13 + i ∧ 13 + i < 18 := by omega
    rw [BitVec.getLsbD_ushiftRight, hbit, decide_eq_false h₁, decide_eq_false h₂,
      decide_eq_true h₃]
    simp
  have hseven : msbBits w 7 = w.getLsbD 6 :: w.getLsbD 5 :: msbBits w 5 := rfl
  have hsplit : msbBits w 19 = w.getLsbD 18 :: (msbBits (w >>> 7) 11 ++ msbBits w 7) := by
    rw [← msbBits_add]
    rfl
  refine ⟨?_, hclear⟩
  rw [hsplit, hclear 18 (le_refl 18), hupper, hseven, hlower, hbit 6, hbit 5]
  simp

/-! ### The whole frame -/

/-- The data bytes follow one by one. -/
theorem pushData_spec {bs : BitStuffer} {bits : List Bool} {crc : Word} {data : List Byte}
    (hb : bs.Holds (stuffNow 5 [true] bits)) (hcrc : crc.setWidth 15 = canCrc bits)
    (hroom : bits.length + 8 * data.length ≤ 128) :
    ∃ r, pushData bs crc data = some r ∧
      r.1.Holds (stuffNow 5 [true] (bits ++ data.flatMap (msbBits · 8))) ∧
      r.2.setWidth 15 = canCrc (bits ++ data.flatMap (msbBits · 8)) := by
  induction data generalizing bs bits crc with
  | nil =>
      rw [List.flatMap_nil, List.append_nil]
      exact ⟨(bs, crc), rfl, hb, hcrc⟩
  | cons v data ih =>
      rw [List.length_cons] at hroom
      have hbyte : msbBits (v.setWidth 32 : Word) 8 = msbBits v 8 := by
        refine msbBits_congr fun i hi => ?_
        have hin : i < 32 := by omega
        simp [hin]
      obtain ⟨bs', hpush, hb'⟩ := bsPush_bits hb (v.setWidth 32) 8 (by omega) (by omega)
        (by omega)
      rw [hbyte] at hb'
      have hcrc' : (crcByte crc (v.setWidth 32)).setWidth 15 = canCrc (bits ++ msbBits v 8) := by
        rw [crcByte_setWidth, hcrc, hbyte, canCrc, canCrc, DirectCrc.feed_append]
      obtain ⟨r, hr, hbits, hsum⟩ := ih hb' hcrc' (by
        rw [List.length_append, length_msbBits]
        omega)
      refine ⟨r, ?_, ?_, ?_⟩
      · rw [pushData]
        simp only [hpush, Option.bind_eq_bind, Option.bind_some, hr]
      · rwa [List.flatMap_cons, ← List.append_assoc]
      · rwa [List.flatMap_cons, ← List.append_assoc]

/-- The identifier bits of a frame's message. -/
theorem msbBits_msgOf_base {f : BusFrame} {id : BitVec 11} (hid : f.id = .base id) :
    msbBits (msgOf f).id 11 = msbBits id 11 := by
  refine msbBits_congr fun i hi => ?_
  have h30 : i ≠ 30 := by omega
  rw [getLsbD_msgOf_id, hid]
  simp [h30]

theorem getLsbD_msgOf_extended {f : BusFrame} {id : BitVec 29} (hid : f.id = .extended id) {i : ℕ}
    (hi : i < 29) : (msgOf f).id.getLsbD i = id.getLsbD i := by
  have h30 : i ≠ 30 := by omega
  have h31 : i ≠ 31 := by omega
  rw [getLsbD_msgOf_id, hid]
  simp [h30, h31]

/-- **The header goes out as the standard has it**, with its checksum. -/
theorem pushHeader_spec {bs : BitStuffer} (hb : bs.Holds []) (f : BusFrame) :
    ∃ r, pushHeader bs (msgOf f) = some r ∧ r.1.Holds (stuffNow 5 [true] f.header) ∧
      r.2.setWidth 15 = canCrc f.header := by
  have hlow11 (i : ℕ) : (0x7ff : Word).getLsbD i = decide (i < 11) :=
    getLsbD_lowMask (n := 32) (t := 11) (by omega) i
  have hlow13 (i : ℕ) : (0x1fff : Word).getLsbD i = decide (i < 13) :=
    getLsbD_lowMask (n := 32) (t := 13) (by omega) i
  have hdlc : (msgOf f).dlc = f.dlc.setWidth 32 := rfl
  have hedlc : (if (msgOf f).id &&& idRtr ≠ 0 then 0x40 else 0 : Word) =
      if f.remote then 0x40 else 0 := if_congr (msgOf_remote f) rfl rfl
  rw [pushHeader, hdlc, hedlc]
  cases hid : f.id with
  | base id =>
      have hshort : ¬(msgOf f).id &&& idEff ≠ 0 := by
        rw [msgOf_extended, hid]
        rintro ⟨_, h⟩
        cases h
      obtain ⟨hbits, hclear⟩ := msbBits_header (msgOf f).id 0x7ff f.remote f.dlc (k := 11)
        (by omega) hlow11 rfl
      obtain ⟨hdr, hhdr⟩ : ∃ hdr, (((msgOf f).id &&& 0x7ff) <<< 7) |||
          (f.dlc.setWidth 32 ||| if f.remote then 0x40 else 0) = hdr := ⟨_, rfl⟩
      rw [hhdr] at hbits hclear
      have hheader : msbBits hdr 19 = f.header := by
        have hfirst : msbBits hdr 19 = hdr.getLsbD 18 :: msbBits hdr (11 + 7) := rfl
        rw [hfirst, hclear 18 (le_refl 18), hbits, msbBits_msgOf_base hid, BusFrame.header, hid]
        simp
      obtain ⟨bs', hpush, hb'⟩ := @bsPush_bits _ [] hb hdr 19 (by omega)
        (by omega) (by simp)
      rw [List.nil_append, hheader] at hb'
      rw [if_neg hshort, hhdr]
      refine ⟨(bs', crcBytes 0 hdr 3), ?_, hb', ?_⟩
      · simp only [hpush, Option.bind_eq_bind, Option.bind_some]
        rfl
      · rw [← hheader]
        exact crcBytes_base fun i hi => hclear i (by omega)
  | extended id =>
      have hlong : (msgOf f).id &&& idEff ≠ 0 := (msgOf_extended f).mpr ⟨id, hid⟩
      obtain ⟨hbits1, hclear1⟩ := msbBits_header1 (msgOf f).id rfl
      obtain ⟨hbits2, hclear2⟩ := msbBits_header (msgOf f).id 0x1fff f.remote f.dlc (k := 13)
        (by omega) hlow13 rfl
      obtain ⟨h1, hh1⟩ : ∃ h1, (((msgOf f).id &&& 0x1ffc0000) >>> 11) ||| 0x60#32 |||
          (((msgOf f).id &&& 0x3e000) >>> 13) = h1 := ⟨_, rfl⟩
      obtain ⟨h2, hh2⟩ : ∃ h2, (((msgOf f).id &&& 0x1fff) <<< 7) |||
          (f.dlc.setWidth 32 ||| if f.remote then 0x40 else 0) = h2 := ⟨_, rfl⟩
      rw [hh1] at hbits1 hclear1
      rw [hh2] at hbits2 hclear2
      have hupper : msbBits ((msgOf f).id >>> 18) 11 = msbBits (id >>> 18) 11 := by
        refine msbBits_congr fun i hi => ?_
        rw [BitVec.getLsbD_ushiftRight, BitVec.getLsbD_ushiftRight,
          getLsbD_msgOf_extended hid (by omega)]
      have hlower : msbBits ((msgOf f).id >>> 13) 5 ++ msbBits (msgOf f).id 13 = msbBits id 18 := by
        rw [← msbBits_add]
        exact msbBits_congr fun i hi => getLsbD_msgOf_extended hid (by omega)
      have hheader : msbBits h1 19 ++ msbBits h2 20 = f.header := by
        have hsecond : msbBits h2 20 = msbBits h2 (13 + 7) := rfl
        rw [hbits1, hsecond, hbits2, hupper, BusFrame.header, hid]
        dsimp only
        rw [← hlower]
        simp
      obtain ⟨bs', hpush, hb'⟩ := @bsPush_bits _ [] hb h1 19 (by omega)
        (by omega) (by simp)
      obtain ⟨bs'', hpush', hb''⟩ := bsPush_bits hb' h2 20 (by omega) (by omega) (by simp)
      rw [List.nil_append, hheader] at hb''
      rw [if_pos hlong, hh1, hh2]
      refine ⟨(bs'', crcBytes (crcBytes 0 (h1 >>> 4) 2) (((h1 &&& 0x0f) <<< 20) ||| h2) 3), ?_,
        hb'', ?_⟩
      · simp only [hpush, hpush', Option.bind_eq_bind, Option.bind_some]
        rfl
      · rw [← hheader]
        exact crcBytes_extended (fun i hi => hclear1 i (by omega)) fun i hi => hclear2 i (by omega)

/-- An empty stuffer. -/
theorem holds_nil :
    BitStuffer.Holds { prevStuffed := 1, bitpos := 0, buf := List.replicate 5 0 } [] where
  length_buf := rfl
  bitpos_eq := rfl
  rowBit_eq p hp := by
    rw [rowBit, List.getD_replicate _ (by omega)]
    exact BitVec.getLsbD_zero
  prev_eq i hi := by
    have hone : (1 : Word).getLsbD i = decide (i = 0) :=
      getLsbD_one_shiftLeft (n := 32) (t := 0) (by omega) i
    rw [hone, List.reverse_nil, List.nil_append]
    cases i <;> rfl

/-- **The last word is filled up** with recessive bits. -/
theorem bsFinalize_spec {bs : BitStuffer} {sent : List Bool} (hlength : bs.buf.length = 5)
    (hbitpos : bs.bitpos = sent.length) (hrow : ∀ p < 160, rowBit bs.buf p = sent.getD p false)
    (hroom : sent.length ≤ 160) :
    (bsFinalize bs).1 ≤ 5 ∧ ∃ k < 32,
      ((bsFinalize bs).2.take (bsFinalize bs).1).flatMap (msbBits · 32) =
        sent ++ List.replicate k true := by
  obtain ⟨words, hwords⟩ : ∃ words, (sent.length + 31) / 32 = words := ⟨_, rfl⟩
  have hle : words ≤ 5 := by omega
  have hfinal : bsFinalize bs = (words, if words * 32 - sent.length = 0 then bs.buf else
      bs.buf.modify (words - 1) (· ||| ((1#32 <<< (words * 32 - sent.length)) - 1))) := by
    rw [bsFinalize, hbitpos, hwords]
  rw [hfinal]
  refine ⟨hle, words * 32 - sent.length, by omega, ?_⟩
  refine flatMap_msbBits_eq (by omega) ?_ fun p hp => ?_
  · split_ifs <;> simp [hlength, hle] <;> omega
  · rw [List.length_append, List.length_replicate] at hp
    rw [rowBit_take _ (by omega)]
    by_cases hextra : words * 32 - sent.length = 0
    · rw [if_pos hextra, hrow p (by omega), List.getD_append _ _ _ _ (by omega)]
    · have hlast : words - 1 < bs.buf.length := by omega
      have hmask : ((1#32 <<< (words * 32 - sent.length)) - 1).getLsbD (32 - 1 - p % 32) =
          decide (32 - 1 - p % 32 < words * 32 - sent.length) := getLsbD_lowMask (by omega) _
      rw [if_neg hextra, rowBit_modify _ _ hlast, hrow p (by omega), hmask,
        ← Bool.decide_and]
      by_cases hold : p < sent.length
      · have hout : ¬(p / 32 = words - 1 ∧ 32 - 1 - p % 32 < words * 32 - sent.length) := by omega
        rw [decide_eq_false hout, Bool.or_false, List.getD_append _ _ _ _ hold]
      · have hin : p / 32 = words - 1 ∧ 32 - 1 - p % 32 < words * 32 - sent.length := by omega
        rw [decide_eq_true hin, Bool.or_true, List.getD_append_right _ _ _ _ (by omega),
          List.getD_replicate _ (by omega)]

/-- **`can2040_transmit` writes the frame that the message asks for**: identifier, length and data
with their checksum, stuffed, up to the delimiter and then recessive. It never leaves the buffer. -/
theorem encode_wire (msg : CanbusMsg) :
    ∃ t, encode msg = some t ∧ t.msg = msgOf (frameOf msg) ∧
      t.crc = (canCrc (frameOf msg).bits).setWidth 32 ∧ t.stuffedWords ≤ 5 ∧
      ∃ k < 32, t.wire = (frameOf msg).line ++ List.replicate k true := by
  obtain ⟨f, hf⟩ : ∃ f, frameOf msg = f := ⟨_, rfl⟩
  have hqueued : queuedMsg msg = msgOf f := by rw [queuedMsg_eq, hf]
  have hdata : (msgOf f).data.take (dataLen (msgOf f).id (msgOf f).dlc) = f.data := by
    rw [dataLen_msgOf]
    exact List.take_left
  have hbytes : f.data.length ≤ 8 := by
    rw [f.length_data]
    split_ifs <;> omega
  have hheader : f.header.length ≤ 39 := by
    rw [BusFrame.header]
    cases f.id <;> simp
  obtain ⟨⟨bs, crc⟩, hpush, hb, hcrc⟩ := pushHeader_spec holds_nil f
  obtain ⟨⟨bs', crc'⟩, hpush', hb', hcrc'⟩ := @pushData_spec _ _ _ f.data hb hcrc (by omega)
  have hbits : f.header ++ f.data.flatMap (msbBits · 8) = f.bits := rfl
  rw [hbits] at hb' hcrc'
  have hlength : f.bits.length ≤ 103 := by
    rw [BusFrame.bits, List.length_append, length_flatMap_msbBits]
    omega
  -- the upper half of the checksum's word is cut off
  have hsum : crc' &&& 0x7fff = (canCrc f.bits).setWidth 32 := by
    have hmask (i : ℕ) : (0x7fff : Word).getLsbD i = decide (i < 15) :=
      getLsbD_lowMask (n := 32) (t := 15) (by omega) i
    rw [← hcrc']
    refine BitVec.eq_of_getLsbD_eq fun i hi => ?_
    rw [BitVec.getLsbD_and, hmask, BitVec.getLsbD_setWidth, BitVec.getLsbD_setWidth,
      decide_eq_true hi, Bool.true_and, Bool.and_comm]
  have hfield : msbBits ((canCrc f.bits).setWidth 32 : Word) 15 = msbBits (canCrc f.bits) 15 := by
    refine msbBits_congr fun i hi => ?_
    have hin : i < 32 := by omega
    rw [BitVec.getLsbD_setWidth, decide_eq_true hin, Bool.true_and]
  obtain ⟨bs₂, hpush₂, hb₂⟩ := bsPush_bits hb' ((canCrc f.bits).setWidth 32) 15
    (by omega) (by omega) (by omega)
  rw [hfield] at hb₂
  have hchecked : f.bits ++ msbBits (canCrc f.bits) 15 = f.checked := rfl
  rw [hchecked] at hb₂
  have hbound := length_stuffNow_le (show 2 ≤ 5 by omega) (h := [true]) (by decide) (by decide)
    f.checked
  have hrun : runLength [true] = 1 := rfl
  have hlength₂ : f.checked.length ≤ 118 := by
    rw [BusFrame.checked, List.length_append, length_msbBits]
    omega
  rw [hrun] at hbound
  have hone (i : ℕ) : (1 : Word).getLsbD i = decide (i = 0) :=
    getLsbD_one_shiftLeft (n := 32) (t := 0) (by omega) i
  obtain ⟨bs₃, hraw, hlength₃, hbitpos, -, hrow⟩ := bsPushraw_holds hb₂ 1 1
    (by omega) (by omega) (by omega) fun i _ hset => by
      rw [hone, decide_eq_true_eq] at hset
      omega
  have hdelimiter : msbBits (1 : Word) 1 = [true] := rfl
  rw [hdelimiter, ← f.line_eq] at hbitpos hrow
  have hline : f.line.length ≤ 160 := by
    rw [f.line_eq, List.length_append, List.length_singleton]
    omega
  obtain ⟨hwords, k, hk, hwire⟩ := bsFinalize_spec hlength₃ hbitpos hrow hline
  rw [hf]
  refine ⟨⟨msgOf f, (canCrc f.bits).setWidth 32, (bsFinalize bs₃).1, (bsFinalize bs₃).2⟩, ?_, rfl,
    rfl, hwords, k, hk, hwire⟩
  simp only [encode, hqueued, hpush, hdata, hpush', hsum, hpush₂, hraw, Option.bind_eq_bind,
    Option.bind_some]
  rfl

/-- **What goes on the line** for a message: its frame, in which no six bits in a row are equal, and
behind it the line is left recessive. The message that is compared with the echo is that of the frame,
and so is its checksum. -/
theorem encode_runs (msg : CanbusMsg) : ∃ t, encode msg = some t ∧ t.msg = msgOf (frameOf msg) ∧
    t.crc = (canCrc (frameOf msg).bits).setWidth 32 ∧ t.wire.length ≤ 160 ∧
    (∃ k < 32, t.wire = (frameOf msg).line ++ List.replicate k true) ∧
    ∀ b, ¬List.replicate 6 b <:+: (frameOf msg).line := by
  obtain ⟨t, hencode, hmsg, hcrc, hwords, hwire⟩ := encode_wire msg
  refine ⟨t, hencode, hmsg, hcrc, ?_, hwire, fun b => ?_⟩
  · have htake := List.length_take_le t.stuffedWords t.stuffedData
    rw [Transmit.wire, length_flatMap_msbBits]
    omega
  · exact not_replicate_infix_stuff (by omega) (by decide) _ b

end Terraboot.Can2040
