import Mathlib.Data.List.GetD
import Terraboot.LittleEndian
import Terraboot.StreamScanner

/-!
# Frames

The wire format shared by every transport (`command.h`, `protocol.md`):

`<0x01 0x88> <command> <payload word count> <payload> <crc> <0x99 0x03>`

The checksum is the byte-wise CRC16-CCITT of `generic/crc16_ccitt.c` over the command
byte, the count and the payload, stored low byte first. `frame` builds the bytes of a
frame; `blockClassifier` decides what the front of a receive stream holds and thereby
fixes the decomposition of the stream into frames that the receivers are compared with.

## Main results

* `blockVerdict_accept_iff`: the classifier accepts exactly the frames of at most
  `messageMax` bytes.
* `blockClassifier_dead`: no frame starts at a byte other than `0x01`.
-/

open LittleEndian StreamScanner

namespace Terraboot

/-- `uint8_t` -/
abbrev Byte := BitVec 8

/-- `uint32_t` -/
abbrev Word := BitVec 32

/-! ### Constants of `command.h` -/

def protoVersion : Word := 0x00010100
def cmdConnect : Word := 0x11
def cmdRxBlock : Word := 0x12
def cmdRxEof : Word := 0x13
def cmdReqBlock : Word := 0x14
def cmdComplete : Word := 0x15
def cmdGetCanbusId : Word := 0x16
def cmdIdentify : Word := 0x17
def responseAck : Word := 0xa0
def responseNack : Word := 0xf1
def responseCommandError : Word := 0xf2

def messageMin : ℕ := 8
def messageMax : ℕ := 128
def messageTrailerSize : ℕ := 4
def messagePosStx1 : ℕ := 0
def messagePosStx2 : ℕ := 1
def messagePosLen : ℕ := 3
def messageTrailerCrc : ℕ := 4
def messageTrailerSync2 : ℕ := 2
def messageTrailerSync : ℕ := 1
def messageStx1 : Byte := 0x01
def messageStx2 : Byte := 0x88
def messageSync2 : Byte := 0x99
def messageSync : Byte := 0x03

/-! ### The checksum -/

/-- The loop body of `crc16_ccitt`. The intermediate `data` is an 8-bit variable, so its
self-shift is truncated; the last shift happens in 16 bits and loses nothing. -/
def crc16Step (crc : BitVec 16) (b : Byte) : BitVec 16 :=
  let data := b ^^^ crc.setWidth 8
  let data := data ^^^ (data <<< 4)
  (((data.setWidth 16 <<< 8) ||| (crc >>> 8)) ^^^ (data >>> 4).setWidth 16)
    ^^^ (data.setWidth 16 <<< 3)

/-- `crc16_ccitt` -/
def crc16Ccitt (buf : List Byte) : BitVec 16 := buf.foldl crc16Step 0xffff

/-- The two responses `protocol.md` spells out, checksum included. -/
example : crc16Ccitt [0xf1, 0x00] = 0x9568 ∧ crc16Ccitt [0xf2, 0x00] = 0xbf00 := by decide

/-! ### Frames -/

/-- The word count of a payload as it stands in the length byte. -/
def wordCount (payload : List Byte) : Byte := BitVec.ofNat 8 (payload.length / 4)

/-- The bytes of a frame. -/
def frame (cmd : Byte) (payload : List Byte) : List Byte :=
  [messageStx1, messageStx2, cmd, wordCount payload] ++ payload
    ++ le16 (crc16Ccitt (cmd :: wordCount payload :: payload)) ++ [messageSync2, messageSync]

/-- `f` is a **well-formed frame** with the given command byte and payload: the payload
is a whole number of words that the length byte can express. -/
structure IsFrame (cmd : Byte) (payload f : List Byte) : Prop where
  aligned : payload.length % 4 = 0
  counted : payload.length / 4 < 256
  bytes : f = frame cmd payload

@[simp] theorem frame_length (cmd : Byte) (payload : List Byte) :
    (frame cmd payload).length = payload.length + 8 := by
  simp [frame]

theorem IsFrame.length_eq {cmd : Byte} {payload f : List Byte} (h : IsFrame cmd payload f) :
    f.length = payload.length + 8 := by
  rw [h.bytes, frame_length]

/-! ### What the front of a receive stream holds -/

/-- The decision about the first position of a receive stream. Nothing is decided before
`messageMin` bytes are there, and a header that announces an admissible length waits for
all the bytes it announces. -/
def blockVerdict (w : List Byte) : Verdict :=
  let n := (w.getD 3 0).toNat
  if w.length < messageMin then .undecided
  else if w.take 2 ≠ [messageStx1, messageStx2] ∨ messageMax < 4 * n + 8 then .reject
  else if w.length < 4 * n + 8 then .undecided
  else if w.take (4 * n + 8) = frame (w.getD 2 0) ((w.drop 4).take (4 * n)) then
    .accept (4 * n + 8)
  else .reject

theorem blockVerdict_stable (w v : List Byte) (h : blockVerdict w ≠ .undecided) :
    blockVerdict (w ++ v) = blockVerdict w := by
  unfold blockVerdict at h ⊢
  dsimp only at h ⊢
  have hlen : messageMin ≤ w.length := by
    by_contra hc
    rw [if_pos (by omega)] at h
    exact h rfl
  have h8 : 8 ≤ w.length := hlen
  have hlen' : ¬ (w ++ v).length < messageMin := by
    rw [List.length_append]
    omega
  have h3 : (w ++ v).getD 3 0 = w.getD 3 0 := List.getD_append _ _ _ _ (by omega)
  have h2 : (w ++ v).getD 2 0 = w.getD 2 0 := List.getD_append _ _ _ _ (by omega)
  have ht : (w ++ v).take 2 = w.take 2 := List.take_append_of_le_length (by omega)
  rw [if_neg (by omega)] at h
  rw [if_neg hlen', if_neg (show ¬ w.length < messageMin by omega), h3, h2, ht]
  by_cases hhdr : w.take 2 ≠ [messageStx1, messageStx2] ∨
      messageMax < 4 * (w.getD 3 0).toNat + 8
  · rw [if_pos hhdr, if_pos hhdr]
  · rw [if_neg hhdr] at h
    have hall : ¬ w.length < 4 * (w.getD 3 0).toNat + 8 := by
      intro hc
      rw [if_pos hc] at h
      exact h rfl
    have hall' : ¬ (w ++ v).length < 4 * (w.getD 3 0).toNat + 8 := by
      rw [List.length_append]
      omega
    rw [if_neg hhdr, if_neg hhdr, if_neg hall', if_neg hall,
      List.take_append_of_le_length (by omega), List.drop_append_of_le_length (by omega),
      List.take_append_of_le_length (by rw [List.length_drop]; omega)]

/-- Where at least `messageMin` bytes leave the decision open, a header stands in front. -/
theorem blockVerdict_undecided_head {w : List Byte} (h : blockVerdict w = .undecided)
    (hlen : messageMin ≤ w.length) : ∃ r, w = messageStx1 :: r := by
  rw [blockVerdict, if_neg (not_lt.mpr hlen)] at h
  by_cases hstx : w.take 2 = [messageStx1, messageStx2]
  · obtain ⟨b, r, rfl⟩ : ∃ b r, w = b :: r := by
      cases w with
      | nil => simp at hstx
      | cons b r => exact ⟨b, r, rfl⟩
    rw [List.take_succ_cons, List.cons_eq_cons] at hstx
    exact ⟨r, by rw [hstx.1]⟩
  · rw [if_pos (.inl hstx)] at h
    exact absurd h nofun

/-- An open decision waits for fewer bytes than the longest message has. -/
theorem blockVerdict_undecided_length {w : List Byte} (h : blockVerdict w = .undecided) :
    w.length < messageMax := by
  unfold blockVerdict at h
  dsimp only at h
  split_ifs at h with hmin hhdr hall
  · exact lt_of_lt_of_le hmin (by decide)
  · rw [not_or, not_lt] at hhdr
    omega

/-- What an accepting decision was based on. -/
theorem blockVerdict_accept {w : List Byte} {k : ℕ} (h : blockVerdict w = .accept k) :
    k = 4 * (w.getD 3 0).toNat + 8 ∧ k ≤ messageMax ∧ k ≤ w.length ∧
      w.take k = frame (w.getD 2 0) ((w.drop 4).take (4 * (w.getD 3 0).toNat)) := by
  unfold blockVerdict at h
  dsimp only at h
  split_ifs at h with h1 h2 h3 h4
  rw [Verdict.accept.injEq] at h
  subst h
  rw [not_or, not_lt] at h2
  exact ⟨rfl, h2.2, by omega, h4⟩

/-- The **block classifier** of the receive streams. -/
def blockClassifier : Classifier Byte where
  classify := blockVerdict
  stable := blockVerdict_stable
  nil_undecided := rfl
  accept_pos w n h := by
    have := (blockVerdict_accept h).1
    omega
  accept_le w n h := (blockVerdict_accept h).2.2.1

@[simp] theorem blockClassifier_classify (w : List Byte) :
    blockClassifier.classify w = blockVerdict w := rfl

/-- **The classifier accepts exactly the frames of at most `messageMax` bytes.** -/
theorem blockVerdict_accept_iff (w : List Byte) (k : ℕ) :
    blockVerdict w = .accept k ↔
      k ≤ messageMax ∧ ∃ cmd payload f r, IsFrame cmd payload f ∧ w = f ++ r ∧ f.length = k := by
  constructor
  · intro h
    obtain ⟨hk, hmax, hle, hf⟩ := blockVerdict_accept h
    have hp : ((w.drop 4).take (4 * (w.getD 3 0).toNat)).length = 4 * (w.getD 3 0).toNat := by
      rw [List.length_take, List.length_drop]
      omega
    have hlt := (w.getD 3 0).isLt
    refine ⟨hmax, _, _, w.take k, w.drop k, ⟨?_, ?_, hf⟩, (List.take_append_drop k w).symm, ?_⟩
    · rw [hp]
      omega
    · rw [hp]
      omega
    · rw [List.length_take]
      omega
  · rintro ⟨hmax, cmd, payload, f, r, ⟨hal, hcnt, rfl⟩, rfl, hlen⟩
    have hmax' : k ≤ 128 := hmax
    rw [frame_length] at hlen
    obtain ⟨n, hn⟩ : ∃ n, payload.length = 4 * n := ⟨payload.length / 4, by omega⟩
    have hcount : (wordCount payload).toNat = n := by
      rw [wordCount, BitVec.toNat_ofNat, hn]
      omega
    have h2 : (frame cmd payload ++ r).getD 2 0 = cmd := rfl
    have h3 : (frame cmd payload ++ r).getD 3 0 = wordCount payload := rfl
    have hd : ((frame cmd payload ++ r).drop 4).take (4 * n) = payload := by
      simp [frame, ← hn]
    have htake : (frame cmd payload ++ r).take (4 * n + 8) = frame cmd payload := by
      rw [List.take_append_of_le_length (by rw [frame_length]; omega),
        List.take_of_length_le (by rw [frame_length]; omega)]
    have hl : (frame cmd payload ++ r).length = 4 * n + 8 + r.length := by
      rw [List.length_append, frame_length, hn]
    unfold blockVerdict
    dsimp only
    rw [h3, hcount, h2, hd, htake, if_pos rfl, if_neg, if_neg, if_neg]
    · congr 1
      omega
    · omega
    · rintro (hne | hc)
      · exact hne rfl
      · have : 128 < 4 * n + 8 := hc
        omega
    · rw [hl]
      show ¬ _ < 8
      omega

/-- The bytes other than the first header byte. -/
def notStx1 (b : Byte) : Bool := b != messageStx1

/-- **No frame starts at a byte other than `0x01`**, and where fewer than `messageMin`
bytes leave the decision open there is no room for one behind it either. -/
theorem blockClassifier_dead : blockClassifier.Dead notStx1 := by
  intro x w hx
  rw [blockClassifier_classify, blockClassifier_classify]
  have hne : x ≠ messageStx1 := by simpa [notStx1] using hx
  by_cases hlen : (x :: w).length < messageMin
  · right
    have hw : w.length < messageMin := by
      rw [List.length_cons] at hlen
      omega
    exact ⟨by rw [blockVerdict]; exact if_pos hlen, by rw [blockVerdict]; exact if_pos hw⟩
  · left
    rw [blockVerdict, if_neg hlen, if_pos]
    left
    intro hc
    cases w with
    | nil => simp at hc
    | cons y w =>
        simp only [List.take_succ_cons, List.take_zero, List.cons.injEq] at hc
        exact hne hc.1

end Terraboot
