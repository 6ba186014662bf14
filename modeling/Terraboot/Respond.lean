import Terraboot.Frame

/-!
# Encoding Responses

`command_respond` and its wrappers (`command.c`). The word array a handler fills is kept
as its byte image; the result is the message passed to `console_sendf`.

## Main results

* `commandRespond_eq`: whatever the array holds, the message is the frame of its words
  between the first and the last.
* `commandRespondAck_eq`: with room for a payload, the first payload word of an
  acknowledgement is the acknowledged command; without room (`commandRespondAck_two`) the
  trailer takes its place.
-/

open LittleEndian

namespace Terraboot

/-- `command_respond`: the first `dataLen` words of the array, with header and trailer. -/
def commandRespond (data : List Byte) (cmdid : Word) (dataLen : ℕ) : List Byte :=
  let data := setWord data 0 ((BitVec.ofNat 32 (dataLen - 2) <<< 24) ||| (cmdid <<< 16) ||| 0x8801)
  let crc := crc16Ccitt ((data.drop 2).take ((dataLen - 2) * 4 + 2))
  let data := setWord data (dataLen - 1) ((0x0399 <<< 16) ||| crc.setWidth 32)
  data.take (dataLen * 4)

/-- `command_respond_ack` -/
def commandRespondAck (ackedCmd : Word) (out : List Byte) (outLen : ℕ) : List Byte :=
  commandRespond (setWord out 1 ackedCmd) responseAck outLen

/-- An uninitialised array of words; every response stores all of its words. -/
def wordArray (n : ℕ) : List Byte := List.replicate (4 * n) 0

/-- `command_respond_command_error` -/
def commandRespondCommandError : List Byte := commandRespond (wordArray 2) responseCommandError 2

/-- `command_respond_nack` -/
def commandRespondNack : List Byte := commandRespond (wordArray 2) responseNack 2

/-- `command_get_arg_count` -/
def commandGetArgCount (data : List Byte) : ℕ := (getWord data 0 >>> 24).toNat

/-- The number of words a byte string occupies, `DIV_ROUND_UP(len, 4)`. -/
def divRoundUp4 (len : ℕ) : ℕ := (len + 3) / 4

@[simp] theorem wordArray_length (n : ℕ) : (wordArray n).length = 4 * n :=
  List.length_replicate

@[simp] theorem setWord_wordArray_length {i n : ℕ} (h : i < n) (w : Word) :
    (setWord (wordArray n) i w).length = 4 * n := by
  rw [setWord_length w (by rw [wordArray_length]; omega), wordArray_length]

/-! ### Messages are frames -/

/-- The bytes of the header word. -/
theorem le32_header (n : ℕ) (c : Byte) :
    le32 ((BitVec.ofNat 32 n <<< 24) ||| (c.setWidth 32 <<< 16) ||| 0x8801) =
      [messageStx1, messageStx2, c, BitVec.ofNat 8 n] := by
  have hword : (BitVec.ofNat 32 n <<< 24) ||| (c.setWidth 32 <<< 16) ||| 0x8801 =
      ofLe32 [messageStx1, messageStx2, c, BitVec.ofNat 8 n] := by
    have hconst : (0x8801 : Word) = (messageStx2 ++ messageStx1).setWidth 32 := by decide
    rw [hconst]
    simp only [ofLe32, List.getD_cons_succ, List.getD_cons_zero]
    refine BitVec.eq_of_getLsbD_eq fun i hi => ?_
    simp only [BitVec.getLsbD_or, BitVec.getLsbD_shiftLeft, BitVec.getLsbD_setWidth,
      BitVec.getLsbD_append, BitVec.getLsbD_ofNat]
    grind
  rw [hword, le32_ofLe32]

/-- The bytes of the trailer word. -/
theorem le32_trailer (crc : BitVec 16) :
    le32 ((0x0399 <<< 16) ||| crc.setWidth 32) = le16 crc ++ [messageSync2, messageSync] := by
  have hword : (0x0399 <<< 16) ||| crc.setWidth 32 =
      ofLe32 [crc.extractLsb' 0 8, crc.extractLsb' 8 8, messageSync2, messageSync] := by
    have hconst : (0x0399 <<< 16 : Word) =
        (messageSync ++ messageSync2 : BitVec 16).setWidth 32 <<< 16 := by decide
    rw [hconst]
    simp only [ofLe32, List.getD_cons_succ, List.getD_cons_zero]
    refine BitVec.eq_of_getLsbD_eq fun i hi => ?_
    simp only [BitVec.getLsbD_or, BitVec.getLsbD_shiftLeft, BitVec.getLsbD_setWidth,
      BitVec.getLsbD_append, BitVec.getLsbD_extractLsb']
    grind
  rw [hword, le32_ofLe32]
  rfl

/-- An array cut into its first word, a middle part, one more word and the rest. -/
theorem exists_array_parts (data : List Byte) {m : ℕ} (h : 4 * m + 8 ≤ data.length) :
    ∃ hdr mid trl rest, data = hdr ++ mid ++ trl ++ rest ∧
      hdr.length = 4 ∧ mid.length = 4 * m ∧ trl.length = 4 := by
  refine ⟨data.take 4, (data.drop 4).take (4 * m), (data.drop (4 * m + 4)).take 4,
    data.drop (4 * m + 8), ?_, ?_, ?_, ?_⟩
  · have h₁ : data.drop (4 * m + 8) = (data.drop (4 * m + 4)).drop 4 := by
      rw [List.drop_drop]
    have h₂ : data.drop (4 * m + 4) = (data.drop 4).drop (4 * m) := by
      rw [List.drop_drop, Nat.add_comm]
    rw [h₁, List.append_assoc, List.take_append_drop, h₂, List.append_assoc,
      List.take_append_drop, List.take_append_drop]
  · rw [List.length_take]
    omega
  · rw [List.length_take, List.length_drop]
    omega
  · rw [List.length_take, List.length_drop]
    omega

/-- **A response is the frame of the words between the first and the last.** -/
theorem commandRespond_eq {data : List Byte} {n : ℕ} (c : Byte) (h2 : 2 ≤ n)
    (hn : 4 * n ≤ data.length) :
    commandRespond data (c.setWidth 32) n = frame c ((data.drop 4).take (4 * (n - 2))) := by
  obtain ⟨m, rfl⟩ : ∃ m, n = m + 2 := ⟨n - 2, by omega⟩
  obtain ⟨hdr, mid, trl, rest, rfl, hhdr, hmid, htrl⟩ := exists_array_parts _ hn
  have hcount : BitVec.ofNat 8 m = wordCount mid := by
    rw [wordCount, hmid, Nat.mul_div_cancel_left _ (by omega)]
  have hpay : ((hdr ++ mid ++ trl ++ rest).drop 4).take (4 * (m + 2 - 2)) = mid := by
    rw [Nat.add_sub_cancel, List.append_assoc, List.append_assoc, List.drop_left' hhdr,
      List.take_left' hmid]
  -- the array once the header word is stored
  have hstore : ∀ w, setWord (hdr ++ mid ++ trl ++ rest) 0 w = le32 w ++ mid ++ trl ++ rest := by
    intro w
    have := overwrite_append [] hdr (mid ++ trl ++ rest) (le32 w) (by rw [hhdr, le32_length])
    simpa [setWord] using this
  have hstore' : ∀ hd w, hd.length = 4 →
      setWord (hd ++ mid ++ trl ++ rest) (m + 2 - 1) w = hd ++ mid ++ le32 w ++ rest := by
    intro hd w hhd
    have := overwrite_append (hd ++ mid) trl rest (le32 w) (by rw [htrl, le32_length])
    rwa [List.length_append, hhd, hmid, show 4 + 4 * m = 4 * (m + 2 - 1) by omega] at this
  rw [hpay, commandRespond, hstore, Nat.add_sub_cancel, le32_header, hcount,
    hstore' _ _ rfl, le32_trailer]
  have hcrc : (([messageStx1, messageStx2, c, wordCount mid] ++ mid ++ trl ++ rest).drop 2).take
      (m * 4 + 2) = c :: wordCount mid :: mid := by
    rw [show m * 4 + 2 = mid.length + 2 by omega]
    simp
  rw [hcrc, frame, List.take_append_of_le_length, List.take_of_length_le]
  · simp
  · simp [hmid]
    omega
  · simp [hmid]
    omega

/-- **An acknowledgement with room for a payload** names the acknowledged command in its
first payload word. -/
theorem commandRespondAck_eq {out : List Byte} {n : ℕ} (cmd : Word) (h3 : 3 ≤ n)
    (hn : 4 * n ≤ out.length) :
    commandRespondAck cmd out n = frame 0xa0 (le32 cmd ++ (out.drop 8).take (4 * (n - 3))) := by
  obtain ⟨hdr, mid, trl, rest, rfl, hhdr, hmid, htrl⟩ :=
    exists_array_parts out (m := 0) (by omega)
  obtain rfl := List.eq_nil_of_length_eq_zero hmid
  rw [List.append_nil] at hn ⊢
  have hstore : setWord (hdr ++ trl ++ rest) 1 cmd = hdr ++ le32 cmd ++ rest := by
    have := overwrite_append hdr trl rest (le32 cmd) (by rw [htrl, le32_length])
    rwa [hhdr] at this
  have hresp : responseAck = (0xa0 : Byte).setWidth 32 := by decide
  rw [commandRespondAck, hstore, hresp, commandRespond_eq 0xa0 (by omega)
    (by simp only [List.length_append, le32_length] at hn ⊢; omega)]
  congr 1
  have hdrop : (hdr ++ trl ++ rest).drop 8 = rest := by
    rw [List.drop_left' (by rw [List.length_append]; omega)]
  rw [hdrop, List.append_assoc, List.drop_left' hhdr, List.take_append, le32_length,
    List.take_of_length_le (by rw [le32_length]; omega)]
  congr 2
  omega

/-- **An acknowledgement without room for a payload** loses the acknowledged command to the
trailer. -/
theorem commandRespondAck_two {out : List Byte} (cmd : Word) (hn : 8 ≤ out.length) :
    commandRespondAck cmd out 2 = frame 0xa0 [] := by
  have hresp : responseAck = (0xa0 : Byte).setWidth 32 := by decide
  rw [commandRespondAck, hresp, commandRespond_eq 0xa0 le_rfl
    (by rw [setWord_length cmd (by omega)]; exact hn)]
  rfl

theorem commandRespondCommandError_eq : commandRespondCommandError = frame 0xf2 [] := by
  decide

theorem commandRespondNack_eq : commandRespondNack = frame 0xf1 [] := by
  decide

end Terraboot
