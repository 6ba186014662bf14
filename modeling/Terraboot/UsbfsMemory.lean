import Mathlib.Data.List.Range
import Mathlib.Data.Nat.Bitwise
import Mathlib.Tactic.FinCases
import Terraboot.Frame

/-!
# The packet memory of the stm32 USB device

`stm32/usbfs.c` keeps the packets in a memory that is accessed by words. A word holds two bytes or
four, depending on the chip. In front are the descriptors of the endpoints, two for each, which say
where a buffer is and how many bytes are in it, and behind them the buffers, a word longer than the
longest packet.

## Main results

* `readWords_eq`, `bytesAt_writeWords`: the loops over whole words, as bytes.
* `btableReadPacket_eq`: what is read is the front of the buffer.
* `btable_exact`: over every run of packets, the last packet for each buffer is in it.
-/

namespace Terraboot.Usbfs

/-- `WSIZE` -/
inductive WSize
  | two
  | four
  deriving DecidableEq

def WSize.bytes : WSize → ℕ
  | .two => 2
  | .four => 4

/-- The packet memory, by words. -/
abbrev Epm := ℕ → Word

/-- A packet. -/
abbrev Packet := { p : List Byte // p.length ≤ 64 }

def epmEpDesc (w : WSize) (ep : Fin 4) (bufnum : Fin 2) : ℕ := (ep * 2 + bufnum) * (4 / w.bytes)

def epmBufOffset : ℕ := 0x10

def epmEpBufSize (w : WSize) : ℕ := 64 / w.bytes + 1

def epmEpBuf (w : WSize) (ep : Fin 4) (bufnum : Fin 2) : ℕ :=
  epmBufOffset + (ep * 2 + bufnum) * epmEpBufSize w

/-- The address of a buffer as a descriptor gives it, in bytes. -/
def bufAddr (w : WSize) (ep : Fin 4) (bufnum : Fin 2) : Word :=
  BitVec.ofNat 32 (epmEpBuf w ep bufnum * w.bytes)

/-- `epm_get_ep_count_rx` -/
def epmGetEpCountRx (w : WSize) (epm : Epm) (ep : Fin 4) (bufnum : Fin 2) : ℕ :=
  let desc := epmEpDesc w ep bufnum
  match w with
  | .two => (epm (desc + 1) &&& 0x3ff).toNat
  | .four => (epm desc >>> 16 &&& 0x3ff).toNat

/-- `epm_set_ep_count_tx` -/
def epmSetEpCountTx (w : WSize) (epm : Epm) (ep : Fin 4) (bufnum : Fin 2) (count : ℕ) : Epm :=
  let desc := epmEpDesc w ep bufnum
  match w with
  | .two => Function.update epm (desc + 1) (BitVec.ofNat 32 count)
  | .four => Function.update epm desc (bufAddr w ep bufnum ||| BitVec.ofNat 32 count <<< 16)

/-- The address in a descriptor. -/
def descAddr (w : WSize) (epm : Epm) (ep : Fin 4) (bufnum : Fin 2) : Word :=
  match w with
  | .two => epm (epmEpDesc w ep bufnum)
  | .four => epm (epmEpDesc w ep bufnum) &&& 0xffff

/-- `d >> 8 * j`, stored as a byte -/
def wordByte (d : Word) (j : ℕ) : Byte := (d >>> (8 * j)).setWidth 8

/-- `b << 8 * j` -/
def shiftByte (b : Byte) (j : ℕ) : Word := b.setWidth 32 <<< (8 * j)

/-- The word that `btable_write_packet` makes of the next bytes. -/
def packWord (w : WSize) (src : List Byte) : Word :=
  let b3 := match w with | .two => 0 | .four => src.getD 2 0
  let b4 := match w with | .two => 0 | .four => src.getD 3 0
  shiftByte (src.getD 0 0) 0 ||| shiftByte (src.getD 1 0) 1 ||| shiftByte b3 2 ||| shiftByte b4 3

/-- The word that it makes of the last bytes, fewer than a word has. -/
def restWord (rest : ℕ) (src : List Byte) : Word :=
  let d := shiftByte (src.getD 0 0) 0
  let d := if 1 < rest then d ||| shiftByte (src.getD 1 0) 1 else d
  if 2 < rest then d ||| shiftByte (src.getD 2 0) 2 else d

/-- Its loop over whole words. -/
def writeWords (w : WSize) : ℕ → Epm → ℕ → List Byte → Epm
  | 0, epm, _, _ => epm
  | n + 1, epm, dest, src =>
      writeWords w n (Function.update epm dest (packWord w src)) (dest + 1) (src.drop w.bytes)

/-- `btable_write_packet`, up to the call of `epm_set_ep_count_tx` -/
def writeBuffer (w : WSize) (epm : Epm) (dest : ℕ) (src : List Byte) : Epm :=
  let n := src.length / w.bytes
  let rest := src.length &&& (w.bytes - 1)
  let epm := writeWords w n epm dest src
  if rest ≠ 0 then Function.update epm (dest + n) (restWord rest (src.drop (n * w.bytes))) else epm

/-- `btable_write_packet` -/
def btableWritePacket (w : WSize) (epm : Epm) (ep : Fin 4) (bufnum : Fin 2) (src : List Byte) :
    Epm :=
  epmSetEpCountTx w (writeBuffer w epm (epmEpBuf w ep bufnum) src) ep bufnum src.length

/-- The bytes that `btable_read_packet` makes of a word. -/
def wordBytes (w : WSize) (d : Word) : List Byte :=
  match w with
  | .two => [wordByte d 0, wordByte d 1]
  | .four => [wordByte d 0, wordByte d 1, wordByte d 2, wordByte d 3]

/-- The bytes that it makes of the last word. -/
def restBytes (rest : ℕ) (d : Word) : List Byte :=
  wordByte d 0 :: ((if 1 < rest then [wordByte d 1] else []) ++
    if 2 < rest then [wordByte d 2] else [])

/-- Its loop over whole words. -/
def readWords (w : WSize) : ℕ → Epm → ℕ → List Byte
  | 0, _, _ => []
  | n + 1, epm, src => wordBytes w (epm src) ++ readWords w n epm (src + 1)

/-- `btable_read_packet` -/
def btableReadPacket (w : WSize) (epm : Epm) (ep : Fin 4) (bufnum : Fin 2) (maxLen : ℕ) :
    List Byte :=
  let src := epmEpBuf w ep bufnum
  let count := epmGetEpCountRx w epm ep bufnum
  let count := if maxLen < count then maxLen else count
  let n := count / w.bytes
  let rest := count &&& (w.bytes - 1)
  readWords w n epm src ++ if rest ≠ 0 then restBytes rest (epm (src + n)) else []

/-! ### Bytes of the memory -/

/-- The byte `k` behind a word, as the hardware counts. -/
def byteAt (w : WSize) (epm : Epm) (addr k : ℕ) : Byte :=
  wordByte (epm (addr + k / w.bytes)) (k % w.bytes)

/-- The first bytes behind a word. -/
def bytesAt (w : WSize) (epm : Epm) (addr n : ℕ) : List Byte :=
  (List.range n).map (byteAt w epm addr)

theorem WSize.bytes_pos (w : WSize) : 0 < w.bytes := by cases w <;> decide

theorem and_bytes (w : WSize) (n : ℕ) : n &&& (w.bytes - 1) = n % w.bytes := by
  cases w with
  | two => exact Nat.and_two_pow_sub_one_eq_mod n 1
  | four => exact Nat.and_two_pow_sub_one_eq_mod n 2

/-- Whole words in front. -/
theorem bytesAt_add (w : WSize) (epm : Epm) (addr n r : ℕ) :
    bytesAt w epm addr (n * w.bytes + r) =
      bytesAt w epm addr (n * w.bytes) ++ bytesAt w epm (addr + n) r := by
  rw [bytesAt, List.range_add, List.map_append, List.map_map, bytesAt, bytesAt]
  congr 1
  refine List.map_congr_left fun k _ => ?_
  have hdiv : (n * w.bytes + k) / w.bytes = n + k / w.bytes := by
    rw [Nat.mul_comm, Nat.mul_add_div w.bytes_pos]
  have hmod : (n * w.bytes + k) % w.bytes = k % w.bytes := by
    rw [Nat.mul_comm, Nat.mul_add_mod]
  rw [Function.comp_apply, byteAt, byteAt, hdiv, hmod, Nat.add_assoc]

/-- Bytes of one word. -/
theorem bytesAt_of_le (w : WSize) (epm : Epm) (addr : ℕ) {r : ℕ} (hr : r ≤ w.bytes) :
    bytesAt w epm addr r = (List.range r).map (wordByte (epm addr)) := by
  refine List.map_congr_left fun k hk => ?_
  have hlt : k < w.bytes := (List.mem_range.mp hk).trans_le hr
  rw [byteAt, Nat.div_eq_of_lt hlt, Nat.mod_eq_of_lt hlt, Nat.add_zero]

theorem bytesAt_word (w : WSize) (epm : Epm) (addr : ℕ) :
    bytesAt w epm addr w.bytes = wordBytes w (epm addr) := by
  rw [bytesAt_of_le w epm addr le_rfl]
  cases w <;> rfl

/-- Only the words that hold the bytes matter. -/
theorem bytesAt_congr (w : WSize) {epm epm' : Epm} {addr n : ℕ}
    (h : ∀ a, addr ≤ a → a * w.bytes < addr * w.bytes + n → epm' a = epm a) :
    bytesAt w epm' addr n = bytesAt w epm addr n := by
  refine List.map_congr_left fun k hk => ?_
  have hlt := List.mem_range.mp hk
  have hle := Nat.div_mul_le_self k w.bytes
  rw [byteAt, byteAt, h _ (Nat.le_add_right _ _) (by rw [Nat.add_mul]; omega)]

/-! ### Reading -/

theorem readWords_eq (w : WSize) (epm : Epm) (n src : ℕ) :
    readWords w n epm src = bytesAt w epm src (n * w.bytes) := by
  induction n generalizing src with
  | zero => rw [readWords, Nat.zero_mul]; rfl
  | succ n ih =>
      have hfirst := bytesAt_add w epm src 1 (n * w.bytes)
      rw [Nat.one_mul, bytesAt_word] at hfirst
      rw [readWords, ih, ← hfirst, Nat.succ_mul, Nat.add_comm]

theorem restBytes_eq {rest : ℕ} (d : Word) (hpos : rest ≠ 0) (hlt : rest < 4) :
    restBytes rest d = (List.range rest).map (wordByte d) := by
  obtain rfl | rfl | rfl : rest = 1 ∨ rest = 2 ∨ rest = 3 := by omega
  all_goals rfl

/-- **What is read is the front of the buffer**, up to the count in the descriptor or the room. -/
theorem btableReadPacket_eq (w : WSize) (epm : Epm) (ep : Fin 4) (bufnum : Fin 2) (maxLen : ℕ) :
    btableReadPacket w epm ep bufnum maxLen =
      bytesAt w epm (epmEpBuf w ep bufnum) (min (epmGetEpCountRx w epm ep bufnum) maxLen) := by
  have hmin : (if maxLen < epmGetEpCountRx w epm ep bufnum then maxLen
      else epmGetEpCountRx w epm ep bufnum) = min (epmGetEpCountRx w epm ep bufnum) maxLen := by
    split_ifs <;> omega
  rw [btableReadPacket]
  simp only [hmin, and_bytes]
  obtain ⟨count, hcount⟩ : ∃ c, min (epmGetEpCountRx w epm ep bufnum) maxLen = c := ⟨_, rfl⟩
  rw [hcount, readWords_eq]
  have hsplit := bytesAt_add w epm (epmEpBuf w ep bufnum) (count / w.bytes) (count % w.bytes)
  rw [Nat.div_add_mod' count w.bytes] at hsplit
  have hrest : count % w.bytes < w.bytes := Nat.mod_lt _ w.bytes_pos
  have hfour : w.bytes ≤ 4 := by cases w <;> decide
  rw [hsplit, bytesAt_of_le w epm _ hrest.le]
  split_ifs with hzero
  · rw [restBytes_eq _ hzero (hrest.trans_le hfour)]
  · rw [not_not.mp hzero]
    rfl

/-! ### Writing -/

theorem wordByte_or (d e : Word) (j : ℕ) : wordByte (d ||| e) j = wordByte d j ||| wordByte e j := by
  rw [wordByte, BitVec.ushiftRight_or_distrib, BitVec.setWidth_or]
  rfl

theorem wordByte_shiftByte (b : Byte) {j k : ℕ} (hk : k < 4) :
    wordByte (shiftByte b j) k = if j = k then b else 0 := by
  refine BitVec.eq_of_getLsbD_eq fun i hi => ?_
  simp only [wordByte, shiftByte, BitVec.getLsbD_setWidth, BitVec.getLsbD_ushiftRight,
    BitVec.getLsbD_shiftLeft]
  rcases Nat.lt_trichotomy j k with hlt | rfl | hgt
  · have hhigh : b.getLsbD (8 * k + i - 8 * j) = false :=
      BitVec.getLsbD_of_ge _ _ (by omega)
    simp [hhigh, Nat.ne_of_lt hlt]
  · have hlow : 8 * j + i < 32 := by omega
    have hbyte : i < 32 := by omega
    have hpast : ¬8 * j + i < 8 * j := by omega
    simp [hi, hlow, hbyte, hpast]
  · have hlow : 8 * k + i < 8 * j := by omega
    simp [hlow, Nat.ne_of_gt hgt]

/-- The bytes of a packed word are those that were packed. -/
theorem wordBytes_packWord (w : WSize) {src : List Byte} (hsrc : w.bytes ≤ src.length) :
    wordBytes w (packWord w src) = src.take w.bytes := by
  cases w with
  | two =>
      obtain _ | ⟨a, _ | ⟨b, rest⟩⟩ := src
      · simp [WSize.bytes] at hsrc
      · simp [WSize.bytes] at hsrc
      · simp [wordBytes, packWord, wordByte_or, wordByte_shiftByte, WSize.bytes]
  | four =>
      obtain _ | ⟨a, _ | ⟨b, _ | ⟨c, _ | ⟨d, rest⟩⟩⟩⟩ := src
      · simp [WSize.bytes] at hsrc
      · simp [WSize.bytes] at hsrc
      · simp [WSize.bytes] at hsrc
      · simp [WSize.bytes] at hsrc
      · simp [wordBytes, packWord, wordByte_or, wordByte_shiftByte, WSize.bytes]

/-- The bytes of the last word are those that are left. -/
theorem map_wordByte_restWord {rest : ℕ} {src : List Byte} (hsrc : src.length = rest)
    (hpos : rest ≠ 0) (hlt : rest < 4) :
    (List.range rest).map (wordByte (restWord rest src)) = src := by
  subst hsrc
  obtain _ | ⟨a, _ | ⟨b, _ | ⟨c, _ | ⟨d, more⟩⟩⟩⟩ := src
  · exact absurd rfl hpos
  · simp [restWord, wordByte_shiftByte]
  · simp [restWord, wordByte_or, wordByte_shiftByte, List.range_succ]
  · simp [restWord, wordByte_or, wordByte_shiftByte, List.range_succ]
  · simp at hlt
    omega

/-- The loop writes whole words, one after the other. -/
theorem bytesAt_writeWords (w : WSize) (n : ℕ) (epm : Epm) (dest : ℕ) {src : List Byte}
    (hsrc : n * w.bytes ≤ src.length) :
    bytesAt w (writeWords w n epm dest src) dest (n * w.bytes) = src.take (n * w.bytes) ∧
      ∀ a, a < dest ∨ dest + n ≤ a → writeWords w n epm dest src a = epm a := by
  induction n generalizing epm dest src with
  | zero => exact ⟨by rw [Nat.zero_mul]; rfl, fun a _ => rfl⟩
  | succ n ih =>
      rw [Nat.succ_mul] at hsrc
      obtain ⟨hbytes, hframe⟩ := ih (Function.update epm dest (packWord w src)) (dest + 1)
        (show n * w.bytes ≤ (src.drop w.bytes).length by rw [List.length_drop]; omega)
      refine ⟨?_, fun a ha => ?_⟩
      · have hfirst := bytesAt_add w (writeWords w (n + 1) epm dest src) dest 1 (n * w.bytes)
        rw [Nat.one_mul, bytesAt_word] at hfirst
        rw [Nat.succ_mul, Nat.add_comm (n * w.bytes), hfirst, List.take_add]
        have hdest : writeWords w (n + 1) epm dest src dest = packWord w src := by
          rw [writeWords, hframe dest (Or.inl (Nat.lt_succ_self _)), Function.update_self]
        rw [hdest, wordBytes_packWord w (by omega)]
        exact congrArg _ hbytes
      · rw [writeWords, hframe a (by omega), Function.update_of_ne (by omega)]

/-! ### Descriptors -/

/-- A buffer with its descriptor has a number. -/
theorem index_ne {ep ep' : Fin 4} {bufnum bufnum' : Fin 2}
    (hne : (ep', bufnum') ≠ (ep, bufnum)) :
    (ep : ℕ) * 2 + bufnum ≠ ep' * 2 + bufnum' := by
  intro heq
  have hlt := bufnum.isLt
  have hlt' := bufnum'.isLt
  refine hne (Prod.ext (Fin.ext ?_) (Fin.ext ?_))
  · show (ep' : ℕ) = ep
    omega
  · show (bufnum' : ℕ) = bufnum
    omega

/-- The descriptors are in front of the buffers. -/
theorem epmEpDesc_lt (w : WSize) (ep ep' : Fin 4) (bufnum bufnum' : Fin 2) :
    epmEpDesc w ep bufnum + 4 / w.bytes ≤ epmEpBuf w ep' bufnum' := by
  have hep := ep.isLt
  have hbuf := bufnum.isLt
  cases w <;>
  · simp only [epmEpDesc, epmEpBuf, epmBufOffset, epmEpBufSize, WSize.bytes]
    omega

theorem toNat_bufAddr_lt (w : WSize) (ep : Fin 4) (bufnum : Fin 2) :
    (bufAddr w ep bufnum).toNat < 2 ^ 16 := by
  have hep := ep.isLt
  have hbuf := bufnum.isLt
  rw [bufAddr, BitVec.toNat_ofNat]
  refine lt_of_le_of_lt (Nat.mod_le _ _) ?_
  cases w <;>
  · simp only [epmEpBuf, epmBufOffset, epmEpBufSize, WSize.bytes]
    omega

/-- A descriptor in one word. -/
theorem toNat_descWord {a : Word} {count : ℕ} (ha : a.toNat < 2 ^ 16) (hcount : count < 2 ^ 16) :
    (a ||| BitVec.ofNat 32 count <<< 16).toNat = count * 2 ^ 16 + a.toNat := by
  have hshift : count <<< 16 = count * 2 ^ 16 := Nat.shiftLeft_eq _ _
  have hmod : count % 2 ^ 32 = count := Nat.mod_eq_of_lt (by omega)
  have hfits : count * 2 ^ 16 % 2 ^ 32 = count * 2 ^ 16 := Nat.mod_eq_of_lt (by omega)
  rw [BitVec.toNat_or, BitVec.toNat_shiftLeft, BitVec.toNat_ofNat, hmod, hshift, hfits,
    Nat.or_comm, ← hshift, Nat.shiftLeft_add_eq_or_of_lt ha]

theorem toNat_and_3ff (d : Word) : (d &&& 0x3ff).toNat = d.toNat % 2 ^ 10 := by
  rw [BitVec.toNat_and]
  exact Nat.and_two_pow_sub_one_eq_mod _ 10

theorem toNat_and_ffff (d : Word) : (d &&& 0xffff).toNat = d.toNat % 2 ^ 16 := by
  rw [BitVec.toNat_and]
  exact Nat.and_two_pow_sub_one_eq_mod _ 16

section

variable (w : WSize) (epm : Epm) (ep : Fin 4) (bufnum : Fin 2)

theorem epmGetEpCountRx_set {count : ℕ} (hcount : count ≤ 64) :
    epmGetEpCountRx w (epmSetEpCountTx w epm ep bufnum count) ep bufnum = count := by
  cases w with
  | two =>
      simp only [epmGetEpCountRx, epmSetEpCountTx, Function.update_self]
      rw [toNat_and_3ff, BitVec.toNat_ofNat]
      omega
  | four =>
      have haddr := toNat_bufAddr_lt .four ep bufnum
      simp only [epmGetEpCountRx, epmSetEpCountTx, Function.update_self]
      rw [toNat_and_3ff, BitVec.toNat_ushiftRight, toNat_descWord haddr (by omega),
        Nat.shiftRight_eq_div_pow]
      omega

theorem descAddr_set {count : ℕ} (hcount : count ≤ 64)
    (haddr : descAddr w epm ep bufnum = bufAddr w ep bufnum) :
    descAddr w (epmSetEpCountTx w epm ep bufnum count) ep bufnum = bufAddr w ep bufnum := by
  cases w with
  | two =>
      simp only [descAddr, epmSetEpCountTx] at haddr ⊢
      rwa [Function.update_of_ne (Nat.ne_of_lt (Nat.lt_succ_self _))]
  | four =>
      have hlt := toNat_bufAddr_lt .four ep bufnum
      simp only [descAddr, epmSetEpCountTx, Function.update_self]
      refine BitVec.eq_of_toNat_eq ?_
      rw [toNat_and_ffff, toNat_descWord hlt (by omega)]
      omega

/-- Only the descriptor changes. -/
theorem epmSetEpCountTx_frame (count : ℕ) {a : ℕ}
    (ha : a < epmEpDesc w ep bufnum ∨ epmEpDesc w ep bufnum + 4 / w.bytes ≤ a) :
    epmSetEpCountTx w epm ep bufnum count a = epm a := by
  cases w <;>
  · simp only [WSize.bytes] at ha
    exact Function.update_of_ne (by omega) _ _

end

/-! ### Packets -/

section

variable (w : WSize) (epm : Epm) (dest : ℕ) (src : Packet)

/-- Only the buffer is written. -/
theorem writeBuffer_frame {a : ℕ} (ha : a < dest ∨ dest + epmEpBufSize w ≤ a) :
    writeBuffer w epm dest src.val a = epm a := by
  have hroom : src.val.length / w.bytes ≤ 64 / w.bytes := Nat.div_le_div_right src.property
  have hfits := Nat.div_mul_le_self src.val.length w.bytes
  rw [epmEpBufSize] at ha
  rw [writeBuffer]
  obtain ⟨n, hn⟩ : ∃ n, src.val.length / w.bytes = n := ⟨_, rfl⟩
  obtain ⟨room, hmax⟩ : ∃ r, 64 / w.bytes = r := ⟨_, rfl⟩
  rw [hn] at hroom hfits ⊢
  rw [hmax] at hroom ha
  have hloop := (bytesAt_writeWords w n epm dest hfits).2 a (by omega)
  have hne : a ≠ dest + n := by omega
  split_ifs with hrest
  · rw [Function.update_of_ne hne, hloop]
  · exact hloop

/-- The packet is in the buffer. -/
theorem bytesAt_writeBuffer :
    bytesAt w (writeBuffer w epm dest src.val) dest src.val.length = src.val := by
  obtain ⟨n, hn⟩ : ∃ n, src.val.length / w.bytes = n := ⟨_, rfl⟩
  obtain ⟨rest, hrest⟩ : ∃ r, src.val.length % w.bytes = r := ⟨_, rfl⟩
  have hlen : src.val.length = n * w.bytes + rest := by
    rw [← hn, ← hrest, Nat.div_add_mod']
  have hlt : rest < w.bytes := hrest ▸ Nat.mod_lt _ w.bytes_pos
  have hfour : w.bytes ≤ 4 := by cases w <;> decide
  have hwords := (bytesAt_writeWords w n epm dest
    (show n * w.bytes ≤ src.val.length by omega)).1
  rw [writeBuffer, and_bytes, hn, hrest]
  split_ifs with hzero
  · have hfirst : ∀ x, bytesAt w (Function.update (writeWords w n epm dest src.val) (dest + n) x)
        dest (n * w.bytes) = src.val.take (n * w.bytes) := by
      intro x
      rw [← hwords]
      refine bytesAt_congr w fun a _ ha => Function.update_of_ne ?_ _ _
      rintro rfl
      rw [Nat.add_mul] at ha
      exact lt_irrefl _ ha
    have hleft : (src.val.drop (n * w.bytes)).length = rest := by
      rw [List.length_drop, hlen, Nat.add_sub_cancel_left]
    conv_lhs => rw [hlen]
    rw [bytesAt_add]
    refine (congrArg₂ _ (hfirst _) ?_).trans (List.take_append_drop (n * w.bytes) src.val)
    refine (bytesAt_of_le w _ _ hlt.le).trans ?_
    rw [Function.update_self, map_wordByte_restWord hleft hzero (hlt.trans_le hfour)]
  · obtain rfl := not_not.mp hzero
    rw [Nat.add_zero] at hlen
    conv_lhs => rw [hlen]
    exact hwords.trans (List.take_of_length_le hlen.le)

end

/-- The front of what is in a buffer. -/
theorem bytesAt_min (w : WSize) (epm : Epm) (addr n k : ℕ) :
    bytesAt w epm addr (min n k) = (bytesAt w epm addr n).take k := by
  rw [bytesAt, bytesAt, ← List.map_take, List.take_range, Nat.min_comm]

section

variable (w : WSize) (epm : Epm) (ep : Fin 4) (bufnum : Fin 2) (src : Packet)

/-- The descriptors of other buffers are left alone. -/
theorem btableWritePacket_desc {ep' : Fin 4} {bufnum' : Fin 2}
    (hne : (ep', bufnum') ≠ (ep, bufnum)) {a : ℕ} (hlo : epmEpDesc w ep' bufnum' ≤ a)
    (hhi : a < epmEpDesc w ep' bufnum' + 4 / w.bytes) :
    btableWritePacket w epm ep bufnum src.val a = epm a := by
  have hfront := epmEpDesc_lt w ep' ep bufnum' bufnum
  have hindex := index_ne hne
  rw [btableWritePacket, epmSetEpCountTx_frame, writeBuffer_frame w epm _ src (Or.inl (by omega))]
  cases w <;>
  · simp only [epmEpDesc, WSize.bytes] at hlo hhi ⊢
    omega

/-- So are their buffers. -/
theorem btableWritePacket_bytes {ep' : Fin 4} {bufnum' : Fin 2}
    (hne : (ep', bufnum') ≠ (ep, bufnum)) {n : ℕ} (hn : n ≤ 64) :
    bytesAt w (btableWritePacket w epm ep bufnum src.val) (epmEpBuf w ep' bufnum') n =
      bytesAt w epm (epmEpBuf w ep' bufnum') n := by
  have hindex := index_ne hne
  refine bytesAt_congr w fun a hlo hhi => ?_
  have hfront := (epmEpDesc_lt w ep ep' bufnum bufnum').trans hlo
  rw [btableWritePacket, epmSetEpCountTx_frame w _ ep bufnum _ (Or.inr hfront),
    writeBuffer_frame w epm _ src]
  cases w <;>
  · simp only [epmEpBuf, epmEpBufSize, epmBufOffset, WSize.bytes] at hlo hhi ⊢
    omega

theorem btableWritePacket_descAddr {ep' : Fin 4} {bufnum' : Fin 2}
    (hne : (ep', bufnum') ≠ (ep, bufnum)) :
    descAddr w (btableWritePacket w epm ep bufnum src.val) ep' bufnum' =
      descAddr w epm ep' bufnum' := by
  have hword := btableWritePacket_desc w epm ep bufnum src hne le_rfl
    (Nat.lt_add_of_pos_right (by cases w <;> decide))
  cases w
  · exact hword
  · exact congrArg (· &&& 0xffff) hword

theorem btableWritePacket_count {ep' : Fin 4} {bufnum' : Fin 2}
    (hne : (ep', bufnum') ≠ (ep, bufnum)) :
    epmGetEpCountRx w (btableWritePacket w epm ep bufnum src.val) ep' bufnum' =
      epmGetEpCountRx w epm ep' bufnum' := by
  cases w with
  | two =>
      have hword := btableWritePacket_desc .two epm ep bufnum src hne (Nat.le_succ _)
        (show epmEpDesc .two ep' bufnum' + 1 < _ + 2 from Nat.lt_succ_self _)
      exact congrArg (fun d : Word => (d &&& 0x3ff).toNat) hword
  | four =>
      have hword := btableWritePacket_desc .four epm ep bufnum src hne le_rfl
        (show epmEpDesc .four ep' bufnum' < _ + 1 from Nat.lt_succ_self _)
      exact congrArg (fun d : Word => (d >>> 16 &&& 0x3ff).toNat) hword

end

/-! ### Runs -/

/-- What the memory holds for an endpoint: the descriptor points at the buffer, and the packet is
there with its length. -/
def Holds (w : WSize) (epm : Epm) (ep : Fin 4) (bufnum : Fin 2) (src : Packet) : Prop :=
  bytesAt w epm (epmEpBuf w ep bufnum) src.val.length = src.val ∧
    epmGetEpCountRx w epm ep bufnum = src.val.length

section

variable (w : WSize) (epm : Epm) (ep : Fin 4) (bufnum : Fin 2) (src : Packet)

theorem btableWritePacket_holds :
    Holds w (btableWritePacket w epm ep bufnum src.val) ep bufnum src := by
  have hfront := epmEpDesc_lt w ep ep bufnum bufnum
  refine ⟨(bytesAt_congr w fun a ha _ => ?_).trans (bytesAt_writeBuffer w epm _ src),
    epmGetEpCountRx_set w _ ep bufnum src.property⟩
  exact epmSetEpCountTx_frame w _ ep bufnum _ (Or.inr (hfront.trans ha))

theorem btableWritePacket_bufAddr (haddr : descAddr w epm ep bufnum = bufAddr w ep bufnum) :
    descAddr w (btableWritePacket w epm ep bufnum src.val) ep bufnum = bufAddr w ep bufnum := by
  have hfront := epmEpDesc_lt w ep ep bufnum bufnum
  have hpos : 0 < 4 / w.bytes := by cases w <;> decide
  have hword := writeBuffer_frame w epm (epmEpBuf w ep bufnum) src
    (Or.inl (show epmEpDesc w ep bufnum < _ by omega))
  refine descAddr_set w _ ep bufnum src.property ?_
  cases w
  · exact hword.trans haddr
  · exact (congrArg (· &&& 0xffff) hword).trans haddr

/-- A packet stays while others are written. -/
theorem Holds.btableWritePacket {src' : Packet} {ep' : Fin 4} {bufnum' : Fin 2}
    (h : Holds w epm ep' bufnum' src') (hne : (ep', bufnum') ≠ (ep, bufnum)) :
    Holds w (btableWritePacket w epm ep bufnum src.val) ep' bufnum' src' :=
  ⟨(btableWritePacket_bytes w epm ep bufnum src hne src'.property).trans h.1,
    (btableWritePacket_count w epm ep bufnum src hne).trans h.2⟩

end

/-- `count_rx` of `epm_ep_desc_setup` -/
def countRx (rxSize : ℕ) : ℕ :=
  if rxSize ≤ 30 then (rxSize + 1) / 2 <<< 10 else ((rxSize + 31) / 32 - 1) <<< 10 ||| 0x8000

/-- `epm_ep_desc_setup` -/
def epmEpDescSetup (w : WSize) (epm : Epm) (ep : Fin 4) (bufnum : Fin 2) (rxSize : ℕ) : Epm :=
  let desc := epmEpDesc w ep bufnum
  let addr := bufAddr w ep bufnum
  match w with
  | .two =>
      Function.update (Function.update epm desc addr) (desc + 1) (BitVec.ofNat 32 (countRx rxSize))
  | .four => Function.update epm desc (addr ||| BitVec.ofNat 32 (countRx rxSize) <<< 16)

/-- `BUFTX` -/
def bufTx : Fin 2 := ⟨0, Nat.two_pos⟩

/-- `BUFRX` -/
def bufRx : Fin 2 := ⟨1, Nat.one_lt_two⟩

/-- The calls of `btable_configure`: the control endpoint is 0, `USB_CDC_EP_BULK_IN` is 1,
`USB_CDC_EP_BULK_OUT` is 2 and `USB_CDC_EP_ACM` is 3. -/
def btableSetups : List ((Fin 4 × Fin 2) × ℕ) :=
  [((0, bufTx), 0), ((0, bufRx), 16), ((3, bufTx), 0), ((3, bufRx), 0), ((2, bufTx), 64),
    ((2, bufRx), 64), ((1, bufTx), 0), ((1, bufRx), 0)]

/-- `btable_configure` -/
def btableConfigure (w : WSize) (epm : Epm) : Epm :=
  btableSetups.foldl (fun epm x => epmEpDescSetup w epm x.1.1 x.1.2 x.2) epm

theorem epmEpDescSetup_self (w : WSize) (epm : Epm) (ep : Fin 4) (bufnum : Fin 2) {rxSize : ℕ}
    (hsize : countRx rxSize < 2 ^ 16) :
    descAddr w (epmEpDescSetup w epm ep bufnum rxSize) ep bufnum = bufAddr w ep bufnum := by
  cases w with
  | two =>
      simp only [descAddr, epmEpDescSetup]
      rw [Function.update_of_ne (Nat.ne_of_lt (Nat.lt_succ_self _)), Function.update_self]
  | four =>
      have hlt := toNat_bufAddr_lt .four ep bufnum
      simp only [descAddr, epmEpDescSetup, Function.update_self]
      refine BitVec.eq_of_toNat_eq ?_
      rw [toNat_and_ffff, toNat_descWord hlt hsize]
      omega

theorem epmEpDescSetup_of_ne (w : WSize) (epm : Epm) {ep ep' : Fin 4} {bufnum bufnum' : Fin 2}
    (hne : (ep', bufnum') ≠ (ep, bufnum)) (rxSize : ℕ) :
    descAddr w (epmEpDescSetup w epm ep bufnum rxSize) ep' bufnum' =
      descAddr w epm ep' bufnum' := by
  have hindex := index_ne hne
  cases w with
  | two =>
      simp only [descAddr, epmEpDescSetup, epmEpDesc, WSize.bytes]
      rw [Function.update_of_ne (by omega), Function.update_of_ne (by omega)]
  | four =>
      simp only [descAddr, epmEpDescSetup, epmEpDesc, WSize.bytes]
      rw [Function.update_of_ne (by omega)]

/-- A descriptor that has been set up stays so. -/
theorem descAddr_setups (w : WSize) (epm : Epm) (ep : Fin 4) (bufnum : Fin 2)
    {setups : List ((Fin 4 × Fin 2) × ℕ)} (hsize : ∀ x ∈ setups, countRx x.2 < 2 ^ 16)
    (hmem : (∃ x ∈ setups, x.1 = (ep, bufnum)) ∨ descAddr w epm ep bufnum = bufAddr w ep bufnum) :
    descAddr w (setups.foldl (fun epm x => epmEpDescSetup w epm x.1.1 x.1.2 x.2) epm) ep bufnum =
      bufAddr w ep bufnum := by
  induction setups generalizing epm with
  | nil =>
      obtain ⟨x, hx, -⟩ | hdone := hmem
      · exact absurd hx List.not_mem_nil
      · exact hdone
  | cons x setups ih =>
      refine ih _ (fun y hy => hsize y (List.mem_cons_of_mem x hy)) ?_
      by_cases heq : x.1 = (ep, bufnum)
      · right
        obtain ⟨slot, rxSize⟩ := x
        obtain rfl : slot = (ep, bufnum) := heq
        exact epmEpDescSetup_self w epm ep bufnum (hsize _ List.mem_cons_self)
      · obtain ⟨y, hy, hslot⟩ | hdone := hmem
        · obtain rfl | hy := List.mem_cons.mp hy
          · exact absurd hslot heq
          · exact Or.inl ⟨y, hy, hslot⟩
        · right
          exact (epmEpDescSetup_of_ne w epm (Ne.symm heq) x.2).trans hdone

theorem btableConfigure_descAddr (w : WSize) (epm : Epm) (ep : Fin 4) (bufnum : Fin 2) :
    descAddr w (btableConfigure w epm) ep bufnum = bufAddr w ep bufnum := by
  have hall : ∀ ep bufnum, ∃ x ∈ btableSetups, x.1 = (ep, bufnum) := by decide
  exact descAddr_setups w epm ep bufnum (by decide) (Or.inl (hall ep bufnum))

/-- The firmware writes packets, each for a buffer. -/
def writes (w : WSize) (epm : Epm) (packets : List ((Fin 4 × Fin 2) × Packet)) : Epm :=
  packets.foldl (fun epm x => btableWritePacket w epm x.1.1 x.1.2 x.2.val) epm

/-- The last packet for a buffer. -/
def lastPacket (packets : List ((Fin 4 × Fin 2) × Packet)) (ep : Fin 4) (bufnum : Fin 2) :
    Option Packet :=
  (packets.reverse.find? (·.1 == (ep, bufnum))).map (·.2)

theorem lastPacket_concat (packets : List ((Fin 4 × Fin 2) × Packet))
    (x : (Fin 4 × Fin 2) × Packet) (ep : Fin 4) (bufnum : Fin 2) :
    lastPacket (packets ++ [x]) ep bufnum =
      if x.1 = (ep, bufnum) then some x.2 else lastPacket packets ep bufnum := by
  rw [lastPacket, List.reverse_concat, List.find?_cons, lastPacket]
  by_cases heq : x.1 = (ep, bufnum)
  · rw [if_pos heq, beq_iff_eq.mpr heq]
    rfl
  · rw [if_neg heq, beq_false_of_ne heq]

/-- **The packets of the endpoints do not disturb one another**: after `btable_configure` and any
packets, every descriptor points at a buffer of its own, the last packet for a buffer is in it, byte
for byte and with its length, and that packet, or as much of it as there is room for, is what
`btable_read_packet` returns. -/
theorem btable_exact (w : WSize) (epm : Epm) (packets : List ((Fin 4 × Fin 2) × Packet))
    (ep : Fin 4) (bufnum : Fin 2) :
    let epm' := writes w (btableConfigure w epm) packets
    descAddr w epm' ep bufnum = bufAddr w ep bufnum ∧
      ∀ src, lastPacket packets ep bufnum = some src →
        Holds w epm' ep bufnum src ∧
          ∀ maxLen, btableReadPacket w epm' ep bufnum maxLen = src.val.take maxLen := by
  intro epm'
  have hholds : descAddr w epm' ep bufnum = bufAddr w ep bufnum ∧
      ∀ src, lastPacket packets ep bufnum = some src → Holds w epm' ep bufnum src := by
    induction packets using List.reverseRecOn with
    | nil => exact ⟨btableConfigure_descAddr w epm ep bufnum, fun _ hsrc => nomatch hsrc⟩
    | append_singleton packets x ih =>
        obtain ⟨haddr, hheld⟩ := ih
        have hlast : epm' = btableWritePacket w (writes w (btableConfigure w epm) packets)
            x.1.1 x.1.2 x.2.val := by
          rw [show epm' = writes w (btableConfigure w epm) (packets ++ [x]) from rfl, writes,
            List.foldl_concat, writes]
        rw [hlast]
        by_cases heq : x.1 = (ep, bufnum)
        · obtain ⟨slot, src'⟩ := x
          obtain rfl : slot = (ep, bufnum) := heq
          refine ⟨btableWritePacket_bufAddr w _ ep bufnum src' haddr, fun src hsrc => ?_⟩
          rw [lastPacket_concat, if_pos rfl] at hsrc
          obtain rfl := Option.some.inj hsrc
          exact btableWritePacket_holds w _ ep bufnum src'
        · refine ⟨(btableWritePacket_descAddr w _ _ _ x.2 (Ne.symm heq)).trans haddr,
            fun src hsrc => ?_⟩
          rw [lastPacket_concat, if_neg heq] at hsrc
          exact (hheld src hsrc).btableWritePacket w _ _ _ x.2 (Ne.symm heq)
  refine ⟨hholds.1, fun src hsrc => ⟨hholds.2 src hsrc, fun maxLen => ?_⟩⟩
  obtain ⟨hbytes, hcount⟩ := hholds.2 src hsrc
  rw [btableReadPacket_eq, hcount, bytesAt_min, hbytes]

end Terraboot.Usbfs
