import Terraboot.Upload

/-!
# Queueing Responses

`console_sendf` of the three transports. CAN and UART keep the bytes that still have to go
out between `transmit_pos` and `transmit_max` of a 96-byte buffer, USB keeps them in the
first `transmit_pos` bytes of a 192-byte buffer. A message that does not fit is dropped
without a trace. Messages are shorter than the address space, so the sums of the checks do
not wrap around.

## Main results

* `ConsoleTx.consoleSendf_pending`, `UsbTx.consoleSendf_pending`: a message is queued whole
  behind what is pending, or nothing happens.
* `commandDispatch_messages`: every response but that to `CONNECT` has at most 80 bytes.
* `response_queued_iff`: which responses are queued on an idle link.
-/

open LittleEndian NorFlash

namespace Terraboot

variable {S T : Type}

/-- `command_encode_and_frame` into a buffer: all `max_size` bytes of the message. -/
def commandEncodeAndFrame (buf : List Byte) (off : ℕ) (msg : List Byte) : List Byte :=
  overwrite buf off msg

/-! ### CAN and UART -/

/-- `transmit_buf`, `transmit_pos` and `transmit_max` of `generic/canserial.c` and of
`generic/serial_irq.c`. -/
structure ConsoleTx where
  transmitBuf : List Byte
  transmitPos : ℕ
  transmitMax : ℕ
  deriving DecidableEq, Repr

namespace ConsoleTx

/-- A buffer of the given size, filled up to `transmit_max`. -/
structure WellFormed (size : ℕ) (t : ConsoleTx) : Prop where
  length : t.transmitBuf.length = size
  range : t.transmitMax ≤ size

/-- The bytes that still have to go out. -/
def pending (t : ConsoleTx) : List Byte := (t.transmitBuf.take t.transmitMax).drop t.transmitPos

/-- `console_sendf` of `generic/canserial.c` and of `generic/serial_irq.c`, with a buffer of
`size` bytes. -/
def consoleSendf (size : ℕ) (t : ConsoleTx) (msg : List Byte) : ConsoleTx :=
  -- everything has gone out: start over
  let t := if t.transmitMax ≤ t.transmitPos then { t with transmitPos := 0, transmitMax := 0 } else t
  if size < t.transmitMax + msg.length then
    if size < t.transmitMax + msg.length - t.transmitPos then t
    else
      -- move the pending bytes to the front
      let tmax := t.transmitMax - t.transmitPos
      ⟨commandEncodeAndFrame (overwrite t.transmitBuf 0 t.pending) tmax msg, 0, tmax + msg.length⟩
  else
    ⟨commandEncodeAndFrame t.transmitBuf t.transmitMax msg, t.transmitPos,
      t.transmitMax + msg.length⟩

variable {size : ℕ} {t : ConsoleTx}

theorem WellFormed.pending_length (h : t.WellFormed size) :
    t.pending.length = t.transmitMax - t.transmitPos := by
  have hlen := h.length
  have hrange := h.range
  rw [pending, List.length_drop, List.length_take]
  omega

/-- Storing a message extends the pending bytes by it. -/
theorem append_pending {buf msg : List Byte} {pos n : ℕ} (hpos : pos ≤ n)
    (h : n + msg.length ≤ buf.length) :
    pending ⟨commandEncodeAndFrame buf n msg, pos, n + msg.length⟩ = (buf.take n).drop pos ++ msg := by
  have htake : (buf.take n).length = n := by rw [List.length_take]; omega
  rw [pending, commandEncodeAndFrame]
  dsimp only
  rw [overwrite_take_end h, List.drop_append_of_le_length (by omega)]

/-- **A message is queued whole behind what is pending, or nothing happens.** -/
theorem consoleSendf_pending (h : t.WellFormed size) (msg : List Byte) :
    (consoleSendf size t msg).pending =
        (if t.pending.length + msg.length ≤ size then t.pending ++ msg else t.pending) ∧
      (consoleSendf size t msg).WellFormed size := by
  obtain ⟨t₁, ht₁⟩ : ∃ t₁, (if t.transmitMax ≤ t.transmitPos then
      { t with transmitPos := 0, transmitMax := 0 } else t) = t₁ := ⟨_, rfl⟩
  have hrestart : t₁.WellFormed size ∧ t₁.pending = t.pending ∧ t₁.transmitPos ≤ t₁.transmitMax := by
    have hpending := h.pending_length
    rw [← ht₁]
    split_ifs with hdone
    · refine ⟨⟨h.length, Nat.zero_le _⟩, ?_, le_rfl⟩
      exact (List.eq_nil_of_length_eq_zero (by omega)).symm
    · exact ⟨h, rfl, by omega⟩
  obtain ⟨h₁, hpending, hpos⟩ := hrestart
  have hlen := h₁.length
  have hrange := h₁.range
  have hcount := h₁.pending_length
  rw [consoleSendf, ht₁, ← hpending, hcount]
  dsimp only
  split_ifs with hfull hdrop hfits hfits hfits
  · omega
  · exact ⟨rfl, h₁⟩
  · have hmoved : (overwrite t₁.transmitBuf 0 t₁.pending).length = size := by
      rw [overwrite_length (by omega), hlen]
    have hfront : (overwrite t₁.transmitBuf 0 t₁.pending).take (t₁.transmitMax - t₁.transmitPos) =
        t₁.pending := by
      have htake : (overwrite t₁.transmitBuf 0 t₁.pending).take (0 + t₁.pending.length) =
          t₁.transmitBuf.take 0 ++ t₁.pending := overwrite_take_end (by omega)
      rwa [Nat.zero_add, hcount, List.take_zero, List.nil_append] at htake
    rw [append_pending (Nat.zero_le _) (by omega), hfront, List.drop_zero]
    refine ⟨rfl, ?_, ?_⟩
    · exact (overwrite_length (by omega)).trans hmoved
    · exact hfits
  · omega
  · rw [append_pending hpos (by omega)]
    refine ⟨rfl, ?_, ?_⟩
    · exact (overwrite_length (by omega)).trans hlen
    · exact not_lt.mp hfull
  · omega

end ConsoleTx

/-! ### USB -/

/-- `transmit_buf` and `transmit_pos` of `generic/usb_cdc.c`. -/
structure UsbTx where
  transmitBuf : List Byte
  transmitPos : ℕ
  deriving DecidableEq, Repr

namespace UsbTx

structure WellFormed (size : ℕ) (t : UsbTx) : Prop where
  length : t.transmitBuf.length = size
  range : t.transmitPos ≤ size

/-- The bytes that still have to go out. -/
def pending (t : UsbTx) : List Byte := t.transmitBuf.take t.transmitPos

/-- `console_sendf` of `generic/usb_cdc.c`, with a buffer of `size` bytes. -/
def consoleSendf (size : ℕ) (t : UsbTx) (msg : List Byte) : UsbTx :=
  if size < t.transmitPos + msg.length then t
  else ⟨commandEncodeAndFrame t.transmitBuf t.transmitPos msg, t.transmitPos + msg.length⟩

/-- **A message is queued whole behind what is pending, or nothing happens.** -/
theorem consoleSendf_pending {size : ℕ} {t : UsbTx} (h : t.WellFormed size) (msg : List Byte) :
    (consoleSendf size t msg).pending =
        (if t.pending.length + msg.length ≤ size then t.pending ++ msg else t.pending) ∧
      (consoleSendf size t msg).WellFormed size := by
  have hlen := h.length
  have hrange := h.range
  have hcount : t.pending.length = t.transmitPos := by
    rw [pending, List.length_take]
    omega
  rw [consoleSendf, hcount]
  split_ifs with hfull hfits hfits
  · omega
  · exact ⟨rfl, h⟩
  · refine ⟨?_, ?_, ?_⟩
    · rw [pending, commandEncodeAndFrame, overwrite_take_end (by omega), pending]
    · exact (overwrite_length (by omega)).trans hlen
    · exact hfits
  · omega

end UsbTx

/-! ### The transports -/

/-- The transports a build can have. -/
inductive Transport
  | can | uart | usb
  deriving DecidableEq, Repr

namespace Transport

/-- `sizeof(transmit_buf)` -/
def transmitBufSize : Transport → ℕ
  | .can | .uart => 96
  | .usb => 192

/-- The transmit variables of a transport. -/
def Tx : Transport → Type
  | .can | .uart => ConsoleTx
  | .usb => UsbTx

/-- `console_sendf` -/
def consoleSendf : (x : Transport) → x.Tx → List Byte → x.Tx
  | .can => ConsoleTx.consoleSendf 96
  | .uart => ConsoleTx.consoleSendf 96
  | .usb => UsbTx.consoleSendf 192

/-- The bytes that still have to go out. -/
def pending : (x : Transport) → x.Tx → List Byte
  | .can | .uart => ConsoleTx.pending
  | .usb => UsbTx.pending

/-- The buffer has its size. -/
def WellFormed : (x : Transport) → x.Tx → Prop
  | .can | .uart => ConsoleTx.WellFormed 96
  | .usb => UsbTx.WellFormed 192

/-- **A message is queued whole behind what is pending, or nothing happens.** -/
theorem consoleSendf_pending (x : Transport) {t : x.Tx} (h : x.WellFormed t) (msg : List Byte) :
    x.pending (x.consoleSendf t msg) =
        (if (x.pending t).length + msg.length ≤ x.transmitBufSize then x.pending t ++ msg
          else x.pending t) ∧
      x.WellFormed (x.consoleSendf t msg) := by
  cases x with
  | can => exact ConsoleTx.consoleSendf_pending h msg
  | uart => exact ConsoleTx.consoleSendf_pending h msg
  | usb => exact UsbTx.consoleSendf_pending h msg

/-- On an idle link a message is queued exactly if it is not longer than the buffer. -/
theorem queued_iff (x : Transport) {t : x.Tx} (h : x.WellFormed t) (hidle : x.pending t = [])
    (msg : List Byte) :
    x.pending (x.consoleSendf t msg) = msg ↔ msg.length ≤ x.transmitBufSize := by
  rw [(x.consoleSendf_pending h msg).1, hidle, List.length_nil, Nat.zero_add, List.nil_append]
  split_ifs with hfits
  · exact iff_of_true rfl hfits
  · refine iff_of_false ?_ hfits
    rintro rfl
    exact hfits (Nat.zero_le _)

/-- The zero-initialised transmit variables. -/
def init : (x : Transport) → x.Tx
  | .can | .uart => (⟨List.replicate 96 0, 0, 0⟩ : ConsoleTx)
  | .usb => (⟨List.replicate 192 0, 0⟩ : UsbTx)

theorem init_wellFormed (x : Transport) : x.WellFormed x.init := by
  cases x with
  | can => exact ⟨rfl, Nat.zero_le _⟩
  | uart => exact ⟨rfl, Nat.zero_le _⟩
  | usb => exact ⟨rfl, Nat.zero_le _⟩

theorem init_pending (x : Transport) : x.pending x.init = [] := by
  cases x <;> rfl

end Transport

/-! ### The responses -/

theorem commandRespondAck_length {out : List Byte} {n : ℕ} (cmd : Word) (h3 : 3 ≤ n)
    (hn : 4 * n ≤ out.length) : (commandRespondAck cmd out n).length = 4 * n := by
  rw [commandRespondAck_eq cmd h3 hn, frame_length, List.length_append, le32_length,
    List.length_take, List.length_drop]
  omega

/-- **Every request is answered by one message**, and the answers but that to `CONNECT` are
short. -/
theorem commandDispatch_messages {b : Board S T} (hblock : b.cfg.blockSize = 64) (d : Device S T)
    (r : Request T) :
    ∃ msg, (commandDispatch b r.now d r.buf r.msglen).2 = [msg] ∧
      (r.buf.getD 2 0 = 0x11 ∧ msg.length =
          4 * connectOutLen b.cfg (appvalidateGetMetadata b.cfg d.flash.mem) ∨
        r.buf.getD 2 0 ≠ 0x11 ∧ msg.length ≤ 80) := by
  obtain ⟨-, cmd, payload, msg, rest, hframe, hbuf, hlen⟩ :=
    (blockVerdict_accept_iff _ _).mp r.accepted
  have hmsg : 8 ≤ msg.length := by
    rw [hframe.length_eq]
    omega
  have htake : r.buf.take r.msglen = msg := by rw [hbuf, ← hlen, List.take_left]
  have hcmd : (r.buf.take r.msglen).getD 2 0 = r.buf.getD 2 0 := by
    rw [htake, hbuf, List.getD_append _ _ _ _ (by omega)]
  have herror : commandRespondCommandError.length ≤ 80 := by decide
  have hfour : ∀ cmd w : Word,
      (commandRespondAck cmd (setWord (wordArray 4) 2 w) 4).length ≤ 80 := by
    intro cmd w
    rw [commandRespondAck_length _ (by omega) (by rw [setWord_wordArray_length (by omega)])]
    omega
  have h := commandDispatch_dispatched b r.now d r.buf r.msglen hcmd
  rw [htake] at h
  generalize commandDispatch b r.now d r.buf r.msglen = out at h ⊢
  generalize r.buf.getD 2 0 = c at h ⊢
  cases h with
  | connect =>
      refine ⟨_, rfl, .inl ⟨rfl, ?_⟩⟩
      exact commandRespondAck_length _ (by rw [connectOutLen]; omega) (by rw [connectOut_length])
  | refused => exact ⟨_, rfl, .inr ⟨by decide, herror⟩⟩
  | written hcount hrange hwrite =>
      refine ⟨_, rfl, .inr ⟨by decide, ?_⟩⟩
      split_ifs
      · exact herror
      · exact hfour _ _
  | completed hcomplete =>
      refine ⟨_, rfl, .inr ⟨by decide, ?_⟩⟩
      split_ifs
      · exact herror
      · exact hfour _ _
  | read hresp =>
      refine ⟨_, rfl, .inr ⟨by decide, ?_⟩⟩
      rcases hresp with hresp | hresp
      · rw [hresp]
        exact herror
      · have hset : (setWord (wordArray (64 / 4 + 2 + 2)) 2 (getWord msg 1)).length = 80 := by
          rw [setWord_wordArray_length (by omega)]
        rw [hresp, hblock, commandRespondAck_length _ (by omega)
          (by rw [overwrite_length (by rw [hset, read_length]; omega), hset])]
  | complete =>
      refine ⟨_, rfl, .inr ⟨by decide, ?_⟩⟩
      rw [commandRespondAck_length _ (by omega) (by rw [wordArray_length])]
      omega
  | getCanbusId =>
      refine ⟨_, rfl, .inr ⟨by decide, ?_⟩⟩
      rw [commandRespondAck_length _ (by omega)
        (by rw [overwrite_length (by rw [wordArray_length, d.uuid.property]; omega),
          wordArray_length])]
      omega
  | identify hc =>
      refine ⟨_, rfl, .inr ⟨?_, ?_⟩⟩
      · rcases hc with rfl | rfl <;> decide
      · rw [commandRespondAck_two _ hmsg]
        decide
  | error hc => exact ⟨_, rfl, .inr ⟨fun hconnect => hc (by simp [hconnect]), herror⟩⟩

/-- A request is a `CONNECT` whose response is longer than a transmit buffer. -/
def ResponseTooLong (x : Transport) (cfg : Config) (m : Mem) (r : Request T) : Prop :=
  r.buf.getD 2 0 = 0x11 ∧ x.transmitBufSize < 4 * connectOutLen cfg (appvalidateGetMetadata cfg m)

instance (x : Transport) (cfg : Config) (m : Mem) (r : Request T) :
    Decidable (ResponseTooLong x cfg m r) := inferInstanceAs (Decidable (_ ∧ _))

/-- **Which responses are queued on an idle link.** For every transport, every device with
64-byte blocks, every accepted request and every transmit buffer in which nothing is pending: the
whole response is queued exactly if it is not a response to `CONNECT` that is longer than
the buffer. -/
theorem response_queued_iff {b : Board S T} (hblock : b.cfg.blockSize = 64) (d : Device S T)
    (r : Request T) (x : Transport) {t : x.Tx} (ht : x.WellFormed t) (hidle : x.pending t = []) :
    x.pending ((commandDispatch b r.now d r.buf r.msglen).2.foldl x.consoleSendf t) =
        (commandDispatch b r.now d r.buf r.msglen).2.flatten ↔
      ¬ResponseTooLong x b.cfg d.flash.mem r := by
  obtain ⟨msg, hmsg, hlen⟩ := commandDispatch_messages hblock d r
  have hsize : 96 ≤ x.transmitBufSize := by cases x <;> decide
  rw [hmsg, List.foldl_cons, List.foldl_nil, List.flatten_singleton, x.queued_iff ht hidle,
    ResponseTooLong]
  rcases hlen with ⟨hcmd, hlen⟩ | ⟨hcmd, hlen⟩
  · rw [hlen, and_iff_right hcmd, not_lt]
  · exact iff_of_true (by omega) fun h => hcmd h.1

theorem nil_payload : ([] : List Byte).length % 4 = 0 ∧ ([] : List Byte).length ≤ 120 :=
  ⟨rfl, Nat.zero_le _⟩

/-- A `CONNECT` request. -/
def connectRequest : Request Word := .ofFrame 0 0x11 [] nil_payload

/-- Over USB the shipped configuration's answer to `CONNECT` is queued. -/
theorem response_queued_iff_usb :
    Transport.usb.pending ((commandDispatch steinzeitBoard connectRequest.now steinzeitDevice
        connectRequest.buf connectRequest.msglen).2.foldl Transport.usb.consoleSendf
        Transport.usb.init) =
      (commandDispatch steinzeitBoard connectRequest.now steinzeitDevice connectRequest.buf
        connectRequest.msglen).2.flatten :=
  (response_queued_iff rfl steinzeitDevice connectRequest .usb Transport.usb.init_wellFormed
    Transport.usb.init_pending).mpr (by decide)

/-- A metadata page with a variant name of 21 bytes. -/
def longVariant : Mem :=
  write (fun _ => 0xFF) 0x8002000
    (appMetadataMagic ++ List.replicate 16 0 ++ List.replicate 21 0x41 ++ List.replicate 11 0)

/-- With this page in flash, the answer to `CONNECT` of the shipped configuration has 100 bytes,
and nothing of it is queued on CAN. -/
theorem connect_response_dropped :
    Transport.can.pending ((commandDispatch steinzeitBoard connectRequest.now
        { steinzeitDevice with flash := ⟨longVariant, []⟩ } connectRequest.buf
        connectRequest.msglen).2.foldl Transport.can.consoleSendf Transport.can.init) ≠
      (commandDispatch steinzeitBoard connectRequest.now
        { steinzeitDevice with flash := ⟨longVariant, []⟩ } connectRequest.buf
        connectRequest.msglen).2.flatten := by
  obtain ⟨msg, hmsg, hlen⟩ := commandDispatch_messages (b := steinzeitBoard) rfl
    { steinzeitDevice with flash := ⟨longVariant, []⟩ } connectRequest
  have hlong : connectOutLen steinzeitBoard.cfg (appvalidateGetMetadata steinzeitBoard.cfg
      longVariant) = 25 := by decide
  have hcmd : connectRequest.buf.getD 2 0 = 0x11 := rfl
  rw [hmsg, List.foldl_cons, List.foldl_nil, List.flatten_singleton, Ne,
    Transport.can.queued_iff Transport.can.init_wellFormed Transport.can.init_pending]
  rcases hlen with ⟨-, hlen⟩ | ⟨hneq, -⟩
  · rw [hlen, hlong]
    decide
  · exact absurd hcmd hneq

end Terraboot
