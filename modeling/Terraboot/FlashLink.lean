import Terraboot.FrameLink

/-!
# The Link of a Transfer

The host's programs and the device with the bytes between them: frames on the wire, the receive
buffer that `console_task` works on, and the stream that the tool reads. A frame arrives intact,
or corrupted so that its CRC check fails, or not at all.

What a receiver makes of corrupted bytes is not for the link to decide: it looks for a frame in
them as well. Which of the frames it finds it may take is a parameter, so that transfers can be
compared in which it takes whatever passes the check and in which it takes nothing that has not
been sent.

## Main results

* `FlashLink.run_frames`: if the receivers only take frames that have reached them intact, the
  link is one that loses frames.
-/

open LittleEndian NorFlash

namespace Terraboot

open CanFlasher

variable {S T : Type}

/-- The device with its receive buffer, the tool's stream, and the frames on the wire in either
direction, oldest first. The frames that have reached a receiver intact and that it has not taken
yet are recorded as well; no function of the source reads these records. -/
structure FlashLink (S T : Type) where
  device : Device S T
  receiveBuf : List Byte
  syncState : SyncState
  reader : List Byte
  toDevice : List (List Byte)
  toHost : List (List Byte)
  arrived : List (List Byte)
  received : List (List Byte)

/-- Which messages a receiver takes when the given frames have reached it intact. -/
abbrev Taking := List (List Byte) → List Byte → Prop

/-- Every message that passes the checks. -/
def Taking.any : Taking := fun _ _ => True

/-- A frame that was sent, as it was sent. -/
def Taking.intact : Taking := fun frames msg => msg ∈ frames

/-- What has been sent after a message. -/
def behind (msg : List Byte) (frames : List (List Byte)) : List (List Byte) :=
  if msg ∈ frames then (frames.dropWhile (· != msg)).tail else frames

namespace FlashLink

/-- The message that the next run of `console_task` dispatches. -/
def message (s : FlashLink S T) : Option (List Byte) :=
  let r := commandFindBlock s.receiveBuf s.syncState
  if 0 < r.ret then some (s.receiveBuf.take r.popCount) else none

/-- `console_task`, with what `command_find_and_dispatch` sends. -/
def consoleTask (b : Board S T) (now : T) (s : FlashLink S T) : FlashLink S T :=
  let r := commandFindBlock s.receiveBuf s.syncState
  let out :=
    if 0 < r.ret then commandDispatch b now s.device s.receiveBuf r.popCount else (s.device, [])
  { s with
    device := out.1
    receiveBuf := if r.ret ≠ 0 then s.receiveBuf.drop r.popCount else s.receiveBuf
    syncState := r.syncState
    toHost := s.toHost ++ ((if r.nack then [commandRespondNack] else []) ++ out.2)
    arrived := if 0 < r.ret then behind (s.receiveBuf.take r.popCount) s.arrived else s.arrived }

/-- What happens without the host. -/
inductive Step (b : Board S T) (takes : Taking) : FlashLink S T → FlashLink S T → Prop
  | arrive {s : FlashLink S T} {msg : List Byte} {rest : List (List Byte)}
      (h : s.toDevice = msg :: rest) :
      Step b takes s { s with
        toDevice := rest
        receiveBuf := s.receiveBuf ++ msg
        arrived := s.arrived ++ [msg] }
  | arriveCorrupted {s : FlashLink S T} {msg : List Byte} {rest : List (List Byte)}
      (w : List Byte) (hcrc : CrcFails w) (h : s.toDevice = msg :: rest) :
      Step b takes s { s with toDevice := rest, receiveBuf := s.receiveBuf ++ w }
  | console {s : FlashLink S T} (now : T)
      (htakes : ∀ msg, s.message = some msg → takes s.arrived msg) :
      Step b takes s (s.consoleTask b now)
  /-- Another task, which leaves the flash and its driver alone. -/
  | task {s : FlashLink S T} (d : Device S T) (h : d.driver = s.device.driver) :
      Step b takes s { s with device := d }
  | loseRequest {s : FlashLink S T} {xs ys : List (List Byte)} {msg : List Byte}
      (h : s.toDevice = xs ++ msg :: ys) : Step b takes s { s with toDevice := xs ++ ys }
  | loseResponse {s : FlashLink S T} {xs ys : List (List Byte)} {msg : List Byte}
      (h : s.toHost = xs ++ msg :: ys) : Step b takes s { s with toHost := xs ++ ys }
  | receive {s : FlashLink S T} {msg : List Byte} {rest : List (List Byte)}
      (h : s.toHost = msg :: rest) :
      Step b takes s { s with
        toHost := rest
        reader := s.reader ++ msg
        received := s.received ++ [msg] }
  | receiveCorrupted {s : FlashLink S T} {msg : List Byte} {rest : List (List Byte)}
      (w : List Byte) (hcrc : CrcFails w) (h : s.toHost = msg :: rest) :
      Step b takes s { s with toHost := rest, reader := s.reader ++ w }

/-- The operations of the host. A reading loop that is interrupted has taken some bytes off the
stream. -/
def Perform (takes : Taking) : (o : NodeOp) → FlashLink S T → o.Answer → FlashLink S T → Prop
  | .write payload, s, _, t => t = { s with toDevice := s.toDevice ++ [payload] }
  | .readFrame, s, none, t => ∃ k, t = { s with reader := s.reader.drop k }
  | .readFrame, s, some data, t =>
      ∃ rest, readLoop [] s.reader = some (data, rest) ∧ (takes s.received data ∨ CrcFails data) ∧
        t = { s with reader := rest, received := behind data s.received }
  | .clear, s, _, t => t = { s with reader := s.reader.drop 1024 }

/-- The world of the host's programs. -/
def world (b : Board S T) (takes : Taking) : World (FlashLink S T) NodeOp NodeOp.Answer :=
  ⟨Step b takes, Perform takes⟩

/-! ### The frames in flight -/

/-- The link without its bytes. -/
def frames (s : FlashLink S T) : FrameLink S T where
  device := s.device
  requests := s.arrived ++ s.toDevice
  responses := s.received ++ s.toHost

theorem behind_of_mem {msg : List Byte} {l : List (List Byte)} (h : msg ∈ l) :
    ∃ xs, l = xs ++ msg :: behind msg l := by
  rw [behind, if_pos h]
  refine ⟨l.takeWhile (· != msg), ?_⟩
  cases hd : l.dropWhile (· != msg) with
  | nil =>
      rw [List.dropWhile_eq_nil_iff] at hd
      exact absurd (hd msg h) (by simp)
  | cons x rest =>
      have hx := List.head?_dropWhile_not (· != msg) l
      rw [hd] at hx
      obtain rfl : x = msg := by simpa using hx
      rw [List.tail_cons, ← hd, List.takeWhile_append_dropWhile]

/-- Only the message is read. -/
theorem commandDispatch_take (b : Board S T) (now : T) (d : Device S T) (buf : List Byte) (k : ℕ) :
    commandDispatch b now d (buf.take k) k = commandDispatch b now d buf k := by
  rw [commandDispatch, commandDispatch, List.take_take, Nat.min_self]

/-- What `console_task` does with a message. -/
theorem consoleTask_of_message {s : FlashLink S T} {msg : List Byte} (b : Board S T) (now : T)
    (h : s.message = some msg) :
    (∃ cmd payload, IsFrame cmd payload msg) ∧
      (s.consoleTask b now).frames = {
        device := (commandDispatch b now s.device msg msg.length).1
        requests := behind msg s.arrived ++ s.toDevice
        responses := s.frames.responses ++ (commandDispatch b now s.device msg msg.length).2 } := by
  rw [message] at h
  split_ifs at h with hret
  obtain ⟨k, hverdict, hfind⟩ := commandFindBlock_of_pos hret
  obtain ⟨hk, hmax, hle, hframe⟩ := blockVerdict_accept hverdict
  obtain rfl := Option.some.inj h
  rw [hfind]
  have hlen : (s.receiveBuf.take k).length = k := by rw [List.length_take, Nat.min_eq_left hle]
  have hpayload : ((s.receiveBuf.drop 4).take (4 * (s.receiveBuf.getD 3 0).toNat)).length =
      4 * (s.receiveBuf.getD 3 0).toNat := by
    rw [List.length_take, List.length_drop]
    omega
  refine ⟨⟨_, _, ⟨?_, ?_, hframe⟩⟩, ?_⟩
  · rw [hpayload, Nat.mul_mod_right]
  · rw [hpayload, Nat.mul_div_cancel_left _ (by omega)]
    exact (s.receiveBuf.getD 3 0).isLt
  · rw [consoleTask, frames, hfind, hlen, commandDispatch_take, if_pos one_pos, if_pos one_pos,
      frames, List.append_assoc]
    rfl

/-- Without a message, it may answer with a NACK. -/
theorem consoleTask_of_no_message {s : FlashLink S T} (b : Board S T) (now : T)
    (h : s.message = none) : (s.consoleTask b now).frames = s.frames ∨
      (s.consoleTask b now).frames =
        { s.frames with responses := s.frames.responses ++ [commandRespondNack] } := by
  rw [message] at h
  split_ifs at h with hret
  rw [consoleTask, frames, if_neg hret, if_neg hret]
  cases (commandFindBlock s.receiveBuf s.syncState).nack with
  | false =>
      left
      rw [if_neg Bool.false_ne_true, List.append_nil, List.append_nil]
      rfl
  | true =>
      right
      rw [if_pos rfl, List.append_nil, frames, List.append_assoc]

/-- **Receivers that only take what was sent.** Every step is one of a link that loses frames, or
none there. -/
theorem Step.frames {b : Board S T} {s t : FlashLink S T} (h : Step b .intact s t) :
    t.frames = s.frames ∨ FrameLink.Step b s.frames t.frames := by
  cases h with
  | @arrive msg rest h =>
      left
      rw [FlashLink.frames, FlashLink.frames, h, List.append_assoc, List.singleton_append]
  | @arriveCorrupted msg rest w _ h =>
      refine .inr (.loseRequests (s := s.frames) (l := s.arrived ++ rest) ?_)
      rw [FlashLink.frames, h]
      exact (List.sublist_cons_self msg rest).append_left _
  | console now htakes =>
      cases hmsg : s.message with
      | none =>
          rcases consoleTask_of_no_message b now hmsg with hsame | hnack
          · exact .inl hsame
          · rw [hnack]
            exact .inr .nack
      | some msg =>
          obtain ⟨⟨cmd, payload, hframe⟩, hdispatch⟩ := consoleTask_of_message b now hmsg
          obtain ⟨xs, hxs⟩ := behind_of_mem (htakes msg hmsg)
          have hsplit : s.frames.requests = xs ++ msg :: (behind msg s.arrived ++ s.toDevice) := by
            rw [FlashLink.frames, ← List.cons_append, ← List.append_assoc, ← hxs]
          rw [hdispatch]
          exact .inr (.dispatch now hframe hsplit)
  | task d hd => exact .inr (.task d hd)
  | @loseRequest xs ys msg h =>
      refine .inr (.loseRequests (s := s.frames) (l := s.arrived ++ (xs ++ ys)) ?_)
      rw [FlashLink.frames, h]
      exact ((List.sublist_cons_self msg ys).append_left xs).append_left _
  | @loseResponse xs ys msg h =>
      refine .inr (.loseResponses (s := s.frames) (l := s.received ++ (xs ++ ys)) ?_)
      rw [FlashLink.frames, h]
      exact ((List.sublist_cons_self msg ys).append_left xs).append_left _
  | @receive msg rest h =>
      left
      rw [FlashLink.frames, FlashLink.frames, h, List.append_assoc, List.singleton_append]
  | @receiveCorrupted msg rest w _ h =>
      refine .inr (.loseResponses (s := s.frames) (l := s.received ++ rest) ?_)
      rw [FlashLink.frames, h]
      exact (List.sublist_cons_self msg rest).append_left _

/-- So is every operation of the host. -/
theorem Perform.frames (o : NodeOp) (s : FlashLink S T) (a : o.Answer) (t : FlashLink S T)
    (h : Perform .intact o s a t) : FrameLink.Perform o s.frames a t.frames := by
  cases o with
  | write payload =>
      obtain rfl : t = _ := h
      show FrameLink.mk _ _ _ = FrameLink.mk _ _ _
      rw [FlashLink.frames, List.append_assoc]
  | readFrame =>
      cases a with
      | none =>
          obtain ⟨k, rfl⟩ := h
          rfl
      | some data =>
          obtain ⟨rest, -, htakes, rfl⟩ := h
          by_cases hmem : data ∈ s.received
          · obtain ⟨xs, hxs⟩ := behind_of_mem hmem
            refine .inl ⟨xs, behind data s.received ++ s.toHost, ?_, rfl⟩
            rw [FlashLink.frames, ← List.cons_append, ← List.append_assoc, ← hxs]
          · refine .inr ⟨htakes.resolve_left hmem, ?_⟩
            rw [FlashLink.frames, behind, if_neg hmem]
            rfl
  | clear =>
      obtain rfl : t = _ := h
      rfl

/-- **Programs on such a link** run as on one that loses frames. -/
theorem run_frames {b : Board S T} {α : Type} {p q : Coroutine α} {s t : FlashLink S T}
    (h : Prog.Run (world b .intact) p s q t) :
    Prog.Run (FrameLink.world b) p s.frames q t.frames :=
  h.map FlashLink.frames (fun _ _ hstep => Step.frames hstep) Perform.frames

end FlashLink

end Terraboot
