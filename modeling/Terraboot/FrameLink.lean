import Terraboot.CanFlasher
import Terraboot.FlashSession

/-!
# A Link That Loses Frames

The host's programs and the device with the frames between them: in either direction a frame
overtakes none, but it may be lost. This is what a transfer is about, without the bytes on the
wire and the buffers at their ends.

## Main results

* `commandDispatch_other`, `commandDispatch_readRequest`: which responses a host can take for the
  answer to `REQUEST_BLOCK`, and what they show.
* `sendFile_triple`: what `send_file` has sent when it returns.
* `verifyFile_triple`: what `verify_file` has seen when it returns.
-/

open LittleEndian NorFlash

namespace Terraboot

open CanFlasher

variable {S T : Type}

/-- A device and the frames that have been sent to it and by it, oldest first. -/
structure FrameLink (S T : Type) where
  device : Device S T
  requests : List (List Byte)
  responses : List (List Byte)

namespace FrameLink

/-- What happens without the host. A frame that the device receives may have overtaken others
only if these are lost; one that it cannot make sense of may be answered with a NACK. -/
inductive Step (b : Board S T) : FrameLink S T → FrameLink S T → Prop
  | dispatch {s : FrameLink S T} {xs ys : List (List Byte)} {cmd : Byte} {payload msg : List Byte}
      (now : T) (hframe : IsFrame cmd payload msg) (h : s.requests = xs ++ msg :: ys) :
      Step b s {
        device := (commandDispatch b now s.device msg msg.length).1
        requests := ys
        responses := s.responses ++ (commandDispatch b now s.device msg msg.length).2 }
  | nack {s : FrameLink S T} : Step b s { s with responses := s.responses ++ [commandRespondNack] }
  | task {s : FrameLink S T} (d : Device S T) (h : d.driver = s.device.driver) :
      Step b s { s with device := d }
  | loseRequests {s : FrameLink S T} {l : List (List Byte)} (h : l.Sublist s.requests) :
      Step b s { s with requests := l }
  | loseResponses {s : FrameLink S T} {l : List (List Byte)} (h : l.Sublist s.responses) :
      Step b s { s with responses := l }

/-- The operations of the host: it reads a frame that has overtaken no other, or bytes that fail
the CRC check. -/
def Perform : (o : NodeOp) → FrameLink S T → o.Answer → FrameLink S T → Prop
  | .write payload, s, _, t => t = { s with requests := s.requests ++ [payload] }
  | .readFrame, s, none, t => t = s
  | .readFrame, s, some data, t =>
      (∃ xs ys, s.responses = xs ++ data :: ys ∧ t = { s with responses := ys }) ∨
        CrcFails data ∧ t = s
  | .clear, s, _, t => t = s

/-- The world of the host's programs. -/
def world (b : Board S T) : World (FrameLink S T) NodeOp NodeOp.Answer := ⟨Step b, Perform⟩

end FrameLink

/-! ### Responses -/

/-- The request `REQUEST_BLOCK`. -/
def ReadRequest (msg : List Byte) : Prop := msg.getD 2 0 = Command.requestBlock.code

/-- A response that the host takes for the answer to `REQUEST_BLOCK`. -/
def ReadAck (msg : List Byte) : Prop :=
  ∃ ret, checkResponse Command.requestBlock.code msg = .ok ret

/-- Where it does, it gets to see a block of the flash. -/
def Shows (m : Mem) (msg : List Byte) : Prop :=
  ∀ ret, checkResponse Command.requestBlock.code msg = .ok ret →
    ∃ a : Word, ret = le32 a ++ read m a.toNat 64

theorem not_readAck_nil (c : Byte) : ¬ReadAck (frame c []) := by
  rintro ⟨ret, h⟩
  have hresponse : cmdResponse (frame c []) = 0 := rfl
  have hcmd := (checkResponse_ok h).2.1
  rw [hresponse] at hcmd
  exact absurd hcmd (by decide)

/-- The acknowledgement of another command is none. -/
theorem not_readAck_ack {cmd : Word} (hcmd : cmd ≠ cmdReqBlock) (q : List Byte) :
    ¬ReadAck (frame 0xa0 (le32 cmd ++ q)) := by
  rintro ⟨ret, h⟩
  have hresponse : cmdResponse (frame 0xa0 (le32 cmd ++ q)) = cmd ∨
      cmdResponse (frame 0xa0 (le32 cmd ++ q)) = 0 := by
    rw [cmdResponse]
    split_ifs
    · exact .inl (ofLe32_le32 cmd)
    · exact .inr rfl
  have hread := (checkResponse_ok h).2.1
  rcases hresponse with hack | hzero
  · rw [hack] at hread
    exact hcmd (hread.trans (by decide))
  · rw [hzero] at hread
    exact absurd hread (by decide)

theorem not_readAck_respondAck {cmd : Word} (hcmd : cmd ≠ cmdReqBlock) {out : List Byte} {n : ℕ}
    (h3 : 3 ≤ n) (hn : 4 * n ≤ out.length) : ¬ReadAck (commandRespondAck cmd out n) := by
  rw [commandRespondAck_eq cmd h3 hn]
  exact not_readAck_ack hcmd _

theorem not_readAck_commandError : ¬ReadAck commandRespondCommandError := by
  rw [commandRespondCommandError_eq]
  exact not_readAck_nil _

theorem not_readAck_nack : ¬ReadAck commandRespondNack := by
  rw [commandRespondNack_eq]
  exact not_readAck_nil _

/-- **No other request is answered** by what the host takes for the answer to `REQUEST_BLOCK`. -/
theorem commandDispatch_other (b : Board S T) (now : T) (d : Device S T) {cmd : Byte}
    {payload msg : List Byte} (hframe : IsFrame cmd payload msg) (hmsg : ¬ReadRequest msg) :
    ∀ r ∈ (commandDispatch b now d msg msg.length).2, ¬ReadAck r := by
  have hcmd : msg.getD 2 0 = cmd := by
    rw [hframe.bytes]
    rfl
  have hlen : 8 ≤ msg.length := by
    rw [hframe.length_eq]
    omega
  have hread : cmd ≠ 0x14 := fun h => hmsg (hcmd.trans h)
  have h := commandDispatch_dispatched b now d msg msg.length (by rw [List.take_length, hcmd])
  rw [List.take_length] at h
  generalize commandDispatch b now d msg msg.length = out at h ⊢
  clear hframe hcmd
  cases h with
  | connect =>
      refine List.forall_mem_singleton.mpr ?_
      refine not_readAck_respondAck (by decide) ?_ (connectOut_length _ _).ge
      rw [connectOutLen]
      omega
  | refused => exact List.forall_mem_singleton.mpr not_readAck_commandError
  | written hcount hrange hwrite =>
      refine List.forall_mem_singleton.mpr ?_
      split_ifs
      · exact not_readAck_commandError
      · rw [commandRespondAck_four]
        exact not_readAck_ack (by decide) _
  | completed hcomplete =>
      refine List.forall_mem_singleton.mpr ?_
      split_ifs
      · exact not_readAck_commandError
      · rw [commandRespondAck_four]
        exact not_readAck_ack (by decide) _
  | read hresp => exact absurd rfl hread
  | complete =>
      refine List.forall_mem_singleton.mpr ?_
      exact not_readAck_respondAck (by decide) le_rfl (by rw [wordArray_length])
  | getCanbusId =>
      refine List.forall_mem_singleton.mpr ?_
      refine not_readAck_respondAck (by decide) (by omega) ?_
      rw [overwrite_length (by rw [wordArray_length, d.uuid.property]; omega), wordArray_length]
  | identify hc =>
      refine List.forall_mem_singleton.mpr ?_
      rw [commandRespondAck_two _ hlen]
      exact not_readAck_nil _
  | error hc => exact List.forall_mem_singleton.mpr not_readAck_commandError

/-- The acknowledgement of `REQUEST_BLOCK` carries the address and the block. -/
theorem commandRespondAck_block (w : Word) {block : List Byte} (h : block.length = 64) :
    commandRespondAck cmdReqBlock (overwrite (setWord (wordArray 20) 2 w) 12 block) 20 =
      frame 0xa0 (le32 cmdReqBlock ++ (le32 w ++ block)) := by
  have harr : wordArray 20 = wordArray 2 ++ List.replicate 72 0 := rfl
  have hpre : (wordArray 2 ++ le32 w).length = 12 := rfl
  have hout : overwrite (setWord (wordArray 20) 2 w) 12 block =
      wordArray 2 ++ ((le32 w ++ block) ++ List.replicate 4 0) := by
    rw [harr, setWord_replicate w (wordArray_length 2).symm (by omega),
      overwrite_replicate 0 hpre.symm (by omega), h, List.replicate_zero, List.append_nil]
    simp only [List.append_assoc]
  have hlen : (overwrite (setWord (wordArray 20) 2 w) 12 block).length = 80 := by
    rw [hout]
    simp only [List.length_append, wordArray_length, le32_length, List.length_replicate, h]
  rw [commandRespondAck_eq cmdReqBlock (by omega) hlen.ge, hout,
    List.drop_left' (wordArray_length 2), List.take_left' (by
      rw [List.length_append, le32_length, h])]

/-- **`REQUEST_BLOCK` is answered from the flash**, which it does not change. -/
theorem commandDispatch_readRequest {b : Board S T} (hblock : b.cfg.blockSize = 64) (now : T)
    (d : Device S T) {msg : List Byte} (hmsg : ReadRequest msg) :
    (commandDispatch b now d msg msg.length).1.flash = d.flash ∧
      ∀ r ∈ (commandDispatch b now d msg msg.length).2, Shows d.flash.mem r := by
  rw [commandDispatch_eq b now d msg msg.length (by rw [List.take_length, hmsg]),
    List.take_length, if_neg (by decide), if_neg (by decide), if_neg (by decide),
    if_pos (by decide), commandReadBlock]
  dsimp only
  split_ifs
  · refine ⟨rfl, fun r hr ret hret => ?_⟩
    rw [List.mem_singleton.mp hr] at hret
    exact absurd ⟨ret, hret⟩ not_readAck_commandError
  · refine ⟨rfl, fun r hr ret hret => ⟨getWord msg 1, ?_⟩⟩
    obtain ⟨block, hdata⟩ : ∃ block, read d.flash.mem (getWord msg 1).toNat 64 = block :=
      ⟨_, rfl⟩
    have hlen : block.length = 64 := by rw [← hdata, read_length]
    have hpayload : (le32 (getWord msg 1) ++ block).length = 4 * 17 := by
      rw [List.length_append, le32_length, hlen]
    have haccept : checkResponse Command.requestBlock.code
        (frame 0xa0 (le32 cmdReqBlock ++ (le32 (getWord msg 1) ++ block))) = .ok _ :=
      checkResponse_frame Command.requestBlock.code hpayload (by omega)
    have hframe : r = frame 0xa0 (le32 cmdReqBlock ++ (le32 (getWord msg 1) ++ block)) := by
      rw [List.mem_singleton.mp hr, hblock, hdata]
      exact commandRespondAck_block (getWord msg 1) hlen
    rw [hframe, haccept] at hret
    rw [← Except.ok.inj hret, hdata]

namespace FrameLink

variable {b : Board S T} {s : FrameLink S T}

/-! ### What is in flight -/

/-- No block has been requested. -/
structure Quiet (s : FrameLink S T) : Prop where
  requests : ∀ msg ∈ s.requests, ¬ReadRequest msg
  responses : ∀ msg ∈ s.responses, ¬ReadAck msg

/-- Blocks have been requested, but the device has not got to these requests yet. -/
structure Pending (s : FrameLink S T) : Prop where
  requests : ∃ ws rs, s.requests = ws ++ rs ∧ (∀ msg ∈ ws, ¬ReadRequest msg) ∧
    ∀ msg ∈ rs, ReadRequest msg
  responses : ∀ msg ∈ s.responses, ¬ReadAck msg

/-- The device has nothing but requests for blocks to answer; its flash holds `m`. -/
structure Still (m : Mem) (s : FrameLink S T) : Prop where
  requests : ∀ msg ∈ s.requests, ReadRequest msg
  mem : s.device.flash.mem = m
  responses : ∀ msg ∈ s.responses, Shows m msg

/-- Blocks are being requested; of the flash that the device answers from the host knows `K`. -/
def Knows (K : Mem → Prop) (s : FrameLink S T) : Prop :=
  (Pending s ∧ ∀ m, K m) ∨ ∃ m, K m ∧ Still m s

theorem Quiet.knows (h : Quiet s) {K : Mem → Prop} (hK : ∀ m, K m) : Knows K s :=
  .inl ⟨⟨⟨s.requests, [], (List.append_nil _).symm, h.requests, by simp⟩, h.responses⟩, hK⟩

/-- What the host knows holds of the flash. -/
theorem Knows.mem {K : Mem → Prop} (h : Knows K s) : K s.device.flash.mem := by
  rcases h with ⟨-, hK⟩ | ⟨m, hK, hstill⟩
  · exact hK _
  · rwa [hstill.mem]

theorem not_readAck_append {responses more : List (List Byte)}
    (h : ∀ msg ∈ responses, ¬ReadAck msg) (hmore : ∀ msg ∈ more, ¬ReadAck msg) :
    ∀ msg ∈ responses ++ more, ¬ReadAck msg := fun msg hmsg =>
  (List.mem_append.mp hmsg).elim (h msg) (hmore msg)

theorem not_readAck_concat_nack {responses : List (List Byte)}
    (h : ∀ msg ∈ responses, ¬ReadAck msg) :
    ∀ msg ∈ responses ++ [commandRespondNack], ¬ReadAck msg :=
  not_readAck_append h fun msg hmsg => by
    rw [List.mem_singleton.mp hmsg]
    exact not_readAck_nack

theorem quiet_stable (b : Board S T) : Prog.Stable (world b) Quiet := by
  intro s s' h hstep
  cases hstep with
  | @dispatch xs ys cmd payload msg now hframe hreq =>
      have hmem : ∀ r ∈ msg :: ys, ¬ReadRequest r := fun r hr =>
        h.requests r (by rw [hreq]; exact List.mem_append_right xs hr)
      exact ⟨fun r hr => hmem r (List.mem_cons_of_mem msg hr), not_readAck_append h.responses
        (commandDispatch_other b now s.device hframe (hmem msg (List.mem_cons_self ..)))⟩
  | nack => exact ⟨h.requests, not_readAck_concat_nack h.responses⟩
  | task d _ => exact ⟨h.requests, h.responses⟩
  | loseRequests hl => exact ⟨fun r hr => h.requests r (hl.mem hr), h.responses⟩
  | loseResponses hl => exact ⟨h.requests, fun r hr => h.responses r (hl.mem hr)⟩

theorem still_stable (hblock : b.cfg.blockSize = 64) (m : Mem) :
    Prog.Stable (world b) (Still m) := by
  intro s s' h hstep
  cases hstep with
  | @dispatch xs ys cmd payload msg now hframe hreq =>
      have hmem : ∀ r ∈ msg :: ys, ReadRequest r := fun r hr =>
        h.requests r (by rw [hreq]; exact List.mem_append_right xs hr)
      obtain ⟨hflash, hshows⟩ := commandDispatch_readRequest hblock now s.device
        (hmem msg (List.mem_cons_self ..))
      refine ⟨fun r hr => hmem r (List.mem_cons_of_mem msg hr), ?_, fun r hr => ?_⟩
      · exact (congrArg Flash.mem hflash).trans h.mem
      · rw [h.mem] at hshows
        exact (List.mem_append.mp hr).elim (h.responses r) (hshows r)
  | nack =>
      refine ⟨h.requests, h.mem, fun r hr => (List.mem_append.mp hr).elim (h.responses r) ?_⟩
      intro hr ret hret
      rw [List.mem_singleton.mp hr] at hret
      exact absurd ⟨ret, hret⟩ not_readAck_nack
  | task d hd => exact ⟨h.requests, (congrArg (fun p => p.2.mem) hd).trans h.mem, h.responses⟩
  | loseRequests hl => exact ⟨fun r hr => h.requests r (hl.mem hr), h.mem, h.responses⟩
  | loseResponses hl => exact ⟨h.requests, h.mem, fun r hr => h.responses r (hl.mem hr)⟩

/-- A frame taken out of a queue in which those that satisfy `p` stand behind the others. -/
theorem queue_split {p : List Byte → Prop} {ws rs xs ys : List (List Byte)} {msg : List Byte}
    (hws : ∀ r ∈ ws, ¬p r) (hrs : ∀ r ∈ rs, p r) (h : ws ++ rs = xs ++ msg :: ys) :
    (∀ r ∈ msg :: ys, p r) ∨ ¬p msg ∧ ∃ ws', ys = ws' ++ rs ∧ ∀ r ∈ ws', ¬p r := by
  obtain ⟨as, -, htail⟩ | ⟨as, hhead, htail⟩ := List.append_eq_append_iff.mp h
  · exact .inl fun r hr => hrs r (by rw [htail]; exact List.mem_append_right as hr)
  · cases as with
    | nil => exact .inl fun r hr => hrs r (by rwa [← List.nil_append rs, ← htail])
    | cons w ws' =>
        obtain ⟨rfl, rfl⟩ := List.cons.inj htail
        have hmem : ∀ r ∈ msg :: ws', ¬p r := fun r hr =>
          hws r (by rw [hhead]; exact List.mem_append_right xs hr)
        exact .inr ⟨hmem msg (List.mem_cons_self ..), ws', rfl,
          fun r hr => hmem r (List.mem_cons_of_mem msg hr)⟩

/-- **The flash does not change any more once the device has got to the first request for a
block.** -/
theorem knows_stable (hblock : b.cfg.blockSize = 64) (K : Mem → Prop) :
    Prog.Stable (world b) (Knows K) := by
  intro s s' h hstep
  obtain ⟨h, hK⟩ | ⟨m, hK, h⟩ := h
  swap
  · exact .inr ⟨m, hK, still_stable hblock m s s' h hstep⟩
  -- as long as the device has not, what it answers is no block
  obtain ⟨ws, rs, hsplit, hws, hrs⟩ := h.requests
  cases hstep with
  | @dispatch xs ys cmd payload msg now hframe hreq =>
      rw [hsplit] at hreq
      obtain hmem | ⟨hmsg, ws', rfl, hws'⟩ := queue_split hws hrs hreq
      · obtain ⟨hflash, hshows⟩ := commandDispatch_readRequest hblock now s.device
          (hmem msg (List.mem_cons_self ..))
        refine .inr ⟨s.device.flash.mem, hK _, fun r hr => hmem r (List.mem_cons_of_mem msg hr),
          congrArg Flash.mem hflash, fun r hr ret hret => ?_⟩
        rcases List.mem_append.mp hr with hold | hnew
        · exact absurd ⟨ret, hret⟩ (h.responses r hold)
        · exact hshows r hnew ret hret
      · exact .inl ⟨⟨⟨ws', rs, rfl, hws', hrs⟩, not_readAck_append h.responses
          (commandDispatch_other b now s.device hframe hmsg)⟩, hK⟩
  | nack => exact .inl ⟨⟨h.requests, not_readAck_concat_nack h.responses⟩, hK⟩
  | task d _ => exact .inl ⟨⟨h.requests, h.responses⟩, hK⟩
  | loseRequests hl =>
      rw [hsplit, List.sublist_append_iff] at hl
      obtain ⟨ws', rs', rfl, hws', hrs'⟩ := hl
      exact .inl ⟨⟨⟨ws', rs', rfl, fun r hr => hws r (hws'.mem hr),
        fun r hr => hrs r (hrs'.mem hr)⟩, h.responses⟩, hK⟩
  | loseResponses hl => exact .inl ⟨⟨h.requests, fun r hr => h.responses r (hl.mem hr)⟩, hK⟩

/-! ### `send_command` -/

/-- What reading a response ensures: it is `Q` that holds if it is accepted. -/
def Answered (cmd : Command) (P : FrameLink S T → Prop) (Q : List Byte → FrameLink S T → Prop)
    (r : Option (List Byte)) (s : FrameLink S T) : Prop :=
  P s ∧ ∀ data ret, r = some data → checkResponse cmd.code data = .ok ret → Q ret s

variable {cmd : Command} {payload : List Byte} {P : FrameLink S T → Prop}
  {Q : List Byte → FrameLink S T → Prop}

theorem answered_stable (hP : Prog.Stable (world b) P) (hQ : ∀ ret, Prog.Stable (world b) (Q ret))
    (r : Option (List Byte)) : Prog.Stable (world b) (Answered cmd P Q r) :=
  fun s s' h hstep => ⟨hP s s' h.1 hstep,
    fun data ret hr hret => hQ ret s s' (h.2 data ret hr hret) hstep⟩

theorem answered_none (h : P s) : Answered cmd P Q none s := ⟨h, nofun⟩

/-- Reading a frame. -/
theorem answered_of_perform (hP : Prog.Stable (world b) P)
    (hread : ∀ s xs data ys ret, P s → s.responses = xs ++ data :: ys →
      checkResponse cmd.code data = .ok ret → Q ret { s with responses := ys })
    (s : FrameLink S T) (r : Option (List Byte)) (t : FrameLink S T) (hs : P s)
    (hr : (world b).perform .readFrame s r t) : Answered cmd P Q r t := by
  cases r with
  | none =>
      obtain rfl : t = s := hr
      exact answered_none hs
  | some data =>
      rcases hr with ⟨xs, ys, hsplit, rfl⟩ | ⟨hcrc, rfl⟩
      · refine ⟨hP s _ hs (.loseResponses ?_), fun data' ret hdata hret => ?_⟩
        · rw [hsplit]
          exact (List.sublist_cons_self data ys).trans (List.sublist_append_right xs _)
        · obtain rfl := Option.some.inj hdata
          exact hread s xs data ys ret hs hsplit hret
      · refine ⟨hs, fun data' ret hdata hret => ?_⟩
        obtain rfl := Option.some.inj hdata
        obtain ⟨e, he⟩ := checkResponse_of_crcFails hcrc cmd.code
        exact absurd (he.symm.trans hret) nofun

theorem readResponse_triple (hP : Prog.Stable (world b) P)
    (hQ : ∀ ret, Prog.Stable (world b) (Q ret))
    (hread : ∀ s xs data ys ret, P s → s.responses = xs ++ data :: ys →
      checkResponse cmd.code data = .ok ret → Q ret { s with responses := ys }) (primed : Bool) :
    Prog.Triple (world b) P (readResponse primed) fun r => Answered cmd P Q r.1 := by
  have hret : ∀ (r : Option (List Byte)) (primed : Bool),
      Prog.Triple (world b) (Answered cmd P Q r) (.ret (r, primed) : Coroutine _)
        fun r => Answered cmd P Q r.1 := by
    intro r primed
    refine (Prog.Triple.ret (answered_stable hP hQ r) (r, primed)).conseq (fun _ h => h) ?_
    rintro _ s ⟨rfl, hs⟩
    exact hs
  refine Prog.Triple.op hP (answered_of_perform hP hread) fun r => ?_
  cases r with
  | none => exact hret none primed
  | some data =>
      cases primed with
      | false => exact hret (some data) false
      | true =>
          refine Prog.Triple.op (answered_stable hP hQ (some data)) (fun s r t hs hr => ?_)
            fun r => hret r false
          exact answered_of_perform hP hread s r t hs.1 hr

/-- **What `send_command` returns** is a response that holds `Q`, if the steps of the link keep
`P` and `Q`, and so does a request. -/
theorem sendCommand_triple (hP : Prog.Stable (world b) P)
    (hQ : ∀ ret, Prog.Stable (world b) (Q ret))
    (hwrite : ∀ s, P s → P { s with requests := s.requests ++ [frame cmd.code payload] })
    (hread : ∀ s xs data ys ret, P s → s.responses = xs ++ data :: ys →
      checkResponse cmd.code data = .ok ret → Q ret { s with responses := ys })
    (tries : ℕ) (primed : Bool) :
    Prog.Triple (world b) P (sendCommand cmd payload tries primed) fun r => Q r.1 := by
  induction tries generalizing primed with
  | zero => exact Prog.Triple.raise _
  | succ tries ih =>
      have hretry : ∀ r primed, Prog.Triple (world b) (Answered cmd P Q r)
          (.op .clear fun _ => sendCommand cmd payload tries primed) fun r => Q r.1 := by
        intro r primed
        refine Prog.Triple.op (answered_stable hP hQ r) (fun s _ t hs ht => ?_) fun _ => ih primed
        obtain rfl : t = s := ht
        exact hs.1
      refine Prog.Triple.op hP (M := fun _ => P) (fun s _ t hs ht => ?_) fun _ => ?_
      · obtain rfl : t = _ := ht
        rw [buildCommand_eq]
        exact hwrite s hs
      refine Prog.Triple.bind (readResponse_triple hP hQ hread primed) fun ⟨r, primed⟩ => ?_
      cases r with
      | none => exact hretry none primed
      | some data =>
          cases hcheck : checkResponse cmd.code data with
          | error e =>
              dsimp only
              rw [hcheck]
              exact hretry (some data) primed
          | ok ret =>
              dsimp only
              rw [hcheck]
              refine (Prog.Triple.ret (hQ ret) (ret, primed)).conseq
                (fun s hs => hs.2 data ret rfl hcheck) ?_
              rintro _ s ⟨rfl, hs⟩
              exact hs

/-! ### `send_file` -/

theorem lift_triple {α : Type} (hP : Prog.Stable (world b) P) (e : Except TransferError α) :
    Prog.Triple (world b) P (lift e) fun a s => e = .ok a ∧ P s := by
  cases e with
  | error e => exact Prog.Triple.raise e
  | ok a =>
      refine (Prog.Triple.ret hP a).conseq (fun _ h => h) ?_
      rintro _ s ⟨rfl, hs⟩
      exact ⟨rfl, hs⟩

/-- A command other than `REQUEST_BLOCK`. -/
theorem sendCommand_quiet (b : Board S T) (hcmd : cmd ≠ .requestBlock) (payload : List Byte)
    (tries : ℕ) (primed : Bool) :
    Prog.Triple (world b) Quiet (sendCommand cmd payload tries primed) fun _ => Quiet := by
  refine sendCommand_triple (Q := fun _ => Quiet) (quiet_stable b) (fun _ => quiet_stable b)
    (fun s hs => ⟨fun msg hmsg => ?_, hs.responses⟩)
    (fun s xs data ys _ hs hsplit _ => ⟨hs.requests, fun msg hmsg => hs.responses msg ?_⟩)
    tries primed
  · rcases List.mem_append.mp hmsg with hold | hnew
    · exact hs.requests msg hold
    · rw [List.mem_singleton.mp hnew]
      intro hread
      have hcode : cmd.code = Command.requestBlock.code := hread
      cases cmd with
      | sendBlock => exact absurd hcode (by decide)
      | sendEof => exact absurd hcode (by decide)
      | requestBlock => exact hcmd rfl
  · rw [hsplit]
    exact List.mem_append_right xs (List.mem_cons_of_mem data hmsg)

theorem sendBlock_quiet (b : Board S T) (flashAddress : ℕ) (payload : List Byte)
    (attempts recdAddr : ℕ) (primed : Bool) :
    Prog.Triple (world b) Quiet (CanFlasher.sendBlock flashAddress payload attempts recdAddr primed)
      fun _ => Quiet := by
  induction attempts generalizing recdAddr primed with
  | zero => exact Prog.Triple.raise _
  | succ attempts ih =>
      refine Prog.Triple.bind (Q := fun _ => Quiet) ?_ fun r => ?_
      · exact Prog.Triple.tryCatch (sendCommand_quiet b (by decide) payload 3 primed)
          fun e => Prog.Triple.raise _
      refine Prog.Triple.bind (lift_triple (quiet_stable b) (unpackWord r.1)) fun addr => ?_
      split_ifs
      · exact (Prog.Triple.ret (quiet_stable b) r.2).conseq (fun _ h => h.2) fun _ _ h => h.2
      · exact (ih addr r.2).conseq (fun _ h => h.2) fun _ _ h => h

/-- The number of blocks of `n` bytes that a file takes. -/
def blocksOf (n : ℕ) (file : List Byte) : ℕ := (file.length + (n - 1)) / n

/-- A file padded with `0xFF` to a whole number of blocks of `n` bytes. -/
def padFile (n : ℕ) (file : List Byte) : List Byte :=
  file ++ List.replicate (blocksOf n file * n - file.length) 0xFF

theorem blocksOf_drop {n : ℕ} (hn : 0 < n) {file : List Byte} (hfile : file ≠ []) :
    blocksOf n file = blocksOf n (file.drop n) + 1 := by
  have hpos := List.length_pos_iff.mpr hfile
  rw [blocksOf, blocksOf, List.length_drop]
  obtain hshort | hlong := Nat.lt_or_ge file.length n
  · rw [Nat.sub_eq_zero_of_le hshort.le, Nat.zero_add, Nat.div_eq_of_lt (Nat.sub_lt hn one_pos),
      show file.length + (n - 1) = n + (file.length - 1) by omega, Nat.add_div_left _ hn,
      Nat.div_eq_of_lt (by omega)]
  · rw [show file.length + (n - 1) = n + (file.length - n + (n - 1)) by omega,
      Nat.add_div_left _ hn]

/-- The first block, padded, and the rest. -/
theorem padFile_drop {n : ℕ} (hn : 0 < n) {file : List Byte} (hfile : file ≠ []) :
    padFile n file = file.take n ++ List.replicate (n - (file.take n).length) 0xFF ++
      padFile n (file.drop n) := by
  rw [padFile, padFile, blocksOf_drop hn hfile, Nat.add_mul, Nat.one_mul]
  obtain hshort | hlong := Nat.lt_or_ge file.length n
  · have hdrop : file.drop n = [] := List.drop_eq_nil_of_le hshort.le
    have hzero : blocksOf n [] = 0 := Nat.div_eq_of_lt (by rw [List.length_nil]; omega)
    rw [hdrop, hzero, List.take_of_length_le hshort.le, Nat.zero_mul, Nat.zero_add,
      Nat.zero_sub, List.replicate_zero, List.append_nil, List.append_nil]
  · have htake : (file.take n).length = n := by rw [List.length_take, Nat.min_eq_left hlong]
    have hpad : blocksOf n (file.drop n) * n + n - file.length =
        blocksOf n (file.drop n) * n - (file.drop n).length := by
      rw [List.length_drop]
      omega
    rw [htake, Nat.sub_self, List.replicate_zero, List.append_nil, ← List.append_assoc,
      List.take_append_drop, hpad]

theorem padFile_length {n : ℕ} (hn : 0 < n) (file : List Byte) :
    (padFile n file).length = blocksOf n file * n := by
  have hle : file.length ≤ blocksOf n file * n := by
    have hdiv := Nat.div_add_mod (file.length + (n - 1)) n
    have hmod := Nat.mod_lt (file.length + (n - 1)) hn
    rw [blocksOf, Nat.mul_comm]
    omega
  rw [padFile, List.length_append, List.length_replicate]
  omega

/-- What a transfer leaves in the tool: the digest has been updated with the padded file, and the
blocks have been counted. -/
structure Sent (file : List Byte) (c c' : CanFlasher) : Prop where
  fwSha : c'.fwSha = c.fwSha ++ padFile c.blockSize file
  blockCount : c'.blockCount = c.blockCount + blocksOf c.blockSize file
  appStartAddr : c'.appStartAddr = c.appStartAddr
  blockSize : c'.blockSize = c.blockSize

theorem sendBlocks_triple (b : Board S T) (file : List Byte) (flashAddress : ℕ) (c : CanFlasher)
    (hblock : 0 < c.blockSize) :
    Prog.Triple (world b) Quiet (sendBlocks file flashAddress c)
      fun c' s => Sent file c c' ∧ Quiet s := by
  induction hlen : file.length using Nat.strong_induction_on generalizing file flashAddress c with
  | _ k ih =>
      rw [sendBlocks]
      split_ifs with hbuf
      · obtain rfl : file = [] := by
          rcases List.take_eq_nil_iff.mp hbuf with hzero | hnil
          · omega
          · exact hnil
        have hcount : blocksOf c.blockSize [] = 0 := by
          rw [blocksOf, List.length_nil, Nat.zero_add]
          exact Nat.div_eq_of_lt (Nat.sub_lt hblock one_pos)
        refine (Prog.Triple.ret (quiet_stable b) c).conseq (fun _ h => h) ?_
        rintro _ s ⟨rfl, hs⟩
        refine ⟨⟨?_, by rw [hcount, Nat.add_zero], rfl, rfl⟩, hs⟩
        rw [padFile, hcount, List.length_nil, Nat.zero_mul, List.replicate_zero, List.append_nil,
          List.append_nil]
      · have hfile : file ≠ [] := fun h => hbuf (by rw [h, List.take_nil])
        have hpos := List.length_pos_iff.mpr hfile
        refine Prog.Triple.bind (lift_triple (quiet_stable b) (packWord flashAddress))
          fun pre => ?_
        refine Prog.Triple.bind ((sendBlock_quiet b flashAddress _ 3 0 c.primed).conseq
          (fun _ h => h.2) fun _ _ h => h) fun primed => ?_
        have hshorter : (file.drop c.blockSize).length < k := by
          rw [List.length_drop]
          omega
        refine Prog.Triple.conseq (ih _ hshorter _ _ _ ?_ rfl) (fun _ h => h) ?_
        · exact hblock
        rintro c' s ⟨hsent, hs⟩
        refine ⟨⟨?_, ?_, hsent.appStartAddr, hsent.blockSize⟩, hs⟩
        · rw [hsent.fwSha, padFile_drop hblock hfile]
          simp only [List.append_assoc]
        · rw [hsent.blockCount, blocksOf_drop hblock hfile]
          dsimp only
          omega

/-- **What `send_file` has done when it returns.** -/
theorem sendFile_triple (b : Board S T) (file : List Byte) (c : CanFlasher)
    (hblock : 0 < c.blockSize) :
    Prog.Triple (world b) Quiet (sendFile file c) fun c' s => Sent file c c' ∧ Quiet s := by
  refine Prog.Triple.bind (sendBlocks_triple b file c.appStartAddr c hblock) fun c' => ?_
  by_cases hsent : Sent file c c'
  swap
  · exact fun s _ _ hs _ => absurd hs.1 hsent
  refine Prog.Triple.bind (Q := fun _ => Quiet) ((sendCommand_quiet b (by decide) [] 5
    c'.primed).conseq (fun _ h => h.2) fun _ _ h => h) fun r => ?_
  refine Prog.Triple.bind (lift_triple (quiet_stable b) (unpackWord r.1)) fun _ => ?_
  refine Prog.Triple.conseq (Prog.Triple.ret (quiet_stable b) _) (fun _ h => h.2) ?_
  rintro _ s ⟨rfl, hs⟩
  exact ⟨⟨hsent.fwSha, hsent.blockCount, hsent.appStartAddr, hsent.blockSize⟩, hs⟩

/-! ### `verify_file` -/

/-- The answer to `REQUEST_BLOCK` that the host accepts. -/
theorem sendCommand_knows (hblock : b.cfg.blockSize = 64) (K : Mem → Prop) (payload : List Byte)
    (tries : ℕ) (primed : Bool) :
    Prog.Triple (world b) (Knows K) (sendCommand .requestBlock payload tries primed)
      fun r => Knows fun m => K m ∧ ∃ a : Word, r.1 = le32 a ++ read m a.toNat 64 := by
  refine sendCommand_triple
    (Q := fun ret => Knows fun m => K m ∧ ∃ a : Word, ret = le32 a ++ read m a.toNat 64)
    (knows_stable hblock K) (fun ret => knows_stable hblock _) ?_ ?_ tries primed
  · rintro s (⟨h, hK⟩ | ⟨m, hK, h⟩)
    · obtain ⟨ws, rs, hsplit, hws, hrs⟩ := h.requests
      refine .inl ⟨⟨⟨ws, rs ++ [frame Command.requestBlock.code payload], ?_, hws,
        fun msg hmsg => ?_⟩, h.responses⟩, hK⟩
      · rw [← List.append_assoc, ← hsplit]
      · rcases List.mem_append.mp hmsg with hold | hnew
        · exact hrs msg hold
        · rw [List.mem_singleton.mp hnew]
          rfl
    · refine .inr ⟨m, hK, fun msg hmsg => ?_, h.mem, h.responses⟩
      rcases List.mem_append.mp hmsg with hold | hnew
      · exact h.requests msg hold
      · rw [List.mem_singleton.mp hnew]
        rfl
  · rintro s xs data ys ret (⟨h, -⟩ | ⟨m, hK, h⟩) hsplit hret
    · refine absurd ⟨ret, hret⟩ (h.responses data ?_)
      rw [hsplit]
      exact List.mem_append_right xs (List.mem_cons_self ..)
    · have hmem : ∀ msg ∈ data :: ys, Shows m msg := fun msg hmsg =>
        h.responses msg (by rw [hsplit]; exact List.mem_append_right xs hmsg)
      exact .inr ⟨m, ⟨hK, hmem data (List.mem_cons_self ..) ret hret⟩, h.requests, h.mem,
        fun msg hmsg => hmem msg (List.mem_cons_of_mem data hmsg)⟩

theorem Knows.imp {K K' : Mem → Prop} (h : Knows K s) (hK : ∀ m, K m → K' m) : Knows K' s := by
  rcases h with ⟨hpending, hall⟩ | ⟨m, hm, hstill⟩
  · exact .inl ⟨hpending, fun m => hK m (hall m)⟩
  · exact .inr ⟨m, hK m hm, hstill⟩

/-- The address in front of a block. -/
theorem unpackWord_le32 {a : Word} {block : List Byte} {n : ℕ}
    (h : unpackWord ((le32 a ++ block).take 4) = .ok n) : a.toNat = n := by
  rw [List.take_left' (le32_length a), unpackWord, if_pos (le32_length a)] at h
  have hread : ofLe32 (le32 a) = a := by
    have := ofLe32_le32_append a []
    rwa [List.append_nil] at this
  rw [hread] at h
  exact Except.ok.inj h

/-- **A requested block is the block of the flash** at the address that it was requested for,
whichever request has been answered. -/
theorem requestBlock_knows (hblock : b.cfg.blockSize = 64) (K : Mem → Prop)
    (block flashAddress attempts : ℕ) (primed : Bool) :
    Prog.Triple (world b) (Knows K) (requestBlock block flashAddress attempts primed)
      fun r => Knows fun m => K m ∧ r.1.drop 4 = read m flashAddress 64 := by
  induction attempts generalizing primed with
  | zero => exact Prog.Triple.raise _
  | succ attempts ih =>
      refine Prog.Triple.bind (Q := fun _ => Knows K) ((lift_triple (knows_stable hblock K)
        (packWord flashAddress)).conseq (fun _ h => h) fun _ _ h => h.2) fun payload => ?_
      refine Prog.Triple.bind (sendCommand_knows hblock K payload 5 primed) fun r => ?_
      refine Prog.Triple.bind (lift_triple (knows_stable hblock _) (unpackWord (r.1.take 4)))
        fun recdAddr => ?_
      split_ifs with haddr
      · refine Prog.Triple.conseq (P := fun s => Knows
            (fun m => K m ∧ r.1.drop 4 = read m flashAddress 64) s)
          (Prog.Triple.ret (knows_stable hblock _) _) (fun s hs => hs.2.imp ?_) ?_
        · rintro m ⟨hm, a, hr⟩
          have hunpack := hs.1
          rw [hr] at hunpack ⊢
          rw [unpackWord_le32 hunpack, haddr, List.drop_left' (le32_length a)]
          exact ⟨hm, rfl⟩
        · rintro _ s ⟨rfl, hs⟩
          exact hs
      · exact (ih r.2).conseq (fun s hs => hs.2.imp fun m hm => hm.1) fun _ _ h => h

/-- The blocks of the flash that `verify_file` requests. -/
def readBlocks (m : Mem) (c : CanFlasher) (n : ℕ) : List Byte :=
  (List.range n).flatMap fun i => read m (i * c.blockSize + c.appStartAddr) 64

theorem readBlocks_succ (m : Mem) (c : CanFlasher) (n : ℕ) :
    readBlocks m c (n + 1) =
      readBlocks m c n ++ read m (n * c.blockSize + c.appStartAddr) 64 := by
  rw [readBlocks, List.range_succ, List.flatMap_append, List.flatMap_singleton]
  rfl

theorem readBlocks_length (m : Mem) (c : CanFlasher) (n : ℕ) :
    (readBlocks m c n).length = n * 64 := by
  induction n with
  | zero => rfl
  | succ n ih =>
      rw [readBlocks_succ, List.length_append, ih, read_length]
      omega

theorem requestBlocks_knows (hblock : b.cfg.blockSize = 64) (c : CanFlasher) (n i : ℕ)
    (verSha : List Byte) (primed : Bool) :
    Prog.Triple (world b) (Knows fun m => verSha = readBlocks m c i)
      (requestBlocks c n i verSha primed) fun r => Knows fun m => r.1 = readBlocks m c (i + n) := by
  induction n generalizing i verSha primed with
  | zero =>
      refine Prog.Triple.conseq (Prog.Triple.ret (knows_stable hblock _) _) (fun _ h => h) ?_
      rintro _ s ⟨rfl, hs⟩
      exact hs
  | succ n ih =>
      refine Prog.Triple.bind (requestBlock_knows hblock _ i _ 3 primed) fun r => ?_
      refine (ih (i + 1) (verSha ++ r.1.drop 4) r.2).conseq (fun s hs => hs.imp ?_)
        fun r' s hs => ?_
      · rintro m ⟨hver, hr⟩
        rw [readBlocks_succ, ← hver, hr]
      · rwa [Nat.add_right_comm] at hs

/-- **What `verify_file` has seen when it returns**: the digest of the flash. -/
theorem verifyFile_triple {δ : Type} [DecidableEq δ] (sha1 : List Byte → δ)
    (hblock : b.cfg.blockSize = 64) (c : CanFlasher) :
    Prog.Triple (world b) Quiet (verifyFile sha1 c) fun _ s =>
      sha1 (readBlocks s.device.flash.mem c c.blockCount) = sha1 c.fwSha := by
  refine Prog.Triple.bind ((requestBlocks_knows hblock c c.blockCount 0 [] c.primed).conseq
    (fun s hs => hs.knows fun m => rfl) fun _ _ h => h) fun r => ?_
  dsimp only
  split_ifs with hsha
  · exact Prog.Triple.raise _
  · refine Prog.Triple.conseq (Prog.Triple.ret (knows_stable hblock _) _) (fun _ h => h) ?_
    rintro _ s ⟨rfl, hs⟩
    have hmem := hs.mem
    rw [Nat.zero_add] at hmem
    rw [← hmem]
    exact not_not.mp hsha

/-- Blocks of the right size are read in one piece. -/
theorem readBlocks_eq (m : Mem) {c : CanFlasher} (h : c.blockSize = 64) (n : ℕ) :
    readBlocks m c n = read m c.appStartAddr (n * 64) := by
  induction n with
  | zero => rfl
  | succ n ih =>
      rw [readBlocks_succ, ih, h, Nat.add_mul, Nat.one_mul, read_add, Nat.add_comm (n * 64)]

/-- **No false success** on a link that loses frames and fails to deliver others. -/
theorem sendFile_verifyFile_triple {δ : Type} [DecidableEq δ] {sha1 : List Byte → δ}
    (hblock : b.cfg.blockSize = 64) {file : List Byte} {c : CanFlasher} (hsize : 0 < c.blockSize)
    (hsha : c.fwSha = []) (hcount : c.blockCount = 0)
    (hcollision : ∀ image, sha1 image = sha1 (padFile c.blockSize file) →
      image = padFile c.blockSize file) :
    Prog.Triple (world b) Quiet ((sendFile file c).bind (verifyFile sha1)) fun _ s =>
      read s.device.flash.mem c.appStartAddr (padFile c.blockSize file).length =
        padFile c.blockSize file := by
  refine Prog.Triple.bind (sendFile_triple b file c hsize) fun c' => ?_
  by_cases hsent : Sent file c c'
  swap
  · exact fun s _ _ hs _ => absurd hs.1 hsent
  refine (verifyFile_triple sha1 hblock c').conseq (fun _ h => h.2) fun _ s hs => ?_
  have hfw := hsent.fwSha
  have hn := hsent.blockCount
  rw [hsha, List.nil_append] at hfw
  rw [hcount, Nat.zero_add] at hn
  rw [hfw, hn] at hs
  have himage := hcollision _ hs
  -- as many bytes have been read as the padded file has
  have hlen := congrArg List.length himage
  rw [readBlocks_length, padFile_length hsize] at hlen
  rw [padFile_length hsize]
  obtain hzero | hpos := Nat.eq_zero_or_pos (blocksOf c.blockSize file)
  · have hnil : padFile c.blockSize file = [] :=
      List.eq_nil_of_length_eq_zero (by rw [padFile_length hsize, hzero, Nat.zero_mul])
    rw [hnil, hzero, Nat.zero_mul]
    rfl
  · have hsame : c.blockSize = 64 := (Nat.eq_of_mul_eq_mul_left hpos hlen).symm
    rw [readBlocks_eq _ (hsent.blockSize.trans hsame), hsent.appStartAddr] at himage
    rwa [← hlen]

end FrameLink

end Terraboot
