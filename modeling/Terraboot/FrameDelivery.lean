import Terraboot.AdminQueue
import Terraboot.CanFlasher
import Terraboot.CanSocket
import Terraboot.FlashSession
import Terraboot.ReceiveLoop

/-!
# Frames from the Host to the Device

What becomes of a frame that `_build_command` has built: a serial or a USB link delivers its bytes
in pieces, `CanSocket.send` cuts it into CAN packets which `canserial_process_data` puts together
again, `command_find_block` finds it, and `command_dispatch` reads it.

## Main results

* `CanSocket.send_bytes`: the packets of a payload carry its bytes in order.
* `processData_receives`: the interrupts of packets that fit append their bytes to the buffer.
* `buildCommand_delivered`: every frame the host builds reaches `command_dispatch` unchanged.
-/

open LittleEndian StreamScanner

namespace Terraboot

/-! ### Packets -/

/-- The bytes that a message brings. -/
def CanbusMsg.bytes (msg : CanbusMsg) : List Byte := msg.data.take (canmsgDataLen msg)

@[simp] theorem CanbusMsg.bytes_length (msg : CanbusMsg) : msg.bytes.length = canmsgDataLen msg :=
  canmsgData_length msg

namespace CanSocket

variable {canId : ℕ} {data payload : List Byte}

theorem packet_dlc (h : data.length ≤ 8) : (packet canId data).dlc.toNat = data.length := by
  have hdlc : (packet canId data).dlc = BitVec.ofNat 32 (data.take 8).length := rfl
  rw [hdlc, List.take_of_length_le h, BitVec.toNat_ofNat]
  omega

/-- What is packed is what is received. -/
theorem packet_bytes (h : data.length ≤ 8) : (packet canId data).bytes = data := by
  have hdata : (packet canId data).data =
      data.take 8 ++ List.replicate (8 - (data.take 8).length) 0 := rfl
  rw [CanbusMsg.bytes, canmsgDataLen, packet_dlc h, if_neg h.not_gt, hdata,
    List.take_of_length_le h, List.take_left]

/-- The packets of a payload, one by one. -/
theorem sendPayload_induction {P : List Byte → List CanbusMsg → Prop}
    (last : ∀ data, data.length ≤ 8 → P data [packet canId data])
    (more : ∀ data, 8 < data.length → P (data.drop 8) (sendPayload canId (data.drop 8)) →
      P data (packet canId (data.take 8) :: sendPayload canId (data.drop 8)))
    (payload : List Byte) : P payload (sendPayload canId payload) := by
  induction payload using sendPayload.induct with
  | case1 payload h =>
      rw [sendPayload, if_pos h]
      exact last payload h
  | case2 payload h ih =>
      rw [sendPayload, if_neg h]
      exact more payload (by omega) ih

/-- **The packets carry the payload**, in order. -/
theorem sendPayload_bytes (canId : ℕ) (payload : List Byte) :
    (sendPayload canId payload).flatMap CanbusMsg.bytes = payload :=
  sendPayload_induction (P := fun data msgs => msgs.flatMap CanbusMsg.bytes = data)
    (fun data h => by rw [List.flatMap_singleton, packet_bytes h])
    (fun data _ ih => by
      rw [List.flatMap_cons, ih, packet_bytes (List.length_take_le 8 data),
        List.take_append_drop])
    payload

/-- Each packet is on the id, and of at most 8 bytes. -/
theorem sendPayload_packet (canId : ℕ) (payload : List Byte) :
    ∀ msg ∈ sendPayload canId payload, msg.id = BitVec.ofNat 32 canId ∧ msg.dlc.toNat ≤ 8 := by
  refine sendPayload_induction
    (P := fun _ msgs => ∀ msg ∈ msgs, msg.id = BitVec.ofNat 32 canId ∧ msg.dlc.toNat ≤ 8)
    (fun data h => ?_) (fun data _ ih => ?_) payload
  · intro msg hmsg
    rw [List.mem_singleton.mp hmsg]
    exact ⟨rfl, (packet_dlc h).trans_le h⟩
  · rw [List.forall_mem_cons]
    have htake : (data.take 8).length ≤ 8 := List.length_take_le 8 data
    exact ⟨⟨rfl, (packet_dlc htake).trans_le htake⟩, ih⟩

/-- `CanSocket.send` on an id of 11 bits. -/
theorem send_eq (hid : canId ≤ 0x7FF) (hne : payload ≠ []) :
    send canId payload = sendPayload canId payload := by
  rw [send, if_neg hid.not_gt, if_neg hne]

end CanSocket

/-! ### The interrupts of a burst of packets -/

/-- The interrupts of a burst of packets, with what `canserial_process_data` returns. -/
def processData : CanRx → List CanbusMsg → List ℤ × CanRx
  | s, [] => ([], s)
  | s, msg :: msgs =>
      let r := canserialProcessData s msg
      let rs := processData r.2 msgs
      (r.1 :: rs.1, rs.2)

theorem processData_length (s : CanRx) (msgs : List CanbusMsg) :
    (processData s msgs).1.length = msgs.length := by
  induction msgs generalizing s with
  | nil => rfl
  | cons msg msgs ih => rw [processData, List.length_cons, List.length_cons, ih]

/-- A packet on the device's own id that fits is appended. -/
theorem canserialProcessData_own {s : CanRx} {msg : CanbusMsg} (hid : s.can.assignedId ≠ 0)
    (hmsg : msg.id = s.can.assignedId) (hfits : s.receivePos + msg.bytes.length ≤ receiveBufSize) :
    canserialProcessData s msg =
      (0,
        { s with
          receiveBuf := overwrite s.receiveBuf s.receivePos msg.bytes
          receivePos := s.receivePos + msg.bytes.length
          rxWake := true }) := by
  rw [CanbusMsg.bytes_length] at hfits ⊢
  rw [canserialProcessData, if_pos ⟨hid, hmsg⟩]
  dsimp only
  rw [if_neg (by omega), CanbusMsg.bytes]

/-- **Packets that fit are appended to the buffer**, each interrupt returning 0. -/
theorem processData_receives {msgs : List CanbusMsg} {s : CanRx} (hid : s.can.assignedId ≠ 0)
    (hmsgs : ∀ msg ∈ msgs, msg.id = s.can.assignedId) (hsize : s.receiveBuf.length = receiveBufSize)
    (hfits : s.receivePos + (msgs.flatMap CanbusMsg.bytes).length ≤ receiveBufSize) :
    (∀ ret ∈ (processData s msgs).1, ret = 0) ∧
      (processData s msgs).2.input = s.input ++ msgs.flatMap CanbusMsg.bytes ∧
      (processData s msgs).2.receivePos =
        s.receivePos + (msgs.flatMap CanbusMsg.bytes).length ∧
      (processData s msgs).2.syncState = s.syncState := by
  induction msgs generalizing s with
  | nil => exact ⟨fun _ h => absurd h List.not_mem_nil, (List.append_nil _).symm, rfl, rfl⟩
  | cons msg msgs ih =>
      rw [List.forall_mem_cons] at hmsgs
      rw [List.flatMap_cons, List.length_append] at hfits
      have hstep := canserialProcessData_own hid hmsgs.1 (by omega)
      obtain ⟨s', hs'⟩ : ∃ s', { s with
          receiveBuf := overwrite s.receiveBuf s.receivePos msg.bytes
          receivePos := s.receivePos + msg.bytes.length
          rxWake := true } = s' := ⟨_, rfl⟩
      have hinput : s'.input = s.input ++ msg.bytes := by
        rw [← hs']
        exact overwrite_take_end (by omega)
      obtain ⟨hret, hrest, hpos, hsync⟩ := ih (s := s') (by rw [← hs']; exact hid)
        (by rw [← hs']; exact hmsgs.2)
        (by rw [← hs']; exact (overwrite_length (by omega)).trans hsize)
        (by rw [← hs']; dsimp only; omega)
      rw [processData, hstep, hs', List.flatMap_cons]
      refine ⟨?_, ?_, ?_, ?_⟩
      · rw [List.forall_mem_cons]
        exact ⟨rfl, hret⟩
      · rw [hrest, hinput, List.append_assoc]
      · rw [hpos, List.length_append, ← hs', Nat.add_assoc]
      · rw [hsync, ← hs']

/-- The ids of a device are ids of 11 bits. -/
theorem CanRx.ShortId.le {s : CanRx} (h : s.ShortId) (hne : s.can.assignedId ≠ 0) :
    s.can.assignedId.toNat ≤ 0x7FF := by
  obtain ⟨n, hn, heq⟩ := h hne
  rw [heq, canDecodeNodeid_of_range hn, BitVec.toNat_ofNat]
  omega

/-! ### What the receive loop holds -/

/-- The number of bytes that are buffered or have been dispatched. -/
def RxState.held (s : RxState) : ℕ := s.receiveBuf.length + s.dispatched.flatten.length

theorem consoleTask_held_le (s : RxState) : (consoleTask s).2.held ≤ s.held := by
  simp only [RxState.held, consoleTask]
  split_ifs with hnone hpos
  · simp only [List.flatten_append, List.flatten_singleton, List.length_append, List.length_drop,
      List.length_take]
    omega
  · rw [List.length_drop]
    omega
  · omega
  · exact le_rfl

/-- No byte is held twice. -/
theorem receiveLoop_held_le {fuel : ℕ} {s s' : RxState} (h : receiveLoop fuel s = some s') :
    s'.held ≤ s.held := by
  induction fuel generalizing s with
  | zero => exact absurd h nofun
  | succ fuel ih =>
      have hstep := consoleTask_held_le s
      rw [receiveLoop] at h
      split_ifs at h with hret
      · rwa [← Option.some.inj h]
      · exact (ih h).trans hstep

theorem receiveChunks_held_le {fuel : ℕ} {chunks : List (List Byte)} {s s' : RxState}
    (h : receiveChunks fuel s chunks = some s') :
    s'.held ≤ s.held + chunks.flatten.length := by
  induction chunks generalizing s with
  | nil =>
      rw [← Option.some.inj h]
      exact Nat.le_add_right _ _
  | cons c chunks ih =>
      obtain ⟨t, hloop, hrest⟩ := Option.bind_eq_some_iff.mp h
      have hone := receiveLoop_held_le hloop
      have hmore := ih hrest
      have hreceive : (s.receive c).held = s.held + c.length := by
        rw [RxState.held, RxState.held, RxState.receive, List.length_append]
        exact Nat.add_right_comm _ _ _
      rw [List.flatten_cons, List.length_append]
      omega

/-! ### A frame on its way -/

/-- `command_find_block` takes the whole buffer for one block: at once, or when it has ended the
resync without discarding a byte. -/
def TakenWhole (buf : List Byte) (sync : SyncState) : Prop :=
  ∃ synced, (synced = sync ∨ ∃ nack, commandFindBlock buf sync = ⟨-1, 0, synced, nack⟩) ∧
    commandFindBlock buf synced = ⟨1, buf.length, .init, false⟩

/-- What `command_dispatch` reads of the words it is given: the command, the number of arguments
and the arguments. -/
structure Reads (data : List Byte) (cmd : Byte) (payload : List Byte) : Prop where
  cmd : (getWord data 0 >>> 16) &&& 0xff = cmd.setWidth 32
  argCount : commandGetArgCount data = payload.length / 4
  args : ∀ i < payload.length / 4, getWord data (1 + i) = ofLe32 (payload.drop (4 * i))

section

variable {cmd : Byte} {payload f : List Byte}

/-- A frame in an empty buffer is taken whole, whatever the receiver went through before. -/
theorem IsFrame.takenWhole (h : IsFrame cmd payload f) (hmax : f.length ≤ messageMax)
    (sync : SyncState) : TakenWhole f sync := by
  have hfound (v : Bool) : commandFindBlock f ⟨false, v⟩ = ⟨1, f.length, .init, false⟩ := by
    have hfind := commandFindBlock_frame h hmax [] v
    rwa [List.append_nil] at hfind
  obtain ⟨resync, v⟩ := sync
  cases resync with
  | false => exact ⟨_, .inl rfl, hfound v⟩
  | true =>
      obtain ⟨tail, htail⟩ : ∃ tail, f = messageStx1 :: tail := ⟨_, by rw [h.bytes]; rfl⟩
      refine ⟨⟨false, true⟩, .inr ⟨!v, ?_⟩, hfound true⟩
      rw [htail]
      exact commandFindBlock_resync tail v

/-- A frame that arrives in pieces is dispatched in one piece, and nothing of it stays behind. -/
theorem IsFrame.receiveChunks (h : IsFrame cmd payload f) (hmax : f.length ≤ messageMax)
    (sync : SyncState) (k : ℕ) {chunks : List (List Byte)} (hchunks : chunks.flatten = f) :
    ∃ s, receiveChunks (2 * chunks.flatten.length + 2 + k) ⟨[], sync, [], 0⟩ chunks = some s ∧
      s.dispatched = [f] ∧ s.receiveBuf = [] := by
  obtain ⟨s, hrun, htracks, hwaits⟩ := receiveChunks_run (2 * chunks.flatten.length + 2 + k) chunks
    [] ⟨[], sync, [], 0⟩ Classifier.Tracks.init rfl (by simp only [List.length_nil]; omega)
  have hverdict : blockClassifier.classify f = .accept f.length :=
    (blockVerdict_accept_iff f f.length).mpr
      ⟨hmax, cmd, payload, f, [], h, (List.append_nil f).symm, rfl⟩
  have hblocks := Classifier.Tracks.blocks_eq_of_undecided htracks hwaits
  rw [List.nil_append, hchunks, Classifier.blocks_accept _ hverdict, List.take_length,
    List.drop_length, Classifier.blocks_undecided _ rfl] at hblocks
  have hheld := receiveChunks_held_le hrun
  rw [RxState.held, ← hblocks, hchunks, RxState.held, List.flatten_singleton] at hheld
  have hnil : s.receiveBuf.length = 0 := by
    simp only [List.length_nil, List.flatten_nil] at hheld
    omega
  exact ⟨s, hrun, hblocks.symm, List.eq_nil_of_length_eq_zero hnil⟩

/-- `command_dispatch` reads what the frame was built from. -/
theorem reads_frame (h : IsFrame cmd payload f) : Reads f cmd payload := by
  obtain ⟨haligned, hcount, rfl⟩ := h
  refine ⟨getWord_cmd _, ?_, fun i hi => ?_⟩
  · have hthree : (frame cmd payload).getD 3 0 = BitVec.ofNat 8 (payload.length / 4) := rfl
    rw [commandGetArgCount_eq, hthree, BitVec.toNat_ofNat, Nat.mod_eq_of_lt hcount]
  · obtain ⟨rest, hrest⟩ : ∃ rest, (frame cmd payload).drop 4 = payload ++ rest :=
      ⟨le16 (crc16Ccitt (cmd :: wordCount payload :: payload)) ++ [messageSync2, messageSync],
        List.append_assoc _ _ _⟩
    rw [getWord, Nat.mul_add, ← List.drop_drop, hrest, ← ofLe32_take, ← ofLe32_take (payload.drop _),
      List.drop_append_of_le_length (by omega),
      List.take_append_of_le_length (by rw [List.length_drop]; omega)]

end

/-- **A frame the host builds reaches `command_dispatch` unchanged.** In an empty buffer and any
`sync_state` it is found as one block of its own length; a link may deliver it in any pieces, the
receive loop running in between; and the packets that `CanSocket.send` cuts it into, each of at
most 8 bytes, put it together again in the receive buffer of a device that has an id. The block
has the command, the argument count and the words the host gave. -/
theorem buildCommand_delivered (cmd : Byte) {payload : List Byte}
    (haligned : payload.length % 4 = 0) (hmax : payload.length ≤ 120) :
    (∀ sync, TakenWhole (CanFlasher.buildCommand cmd payload) sync) ∧
      (∀ sync chunks k, chunks.flatten = CanFlasher.buildCommand cmd payload →
        ∃ s, receiveChunks (2 * chunks.flatten.length + 2 + k) ⟨[], sync, [], 0⟩ chunks = some s ∧
          s.dispatched = [CanFlasher.buildCommand cmd payload] ∧ s.receiveBuf = []) ∧
      (∀ u moves, ((CanRx.boot u).run moves).can.assignedId ≠ 0 →
        ((CanRx.boot u).run moves).receivePos = 0 →
        ∃ msgs s, msgs = CanSocket.send ((CanRx.boot u).run moves).can.assignedId.toNat
            (CanFlasher.buildCommand cmd payload) ∧
          (∀ msg ∈ msgs, msg.dlc.toNat ≤ 8) ∧
          processData ((CanRx.boot u).run moves) msgs = (List.replicate msgs.length 0, s) ∧
          s.input = CanFlasher.buildCommand cmd payload ∧
          s.syncState = ((CanRx.boot u).run moves).syncState) ∧
      Reads (CanFlasher.buildCommand cmd payload) cmd payload := by
  obtain ⟨f, hf⟩ : ∃ f, CanFlasher.buildCommand cmd payload = f := ⟨_, rfl⟩
  have hframe : IsFrame cmd payload f :=
    ⟨haligned, by omega, hf.symm.trans (CanFlasher.buildCommand_eq cmd payload)⟩
  have hlen : f.length ≤ messageMax := by
    rw [hframe.length_eq, messageMax]
    omega
  rw [hf]
  refine ⟨hframe.takenWhole hlen, fun sync chunks k => hframe.receiveChunks hlen sync k, ?_,
    reads_frame hframe⟩
  intro u moves hid hempty
  obtain ⟨s, hs⟩ : ∃ s, (CanRx.boot u).run moves = s := ⟨_, rfl⟩
  have hshape := canRx_shape u moves
  have hshort := (canRx_queueInv u moves).2
  rw [hs] at hid hempty hshape hshort ⊢
  have hne : f ≠ [] := List.ne_nil_of_length_pos (by rw [hframe.length_eq]; omega)
  have hsend : CanSocket.send s.can.assignedId.toNat f =
      CanSocket.sendPayload s.can.assignedId.toNat f := CanSocket.send_eq (hshort.le hid) hne
  have hmsgs := CanSocket.sendPayload_packet s.can.assignedId.toNat f
  have hbytes := CanSocket.sendPayload_bytes s.can.assignedId.toNat f
  rw [BitVec.ofNat_toNat, BitVec.setWidth_eq] at hmsgs
  obtain ⟨hret, hinput, -, hsync⟩ := processData_receives hid (fun msg hmsg => (hmsgs msg hmsg).1)
    hshape.size (by rw [hbytes, hempty, Nat.zero_add]; exact hlen.trans (by decide))
  refine ⟨_, (processData s (CanSocket.send s.can.assignedId.toNat f)).2, rfl, ?_, ?_, ?_, ?_⟩
  · rw [hsend]
    exact fun msg hmsg => (hmsgs msg hmsg).2
  · rw [hsend]
    refine Prod.ext ?_ rfl
    rw [← processData_length s]
    exact List.eq_replicate_of_mem hret
  · rw [hsend, hinput, hbytes, CanRx.input, hempty, List.take_zero, List.nil_append]
  · rw [hsend, hsync]

/-- A request to write a block of zeros to a device that has just been given a short id. -/
theorem buildCommand_delivered_block :
    ∃ s, (processData ((CanRx.boot steinzeitDevice.uuid).run
        (.irq (setNodeidRequest steinzeitDevice.uuid 5) :: List.replicate 20 .task))
        (CanSocket.send 0xc0 (CanFlasher.buildCommand 0x12 (List.replicate 68 0)))).2 = s ∧
      s.input = CanFlasher.buildCommand 0x12 (List.replicate 68 0) := by
  obtain ⟨-, -, hcan, -⟩ := buildCommand_delivered 0x12
    (show (List.replicate 68 (0 : Byte)).length % 4 = 0 by decide) (by decide)
  obtain ⟨msgs, s, rfl, -, hrun, hinput, -⟩ := hcan steinzeitDevice.uuid
    (.irq (setNodeidRequest steinzeitDevice.uuid 5) :: List.replicate 20 .task)
    (by decide +kernel) (by decide +kernel)
  have hid : ((CanRx.boot steinzeitDevice.uuid).run (.irq (setNodeidRequest steinzeitDevice.uuid 5)
      :: List.replicate 20 .task)).can.assignedId.toNat = 0xc0 := by decide +kernel
  rw [hid] at hrun
  exact ⟨s, by rw [hrun], hinput⟩

end Terraboot
