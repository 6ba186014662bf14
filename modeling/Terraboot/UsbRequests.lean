import Terraboot.UsbTransfer

/-!
# Descriptors and Line Codings

What the transfers of `generic/usb_cdc.c` come to on the endpoint: a transfer that sends puts the
bytes on the bus packet by packet, one that reads stores them and sends an empty status packet.

## Main results

* `usbDoXfer_sends`, `usbDoXfer_receives`: any transfer of up to 255 bytes, over any passes.
* `usb_transfers_resume`: what is sent for a descriptor, and what is stored for a line coding.
-/

open NorFlash

namespace Terraboot

/-! ### Sending -/

/-- What has been sent of some packets. If the transfer is not over, at least `k` of them have; if
the hardware reported an error, the endpoint has been stalled at once. -/
inductive Sends (k : ℕ) (packets : List (List Byte)) (log : List Ep0Event)
    (s' : Ep0) : Prop
  | pending {sent left : List (List Byte)} (hsplit : packets = sent ++ left) (hleft : left ≠ [])
      (hk : k ≤ sent.length) (hlog : s'.log = log ++ sent.map .sent) (hbusy : s'.xferFlags ≠ 0)
  | completed (hlog : s'.log = log ++ packets.map .sent) (hidle : s'.xferFlags = 0)
  | failed {sent left : List (List Byte)} {code : ℕ} (hsplit : packets = sent ++ left)
      (hleft : left ≠ []) (hlog : s'.log = log ++ sent.map .sent ++ [.failed code, .stall])
      (hidle : s'.xferFlags = 0)

theorem Performs.sent {packets : List (List Byte)} {m m' : Mem} {events : List Ep0Event}
    (h : Performs (packets.map .send) m events m') : events = packets.map .sent ∧ m' = m := by
  induction packets generalizing events with
  | nil =>
      cases h
      exact ⟨rfl, rfl⟩
  | cons p packets ih =>
      cases h with
      | send _ h =>
          obtain ⟨rfl, rfl⟩ := ih h
          exact ⟨rfl, rfl⟩

theorem Fails.of_send {p : List Byte} {m m' : Mem} {events : List Ep0Event}
    (h : Fails (.send p) m events m') : ∃ code, events = [.failed code] ∧ m' = m := by
  cases h with
  | error _ _ code => exact ⟨code, rfl, rfl⟩

theorem Outcome.sends {k : ℕ} {packets : List (List Byte)} {s s' : Ep0}
    (h : Outcome k (packets.map .send) s s') : s'.mem = s.mem ∧ Sends k packets s.log s' := by
  cases h with
  | pending hsplit hrest hk hdone hlog hbusy _ =>
      obtain ⟨sent, left, rfl, rfl, rfl⟩ := List.map_eq_append_iff.mp hsplit
      obtain ⟨rfl, hmem⟩ := hdone.sent
      rw [List.length_map] at hk
      exact ⟨hmem, .pending rfl (fun h => hrest (congrArg (List.map _) h)) hk hlog hbusy⟩
  | completed hdone hlog hidle =>
      obtain ⟨rfl, hmem⟩ := hdone.sent
      exact ⟨hmem, .completed hlog hidle⟩
  | failed hsplit hdone hfail hlog hidle =>
      obtain ⟨sent, left, rfl, rfl, hstep⟩ := List.map_eq_append_iff.mp hsplit
      obtain ⟨p, left', rfl, rfl, -⟩ := List.map_eq_cons_iff.mp hstep
      obtain ⟨rfl, rfl⟩ := hdone.sent
      obtain ⟨code, rfl, hmem⟩ := hfail.of_send
      have hlog' : s'.log = s.log ++ sent.map .sent ++ [.failed code, .stall] := by
        rw [hlog, List.append_assoc _ [_] [_]]
        rfl
      exact ⟨hmem, .failed rfl (List.cons_ne_nil _ _) hlog' hidle⟩

/-- The steps of a transfer that sends. -/
theorem xferSteps_send (m : Mem) (data : ℕ) {size : ℕ} (hpos : 0 < size) {flags : Byte}
    (hread : flags &&& uxRead = 0) : xferSteps m data size flags =
      (Packets.split usbCdcEp0Size (read m data size) ++
        if flags &&& uxSendZlp ≠ 0 ∧ usbCdcEp0Size ∣ size then [[]] else []).map .send := by
  have hlen : (read m data size).length = size := read_length m data size
  have hne : read m data size ≠ [] := List.ne_nil_of_length_pos (by omega)
  rw [xferSteps, if_neg (not_not.mpr hread), sendPackets, hlen]
  simp only [hne, ne_eq, not_false_eq_true, true_and]

/-! ### Receiving -/

/-- What has been received of `size` bytes for an address. When they all have, an empty status packet
is sent. A packet that is too short counts as an error. -/
inductive Receives (k addr size : ℕ) (m : Mem) (log : List Ep0Event)
    (s' : Ep0) : Prop
  | pending {packets : List (List Byte)} (hle : packets.flatten.length ≤ size)
      (hk : k ≤ packets.length) (hmem : s'.mem = write m addr packets.flatten)
      (hlog : s'.log = log ++ packets.map .received) (hbusy : s'.xferFlags ≠ 0)
  | completed {packets : List (List Byte)} (hlen : packets.flatten.length = size)
      (hmem : s'.mem = write m addr packets.flatten)
      (hlog : s'.log = log ++ packets.map .received ++ [.sent []]) (hidle : s'.xferFlags = 0)
  | failed {packets : List (List Byte)} {code : ℕ} (hle : packets.flatten.length ≤ size)
      (hmem : s'.mem = write m addr packets.flatten)
      (hlog : s'.log = log ++ packets.map .received ++ [.failed code, .stall])
      (hidle : s'.xferFlags = 0)
  | short {packets : List (List Byte)} {rest : List Byte} (hrest : rest.length < usbCdcEp0Size)
      (hlt : packets.flatten.length + rest.length < size)
      (hmem : s'.mem = write m addr (packets.flatten ++ rest))
      (hlog : s'.log = log ++ packets.map .received ++ [.received rest, .stall])
      (hidle : s'.xferFlags = 0)

/-- Some of the packets of a read, and what is left of it. -/
theorem Performs.received {done rest : List XferStep} {data size : ℕ}
    (hsplit : receiveSteps data size = done ++ rest) {m m' : Mem} {events : List Ep0Event}
    (h : Performs done m events m') : ∃ packets : List (List Byte), packets.length = done.length ∧
      events = packets.map .received ∧ m' = write m data packets.flatten ∧
      (packets.flatten.length = size ∧ rest = [] ∨ packets.flatten.length ≤ size ∧
        rest = receiveSteps (data + packets.flatten.length) (size - packets.flatten.length)) := by
  induction h generalizing data size with
  | nil m => exact ⟨[], rfl, rfl, (write_nil m data).symm, .inr ⟨Nat.zero_le _, hsplit.symm⟩⟩
  | send packet _ _ =>
      rw [receiveSteps] at hsplit
      split_ifs at hsplit <;> cases hsplit
  | @receive steps m m' events addr len bytes hlen hrest ih =>
      rw [receiveSteps] at hsplit
      split_ifs at hsplit with hmore
      · obtain ⟨hstep, hsteps⟩ := List.cons_eq_cons.mp hsplit
        obtain ⟨rfl, rfl⟩ := XferStep.receive.inj hstep
        obtain ⟨packets, hcount, rfl, hmem, hleft⟩ := ih hsteps
        refine ⟨bytes :: packets, by simp [hcount], rfl, ?_, ?_⟩
        · rw [List.flatten_cons, write_append, hlen, hmem]
        · rw [List.flatten_cons, List.length_append, hlen, ← Nat.add_assoc, ← Nat.sub_sub]
          refine hleft.imp (fun h => ⟨by omega, h.2⟩) fun h => ⟨by omega, h.2⟩
      · obtain ⟨hstep, hsteps⟩ := List.cons_eq_cons.mp hsplit
        obtain ⟨rfl, rfl⟩ := XferStep.receive.inj hstep
        obtain ⟨rfl, rfl⟩ := List.append_eq_nil_iff.mp hsteps.symm
        cases hrest
        exact ⟨[bytes], rfl, rfl, by simp, .inl ⟨by simp [hlen], rfl⟩⟩

/-- The next packet of a read. -/
theorem receiveSteps_head {data size : ℕ} {step : XferStep} {rest : List XferStep}
    (h : receiveSteps data size = step :: rest) : step = .receive data (xferLen size) := by
  rw [receiveSteps] at h
  rw [xferLen]
  split_ifs at h ⊢ <;> exact (List.cons_eq_cons.mp h).1.symm

theorem xferLen_le (size : ℕ) : xferLen size ≤ size ∧ xferLen size ≤ usbCdcEp0Size := by
  rw [xferLen]
  split_ifs <;> omega

theorem Fails.of_receive {addr len : ℕ} {m m' : Mem} {events : List Ep0Event}
    (h : Fails (.receive addr len) m events m') : (∃ code, events = [.failed code] ∧ m' = m) ∨
      ∃ bytes : List Byte, bytes.length < len ∧ events = [.received bytes] ∧
        m' = write m addr bytes := by
  cases h with
  | error _ _ code => exact .inl ⟨code, rfl, rfl⟩
  | short hlen _ => exact .inr ⟨_, hlen, rfl, rfl⟩

/-- A read that is not over has performed only a part of its steps that receive. -/
theorem receiveSteps_split {addr size : ℕ} {done rest : List XferStep}
    (h : receiveSteps addr size ++ [.send []] = done ++ rest) (hrest : rest ≠ []) :
    ∃ left, receiveSteps addr size = done ++ left ∧ rest = left ++ [.send []] := by
  rcases List.eq_nil_or_concat rest with rfl | ⟨left, last, rfl⟩
  · exact absurd rfl hrest
  rw [List.concat_eq_append, ← List.append_assoc] at h
  obtain ⟨hsteps, hlast⟩ := List.append_inj' h rfl
  exact ⟨left, hsteps, by rw [List.concat_eq_append, hlast]⟩

theorem Outcome.receives {k addr size : ℕ} {s s' : Ep0}
    (h : Outcome k (receiveSteps addr size ++ [.send []]) s s') :
    Receives k addr size s.mem s.log s' := by
  cases h with
  | pending hsplit hrest hk hdone hlog hbusy _ =>
      obtain ⟨left, hleft, -⟩ := receiveSteps_split hsplit hrest
      obtain ⟨packets, hcount, rfl, hmem, hle⟩ := hdone.received hleft
      exact .pending (by omega) (hcount ▸ hk) hmem hlog hbusy
  | completed hdone hlog hidle =>
      obtain ⟨events₁, events₂, m, rfl, hread, hstatus⟩ := hdone.of_append
      have hempty : Performs ([[]].map .send) m events₂ s'.mem := hstatus
      obtain ⟨packets, -, rfl, rfl, hall⟩ := hread.received (List.append_nil _).symm
      have hlen : packets.flatten.length = size :=
        hall.elim And.left fun h => absurd h.2.symm (receiveSteps_ne_nil _ _)
      obtain ⟨rfl, hmem⟩ := hempty.sent
      exact .completed hlen hmem (by rw [hlog, ← List.append_assoc]; rfl) hidle
  | failed hsplit hdone hfail hlog hidle =>
      obtain ⟨left, hleft, hrest⟩ := receiveSteps_split hsplit (List.cons_ne_nil _ _)
      obtain ⟨packets, -, rfl, rfl, hnext⟩ := hdone.received hleft
      cases left with
      | nil =>
          -- the status packet has failed
          obtain ⟨rfl, -⟩ := List.cons_eq_cons.mp hrest
          obtain ⟨code, rfl, hmem⟩ := hfail.of_send
          exact .failed (by omega) hmem (by rw [hlog, List.append_assoc _ [_] [_]]; rfl) hidle
      | cons step left =>
          obtain ⟨rfl, -⟩ := List.cons_eq_cons.mp hrest
          obtain ⟨-, hnil⟩ | ⟨hle, hsteps⟩ := hnext
          · exact absurd hnil (List.cons_ne_nil _ _)
          obtain rfl := receiveSteps_head hsteps.symm
          obtain ⟨hlen, hsize⟩ := xferLen_le (size - packets.flatten.length)
          obtain ⟨code, rfl, hmem⟩ | ⟨bytes, hshort, rfl, hmem⟩ := hfail.of_receive
          · exact .failed hle hmem (by rw [hlog, List.append_assoc _ [_] [_]]; rfl) hidle
          · rw [← write_append] at hmem
            exact .short (by omega) (by omega) hmem
              (by rw [hlog, List.append_assoc _ [_] [_]]; rfl) hidle

/-! ### Whole transfers -/

/-- The packets that a hardware takes or gives at least. -/
def offersCount (first : List Ep0Reply) (later : List Ep0Pass) : ℕ :=
  (offered first).toNat + later.countP Ep0Pass.offers

/-- **A transfer that sends**: the bytes go out in full packets and the rest, with an empty packet
behind them if it is asked for and the last one is full. -/
theorem usbDoXfer_sends {b : UsbBuild} (s : Ep0) (data : ℕ) {size : ℕ} (hpos : 1 ≤ size)
    (hsize : size ≤ 255) {flags : Byte} (hflags : flags ≠ 0) (hread : flags &&& uxRead = 0)
    {first : List Ep0Reply} {later : List Ep0Pass}
    (hlater : (usbDoXfer s data size flags first).Unfinished b later) :
    ((usbDoXfer s data size flags first).run b later).mem = s.mem ∧
      ∃ packets, Packets.IsSplit usbCdcEp0Size (read s.mem data size) packets ∧
        Sends (offersCount first later) (packets ++
          if flags &&& uxSendZlp ≠ 0 ∧ usbCdcEp0Size ∣ size then [[]] else [])
          s.log ((usbDoXfer s data size flags first).run b later) := by
  have hout := run_outcome (usbDoXfer_outcome s data hsize hflags first) hlater
  rw [xferSteps_send s.mem data hpos hread] at hout
  obtain ⟨hmem, hsends⟩ := hout.sends
  have hne : read s.mem data size ≠ [] :=
    List.ne_nil_of_length_pos (by rw [read_length]; exact hpos)
  exact ⟨hmem, _, Packets.split_isSplit (by decide) hne, hsends⟩

/-- **A transfer that reads**: the bytes are stored, and a status packet is sent. -/
theorem usbDoXfer_receives {b : UsbBuild} (s : Ep0) (data : ℕ) {size : ℕ} (hsize : size ≤ 255)
    {first : List Ep0Reply} {later : List Ep0Pass}
    (hlater : (usbDoXfer s data size uxRead first).Unfinished b later) :
    Receives (offersCount first later) data size s.mem s.log
      ((usbDoXfer s data size uxRead first).run b later) := by
  have hsteps : xferSteps s.mem data size uxRead = receiveSteps data size ++ [.send []] :=
    if_pos (by decide)
  have hout := run_outcome (usbDoXfer_outcome s data hsize (by decide) first) hlater
  rw [hsteps] at hout
  exact hout.receives

/-- The request is for a descriptor of the table, at the given address and of the given size. -/
structure UsbBuild.GetsDescriptor (b : UsbBuild) (m : Mem) (req : UsbCtrlrequest) (desc size : ℕ) :
    Prop where
  request : req.bRequest = Usbstd.reqGetDescriptor
  type : req.bRequestType = Usbstd.dirIn
  found : b.findDescriptor m req = some (desc, size)

/-- A valid request to set the line coding. -/
structure UsbCtrlrequest.SetsLineCoding (req : UsbCtrlrequest) : Prop where
  request : req.bRequest = usbCdcReqSetLineCoding
  type : req.bRequestType = 0x21
  value : req.wValue = 0
  index : req.wIndex = 0
  length : req.wLength.toNat = lineCodingSize

theorem UsbBuild.GetsDescriptor.usbRequest {b : UsbBuild} {s : Ep0} {req : UsbCtrlrequest}
    {desc size : ℕ} (h : b.GetsDescriptor s.mem req desc size) (replies : List Ep0Reply) :
    usbRequest b s req replies = usbDoXfer s desc (min size req.wLength.toNat)
      (if size < req.wLength.toNat then uxSend ||| uxSendZlp else uxSend) replies := by
  rw [Terraboot.usbRequest, if_pos h.request, usbReqGetDescriptor, if_neg (not_not.mpr h.type),
    h.found]
  dsimp only
  rcases lt_or_ge req.wLength.toNat size with hshort | hshort
  · rw [if_pos hshort, min_eq_right hshort.le, if_neg hshort.le.not_gt]
  · rw [if_neg hshort.not_gt, min_eq_left hshort]
    split_ifs <;> rfl

theorem UsbCtrlrequest.SetsLineCoding.usbRequest {req : UsbCtrlrequest} (h : req.SetsLineCoding)
    (b : UsbBuild) (s : Ep0) (replies : List Ep0Reply) :
    usbRequest b s req replies = usbDoXfer s b.lineCoding lineCodingSize uxRead replies := by
  rw [Terraboot.usbRequest, h.request, if_neg (by decide), if_neg (by decide), if_neg (by decide),
    if_pos rfl, usbReqSetLineCoding, h.type, h.value, h.index, h.length]
  exact if_neg (by decide)

/-- **Control transfers survive interruption.** Whatever the hardware answers in the pass that takes
the request and in all later ones that go on with it: a descriptor goes out in full packets and the
rest, as far as it was asked for, with an empty packet behind it exactly if it is shorter than asked
for and ends with a full packet; a line coding is stored and then acknowledged by one empty packet.
When a transfer is over the endpoint is idle, and when it is over because of an error, stalled. -/
theorem usb_transfers_resume (b : UsbBuild) {s : Ep0} (hidle : s.xferFlags = 0) {notified : Bool}
    (hwake : (s.wake || notified) = true) {setup : List Byte} (hsetup : setup.length = 8)
    (first : List Ep0Reply) {later : List Ep0Pass}
    (hlater : (s.step b ⟨notified, .packet setup :: first⟩).Unfinished b later) :
    let req := UsbCtrlrequest.ofBytes setup
    let s' := s.run b (⟨notified, .packet setup :: first⟩ :: later)
    (∀ desc size, b.GetsDescriptor s.mem req desc size → 1 ≤ size → size ≤ 255 →
      1 ≤ req.wLength.toNat → s'.mem = s.mem ∧
        ∃ packets, Packets.IsSplit usbCdcEp0Size
            (read s.mem desc (min size req.wLength.toNat)) packets ∧
          Sends (offersCount first later) (packets ++
            if size < req.wLength.toNat ∧ usbCdcEp0Size ∣ size then [[]] else []) s.log s') ∧
      (req.SetsLineCoding →
        Receives (offersCount first later) b.lineCoding lineCodingSize s.mem s.log s') := by
  intro req s'
  have hs' : s' = (usbRequest b { s with wake := false } req first).run b later :=
    congrArg (Ep0.run b · later) (Ep0.step_setup hidle hwake hsetup rfl)
  rw [Ep0.step_setup hidle hwake hsetup rfl] at hlater
  rw [hs']
  refine ⟨fun desc size hget hpos hsize hlength => ?_, fun hset => ?_⟩
  · have hflags : (if size < req.wLength.toNat then uxSend ||| uxSendZlp else uxSend) ≠ 0 := by
      split_ifs <;> decide
    have hread :
        (if size < req.wLength.toNat then uxSend ||| uxSendZlp else uxSend) &&& uxRead = 0 := by
      split_ifs <;> decide
    rw [hget.usbRequest (s := { s with wake := false })] at hlater ⊢
    obtain ⟨hmem, packets, hsplit, hsends⟩ :=
      usbDoXfer_sends { s with wake := false } desc (by omega) (by omega) hflags hread hlater
    have hzlp : (if size < req.wLength.toNat then uxSend ||| uxSendZlp else uxSend) &&& uxSendZlp ≠ 0 ∧
        usbCdcEp0Size ∣ min size req.wLength.toNat ↔
          size < req.wLength.toNat ∧ usbCdcEp0Size ∣ size := by
      split_ifs with hlong
      · rw [min_eq_left hlong.le]
        exact and_congr (iff_of_true (by decide) hlong) Iff.rfl
      · exact iff_of_false (fun h => h.1 (by decide)) fun h => hlong h.1
    rw [if_congr hzlp rfl rfl] at hsends
    exact ⟨hmem, packets, hsplit, hsends⟩
  · rw [hset.usbRequest] at hlater ⊢
    exact usbDoXfer_receives { s with wake := false } b.lineCoding (by decide) hlater

/-- A build with a device descriptor of 18 bytes. -/
def deviceBuild : UsbBuild where
  cdcDescriptors := [⟨0x0100, 0, 0x1000, 18⟩]
  serialid := none
  lineCoding := 0x2000

/-- The endpoint after a setup packet has arrived. -/
def readyEp0 : Ep0 where
  mem := fun _ => 0
  wake := true
  xferData := 0
  xferSize := 0
  xferFlags := 0
  lineControlState := 0
  log := []

/-- A host asks for 64 bytes of the device descriptor. -/
def deviceSetup : List Byte := [0x80, 0x06, 0x00, 0x01, 0x00, 0x00, 0x40, 0x00]

/-- The hardware takes one packet of it and then one more in the next pass. -/
theorem usb_transfers_resume_device :
    ∃ packets, Packets.IsSplit 16 (List.replicate 18 0) packets ∧
      Sends 2 packets [] (readyEp0.run deviceBuild
        [⟨false, [.packet deviceSetup, .packet [], .busy]⟩, ⟨true, [.packet []]⟩]) := by
  have hlater : (readyEp0.step deviceBuild
      ⟨false, [.packet deviceSetup, .packet [], .busy]⟩).Unfinished deviceBuild
      [⟨true, [.packet []]⟩] := by
    intro pre p post hsplit
    obtain ⟨rfl, -⟩ | ⟨_, -, hnil⟩ := List.cons_eq_append_iff.mp hsplit
    · decide +kernel
    · exact absurd (List.append_eq_nil_iff.mp hnil.symm).2 (List.cons_ne_nil _ _)
  have hget : deviceBuild.GetsDescriptor readyEp0.mem (.ofBytes deviceSetup) 0x1000 18 :=
    ⟨by decide, by decide, by decide⟩
  obtain ⟨-, packets, hsplit, hsends⟩ := (usb_transfers_resume deviceBuild rfl rfl rfl
    [.packet [], .busy] hlater).1 0x1000 18 hget (by decide) (by decide) (by decide)
  rw [if_neg (by decide), List.append_nil] at hsends
  exact ⟨packets, hsplit, hsends⟩

end Terraboot
