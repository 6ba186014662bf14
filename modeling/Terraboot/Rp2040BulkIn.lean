import Terraboot.Handoff
import Terraboot.Rp2040Usb

/-!
# Packets to the host on the rp2040

`usb_send_bulk_in` of `rp2040/usbserial.c` with the USB controller and the host. The firmware fills
the two buffers of the endpoint in turn. When the host asks for a packet the controller sends the
buffer whose turn it is, if that is available, and keeps the packet until it has seen the host
acknowledge it; what it sends may be lost, and so may the acknowledgement. The host takes a packet
with the transfer PID it expects, and acknowledges any other without taking it. As in the other
direction every access to a register and every byte that is moved is a step of its own.

## Main results

* `BulkIn.Good.step`: what every step preserves.
* `bulkIn_exact`: over every run, the host has the packets that `usb_send_bulk_in` accepted, each
  whole and once and in their order, but for at most two that are in the buffers.
-/

namespace Terraboot.Rp2040Usb

def usbCdcEpBulkIn : ℕ := 1

/-- A packet of the firmware. -/
abbrev InPacket := { p : List Byte // p.length ≤ dpbufSize }

/-- Where `usb_send_bulk_in` stands, with its local variables. -/
inductive WritePc
  | idle
  /-- There is room for the packet. -/
  | claim (bufnum : Fin 2) (data : InPacket)
  /-- `dpram_memcpy` has moved `i` bytes. -/
  | copy (bufnum : Fin 2) (data : InPacket) (i : ℕ)
  deriving DecidableEq

/-- 1 while a packet is claimed and not yet accepted. -/
def WritePc.claimed : WritePc → ℕ
  | .idle => 0
  | .claim _ _ | .copy _ _ _ => 1

/-- The endpoint as the firmware, the controller and the host share it: the variables of the
firmware, the shared memory, the buffer that the controller has come to and what it has sent of a
packet, the packets for which `usb_send_bulk_in` has returned their length, and those that the host
has taken. -/
structure BulkIn where
  bulkInPopCount : BitVec 32
  epbuf : Fin 2 → BitVec 16
  dpram : ℕ → Byte
  pc : WritePc
  sel : Fin 2
  sending : Option (List Byte)
  accepted : List (List Byte)
  received : List (List Byte)

/-- What a step of the system is. -/
inductive InEvent
  /-- `usb_send_bulk_in` is called. -/
  | call (data : InPacket)
  /-- It takes its next step. -/
  | firmware
  /-- The host asks for a packet. -/
  | token
  | byte
  /-- The packet is complete. It reaches the host, or does not, and so does the handshake the
  controller. -/
  | finish (arrived ackSeen : Bool) (rest : BitVec 16)
  /-- The transfer fails. -/
  | abort
  /-- Something else in the shared memory is written. -/
  | other (addr : ℕ) (x : Byte)

namespace BulkIn

/-- After `usb_set_configure`, with the controller and the host at their first packet. -/
def usbSetConfigure (dpram : ℕ → Byte) : BulkIn where
  bulkInPopCount := 0
  epbuf _ := 0
  dpram := dpram
  pc := .idle
  sel := firstBuf
  sending := none
  accepted := []
  received := []

/-- A write of a buffer control register. -/
def setEpbuf (s : BulkIn) (b : Fin 2) (epb : BitVec 16) : BulkIn :=
  { s with epbuf := Function.update s.epbuf b epb }

/-- `usb_send_bulk_in`, up to the check for room -/
def usbSendBulkIn (s : BulkIn) (data : InPacket) : BulkIn :=
  match s.pc with
  | .idle =>
      let b := bufnum s.bulkInPopCount
      if s.epbuf b &&& (usbBufCtrlAvail ||| usbBufCtrlFull) ≠ 0 then s
      else { s with bulkInPopCount := s.bulkInPopCount + 1, pc := .claim b data }
  | _ => s

/-- `usb_send_bulk_in`, behind the check -/
def fillBulkIn (s : BulkIn) : BulkIn :=
  match s.pc with
  | .idle => s
  | .claim b data => { s.setEpbuf b (newInEpb b data.val.length) with pc := .copy b data 0 }
  | .copy b data i =>
      match data.val[i]? with
      | some x =>
          { s with dpram := Function.update s.dpram (usbBufAddr usbCdcEpBulkIn b + i) x,
                   pc := .copy b data (i + 1) }
      | none =>
          { s.setEpbuf b (newInEpb b data.val.length ||| usbBufCtrlAvail) with
            pc := .idle, accepted := s.accepted ++ [data.val] }

/-- The controller gives up a packet, or is done with it. -/
def stop (s : BulkIn) : BulkIn := { s with sending := none }

/-- The controller has sent `got` and sends the byte behind it. -/
def sendByte (s : BulkIn) (got : List Byte) : BulkIn :=
  { s with sending := some (got ++ [s.dpram (usbBufAddr usbCdcEpBulkIn s.sel + got.length)]) }

/-- The host gets a packet, and takes it if it has the right PID. -/
def arrive (s : BulkIn) (got : List Byte) : BulkIn :=
  if s.epbuf s.sel &&& usbBufCtrlData1Pid = bufPid (bufAt s.received.length) then
    { s with received := s.received ++ [got] }
  else s

/-- The controller writes its status back and turns to the other buffer. -/
def complete (s : BulkIn) (rest : BitVec 16) : BulkIn :=
  { s.setEpbuf s.sel (statusIn rest) with sel := otherBuf s.sel }

/-- One step. -/
def step (s : BulkIn) : InEvent → BulkIn
  | .call data => s.usbSendBulkIn data
  | .firmware => s.fillBulkIn
  | .token =>
      if s.sending = none ∧ isAvail (s.epbuf s.sel) = true then { s with sending := some [] } else s
  | .byte =>
      match s.sending with
      | none => s
      | some got =>
          if got.length < lenField (s.epbuf s.sel) then s.sendByte got else s
  | .finish arrived ackSeen rest =>
      match s.sending with
      | none => s
      | some got =>
          if got.length < lenField (s.epbuf s.sel) then s
          else if arrived then
            if ackSeen then ((s.arrive got).complete rest).stop else (s.arrive got).stop
          else s.stop
  | .abort => s.stop
  | .other addr x =>
      if Outside usbCdcEpBulkIn addr then { s with dpram := Function.update s.dpram addr x } else s

/-- A run of steps. -/
def run (s : BulkIn) (events : List InEvent) : BulkIn := events.foldl step s

/-- The bytes at the front of a buffer. -/
def bytes (s : BulkIn) (b : Fin 2) (n : ℕ) : List Byte :=
  packetAt s.dpram (usbBufAddr usbCdcEpBulkIn b) n

/-- The buffers that the controller has. -/
def handed (s : BulkIn) (b : Fin 2) : Bool := isAvail (s.epbuf b)

/-- `dpram_memcpy` is writing to a buffer. -/
def copying (s : BulkIn) (b : Fin 2) : Bool :=
  match s.pc with
  | .copy b' _ _ => b' == b
  | _ => false

/-- What `usb_send_bulk_in` knows of the buffer it has come to. -/
def PcGood (s : BulkIn) (back : Fin 2) : Prop :=
  match s.pc with
  | .idle => True
  | .claim b _ => b = back ∧ s.handed b = false
  | .copy b data i => b = back ∧ s.epbuf b = newInEpb b data.val.length ∧ i ≤ data.val.length ∧
      s.bytes b i = data.val.take i

/-- What holds in every reachable state, with the packets that the buffers were filled with and
how many of them the controller has completed. -/
structure Good (s : BulkIn) (held : Fin 2 → List Byte) (lo : ℕ) : Prop where
  ring : Handoff s.handed held s.accepted lo s.accepted.length
  count : s.bulkInPopCount = BitVec.ofNat 32 (s.accepted.length + s.pc.claimed)
  sel : s.sel = Fin.ofNat 2 lo
  received : s.received = s.accepted.take s.received.length
  taken : lo ≤ s.received.length ∧ s.received.length ≤ lo + 1 ∧
    s.received.length ≤ s.accepted.length
  sending : ∀ got, s.sending = some got → s.handed s.sel = true ∧ got <+: held s.sel
  full : ∀ b, s.handed b = true → (held b).length ≤ dpbufSize ∧
    s.epbuf b = newInEpb b (held b).length ||| usbBufCtrlAvail ∧
    s.bytes b (held b).length = held b
  free : ∀ b, s.handed b = false → s.copying b = false → isFull (s.epbuf b) = false
  pc : s.PcGood (Fin.ofNat 2 s.accepted.length)

/-! ### Registers -/

theorem handed_setEpbuf (s : BulkIn) (b : Fin 2) (epb : BitVec 16) :
    (s.setEpbuf b epb).handed = Function.update s.handed b (isAvail epb) :=
  Function.comp_update isAvail s.epbuf b epb

theorem setEpbuf_of_ne (s : BulkIn) {b b' : Fin 2} (hne : b' ≠ b) (epb : BitVec 16) :
    (s.setEpbuf b epb).epbuf b' = s.epbuf b' :=
  Function.update_of_ne hne _ _

theorem handed_setEpbuf_of_ne (s : BulkIn) {b b' : Fin 2} (hne : b' ≠ b) (epb : BitVec 16) :
    (s.setEpbuf b epb).handed b' = s.handed b' := by
  rw [handed, handed, setEpbuf_of_ne s hne]

theorem ne_of_handed {s : BulkIn} {b b' : Fin 2} (hb : s.handed b = true)
    (hb' : s.handed b' = false) : b ≠ b' := by
  rintro rfl
  rw [hb] at hb'
  exact Bool.noConfusion hb'

/-! ### Steps -/

variable {s : BulkIn} {held : Fin 2 → List Byte} {lo : ℕ}

theorem usbSetConfigure_handed (dpram : ℕ → Byte) (b : Fin 2) :
    (usbSetConfigure dpram).handed b = false :=
  show isAvail 0 = false by decide

theorem Good.usbSetConfigure (dpram : ℕ → Byte) :
    Good (usbSetConfigure dpram) (fun _ => []) 0 where
  ring := Handoff.empty (usbSetConfigure_handed dpram) _
  count := rfl
  sel := rfl
  received := rfl
  taken := ⟨le_rfl, Nat.zero_le _, le_rfl⟩
  sending := fun _ h => nomatch h
  full := fun b h => Bool.noConfusion ((usbSetConfigure_handed dpram b).symm.trans h)
  free := fun _ _ _ => show isFull 0 = false by decide
  pc := trivial

/-- The buffer that is being written is the firmware's. -/
theorem Good.not_handed_of_copy (h : Good s held lo) {b : Fin 2} {data : InPacket} {i : ℕ}
    (hpc : s.pc = .copy b data i) : s.handed b = false := by
  have hgood := h.pc
  rw [PcGood, hpc] at hgood
  rw [handed, hgood.2.1, newInEpb_isAvail data.property]

/-- There is room, and the buffer is claimed. -/
theorem Good.call (h : Good s held lo) (data : InPacket) : Good (s.usbSendBulkIn data) held lo := by
  rw [usbSendBulkIn]
  cases hpc : s.pc with
  | idle =>
      dsimp only
      split_ifs with hcheck
      · exact h
      · have hflags := (idle_iff _).mp (not_not.mp hcheck)
        refine ⟨h.ring, ?_, h.sel, h.received, h.taken, h.sending, h.full,
          fun b hb _ => h.free b hb (by rw [copying, hpc]), ?_, hflags.1⟩
        · rw [h.count, hpc]
          exact BitVec.ofNat_add_ofNat _ _
        · rw [h.count, hpc]
          exact bufnum_ofNat _
  | claim b data' => exact h
  | copy b data' i => exact h

/-- The header of the claimed buffer is written. -/
theorem Good.start (h : Good s held lo) {b : Fin 2} {data : InPacket}
    (hpc : s.pc = .claim b data) :
    Good { s.setEpbuf b (newInEpb b data.val.length) with pc := .copy b data 0 } held lo := by
  obtain ⟨hb, hdown⟩ : b = _ ∧ s.handed b = false := by
    have hgood := h.pc
    rwa [PcGood, hpc] at hgood
  have hhanded : (s.setEpbuf b (newInEpb b data.val.length)).handed = s.handed := by
    rw [handed_setEpbuf, newInEpb_isAvail data.property, ← hdown, Function.update_eq_self]
  refine ⟨hhanded ▸ h.ring, ?_, h.sel, h.received, h.taken, fun got hgot => ?_, fun b' hb' => ?_,
    fun b' hb' hcopy => ?_, hb, Function.update_self _ _ _, Nat.zero_le _, rfl⟩
  · have hcount := h.count
    rwa [hpc] at hcount
  · obtain ⟨hup, hprefix⟩ := h.sending got hgot
    exact ⟨(congrFun hhanded s.sel).trans hup, hprefix⟩
  · have hup : s.handed b' = true := hhanded ▸ hb'
    have hne := ne_of_handed hup hdown
    obtain ⟨hsize, hepb, hbytes⟩ := h.full b' hup
    exact ⟨hsize, (setEpbuf_of_ne s hne _).trans hepb, hbytes⟩
  · have hne : b' ≠ b := fun heq => by
      rw [copying, heq] at hcopy
      simp at hcopy
    have hold := h.free b' (hhanded ▸ hb') (by rw [copying, hpc])
    rwa [← setEpbuf_of_ne s hne (newInEpb b data.val.length)] at hold

/-- The memory changes outside the packets that are handed over. -/
theorem Good.full_of_frame (h : Good s held lo) {dpram : ℕ → Byte}
    (hframe : ∀ b, s.handed b = true → ∀ n ≤ dpbufSize,
      packetAt dpram (usbBufAddr usbCdcEpBulkIn b) n = s.bytes b n) :
    ∀ b, s.handed b = true → (held b).length ≤ dpbufSize ∧
      s.epbuf b = newInEpb b (held b).length ||| usbBufCtrlAvail ∧
      packetAt dpram (usbBufAddr usbCdcEpBulkIn b) (held b).length = held b := by
  intro b hb
  obtain ⟨hsize, hepb, hbytes⟩ := h.full b hb
  exact ⟨hsize, hepb, (hframe b hb _ hsize).trans hbytes⟩

/-- The next byte is moved into the buffer. -/
theorem Good.move (h : Good s held lo) {b : Fin 2} {data : InPacket} {i : ℕ} {x : Byte}
    (hpc : s.pc = .copy b data i) (hx : data.val[i]? = some x) :
    Good { s with dpram := Function.update s.dpram (usbBufAddr usbCdcEpBulkIn b + i) x,
                  pc := .copy b data (i + 1) } held lo := by
  have hdown := h.not_handed_of_copy hpc
  obtain ⟨hb, hepb, -, hbytes⟩ : b = _ ∧ s.epbuf b = _ ∧ i ≤ _ ∧ s.bytes b i = _ := by
    have hgood := h.pc
    rwa [PcGood, hpc] at hgood
  obtain ⟨hlt, rfl⟩ := List.getElem?_eq_some_iff.mp hx
  refine ⟨h.ring, ?_, h.sel, h.received, h.taken, h.sending,
    h.full_of_frame fun b' hb' n hn => packetAt_frame _ _
      (usbBufAddr_frame _ (ne_of_handed hb' hdown) (hlt.trans_le data.property) hn),
    fun b' hb' hcopy => h.free b' hb' ?_, hb, hepb, hlt, ?_⟩
  · have hcount := h.count
    rwa [hpc] at hcount
  · rw [copying, hpc]
    exact hcopy
  · show packetAt _ _ (i + 1) = _
    rw [packetAt_store, List.take_add_one, hx, ← hbytes]
    rfl

/-- The packet is complete: it is accepted, and the buffer is the controller's. -/
theorem Good.release (h : Good s held lo) {b : Fin 2} {data : InPacket} {i : ℕ}
    (hpc : s.pc = .copy b data i) (hend : data.val[i]? = none) :
    Good { s.setEpbuf b (newInEpb b data.val.length ||| usbBufCtrlAvail) with
      pc := .idle, accepted := s.accepted ++ [data.val] }
      (Function.update held b data.val) lo := by
  have hdown := h.not_handed_of_copy hpc
  obtain ⟨hb, -, hle, hbytes⟩ : b = _ ∧ s.epbuf b = _ ∧ i ≤ _ ∧ s.bytes b i = _ := by
    have hgood := h.pc
    rwa [PcGood, hpc] at hgood
  obtain rfl : i = data.val.length := Nat.le_antisymm hle (List.getElem?_eq_none_iff.mp hend)
  rw [List.take_length] at hbytes
  have hhanded : (s.setEpbuf b (newInEpb b data.val.length ||| usbBufCtrlAvail)).handed =
      Function.update s.handed b true := by
    rw [handed_setEpbuf, newInEpb_avail_isAvail]
  have hlen : (s.accepted ++ [data.val]).length = s.accepted.length + 1 := by simp
  obtain ⟨hlo, hnear, hall⟩ := h.taken
  refine ⟨?_, ?_, h.sel, ?_, ⟨hlo, hnear, ?_⟩, fun got hgot => ?_, fun b' hb' => ?_,
    fun b' hb' _ => ?_, trivial⟩
  · have hring := h.ring.raise (h.ring.room_of_down (hb ▸ hdown)) data.val
    rw [← hb, ← hhanded, ← hlen] at hring
    exact hring
  · have hcount := h.count
    rw [hpc] at hcount
    rw [hlen]
    exact hcount
  · exact h.received.trans (List.take_append_of_le_length hall).symm
  · exact hlen ▸ hall.trans (Nat.le_succ _)
  · obtain ⟨hup, hprefix⟩ := h.sending got hgot
    have hne := ne_of_handed hup hdown
    refine ⟨(handed_setEpbuf_of_ne s hne _).trans hup, ?_⟩
    show got <+: Function.update held b data.val s.sel
    rwa [Function.update_of_ne hne]
  · rcases eq_or_ne b' b with rfl | hne
    · rw [Function.update_self]
      exact ⟨data.property, Function.update_self _ _ _, hbytes⟩
    · rw [Function.update_of_ne hne]
      obtain ⟨hsize, hepb, hold⟩ := h.full b' (handed_setEpbuf_of_ne s hne _ ▸ hb')
      exact ⟨hsize, (setEpbuf_of_ne s hne _).trans hepb, hold⟩
  · have hne : b' ≠ b := by
      rintro rfl
      have hup := congrFun hhanded b'
      rw [Function.update_self] at hup
      exact Bool.noConfusion (hup.symm.trans hb')
    have hold := h.free b' (handed_setEpbuf_of_ne s hne _ ▸ hb') (by
      rw [copying, hpc]
      simpa using hne.symm)
    rwa [← setEpbuf_of_ne s hne (newInEpb b data.val.length ||| usbBufCtrlAvail)] at hold

/-- A step of the firmware behind the check. -/
theorem Good.firmware (h : Good s held lo) : ∃ held', Good s.fillBulkIn held' lo := by
  rw [fillBulkIn]
  cases hpc : s.pc with
  | idle => exact ⟨held, h⟩
  | claim b data => exact ⟨held, h.start hpc⟩
  | copy b data i =>
      cases hx : data.val[i]? with
      | some x =>
          simp only [hx]
          exact ⟨held, h.move hpc hx⟩
      | none =>
          simp only [hx]
          exact ⟨_, h.release hpc hx⟩

/-- The controller sends from a buffer it has, or stops. -/
theorem Good.setSending (h : Good s held lo) {sending : Option (List Byte)}
    (hsending : ∀ got, sending = some got → s.handed s.sel = true ∧ got <+: held s.sel) :
    Good { s with sending := sending } held lo :=
  ⟨h.ring, h.count, h.sel, h.received, h.taken, hsending, h.full, h.free, h.pc⟩

theorem Good.stop (h : Good s held lo) : Good s.stop held lo :=
  h.setSending fun _ hgot => nomatch hgot

theorem Good.lenField_eq (h : Good s held lo) (hup : s.handed s.sel = true) :
    lenField (s.epbuf s.sel) = (held s.sel).length := by
  obtain ⟨hsize, hepb, -⟩ := h.full _ hup
  rw [hepb, lenField_newInEpb_avail hsize]

/-- The controller sends the next byte. -/
theorem Good.byte (h : Good s held lo) {got : List Byte} (hgot : s.sending = some got)
    (hlt : got.length < lenField (s.epbuf s.sel)) : Good (s.sendByte got) held lo := by
  obtain ⟨hup, hprefix⟩ := h.sending got hgot
  rw [h.lenField_eq hup] at hlt
  refine h.setSending fun got' hgot' => ⟨hup, ?_⟩
  obtain rfl := Option.some.inj hgot'
  have hbytes := (h.full _ hup).2.2
  have hnext := packetAt_succ s.dpram (usbBufAddr usbCdcEpBulkIn s.sel) got.length
  rw [← packetAt_take _ _ (Nat.le_of_lt hlt), ← packetAt_take _ _ (Nat.succ_le_of_lt hlt)] at hnext
  rw [BulkIn.bytes] at hbytes
  rw [hbytes, ← List.prefix_iff_eq_take.mp hprefix] at hnext
  rw [← hnext]
  exact List.take_prefix _ _

/-- Something else is written. -/
theorem Good.other (h : Good s held lo) {addr : ℕ} (haddr : Outside usbCdcEpBulkIn addr)
    (x : Byte) : Good { s with dpram := Function.update s.dpram addr x } held lo := by
  refine ⟨h.ring, h.count, h.sel, h.received, h.taken, h.sending,
    h.full_of_frame fun b _ n hn => packetAt_frame _ _ (haddr.frame b hn), h.free, ?_⟩
  have hgood := h.pc
  rw [PcGood] at hgood ⊢
  cases hpc : s.pc with
  | idle => trivial
  | claim b data =>
      rw [hpc] at hgood
      exact hgood
  | copy b data i =>
      rw [hpc] at hgood
      obtain ⟨hb, hepb, hle, hbytes⟩ := hgood
      exact ⟨hb, hepb, hle, (packetAt_frame _ _ (haddr.frame b (hle.trans data.property))).trans
        hbytes⟩

/-- A whole packet reaches the host, which has it afterwards, once. -/
theorem Good.arrive (h : Good s held lo) {got : List Byte} (hup : s.handed s.sel = true)
    (hgot : got = held s.sel) :
    Good (s.arrive got) held lo ∧ (s.arrive got).received.length = lo + 1 := by
  have hlt : lo < s.accepted.length := h.ring.lt_of_up (h.sel ▸ hup)
  obtain ⟨hlo, hnear, hall⟩ := h.taken
  obtain ⟨hsize, hepb, -⟩ := h.full _ hup
  have hpid : s.epbuf s.sel &&& usbBufCtrlData1Pid = bufPid (bufAt s.received.length) ↔
      s.received.length = lo := by
    rw [hepb, newInEpb_avail_pid hsize, h.sel]
    refine ⟨fun heq => ?_, fun heq => by rw [heq]⟩
    have hmod : lo % 2 = s.received.length % 2 := congrArg Fin.val (bufPid_inj heq)
    omega
  rw [BulkIn.arrive]
  split_ifs with hnew
  · have hnext := hpid.mp hnew
    have hlen : (s.received ++ [got]).length = lo + 1 := by
      rw [List.length_append, List.length_singleton, hnext]
    refine ⟨⟨h.ring, h.count, h.sel, ?_, ⟨?_, ?_, ?_⟩, h.sending, h.full, h.free, h.pc⟩, hlen⟩
    · show s.received ++ [got] = s.accepted.take (s.received ++ [got]).length
      rw [hlen, h.ring.front hlt, ← h.sel, ← hgot, ← hnext, ← h.received]
    · exact hlen ▸ Nat.le_succ _
    · exact hlen.le
    · exact hlen ▸ hlt
  · have hne : s.received.length ≠ lo := fun heq => hnew (hpid.mpr heq)
    exact ⟨h, by omega⟩

/-- The controller has seen the acknowledgement of a packet that the host has. -/
theorem Good.complete (h : Good s held lo) (hup : s.handed s.sel = true)
    (hhas : s.received.length = lo + 1) (rest : BitVec 16) :
    Good (s.complete rest).stop held (lo + 1) := by
  have hlt : lo < s.accepted.length := h.ring.lt_of_up (h.sel ▸ hup)
  have hhanded : (s.setEpbuf s.sel (statusIn rest)).handed =
      Function.update s.handed s.sel false := by
    rw [handed_setEpbuf, (statusIn_flags rest).1]
  have hother : ∀ b, (s.setEpbuf s.sel (statusIn rest)).handed b = true →
      b ≠ s.sel ∧ s.handed b = true := by
    intro b hb
    have hne : b ≠ s.sel := by
      rintro rfl
      rw [hhanded, Function.update_self] at hb
      exact Bool.noConfusion hb
    exact ⟨hne, handed_setEpbuf_of_ne s hne _ ▸ hb⟩
  refine ⟨?_, h.count, ?_, h.received, ⟨hhas.ge, hhas.le.trans (Nat.le_succ _), h.taken.2.2⟩,
    fun _ hgot => (nomatch hgot), fun b hb => ?_, fun b hb hcopy => ?_, ?_⟩
  · have hring := h.ring.lower hlt
    rw [← h.sel, ← hhanded] at hring
    exact hring
  · show s.sel + 1 = _
    rw [h.sel]
    exact Fin.ext (by simp [Fin.val_add])
  · obtain ⟨hne, hold⟩ := hother b hb
    obtain ⟨hsize, hepb, hbytes⟩ := h.full b hold
    exact ⟨hsize, (setEpbuf_of_ne s hne _).trans hepb, hbytes⟩
  · rcases eq_or_ne b s.sel with rfl | hne
    · have hepb : (s.complete rest).stop.epbuf s.sel = statusIn rest := Function.update_self _ _ _
      rw [hepb, (statusIn_flags rest).2]
    · have hold := h.free b (handed_setEpbuf_of_ne s hne _ ▸ hb) hcopy
      rwa [← setEpbuf_of_ne s hne (statusIn rest)] at hold
  · have hgood := h.pc
    show PcGood _ (Fin.ofNat 2 s.accepted.length)
    rw [PcGood] at hgood ⊢
    show match s.pc with | .idle => _ | .claim b data => _ | .copy b data i => _
    cases hpc : s.pc with
    | idle => trivial
    | claim b data =>
        rw [hpc] at hgood
        have hne := (ne_of_handed hup hgood.2).symm
        exact ⟨hgood.1, (handed_setEpbuf_of_ne s hne _).trans hgood.2⟩
    | copy b data i =>
        have hne := (ne_of_handed hup (h.not_handed_of_copy hpc)).symm
        rw [hpc] at hgood
        exact ⟨hgood.1, (setEpbuf_of_ne s hne _).trans hgood.2.1, hgood.2.2⟩

/-! ### Runs -/

/-- Every step preserves the invariant. -/
theorem Good.step (h : Good s held lo) (e : InEvent) : ∃ held' lo', Good (s.step e) held' lo' := by
  cases e with
  | call data => exact ⟨held, lo, h.call data⟩
  | firmware =>
      obtain ⟨held', h'⟩ := h.firmware
      exact ⟨held', lo, h'⟩
  | token =>
      rw [BulkIn.step]
      split_ifs with hfree
      · refine ⟨held, lo, h.setSending fun got hgot => ?_⟩
        obtain rfl := Option.some.inj hgot
        exact ⟨hfree.2, List.nil_prefix⟩
      · exact ⟨held, lo, h⟩
  | byte =>
      cases hgot : s.sending with
      | none =>
          simp only [BulkIn.step, hgot]
          exact ⟨held, lo, h⟩
      | some got =>
          simp only [BulkIn.step, hgot]
          split_ifs with hlt
          · exact ⟨held, lo, h.byte hgot hlt⟩
          · exact ⟨held, lo, h⟩
  | finish arrived ackSeen rest =>
      cases hgot : s.sending with
      | none =>
          simp only [BulkIn.step, hgot]
          exact ⟨held, lo, h⟩
      | some got =>
          obtain ⟨hup, hprefix⟩ := h.sending got hgot
          simp only [BulkIn.step, hgot]
          split_ifs with hmore harrived hack
          · exact ⟨held, lo, h⟩
          · rw [h.lenField_eq hup] at hmore
            have hwhole := hprefix.eq_of_length_le (Nat.le_of_not_lt hmore)
            obtain ⟨harr, hhas⟩ := h.arrive hup hwhole
            have hsame : (s.arrive got).epbuf = s.epbuf ∧ (s.arrive got).sel = s.sel := by
              rw [BulkIn.arrive]
              split_ifs <;> exact ⟨rfl, rfl⟩
            refine ⟨held, lo + 1, harr.complete ?_ hhas rest⟩
            rw [handed, hsame.1, hsame.2]
            exact hup
          · rw [h.lenField_eq hup] at hmore
            have hwhole := hprefix.eq_of_length_le (Nat.le_of_not_lt hmore)
            exact ⟨held, lo, (h.arrive hup hwhole).1.stop⟩
          · exact ⟨held, lo, h.stop⟩
  | abort => exact ⟨held, lo, h.stop⟩
  | other addr x =>
      rw [BulkIn.step]
      split_ifs with haddr
      · exact ⟨held, lo, h.other haddr x⟩
      · exact ⟨held, lo, h⟩

theorem Good.run (h : Good s held lo) (events : List InEvent) :
    ∃ held' lo', Good (s.run events) held' lo' := by
  induction events generalizing s held lo with
  | nil => exact ⟨held, lo, h⟩
  | cons e events ih =>
      obtain ⟨held', lo', hstep⟩ := h.step e
      exact ih hstep

end BulkIn

/-- **Packets reach the host in order, whole and once.** Over every run, what the host has taken are
the first of the packets that `usb_send_bulk_in` has accepted; at most two of these are missing, and
none once neither buffer is available; and the firmware never writes to the buffer that is being
sent. -/
theorem bulkIn_exact (dpram : ℕ → Byte) (events : List InEvent) :
    let s := (BulkIn.usbSetConfigure dpram).run events
    s.received = s.accepted.take s.received.length ∧ s.received.length ≤ s.accepted.length ∧
      s.accepted.length ≤ s.received.length + 2 ∧
      ((∀ b, isAvail (s.epbuf b) = false) → s.received = s.accepted) ∧
      ∀ got, s.sending = some got → s.copying s.sel = false := by
  intro s
  obtain ⟨held, lo, h⟩ := (BulkIn.Good.usbSetConfigure dpram).run events
  obtain ⟨hlo, -, hall⟩ := h.taken
  refine ⟨h.received, hall, h.ring.room.trans (Nat.add_le_add_right hlo 2), fun havail => ?_,
    fun got hgot => ?_⟩
  · have hempty := h.ring.drained havail
    have htake := h.received
    rwa [List.take_of_length_le (hempty ▸ hlo)] at htake
  · have hup := (h.sending got hgot).1
    rw [BulkIn.copying]
    cases hpc : s.pc with
    | idle => rfl
    | claim b data => rfl
    | copy b data i =>
        have hne := BulkIn.ne_of_handed hup (h.not_handed_of_copy hpc)
        simpa using hne.symm

end Terraboot.Rp2040Usb
