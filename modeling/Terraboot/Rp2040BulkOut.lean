import Terraboot.Handoff
import Terraboot.Rp2040Usb

/-!
# Packets from the host on the rp2040

`usb_read_bulk_out` of `rp2040/usbserial.c` with the USB controller and the host. The host sends
its packets with a transfer PID that alternates, and sends a packet again until it has seen the
controller acknowledge it. The controller stores a packet in the buffer whose turn it is, as long as
that buffer is available, and acknowledges without a trace a packet with the wrong PID. The firmware
takes the packets out of the two buffers in turn. Each access to a register is a step of its own,
and so is each byte that is moved, by either side; everything else in the shared memory may change
at any time.

## Main results

* `BulkOut.Good.step`: what every step preserves.
* `bulkOut_exact`: over every run, the packets that the firmware has returned are the first of those
  that the host sends, each whole and once, and at most two that were acknowledged are missing.
* `bulkOut_returns`: a packet that was acknowledged and not yet returned is returned once
  `usb_read_bulk_out` has taken its steps, whatever else happens in between.
-/

namespace Terraboot.Rp2040Usb

def usbCdcEpBulkOut : ℕ := 2

/-- A packet of the host. -/
abbrev OutPacket := { p : List Byte // p.length ≤ dpbufSize }

/-- Where `usb_read_bulk_out` stands, with its local variables. -/
inductive ReadPc
  | idle
  /-- A packet is ready, and its header has been read. -/
  | claim (bufnum : Fin 2) (epb : BitVec 16)
  /-- `dpram_memcpy` has moved the bytes `data`, out of `c`. -/
  | copy (bufnum : Fin 2) (c : ℕ) (data : List Byte)
  deriving DecidableEq

/-- 1 while a packet is claimed and not yet returned. -/
def ReadPc.claimed : ReadPc → ℕ
  | .idle => 0
  | .claim _ _ | .copy _ _ _ => 1

/-- The endpoint as the firmware, the controller and the host share it: the variables of the
firmware, the shared memory, the buffer that the controller has come to and how many bytes of a
packet it has stored there, how many packets the host has seen acknowledged, and what the calls of
`usb_read_bulk_out` have returned. -/
structure BulkOut where
  bulkOutPushCount : BitVec 32
  epbuf : Fin 2 → BitVec 16
  dpram : ℕ → Byte
  pc : ReadPc
  sel : Fin 2
  storing : Option ℕ
  acked : ℕ
  returned : List (List Byte)

/-- The header of a buffer that is being read; with `USB_BUF_CTRL_AVAIL` it is given back. -/
def newOutEpb (b : Fin 2) : BitVec 16 := usbBufCtrlLast ||| bufPid b ||| BitVec.ofNat 16 dpbufSize

/-- What a step of the system is. -/
inductive OutEvent
  /-- `usb_read_bulk_out` is called, or takes its next step. -/
  | firmware
  /-- The host begins to send a packet. -/
  | token
  | byte
  /-- The packet is complete. The handshake reaches the host, or does not. -/
  | finish (ackSeen : Bool) (rest : BitVec 16)
  /-- The transfer fails. -/
  | abort
  /-- Something else in the shared memory is written. -/
  | other (addr : ℕ) (x : Byte)

namespace BulkOut

/-- After `usb_set_configure`, with the controller and the host at their first packet. -/
def usbSetConfigure (dpram : ℕ → Byte) : BulkOut where
  bulkOutPushCount := 0
  epbuf b := usbBufCtrlAvail ||| usbBufCtrlLast ||| BitVec.ofNat 16 dpbufSize ||| bufPid b
  dpram := dpram
  pc := .idle
  sel := firstBuf
  storing := none
  acked := 0
  returned := []

/-- A write of a buffer control register. -/
def setEpbuf (s : BulkOut) (b : Fin 2) (epb : BitVec 16) : BulkOut :=
  { s with epbuf := Function.update s.epbuf b epb }

/-- `usb_read_bulk_out` -/
def usbReadBulkOut (s : BulkOut) : BulkOut :=
  match s.pc with
  | .idle =>
      let b := bufnum s.bulkOutPushCount
      let epb := s.epbuf b
      if epb &&& (usbBufCtrlAvail ||| usbBufCtrlFull) ≠ usbBufCtrlFull then s
      else { s with bulkOutPushCount := s.bulkOutPushCount + 1, pc := .claim b epb }
  | .claim b epb =>
      { s.setEpbuf b (newOutEpb b) with pc := .copy b (getRxCount epb dpbufSize) [] }
  | .copy b c data =>
      if data.length < c then
        { s with pc := .copy b c (data ++ [s.dpram (usbBufAddr usbCdcEpBulkOut b + data.length)]) }
      else
        { s.setEpbuf b (newOutEpb b ||| usbBufCtrlAvail) with
          pc := .idle, returned := s.returned ++ [data] }

/-- The controller gives up a packet, or is done with it. -/
def stop (s : BulkOut) : BulkOut := { s with storing := none }

/-- The host has seen an acknowledgement, or has not. -/
def ack (s : BulkOut) (ackSeen : Bool) : BulkOut :=
  { s with acked := if ackSeen then s.acked + 1 else s.acked }

/-- The controller writes its status back and turns to the other buffer. -/
def accept (s : BulkOut) (p : OutPacket) (rest : BitVec 16) : BulkOut :=
  { s.setEpbuf s.sel (statusOut rest p.val.length) with sel := otherBuf s.sel }

variable (source : ℕ → OutPacket)

/-- One step, for a host that sends the packets `source`. -/
def step (s : BulkOut) : OutEvent → BulkOut
  | .firmware => s.usbReadBulkOut
  | .token =>
      if s.storing = none ∧ isAvail (s.epbuf s.sel) = true then { s with storing := some 0 } else s
  | .byte =>
      match s.storing with
      | none => s
      | some i =>
          match (source s.acked).val[i]? with
          | none => s
          | some x =>
              { s with dpram := Function.update s.dpram (usbBufAddr usbCdcEpBulkOut s.sel + i) x,
                       storing := some (i + 1) }
  | .finish ackSeen rest =>
      if s.storing = some (source s.acked).val.length then
        if s.epbuf s.sel &&& usbBufCtrlData1Pid = bufPid (bufAt s.acked) then
          ((s.accept (source s.acked) rest).ack ackSeen).stop
        else (s.ack ackSeen).stop
      else s
  | .abort => s.stop
  | .other addr x =>
      if Outside usbCdcEpBulkOut addr then { s with dpram := Function.update s.dpram addr x } else s

/-- A run of steps. -/
def run (s : BulkOut) (events : List OutEvent) : BulkOut := events.foldl (step source) s

/-- The bytes at the front of a buffer. -/
def bytes (s : BulkOut) (b : Fin 2) (n : ℕ) : List Byte :=
  packetAt s.dpram (usbBufAddr usbCdcEpBulkOut b) n

/-- The buffers that the firmware has, whether or not there is still a packet in them. -/
def taken (s : BulkOut) (b : Fin 2) : Bool := !isAvail (s.epbuf b)

/-- The first packets of the host. -/
def sent (n : ℕ) : List (List Byte) := (List.range n).map fun i => (source i).val

/-- `dpram_memcpy` is reading from a buffer. -/
def copying (s : BulkOut) (b : Fin 2) : Bool :=
  match s.pc with
  | .copy b' _ _ => b' == b
  | _ => false

/-- What `usb_read_bulk_out` knows of the packet it has come to. -/
def PcGood (s : BulkOut) (front : Fin 2) (p : List Byte) : Prop :=
  match s.pc with
  | .idle => True
  | .claim b epb => b = front ∧ s.taken b = true ∧ s.epbuf b = epb
  | .copy b c data => b = front ∧ s.epbuf b = newOutEpb b ∧ c = p.length ∧ data <+: p

/-- What holds in every reachable state, with the packets that the buffers were filled with and
their number. -/
structure Good (s : BulkOut) (held : Fin 2 → List Byte) (hi : ℕ) : Prop where
  ring : Handoff s.taken held (sent source hi) s.returned.length hi
  returned : s.returned = sent source s.returned.length
  count : s.bulkOutPushCount = BitVec.ofNat 32 (s.returned.length + s.pc.claimed)
  sel : s.sel = Fin.ofNat 2 hi
  acked : s.acked ≤ hi ∧ hi ≤ s.acked + 1
  storing : ∀ i, s.storing = some i → s.taken s.sel = false ∧
    i ≤ (source s.acked).val.length ∧ s.bytes s.sel i = (source s.acked).val.take i
  free : ∀ b, s.taken b = false → s.epbuf b = newOutEpb b ||| usbBufCtrlAvail
  bytes : ∀ b, s.taken b = true →
    (held b).length ≤ dpbufSize ∧ s.bytes b (held b).length = held b
  header : ∀ b, s.taken b = true → s.copying b = false →
    isFull (s.epbuf b) = true ∧ getRxCount (s.epbuf b) dpbufSize = (held b).length
  pc : s.PcGood (Fin.ofNat 2 s.returned.length) (held (Fin.ofNat 2 s.returned.length))

/-! ### Headers -/

theorem newOutEpb_isAvail : ∀ b, isAvail (newOutEpb b) = false := by decide

theorem newOutEpb_avail_isAvail : ∀ b, isAvail (newOutEpb b ||| usbBufCtrlAvail) = true := by decide

theorem newOutEpb_avail_pid :
    ∀ b, (newOutEpb b ||| usbBufCtrlAvail) &&& usbBufCtrlData1Pid = bufPid b := by decide

theorem usbSetConfigure_epbuf (dpram : ℕ → Byte) :
    ∀ b, (usbSetConfigure dpram).epbuf b = newOutEpb b ||| usbBufCtrlAvail := by
  have hall : ∀ b, usbBufCtrlAvail ||| usbBufCtrlLast ||| BitVec.ofNat 16 dpbufSize ||| bufPid b =
      newOutEpb b ||| usbBufCtrlAvail := by decide
  exact hall

/-- Writing a register moves the ownership of its buffer only. -/
theorem taken_setEpbuf (s : BulkOut) (b : Fin 2) (epb : BitVec 16) :
    (s.setEpbuf b epb).taken = Function.update s.taken b (!isAvail epb) :=
  Function.comp_update (fun w => !isAvail w) s.epbuf b epb

theorem setEpbuf_of_ne (s : BulkOut) {b b' : Fin 2} (hne : b' ≠ b) (epb : BitVec 16) :
    (s.setEpbuf b epb).epbuf b' = s.epbuf b' :=
  Function.update_of_ne hne _ _

theorem taken_setEpbuf_of_ne (s : BulkOut) {b b' : Fin 2} (hne : b' ≠ b) (epb : BitVec 16) :
    (s.setEpbuf b epb).taken b' = s.taken b' := by
  rw [taken, taken, setEpbuf_of_ne s hne]

/-! ### Steps -/

variable {source}
variable {s : BulkOut} {held : Fin 2 → List Byte} {hi : ℕ}

theorem sent_succ (n : ℕ) : sent source (n + 1) = sent source n ++ [(source n).val] := by
  simp [sent, List.range_succ]

theorem sent_getElem? {n i : ℕ} (hi : i < n) : (sent source n)[i]? = some (source i).val := by
  simp [sent, hi]

/-- The oldest packet in the buffers is the next one to return. -/
theorem Good.held_front (h : Good source s held hi) (hlt : s.returned.length < hi) :
    held (Fin.ofNat 2 s.returned.length) = (source s.returned.length).val := by
  have hslot := h.ring.slot _ le_rfl hlt
  rw [sent_getElem? hlt] at hslot
  exact (Option.some.inj hslot).symm

/-- The controller is at a free buffer or has to wait. -/
theorem Good.room (h : Good source s held hi) (hsel : s.taken s.sel = false) :
    hi < s.returned.length + 2 := by
  rw [h.sel] at hsel
  exact h.ring.room_of_down hsel

theorem Good.usbSetConfigure (source : ℕ → OutPacket) (dpram : ℕ → Byte) :
    Good source (usbSetConfigure dpram) (fun _ => []) 0 where
  ring := Handoff.empty (fun b => by
    rw [taken, usbSetConfigure_epbuf, newOutEpb_avail_isAvail]; rfl) _
  returned := rfl
  count := rfl
  sel := rfl
  acked := ⟨le_rfl, Nat.zero_le _⟩
  storing := fun i hi => nomatch hi
  free := fun b _ => usbSetConfigure_epbuf dpram b
  bytes := fun b hb => by
    rw [taken, usbSetConfigure_epbuf, newOutEpb_avail_isAvail] at hb
    exact Bool.noConfusion hb
  header := fun b hb => by
    rw [taken, usbSetConfigure_epbuf, newOutEpb_avail_isAvail] at hb
    exact Bool.noConfusion hb
  pc := trivial

/-- The check of the headers passes, and the packet is claimed. -/
theorem Good.claim (h : Good source s held hi) (hpc : s.pc = .idle)
    (hup : s.taken (bufnum s.bulkOutPushCount) = true) :
    Good source { s with bulkOutPushCount := s.bulkOutPushCount + 1,
                         pc := .claim (bufnum s.bulkOutPushCount)
                           (s.epbuf (bufnum s.bulkOutPushCount)) } held hi where
  ring := h.ring
  returned := h.returned
  count := by
    rw [h.count, hpc]
    exact BitVec.ofNat_add_ofNat _ _
  sel := h.sel
  acked := h.acked
  storing := h.storing
  free := h.free
  bytes := h.bytes
  header := fun b hb _ => h.header b hb (by rw [copying, hpc])
  pc := by
    refine ⟨?_, hup, rfl⟩
    rw [h.count, hpc]
    exact bufnum_ofNat _

/-- The claimed packet's header is replaced, and the copy begins. -/
theorem Good.start (h : Good source s held hi) {b : Fin 2} {epb : BitVec 16}
    (hpc : s.pc = .claim b epb) :
    Good source { s.setEpbuf b (newOutEpb b) with pc := .copy b (getRxCount epb dpbufSize) [] }
      held hi := by
  obtain ⟨hb, hup, hepb⟩ : b = _ ∧ s.taken b = true ∧ s.epbuf b = epb := by
    have hgood := h.pc
    rwa [PcGood, hpc] at hgood
  have htaken : (s.setEpbuf b (newOutEpb b)).taken = s.taken := by
    rw [taken_setEpbuf, newOutEpb_isAvail, Bool.not_false, ← hup, Function.update_eq_self]
  have hhdr := h.header b hup (by rw [copying, hpc])
  refine ⟨htaken ▸ h.ring, h.returned, ?_, h.sel, h.acked, fun i hi => ?_, fun b' hb' => ?_,
    fun b' hb' => h.bytes b' (htaken ▸ hb'), fun b' hb' hcopy => ?_, ?_⟩
  · have hcount := h.count
    rwa [hpc] at hcount
  · obtain ⟨hdown, hrest⟩ := h.storing i hi
    exact ⟨(congrFun htaken s.sel).trans hdown, hrest⟩
  · have hdown : s.taken b' = false := htaken ▸ hb'
    have hne : b' ≠ b := fun heq => by
      rw [heq, hup] at hdown
      exact Bool.noConfusion hdown
    exact (setEpbuf_of_ne s hne _).trans (h.free b' hdown)
  · have hne : b' ≠ b := fun heq => by
      rw [copying, heq] at hcopy
      simp at hcopy
    have hold := h.header b' (htaken ▸ hb') (by rw [copying, hpc])
    rwa [← setEpbuf_of_ne s hne (newOutEpb b)] at hold
  · refine ⟨hb, Function.update_self _ _ _, ?_, List.nil_prefix⟩
    rw [← hepb, hhdr.2, hb]
    rfl

/-- The next byte is moved out of the buffer. -/
theorem Good.move (h : Good source s held hi) {b : Fin 2} {c : ℕ} {data : List Byte}
    (hpc : s.pc = .copy b c data) (hlt : data.length < c) :
    Good source
      { s with pc := .copy b c (data ++ [s.dpram (usbBufAddr usbCdcEpBulkOut b + data.length)]) }
      held hi := by
  obtain ⟨hb, hepb, hc, hdata⟩ : b = _ ∧ s.epbuf b = _ ∧ c = _ ∧ data <+: _ := by
    have hgood := h.pc
    rwa [PcGood, hpc] at hgood
  refine ⟨h.ring, h.returned, ?_, h.sel, h.acked, h.storing, h.free, h.bytes,
    fun b' hb' hcopy => h.header b' hb' ?_, hb, hepb, hc, ?_⟩
  · have hcount := h.count
    rwa [hpc] at hcount
  · rw [copying, hpc]
    exact hcopy
  · have hup : s.taken b = true := by rw [taken, hepb, newOutEpb_isAvail]; rfl
    have hbytes := (h.bytes b hup).2
    rw [← hb] at hdata hc
    have hnext := packetAt_succ s.dpram (usbBufAddr usbCdcEpBulkOut b) data.length
    rw [← packetAt_take _ _ (Nat.le_of_lt hlt), ← packetAt_take _ _ (Nat.succ_le_of_lt hlt), hc]
      at hnext
    rw [BulkOut.bytes] at hbytes
    rw [hbytes, ← List.prefix_iff_eq_take.mp hdata] at hnext
    rw [show Fin.ofNat 2 _ = b from hb.symm, ← hnext]
    exact List.take_prefix _ _

/-- The copy is complete: the packet is returned, and the buffer is the controller's again. -/
theorem Good.release (h : Good source s held hi) {b : Fin 2} {c : ℕ} {data : List Byte}
    (hpc : s.pc = .copy b c data) (hle : ¬data.length < c) :
    Good source { s.setEpbuf b (newOutEpb b ||| usbBufCtrlAvail) with
      pc := .idle, returned := s.returned ++ [data] } held hi := by
  obtain ⟨hb, hepb, hc, hdata⟩ : b = _ ∧ s.epbuf b = _ ∧ c = _ ∧ data <+: _ := by
    have hgood := h.pc
    rwa [PcGood, hpc] at hgood
  have hup : s.taken b = true := by rw [taken, hepb, newOutEpb_isAvail]; rfl
  have hlt : s.returned.length < hi := h.ring.lt_of_up (hb ▸ hup)
  have hwhole : data = (source s.returned.length).val := by
    rw [← h.held_front hlt]
    exact hdata.eq_of_length (Nat.le_antisymm hdata.length_le (hc ▸ Nat.le_of_not_lt hle))
  have htaken : (s.setEpbuf b (newOutEpb b ||| usbBufCtrlAvail)).taken =
      Function.update s.taken b false := by
    rw [taken_setEpbuf, newOutEpb_avail_isAvail, Bool.not_true]
  have hother : ∀ b', (s.setEpbuf b (newOutEpb b ||| usbBufCtrlAvail)).taken b' = true →
      b' ≠ b ∧ s.taken b' = true := by
    intro b' hb'
    have hne : b' ≠ b := by
      rintro rfl
      rw [htaken, Function.update_self] at hb'
      exact Bool.noConfusion hb'
    exact ⟨hne, taken_setEpbuf_of_ne s hne _ ▸ hb'⟩
  have hlen : (s.returned ++ [data]).length = s.returned.length + 1 := by simp
  refine ⟨?_, ?_, ?_, h.sel, h.acked, fun i hi => ?_, fun b' hb' => ?_,
    fun b' hb' => h.bytes b' (hother b' hb').2, fun b' hb' _ => ?_, trivial⟩
  · have hring := h.ring.lower hlt
    rw [← hb, ← htaken, ← hlen] at hring
    exact hring
  · rw [hlen, sent_succ, ← h.returned, hwhole]
  · have hcount := h.count
    rw [hpc] at hcount
    rw [hlen]
    exact hcount
  · obtain ⟨hdown, hrest⟩ := h.storing i hi
    refine ⟨Bool.eq_false_of_not_eq_true fun hup' => ?_, hrest⟩
    have hsel := (hother s.sel hup').2
    rw [hdown] at hsel
    exact Bool.noConfusion hsel
  · rcases eq_or_ne b' b with rfl | hne
    · exact Function.update_self _ _ _
    · have hdown : s.taken b' = false := taken_setEpbuf_of_ne s hne _ ▸ hb'
      exact (setEpbuf_of_ne s hne _).trans (h.free b' hdown)
  · obtain ⟨hne, hold⟩ := hother b' hb'
    have hhdr := h.header b' hold (by
      rw [copying, hpc]
      simpa using hne.symm)
    rwa [← setEpbuf_of_ne s hne (newOutEpb b ||| usbBufCtrlAvail)] at hhdr

/-- A step of the firmware. -/
theorem Good.firmware (h : Good source s held hi) : Good source s.usbReadBulkOut held hi := by
  rw [usbReadBulkOut]
  cases hpc : s.pc with
  | idle =>
      dsimp only
      split_ifs with hcheck
      · exact h
      · have hflags := (fullOnly_iff _).mp (not_not.mp hcheck)
        exact h.claim hpc (by rw [taken, hflags.1]; rfl)
  | claim b epb => exact h.start hpc
  | copy b c data =>
      dsimp only
      split_ifs with hlt
      · exact h.move hpc hlt
      · exact h.release hpc hlt

/-- The memory changes outside the packets that are held or being stored. -/
theorem Good.setDpram (h : Good source s held hi) {dpram : ℕ → Byte} {storing : Option ℕ}
    (hheld : ∀ b, s.taken b = true → ∀ n ≤ dpbufSize,
      packetAt dpram (usbBufAddr usbCdcEpBulkOut b) n = s.bytes b n)
    (hstoring : ∀ i, storing = some i → s.taken s.sel = false ∧
      i ≤ (source s.acked).val.length ∧
      packetAt dpram (usbBufAddr usbCdcEpBulkOut s.sel) i = (source s.acked).val.take i) :
    Good source { s with dpram := dpram, storing := storing } held hi :=
  ⟨h.ring, h.returned, h.count, h.sel, h.acked, hstoring, h.free,
    fun b hb => ⟨(h.bytes b hb).1, (hheld b hb _ (h.bytes b hb).1).trans (h.bytes b hb).2⟩,
    h.header, h.pc⟩

/-- The controller begins to store a packet, or stops. -/
theorem Good.token (h : Good source s held hi) (hsel : isAvail (s.epbuf s.sel) = true) :
    Good source { s with storing := some 0 } held hi :=
  h.setDpram (fun _ _ _ _ => rfl) fun i hi => by
    obtain rfl := Option.some.inj hi
    exact ⟨by rw [taken, hsel]; rfl, Nat.zero_le _, rfl⟩

theorem Good.stop (h : Good source s held hi) : Good source s.stop held hi :=
  h.setDpram (fun _ _ _ _ => rfl) fun _ hi => nomatch hi

/-- The controller stores the next byte. -/
theorem Good.byte (h : Good source s held hi) {i : ℕ} {x : Byte} (hi' : s.storing = some i)
    (hx : (source s.acked).val[i]? = some x) :
    Good source { s with
      dpram := Function.update s.dpram (usbBufAddr usbCdcEpBulkOut s.sel + i) x,
      storing := some (i + 1) } held hi := by
  obtain ⟨hsel, -, hbytes⟩ := h.storing i hi'
  obtain ⟨hlt, rfl⟩ := List.getElem?_eq_some_iff.mp hx
  refine h.setDpram (fun b hb n hn => packetAt_frame _ _ ?_) fun j hj => ⟨hsel, ?_, ?_⟩
  · have hne : b ≠ s.sel := by
      rintro rfl
      rw [hsel] at hb
      exact Bool.noConfusion hb
    exact usbBufAddr_frame _ hne (hlt.trans_le (source s.acked).property) hn
  · exact Option.some.inj hj ▸ hlt
  · obtain rfl := Option.some.inj hj
    rw [packetAt_store, List.take_add_one, hx, ← hbytes]
    rfl

/-- Something else is written. -/
theorem Good.other (h : Good source s held hi) {addr : ℕ} (haddr : Outside usbCdcEpBulkOut addr)
    (x : Byte) : Good source { s with dpram := Function.update s.dpram addr x } held hi := by
  refine h.setDpram (fun b _ n hn => packetAt_frame _ _ (haddr.frame b hn)) fun i hi => ?_
  obtain ⟨hsel, hle, hbytes⟩ := h.storing i hi
  exact ⟨hsel, hle, (packetAt_frame _ _
    (haddr.frame s.sel (hle.trans (source s.acked).property))).trans hbytes⟩

/-- Whether the PID is right says whether the packet is new. -/
theorem Good.pid_iff (h : Good source s held hi) (hsel : s.taken s.sel = false) :
    s.epbuf s.sel &&& usbBufCtrlData1Pid = bufPid (Fin.ofNat 2 s.acked) ↔ s.acked = hi := by
  rw [h.free _ hsel, newOutEpb_avail_pid, h.sel]
  refine ⟨fun hpid => ?_, fun heq => by rw [heq]⟩
  have hmod : hi % 2 = s.acked % 2 := congrArg Fin.val (bufPid_inj hpid)
  have hacked := h.acked
  omega

/-- The handshake for a packet that the controller has. -/
theorem Good.ack (h : Good source s held hi) (hpast : s.acked < hi) (ackSeen : Bool) :
    Good source (s.ack ackSeen).stop held hi := by
  refine ⟨h.ring, h.returned, h.count, h.sel, ?_, fun _ hi => (nomatch hi), h.free, h.bytes,
    h.header, h.pc⟩
  have hacked := h.acked
  cases ackSeen
  · exact hacked
  · exact ⟨hpast, hacked.2.trans (Nat.le_succ _)⟩

/-- A new packet is complete. -/
theorem Good.accept (h : Good source s held hi) (hnew : s.acked = hi)
    (hi' : s.storing = some (source s.acked).val.length) (rest : BitVec 16) :
    Good source (s.accept (source s.acked) rest).stop
      (Function.update held s.sel (source s.acked).val) (hi + 1) := by
  obtain ⟨hsel, -, hbytes⟩ := h.storing _ hi'
  rw [List.take_length] at hbytes
  have hsize := (source s.acked).property
  have hroom := h.room hsel
  have htaken : (s.setEpbuf s.sel (statusOut rest (source s.acked).val.length)).taken =
      Function.update s.taken s.sel true := by
    rw [taken_setEpbuf, statusOut_isAvail hsize, Bool.not_false]
  -- the firmware is not at the buffer that was free
  have hfront : s.pc ≠ .idle → Fin.ofNat 2 s.returned.length ≠ s.sel := by
    intro hpc heq
    have hgood := h.pc
    rw [PcGood] at hgood
    cases hpc' : s.pc with
    | idle => exact hpc hpc'
    | claim b epb =>
        rw [hpc'] at hgood
        obtain ⟨hb, hup, -⟩ := hgood
        rw [hb, heq, hsel] at hup
        exact Bool.noConfusion hup
    | copy b c data =>
        rw [hpc'] at hgood
        obtain ⟨hb, hepb, -⟩ := hgood
        rw [hb, heq] at hepb
        have hup := congrArg isAvail hepb
        rw [h.free _ hsel, newOutEpb_isAvail, newOutEpb_avail_isAvail] at hup
        exact Bool.noConfusion hup
  refine ⟨?_, h.returned, h.count, ?_, ?_, fun _ hi => (nomatch hi), fun b hb => ?_, fun b hb => ?_,
    fun b hb hcopy => ?_, ?_⟩
  · have hring := h.ring.raise hroom (source s.acked).val
    rw [← h.sel, ← htaken] at hring
    rw [hnew] at hring ⊢
    rw [sent_succ]
    exact hring
  · rw [BulkOut.stop, BulkOut.accept]
    show s.sel + 1 = _
    rw [h.sel]
    exact Fin.ext (by simp [Fin.val_add])
  · rw [← hnew]
    exact ⟨Nat.le_succ _, le_rfl⟩
  · have hne : b ≠ s.sel := by
      rintro rfl
      have hup := congrFun htaken s.sel
      rw [Function.update_self] at hup
      exact Bool.noConfusion (hup.symm.trans hb)
    have hdown : s.taken b = false := taken_setEpbuf_of_ne s hne _ ▸ hb
    exact (setEpbuf_of_ne s hne _).trans (h.free b hdown)
  · rcases eq_or_ne b s.sel with rfl | hne
    · rw [Function.update_self]
      exact ⟨hsize, hbytes⟩
    · rw [Function.update_of_ne hne]
      exact h.bytes b (taken_setEpbuf_of_ne s hne _ ▸ hb)
  · rcases eq_or_ne b s.sel with rfl | hne
    · have hepb : (s.accept (source s.acked) rest).stop.epbuf s.sel =
          statusOut rest (source s.acked).val.length := Function.update_self _ _ _
      rw [hepb, Function.update_self]
      exact ⟨statusOut_isFull hsize rest, getRxCount_statusOut hsize rest⟩
    · have hhdr := h.header b (taken_setEpbuf_of_ne s hne _ ▸ hb) hcopy
      rw [Function.update_of_ne hne]
      rwa [← setEpbuf_of_ne s hne (statusOut rest (source s.acked).val.length)] at hhdr
  · have hgood := h.pc
    show PcGood _ (Fin.ofNat 2 s.returned.length)
      (Function.update held s.sel _ (Fin.ofNat 2 s.returned.length))
    rw [PcGood] at hgood ⊢
    show match s.pc with | .idle => _ | .claim b epb => _ | .copy b c data => _
    cases hpc : s.pc with
    | idle => trivial
    | claim b epb =>
        rw [hpc] at hgood
        have hne := hfront (by rw [hpc]; exact fun h => nomatch h)
        obtain ⟨rfl, hup, rfl⟩ := hgood
        exact ⟨rfl, taken_setEpbuf_of_ne s hne _ ▸ hup, setEpbuf_of_ne s hne _⟩
    | copy b c data =>
        rw [hpc] at hgood
        have hne := hfront (by rw [hpc]; exact fun h => nomatch h)
        obtain ⟨rfl, hepb, hc, hdata⟩ := hgood
        rw [Function.update_of_ne hne]
        exact ⟨rfl, (setEpbuf_of_ne s hne _).trans hepb, hc, hdata⟩

/-! ### Runs -/

/-- Every step preserves the invariant. -/
theorem Good.step (h : Good source s held hi) (e : OutEvent) :
    ∃ held' hi', hi ≤ hi' ∧ Good source (s.step source e) held' hi' := by
  cases e with
  | firmware => exact ⟨held, hi, le_rfl, h.firmware⟩
  | token =>
      rw [BulkOut.step]
      split_ifs with hfree
      · exact ⟨held, hi, le_rfl, h.token hfree.2⟩
      · exact ⟨held, hi, le_rfl, h⟩
  | byte =>
      cases hi' : s.storing with
      | none =>
          simp only [BulkOut.step, hi']
          exact ⟨held, hi, le_rfl, h⟩
      | some i =>
          cases hx : (source s.acked).val[i]? with
          | none =>
              simp only [BulkOut.step, hi', hx]
              exact ⟨held, hi, le_rfl, h⟩
          | some x =>
              simp only [BulkOut.step, hi', hx]
              exact ⟨held, hi, le_rfl, h.byte hi' hx⟩
  | finish ackSeen rest =>
      rw [BulkOut.step]
      split_ifs with hdone hpid
      · have hnew := (h.pid_iff (h.storing _ hdone).1).mp hpid
        exact ⟨_, hi + 1, Nat.le_succ _,
          (h.accept hnew hdone rest).ack (Nat.lt_succ_of_le hnew.le) ackSeen⟩
      · have hpast : s.acked < hi := Nat.lt_of_le_of_ne h.acked.1
          fun heq => hpid ((h.pid_iff (h.storing _ hdone).1).mpr heq)
        exact ⟨held, hi, le_rfl, h.ack hpast ackSeen⟩
      · exact ⟨held, hi, le_rfl, h⟩
  | abort => exact ⟨held, hi, le_rfl, h.stop⟩
  | other addr x =>
      rw [BulkOut.step]
      split_ifs with haddr
      · exact ⟨held, hi, le_rfl, h.other haddr x⟩
      · exact ⟨held, hi, le_rfl, h⟩

theorem Good.run (h : Good source s held hi) (events : List OutEvent) :
    ∃ held' hi', hi ≤ hi' ∧ Good source (s.run source events) held' hi' := by
  induction events generalizing s held hi with
  | nil => exact ⟨held, hi, le_rfl, h⟩
  | cons e events ih =>
      obtain ⟨held', hi', hle, hstep⟩ := h.step e
      obtain ⟨held'', hi'', hle', hrun⟩ := ih hstep
      exact ⟨held'', hi'', hle.trans hle', hrun⟩

/-- The buffer that is being read is not the controller's. -/
theorem Good.taken_of_copying (h : Good source s held hi) {b : Fin 2} (hcopy : s.copying b = true) :
    s.taken b = true := by
  have hgood := h.pc
  rw [PcGood] at hgood
  rw [copying] at hcopy
  cases hpc : s.pc with
  | idle =>
      rw [hpc] at hcopy
      exact Bool.noConfusion hcopy
  | claim b' epb =>
      rw [hpc] at hcopy
      exact Bool.noConfusion hcopy
  | copy b' c data =>
      rw [hpc] at hcopy hgood
      obtain rfl : b' = b := by simpa using hcopy
      rw [taken, hgood.2.1, newOutEpb_isAvail]
      rfl

/-! ### Progress -/

/-- Steps that `usb_read_bulk_out` needs at most to return the packet it has come to. -/
def stepsLeft (s : BulkOut) : ℕ :=
  match s.pc with
  | .idle => dpbufSize + 3
  | .claim _ _ => dpbufSize + 2
  | .copy _ c data => c - data.length + 1

theorem Good.stepsLeft_le (h : Good source s held hi) : s.stepsLeft ≤ dpbufSize + 3 := by
  have hgood := h.pc
  rw [PcGood] at hgood
  rw [stepsLeft]
  cases hpc : s.pc with
  | idle => exact le_rfl
  | claim b epb => exact Nat.le_succ _
  | copy b c data =>
      rw [hpc] at hgood
      obtain ⟨rfl, hepb, rfl, -⟩ := hgood
      have hsize := (h.bytes _ (by rw [taken, hepb, newOutEpb_isAvail]; rfl)).1
      show _ - data.length + 1 ≤ dpbufSize + 3
      omega

/-- With a packet in the buffers, a step of the firmware gets closer to its return. -/
theorem Good.firmware_progress (h : Good source s held hi) (hlt : s.returned.length < hi) :
    s.usbReadBulkOut.returned.length = s.returned.length + 1 ∨
      s.usbReadBulkOut.returned = s.returned ∧ s.usbReadBulkOut.stepsLeft < s.stepsLeft := by
  rw [usbReadBulkOut, stepsLeft, stepsLeft]
  cases hpc : s.pc with
  | idle =>
      have hup := h.ring.up_front hlt
      have hbuf : bufnum s.bulkOutPushCount = Fin.ofNat 2 s.returned.length := by
        rw [h.count, hpc]
        exact bufnum_ofNat _
      have hflags := h.header _ hup (by rw [copying, hpc])
      have hcheck : s.epbuf (bufnum s.bulkOutPushCount) &&& (usbBufCtrlAvail ||| usbBufCtrlFull) =
          usbBufCtrlFull := by
        rw [hbuf]
        exact (fullOnly_iff _).mpr ⟨by simpa [taken] using hup, hflags.1⟩
      right
      dsimp only
      rw [if_neg (not_not.mpr hcheck)]
      exact ⟨rfl, Nat.lt_succ_self _⟩
  | claim b epb =>
      have hgood := h.pc
      rw [PcGood, hpc] at hgood
      obtain ⟨-, hup, hepb⟩ := hgood
      have hlen := (h.header b hup (by rw [copying, hpc])).2
      have hsize := (h.bytes b hup).1
      right
      refine ⟨rfl, ?_⟩
      show getRxCount epb dpbufSize - 0 + 1 < dpbufSize + 2
      rw [← hepb, hlen]
      omega
  | copy b c data =>
      dsimp only
      split_ifs with hmore
      · right
        refine ⟨rfl, ?_⟩
        show c - (data ++ [_]).length + 1 < c - data.length + 1
        rw [List.length_append, List.length_singleton]
        omega
      · left
        exact List.length_append

/-- A step of another party leaves the firmware where it is. -/
theorem step_firmware_state (source : ℕ → OutPacket) (s : BulkOut) {e : OutEvent}
    (he : e ≠ .firmware) :
    (s.step source e).pc = s.pc ∧ (s.step source e).returned = s.returned := by
  cases e with
  | firmware => exact absurd rfl he
  | token =>
      rw [BulkOut.step]
      split_ifs <;> exact ⟨rfl, rfl⟩
  | byte =>
      rw [BulkOut.step]
      split
      · exact ⟨rfl, rfl⟩
      · split <;> exact ⟨rfl, rfl⟩
  | finish ackSeen rest =>
      rw [BulkOut.step]
      split_ifs <;> exact ⟨rfl, rfl⟩
  | abort => exact ⟨rfl, rfl⟩
  | other addr x =>
      rw [BulkOut.step]
      split_ifs <;> exact ⟨rfl, rfl⟩

/-- What has been returned stays returned. -/
theorem Good.length_returned_le (h : Good source s held hi) (events : List OutEvent) :
    s.returned.length ≤ (s.run source events).returned.length := by
  induction events generalizing s held hi with
  | nil => exact le_rfl
  | cons e events ih =>
      obtain ⟨held', hi', -, hstep⟩ := h.step e
      refine Nat.le_trans ?_ (ih hstep)
      by_cases he : e = .firmware
      · subst he
        show _ ≤ s.usbReadBulkOut.returned.length
        rw [usbReadBulkOut]
        cases s.pc with
        | idle =>
            dsimp only
            split_ifs <;> exact le_rfl
        | claim b epb => exact le_rfl
        | copy b c data =>
            dsimp only
            split_ifs
            · exact le_rfl
            · exact (List.length_append ▸ Nat.le_add_right _ _ :)
      · rw [(step_firmware_state source s he).2]

/-- Steps of the firmware in a run. -/
def firmwareSteps (events : List OutEvent) : ℕ :=
  events.countP fun | .firmware => true | _ => false

/-- After enough steps the packet has been returned. -/
theorem Good.run_progress (h : Good source s held hi) (hlt : s.returned.length < hi)
    (events : List OutEvent) (hsteps : s.stepsLeft ≤ firmwareSteps events) :
    s.returned.length < (s.run source events).returned.length := by
  induction events generalizing s held hi with
  | nil =>
      exfalso
      have hpos : 0 < s.stepsLeft := by
        rw [stepsLeft]
        split <;> exact Nat.succ_pos _
      exact absurd hsteps (Nat.not_le.mpr hpos)
  | cons e events ih =>
      obtain ⟨held', hi', hle, hstep⟩ := h.step e
      by_cases he : e = .firmware
      · subst he
        have hcount : firmwareSteps (.firmware :: events) = firmwareSteps events + 1 :=
          List.countP_cons_of_pos rfl
        rcases h.firmware_progress hlt with hdone | ⟨hsame, hless⟩
        · have hmono := hstep.length_returned_le events
          exact (Nat.lt_of_succ_le hdone.ge).trans_le hmono
        · have hrun := ih hstep (by
            show s.usbReadBulkOut.returned.length < hi'
            rw [hsame]
            exact hlt.trans_le hle) (by
            show s.usbReadBulkOut.stepsLeft ≤ _
            omega)
          rwa [show (s.step source .firmware).returned = s.returned from hsame] at hrun
      · obtain ⟨hpc, hsame⟩ := step_firmware_state source s he
        have hcount : firmwareSteps (e :: events) = firmwareSteps events :=
          List.countP_cons_of_neg <| by
            cases e <;> first | exact absurd rfl he | exact Bool.noConfusion
        have hleft : (s.step source e).stepsLeft = s.stepsLeft := by rw [stepsLeft, stepsLeft, hpc]
        have hrun := ih hstep (by rw [hsame]; exact hlt.trans_le hle)
          (by rw [hleft, ← hcount]; exact hsteps)
        rwa [hsame] at hrun

end BulkOut

/-- **Packets arrive in order, whole and once.** Over every run, what the calls of
`usb_read_bulk_out` have returned are the first packets of the host; of those that it has seen
acknowledged at most two are still in the buffers, and none while both are available; and the
controller never stores into the buffer that is being read. -/
theorem bulkOut_exact (source : ℕ → OutPacket) (dpram : ℕ → Byte) (events : List OutEvent) :
    let s := (BulkOut.usbSetConfigure dpram).run source events
    s.returned = (List.range s.returned.length).map (fun i => (source i).val) ∧
      s.returned.length ≤ s.acked + 1 ∧ s.acked ≤ s.returned.length + 2 ∧
      ((∀ b, isAvail (s.epbuf b) = true) → s.acked ≤ s.returned.length) ∧
      ∀ i, s.storing = some i → s.copying s.sel = false := by
  intro s
  obtain ⟨held, hi, -, h⟩ := (BulkOut.Good.usbSetConfigure source dpram).run events
  refine ⟨h.returned, h.ring.le.trans h.acked.2, h.acked.1.trans h.ring.room,
    fun havail => ?_, fun i hi => ?_⟩
  · have hempty := h.ring.drained fun b => by rw [BulkOut.taken, havail]; rfl
    exact hempty ▸ h.acked.1
  · refine Bool.eq_false_of_not_eq_true fun hcopy => ?_
    have hup := h.taken_of_copying hcopy
    rw [(h.storing i hi).1] at hup
    exact Bool.noConfusion hup

/-- **A packet that waits is returned.** In every reachable state in which a packet was acknowledged
and not returned, another one has been returned after 67 more steps of the firmware, whatever the
controller, the host and the rest of the memory do in between. -/
theorem bulkOut_returns (source : ℕ → OutPacket) (dpram : ℕ → Byte) (events later : List OutEvent)
    (hwaits : ((BulkOut.usbSetConfigure dpram).run source events).returned.length <
      ((BulkOut.usbSetConfigure dpram).run source events).acked)
    (hsteps : dpbufSize + 3 ≤ BulkOut.firmwareSteps later) :
    ((BulkOut.usbSetConfigure dpram).run source events).returned.length <
      (((BulkOut.usbSetConfigure dpram).run source events).run source later).returned.length := by
  obtain ⟨held, hi, -, h⟩ := (BulkOut.Good.usbSetConfigure source dpram).run events
  refine h.run_progress (hwaits.trans_le h.acked.1) later (le_trans ?_ hsteps)
  exact h.stepsLeft_le

theorem bulkOut_returns_one :
    let source : ℕ → OutPacket := fun _ => ⟨[0x55], by decide⟩
    let s := (BulkOut.usbSetConfigure fun _ => 0).run source [.token, .byte, .finish true 0]
    s.returned.length < (s.run source (List.replicate 67 .firmware)).returned.length :=
  bulkOut_returns (fun _ => ⟨[0x55], by decide⟩) (fun _ => 0) [.token, .byte, .finish true 0]
    (List.replicate 67 .firmware) (by decide +kernel) (by decide)

end Terraboot.Rp2040Usb
