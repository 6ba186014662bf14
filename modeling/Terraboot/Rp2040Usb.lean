import Mathlib.Data.List.Range
import Mathlib.Tactic.FinCases
import Terraboot.Frame

/-!
# The USB memory of the rp2040

The packet buffers and the buffer control registers of `rp2040/usbserial.c`. An endpoint that is
double buffered has two buffers of 64 bytes, one behind the other in the memory that the processor
shares with the USB controller, and one 16-bit register for each.

The bits of a register say who may use its buffer. With `USB_BUF_CTRL_AVAIL` set it is the
controller's, which clears the bit when it writes its status back, together with
`USB_BUF_CTRL_FULL`: set in a buffer it has filled, clear in a buffer it has sent.

## Main results

* `packetAt_store`, `packetAt_frame`: a byte stored extends a packet, or is not part of it.
* `statusOut_isAvail`, `statusOut_isFull`, `getRxCount_statusOut`: the fields of a status.
-/

namespace Terraboot.Rp2040Usb

/-! ### Buffers -/

def dpbufSize : ℕ := 64

/-- `usb_buf_offset` -/
def usbBufOffset (ep : ℕ) : ℕ := 0x100 + ep * dpbufSize * 2

/-- `usb_buf_addr`, from the start of the shared memory -/
def usbBufAddr (ep : ℕ) (bufnum : Fin 2) : ℕ := usbBufOffset ep + bufnum * dpbufSize

/-- The `n` bytes at an address. -/
def packetAt (dpram : ℕ → Byte) (addr n : ℕ) : List Byte := (List.range n).map (dpram <| addr + ·)

theorem packetAt_succ (dpram : ℕ → Byte) (addr n : ℕ) :
    packetAt dpram addr (n + 1) = packetAt dpram addr n ++ [dpram (addr + n)] := by
  simp [packetAt, List.range_succ]

/-- The front of a packet. -/
theorem packetAt_take (dpram : ℕ → Byte) (addr : ℕ) {k n : ℕ} (hk : k ≤ n) :
    (packetAt dpram addr n).take k = packetAt dpram addr k := by
  rw [packetAt, ← List.map_take, List.take_range, Nat.min_eq_left hk, packetAt]

/-- A byte stored elsewhere leaves a packet alone. -/
theorem packetAt_frame (dpram : ℕ → Byte) {addr n at' : ℕ} (x : Byte)
    (hat : at' < addr ∨ addr + n ≤ at') :
    packetAt (Function.update dpram at' x) addr n = packetAt dpram addr n := by
  refine List.map_congr_left fun i hi => Function.update_of_ne ?_ _ _
  have hlt := List.mem_range.mp hi
  omega

/-- A byte stored behind a packet is its next byte. -/
theorem packetAt_store (dpram : ℕ → Byte) (addr n : ℕ) (x : Byte) :
    packetAt (Function.update dpram (addr + n) x) addr (n + 1) = packetAt dpram addr n ++ [x] := by
  rw [packetAt_succ, packetAt_frame _ _ (Or.inr le_rfl), Function.update_self]

/-- The two buffers of an endpoint do not overlap. -/
theorem usbBufAddr_frame (ep : ℕ) {b b' : Fin 2} (hne : b ≠ b') {i n : ℕ} (hi : i < dpbufSize)
    (hn : n ≤ dpbufSize) :
    usbBufAddr ep b' + i < usbBufAddr ep b ∨ usbBufAddr ep b + n ≤ usbBufAddr ep b' + i := by
  have hval : (b : ℕ) ≠ b' := fun h => hne (Fin.ext h)
  have hb := b.isLt
  have hb' := b'.isLt
  simp only [usbBufAddr, dpbufSize] at *
  omega

/-- An address in neither of the buffers of an endpoint. -/
def Outside (ep addr : ℕ) : Prop :=
  addr < usbBufAddr ep 0 ∨ usbBufAddr ep 1 + dpbufSize ≤ addr

instance (ep addr : ℕ) : Decidable (Outside ep addr) := inferInstanceAs (Decidable (_ ∨ _))

theorem Outside.frame {ep addr : ℕ} (h : Outside ep addr) (b : Fin 2) {n : ℕ}
    (hn : n ≤ dpbufSize) : addr < usbBufAddr ep b ∨ usbBufAddr ep b + n ≤ addr := by
  have hb := b.isLt
  simp only [Outside, usbBufAddr, dpbufSize, Fin.val_zero, Fin.val_one] at *
  omega

/-- The buffers of another endpoint are outside. -/
theorem outside_of_ne {ep ep' : ℕ} (hne : ep ≠ ep') (b : Fin 2) {i : ℕ} (hi : i < dpbufSize) :
    Outside ep (usbBufAddr ep' b + i) := by
  have hb := b.isLt
  simp only [Outside, usbBufAddr, usbBufOffset, dpbufSize, Fin.val_zero, Fin.val_one] at *
  omega

/-! ### Buffer control registers -/

def usbBufCtrlFull : BitVec 16 := 0x8000
def usbBufCtrlLast : BitVec 16 := 0x4000
def usbBufCtrlData1Pid : BitVec 16 := 0x2000
def usbBufCtrlAvail : BitVec 16 := 0x0400
def usbBufCtrlLenMask : BitVec 16 := 0x03ff

/-- The buffer is the controller's. -/
def isAvail (epb : BitVec 16) : Bool := epb &&& usbBufCtrlAvail != 0

def isFull (epb : BitVec 16) : Bool := epb &&& usbBufCtrlFull != 0

/-- The number of bytes that a register gives. -/
def lenField (epb : BitVec 16) : ℕ := (epb &&& usbBufCtrlLenMask).toNat

/-- The buffer that a count of packets has come to, `count & 1`. -/
def bufnum (count : BitVec 32) : Fin 2 := Fin.ofNat 2 (count &&& 1).toNat

/-- The buffer for the packet `k`, the first, and the other one. -/
abbrev bufAt (k : ℕ) : Fin 2 := Fin.ofNat 2 k

abbrev firstBuf : Fin 2 := 0

abbrev otherBuf (b : Fin 2) : Fin 2 := b + 1

/-- The transfer PID of the packets that a buffer is for. -/
def bufPid (b : Fin 2) : BitVec 16 := if b = 0 then 0 else usbBufCtrlData1Pid

/-- `get_rx_count` -/
def getRxCount (epb : BitVec 16) (maxLen : ℕ) : ℕ :=
  let c := (epb &&& usbBufCtrlLenMask).toNat
  if maxLen < c then maxLen else c

theorem bufnum_ofNat (k : ℕ) : bufnum (BitVec.ofNat 32 k) = Fin.ofNat 2 k := by
  refine Fin.ext ?_
  have hmod : (BitVec.ofNat 32 k &&& (1 : BitVec 32)).toNat = k % 2 := by
    rw [BitVec.toNat_and, BitVec.toNat_ofNat, show (1 : BitVec 32).toNat = 1 from rfl,
      Nat.and_one_is_mod]
    omega
  rw [bufnum, Fin.val_ofNat, Fin.val_ofNat, hmod, Nat.mod_mod]

theorem bufPid_inj : ∀ {b b' : Fin 2}, bufPid b = bufPid b' → b = b' := by decide

/-- The two flags that the firmware looks at together. -/
theorem and_avail_full (epb : BitVec 16) :
    epb &&& (usbBufCtrlAvail ||| usbBufCtrlFull) =
      (if isAvail epb then usbBufCtrlAvail else 0) |||
        (if isFull epb then usbBufCtrlFull else 0) := by
  have havail : epb &&& usbBufCtrlAvail = if epb.getLsbD 10 then usbBufCtrlAvail else 0 :=
    BitVec.and_twoPow epb 10
  have hfull : epb &&& usbBufCtrlFull = if epb.getLsbD 15 then usbBufCtrlFull else 0 :=
    BitVec.and_twoPow epb 15
  rw [isAvail, isFull, BitVec.and_or_distrib_left, havail, hfull]
  cases epb.getLsbD 10 <;> cases epb.getLsbD 15 <;> decide

theorem fullOnly_iff (epb : BitVec 16) :
    epb &&& (usbBufCtrlAvail ||| usbBufCtrlFull) = usbBufCtrlFull ↔
      isAvail epb = false ∧ isFull epb = true := by
  rw [and_avail_full]
  cases isAvail epb <;> cases isFull epb <;> decide

theorem idle_iff (epb : BitVec 16) :
    epb &&& (usbBufCtrlAvail ||| usbBufCtrlFull) = 0 ↔
      isAvail epb = false ∧ isFull epb = false := by
  rw [and_avail_full]
  cases isAvail epb <;> cases isFull epb <;> decide

/-! ### Statuses written back -/

/-- The status of a buffer with `n` bytes from the host; the bits it has no say in may be
anything. -/
def statusOut (rest : BitVec 16) (n : ℕ) : BitVec 16 :=
  rest &&& 0x7800 ||| usbBufCtrlFull ||| BitVec.ofNat 16 n

/-- The status of a buffer that the host has acknowledged. -/
def statusIn (rest : BitVec 16) : BitVec 16 := rest &&& 0x7bff

variable {n : ℕ} (hn : n ≤ dpbufSize) (rest : BitVec 16)
include hn

/-- A length is in the bits of the length mask. -/
theorem ofNat_and_len : BitVec.ofNat 16 n &&& usbBufCtrlLenMask = BitVec.ofNat 16 n ∧
    BitVec.ofNat 16 n &&& usbBufCtrlAvail = 0 ∧ BitVec.ofNat 16 n &&& usbBufCtrlFull = 0 ∧
    BitVec.ofNat 16 n &&& usbBufCtrlData1Pid = 0 := by
  have hall : ∀ k ≤ 64, BitVec.ofNat 16 k &&& usbBufCtrlLenMask = BitVec.ofNat 16 k ∧
      BitVec.ofNat 16 k &&& usbBufCtrlAvail = 0 ∧ BitVec.ofNat 16 k &&& usbBufCtrlFull = 0 ∧
      BitVec.ofNat 16 k &&& usbBufCtrlData1Pid = 0 := by decide
  exact hall n hn

theorem statusOut_isAvail : isAvail (statusOut rest n) = false := by
  have hrest : rest &&& 0x7800 &&& usbBufCtrlAvail = 0 := by
    rw [BitVec.and_assoc]
    exact BitVec.and_zero
  simp only [isAvail, statusOut, BitVec.and_or_distrib_right, hrest, (ofNat_and_len hn).2.1]
  decide

theorem statusOut_isFull : isFull (statusOut rest n) = true := by
  have hrest : rest &&& 0x7800 &&& usbBufCtrlFull = 0 := by
    rw [BitVec.and_assoc]
    exact BitVec.and_zero
  simp only [isFull, statusOut, BitVec.and_or_distrib_right, hrest, (ofNat_and_len hn).2.2.1]
  decide

/-- The firmware reads back how many bytes have come. -/
theorem getRxCount_statusOut : getRxCount (statusOut rest n) dpbufSize = n := by
  have hrest : rest &&& 0x7800 &&& usbBufCtrlLenMask = 0 := by
    rw [BitVec.and_assoc]
    exact BitVec.and_zero
  have hlen : statusOut rest n &&& usbBufCtrlLenMask = BitVec.ofNat 16 n := by
    rw [statusOut, BitVec.and_or_distrib_right, BitVec.and_or_distrib_right, hrest,
      (ofNat_and_len hn).1, show usbBufCtrlFull &&& usbBufCtrlLenMask = 0 from by decide]
    simp
  have hmod : n % 2 ^ 16 = n := Nat.mod_eq_of_lt (lt_of_le_of_lt hn (by decide))
  rw [getRxCount, hlen, BitVec.toNat_ofNat, hmod, if_neg (Nat.not_lt.mpr hn)]

omit hn in
theorem statusIn_flags : isAvail (statusIn rest) = false ∧ isFull (statusIn rest) = false := by
  refine (idle_iff _).mp ?_
  rw [statusIn, BitVec.and_assoc]
  exact BitVec.and_zero

/-! ### Headers of packets for the host -/

/-- The header of a buffer that is being filled; with `USB_BUF_CTRL_AVAIL` it is handed over. -/
def newInEpb (b : Fin 2) (n : ℕ) : BitVec 16 :=
  usbBufCtrlFull ||| usbBufCtrlLast ||| bufPid b ||| BitVec.ofNat 16 n

variable (b : Fin 2)

theorem newInEpb_isAvail : isAvail (newInEpb b n) = false := by
  have hhead : ∀ b, (usbBufCtrlFull ||| usbBufCtrlLast ||| bufPid b) &&& usbBufCtrlAvail = 0 := by
    decide
  rw [isAvail, newInEpb, BitVec.and_or_distrib_right, hhead, (ofNat_and_len hn).2.1]
  rfl

theorem newInEpb_avail_pid :
    (newInEpb b n ||| usbBufCtrlAvail) &&& usbBufCtrlData1Pid = bufPid b := by
  have hhead : ∀ b, (usbBufCtrlFull ||| usbBufCtrlLast ||| bufPid b) &&& usbBufCtrlData1Pid =
      bufPid b := by decide
  rw [newInEpb, BitVec.and_or_distrib_right, BitVec.and_or_distrib_right, hhead,
    (ofNat_and_len hn).2.2.2, show usbBufCtrlAvail &&& usbBufCtrlData1Pid = 0 from by decide]
  simp

theorem lenField_newInEpb_avail : lenField (newInEpb b n ||| usbBufCtrlAvail) = n := by
  have hhead : ∀ b, (usbBufCtrlFull ||| usbBufCtrlLast ||| bufPid b) &&& usbBufCtrlLenMask = 0 := by
    decide
  have hmod : n % 2 ^ 16 = n := Nat.mod_eq_of_lt (lt_of_le_of_lt hn (by decide))
  rw [lenField, newInEpb, BitVec.and_or_distrib_right, BitVec.and_or_distrib_right, hhead,
    (ofNat_and_len hn).1, show usbBufCtrlAvail &&& usbBufCtrlLenMask = 0 from by decide]
  simpa using hmod

omit hn in
theorem newInEpb_avail_isAvail : isAvail (newInEpb b n ||| usbBufCtrlAvail) = true := by
  have hbit : ((newInEpb b n ||| usbBufCtrlAvail) &&& usbBufCtrlAvail).getLsbD 10 = true := by
    rw [BitVec.getLsbD_and, BitVec.getLsbD_or, show usbBufCtrlAvail.getLsbD 10 = true from rfl,
      Bool.or_true, Bool.true_and]
  rw [isAvail, bne_iff_ne]
  intro hzero
  rw [hzero] at hbit
  exact Bool.noConfusion hbit

end Terraboot.Rp2040Usb
