import Terraboot.Packets
import Terraboot.UsbControl

/-!
# Control Transfers

A control transfer is a list of steps, each of which moves one packet. `usb_do_xfer` works off the
list; wherever it is suspended, the three saved variables stand for the steps that are left.

## Main results

* `usbDoXfer_outcome`: one call performs some of the steps, all of them, or fails at one.
* `run_outcome`: so does any number of passes of the main loop that go on with the transfer.
-/

open NorFlash

namespace Terraboot

/-! ### Steps -/

/-- A step of a transfer: one packet from the host, which is stored, or one to it. -/
inductive XferStep
  | receive (addr len : ℕ)
  | send (packet : List Byte)

/-- The packets of a read. -/
def receiveSteps (data size : ℕ) : List XferStep :=
  if usbCdcEp0Size < size then
    .receive data usbCdcEp0Size :: receiveSteps (data + usbCdcEp0Size) (size - usbCdcEp0Size)
  else [.receive data size]
termination_by size
decreasing_by
  rw [usbCdcEp0Size] at *
  omega

/-- The packets that carry some bytes, with an empty one behind them if it is asked for and the last
one is full. -/
def sendPackets (zlp : Prop) [Decidable zlp] (bytes : List Byte) : List (List Byte) :=
  Packets.split usbCdcEp0Size bytes ++
    if zlp ∧ bytes ≠ [] ∧ usbCdcEp0Size ∣ bytes.length then [[]] else []

/-- The steps of a transfer from some place on. -/
def xferSteps (m : Mem) (data size : ℕ) (flags : Byte) : List XferStep :=
  if flags &&& uxRead ≠ 0 then receiveSteps data size ++ [.send []]
  else (sendPackets (flags &&& uxSendZlp ≠ 0) (read m data size)).map .send

/-- The size of the next packet. -/
def xferLen (size : ℕ) : ℕ := if usbCdcEp0Size < size then usbCdcEp0Size else size

/-- The next step. -/
def xferFirst (m : Mem) (data size : ℕ) (flags : Byte) : XferStep :=
  if flags &&& uxRead ≠ 0 then .receive data (xferLen size) else .send (read m data (xferLen size))

/-- The flags of the rest of the transfer, unless the next step is the last one. -/
def xferNext (size : ℕ) (flags : Byte) : Option Byte :=
  if size - xferLen size = 0 then
    if flags &&& uxRead ≠ 0 then some uxSend
    else if xferLen size = usbCdcEp0Size ∧ flags &&& uxSendZlp ≠ 0 then some flags
    else none
  else some flags

theorem receiveSteps_ne_nil (data size : ℕ) : receiveSteps data size ≠ [] := by
  rw [receiveSteps]
  split_ifs <;> exact List.cons_ne_nil _ _

theorem sendPackets_nil (zlp : Prop) [Decidable zlp] : sendPackets zlp [] = [[]] := by
  rw [sendPackets, Packets.split_of_le (Nat.zero_le _), if_neg (fun h => h.2.1 rfl),
    List.append_nil]

/-- The zero-length packet, and the status packet. -/
theorem map_sendPackets_zero (zlp : Prop) [Decidable zlp] (m : Mem) (a : ℕ) :
    (sendPackets zlp (read m a 0)).map XferStep.send = [.send []] :=
  congrArg (List.map XferStep.send) (sendPackets_nil zlp)

/-- One packet of many. -/
theorem sendPackets_of_lt (zlp : Prop) [Decidable zlp] {bytes : List Byte}
    (h : usbCdcEp0Size < bytes.length) : sendPackets zlp bytes =
      bytes.take usbCdcEp0Size :: sendPackets zlp (bytes.drop usbCdcEp0Size) := by
  have hsize : usbCdcEp0Size = 16 := rfl
  have hlen : (bytes.drop usbCdcEp0Size).length = bytes.length - usbCdcEp0Size :=
    List.length_drop
  have hrest : bytes.drop usbCdcEp0Size ≠ [] := List.ne_nil_of_length_pos (by omega)
  have hbytes : bytes ≠ [] := List.ne_nil_of_length_pos (by omega)
  have hdvd : usbCdcEp0Size ∣ (bytes.drop usbCdcEp0Size).length ↔ usbCdcEp0Size ∣ bytes.length := by
    rw [hlen, hsize]
    omega
  rw [sendPackets, Packets.split_of_lt (by decide) h, sendPackets, List.cons_append]
  simp only [hdvd, hrest, hbytes, ne_eq, not_false_eq_true, true_and]

/-- The last packet of some bytes. -/
theorem sendPackets_of_le (zlp : Prop) [Decidable zlp] {bytes : List Byte} (hne : bytes ≠ [])
    (h : bytes.length ≤ usbCdcEp0Size) : sendPackets zlp bytes =
      bytes :: if bytes.length = usbCdcEp0Size ∧ zlp then [[]] else [] := by
  have hpos := List.length_pos_of_ne_nil hne
  have hdvd : usbCdcEp0Size ∣ bytes.length ↔ bytes.length = usbCdcEp0Size := by
    constructor
    · intro hdvd
      have hle := Nat.le_of_dvd hpos hdvd
      omega
    · exact fun heq => ⟨1, by omega⟩
  rw [sendPackets, Packets.split_of_le h, List.singleton_append]
  simp only [hdvd, hne, ne_eq, not_false_eq_true, true_and, and_comm]

theorem xferLen_of_lt {size : ℕ} (h : usbCdcEp0Size < size) : xferLen size = usbCdcEp0Size :=
  if_pos h

theorem xferLen_of_le {size : ℕ} (h : size ≤ usbCdcEp0Size) : xferLen size = size :=
  if_neg (not_lt.mpr h)

theorem xferNext_of_lt {size : ℕ} (h : usbCdcEp0Size < size) (flags : Byte) :
    xferNext size flags = some flags := by
  rw [xferNext, xferLen_of_lt h, if_neg (by omega)]

theorem xferNext_of_le {size : ℕ} (h : size ≤ usbCdcEp0Size) (flags : Byte) :
    xferNext size flags =
      if flags &&& uxRead ≠ 0 then some uxSend
      else if size = usbCdcEp0Size ∧ flags &&& uxSendZlp ≠ 0 then some flags
      else none := by
  rw [xferNext, xferLen_of_le h, if_pos (Nat.sub_self size)]

/-- **A transfer is its next step and the rest of it.** What a read stores in the memory makes no
difference to the rest. -/
theorem xferSteps_cons (m : Mem) {m' : Mem} (data size : ℕ) {flags : Byte}
    (hm : flags &&& uxRead = 0 → m' = m) : xferSteps m data size flags =
      xferFirst m data size flags :: (xferNext size flags).elim []
        (xferSteps m' (data + xferLen size) (size - xferLen size)) := by
  have hsend : ¬uxSend &&& uxRead ≠ 0 := by decide
  by_cases hread : flags &&& uxRead ≠ 0
  · rw [xferSteps, if_pos hread, xferFirst, if_pos hread, receiveSteps]
    by_cases hmore : usbCdcEp0Size < size
    · rw [if_pos hmore, xferLen_of_lt hmore, xferNext_of_lt hmore, Option.elim_some, xferSteps,
        if_pos hread, List.cons_append]
    · rw [if_neg hmore, xferLen_of_le (not_lt.mp hmore), xferNext_of_le (not_lt.mp hmore),
        if_pos hread, Option.elim_some, xferSteps, if_neg hsend, Nat.sub_self,
        map_sendPackets_zero, List.singleton_append]
  · have hlen : (read m data size).length = size := read_length m data size
    rw [hm (not_not.mp hread), xferSteps, if_neg hread, xferFirst, if_neg hread]
    by_cases hmore : usbCdcEp0Size < size
    · have hsplit : read m data size = read m data usbCdcEp0Size ++
          read m (data + usbCdcEp0Size) (size - usbCdcEp0Size) := by
        rw [← read_add, Nat.add_sub_cancel' hmore.le]
      have hfirst : (read m data usbCdcEp0Size).length = usbCdcEp0Size := read_length _ _ _
      rw [xferLen_of_lt hmore, xferNext_of_lt hmore, Option.elim_some, xferSteps, if_neg hread,
        sendPackets_of_lt _ (by omega), hsplit, List.take_left' hfirst, List.drop_left' hfirst,
        List.map_cons]
    · rw [xferLen_of_le (not_lt.mp hmore), xferNext_of_le (not_lt.mp hmore), if_neg hread,
        Nat.sub_self]
      rcases Nat.eq_zero_or_pos size with rfl | hpos
      · rw [if_neg fun h => absurd h.1 (by decide), map_sendPackets_zero]
        rfl
      have hne : read m data size ≠ [] := List.ne_nil_of_length_pos (by omega)
      rw [sendPackets_of_le _ hne (by omega), hlen, List.map_cons]
      split_ifs
      · rw [Option.elim_some, xferSteps, if_neg hread, map_sendPackets_zero]
        rfl
      · rfl

/-! ### Performing steps -/

/-- Some steps are performed: what happens on the endpoint, and the memory before and after. -/
inductive Performs : List XferStep → Mem → List Ep0Event → Mem → Prop
  | nil (m : Mem) : Performs [] m [] m
  | send {steps : List XferStep} {m m' : Mem} {events : List Ep0Event} (packet : List Byte)
      (h : Performs steps m events m') :
      Performs (.send packet :: steps) m (.sent packet :: events) m'
  | receive {steps : List XferStep} {m m' : Mem} {events : List Ep0Event} {addr len : ℕ}
      {bytes : List Byte} (hlen : bytes.length = len)
      (h : Performs steps (write m addr bytes) events m') :
      Performs (.receive addr len :: steps) m (.received bytes :: events) m'

/-- A step fails: the hardware reports an error, or a packet is too short. -/
inductive Fails : XferStep → Mem → List Ep0Event → Mem → Prop
  | error (step : XferStep) (m : Mem) (code : ℕ) : Fails step m [.failed code] m
  | short {addr len : ℕ} {bytes : List Byte} (h : bytes.length < len) (m : Mem) :
      Fails (.receive addr len) m [.received bytes] (write m addr bytes)

/-- What has become of a transfer that had some steps to perform. If it is not over, it has
performed at least `k` of them, and is suspended at the next one. -/
inductive Outcome (k : ℕ) (steps : List XferStep) (s s' : Ep0) : Prop
  | pending {done rest : List XferStep} {events : List Ep0Event} (hsplit : steps = done ++ rest)
      (hrest : rest ≠ []) (hk : k ≤ done.length) (hdone : Performs done s.mem events s'.mem)
      (hlog : s'.log = s.log ++ events) (hbusy : s'.xferFlags ≠ 0)
      (hleft : xferSteps s'.mem s'.xferData s'.xferSize.toNat s'.xferFlags = rest)
  | completed {events : List Ep0Event} (hdone : Performs steps s.mem events s'.mem)
      (hlog : s'.log = s.log ++ events) (hidle : s'.xferFlags = 0)
  | failed {done rest : List XferStep} {step : XferStep} {events events' : List Ep0Event} {m : Mem}
      (hsplit : steps = done ++ step :: rest) (hdone : Performs done s.mem events m)
      (hfail : Fails step m events' s'.mem)
      (hlog : s'.log = s.log ++ events ++ events' ++ [.stall]) (hidle : s'.xferFlags = 0)

theorem Performs.append {steps steps' : List XferStep} {m m' m'' : Mem}
    {events events' : List Ep0Event} (h : Performs steps m events m')
    (h' : Performs steps' m' events' m'') :
    Performs (steps ++ steps') m (events ++ events') m'' := by
  induction h with
  | nil => exact h'
  | send packet _ ih => exact .send packet (ih h')
  | receive hlen _ ih => exact .receive hlen (ih h')

theorem Performs.of_append {steps steps' : List XferStep} {m m'' : Mem} {events : List Ep0Event}
    (h : Performs (steps ++ steps') m events m'') : ∃ events₁ events₂ m', events = events₁ ++ events₂ ∧
      Performs steps m events₁ m' ∧ Performs steps' m' events₂ m'' := by
  induction steps generalizing m events with
  | nil => exact ⟨[], events, m, rfl, .nil m, h⟩
  | cons step steps ih =>
      cases h with
      | send packet h =>
          obtain ⟨events₁, events₂, m', rfl, h₁, h₂⟩ := ih h
          exact ⟨.sent packet :: events₁, events₂, m', rfl, .send packet h₁, h₂⟩
      | @receive _ _ _ _ _ _ bytes hlen h =>
          obtain ⟨events₁, events₂, m', rfl, h₁, h₂⟩ := ih h
          exact ⟨.received bytes :: events₁, events₂, m', rfl, .receive hlen h₁, h₂⟩

/-- **What has become of a transfer**, after some more of its steps. -/
theorem Outcome.prepend {k : ℕ} {done steps : List XferStep} {s s₁ s' : Ep0}
    {events : List Ep0Event} (hdone : Performs done s.mem events s₁.mem)
    (hlog : s₁.log = s.log ++ events) (h : Outcome k steps s₁ s') :
    Outcome (done.length + k) (done ++ steps) s s' := by
  cases h with
  | pending hsplit hrest hk hdone' hlog' hbusy hleft =>
      refine .pending ?_ hrest ?_ (hdone.append hdone') ?_ hbusy hleft
      · rw [hsplit, List.append_assoc]
      · rw [List.length_append]
        omega
      · rw [hlog', hlog, List.append_assoc]
  | completed hdone' hlog' hidle =>
      refine .completed (hdone.append hdone') ?_ hidle
      rw [hlog', hlog, List.append_assoc]
  | @failed done' rest step _ _ _ hsplit hdone' hfail hlog' hidle =>
      have hsplit' : done ++ steps = (done ++ done') ++ step :: rest := by
        rw [hsplit, List.append_assoc]
      refine .failed hsplit' (hdone.append hdone') hfail ?_ hidle
      simp only [hlog', hlog, List.append_assoc]

theorem Outcome.mono {k k' : ℕ} {steps : List XferStep} {s s' : Ep0} (h : Outcome k steps s s')
    (hk : k' ≤ k) : Outcome k' steps s s' := by
  cases h with
  | pending hsplit hrest hk' hdone hlog hbusy hleft =>
      exact .pending hsplit hrest (hk.trans hk') hdone hlog hbusy hleft
  | completed hdone hlog hidle => exact .completed hdone hlog hidle
  | failed hsplit hdone hfail hlog hidle => exact .failed hsplit hdone hfail hlog hidle

/-! ### The loop -/

/-- The next call of the hardware. -/
def xferCall (s : Ep0) (data size : ℕ) (flags : Byte) (reply : Ep0Reply) : ℤ × Ep0 :=
  if flags &&& uxRead ≠ 0 then usbReadEp0 s data (xferLen size) reply
  else usbSendEp0 s data (xferLen size) reply

/-- `usb_do_xfer` after the next call. -/
theorem usbDoXfer_cons (s : Ep0) (data size : ℕ) (flags : Byte) (reply : Ep0Reply)
    (replies : List Ep0Reply) : usbDoXfer s data size flags (reply :: replies) =
      let r := xferCall s data size flags reply
      if r.1 = xferLen size then
        (xferNext size flags).elim { r.2 with xferFlags := 0, wake := true } fun flags' =>
          usbDoXfer r.2 (data + xferLen size) (size - xferLen size) flags' replies
      else if r.1 = -1 then r.2.suspend data size flags
      else usbDoStall r.2 := by
  have hlen : (if usbCdcEp0Size < size then usbCdcEp0Size else size) = xferLen size := rfl
  rw [usbDoXfer, xferNext, xferCall]
  simp only [hlen]
  split_ifs <;> rfl

/-- The hardware takes the first packet that a transfer offers it. -/
def offered : List Ep0Reply → Bool
  | .packet _ :: _ => true
  | _ => false

/-- **What a call of the hardware does**: it performs the next step, or the hardware is busy and
nothing happens, or the step fails. -/
theorem xferCall_cases (s : Ep0) (data size : ℕ) (flags : Byte) (reply : Ep0Reply) :
    ((xferCall s data size flags reply).1 = xferLen size ∧
      (flags &&& uxRead = 0 → (xferCall s data size flags reply).2.mem = s.mem) ∧
      ∃ events, Performs [xferFirst s.mem data size flags] s.mem events
          (xferCall s data size flags reply).2.mem ∧
        (xferCall s data size flags reply).2.log = s.log ++ events) ∨
    (xferCall s data size flags reply = (-1, s) ∧ reply = .busy) ∨
    ((xferCall s data size flags reply).1 ≠ xferLen size ∧
      (xferCall s data size flags reply).1 ≠ -1 ∧
      ∃ events, Fails (xferFirst s.mem data size flags) s.mem events
          (xferCall s data size flags reply).2.mem ∧
        (xferCall s data size flags reply).2.log = s.log ++ events) := by
  rw [xferCall, xferFirst]
  cases reply with
  | busy =>
      refine .inr (.inl ⟨?_, rfl⟩)
      split_ifs <;> rfl
  | error code =>
      have hlen : (-2 - code : ℤ) ≠ xferLen size := by omega
      have hbusy : (-2 - code : ℤ) ≠ -1 := by omega
      refine .inr (.inr ?_)
      split_ifs <;> exact ⟨hlen, hbusy, _, .error _ _ code, rfl⟩
  | packet bytes =>
      split_ifs with hread
      · by_cases hfull : (bytes.take (xferLen size)).length = xferLen size
        · refine .inl ⟨congrArg Int.ofNat hfull, fun h => absurd h hread, _, ?_, rfl⟩
          exact .receive hfull (.nil _)
        · have hle : (bytes.take (xferLen size)).length ≤ xferLen size := List.length_take_le _ _
          refine .inr (.inr ⟨fun h => hfull (Int.ofNat_inj.mp h), ?_, _, ?_, rfl⟩)
          · exact fun h => absurd h (by rw [usbReadEp0]; dsimp only; omega)
          · exact .short (by omega) _
      · exact .inl ⟨rfl, fun _ => rfl, _, .send _ (.nil _), rfl⟩

theorem xferNext_ne_zero {size : ℕ} {flags flags' : Byte} (h : xferNext size flags = some flags')
    (hflags : flags ≠ 0) : flags' ≠ 0 := by
  rw [xferNext] at h
  split_ifs at h <;> obtain rfl := Option.some.inj h
  · decide
  · exact hflags
  · exact hflags

/-- **One call of `usb_do_xfer`** performs some of the steps, all of them, or fails at one. -/
theorem usbDoXfer_outcome (s : Ep0) (data : ℕ) {size : ℕ} (hsize : size ≤ 255) {flags : Byte}
    (hflags : flags ≠ 0) (replies : List Ep0Reply) :
    Outcome (offered replies).toNat (xferSteps s.mem data size flags) s
      (usbDoXfer s data size flags replies) := by
  have hsuspended : ∀ (s : Ep0) (data size : ℕ) (flags : Byte), size ≤ 255 → flags ≠ 0 →
      Outcome 0 (xferSteps s.mem data size flags) s (s.suspend data size flags) := by
    intro s data size flags hsize hflags
    refine .pending (List.nil_append _).symm ?_ le_rfl (.nil _) (List.append_nil _).symm hflags ?_
    · rw [xferSteps_cons s.mem data size fun _ => rfl]
      exact List.cons_ne_nil _ _
    · have hsaved : (BitVec.ofNat 8 size).toNat = size := by
        rw [BitVec.toNat_ofNat, Nat.mod_eq_of_lt (by omega)]
      exact congrArg (xferSteps s.mem data · flags) hsaved
  induction replies generalizing s data size flags with
  | nil => exact hsuspended s data size flags hsize hflags
  | cons reply replies ih =>
      rw [usbDoXfer_cons]
      dsimp only
      rcases xferCall_cases s data size flags reply with
        ⟨hret, hmem, events, hdone, hlog⟩ | ⟨hbusy, rfl⟩ | ⟨hret, hbusy, events, hfail, hlog⟩
      · rw [if_pos hret, xferSteps_cons s.mem data size hmem]
        cases hnext : xferNext size flags with
        | none => exact .completed hdone hlog rfl
        | some flags' =>
            have hless : size - xferLen size ≤ 255 := (Nat.sub_le _ _).trans hsize
            have hrest := ih (xferCall s data size flags reply).2 (data + xferLen size) hless
              (xferNext_ne_zero hnext hflags)
            refine (hrest.prepend hdone hlog).mono ?_
            exact (Bool.toNat_le _).trans (Nat.le_add_right 1 _)
      · rw [hbusy, if_neg (by dsimp only; omega), if_pos rfl]
        exact hsuspended s data size flags hsize hflags
      · rw [if_neg hret, if_neg hbusy, xferSteps_cons s.mem data size fun _ => rfl]
        refine .failed (List.nil_append _).symm (.nil _) hfail ?_ rfl
        rw [List.append_nil, ← hlog]
        rfl

/-! ### Passes of the main loop -/

/-- The task runs, and the hardware takes the first packet that it is offered. -/
def Ep0Pass.offers (p : Ep0Pass) : Bool := p.notified && offered p.replies

/-- Every one of the passes begins before the transfer is over. -/
def Ep0.Unfinished (b : UsbBuild) (s : Ep0) (passes : List Ep0Pass) : Prop :=
  ∀ pre p post, passes = pre ++ p :: post → (s.run b pre).xferFlags ≠ 0

theorem Ep0.Unfinished.of_append {b : UsbBuild} {s : Ep0} {passes : List Ep0Pass} {p : Ep0Pass}
    (h : s.Unfinished b (passes ++ [p])) :
    s.Unfinished b passes ∧ (s.run b passes).xferFlags ≠ 0 := by
  refine ⟨fun pre q post hsplit => ?_, h passes p [] rfl⟩
  refine h pre q (post ++ [p]) ?_
  rw [hsplit, List.append_assoc, List.cons_append]

/-- One more pass. -/
theorem Outcome.step {b : UsbBuild} {k : ℕ} {steps : List XferStep} {s s₁ : Ep0}
    (h : Outcome k steps s s₁) (hbusy : s₁.xferFlags ≠ 0) (p : Ep0Pass) :
    Outcome (k + p.offers.toNat) steps s (s₁.step b p) := by
  cases h with
  | completed _ _ hidle => exact absurd hidle hbusy
  | failed _ _ _ _ hidle => exact absurd hidle hbusy
  | pending hsplit hrest hk hdone hlog _ hleft =>
      cases hwake : s₁.wake || p.notified with
      | false =>
          have hoffers : p.offers = false := by
            rw [Ep0Pass.offers, (Bool.or_eq_false_iff.mp hwake).2, Bool.false_and]
          rw [Ep0.step_asleep hwake, hoffers]
          exact .pending hsplit hrest hk hdone hlog hbusy hleft
      | true =>
          have hout := usbDoXfer_outcome { s₁ with wake := false } s₁.xferData
            (Nat.le_of_lt_succ s₁.xferSize.isLt) hbusy p.replies
          have hdone' : Performs _ s.mem _ ({ s₁ with wake := false } : Ep0).mem := hdone
          rw [Ep0.step_resume hbusy hwake, hsplit, ← hleft]
          refine (hout.prepend hdone' hlog).mono ?_
          have hoffers : p.offers.toNat ≤ (offered p.replies).toNat := by
            rw [Ep0Pass.offers]
            cases p.notified <;> simp
          omega

/-- **Passes of the main loop go on with a transfer**: they perform more of its steps, all of them,
or fail at one. -/
theorem run_outcome {b : UsbBuild} {k : ℕ} {steps : List XferStep} {s s₁ : Ep0}
    (h : Outcome k steps s s₁) {passes : List Ep0Pass} (hpasses : s₁.Unfinished b passes) :
    Outcome (k + passes.countP Ep0Pass.offers) steps s (s₁.run b passes) := by
  induction passes using List.reverseRecOn with
  | nil => exact h
  | append_singleton passes p ih =>
      obtain ⟨hbefore, hbusy⟩ := hpasses.of_append
      rw [Ep0.run_concat]
      refine ((ih hbefore).step hbusy p).mono ?_
      rw [List.countP_append, List.countP_singleton]
      split_ifs with hoffers
      · rw [hoffers]
        exact le_rfl
      · omega

end Terraboot
