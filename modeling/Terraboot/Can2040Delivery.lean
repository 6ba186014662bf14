import Terraboot.Can2040Receive

/-!
# Every Frame Is Reported Once

Here the frames on the line are followed through a whole run of the controller, in words of ten bits
that begin and end anywhere, and with interrupts and calls of `can2040_transmit` in between.

The line is taken for idle (`SI_MAYTX`) when it has been recessive for ten bits. Behind a frame this
is where the frame ends, and of its bits at most nine have not been handed over then.

## Main results

* `run_receives`: the frames of other senders are received in their order, each of them once.
* `run_echoes`: the frame that the state machine has been told to send is confirmed when it has come
  back over the line.
-/

open BitStuffing MsbBits

namespace Terraboot.Can2040

/-- The parser waits for a frame, and no report is due. -/
structure Ready (cd : State) : Prop where
  parseState_eq : cd.parseState = .start
  countStuff_eq : cd.unstuf.countStuff = 0
  unstuffedBits_eq : cd.unstuf.unstuffedBits = 0
  countUnstuff_eq : cd.unstuf.countUnstuff = 1
  past : SameRun 5 recessivePast (bitsAbove cd.unstuf.stuffedBits 0 5)
  rxStall_eq : cd.pio.rxStall = false
  idle : cd.reportState = .idle

/-- The reports of some frames, of which the first may be the controller's own. -/
def reports (own : Bool) : List BusFrame → List Notify
  | [] => []
  | f :: fs => report f own :: fs.map (report · false)

/-- The bits that an input brings. -/
def Input.bits : Input → List Bool
  | .rx data => msbBits data pioRxWakeBits
  | .line .. | .sender _ | .rxStall | .txDidFail _ => []

/-- Ten recessive bits at the end of a frame have been on the line, and at most nine of them have not
been handed over. -/
def LineIdle (fs : List BusFrame) (bits : List Bool) : Prop :=
  ∃ done rest k, fs = done ++ rest ∧ k ≤ 9 ∧ bits ++ List.replicate k true = done.flatMap onLine

/-- Some frames are followed on the line, and some bits of them have come. -/
def Following (own : Bool) (fs : List BusFrame) (calls₀ : List Notify) (bits : List Bool)
    (cd : State) : Prop :=
  ∃ done f rest taken state h field, fs = done ++ f :: rest ∧
    bits = done.flatMap onLine ++ taken ∧ taken ++ leftBits f state h field = onLine f ∧
    (taken = [] → state = .start ∧ h = recessivePast ∧ field = fieldBits f .start) ∧
    Reading f (own && done.isEmpty) (calls₀ ++ reports own done) cd state h field

theorem reports_concat (own : Bool) (done : List BusFrame) (f : BusFrame) :
    reports own (done ++ [f]) = reports own done ++ [report f (own && done.isEmpty)] := by
  cases done with
  | nil => simp [reports]
  | cons g done => simp [reports]

theorem Ready.reading {cd : State} (hr : Ready cd) {f : BusFrame} {own : Bool}
    (hecho : own = true → Echo f cd) :
    Reading f own cd.calls cd .start recessivePast (fieldBits f .start) := by
  have hlength := le_length_headerBits f
  have hone : (fieldBits f .start).length = 1 := by
    rw [fieldBits, List.length_take]
    omega
  refine ⟨⟨hr.parseState_eq, hr.countStuff_eq, hr.rxStall_eq, trivial, hr.idle, rfl, hecho⟩, hr.past,
    ?_, ?_, ?_, ?_⟩
  · exact List.length_pos_iff.mp (by omega)
  · rw [hone]
    exact hr.countUnstuff_eq
  · rw [hr.unstuffedBits_eq]
    exact BitVec.zero_or
  · rintro ⟨⟩

theorem Ready.following {cd : State} (hr : Ready cd) {f : BusFrame} {own : Bool}
    (hecho : own = true → Echo f cd) (rest : List BusFrame) :
    Following own (f :: rest) cd.calls [] cd := by
  refine ⟨[], f, rest, [], .start, recessivePast, fieldBits f .start, rfl, rfl, leftBits_start f,
    fun _ => ⟨rfl, rfl, rfl⟩, ?_⟩
  have hown : (own && List.isEmpty ([] : List BusFrame)) = own := by simp
  rw [hown, reports, List.append_nil]
  exact hr.reading hecho

/-- The messages that are waiting are those that have been accepted. -/
theorem SendInv.oldest_id_ne {cd : State} (hsend : SendInv cd) {f : BusFrame}
    (hforeign : ∀ msg ∈ cd.accepted, (msgOf (frameOf msg)).id ≠ (msgOf f).id)
    (hqueued : cd.txState = .queued) : (oldest cd).msg.id ≠ (msgOf f).id := by
  obtain ⟨log, lo, hi, hq⟩ := hsend.queue
  obtain ⟨msg, hmsg, hslot⟩ := hq.accepted_getElem? (hq.pending_iff.mp (hsend.sent hqueued).1)
  rw [encode_msg hslot]
  exact hforeign msg (List.mem_of_getElem? hmsg)

/-- While more bits of the frames are to come, one of the frames is under way. -/
theorem rest_of_prefix {fs done rest : List BusFrame} {f g : BusFrame} {taken : List Bool} {b : Bool}
    (hfs : fs ++ [g] = done ++ f :: rest)
    (hbits : done.flatMap onLine ++ taken ++ [b] <+: fs.flatMap onLine) :
    ∃ rest', rest = rest' ++ [g] ∧ fs = done ++ f :: rest' := by
  rcases List.eq_nil_or_concat rest with rfl | ⟨rest', x, rfl⟩
  · obtain ⟨rfl, -⟩ := List.append_inj' hfs rfl
    have hlength := hbits.length_le
    simp only [List.length_append, List.length_singleton] at hlength
    omega
  · have hassoc : done ++ f :: (rest' ++ [x]) = (done ++ f :: rest') ++ [x] := by simp
    rw [List.concat_eq_append, hassoc] at hfs
    obtain ⟨rfl, hx⟩ := List.append_inj' hfs rfl
    obtain ⟨rfl, -⟩ := List.cons.inj hx
    exact ⟨rest', List.concat_eq_append, rfl⟩

variable {own : Bool} {fs : List BusFrame} {g : BusFrame} {calls₀ : List Notify} {cd : State}
  {bits : List Bool}

/-- **One more bit.** -/
theorem Following.bitStep (hf : Following own (fs ++ [g]) calls₀ bits cd) (hsend : SendInv cd)
    (hforeign : ∀ f ∈ fs.drop (if own then 1 else 0), ∀ msg ∈ cd.accepted,
      (msgOf (frameOf msg)).id ≠ (msgOf f).id) {b : Bool}
    (hbits : bits ++ [b] <+: fs.flatMap onLine) :
    Calm cd b ∧ Following own (fs ++ [g]) calls₀ (bits ++ [b]) (bitStep cd b) := by
  obtain ⟨done, f, rest, taken, state, h, field, hfs, rfl, htaken, -, hr⟩ := hf
  obtain ⟨rest', rfl, rfl⟩ := rest_of_prefix hfs hbits
  have hother : (own && done.isEmpty) = false → cd.txState = .queued →
      (oldest cd).msg.id ≠ (msgOf f).id := by
    intro hown hqueued
    refine hsend.oldest_id_ne (hforeign f ?_) hqueued
    cases own with
    | false => exact List.mem_append_right _ List.mem_cons_self
    | true =>
        cases done with
        | nil => cases hown
        | cons x done => exact List.mem_append_right _ List.mem_cons_self
  -- the bit is the next one of the frame
  obtain ⟨c, l, hleft⟩ : ∃ c l, leftBits f state h field = c :: l := by
    obtain ⟨c, field, rfl⟩ := List.exists_cons_of_ne_nil hr.field_ne
    rw [leftBits_cons]
    cases stuffBit 5 h with
    | nil => exact ⟨_, _, rfl⟩
    | cons x t => exact ⟨_, _, rfl⟩
  have hnext : b = c := by
    obtain ⟨tail, htail⟩ := hbits
    rw [List.flatMap_append, List.flatMap_cons, ← htaken, hleft] at htail
    simp only [List.append_assoc, List.append_cancel_left_eq, List.cons_append, List.nil_append,
      List.cons.injEq] at htail
    exact htail.1
  subst hnext
  obtain ⟨hcalm, hstep⟩ := hr.bitStep hother hleft
  refine ⟨hcalm, ?_⟩
  rcases hstep with ⟨state', h', field', hr', hleft'⟩ | ⟨rfl, hnew⟩
  · refine ⟨done, f, rest' ++ [g], taken ++ [b], state', h', field', by simp, by simp, ?_, ?_, hr'⟩
    · rw [hleft', ← htaken, hleft]
      simp
    · intro hnil
      simp at hnil
  · -- the next frame begins
    obtain ⟨f', rest'', hrest⟩ : ∃ f' rest'', rest' ++ [g] = f' :: rest'' := by
      cases rest' with
      | nil => exact ⟨_, _, rfl⟩
      | cons x t => exact ⟨_, _, rfl⟩
    refine ⟨done ++ [f], f', rest'', [], .start, recessivePast, fieldBits f' .start, ?_, ?_,
      leftBits_start f', fun _ => ⟨rfl, rfl, rfl⟩, ?_⟩
    · simp [hrest]
    · rw [List.flatMap_append, List.flatMap_singleton, ← htaken, hleft]
      simp
    · have hfalse : (own && (done ++ [f]).isEmpty) = false := by simp
      rw [hfalse, reports_concat, ← List.append_assoc]
      exact hnew f'

/-- **A group of bits.** -/
theorem Following.foldl {w : List Bool} (hf : Following own (fs ++ [g]) calls₀ bits cd)
    (hsound : Sound cd) (hforeign : ∀ f ∈ fs.drop (if own then 1 else 0), ∀ msg ∈ cd.accepted,
      (msgOf (frameOf msg)).id ≠ (msgOf f).id)
    (hbits : bits ++ w <+: fs.flatMap onLine) :
    CalmRun cd w ∧ Following own (fs ++ [g]) calls₀ (bits ++ w) (w.foldl Can2040.bitStep cd) := by
  induction w generalizing cd bits with
  | nil => exact ⟨trivial, by rwa [List.append_nil]⟩
  | cons b w ih =>
      have hassoc : bits ++ b :: w = bits ++ [b] ++ w := by simp
      rw [hassoc] at hbits ⊢
      obtain ⟨hcalm, hnext⟩ :=
        hf.bitStep hsound.toSendInv hforeign ((List.prefix_append _ w).trans hbits)
      have hcaller := (keptByParser_caller cd.caller).bitStep rfl b
      have haccepted : (Can2040.bitStep cd b).accepted = cd.accepted :=
        congrArg Caller.accepted hcaller
      obtain ⟨hcalms, hlast⟩ := ih hnext (keptByParser_sound.bitStep hsound b)
        (haccepted ▸ hforeign) hbits
      exact ⟨⟨hcalm, hcalms⟩, hlast⟩

/-- Much is left of a frame that waits for its acknowledgement. -/
theorem length_leftBits_ge (f : BusFrame) {state : ParseState} (hstate : state = .crc ∨ state = .ack)
    (h : List Bool) {field : List Bool} (hfield : field ≠ []) :
    10 ≤ (leftBits f state h field).length := by
  have hpos := List.length_pos_iff.mpr hfield
  have hstuff := length_le_stuff 5 h (field ++ laterBits f state)
  rw [leftBits, List.length_append]
  rcases hstate with rfl | rfl
  · simp only [laterBits, tailBits, List.length_append, List.length_replicate, List.length_cons,
      List.length_nil] at hstuff ⊢
    omega
  · simp only [laterBits, tailBits, List.length_append, List.length_replicate] at hstuff ⊢
    omega

theorem length_flatMap_onLine_le {done done' : List BusFrame} (h : done <+: done') :
    (done.flatMap onLine).length ≤ (done'.flatMap onLine).length := by
  obtain ⟨rest, rfl⟩ := h
  rw [List.flatMap_append, List.length_append]
  omega

/-- **While the line is idle**, no frame waits for its acknowledgement. -/
theorem LineIdle.ne {done rest : List BusFrame} {f : BusFrame} {taken : List Bool}
    {state : ParseState} {h field : List Bool} (hidle : LineIdle fs bits)
    (hfs : fs ++ [g] = done ++ f :: rest) (hbits : bits = done.flatMap onLine ++ taken)
    (htaken : taken ++ leftBits f state h field = onLine f) (hstart : taken = [] → state = .start)
    (hfield : field ≠ []) : state ≠ .crc ∧ state ≠ .ack := by
  rw [← not_or]
  intro hlate
  have hleft := length_leftBits_ge f hlate h hfield
  have hpos : 0 < taken.length := by
    refine List.length_pos_iff.mpr fun hnil => ?_
    rcases hlate with hstate | hstate
    · cases hstate.symm.trans (hstart hnil)
    · cases hstate.symm.trans (hstart hnil)
  obtain ⟨ended, more, k, rfl, hk, hends⟩ := hidle
  have hlength := congrArg List.length hends
  have hframe := congrArg List.length htaken
  rw [hbits] at hlength
  simp only [List.length_append, List.length_replicate] at hlength hframe
  have hended : ended <+: done ++ f :: rest := ⟨more ++ [g], by rw [← List.append_assoc, hfs]⟩
  rcases List.prefix_or_prefix_of_prefix hended (List.prefix_append done _) with hle | hle
  · have := length_flatMap_onLine_le hle
    omega
  · -- the frame under way is one of those that have ended
    obtain ⟨others, rfl⟩ := hle
    rw [List.append_assoc, List.append_assoc, List.append_cancel_left_eq] at hfs
    cases others with
    | nil => 
        rw [List.append_nil] at hlength
        omega
    | cons x others =>
        obtain ⟨rfl, -⟩ := List.cons.inj hfs
        simp only [List.flatMap_append, List.flatMap_cons, List.length_append] at hlength
        omega

/-! ### Runs -/

/-- Nothing but the overflow of the receive queue is excluded, and the line is taken for idle behind
the frames only. -/
def Orderly (fs : List BusFrame) : List Bool → List Input → Prop
  | _, [] => True
  | bits, .rx data :: inputs => Orderly fs (bits ++ msbBits data pioRxWakeBits) inputs
  | bits, .line maytx _ _ _ :: inputs => (maytx = true → LineIdle fs bits) ∧ Orderly fs bits inputs
  | bits, .sender _ :: inputs => Orderly fs bits inputs
  | _, .rxStall :: _ => False
  | bits, .txDidFail _ :: inputs => Orderly fs bits inputs

section

variable (window : List SenderStep) (cd : State)

theorem senderStep_accepted (s : SenderStep) : cd.accepted <+: (senderStep cd s).accepted := by
  unfold senderStep
  split
  · obtain ⟨_, _, hfill⟩ := transmitFill_eq cd ‹_›
    rw [hfill]
  · exact List.prefix_append _ _
  · exact List.prefix_refl _
  · exact List.prefix_refl _

theorem window_accepted : cd.accepted <+: (window.foldl senderStep cd).accepted := by
  induction window generalizing cd with
  | nil => exact List.prefix_refl _
  | cons s window ih => exact (senderStep_accepted cd s).trans (ih _)

theorem txScheduleTransmit_accepted :
    cd.accepted <+: (txScheduleTransmit (window.foldl senderStep ·) cd).1.accepted := by
  have hwindow := window_accepted window (pioSignalClearTxpending { cd with txState := .idle })
  rw [txScheduleTransmit]
  dsimp only
  split_ifs
  · exact List.prefix_refl _
  · exact hwindow
  · exact hwindow
  · exact List.prefix_refl _

theorem reportHandleEof_accepted : (reportHandleEof cd).accepted = cd.accepted :=
  congrArg Caller.accepted (reportHandleEof_caller cd)

theorem lineEvent_accepted (maytx matched ackdone : Bool) :
    cd.accepted <+: (lineEvent maytx matched ackdone (window.foldl senderStep ·) cd).accepted := by
  have hschedule (cd₁ : State) (h : cd₁.accepted = cd.accepted) :
      cd.accepted <+: (txScheduleTransmit (window.foldl senderStep ·) cd₁).1.accepted :=
    h ▸ txScheduleTransmit_accepted window cd₁
  rw [lineEvent]
  split_ifs
  · rw [reportLineAckdone]
    exact hschedule (pioMatchCheck cd _) rfl
  · rw [reportLineMatched]
    split_ifs
    · exact hschedule _ (reportHandleEof_accepted _)
    · exact hschedule cd rfl
  · rw [reportLineMaytx]
    split_ifs
    · exact hschedule _ (reportHandleEof_accepted _)
    · exact hschedule cd rfl
  · rw [reportLineTxpending]
    dsimp only
    split_ifs
    · exact List.prefix_refl _
    · exact hschedule cd rfl
  · exact List.prefix_refl _

end

/-- What has been accepted is not forgotten. -/
theorem step_accepted {cd cd' : State} (htidy : Tidy cd) {i : Input} (h : step cd i = some cd') :
    cd.accepted <+: cd'.accepted := by
  cases i with
  | rx data =>
      obtain ⟨cd₁, hrx, -, hcaller⟩ :=
        processRx_rule (keptByParser_caller cd.caller) htidy (n := pioRxWakeBits) (by decide) data rfl
      obtain rfl : cd₁ = cd' := Option.some.inj (hrx.symm.trans h)
      have haccepted : cd₁.accepted = cd.accepted := congrArg Caller.accepted hcaller
      rw [haccepted]
  | line maytx matched ackdone window =>
      obtain rfl := Option.some.inj h
      exact lineEvent_accepted window cd maytx matched ackdone
  | sender s =>
      obtain rfl := Option.some.inj h
      exact senderStep_accepted cd s
  | rxStall | txDidFail =>
      obtain rfl := Option.some.inj h
      exact List.prefix_refl _

theorem foldlM_accepted {cd cd' : State} (htidy : Tidy cd) (hsound : Sound cd) {inputs : List Input}
    (h : inputs.foldlM step cd = some cd') : cd.accepted <+: cd'.accepted := by
  induction inputs generalizing cd with
  | nil =>
      obtain rfl := Option.some.inj h
      exact List.prefix_refl _
  | cons i inputs ih =>
      obtain ⟨cd₁, hstep, htidy₁, hsound₁⟩ := hsound.step htidy i
      rw [List.foldlM_cons, hstep] at h
      exact (step_accepted htidy hstep).trans (ih htidy₁ hsound₁ h)

/-- **Whatever happens** while frames come in, they are followed. -/
theorem Following.step {i : Input} {inputs : List Input} (hf : Following own (fs ++ [g]) calls₀ bits cd)
    (htidy : Tidy cd) (hsound : Sound cd) (horderly : Orderly fs bits (i :: inputs))
    (hforeign : ∀ f ∈ fs.drop (if own then 1 else 0), ∀ msg ∈ cd.accepted,
      (msgOf (frameOf msg)).id ≠ (msgOf f).id)
    (hbits : bits ++ i.bits <+: fs.flatMap onLine) :
    ∃ cd', Can2040.step cd i = some cd' ∧ Orderly fs (bits ++ i.bits) inputs ∧
      Following own (fs ++ [g]) calls₀ (bits ++ i.bits) cd' := by
  cases i with
  | rx data =>
      obtain ⟨hcalm, hnext⟩ := hf.foldl hsound hforeign hbits
      exact ⟨_, processRx_eq_foldl htidy le_rfl hcalm, horderly, hnext⟩
  | line maytx matched ackdone window =>
      obtain ⟨hidle, horderly⟩ := horderly
      obtain ⟨done, f, rest, taken, state, h, field, hfs, hcome, htaken, hstart, hr⟩ := hf
      have hquiet (hon : maytx = true) :=
        (hidle hon).ne hfs hcome htaken (fun hnil => (hstart hnil).1) hr.field_ne
      have hparsed : Parsed f _ _ (lineEvent maytx matched ackdone
          (window.foldl Can2040.senderStep ·) cd) state :=
        hr.toParsed.lineEvent hsound.toSendInv window hquiet
      have hunstuf := congrArg Parser.unstuf (lineEvent_parser_eq window cd maytx matched ackdone)
      rw [Input.bits, List.append_nil]
      refine ⟨_, rfl, horderly, ?_⟩
      exact ⟨done, f, rest, taken, state, h, field, hfs, hcome, htaken, hstart,
        hr.congr hparsed hunstuf⟩
  | sender s =>
      obtain ⟨done, f, rest, taken, state, h, field, hfs, hcome, htaken, hstart, hr⟩ := hf
      have hparsed := hr.toParsed.senderStep hsound.toSendInv s
      have hunstuf := congrArg (fun r => r.parser.unstuf) (senderStep_receiver cd s)
      rw [Input.bits, List.append_nil]
      refine ⟨_, rfl, horderly, ?_⟩
      exact ⟨done, f, rest, taken, state, h, field, hfs, hcome, htaken, hstart,
        hr.congr hparsed hunstuf⟩
  | rxStall => exact horderly.elim
  | txDidFail failed =>
      obtain ⟨done, f, rest, taken, state, h, field, hfs, hcome, htaken, hstart, hr⟩ := hf
      rw [Input.bits, List.append_nil]
      refine ⟨_, rfl, horderly, ?_⟩
      refine ⟨done, f, rest, taken, state, h, field, hfs, hcome, htaken, hstart, ?_⟩
      exact hr.congr ⟨hr.parseState_eq, hr.countStuff_eq, hr.rxStall_eq, hr.written, hr.reported⟩ rfl

theorem Following.run {cd' : State} {inputs : List Input}
    (hf : Following own (fs ++ [g]) calls₀ bits cd) (htidy : Tidy cd) (hsound : Sound cd)
    (hrun : inputs.foldlM Can2040.step cd = some cd') (horderly : Orderly fs bits inputs)
    (hforeign : ∀ f ∈ fs.drop (if own then 1 else 0), ∀ msg ∈ cd'.accepted,
      (msgOf (frameOf msg)).id ≠ (msgOf f).id)
    (hbits : bits ++ inputs.flatMap Input.bits <+: fs.flatMap onLine) :
    Following own (fs ++ [g]) calls₀ (bits ++ inputs.flatMap Input.bits) cd' := by
  induction inputs generalizing cd bits with
  | nil =>
      obtain rfl := Option.some.inj hrun
      rwa [List.flatMap_nil, List.append_nil]
  | cons i inputs ih =>
      have haccepted := foldlM_accepted htidy hsound hrun
      rw [List.flatMap_cons, ← List.append_assoc] at hbits ⊢
      obtain ⟨cd₁, hstep, horderly', hf'⟩ := hf.step htidy hsound horderly
        (fun f hf msg hmsg => hforeign f hf msg (haccepted.subset hmsg))
        ((List.prefix_append _ _).trans hbits)
      obtain ⟨cd₂, hstep₂, htidy', hsound'⟩ := hsound.step htidy i
      obtain rfl : cd₁ = cd₂ := Option.some.inj (hstep.symm.trans hstep₂)
      rw [List.foldlM_cons, hstep] at hrun
      exact ih hf' htidy' hsound' hrun horderly' hbits

theorem leftBits_ne {f : BusFrame} {state : ParseState} {h field : List Bool} (hfield : field ≠ []) :
    leftBits f state h field ≠ [] := by
  have hpos := List.length_pos_iff.mpr hfield
  have hstuff := length_le_stuff 5 h (field ++ laterBits f state)
  refine List.length_pos_iff.mp ?_
  rw [List.length_append] at hstuff
  rw [leftBits, List.length_append]
  omega

theorem reports_mono (own : Bool) {done done' : List BusFrame} (h : done <+: done') :
    reports own done <+: reports own done' := by
  obtain ⟨rest, rfl⟩ := h
  cases done with
  | nil => exact List.nil_prefix
  | cons f done =>
      refine ⟨rest.map (report · false), ?_⟩
      simp [reports]

/-- While a frame is under way it may have been reported, but no later one. -/
theorem Reading.calls {f : BusFrame} {state : ParseState} {h field : List Bool}
    (hr : Reading f own calls₀ cd state h field) :
    calls₀ <+: cd.calls ∧ cd.calls <+: calls₀ ++ [report f own] ∧
      (state = .start → cd.calls = calls₀) := by
  have hnone (h : cd.calls = calls₀) : calls₀ <+: cd.calls ∧ cd.calls <+: calls₀ ++ [report f own] :=
    ⟨h ▸ List.prefix_refl _, h ▸ List.prefix_append _ _⟩
  have hmade (h : cd.calls = calls₀ ++ [report f own]) :
      calls₀ <+: cd.calls ∧ cd.calls <+: calls₀ ++ [report f own] :=
    ⟨h ▸ List.prefix_append _ _, h ▸ List.prefix_refl _⟩
  have hreported := hr.reported
  have hwritten := hr.written
  cases state with
  | start => exact ⟨(hnone hreported.2.1).1, (hnone hreported.2.1).2, fun _ => hreported.2.1⟩
  | header | extHeader | data0 | data1 =>
      exact ⟨(hnone hreported.2.1).1, (hnone hreported.2.1).2, fun h => by cases h⟩
  | crc | ack | eof0 | eof1 =>
      have hboth := hreported.elim (fun h => hnone h.2) fun h => hmade h.2
      exact ⟨hboth.1, hboth.2, fun h => by cases h⟩
  | discard => exact hwritten.elim

/-- **What has been reported** while frames come in. -/
theorem Following.calls (hf : Following own (fs ++ [g]) calls₀ bits cd) {done : List BusFrame}
    (hdone : done <+: fs) :
    (done.flatMap onLine <+: bits → calls₀ ++ reports own done <+: cd.calls) ∧
      (bits <+: done.flatMap onLine → cd.calls <+: calls₀ ++ reports own done) := by
  obtain ⟨ended, f, rest, taken, state, h, field, hfs, rfl, htaken, hstart, hr⟩ := hf
  obtain ⟨hafter, hbefore, hnone⟩ := hr.calls
  have hframe := congrArg List.length htaken
  have hleft : 0 < (leftBits f state h field).length :=
    List.length_pos_iff.mpr (leftBits_ne hr.field_ne)
  rw [List.length_append] at hframe
  have hprefix : done <+: fs ++ [g] := hdone.trans (List.prefix_append _ _)
  have hended : ended ++ [f] <+: fs ++ [g] := ⟨rest, by rw [hfs]; simp⟩
  have hcases : ended ++ [f] <+: done ∨ done <+: ended := by
    rcases List.prefix_or_prefix_of_prefix hended hprefix with hle | hle
    · exact .inl hle
    · rcases List.prefix_concat_iff.mp hle with heq | hle
      · exact .inl (heq ▸ List.prefix_refl _)
      · exact .inr hle
  rcases hcases with hle | hle
  · -- the frame under way is one of them
    have hlength := length_flatMap_onLine_le hle
    rw [List.flatMap_append, List.flatMap_singleton, List.length_append] at hlength
    refine ⟨fun hcome => ?_, fun _ => hbefore.trans ?_⟩
    · have hcome := hcome.length_le
      rw [List.length_append] at hcome
      omega
    · rw [List.append_assoc, ← reports_concat]
      exact (List.prefix_append_right_inj _).mpr (reports_mono own hle)
  · have hreports := (List.prefix_append_right_inj calls₀).mpr (reports_mono own hle)
    refine ⟨fun _ => hreports.trans hafter, fun hcome => ?_⟩
    obtain ⟨more, rfl⟩ := hle
    have hlength := hcome.length_le
    rw [List.flatMap_append, List.length_append, List.length_append] at hlength
    cases more with
    | nil =>
        have hnil : taken = [] := List.length_eq_zero_iff.mp (by omega)
        rw [hnone (hstart hnil).1, List.append_nil]
    | cons x more =>
        have honline : 0 < (onLine x).length := by
          rw [onLine, List.length_append]
          exact Nat.add_pos_right _ (Nat.succ_pos 4)
        rw [List.flatMap_cons, List.length_append] at hlength
        omega

end Terraboot.Can2040
