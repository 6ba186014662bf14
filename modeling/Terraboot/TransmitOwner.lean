import Terraboot.CanBus
import Terraboot.CanReceive
import Terraboot.TransmitTask

/-!
# Whose Responses Are Sent

The transmit side of a CAN device while its id changes. Messages on the admin id and conflicts are
processed between the events of `Terraboot.TransmitTask`. As history every byte in the transmit
buffer carries the id that was assigned when `console_sendf` queued it, and every packet that goes
out is kept with its bytes.

The buffer is emptied only by a run of `canserial_tx_task` while no id is assigned. An id that is
assigned before that inherits what is in it.

## Main results

* `OwnedTx.run_tagged`: the history is that of the bytes in the buffer and in the packets.
* `responses_own_iff`: no response goes out under another session's id, now or later, exactly if
  no id was assigned while bytes of another were pending.
-/

namespace Terraboot

/-- The transmit side of a device with its admin variables, the pending bytes with the ids they
were queued under, and the packets that went out. -/
structure OwnedTx where
  can : CanData
  txWake : Bool
  tx : ConsoleTx
  queue : List (Byte × Word)
  sent : List (CanPacket × List (Byte × Word))
  deriving DecidableEq

namespace OwnedTx

/-- After boot. -/
def boot (u : Uuid) : OwnedTx := ⟨⟨0, u, 0⟩, CanTx.boot.txWake, CanTx.boot.tx, [], []⟩

/-- What the transmit side sees. -/
def dev (s : OwnedTx) : CanTx := ⟨s.can.assignedId, s.txWake, s.tx⟩

/-- An event of the transmit side, an admin message, or a conflict. -/
inductive Event
  | tx (e : CanTx.Event)
  | admin (msg : CanbusMsg)
  | conflict

/-- The packets are given the bytes at the front of the queue. -/
def handOut : List CanPacket → List (Byte × Word) → List (CanPacket × List (Byte × Word))
  | [], _ => []
  | p :: ps, q => (p, q.take p.data.length) :: handOut ps (q.drop p.data.length)

/-- One event. -/
def step (s : OwnedTx) : Event → OwnedTx
  | .tx e =>
      let r := s.dev.step e
      let queue := s.queue ++ (s.dev.accepts e).flatten.map fun b => (b, s.can.assignedId)
      { s with
        txWake := r.1.txWake
        tx := r.1.tx
        queue := queue.drop (queue.length - r.1.tx.pending.length)
        sent := s.sent ++ handOut r.2 queue }
  | .admin msg => { s with can := (canProcessAdmin s.can msg).1 }
  | .conflict => { s with can := canIdConflict s.can }

/-- A run of events. -/
def run (s : OwnedTx) (events : List Event) : OwnedTx := events.foldl .step s

theorem run_append (s : OwnedTx) (es es' : List Event) : s.run (es ++ es') = (s.run es).run es' :=
  List.foldl_append

theorem run_concat (s : OwnedTx) (es : List Event) (e : Event) :
    s.run (es ++ [e]) = (s.run es).step e := s.run_append es [e]

/-- Every byte has gone out on the id it was queued under. -/
def Own (s : OwnedTx) : Prop := ∀ x ∈ s.sent, ∀ b ∈ x.2, x.1.id = b.2 + 1

-- not the search through the finitely many pairs of a byte and an id
instance (s : OwnedTx) : Decidable s.Own :=
  have (x : CanPacket × List (Byte × Word)) : Decidable (∀ b ∈ x.2, x.1.id = b.2 + 1) :=
    List.decidableBAll _ x.2
  List.decidableBAll (fun x : CanPacket × List (Byte × Word) => ∀ b ∈ x.2, x.1.id = b.2 + 1) s.sent

/-- No id is assigned while bytes are pending that were queued under another. -/
def Clean (s : OwnedTx) : Event → Prop
  | .admin msg => ∀ n, SetsId s.can.uuid.val n msg → ∀ b ∈ s.queue, b.2 = canDecodeNodeid n
  | _ => True

/-! ### The history -/

/-- The history is that of the bytes. -/
structure Tagged (s : OwnedTx) : Prop where
  sound : s.dev.Sound
  queue : s.queue.map Prod.fst = s.tx.pending
  sent : ∀ x ∈ s.sent, x.2.map Prod.fst = x.1.data

theorem handOut_map {ps : List CanPacket} {q : List (Byte × Word)} {rest : List Byte}
    (h : q.map Prod.fst = ps.flatMap CanPacket.data ++ rest) :
    ∀ x ∈ handOut ps q, x.2.map Prod.fst = x.1.data := by
  induction ps generalizing q with
  | nil => exact fun _ hx => absurd hx List.not_mem_nil
  | cons p ps ih =>
      rw [List.flatMap_cons, List.append_assoc] at h
      rw [handOut, List.forall_mem_cons]
      refine ⟨?_, ih ?_⟩
      · rw [List.map_take, h, List.take_left]
      · rw [List.map_drop, h, List.drop_left]

/-- What is handed out is in the queue, and is in a packet. -/
theorem mem_of_handOut {ps : List CanPacket} {q : List (Byte × Word)} :
    ∀ x ∈ handOut ps q, x.1 ∈ ps ∧ ∀ b ∈ x.2, b ∈ q := by
  induction ps generalizing q with
  | nil => exact fun _ hx => absurd hx List.not_mem_nil
  | cons p ps ih =>
      rw [handOut, List.forall_mem_cons]
      refine ⟨⟨List.mem_cons_self, fun b hb => List.mem_of_mem_take hb⟩, fun x hx => ?_⟩
      obtain ⟨hp, hq⟩ := ih x hx
      exact ⟨List.mem_cons_of_mem p hp, fun b hb => List.mem_of_mem_drop (hq b hb)⟩

/-- What the packets have room for is handed out. -/
theorem handOut_all {ps : List CanPacket} {q : List (Byte × Word)}
    (h : q.length ≤ (ps.flatMap CanPacket.data).length) {b : Byte × Word} (hb : b ∈ q) :
    ∃ x ∈ handOut ps q, b ∈ x.2 := by
  induction ps generalizing q with
  | nil =>
      rw [List.flatMap_nil, List.length_nil] at h
      rw [List.eq_nil_of_length_eq_zero (Nat.le_zero.mp h)] at hb
      exact absurd hb List.not_mem_nil
  | cons p ps ih =>
      rw [List.flatMap_cons, List.length_append] at h
      rw [← List.take_append_drop p.data.length q] at hb
      rw [handOut]
      rcases List.mem_append.mp hb with hfront | hrest
      · exact ⟨_, List.mem_cons_self, hfront⟩
      · obtain ⟨x, hx, hbx⟩ := ih (by rw [List.length_drop]; omega) hrest
        exact ⟨x, List.mem_cons_of_mem _ hx, hbx⟩

/-- **The history of one event**: the packets take what they carry off the queue, or everything is
thrown away as no id is assigned. -/
theorem Tagged.tx_cases {s : OwnedTx} (h : s.Tagged) (e : CanTx.Event) :
    ∃ q, s.queue ++ (s.dev.accepts e).flatten.map (fun b => (b, s.can.assignedId)) = q ∧
      (s.step (.tx e)).sent = s.sent ++ handOut (s.dev.step e).2 q ∧
      ((q.map Prod.fst = (s.dev.step e).2.flatMap CanPacket.data ++ (s.step (.tx e)).tx.pending ∧
          (s.step (.tx e)).queue = q.drop ((s.dev.step e).2.flatMap CanPacket.data).length) ∨
        (s.can.assignedId = 0 ∧ (s.dev.step e).2 = [] ∧ (s.step (.tx e)).tx.pending = [] ∧
          (s.step (.tx e)).queue = [])) := by
  obtain ⟨q, hq⟩ : ∃ q, s.queue ++ (s.dev.accepts e).flatten.map (fun b => (b, s.can.assignedId)) =
      q := ⟨_, rfl⟩
  have hmap : q.map Prod.fst = s.tx.pending ++ (s.dev.accepts e).flatten := by
    rw [← hq, List.map_append, h.queue, List.map_map]
    congr 1
    exact List.map_id'' (fun _ => rfl) _
  have hqueue : (s.step (.tx e)).queue = q.drop (q.length - (s.step (.tx e)).tx.pending.length) := by
    rw [← hq]
    rfl
  refine ⟨q, hq, by rw [← hq]; rfl, ?_⟩
  rcases CanTx.step_bytes h.sound e with hbytes | ⟨hid, hpackets, hnothing⟩
  · have hsplit : q.map Prod.fst =
        (s.dev.step e).2.flatMap CanPacket.data ++ (s.step (.tx e)).tx.pending :=
      hmap.trans hbytes.symm
    have hlen := congrArg List.length hsplit
    rw [List.length_map, List.length_append] at hlen
    refine .inl ⟨hsplit, ?_⟩
    rw [hqueue, hlen, Nat.add_sub_cancel]
  · have hpending : (s.step (.tx e)).tx.pending = [] := hnothing
    refine .inr ⟨hid, hpackets, hpending, ?_⟩
    rw [hqueue, hpending, List.length_nil, Nat.sub_zero, List.drop_length]

theorem step_tagged {s : OwnedTx} (h : s.Tagged) (e : Event) : (s.step e).Tagged := by
  cases e with
  | tx e =>
      have hsound : (s.step (.tx e)).dev.Sound := by
        have hstep := CanTx.step_sound h.sound e
        exact ⟨hstep.wellFormed, hstep.pos⟩
      obtain ⟨q, -, hsent, ⟨hsplit, hqueue⟩ | ⟨-, hpackets, hpending, hqueue⟩⟩ := h.tx_cases e
      · refine ⟨hsound, ?_, fun x hx => ?_⟩
        · rw [hqueue, List.map_drop, hsplit, List.drop_left]
        · rw [hsent] at hx
          rcases List.mem_append.mp hx with hold | hnew
          · exact h.sent x hold
          · exact handOut_map hsplit x hnew
      · refine ⟨hsound, by rw [hqueue, hpending]; rfl, fun x hx => ?_⟩
        rw [hsent, hpackets] at hx
        exact h.sent x ((List.append_nil s.sent) ▸ hx)
  | admin msg => exact ⟨⟨h.sound.wellFormed, h.sound.pos⟩, h.queue, h.sent⟩
  | conflict => exact ⟨⟨h.sound.wellFormed, h.sound.pos⟩, h.queue, h.sent⟩

/-- **The history is that of the bytes**, after every run. -/
theorem run_tagged (u : Uuid) (events : List Event) : ((boot u).run events).Tagged := by
  induction events using List.reverseRecOn with
  | nil => exact ⟨⟨⟨rfl, Nat.zero_le _⟩, le_rfl⟩, rfl, fun _ hx => absurd hx List.not_mem_nil⟩
  | append_singleton events e ih =>
      rw [run_concat]
      exact step_tagged ih e

/-! ### Clean runs -/

/-- While an id is assigned, nothing is pending that was queued under another. -/
structure Owned (s : OwnedTx) : Prop where
  queue : s.can.assignedId ≠ 0 → ∀ b ∈ s.queue, b.2 = s.can.assignedId
  own : s.Own

theorem step_owned {s : OwnedTx} (h : s.Tagged) (howned : s.Owned) {e : Event} (hclean : s.Clean e) :
    (s.step e).Owned := by
  cases e with
  | tx e =>
      obtain ⟨q, hq, hsent, hcases⟩ := h.tx_cases e
      have htags (hid : s.can.assignedId ≠ 0) : ∀ b ∈ q, b.2 = s.can.assignedId := by
        intro b hb
        rw [← hq] at hb
        rcases List.mem_append.mp hb with hold | hnew
        · exact howned.queue hid b hold
        · obtain ⟨x, -, rfl⟩ := List.mem_map.mp hnew
          rfl
      rcases hcases with ⟨-, hqueue⟩ | ⟨-, hpackets, -, hqueue⟩
      · refine ⟨fun hid b hb => ?_, fun x hx b hb => ?_⟩
        · rw [hqueue] at hb
          exact htags hid b (List.mem_of_mem_drop hb)
        · rw [hsent] at hx
          rcases List.mem_append.mp hx with hold | hnew
          · exact howned.own x hold b hb
          · obtain ⟨hpacket, hbytes⟩ := mem_of_handOut x hnew
            have hid : s.can.assignedId ≠ 0 := by
              intro hzero
              have hnone := CanTx.step_none_of_zero (s := s.dev) hzero e
              rw [hnone] at hpacket
              exact absurd hpacket List.not_mem_nil
            rw [(CanTx.step_packets h.sound e x.1 hpacket).1, htags hid b (hbytes b hb)]
            rfl
      · refine ⟨fun _ b hb => ?_, fun x hx => ?_⟩
        · rw [hqueue] at hb
          exact absurd hb List.not_mem_nil
        · rw [hsent, hpackets] at hx
          exact howned.own x ((List.append_nil s.sent) ▸ hx)
  | admin msg =>
      refine ⟨fun hid b hb => ?_, howned.own⟩
      rcases canProcessAdmin_id_cases s.can msg with hsame | ⟨hzero, -⟩ | ⟨n, hset, hnew⟩
      · exact (howned.queue (fun hz => hid (hsame.trans hz)) b hb).trans hsame.symm
      · exact absurd hzero hid
      · exact (hclean n hset b hb).trans hnew.symm
  | conflict => exact ⟨fun hid => absurd rfl hid, howned.own⟩

/-- A run that meets the condition at each of its steps. -/
def CleanRun (s : OwnedTx) (events : List Event) : Prop :=
  ∀ es e, es ++ [e] <+: events → (s.run es).Clean e

/-- **In a clean run nothing of another session is sent.** -/
theorem run_owned {u : Uuid} {events : List Event} (hclean : (boot u).CleanRun events) :
    ((boot u).run events).Owned := by
  induction events using List.reverseRecOn with
  | nil => exact ⟨fun hid => absurd rfl hid, fun _ hx => absurd hx List.not_mem_nil⟩
  | append_singleton events e ih =>
      rw [run_concat]
      exact step_owned (run_tagged u events)
        (ih fun es e' h => hclean es e' (h.trans (List.prefix_append _ _)))
        (hclean events e (List.prefix_refl _))

/-- The transmit side alone cannot change the id. -/
theorem run_tx_owned {s : OwnedTx} (h : s.Tagged) (howned : s.Owned) (es : List CanTx.Event) :
    (s.run (es.map .tx)).Owned := by
  induction es generalizing s with
  | nil => exact howned
  | cons e es ih => exact ih (step_tagged h (.tx e)) (step_owned h howned trivial)

/-- What is pending under an id that it was not queued under goes out if the hardware accepts it. -/
theorem not_own_of_pending {s : OwnedTx} (h : s.Tagged) (hid : s.can.assignedId ≠ 0)
    {b : Byte × Word} (hb : b ∈ s.queue) (hother : b.2 ≠ s.can.assignedId) :
    ¬(s.run ([.notify, .task (List.replicate 12 1)].map .tx)).Own := by
  have hawake := step_tagged h (.tx .notify)
  obtain ⟨t, ht⟩ : ∃ t, s.step (.tx .notify) = t := ⟨_, rfl⟩
  have hqueue : t.queue = s.queue := by
    obtain ⟨q, hq, -, ⟨-, hqueue⟩ | ⟨hzero, -⟩⟩ := h.tx_cases .notify
    · have hnone : (s.dev.accepts .notify).flatten = [] := rfl
      rw [hnone, List.map_nil, List.append_nil] at hq
      rw [← ht, hqueue, ← hq]
      rfl
    · exact absurd hzero hid
  have hdev : t.dev = ⟨s.can.assignedId, true, s.tx⟩ := by
    rw [← ht]
    rfl
  rw [ht] at hawake
  rw [← hqueue] at hb
  -- the task empties the buffer
  obtain ⟨q, hq, hsent, hcases⟩ := hawake.tx_cases (.task (List.replicate 12 1))
  have hnone : (t.dev.accepts (.task (List.replicate 12 1))).flatten = [] := rfl
  rw [hnone, List.map_nil, List.append_nil] at hq
  have hpackets := CanTx.step_packets hawake.sound (.task (List.replicate 12 1))
  have hid' : t.dev.assignedId ≠ 0 := by
    rw [hdev]
    exact hid
  have hempty : (t.step (.tx (.task (List.replicate 12 1)))).tx.pending = [] :=
    CanTx.canserialTxTask_accepting hawake.sound hid' (by rw [hdev])
  rcases hcases with ⟨hsplit, -⟩ | ⟨hzero, -⟩
  · have hlen := congrArg List.length hsplit
    rw [hempty, List.append_nil, List.length_map] at hlen
    obtain ⟨x, hx, hbx⟩ := handOut_all hlen.le (hq ▸ hb)
    intro hown
    have hsame : x.1.id = b.2 + 1 := by
      refine hown x ?_ b hbx
      have hrun : s.run ([.notify, .task (List.replicate 12 1)].map .tx) =
          (s.step (.tx .notify)).step (.tx (.task (List.replicate 12 1))) := rfl
      rw [hrun, ht, hsent]
      exact List.mem_append_right _ hx
    have hpacket := (hpackets x.1 (mem_of_handOut x hx).1).1
    rw [hdev, hsame] at hpacket
    exact hother (add_right_cancel hpacket)
  · rw [← ht] at hzero
    exact absurd hzero hid

end OwnedTx

/-- **When responses stay with their session.** In every run: what `console_sendf` queued while an
id was assigned goes out on the outgoing id of that one or not at all, in every state reached and
whatever the transmit side does from there, exactly if at every message that gives the device an id
nothing is pending that was queued under another or under none. -/
theorem responses_own_iff (u : Uuid) (events : List OwnedTx.Event) :
    (∀ es, es <+: events → ∀ es' : List CanTx.Event,
        (((OwnedTx.boot u).run es).run (es'.map .tx)).Own) ↔
      (OwnedTx.boot u).CleanRun events := by
  constructor
  · intro hown es e hprefix
    cases e with
    | tx e => trivial
    | conflict => trivial
    | admin msg =>
        intro n hset b hb
        by_contra hother
        have htagged := OwnedTx.step_tagged (OwnedTx.run_tagged u es) (.admin msg)
        have hnew : (((OwnedTx.boot u).run es).step (.admin msg)).can.assignedId =
            canDecodeNodeid n := by
          have hcan : (((OwnedTx.boot u).run es).step (.admin msg)).can =
              (canProcessAdmin ((OwnedTx.boot u).run es).can msg).1 := rfl
          rw [hcan, canProcessAdmin_set _ hset, if_pos rfl]
          split_ifs with hsame
          · rfl
          · exact (not_not.mp hsame).symm
        refine OwnedTx.not_own_of_pending htagged ?_ hb (by rw [hnew]; exact hother) ?_
        · rw [hnew]
          exact canDecodeNodeid_ne_zero hset.range
        · have hstate := hown (es ++ [.admin msg]) hprefix [.notify, .task (List.replicate 12 1)]
          rwa [OwnedTx.run_concat] at hstate
  · intro hclean es hprefix es'
    exact (OwnedTx.run_tx_owned (OwnedTx.run_tagged u es)
      (OwnedTx.run_owned fun es₁ e h => hclean es₁ e (h.trans hprefix)) es').own

/-- The request that all short ids be given up. -/
def clearNodeidRequest : CanbusMsg :=
  ⟨canbusIdAdmin, 1, canbusCmdClearCanbootNodeid :: List.replicate 7 0, rfl⟩

/-- A response that the bus was too busy for goes out on the outgoing id of the next session, if
the id is cleared and assigned again before the task runs. -/
theorem response_leaks :
    ¬((OwnedTx.boot steinzeitDevice.uuid).run [.admin (setNodeidRequest steinzeitDevice.uuid 1),
      .tx (.sendf commandRespondNack), .tx (.task []), .admin clearNodeidRequest,
      .admin (setNodeidRequest steinzeitDevice.uuid 2), .tx .notify, .tx (.task [1])]).Own := by
  decide +kernel

end Terraboot
