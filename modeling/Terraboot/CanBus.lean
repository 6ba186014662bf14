import Mathlib.Logic.Function.Basic
import Mathlib.Logic.Relation
import Terraboot.Canserial

/-!
# Short Ids on the Bus

Any number of devices on one bus. Every admin message reaches every device, in the same
order, and each device processes its messages at its own pace. A device knows its own UUID
and short id only: it takes the id that a message gives to its UUID, and gives its id up
when a message gives that id to another UUID.

## Main results

* `BusState.processed`: a device whose queue is empty has processed everything that was sent.
* `holdsShortId_iff`: a device holds the short id that the last message concerning it gave
  it.
* `short_ids_unique`: when all have processed everything, no two devices hold the same id.
-/

namespace Terraboot

/-! ### What messages mean to a device -/

/-- A valid request that the device with UUID `u` use short id `n`. -/
structure SetsId (u : List Byte) (n : ℕ) (msg : CanbusMsg) : Prop where
  dlc : 8 ≤ msg.dlc.toNat
  cmd : msg.data.getD 0 0 = canbusCmdSetCanbootNodeid
  uuid : (msg.data.drop 1).take 6 = u
  shortId : (msg.data.getD 7 0).toNat = n
  range : 1 ≤ n ∧ n ≤ 29

/-- A request that all short ids be given up. -/
structure ClearsId (msg : CanbusMsg) : Prop where
  dlc : msg.dlc ≠ 0
  cmd : msg.data.getD 0 0 = canbusCmdClearCanbootNodeid

/-- The device holds the short id. -/
def HoldsShortId (c : CanData) (n : ℕ) : Prop :=
  c.assignedId ≠ 0 ∧ c.assignedId = canDecodeNodeid n

/-- A message that concerns a device in a given state: it clears all ids, or gives the device
an id, or gives its current id to another UUID. -/
def Concerns (c : CanData) (msg : CanbusMsg) : Prop :=
  ClearsId msg ∨ (∃ n, SetsId c.uuid.val n msg) ∨
    ∃ u n, u ≠ c.uuid.val ∧ SetsId u n msg ∧ HoldsShortId c n

/-- The last message that concerns a device, in the state it is in by then, gives it the
short id. -/
def LastGives (c : CanData) (msgs : List CanbusMsg) (n : ℕ) : Prop :=
  ∃ pre msg post, msgs = pre ++ msg :: post ∧ SetsId c.uuid.val n msg ∧
    ∀ p m q, post = p ++ m :: q → ¬Concerns (canProcess c (pre ++ msg :: p)).1 m

theorem canDecodeNodeid_of_range {n : ℕ} (h : 1 ≤ n ∧ n ≤ 29) :
    canDecodeNodeid n = BitVec.ofNat 32 (32 * n + 32) := by
  rw [canDecodeNodeid, canbusShortIdMin, canbusShortIdMax, if_neg (by omega), Nat.shiftLeft_eq,
    canbusNodeidShift, canbusNodeidBase, Nat.mul_comm]

/-- A short id is not zero. -/
theorem canDecodeNodeid_ne_zero {n : ℕ} (h : 1 ≤ n ∧ n ≤ 29) : canDecodeNodeid n ≠ 0 := by
  intro hzero
  have hrange := (canDecodeNodeid_eq_zero_iff (by omega)).mp hzero
  omega

/-- Different short ids are different node ids. -/
theorem canDecodeNodeid_inj {n k : ℕ} (hn : 1 ≤ n ∧ n ≤ 29) (h : canDecodeNodeid n = canDecodeNodeid k)
    : n = k := by
  by_cases hk : 1 ≤ k ∧ k ≤ 29
  · rw [canDecodeNodeid_of_range hn, canDecodeNodeid_of_range hk] at h
    have hnat := congrArg BitVec.toNat h
    rw [BitVec.toNat_ofNat, BitVec.toNat_ofNat, Nat.mod_eq_of_lt (by omega),
      Nat.mod_eq_of_lt (by omega)] at hnat
    omega
  · have hzero : canDecodeNodeid k = 0 := by
      rw [canDecodeNodeid, canbusShortIdMin, canbusShortIdMax, if_pos (by omega)]
    exact absurd (h.trans hzero) (canDecodeNodeid_ne_zero hn)

/-- A valid request says which UUID it is for and which id it gives. -/
theorem SetsId.unique {u v : List Byte} {n k : ℕ} {msg : CanbusMsg} (h : SetsId u n msg)
    (h' : SetsId v k msg) : u = v ∧ n = k :=
  ⟨h.uuid.symm.trans h'.uuid, h.shortId.symm.trans h'.shortId⟩

theorem SetsId.not_clears {u : List Byte} {n : ℕ} {msg : CanbusMsg} (h : SetsId u n msg) :
    ¬ClearsId msg := fun hc => absurd (h.cmd.symm.trans hc.cmd) (by decide)

/-! ### One message -/

theorem canProcessAdmin_clears {msg : CanbusMsg} (c : CanData) (h : ClearsId msg) :
    (canProcessAdmin c msg).1 = c.assign 0 := by
  have hquery : ¬msg.data.getD 0 0 = canbusCmdQueryUnassigned := by rw [h.cmd]; decide
  have hset : ¬msg.data.getD 0 0 = canbusCmdSetCanbootNodeid := by rw [h.cmd]; decide
  rw [canProcessAdmin, if_neg h.dlc, if_neg hquery, if_neg hset, if_pos h.cmd]
  rfl

/-- A valid request reaches the handler. -/
theorem canProcessAdmin_set_eq {u : List Byte} {n : ℕ} {msg : CanbusMsg} (c : CanData)
    (h : SetsId u n msg) : canProcessAdmin c msg =
      if u = c.uuid.val then
        if canDecodeNodeid n ≠ c.assignedId then
          (c.assign (canDecodeNodeid n), [setNodeidAck (msg.data.getD 7 0)])
        else (c, [])
      else if canDecodeNodeid n = c.assignedId then (c.assign 0, []) else (c, []) := by
  have hdlc := h.dlc
  have hzero : ¬msg.dlc = 0 := by
    intro hz
    rw [hz] at hdlc
    exact absurd hdlc (by decide)
  have hquery : ¬msg.data.getD 0 0 = canbusCmdQueryUnassigned := by rw [h.cmd]; decide
  have hcheck : canCheckUuid c msg = true ↔ u = c.uuid.val := by
    rw [canCheckUuid, Bool.and_eq_true, decide_eq_true_eq, beq_iff_eq, h.uuid]
    exact and_iff_right (by omega)
  rw [canProcessAdmin, if_neg hzero, if_neg hquery, if_pos h.cmd, canProcessSetCanbootNodeid,
    if_neg (by omega), h.shortId]
  dsimp only
  rw [if_neg (canDecodeNodeid_ne_zero h.range), if_congr hcheck rfl rfl]
  rfl

theorem canProcessAdmin_set {u : List Byte} {n : ℕ} {msg : CanbusMsg} (c : CanData)
    (h : SetsId u n msg) : (canProcessAdmin c msg).1 =
      if u = c.uuid.val then
        if canDecodeNodeid n ≠ c.assignedId then c.assign (canDecodeNodeid n) else c
      else if canDecodeNodeid n = c.assignedId then c.assign 0 else c := by
  rw [canProcessAdmin_set_eq c h]
  split_ifs <;> rfl

/-- An invalid request is ignored. -/
theorem canProcessAdmin_invalid {msg : CanbusMsg} (c : CanData)
    (hcmd : msg.data.getD 0 0 = canbusCmdSetCanbootNodeid) (hset : ∀ u n, ¬SetsId u n msg) :
    canProcessAdmin c msg = (c, []) := by
  have hquery : ¬msg.data.getD 0 0 = canbusCmdQueryUnassigned := by rw [hcmd]; decide
  rw [canProcessAdmin, if_neg hquery, if_pos hcmd, canProcessSetCanbootNodeid]
  by_cases hzero : msg.dlc = 0
  · exact if_pos hzero
  rw [if_neg hzero]
  by_cases hshort : msg.dlc.toNat < 8
  · exact if_pos hshort
  rw [if_neg hshort]
  refine if_pos ?_
  by_contra hnew
  have hrange := mt (canDecodeNodeid_eq_zero_iff (msg.data.getD 7 0).isLt).mpr hnew
  exact hset _ _ ⟨by omega, hcmd, rfl, rfl, by omega⟩

/-- What is neither a clear nor a valid request changes nothing. -/
theorem canProcessAdmin_other {msg : CanbusMsg} (c : CanData) (hclear : ¬ClearsId msg)
    (hset : ∀ u n, ¬SetsId u n msg) : (canProcessAdmin c msg).1 = c := by
  rw [canProcessAdmin]
  split_ifs with hdlc hquery hcmd hcmd'
  · rfl
  · rw [canProcessQueryUnassigned]
    split_ifs <;> rfl
  · have hinvalid := canProcessAdmin_invalid c hcmd hset
    rw [canProcessAdmin, if_neg hdlc, if_neg hquery, if_pos hcmd] at hinvalid
    rw [hinvalid]
  · exact absurd ⟨hdlc, hcmd'⟩ hclear
  · rfl

/-- The three kinds of messages. -/
theorem message_cases (msg : CanbusMsg) :
    ClearsId msg ∨ (∃ u n, SetsId u n msg) ∨ (¬ClearsId msg ∧ ∀ u n, ¬SetsId u n msg) := by
  by_cases hclear : ClearsId msg
  · exact .inl hclear
  · by_cases hset : ∃ u n, SetsId u n msg
    · exact .inr (.inl hset)
    · exact .inr (.inr ⟨hclear, fun u n h => hset ⟨u, n, h⟩⟩)

@[simp] theorem canProcessAdmin_uuid (c : CanData) (msg : CanbusMsg) :
    (canProcessAdmin c msg).1.uuid = c.uuid := by
  rcases message_cases msg with h | ⟨u, n, h⟩ | ⟨hclear, hset⟩
  · rw [canProcessAdmin_clears c h]
    rfl
  · rw [canProcessAdmin_set c h]
    split_ifs <;> rfl
  · rw [canProcessAdmin_other c hclear hset]

/-- **What a message does to the id**: nothing, it clears it, it gives it to another UUID, or it
gives the device an id. -/
theorem canProcessAdmin_id_cases (c : CanData) (msg : CanbusMsg) :
    (canProcessAdmin c msg).1.assignedId = c.assignedId ∨
      ((canProcessAdmin c msg).1.assignedId = 0 ∧ (ClearsId msg ∨
        ∃ u n, u ≠ c.uuid.val ∧ SetsId u n msg ∧ canDecodeNodeid n = c.assignedId)) ∨
      ∃ n, SetsId c.uuid.val n msg ∧
        (canProcessAdmin c msg).1.assignedId = canDecodeNodeid n := by
  rcases message_cases msg with hclear | ⟨u, n, hset⟩ | ⟨hclear, hset⟩
  · rw [canProcessAdmin_clears c hclear]
    exact .inr (.inl ⟨rfl, .inl hclear⟩)
  · rw [canProcessAdmin_set c hset]
    split_ifs with hown hnew hid
    · exact .inr (.inr ⟨n, hown ▸ hset, rfl⟩)
    · exact .inl rfl
    · exact .inr (.inl ⟨rfl, .inr ⟨u, n, hown, hset, hid⟩⟩)
    · exact .inl rfl
  · rw [canProcessAdmin_other c hclear hset]
    exact .inl rfl

/-- The hardware filter of a device with a short id is set to it. -/
structure CanData.Consistent (c : CanData) : Prop where
  filter : c.assignedId ≠ 0 → c.filter = c.assignedId
  shortId : c.assignedId ≠ 0 → ∃ n, (1 ≤ n ∧ n ≤ 29) ∧ c.assignedId = canDecodeNodeid n

theorem CanData.consistent_assign_zero (c : CanData) : (c.assign 0).Consistent :=
  ⟨fun h => absurd rfl h, fun h => absurd rfl h⟩

theorem canProcessAdmin_consistent {c : CanData} (h : c.Consistent) (msg : CanbusMsg) :
    (canProcessAdmin c msg).1.Consistent := by
  rcases message_cases msg with hclear | ⟨u, n, hset⟩ | ⟨hclear, hset⟩
  · rw [canProcessAdmin_clears c hclear]
    exact c.consistent_assign_zero
  · rw [canProcessAdmin_set c hset]
    split_ifs
    · exact ⟨fun _ => rfl, fun _ => ⟨n, hset.range, rfl⟩⟩
    · exact h
    · exact c.consistent_assign_zero
    · exact h
  · rw [canProcessAdmin_other c hclear hset]
    exact h

/-- **Which id a device holds after one message**: the one it is given, or the one it had if
the message does not concern it. -/
theorem holdsShortId_canProcessAdmin (c : CanData) (msg : CanbusMsg) (n : ℕ) :
    HoldsShortId (canProcessAdmin c msg).1 n ↔
      SetsId c.uuid.val n msg ∨ (HoldsShortId c n ∧ ¬Concerns c msg) := by
  rcases message_cases msg with hclear | ⟨u, k, hset⟩ | ⟨hclear, hset⟩
  · rw [canProcessAdmin_clears c hclear]
    refine iff_of_false (fun h => h.1 rfl) ?_
    rintro (h | ⟨-, h⟩)
    · exact h.not_clears hclear
    · exact h (.inl hclear)
  · have hzero := canDecodeNodeid_ne_zero hset.range
    rw [canProcessAdmin_set c hset]
    by_cases hown : u = c.uuid.val
    · -- the device's own UUID
      have hown' : SetsId c.uuid.val k msg := hown ▸ hset
      have hconcerns : Concerns c msg := .inr (.inl ⟨k, hown'⟩)
      have hresult : (if canDecodeNodeid k ≠ c.assignedId then c.assign (canDecodeNodeid k)
          else c).assignedId = canDecodeNodeid k := by
        split_ifs with h
        · rfl
        · exact (not_not.mp h).symm
      rw [if_pos hown, HoldsShortId, hresult]
      constructor
      · rintro ⟨-, heq⟩
        obtain rfl := canDecodeNodeid_inj hset.range heq
        exact .inl hown'
      · rintro (h | ⟨-, h⟩)
        · obtain ⟨-, rfl⟩ := hown'.unique h
          exact ⟨hzero, rfl⟩
        · exact absurd hconcerns h
    · rw [if_neg hown]
      have hnot : ¬SetsId c.uuid.val n msg := fun h => hown (hset.unique h).1
      rw [or_iff_right hnot]
      by_cases hid : canDecodeNodeid k = c.assignedId
      · -- the device's id goes to another UUID
        rw [if_pos hid]
        refine iff_of_false (fun h => h.1 rfl) fun h => h.2 ?_
        exact .inr (.inr ⟨u, k, hown, hset, hid ▸ hzero, hid.symm⟩)
      · rw [if_neg hid]
        refine (and_iff_left ?_).symm
        rintro (h | ⟨j, h⟩ | ⟨v, j, -, h, -, hheld⟩)
        · exact hset.not_clears h
        · exact hown (hset.unique h).1
        · obtain ⟨-, rfl⟩ := hset.unique h
          exact hid hheld.symm
  · rw [canProcessAdmin_other c hclear hset, or_iff_right (hset _ _)]
    refine (and_iff_left ?_).symm
    rintro (h | ⟨j, h⟩ | ⟨v, j, -, h, -⟩)
    · exact hclear h
    · exact hset _ _ h
    · exact hset _ _ h

/-! ### A sequence of messages -/

/-- Every message of a sequence is an admin message. -/
def AllAdmin (msgs : List CanbusMsg) : Prop := ∀ msg ∈ msgs, msg.id = canbusIdAdmin

theorem canProcess_concat (c : CanData) (msgs : List CanbusMsg) {msg : CanbusMsg}
    (h : msg.id = canbusIdAdmin) :
    (canProcess c (msgs ++ [msg])).1 = (canProcessAdmin (canProcess c msgs).1 msg).1 := by
  induction msgs generalizing c with
  | nil => rw [List.nil_append, canProcess_singleton c h]; rfl
  | cons m ms ih =>
      rw [List.cons_append, canProcess, canProcess]
      exact ih _

theorem canProcess_uuid (c : CanData) {msgs : List CanbusMsg} (h : AllAdmin msgs) :
    (canProcess c msgs).1.uuid = c.uuid := by
  induction msgs using List.reverseRecOn with
  | nil => rfl
  | append_singleton msgs msg ih =>
      rw [canProcess_concat c msgs (h msg (by simp)), canProcessAdmin_uuid]
      exact ih fun m hm => h m (List.mem_append_left _ hm)

theorem canProcess_consistent {c : CanData} (hc : c.Consistent) {msgs : List CanbusMsg}
    (h : AllAdmin msgs) : (canProcess c msgs).1.Consistent := by
  induction msgs using List.reverseRecOn with
  | nil => exact hc
  | append_singleton msgs msg ih =>
      rw [canProcess_concat c msgs (h msg (by simp))]
      exact canProcessAdmin_consistent (ih fun m hm => h m (List.mem_append_left _ hm)) msg

/-- One more message: it gives the id, or does not concern the device. -/
theorem lastGives_concat (c : CanData) (msgs : List CanbusMsg) (msg : CanbusMsg) (n : ℕ) :
    LastGives c (msgs ++ [msg]) n ↔
      SetsId c.uuid.val n msg ∨ (LastGives c msgs n ∧ ¬Concerns (canProcess c msgs).1 msg) := by
  constructor
  · rintro ⟨pre, m, post, heq, hset, hpost⟩
    rcases List.eq_nil_or_concat post with rfl | ⟨post', x, rfl⟩
    · obtain ⟨rfl, hm⟩ := List.append_inj' heq rfl
      obtain rfl := List.singleton_inj.mp hm
      exact .inl hset
    · rw [List.concat_eq_append, ← List.cons_append, ← List.append_assoc] at heq
      obtain ⟨rfl, hm⟩ := List.append_inj' heq rfl
      obtain rfl := List.singleton_inj.mp hm
      refine .inr ⟨⟨pre, m, post', rfl, hset, fun p y q hq => ?_⟩, ?_⟩
      · refine hpost p y (q ++ [msg]) ?_
        rw [List.concat_eq_append, hq, List.append_assoc, List.cons_append]
      · exact hpost post' msg [] (List.concat_eq_append ..)
  · rintro (hset | ⟨⟨pre, m, post, rfl, hset, hpost⟩, hnot⟩)
    · exact ⟨msgs, msg, [], rfl, hset, fun p y q hq => absurd hq (by simp)⟩
    · refine ⟨pre, m, post ++ [msg], by rw [List.append_assoc, List.cons_append], hset, ?_⟩
      intro p y q hq
      rcases List.eq_nil_or_concat q with rfl | ⟨q', x, rfl⟩
      · obtain ⟨rfl, hy⟩ := List.append_inj' hq rfl
        obtain rfl := List.singleton_inj.mp hy
        exact hnot
      · rw [List.concat_eq_append, ← List.cons_append, ← List.append_assoc] at hq
        exact hpost p y q' (List.append_inj' hq rfl).1

/-- **Which id a device holds** after a sequence of admin messages: the one that the last message
concerning it gives it. -/
theorem holdsShortId_iff {c : CanData} (hfresh : c.assignedId = 0) {msgs : List CanbusMsg}
    (h : AllAdmin msgs) (n : ℕ) :
    HoldsShortId (canProcess c msgs).1 n ↔ LastGives c msgs n := by
  induction msgs using List.reverseRecOn with
  | nil =>
      refine iff_of_false (fun hc => hc.1 hfresh) ?_
      rintro ⟨pre, m, post, heq, -⟩
      exact absurd heq (by simp)
  | append_singleton msgs msg ih =>
      have hmsgs : AllAdmin msgs := fun m hm => h m (List.mem_append_left _ hm)
      rw [canProcess_concat c msgs (h msg (by simp)), holdsShortId_canProcessAdmin,
        canProcess_uuid c hmsgs, ih hmsgs, lastGives_concat]

/-- **Two devices with different UUIDs** do not hold the same id. -/
theorem not_both_hold {c c' : CanData} (huuid : c.uuid ≠ c'.uuid) (hfresh : c.assignedId = 0)
    {msgs : List CanbusMsg} (h : AllAdmin msgs) (n : ℕ) :
    ¬(HoldsShortId (canProcess c msgs).1 n ∧ HoldsShortId (canProcess c' msgs).1 n) := by
  induction msgs using List.reverseRecOn with
  | nil => exact fun hc => hc.1.1 hfresh
  | append_singleton msgs msg ih =>
      have hadmin := h msg (by simp)
      have hmsgs : AllAdmin msgs := fun m hm => h m (List.mem_append_left _ hm)
      have hneq : c.uuid.val ≠ c'.uuid.val := fun heq => huuid (Subtype.ext heq)
      rw [canProcess_concat c msgs hadmin, canProcess_concat c' msgs hadmin,
        holdsShortId_canProcessAdmin, holdsShortId_canProcessAdmin, canProcess_uuid c hmsgs,
        canProcess_uuid c' hmsgs]
      rintro ⟨hset | ⟨hheld, hnot⟩, hset' | ⟨hheld', hnot'⟩⟩
      · exact hneq (hset.unique hset').1
      · -- the message takes the id away from the second device
        refine hnot' (.inr (.inr ⟨_, n, ?_, hset, hheld'⟩))
        rw [canProcess_uuid c' hmsgs]
        exact hneq
      · refine hnot (.inr (.inr ⟨_, n, ?_, hset', hheld⟩))
        rw [canProcess_uuid c hmsgs]
        exact hneq.symm
      · exact ih hmsgs ⟨hheld, hheld'⟩

/-! ### The bus -/

/-- A device on the bus: its variables and the messages it has received and not processed. -/
structure BusDevice where
  can : CanData
  queue : List CanbusMsg

/-- The bus: what has been sent, and the devices. -/
structure BusState (ι : Type) where
  sent : List CanbusMsg
  device : ι → BusDevice

variable {ι : Type}

/-- Nothing has been sent. -/
def BusState.start (c : ι → CanData) : BusState ι := ⟨[], fun i => ⟨c i, []⟩⟩

/-- An admin message is received by every device. -/
def BusState.broadcast (s : BusState ι) (msg : CanbusMsg) : BusState ι :=
  ⟨s.sent ++ [msg], fun i => ⟨(s.device i).can, (s.device i).queue ++ [msg]⟩⟩

/-- One device has processed a message. -/
def BusState.advance [DecidableEq ι] (s : BusState ι) (i : ι) (msg : CanbusMsg)
    (rest : List CanbusMsg) : BusState ι :=
  { s with device :=
      Function.update s.device i ⟨(canProcessAdmin (s.device i).can msg).1, rest⟩ }

/-- What can happen next. -/
inductive BusStep [DecidableEq ι] : BusState ι → BusState ι → Prop
  | broadcast (s : BusState ι) (msg : CanbusMsg) (h : msg.id = canbusIdAdmin) :
      BusStep s (s.broadcast msg)
  | process (s : BusState ι) (i : ι) (msg : CanbusMsg) (rest : List CanbusMsg)
      (h : (s.device i).queue = msg :: rest) : BusStep s (s.advance i msg rest)

/-- Every device has processed what was sent, but for its queue. -/
structure BusState.Processed (c : ι → CanData) (s : BusState ι) : Prop where
  admin : AllAdmin s.sent
  device : ∀ i, ∃ done, s.sent = done ++ (s.device i).queue ∧
    (s.device i).can = (canProcess (c i) done).1

theorem BusStep.processed [DecidableEq ι] {c : ι → CanData} {s t : BusState ι} (h : BusStep s t)
    (hs : s.Processed c) : t.Processed c := by
  cases h with
  | broadcast msg hid =>
      refine ⟨fun m hm => ?_, fun i => ?_⟩
      · rcases List.mem_append.mp hm with hm | hm
        · exact hs.admin m hm
        · obtain rfl := List.mem_singleton.mp hm
          exact hid
      · obtain ⟨done, hsent, hcan⟩ := hs.device i
        refine ⟨done, ?_, hcan⟩
        change s.sent ++ [msg] = done ++ ((s.device i).queue ++ [msg])
        rw [hsent, List.append_assoc]
  | process i msg rest hqueue =>
      refine ⟨hs.admin, fun j => ?_⟩
      obtain ⟨done, hsent, hcan⟩ := hs.device j
      by_cases hj : j = i
      · subst hj
        rw [hqueue] at hsent
        have hid : msg.id = canbusIdAdmin := by
          refine hs.admin msg ?_
          rw [hsent]
          exact List.mem_append_right _ List.mem_cons_self
        have hdev : (s.advance j msg rest).device j =
            ⟨(canProcessAdmin (s.device j).can msg).1, rest⟩ := Function.update_self ..
        refine ⟨done ++ [msg], ?_, ?_⟩
        · rw [hdev, List.append_assoc]
          exact hsent
        · rw [hdev, canProcess_concat _ _ hid, ← hcan]
      · have hdev : (s.advance i msg rest).device j = s.device j := Function.update_of_ne hj ..
        rw [hdev]
        exact ⟨done, hsent, hcan⟩

/-- **A device whose queue is empty** has processed everything that was sent. -/
theorem BusState.processed [DecidableEq ι] {c : ι → CanData} {s : BusState ι}
    (hrun : Relation.ReflTransGen BusStep (.start c) s) : s.Processed c := by
  induction hrun with
  | refl => exact ⟨fun _ hm => absurd hm List.not_mem_nil, fun i => ⟨[], rfl, rfl⟩⟩
  | tail _ hstep ih => exact hstep.processed ih

/-- **Short ids are unique on the bus.** Any set of devices with different UUIDs, none with a
short id at first, any admin messages, each device processing them at its own pace: once all
queues are empty no two devices hold the same nonzero id, and a device holds a short id exactly if
the last message that concerned it gave it that id; the id is one of 1 to 29, and the hardware
filter is set to it. -/
theorem short_ids_unique [DecidableEq ι] {c : ι → CanData}
    (huuid : Function.Injective fun i => (c i).uuid) (hfresh : ∀ i, (c i).assignedId = 0)
    {s : BusState ι} (hrun : Relation.ReflTransGen BusStep (.start c) s)
    (hidle : ∀ i, (s.device i).queue = []) :
    (∀ i j, (s.device i).can.assignedId ≠ 0 →
      (s.device i).can.assignedId = (s.device j).can.assignedId → i = j) ∧
    ∀ i n, (HoldsShortId (s.device i).can n ↔ LastGives (c i) s.sent n) ∧
      (HoldsShortId (s.device i).can n →
        1 ≤ n ∧ n ≤ 29 ∧ (s.device i).can.filter = canDecodeNodeid n) := by
  have hs := BusState.processed hrun
  have hcan : ∀ i, (s.device i).can = (canProcess (c i) s.sent).1 := by
    intro i
    obtain ⟨done, hsent, hdone⟩ := hs.device i
    rw [hidle, List.append_nil] at hsent
    rw [hdone, hsent]
  have hconsistent : ∀ i, (canProcess (c i) s.sent).1.Consistent := fun i =>
    canProcess_consistent
      ⟨fun h => absurd (hfresh i) h, fun h => absurd (hfresh i) h⟩ hs.admin
  constructor
  · intro i j hne heq
    rw [hcan] at hne heq
    rw [hcan] at heq
    obtain ⟨n, -, hn⟩ := (hconsistent i).shortId hne
    by_contra hij
    refine not_both_hold (fun h => hij (huuid h)) (hfresh i) hs.admin n ⟨⟨hne, hn⟩, ?_⟩
    exact ⟨heq ▸ hne, heq ▸ hn⟩
  · intro i n
    rw [hcan]
    refine ⟨holdsShortId_iff (hfresh i) hs.admin n, fun hheld => ?_⟩
    obtain ⟨k, hk, heq⟩ := (hconsistent i).shortId hheld.1
    obtain rfl := canDecodeNodeid_inj hk (heq.symm.trans hheld.2)
    exact ⟨hk.1, hk.2, ((hconsistent i).filter hheld.1).trans heq⟩

/-- Two devices. -/
def twoDevices (b : Bool) : CanData := ⟨0, ⟨[if b then 1 else 2, 0, 0, 0, 0, 0], rfl⟩, 0⟩

/-- The request that the first of them use short id 5. -/
def setFirst : CanbusMsg := ⟨canbusIdAdmin, 8, [0x11, 1, 0, 0, 0, 0, 0, 5], rfl⟩

/-- Both have processed the request, the second one first. -/
def setFirstDone : BusState Bool :=
  (((BusState.start twoDevices).broadcast setFirst).advance false setFirst []).advance true
    setFirst []

/-- Only the first device holds the short id. -/
theorem short_ids_unique_two :
    (∀ i j, (setFirstDone.device i).can.assignedId ≠ 0 →
      (setFirstDone.device i).can.assignedId = (setFirstDone.device j).can.assignedId → i = j) ∧
    ∀ i n, (HoldsShortId (setFirstDone.device i).can n ↔
        LastGives (twoDevices i) setFirstDone.sent n) ∧
      (HoldsShortId (setFirstDone.device i).can n →
        1 ≤ n ∧ n ≤ 29 ∧ (setFirstDone.device i).can.filter = canDecodeNodeid n) :=
  short_ids_unique (by decide) (fun _ => rfl)
    (((Relation.ReflTransGen.refl.tail (.broadcast _ setFirst rfl)).tail
      (.process _ false setFirst [] rfl)).tail (.process _ true setFirst [] rfl))
    (by decide)

end Terraboot
