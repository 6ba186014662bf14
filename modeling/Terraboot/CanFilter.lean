import Terraboot.CanPeripheral
import Terraboot.CanReceive

/-!
# The Hardware Filters

With `CONFIG_CANBUS_FILTER` the CAN peripherals drop the frames that the device has no use for before
an interrupt is raised. `canhw_set_filter` lets three identifiers through: that of the admin messages,
the assigned one and the one behind it, by which another device with the same id is found out.

The id and the filter are set one after the other, and in between the filter is that of the id before.
The host waits for the acknowledgement, which is sent after both.

## Main results

* `bxCanPasses_of_wanted`, `fdcanPasses_of_wanted`: no frame that the device looks at is dropped.
* `CanRx.Filtered.task`, `CanRx.Filtered.irq`: the filter is the assigned id whenever the task is
  not about to set it.
* `filter_harmless`: with the filter the device does in every run what it does without.
-/

open MsbBits

namespace Terraboot

/-- The frames that `canserial_process_data` does something about. -/
def Wanted (assignedId id : Word) : Prop :=
  id = canbusIdAdmin ∨ assignedId ≠ 0 ∧ (id = assignedId ∨ id = assignedId + 1)

/-- Node ids are as `can_decode_nodeid` makes them. -/
def NodeId (id : Word) : Prop := id.toNat ≤ 0x3c0

/-! ### The filter banks of bxCAN -/

/-- The fields of `RIR` that are compared: `CAN_TI0R_STID | CAN_TI0R_IDE | CAN_TI0R_RTR`. -/
def bxCanMask : Word := 0xFFE00006

/-- The active filter banks that `canhw_set_filter` leaves, each with its mask. -/
def bxCanFilter (config : Bool) (id : Word) : List (Word × Word) :=
  if config then
    (canbusIdAdmin <<< 21, bxCanMask) ::
      if id ≠ 0 then [((id + 1) <<< 21, bxCanMask), (id <<< 21, bxCanMask)] else []
  else [(0, 0)]

/-- A frame is received if it agrees with one of the banks in the fields of its mask. -/
def bxCanPasses (config : Bool) (id ids : Word) : Bool :=
  (bxCanFilter config id).any fun bank => ids &&& bank.2 == bank.1 &&& bank.2

/-! ### The filter list of FDCAN -/

/-- `can_filter` -/
def canFilter (id : Word) : Word := (2#32 <<< 30) ||| (1#32 <<< 27) ||| (id <<< 16) ||| 0x7ff

/-- The filter list, as far as it is in use (`LSS`). -/
def fdcanFilter (id : Word) : List Word :=
  canFilter canbusIdAdmin :: if id ≠ 0 then [canFilter id, canFilter (id + 1)] else []

/-- A classic filter has an identifier and a mask. Frames with long identifiers are received in any
case. -/
def fdcanPasses (config : Bool) (id ids : Word) : Bool :=
  if config && !ids.getLsbD fdcan.extBit then
    (fdcanFilter id).any fun w =>
      ids.extractLsb' fdcan.baseShift 11 &&& w.extractLsb' 0 11 ==
        w.extractLsb' 16 11 &&& w.extractLsb' 0 11
  else true

/-! ### Nothing is missed -/

theorem getLsbD_of_toNat_lt {id : Word} {k : ℕ} (hsmall : id.toNat < 2 ^ k) {i : ℕ} (hi : k ≤ i) :
    id.getLsbD i = false := by
  rw [BitVec.getLsbD]
  exact Nat.testBit_lt_two_pow (hsmall.trans_le (Nat.pow_le_pow_right (by omega) hi))

/-- A frame with a small id is a data frame of the base format. -/
theorem base_of_readId (l : FrameLayout) {id : Word} {words : FrameWords}
    (hid : l.readId words.ids = id) (hsmall : id.toNat < 2 ^ 11) :
    words.ids.getLsbD l.extBit = false ∧ words.ids.getLsbD l.rtrBit = false ∧
      ∀ i < 11, words.ids.getLsbD (l.baseShift + i) = id.getLsbD i := by
  have hbit (i : ℕ) := getLsbD_readId l words i
  have hclear (i : ℕ) (hi : 11 ≤ i) := getLsbD_of_toNat_lt hsmall hi
  rw [hid] at hbit
  have hext : words.ids.getLsbD l.extBit = false := by
    have h31 := (hbit 31).symm.trans (hclear 31 (by omega))
    by_contra hset
    rw [Bool.not_eq_false] at hset
    rw [hset] at h31
    simp at h31
  have hrtr : words.ids.getLsbD l.rtrBit = false := by
    have h30 := (hbit 30).symm.trans (hclear 30 (by omega))
    rw [hext] at h30
    simpa using h30
  refine ⟨hext, hrtr, fun i hi => ?_⟩
  rw [hbit i, hext, hrtr]
  simp [hi]

theorem getLsbD_bxCanMask (i : ℕ) (hi : i < 32) :
    bxCanMask.getLsbD i = decide (21 ≤ i ∨ i = 1 ∨ i = 2) := by
  revert i
  decide

theorem bxCan_match {id : Word} {words : FrameWords} (hid : bxCan.readId words.ids = id)
    (hsmall : id.toNat < 2 ^ 11) : words.ids &&& bxCanMask = (id <<< 21) &&& bxCanMask := by
  obtain ⟨hext, hrtr, hbase⟩ := base_of_readId bxCan hid hsmall
  refine BitVec.eq_of_getLsbD_eq fun i hi => ?_
  rw [BitVec.getLsbD_and, BitVec.getLsbD_and, getLsbD_bxCanMask i hi, BitVec.getLsbD_shiftLeft]
  obtain h | rfl | rfl | h : 21 ≤ i ∨ i = 1 ∨ i = 2 ∨ ¬(21 ≤ i ∨ i = 1 ∨ i = 2) := by omega
  · obtain ⟨j, rfl⟩ := Nat.exists_eq_add_of_le h
    have hlow : ¬21 + j < 21 := by omega
    have hplace : words.ids.getLsbD (21 + j) = id.getLsbD j := hbase j (by omega)
    rw [hplace, Nat.add_sub_cancel_left, decide_eq_false hlow, decide_eq_true hi]
    simp
  · have hplace : words.ids.getLsbD 1 = false := hrtr
    rw [hplace]
    simp
  · have hplace : words.ids.getLsbD 2 = false := hext
    rw [hplace]
    simp
  · rw [decide_eq_false h, Bool.and_false, Bool.and_false]

theorem getLsbD_canFilter (id : Word) (i : ℕ) (hi : i < 32) : (canFilter id).getLsbD i =
    ((decide (i = 31) || decide (i = 27)) || (decide (16 ≤ i) && id.getLsbD (i - 16)) ||
      decide (i < 11)) := by
  have h7ff : (0x7ff : Word).getLsbD i = decide (i < 11) := getLsbD_low 11 (by omega) i
  have hplace : 2#32 <<< 30 = 1#32 <<< 31 := by decide
  have htop : (1#32 <<< 31).getLsbD i = decide (i = 31) := getLsbD_one_shiftLeft (by omega) i
  have h27 : (1#32 <<< 27).getLsbD i = decide (i = 27) := getLsbD_one_shiftLeft (by omega) i
  rw [canFilter, hplace, BitVec.getLsbD_or, BitVec.getLsbD_or, BitVec.getLsbD_or, h7ff, htop, h27,
    BitVec.getLsbD_shiftLeft, decide_eq_true hi, Bool.true_and]
  by_cases hlow : i < 16
  · have hout : ¬16 ≤ i := by omega
    rw [decide_eq_true hlow, decide_eq_false hout]
    rfl
  · have hin : 16 ≤ i := by omega
    rw [decide_eq_false hlow, decide_eq_true hin]
    rfl

theorem fdcan_match {id : Word} {words : FrameWords} (hid : fdcan.readId words.ids = id)
    (hsmall : id.toNat < 2 ^ 11) :
    words.ids.extractLsb' fdcan.baseShift 11 &&& (canFilter id).extractLsb' 0 11 =
      (canFilter id).extractLsb' 16 11 &&& (canFilter id).extractLsb' 0 11 := by
  obtain ⟨-, -, hbase⟩ := base_of_readId fdcan hid hsmall
  refine BitVec.eq_of_getLsbD_eq fun i hi => ?_
  rw [BitVec.getLsbD_and, BitVec.getLsbD_and, BitVec.getLsbD_extractLsb', BitVec.getLsbD_extractLsb',
    BitVec.getLsbD_extractLsb', hbase i hi, getLsbD_canFilter id (16 + i) (by omega)]
  have h31 : ¬16 + i = 31 := by omega
  have h27 : 16 + i = 27 ↔ i = 11 := by omega
  have hlow : ¬16 + i < 11 := by omega
  have h11 : ¬i = 11 := by omega
  simp [hi, h31, h27, h11, hlow]

/-- The ids behind a node id are small too. -/
theorem Wanted.toNat_lt {assignedId id : Word} (hw : Wanted assignedId id) (hnode : NodeId assignedId) :
    id.toNat < 2 ^ 11 := by
  rw [NodeId] at hnode
  rcases hw with rfl | ⟨-, rfl | rfl⟩
  · decide
  · omega
  · rw [BitVec.toNat_add]
    exact (Nat.mod_le _ _).trans_lt (show assignedId.toNat + 1 < 2 ^ 11 by omega)

/-- **bxCAN drops nothing that the device looks at.** -/
theorem bxCanPasses_of_wanted (config : Bool) {assignedId : Word} (hnode : NodeId assignedId)
    {words : FrameWords} (hw : Wanted assignedId (bxCan.readId words.ids)) :
    bxCanPasses config assignedId words.ids = true := by
  have hmatch := bxCan_match rfl (hw.toNat_lt hnode)
  rw [bxCanPasses, bxCanFilter, List.any_eq_true]
  cases config with
  | false => exact ⟨(0, 0), List.mem_singleton_self _, by simp⟩
  | true =>
      rw [if_pos rfl]
      rcases hw with hadmin | ⟨hne, hid | hid⟩
      · rw [hadmin] at hmatch
        exact ⟨_, List.mem_cons_self, beq_iff_eq.mpr hmatch⟩
      · rw [hid] at hmatch
        rw [if_pos hne]
        exact ⟨(assignedId <<< 21, bxCanMask), by simp, beq_iff_eq.mpr hmatch⟩
      · rw [hid] at hmatch
        rw [if_pos hne]
        exact ⟨((assignedId + 1) <<< 21, bxCanMask), by simp, beq_iff_eq.mpr hmatch⟩

/-- **Nor does FDCAN.** -/
theorem fdcanPasses_of_wanted (config : Bool) {assignedId : Word} (hnode : NodeId assignedId)
    {words : FrameWords} (hw : Wanted assignedId (fdcan.readId words.ids)) :
    fdcanPasses config assignedId words.ids = true := by
  have hmatch := fdcan_match rfl (hw.toNat_lt hnode)
  rw [fdcanPasses]
  split_ifs with hfilter
  · rw [fdcanFilter, List.any_eq_true]
    rcases hw with hadmin | ⟨hne, hid | hid⟩
    · rw [hadmin] at hmatch
      exact ⟨_, List.mem_cons_self, beq_iff_eq.mpr hmatch⟩
    · rw [hid] at hmatch
      rw [if_pos hne]
      exact ⟨canFilter assignedId, by simp, beq_iff_eq.mpr hmatch⟩
    · rw [hid] at hmatch
      rw [if_pos hne]
      exact ⟨canFilter (assignedId + 1), by simp, beq_iff_eq.mpr hmatch⟩
  · rfl

/-! ### Runs -/

/-- What happens on the bus and in the device: the task goes on, or a frame comes. -/
inductive BusMove where
  | task
  | frame (words : FrameWords)

/-- A frame raises an interrupt if the filter lets it through. -/
def CanRx.stepFiltered (l : FrameLayout) (passes : Word → Word → Bool) (s : CanRx) : BusMove → CanRx
  | .task => canserialRxTask s
  | .frame words =>
      if passes s.can.filter words.ids then (canserialProcessData s (l.read words)).2 else s

/-- The filter has not been set to the id that has just been assigned, and a frame with that id or
the one behind it comes. -/
def CanRx.Early (l : FrameLayout) (s : CanRx) (words : FrameWords) : Prop :=
  (∃ pullp filter, s.pc = .adminFilter pullp filter) ∧ Wanted s.can.assignedId (l.readId words.ids) ∧
    l.readId words.ids ≠ canbusIdAdmin

/-- No such frame comes in a run without the filter. -/
def CanRx.Patient (l : FrameLayout) (s : CanRx) : List BusMove → Prop
  | [] => True
  | .task :: moves => (canserialRxTask s).Patient l moves
  | .frame words :: moves =>
      ¬s.Early l words ∧ CanRx.Patient l (canserialProcessData s (l.read words)).2 moves

/-- The id and the filter go together, and both are node ids. -/
structure CanRx.Filtered (s : CanRx) : Prop where
  assigned : NodeId s.can.assignedId
  filter : NodeId s.can.filter
  agree : match s.pc with
    | .clearFilter => s.can.assignedId = 0
    | .adminFilter _ filter => filter = s.can.assignedId
    | _ => s.can.filter = s.can.assignedId

theorem nodeId_zero : NodeId 0 := Nat.zero_le _

theorem nodeId_canDecodeNodeid (shortId : ℕ) : NodeId (canDecodeNodeid shortId) := by
  rw [canDecodeNodeid]
  split_ifs with hrange
  · exact nodeId_zero
  · rw [NodeId, BitVec.toNat_ofNat, Nat.shiftLeft_eq]
    simp only [canbusShortIdMin, canbusShortIdMax, canbusNodeidShift, canbusNodeidBase] at hrange ⊢
    exact (Nat.mod_le _ _).trans (by omega)

/-- An admin message assigns a node id, or takes it away, or changes nothing. -/
theorem canProcessAdmin_assign (c : CanData) (msg : CanbusMsg) :
    (canProcessAdmin c msg).1 = c ∨ ∃ id, NodeId id ∧ (canProcessAdmin c msg).1 = c.assign id := by
  rw [canProcessAdmin]
  split_ifs
  · exact .inl rfl
  · rw [canProcessQueryUnassigned]
    split_ifs <;> exact .inl rfl
  · rw [canProcessSetCanbootNodeid]
    dsimp only
    split_ifs
    · exact .inl rfl
    · exact .inl rfl
    · exact .inr ⟨_, nodeId_canDecodeNodeid _, rfl⟩
    · exact .inl rfl
    · exact .inr ⟨0, nodeId_zero, rfl⟩
    · exact .inl rfl
  · exact .inr ⟨0, nodeId_zero, rfl⟩
  · exact .inl rfl

theorem CanRx.Filtered.task {s : CanRx} (h : s.Filtered) : (canserialRxTask s).Filtered := by
  obtain ⟨hassigned, hfilter, hagree⟩ := h
  unfold canserialRxTask
  cases hpc : s.pc with
  | clearId =>
      exact ⟨nodeId_zero, hfilter, rfl⟩
  | clearFilter =>
      rw [hpc] at hagree
      exact ⟨hassigned, hassigned, rfl⟩
  | adminId pullp msg =>
      rw [hpc] at hagree
      dsimp only at hagree ⊢
      have hset : NodeId (canProcessAdmin s.can msg).1.assignedId ∧
          (canProcessAdmin s.can msg).1.filter = (canProcessAdmin s.can msg).1.assignedId := by
        rcases canProcessAdmin_assign s.can msg with hsame | ⟨id, hnode, hid⟩
        · rw [hsame]
          exact ⟨hassigned, hagree⟩
        · rw [hid]
          exact ⟨hnode, rfl⟩
      exact ⟨hset.1, hfilter, hset.2⟩
  | adminFilter pullp filter =>
      rw [hpc] at hagree
      dsimp only at hagree
      exact ⟨hassigned, hagree ▸ hassigned, hagree⟩
  | idle =>
      rw [hpc] at hagree
      dsimp only
      split_ifs
      · exact ⟨hassigned, hfilter, hagree⟩
      · exact ⟨hassigned, hfilter, by rw [hpc]; exact hagree⟩
  | clearWake | clearConflict | readPush | adminAdvance | readPos | dispatch =>
      rw [hpc] at hagree
      exact ⟨hassigned, hfilter, hagree⟩
  | _ =>
      rw [hpc] at hagree
      dsimp only
      split_ifs
      all_goals exact ⟨hassigned, hfilter, hagree⟩

theorem CanRx.Filtered.irq {s : CanRx} (h : s.Filtered) (msg : CanbusMsg) :
    (canserialProcessData s msg).2.Filtered := by
  have hcan := canserialProcessData_can s msg
  have hpc : (canserialProcessData s msg).2.pc = s.pc := by
    rw [canserialProcessData]
    dsimp only
    split_ifs <;> rfl
  exact ⟨hcan ▸ h.assigned, hcan ▸ h.filter, by rw [hpc, hcan]; exact h.agree⟩

theorem CanRx.boot_filtered (u : Uuid) : (CanRx.boot u).Filtered := ⟨nodeId_zero, nodeId_zero, rfl⟩

/-- Nothing happens without interest. -/
theorem canserialProcessData_of_not_wanted {s : CanRx} {msg : CanbusMsg}
    (h : ¬Wanted s.can.assignedId msg.id) : (canserialProcessData s msg).2 = s := by
  rw [Wanted, not_or, not_and, not_or] at h
  obtain ⟨hadmin, hids⟩ := h
  have hown : ¬(s.can.assignedId ≠ 0 ∧ msg.id = s.can.assignedId) := fun hown =>
    (hids hown.1).1 hown.2
  have hconflict : ¬(s.can.assignedId ≠ 0 ∧ msg.id = s.can.assignedId + 1) := fun hown =>
    (hids hown.1).2 hown.2
  rw [canserialProcessData, if_neg hown, if_neg hconflict, if_neg hadmin]

/-- What a filter has to let through. -/
def Complete (l : FrameLayout) (passes : Word → Word → Bool) : Prop :=
  ∀ id (words : FrameWords), NodeId id → Wanted id (l.readId words.ids) → passes id words.ids = true

/-- **A frame that is dropped** would not have been looked at. -/
theorem CanRx.Filtered.dropped {l : FrameLayout} {passes : Word → Word → Bool}
    (hpasses : Complete l passes) {s : CanRx} (h : s.Filtered) {words : FrameWords}
    (hearly : ¬s.Early l words) (hdrop : passes s.can.filter words.ids ≠ true) :
    (canserialProcessData s (l.read words)).2 = s := by
  refine canserialProcessData_of_not_wanted fun hwanted => ?_
  have hwanted : Wanted s.can.assignedId (l.readId words.ids) := hwanted
  have hfilter := hpasses s.can.filter words h.filter
  have hadmin : l.readId words.ids ≠ canbusIdAdmin := fun hid => hdrop (hfilter (.inl hid))
  have hagree := h.agree
  cases hpc : s.pc with
  | clearFilter =>
      rw [hpc] at hagree
      exact hwanted.elim hadmin fun hids => hids.1 hagree
  | adminFilter pullp filter => exact hearly ⟨⟨pullp, filter, hpc⟩, hwanted, hadmin⟩
  | _ =>
      rw [hpc] at hagree
      exact hdrop (hfilter (hagree ▸ hwanted))

theorem foldl_stepFiltered {l : FrameLayout} {passes : Word → Word → Bool}
    (hpasses : Complete l passes) {s : CanRx} (h : s.Filtered) {moves : List BusMove}
    (hpatient : s.Patient l moves) :
    moves.foldl (CanRx.stepFiltered l passes) s =
      moves.foldl (CanRx.stepFiltered l fun _ _ => true) s := by
  induction moves generalizing s with
  | nil => rfl
  | cons m moves ih =>
      cases m with
      | task => exact ih h.task hpatient
      | frame words =>
          obtain ⟨hearly, hpatient⟩ := hpatient
          have hnext := ih (h.irq _) hpatient
          have hall : CanRx.stepFiltered l (fun _ _ => true) s (.frame words) =
              (canserialProcessData s (l.read words)).2 := rfl
          rw [List.foldl_cons, List.foldl_cons, hall, ← hnext, CanRx.stepFiltered]
          by_cases hdrop : passes s.can.filter words.ids = true
          · rw [if_pos hdrop]
          · rw [if_neg hdrop, h.dropped hpasses hearly hdrop]

/-- **With the filter the device does in every run what it does without**, if no frame for the id that
is being assigned comes before the filter has been set. -/
theorem filter_harmless (config : Bool) (u : Uuid) {moves : List BusMove}
    {l : FrameLayout} {passes : Word → Word → Bool}
    (hperipheral : l = bxCan ∧ passes = bxCanPasses config ∨ l = fdcan ∧ passes = fdcanPasses config)
    (hpatient : (CanRx.boot u).Patient l moves) :
    moves.foldl (CanRx.stepFiltered l passes) (.boot u) =
      moves.foldl (CanRx.stepFiltered l fun _ _ => true) (.boot u) := by
  refine foldl_stepFiltered ?_ (CanRx.boot_filtered u) hpatient
  rcases hperipheral with ⟨rfl, rfl⟩ | ⟨rfl, rfl⟩
  · exact fun _ _ hnode hwanted => bxCanPasses_of_wanted config hnode hwanted
  · exact fun _ _ hnode hwanted => fdcanPasses_of_wanted config hnode hwanted

/-- A frame that is dropped, and one by which a device gets its id. -/
def requestMoves : List BusMove :=
  [.frame ⟨0x123 <<< 21, 0, 0, 0⟩, .task,
    .frame (bxCan.write (setNodeidRequest ⟨[1, 2, 3, 4, 5, 6], rfl⟩ 1))]

theorem filter_harmless_requestMoves :
    requestMoves.foldl (CanRx.stepFiltered bxCan (bxCanPasses true))
        (.boot ⟨[1, 2, 3, 4, 5, 6], rfl⟩) =
      requestMoves.foldl (CanRx.stepFiltered bxCan fun _ _ => true)
        (.boot ⟨[1, 2, 3, 4, 5, 6], rfl⟩) := by
  refine filter_harmless true _ (.inl ⟨rfl, rfl⟩) ⟨?_, ?_, trivial⟩
  · rintro ⟨⟨_, _, hpc⟩, -⟩
    cases hpc
  · rintro ⟨⟨_, _, hpc⟩, -⟩
    cases hpc

end Terraboot
