import Terraboot.CanBus
import Terraboot.CanWake

/-!
# The Conflict Flag

A frame on the device's outgoing id is noted in a flag, without the id. The task takes the flag
at the start of a later run and then gives up whatever id is assigned by then; a message handled
in between may have changed it.

A run is looked at state by state: a change of the id is explained by what the task is doing at
that point or by an earlier move of the run.

## Main results

* `conflictSeen_of_conflicting`: the invariant, that a noted conflict is about the id now
  assigned.
* `release_caused`: as long as no message gives the device a new id while the flag is set, an id
  is only released for a reason of its own.
* `stale_conflict_releases`: without this, an id is released for a conflict about another one.
-/

namespace Terraboot

/-- The state after the first `k` moves of a run. -/
def stateAt (u : Uuid) (moves : List RxMove) (k : ℕ) : CanRx := (CanRx.boot u).run (moves.take k)

theorem stateAt_succ {u : Uuid} {moves : List RxMove} {k : ℕ} {move : RxMove}
    (h : moves[k]? = some move) :
    stateAt u moves (k + 1) = (stateAt u moves k).step move := by
  rw [stateAt, List.take_add_one, h]
  exact CanRx.run_concat _ _ move

theorem stateAt_succ_of_none {u : Uuid} {moves : List RxMove} {k : ℕ} (h : moves[k]? = none) :
    stateAt u moves (k + 1) = stateAt u moves k := by
  rw [stateAt, List.take_add_one, h, Option.toList_none, List.append_nil]
  rfl

/-- A frame on the outgoing id of `x` has been received while `x` was assigned, and `x` has been
assigned ever since. -/
def ConflictSeen (u : Uuid) (moves : List RxMove) (k : ℕ) (x : Word) : Prop :=
  ∃ j msg, j < k ∧ moves[j]? = some (.irq msg) ∧ msg.id = x + 1 ∧
    ∀ i, j ≤ i → i ≤ k → (stateAt u moves i).can.assignedId = x

/-- Why the id `x` is released after `k` moves: the message being handled clears all ids, or gives
`x` to another UUID, or a conflict about `x` has been seen. -/
inductive ReleaseCause (u : Uuid) (moves : List RxMove) (k : ℕ) (x : Word) : Prop
  | clear (pullp : Word) (msg : CanbusMsg) (hpc : (stateAt u moves k).pc = .adminId pullp msg)
      (hclear : ClearsId msg)
  | taken (pullp : Word) (msg : CanbusMsg) (hpc : (stateAt u moves k).pc = .adminId pullp msg)
      (v : List Byte) (n : ℕ) (hv : v ≠ (stateAt u moves k).can.uuid.val) (hset : SetsId v n msg)
      (hx : canDecodeNodeid n = x)
  | conflict (hseen : ConflictSeen u moves k x)

/-- Every release of an id in a run has a cause. -/
def ReleasesCaused (u : Uuid) (moves : List RxMove) : Prop :=
  ∀ k x, x ≠ 0 → (stateAt u moves k).can.assignedId = x →
    (stateAt u moves (k + 1)).can.assignedId = 0 → ReleaseCause u moves k x

/-- The message about to be handled does not give the device a new id, unless no conflict is
noted. -/
def CanRx.NoStaleSet (s : CanRx) : Prop :=
  ∀ pullp msg n, s.pc = .adminId pullp msg → SetsId s.can.uuid.val n msg →
    canDecodeNodeid n ≠ s.can.assignedId → s.idConflictPending = false

/-- A conflict is noted, or the task is acting on one. -/
def CanRx.Conflicting (s : CanRx) : Prop :=
  s.idConflictPending = true ∨ s.pc = .clearConflict ∨ s.pc = .clearId

/-! ### One move -/

/-- **What a task step does to the id and to a conflict**: neither changes, or the task gives the
id up, or it writes the id that a message leaves it with. -/
theorem canserialRxTask_id_cases (s : CanRx) :
    ((canserialRxTask s).can.assignedId = s.can.assignedId ∧
        ((canserialRxTask s).Conflicting → s.Conflicting)) ∨
      (s.pc = .clearId ∧ (canserialRxTask s).can.assignedId = 0) ∨
      ∃ pullp msg, s.pc = .adminId pullp msg ∧
        (canserialRxTask s).can.assignedId = (canProcessAdmin s.can msg).1.assignedId ∧
        ((canserialRxTask s).Conflicting → s.idConflictPending = true) := by
  unfold canserialRxTask CanRx.Conflicting
  cases hpc : s.pc with
  | clearId => exact .inr (.inl ⟨rfl, rfl⟩)
  | adminId pullp msg =>
      exact .inr (.inr ⟨pullp, msg, rfl, rfl, fun hc => by simpa using hc⟩)
  | readConflict =>
      refine .inl ⟨rfl, ?_⟩
      dsimp only
      split_ifs with hflag
      · exact fun _ => .inl hflag
      · exact fun hc => by simpa using hc
  | clearConflict => exact .inl ⟨rfl, fun _ => .inr (.inl rfl)⟩
  | idle =>
      dsimp only
      split_ifs
      · exact .inl ⟨rfl, fun hc => by simpa using hc⟩
      · exact .inl ⟨rfl, fun hc => by simpa [hpc] using hc⟩
  | readPull | popRead | scan =>
      refine .inl ?_
      dsimp only
      split_ifs <;> exact ⟨rfl, fun hc => by simpa using hc⟩
  | adminRead | popMove | popCommit =>
      refine .inl ?_
      dsimp only
      split_ifs <;> exact ⟨rfl, fun hc => by simpa using hc⟩
  | clearWake | clearFilter | readPush | adminFilter | adminAdvance | readPos | dispatch =>
      exact .inl ⟨rfl, fun hc => by simpa using hc⟩

/-- An interrupt notes a conflict about the id assigned, or changes nothing about conflicts. -/
theorem canserialProcessData_conflict {s : CanRx} (hpos : s.receivePos ≤ receiveBufSize)
    (msg : CanbusMsg) :
    (s.can.assignedId ≠ 0 ∧ msg.id = s.can.assignedId + 1) ∨
      ((canserialProcessData s msg).2.Conflicting → s.Conflicting) := by
  rcases canserialProcessData_cases s msg hpos with ⟨-, -, -, hs⟩ | ⟨hne, hid, -⟩ | ⟨-, -, hs⟩ | hs
  · rw [hs]
    exact .inr id
  · exact .inl ⟨hne, hid⟩
  · rw [hs]
    exact .inr id
  · rw [hs]
    exact .inr id

/-! ### Whole runs -/

variable {u : Uuid} {moves : List RxMove}

theorem stateAt_shape (u : Uuid) (moves : List RxMove) (k : ℕ) : (stateAt u moves k).Shape :=
  canRx_shape u (moves.take k)

/-- What has been seen stays seen while the id stays. -/
theorem ConflictSeen.succ {k : ℕ} {x : Word} (h : ConflictSeen u moves k x)
    (hsame : (stateAt u moves (k + 1)).can.assignedId = x) : ConflictSeen u moves (k + 1) x := by
  obtain ⟨j, msg, hj, hmove, hid, hsince⟩ := h
  refine ⟨j, msg, Nat.lt_succ_of_lt hj, hmove, hid, fun i hji hik => ?_⟩
  rcases Nat.lt_or_eq_of_le hik with hlt | rfl
  · exact hsince i hji (Nat.le_of_lt_succ hlt)
  · exact hsame

/-- **A conflict is about the id assigned**, as long as no message gives the device a new one
while the flag is set. -/
theorem conflictSeen_of_conflicting
    (hquiet : ∀ k, moves[k]? = some .task → (stateAt u moves k).NoStaleSet) (k : ℕ)
    (hconflict : (stateAt u moves k).Conflicting)
    (hne : (stateAt u moves k).can.assignedId ≠ 0) :
    ConflictSeen u moves k (stateAt u moves k).can.assignedId := by
  induction k with
  | zero =>
      rw [stateAt, List.take_zero] at hne
      exact absurd rfl hne
  | succ k ih =>
      have hshape := stateAt_shape u moves k
      cases hmove : moves[k]? with
      | none =>
          rw [stateAt_succ_of_none hmove] at hconflict hne ⊢
          exact (ih hconflict hne).succ (by rw [stateAt_succ_of_none hmove])
      | some move =>
          have hnext := stateAt_succ (u := u) hmove
          cases move with
          | irq msg =>
              have hsame : (stateAt u moves (k + 1)).can.assignedId =
                  (stateAt u moves k).can.assignedId := by
                rw [hnext, CanRx.step, canserialProcessData_can]
              rw [hsame] at hne ⊢
              rcases canserialProcessData_conflict hshape.pos msg with ⟨-, hid⟩ | hold
              · -- the conflict is noted now
                refine ⟨k, msg, Nat.lt_succ_self k, hmove, hid, fun i hki hik => ?_⟩
                rcases Nat.lt_or_eq_of_le hik with hlt | rfl
                · rw [Nat.le_antisymm (Nat.le_of_lt_succ hlt) hki]
                · exact hsame
              · rw [hnext] at hconflict
                exact (ih (hold hconflict) hne).succ hsame
          | task =>
              rw [hnext, CanRx.step] at hconflict hne
              rcases canserialRxTask_id_cases (stateAt u moves k) with ⟨hsame, hold⟩ | ⟨-, hzero⟩
                | ⟨pullp, msg, hpc, hid, hold⟩
              · rw [hnext, CanRx.step, hsame]
                exact (ih (hold hconflict) (hsame ▸ hne)).succ (by rw [hnext]; exact hsame)
              · exact absurd hzero hne
              · -- the task writes an id while a conflict is noted
                have hflag := hold hconflict
                have hsame : (canserialRxTask (stateAt u moves k)).can.assignedId =
                    (stateAt u moves k).can.assignedId := by
                  rcases canProcessAdmin_id_cases (stateAt u moves k).can msg with hsame | ⟨hzero, -⟩
                    | ⟨n, hset, hnew⟩
                  · exact hid.trans hsame
                  · exact absurd (hid.trans hzero) hne
                  · by_contra hchange
                    rw [hid, hnew] at hchange
                    rw [hquiet k hmove pullp msg n hpc hset hchange] at hflag
                    exact Bool.false_ne_true hflag
                rw [hnext, CanRx.step, hsame]
                exact (ih (.inl hflag) (hsame ▸ hne)).succ (by rw [hnext]; exact hsame)

/-- **A conflict frame only releases the id it conflicts with**, in every run in which no message
gives the device a new id while a conflict is noted: whenever an id is released, the task is
handling a message that clears all ids or gives this one to another UUID, or a frame on its
outgoing id has been received since it was assigned. -/
theorem release_caused
    (hquiet : ∀ k, moves[k]? = some .task → (stateAt u moves k).NoStaleSet) :
    ReleasesCaused u moves := by
  intro k x hx hbefore hafter
  cases hmove : moves[k]? with
  | none =>
      rw [stateAt_succ_of_none hmove, hbefore] at hafter
      exact absurd hafter hx
  | some move =>
      have hnext := stateAt_succ (u := u) hmove
      cases move with
      | irq msg =>
          rw [hnext, CanRx.step, canserialProcessData_can, hbefore] at hafter
          exact absurd hafter hx
      | task =>
          rw [hnext, CanRx.step] at hafter
          rcases canserialRxTask_id_cases (stateAt u moves k) with ⟨hsame, -⟩ | ⟨hpc, -⟩
            | ⟨pullp, msg, hpc, hid, -⟩
          · exact absurd (hbefore.symm.trans (hsame.symm.trans hafter)) hx
          · have hseen := conflictSeen_of_conflicting hquiet k (.inr (.inr hpc)) (hbefore ▸ hx)
            exact .conflict (hbefore ▸ hseen)
          · rcases canProcessAdmin_id_cases (stateAt u moves k).can msg with hsame
              | ⟨-, hclear | ⟨v, n, hv, hset, hown⟩⟩ | ⟨n, hset, hnew⟩
            · exact absurd (hbefore.symm.trans (hsame.symm.trans (hid.symm.trans hafter))) hx
            · exact .clear pullp msg hpc hclear
            · exact .taken pullp msg hpc v n hv hset (hown.trans hbefore)
            · exact absurd (hnew.symm.trans (hid.symm.trans hafter))
                (canDecodeNodeid_ne_zero hset.range)

/-! ### Two runs -/

/-- A frame on the outgoing id of short id 5. -/
def conflictFrame : CanbusMsg := { CanbusMsg.zero with id := canDecodeNodeid 5 + 1 }

/-- The device is given short id 5; the task sleeps when the conflict frame arrives. -/
def conflictRun : List RxMove :=
  .irq (setNodeidRequest someUuid 5) :: List.replicate 23 .task ++
    .irq conflictFrame :: List.replicate 5 .task

/-- No id is written, or no conflict is noted. -/
def CanRx.quiet (s : CanRx) : Bool :=
  match s.pc with
  | .adminId _ _ => !s.idConflictPending
  | _ => true

theorem CanRx.noStaleSet_of_quiet {s : CanRx} (h : s.quiet = true) : s.NoStaleSet := by
  intro pullp msg n hpc _ _
  rw [CanRx.quiet, hpc] at h
  simpa using h

/-- The id is released for the conflict. -/
theorem release_caused_conflict : ReleasesCaused someUuid conflictRun ∧
    (stateAt someUuid conflictRun 29).can.assignedId = canDecodeNodeid 5 ∧
    (stateAt someUuid conflictRun 30).can.assignedId = 0 := by
  have hquiet : ∀ k < conflictRun.length, (stateAt someUuid conflictRun k).quiet = true := by
    decide +kernel
  refine ⟨release_caused fun k hk => ?_, by decide +kernel, by decide +kernel⟩
  exact CanRx.noStaleSet_of_quiet (hquiet k (List.getElem?_eq_some_iff.mp hk).1)

/-- As before, but the conflict frame arrives after the task, woken for a message that gives the
device short id 6, has looked at the flag. -/
def staleRun : List RxMove :=
  .irq (setNodeidRequest someUuid 5) :: List.replicate 23 .task ++
    .irq (setNodeidRequest someUuid 6) :: List.replicate 3 .task ++
    .irq conflictFrame :: List.replicate 25 .task

/-- No frame of the run is on the outgoing id of short id 6. -/
theorem staleRun_frames : ∀ msg, RxMove.irq msg ∈ staleRun → msg.id ≠ canDecodeNodeid 6 + 1 := by
  intro msg hmem
  have hframes : staleRun.all (fun
    | .irq m => decide (m.id ≠ canDecodeNodeid 6 + 1)
    | .task => true) = true := by decide +kernel
  simpa using List.all_eq_true.mp hframes _ hmem

/-- The id that the message gave is released for a conflict about the id before it. -/
theorem stale_conflict_releases : ¬ReleasesCaused someUuid staleRun := by
  intro h
  have hpc : (stateAt someUuid staleRun 53).pc = .clearId := by decide +kernel
  cases h 53 (canDecodeNodeid 6) (by decide) (by decide +kernel) (by decide +kernel) with
  | clear pullp msg hadmin =>
      rw [hpc] at hadmin
      cases hadmin
  | taken pullp msg hadmin =>
      rw [hpc] at hadmin
      cases hadmin
  | conflict hseen =>
      obtain ⟨j, msg, -, hmove, hid, -⟩ := hseen
      exact staleRun_frames msg (List.mem_of_getElem? hmove) hid

end Terraboot
