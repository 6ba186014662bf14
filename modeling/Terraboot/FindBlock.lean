import Terraboot.Frame

/-!
# Finding a Block in the Receive Buffer

`command_find_block` of `command.c`, with its static `sync_state` passed explicitly. The
four exits of the source (a complete frame, `need_more_data`, `error`, `need_sync`) are
definitions of their own, in the order in which the source falls through them.

A call either accepts a frame at the front of the buffer, waits, or discards bytes. The
specification of each exit is stated against the verdict of `blockVerdict`, so that the
receive loops never unfold the function.

## Main results

* `commandFindBlock_eq`: outside of resync, the function takes the decision of the block
  classifier.
* `commandFindBlock_tracks`: popping what a call counts is a step of the greedy
  decomposition of the stream.
* `commandFindBlock_progress`: a call that does not wait shortens the buffer or leaves
  the resync state.
-/

open LittleEndian StreamScanner

namespace Terraboot

/-- The flags `CF_NEED_SYNC` and `CF_NEED_VALID` of the static `sync_state`. -/
structure SyncState where
  needSync : Bool
  needValid : Bool
  deriving DecidableEq, Repr

/-- The zero-initialised `sync_state`. -/
def SyncState.init : SyncState := ⟨false, false⟩

/-- What a call of `command_find_block` leaves behind: its result, `*pop_count`, the new
`sync_state`, and whether it answered with a NACK. -/
structure FindResult where
  ret : ℤ
  popCount : ℕ
  syncState : SyncState
  nack : Bool
  deriving DecidableEq, Repr

/-- Label `need_more_data`. -/
def needMoreData (s : SyncState) : FindResult := ⟨0, 0, s, false⟩

/-- Label `need_sync`: discard bytes until the next `0x01` at or after `searchSkip`. -/
def needSync (buf : List Byte) (s : SyncState) (searchSkip : ℕ) : FindResult :=
  let nextSync :=
    if searchSkip < buf.length then
      ((buf.drop searchSkip).findIdx? (· == messageStx1)).map (· + searchSkip)
    else none
  let s' := match nextSync with
    | some _ => { s with needSync := false }
    | none => s
  let popCount := nextSync.getD buf.length
  if s'.needValid then ⟨-1, popCount, s', false⟩
  else ⟨-1, popCount, { s' with needValid := true }, true⟩

/-- Label `error`: resynchronise, skipping a just-rejected `0x01` at the front. -/
def findError (buf : List Byte) (s : SyncState) : FindResult :=
  let searchSkip := if 0 < buf.length ∧ buf.getD 0 0 = messageStx1 then 1 else 0
  needSync buf { s with needSync := true } searchSkip

/-- `command_find_block` -/
def commandFindBlock (buf : List Byte) (s : SyncState) : FindResult :=
  if buf.length ≠ 0 ∧ s.needSync then needSync buf s 0
  else if buf.length < messageMin then needMoreData s
  else if buf.getD messagePosStx1 0 ≠ messageStx1 ∨ buf.getD messagePosStx2 0 ≠ messageStx2 then
    findError buf s
  else
    let msglen := (buf.getD messagePosLen 0).toNat * 4 + 8
    if msglen < messageMin ∨ messageMax < msglen then findError buf s
    else if buf.length < msglen then needMoreData s
    else if buf.getD (msglen - messageTrailerSync2) 0 ≠ messageSync2
        ∨ buf.getD (msglen - messageTrailerSync) 0 ≠ messageSync then findError buf s
    else
      let msgcrc : BitVec 16 := (buf.getD (msglen - messageTrailerCrc) 0).setWidth 16
        ||| ((buf.getD (msglen - messageTrailerCrc + 1) 0).setWidth 16 <<< 8)
      let crc := crc16Ccitt ((buf.drop 2).take (msglen - messageTrailerSize - 2))
      if crc ≠ msgcrc then findError buf s
      else ⟨1, msglen, { s with needValid := false }, false⟩

/-! ### The checks of the source and the classifier -/

theorem or_shiftLeft_eq_ofLe16 (a b : Byte) :
    a.setWidth 16 ||| (b.setWidth 16 <<< 8) = ofLe16 [a, b] := by
  simp only [ofLe16, List.getD_cons_succ, List.getD_cons_zero]
  ext i hi
  simp only [BitVec.getElem_or, BitVec.getElem_setWidth, BitVec.getElem_shiftLeft]
  grind

/-- A buffer that holds the whole of an announced message, cut into its parts. -/
theorem exists_message_parts {w : List Byte} {n : ℕ} (h : 4 * n + 8 ≤ w.length) :
    ∃ a b c d payload x y z t r,
      w = [a, b, c, d] ++ payload ++ [x, y, z, t] ++ r ∧ payload.length = 4 * n := by
  obtain ⟨a, b, c, d, w, rfl⟩ : ∃ a b c d w', w = a :: b :: c :: d :: w' := by
    match w, h with
    | a :: b :: c :: d :: w', _ => exact ⟨a, b, c, d, w', rfl⟩
  simp only [List.length_cons] at h
  obtain ⟨x, y, z, t, r, hr⟩ : ∃ x y z t r, w.drop (4 * n) = x :: y :: z :: t :: r := by
    have hl : 4 ≤ (w.drop (4 * n)).length := by
      rw [List.length_drop]
      omega
    match w.drop (4 * n), hl with
    | x :: y :: z :: t :: r, _ => exact ⟨x, y, z, t, r, rfl⟩
  refine ⟨a, b, c, d, w.take (4 * n), x, y, z, t, r, ?_, ?_⟩
  · conv_lhs => rw [← List.take_append_drop (4 * n) w, hr]
    simp
  · rw [List.length_take]
    omega

/-- The trailer and checksum tests of the source compare the message with the frame of
its own command byte and payload. -/
theorem message_eq_frame_iff {c d x y z t : Byte} {payload r w : List Byte} {n : ℕ}
    (hw : w = [messageStx1, messageStx2, c, d] ++ payload ++ [x, y, z, t] ++ r)
    (hn : payload.length = 4 * n) (hd : d.toNat = n) :
    w.take (4 * n + 8) = frame (w.getD 2 0) ((w.drop 4).take (4 * n)) ↔
      z = messageSync2 ∧ t = messageSync ∧
        crc16Ccitt ((w.drop 2).take (n * 4 + 8 - messageTrailerSize - 2)) = ofLe16 [x, y] := by
  have hcount : wordCount payload = d := by
    apply BitVec.eq_of_toNat_eq
    rw [wordCount, BitVec.toNat_ofNat, hn, hd]
    have := d.isLt
    omega
  have hpay : (w.drop 4).take (4 * n) = payload := by
    rw [hw, ← hn]
    simp
  have hmsg : w.take (4 * n + 8) =
      [messageStx1, messageStx2, c, d] ++ payload ++ [x, y, z, t] := by
    rw [hw, List.take_append_of_le_length (by simp [hn]), List.take_of_length_le (by simp [hn])]
  have hcrc : (w.drop 2).take (n * 4 + 8 - messageTrailerSize - 2) = c :: d :: payload := by
    have hlen : n * 4 + 8 - messageTrailerSize - 2 = payload.length + 2 := by
      rw [messageTrailerSize, hn]
      omega
    rw [hw, hlen]
    simp
  have h2 : w.getD 2 0 = c := by
    rw [hw]
    rfl
  rw [hmsg, hcrc, h2, hpay, frame, hcount]
  constructor
  · intro h
    simp only [List.append_assoc, List.append_cancel_left_eq] at h
    have hle := congrArg (List.take 2) h
    have htr := congrArg (List.drop 2) h
    simp only [le16, List.cons_append, List.nil_append, List.take_succ_cons, List.take_zero,
      List.drop_succ_cons, List.drop_zero, List.cons.injEq, and_true] at hle htr
    refine ⟨htr.1, htr.2, ?_⟩
    rw [hle.1, hle.2]
    exact (ofLe16_le16_append _ []).symm
  · rintro ⟨rfl, rfl, hc⟩
    rw [hc, le16_ofLe16]
    simp

theorem take_two_eq_iff {w : List Byte} (h : 2 ≤ w.length) :
    w.take 2 = [messageStx1, messageStx2] ↔
      w.getD 0 0 = messageStx1 ∧ w.getD 1 0 = messageStx2 := by
  match w, h with
  | a :: b :: w, _ => simp

/-- The last four bytes of a message. -/
theorem getD_trailer {a b c d x y z t : Byte} {payload r w : List Byte} {n i : ℕ}
    (hw : w = [a, b, c, d] ++ payload ++ [x, y, z, t] ++ r) (hn : payload.length = 4 * n)
    (hi : i < 4) : w.getD (n * 4 + 4 + i) 0 = [x, y, z, t].getD i 0 := by
  have hfront : ([a, b, c, d] ++ payload).length = n * 4 + 4 := by
    rw [List.length_append, hn]
    exact (Nat.add_comm _ _).trans (congrArg (· + 4) (Nat.mul_comm 4 n))
  rw [hw, List.append_assoc, List.getD_append_right _ _ _ _ (by omega), hfront,
    Nat.add_sub_cancel_left, List.getD_append _ _ _ _ hi]

/-- Where a whole message with a header is there, the source's tests of its trailer and
checksum are passed exactly by frames. -/
theorem trailer_tests_iff {w : List Byte} {n : ℕ} (hstx : w.take 2 = [messageStx1, messageStx2])
    (hn : (w.getD 3 0).toNat = n) (hlen : 4 * n + 8 ≤ w.length) :
    w.take (4 * n + 8) = frame (w.getD 2 0) ((w.drop 4).take (4 * n)) ↔
      ¬(w.getD (n * 4 + 8 - messageTrailerSync2) 0 ≠ messageSync2 ∨
        w.getD (n * 4 + 8 - messageTrailerSync) 0 ≠ messageSync) ∧
      crc16Ccitt ((w.drop 2).take (n * 4 + 8 - messageTrailerSize - 2)) =
        ((w.getD (n * 4 + 8 - messageTrailerCrc) 0).setWidth 16 |||
          ((w.getD (n * 4 + 8 - messageTrailerCrc + 1) 0).setWidth 16 <<< 8)) := by
  obtain ⟨a, b, c, d, payload, x, y, z, t, r, hw, hp⟩ := exists_message_parts hlen
  obtain ⟨rfl, rfl⟩ : a = messageStx1 ∧ b = messageStx2 := by
    rw [hw] at hstx
    simpa using hstx
  have hd : d.toNat = n := by rw [← hn, hw]; rfl
  have hx : w.getD (n * 4 + 8 - messageTrailerCrc) 0 = x := getD_trailer hw hp (i := 0) (by omega)
  have hy : w.getD (n * 4 + 8 - messageTrailerCrc + 1) 0 = y :=
    getD_trailer hw hp (i := 1) (by omega)
  have hz : w.getD (n * 4 + 8 - messageTrailerSync2) 0 = z :=
    getD_trailer hw hp (i := 2) (by omega)
  have ht : w.getD (n * 4 + 8 - messageTrailerSync) 0 = t :=
    getD_trailer hw hp (i := 3) (by omega)
  rw [hx, hy, hz, ht, or_shiftLeft_eq_ofLe16, message_eq_frame_iff hw hp hd, not_or, not_not,
    not_not, and_assoc]

/-- Outside of resync, the source takes the decision of `blockVerdict`. -/
theorem commandFindBlock_eq {buf : List Byte} {s : SyncState}
    (h : ¬(buf.length ≠ 0 ∧ s.needSync = true)) :
    commandFindBlock buf s =
      match blockVerdict buf with
      | .undecided => needMoreData s
      | .reject => findError buf s
      | .accept k => ⟨1, k, { s with needValid := false }, false⟩ := by
  rw [commandFindBlock, if_neg h, blockVerdict]
  dsimp only
  by_cases hmin : buf.length < messageMin
  · rw [if_pos hmin, if_pos hmin]
  have h8 : 8 ≤ buf.length := not_lt.mp hmin
  have htwo := take_two_eq_iff (w := buf) (by omega)
  have hlen : buf.getD messagePosLen 0 = buf.getD 3 0 := rfl
  obtain ⟨n, hn⟩ : ∃ n, (buf.getD 3 0).toNat = n := ⟨_, rfl⟩
  rw [if_neg hmin, if_neg hmin, hlen, hn]
  by_cases hstx : buf.take 2 = [messageStx1, messageStx2]
  swap
  · -- no header in front
    have hbytes : buf.getD messagePosStx1 0 ≠ messageStx1 ∨
        buf.getD messagePosStx2 0 ≠ messageStx2 := by
      rw [htwo, not_and_or] at hstx
      exact hstx
    rw [if_pos hbytes, if_pos (.inl hstx)]
  have hbytes : ¬(buf.getD messagePosStx1 0 ≠ messageStx1 ∨
      buf.getD messagePosStx2 0 ≠ messageStx2) := by
    rw [not_or, not_not, not_not]
    exact htwo.mp hstx
  rw [if_neg hbytes]
  by_cases hmax : messageMax < 4 * n + 8
  · have hlong : n * 4 + 8 < messageMin ∨ messageMax < n * 4 + 8 := .inr (by omega)
    rw [if_pos hlong, if_pos (.inr hmax)]
  have hadmissible : ¬(n * 4 + 8 < messageMin ∨ messageMax < n * 4 + 8) := by
    rw [messageMin]
    omega
  rw [if_neg (not_or.mpr ⟨not_not.mpr hstx, hmax⟩), if_neg hadmissible]
  by_cases hall : buf.length < 4 * n + 8
  · rw [if_pos hall, if_pos (by omega)]
  rw [if_neg hall, if_neg (by omega)]
  have htests := trailer_tests_iff hstx hn (by omega)
  by_cases hframe : buf.take (4 * n + 8) = frame (buf.getD 2 0) ((buf.drop 4).take (4 * n))
  · obtain ⟨hsync, hcrc⟩ := htests.mp hframe
    rw [if_pos hframe, if_neg hsync, if_neg (not_not.mpr hcrc), Nat.mul_comm n 4]
  · rw [if_neg hframe]
    by_cases hsync : buf.getD (n * 4 + 8 - messageTrailerSync2) 0 ≠ messageSync2 ∨
        buf.getD (n * 4 + 8 - messageTrailerSync) 0 ≠ messageSync
    · rw [if_pos hsync]
    · rw [if_neg hsync, if_pos fun hcrc => hframe (htests.mpr ⟨hsync, hcrc⟩)]

/-! ### Discarding bytes -/

/-- What label `need_sync` does: it answers with `-1` and discards a prefix which holds
no `0x01` from `searchSkip` on; where that is not the whole buffer, the resync state is
left. -/
theorem needSync_spec (buf : List Byte) (s : SyncState) {k : ℕ} (hk : k ≤ buf.length) :
    (needSync buf s k).ret = -1 ∧ k ≤ (needSync buf s k).popCount ∧
      (∀ x ∈ (buf.drop k).take ((needSync buf s k).popCount - k), notStx1 x = true) ∧
      ((needSync buf s k).popCount = buf.length ∨
        ((needSync buf s k).syncState.needSync = false ∧
          buf[(needSync buf s k).popCount]? = some messageStx1)) := by
  cases hf : (buf.drop k).findIdx? (· == messageStx1) with
  | none =>
      have hpop : (needSync buf s k).popCount = buf.length := by
        unfold needSync
        simp only [hf]
        split_ifs <;> rfl
      have hret : (needSync buf s k).ret = -1 := by
        unfold needSync
        dsimp only
        split_ifs <;> rfl
      refine ⟨hret, by omega, ?_, .inl hpop⟩
      intro x hx
      have := (List.findIdx?_eq_none_iff.mp hf) x (List.mem_of_mem_take hx)
      simpa [notStx1] using this
  | some i =>
      obtain ⟨hi, hx, hbefore⟩ := List.findIdx?_eq_some_iff_getElem.mp hf
      have hlt : k < buf.length := by
        rw [List.length_drop] at hi
        omega
      have hpop : (needSync buf s k).popCount = i + k := by
        unfold needSync
        simp only [hf, if_pos hlt]
        split_ifs <;> rfl
      have hret : (needSync buf s k).ret = -1 := by
        unfold needSync
        dsimp only
        split_ifs <;> rfl
      have hsync : (needSync buf s k).syncState.needSync = false := by
        unfold needSync
        simp only [hf, if_pos hlt]
        split_ifs <;> rfl
      refine ⟨hret, by omega, ?_, .inr ⟨hsync, ?_⟩⟩
      · rw [hpop, Nat.add_sub_cancel]
        intro x hx
        obtain ⟨j, hj, rfl⟩ := List.mem_iff_getElem.mp hx
        rw [List.length_take] at hj
        rw [List.getElem_take]
        have := hbefore j (by omega)
        simpa [notStx1] using this
      · rw [hpop, List.getElem?_eq_getElem (by rw [List.length_drop] at hi; omega)]
        rw [List.getElem_drop] at hx
        simp only [beq_iff_eq] at hx
        rw [← hx]
        congr 2
        omega

/-- A rejected position: label `error` discards it together with the bytes after it at
which no frame starts. -/
theorem findError_spec {buf : List Byte} (s : SyncState) (h : buf ≠ []) :
    (findError buf s).ret = -1 ∧ 0 < (findError buf s).popCount ∧
      ∀ x ∈ (buf.drop 1).take ((findError buf s).popCount - 1), notStx1 x = true := by
  have hlen : 0 < buf.length := List.length_pos_iff.mpr h
  unfold findError
  dsimp only
  by_cases hx : 0 < buf.length ∧ buf.getD 0 0 = messageStx1
  · rw [if_pos hx]
    obtain ⟨hret, hpop, hdead, -⟩ :=
      needSync_spec buf { s with needSync := true } (k := 1) hlen
    exact ⟨hret, hpop, hdead⟩
  · rw [if_neg hx]
    obtain ⟨hret, -, hdead, hfound⟩ :=
      needSync_spec buf { s with needSync := true } (k := 0) (Nat.zero_le _)
    have hpos : 0 < (needSync buf { s with needSync := true } 0).popCount := by
      rcases hfound with hall | ⟨-, hfound⟩
      · omega
      · by_contra hc
        obtain hz : (needSync buf { s with needSync := true } 0).popCount = 0 := by omega
        rw [hz] at hfound
        refine hx ⟨hlen, ?_⟩
        rw [List.getD_eq_getElem?_getD, hfound]
        rfl
    refine ⟨hret, hpos, ?_⟩
    intro x hmem
    refine hdead x ?_
    rw [List.drop_zero, Nat.sub_zero]
    rw [← List.drop_take] at hmem
    exact List.mem_of_mem_drop hmem

/-- A rejecting verdict is about a nonempty buffer. -/
theorem findError_of_reject {buf : List Byte} (s : SyncState) (hv : blockVerdict buf = .reject) :
    buf ≠ [] ∧ (findError buf s).ret = -1 ∧ 0 < (findError buf s).popCount ∧
      ∀ x ∈ (buf.drop 1).take ((findError buf s).popCount - 1), notStx1 x = true := by
  have hne : buf ≠ [] := by
    rintro rfl
    rw [← blockClassifier_classify, blockClassifier.nil_undecided] at hv
    cases hv
  exact ⟨hne, findError_spec s hne⟩

/-! ### The specification the receive loops use -/

/-- The function waits exactly when it is not resynchronising and the decision about the
front of the buffer is open. -/
theorem commandFindBlock_ret_eq_zero_iff (buf : List Byte) (s : SyncState) :
    (commandFindBlock buf s).ret = 0 ↔
      ¬(buf.length ≠ 0 ∧ s.needSync = true) ∧ blockVerdict buf = .undecided := by
  by_cases h : buf.length ≠ 0 ∧ s.needSync = true
  · rw [commandFindBlock, if_pos h, (needSync_spec buf s (Nat.zero_le _)).1]
    simp [h]
  · rw [commandFindBlock_eq h]
    cases hv : blockVerdict buf with
    | undecided => exact ⟨fun _ => ⟨h, rfl⟩, fun _ => rfl⟩
    | reject =>
        rw [(findError_of_reject s hv).2.1]
        simp
    | accept k => simp

/-- Waiting leaves buffer and state alone. -/
theorem commandFindBlock_wait {buf : List Byte} {s : SyncState}
    (h : (commandFindBlock buf s).ret = 0) : commandFindBlock buf s = needMoreData s := by
  obtain ⟨hs, hv⟩ := (commandFindBlock_ret_eq_zero_iff buf s).mp h
  rw [commandFindBlock_eq hs, hv]

/-- What a call that finds a frame leaves behind. -/
theorem commandFindBlock_of_pos {buf : List Byte} {s : SyncState}
    (h : 0 < (commandFindBlock buf s).ret) :
    ∃ k, blockVerdict buf = .accept k ∧
      commandFindBlock buf s = ⟨1, k, { s with needValid := false }, false⟩ := by
  by_cases hs : buf.length ≠ 0 ∧ s.needSync = true
  · rw [commandFindBlock, if_pos hs, (needSync_spec buf s (Nat.zero_le _)).1] at h
    exact absurd h (by decide)
  · rw [commandFindBlock_eq hs] at h ⊢
    cases hv : blockVerdict buf with
    | undecided =>
        rw [hv] at h
        exact absurd h (by simp [needMoreData])
    | reject =>
        rw [hv, (findError_of_reject s hv).2.1] at h
        exact absurd h (by decide)
    | accept k => exact ⟨k, rfl, rfl⟩

/-- A positive result means that a frame of `*pop_count` bytes stands at the front. -/
theorem blockVerdict_of_ret_eq_one {buf : List Byte} {s : SyncState}
    (h : (commandFindBlock buf s).ret = 1) :
    blockVerdict buf = .accept (commandFindBlock buf s).popCount := by
  obtain ⟨k, hverdict, hfound⟩ := commandFindBlock_of_pos (by rw [h]; decide)
  rw [hverdict, hfound]

theorem needSync_popCount_le (buf : List Byte) (s : SyncState) {k : ℕ} (hk : k ≤ buf.length) :
    (needSync buf s k).popCount ≤ buf.length := by
  obtain ⟨-, -, -, hall | ⟨-, hfound⟩⟩ := needSync_spec buf s hk
  · exact hall.le
  · exact (List.getElem?_eq_some_iff.mp hfound).1.le

/-- No call counts more bytes than there are. -/
theorem commandFindBlock_popCount_le (buf : List Byte) (s : SyncState) :
    (commandFindBlock buf s).popCount ≤ buf.length := by
  by_cases hs : buf.length ≠ 0 ∧ s.needSync = true
  · rw [commandFindBlock, if_pos hs]
    exact needSync_popCount_le buf s (Nat.zero_le _)
  · rw [commandFindBlock_eq hs]
    cases hv : blockVerdict buf with
    | undecided => exact Nat.zero_le _
    | reject =>
        refine needSync_popCount_le buf _ ?_
        split_ifs with hx
        · exact hx.1
        · exact Nat.zero_le _
    | accept k => exact blockClassifier.accept_le buf k hv

/-- **A call is a step of the greedy decomposition.** Whatever stream the receiver
tracks, it still tracks it once the counted bytes are popped and an accepted block is
passed on. -/
theorem commandFindBlock_tracks {stream buf : List Byte} {out : List (List Byte)}
    (s : SyncState) (h : blockClassifier.Tracks notStx1 stream buf out) :
    blockClassifier.Tracks notStx1 stream (buf.drop (commandFindBlock buf s).popCount)
      (if 0 < (commandFindBlock buf s).ret then
        out ++ [buf.take (commandFindBlock buf s).popCount] else out) := by
  by_cases hs : buf.length ≠ 0 ∧ s.needSync = true
  · rw [commandFindBlock, if_pos hs]
    obtain ⟨hret, -, hdead, -⟩ := needSync_spec buf s (k := 0) (Nat.zero_le _)
    rw [hret, if_neg (by decide)]
    exact h.dropDead blockClassifier_dead hdead
  · rw [commandFindBlock_eq hs]
    cases hv : blockVerdict buf with
    | undecided => simpa [needMoreData] using h
    | reject =>
        obtain ⟨-, hret, hpos, hdead⟩ := findError_of_reject s hv
        dsimp only
        rw [hret, if_neg (by decide)]
        have ht := (h.reject hv).dropDead blockClassifier_dead
          (n := (findError buf s).popCount - 1) (by rwa [List.drop_one] at hdead)
        rw [← List.drop_one, List.drop_drop] at ht
        rwa [show 1 + ((findError buf s).popCount - 1) = (findError buf s).popCount by omega]
          at ht
    | accept k =>
        dsimp only
        rw [if_pos (by decide)]
        exact h.accept hv

/-- The measure that decreases along the receive loop: a call that discards nothing
leaves the resync state. -/
def rxMeasure (buf : List Byte) (s : SyncState) : ℕ := 2 * buf.length + s.needSync.toNat

theorem commandFindBlock_progress {buf : List Byte} {s : SyncState}
    (h : (commandFindBlock buf s).ret ≠ 0) :
    rxMeasure (buf.drop (commandFindBlock buf s).popCount) (commandFindBlock buf s).syncState
      < rxMeasure buf s := by
  have hb : ∀ b : Bool, b.toNat ≤ 1 := Bool.toNat_le
  unfold rxMeasure
  rw [List.length_drop]
  by_cases hs : buf.length ≠ 0 ∧ s.needSync = true
  · rw [commandFindBlock, if_pos hs, hs.2, Bool.toNat_true]
    obtain ⟨-, -, -, hfound⟩ := needSync_spec buf s (k := 0) (Nat.zero_le _)
    rcases hfound with hall | ⟨hsync, -⟩
    · have := hb (needSync buf s 0).syncState.needSync
      omega
    · rw [hsync, Bool.toNat_false]
      omega
  · rw [commandFindBlock_eq hs] at h ⊢
    cases hv : blockVerdict buf with
    | undecided =>
        rw [hv] at h
        exact absurd rfl h
    | reject =>
        obtain ⟨hne, -, hpos, -⟩ := findError_of_reject s hv
        have hlen := List.length_pos_iff.mpr hne
        have := hb (findError buf s).syncState.needSync
        dsimp only
        omega
    | accept k =>
        have hpos := blockClassifier.accept_pos buf k hv
        have hle := blockClassifier.accept_le buf k hv
        dsimp only
        omega

/-! ### A frame in an empty buffer -/

/-- A frame at the front is found, outside of resync. -/
theorem commandFindBlock_frame {cmd : Byte} {payload f : List Byte} (h : IsFrame cmd payload f)
    (hmax : f.length ≤ messageMax) (r : List Byte) (v : Bool) :
    commandFindBlock (f ++ r) ⟨false, v⟩ = ⟨1, f.length, ⟨false, false⟩, false⟩ := by
  have hverdict : blockVerdict (f ++ r) = .accept f.length :=
    (blockVerdict_accept_iff (f ++ r) f.length).mpr ⟨hmax, cmd, payload, f, r, h, rfl, rfl⟩
  rw [commandFindBlock_eq fun hsync => Bool.false_ne_true hsync.2, hverdict]

/-- A header byte at the front ends the resync, without a byte being discarded. -/
theorem commandFindBlock_resync (tail : List Byte) (v : Bool) :
    commandFindBlock (messageStx1 :: tail) ⟨true, v⟩ = ⟨-1, 0, ⟨false, true⟩, !v⟩ := by
  have hfound : (messageStx1 :: tail).findIdx? (· == messageStx1) = some 0 := by
    rw [List.findIdx?_cons, if_pos (beq_self_eq_true messageStx1)]
  have hpos : 0 < (messageStx1 :: tail).length := Nat.succ_pos _
  rw [commandFindBlock, if_pos ⟨Nat.succ_ne_zero _, rfl⟩, needSync, if_pos hpos,
    List.drop_zero, hfound]
  cases v <;> rfl

end Terraboot
