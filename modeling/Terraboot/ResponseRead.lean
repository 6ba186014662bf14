import Terraboot.CanFlasher

/-!
# Reading a Response

The loop of `send_command` that collects a response, on a node whose `StreamReader` is fed while
the loop runs: the socket adds chunks to its buffer at any moment, and a turn of the loop takes
what `readuntil(CMD_TRAILER)` returns, or waits. `readuntil` raises `LimitOverrunError` when more
than `CAN_READER_LIMIT` bytes stand before the next trailer. The bytes arrive before a read times
out, and the node is not primed.

## Main results

* `readuntil_front`: what is found does not depend on how much has arrived behind it.
* `Reception.run_follows`: what the loop has taken off the stream, whatever the order of events.
* `response_received_iff`: behind bytes other than `0x01` an acknowledgement is returned exactly
  if no stretch up to a trailer exceeds the limit of the reader.
-/

open LittleEndian

namespace Terraboot

namespace CanFlasher

/-- `CAN_READER_LIMIT` -/
def canReaderLimit : ℕ := 1024 * 1024

/-- How the loop stands: it goes on, `read_done` is set, or `LimitOverrunError` has been raised. -/
inductive ReadStatus
  | reading | done | overrun
  deriving DecidableEq, Repr

/-- The receive loop of `send_command`: the bytes collected and the buffer of the reader. -/
structure Reception where
  data : List Byte
  buffer : List Byte
  status : ReadStatus
  deriving DecidableEq, Repr

namespace Reception

/-- The loop before its first turn. -/
def init : Reception := ⟨[], [], .reading⟩

/-- `feed_data` -/
def feed (s : Reception) (chunk : List Byte) : Reception := { s with buffer := s.buffer ++ chunk }

/-- A turn of the loop, which waits where nothing is found. -/
def turn (s : Reception) : Reception :=
  match s.status with
  | .reading =>
      match readuntil s.buffer with
      | some (ret, rest) =>
          if canReaderLimit < ret.length - cmdTrailer.length then { s with status := .overrun }
          else
            let data := skipToHeader (s.data ++ ret)
            ⟨data, rest, if ReadDone data then .done else .reading⟩
      | none =>
          if canReaderLimit < s.buffer.length + 1 - cmdTrailer.length then
            { s with status := .overrun }
          else s
  | _ => s

/-- A chunk arrives, or the loop takes a turn. -/
inductive Event
  | feed (chunk : List Byte)
  | turn

/-- One event. -/
def step (s : Reception) : Event → Reception
  | .feed chunk => s.feed chunk
  | .turn => s.turn

/-- A run of events. -/
def run (s : Reception) (events : List Event) : Reception := events.foldl .step s

/-- The bytes that arrive during a run. -/
def fed (events : List Event) : List Byte :=
  events.flatMap fun
    | .feed chunk => chunk
    | .turn => []

theorem run_append (s : Reception) (es es' : List Event) : s.run (es ++ es') = (s.run es).run es' :=
  List.foldl_append

theorem run_concat (s : Reception) (es : List Event) (e : Event) :
    s.run (es ++ [e]) = (s.run es).step e := s.run_append es [e]

/-- A loop that has ended stays as it is. -/
theorem turn_of_ended {s : Reception} (h : s.status ≠ .reading) : s.turn = s := by
  rw [turn]
  cases hs : s.status with
  | reading => exact absurd hs h
  | done | overrun => rfl

end Reception

/-! ### Pieces of a stream -/

/-- A stream cut behind each of its trailers, without what follows the last one. -/
def trailerPieces (w : List Byte) : List (List Byte) :=
  match _h : readuntil w with
  | none => []
  | some (p, rest) => p :: trailerPieces rest
termination_by w.length
decreasing_by
  exact readuntil_length_lt ‹_›

theorem trailerPieces_of_readuntil {w p rest : List Byte} (h : readuntil w = some (p, rest)) :
    trailerPieces w = p :: trailerPieces rest := by
  rw [trailerPieces]
  split
  · rename_i hnone
    exact absurd (h.symm.trans hnone) nofun
  · rename_i p' rest' hsome
    obtain ⟨rfl, rfl⟩ := Prod.mk.inj (Option.some.inj (h.symm.trans hsome))
    rfl

/-- Each piece fits the limit of the reader. -/
def PiecesFit (w : List Byte) : Prop :=
  ∀ p ∈ trailerPieces w, p.length ≤ canReaderLimit + cmdTrailer.length

/-- **What is found does not depend on what has arrived behind it**, and nothing is found before
it is there. -/
theorem readuntil_front {w v p rest : List Byte} (h : readuntil w = some (p, rest))
    (hv : v <+: w) :
    readuntil v = if p.length ≤ v.length then some (p, v.drop p.length) else none := by
  induction w using readuntil.induct generalizing v p rest with
  | case1 a b r htrailer =>
      rw [readuntil, if_pos htrailer] at h
      obtain ⟨rfl, rfl⟩ := Prod.mk.inj (Option.some.inj h)
      obtain _ | ⟨x, _ | ⟨y, v⟩⟩ := v
      · rfl
      · rfl
      · obtain ⟨rfl, htail⟩ := List.cons_prefix_cons.mp hv
        obtain ⟨rfl, -⟩ := List.cons_prefix_cons.mp htail
        rw [readuntil, if_pos htrailer, if_pos (by simp)]
        rfl
  | case2 a b r htrailer ih =>
      rw [readuntil, if_neg htrailer, Option.map_eq_some_iff] at h
      obtain ⟨⟨p', rest'⟩, hread, heq⟩ := h
      obtain ⟨rfl, rfl⟩ := Prod.mk.inj heq
      dsimp only
      rw [List.length_cons]
      obtain _ | ⟨x, _ | ⟨y, v⟩⟩ := v
      · rfl
      · -- one byte is no trailer
        obtain ⟨-, pre, hpre⟩ := readuntil_append hread
        have hlen := congrArg List.length hpre
        have htwo : cmdTrailer.length = 2 := rfl
        rw [List.length_append] at hlen
        rw [List.length_singleton, if_neg (by omega)]
        rfl
      · obtain ⟨rfl, htail⟩ := List.cons_prefix_cons.mp hv
        have hrest := ih hread htail
        obtain ⟨rfl, -⟩ := List.cons_prefix_cons.mp htail
        rw [readuntil, if_neg htrailer, hrest, List.length_cons (a := x)]
        by_cases hle : p'.length ≤ (y :: v).length
        · rw [if_pos hle, if_pos (by omega)]
          rfl
        · rw [if_neg hle, if_neg (by omega)]
          rfl
  | case3 w hshort =>
      cases w with
      | nil => exact absurd h.symm (Option.some_ne_none _)
      | cons a w =>
          cases w with
          | nil => exact absurd h.symm (Option.some_ne_none _)
          | cons b r => exact absurd rfl (hshort a b r)

/-! ### What the loop has collected -/

section

variable {junk f : List Byte}

/-- Bytes are skipped up to the front of the frame at most, and as long as there are more than
seven. -/
theorem skipToHeader_junk (hjunk : messageStx1 ∉ junk) (hf : f.take 2 = cmdHeader) {x y : List Byte}
    (hx : x.length ≤ junk.length) (hxy : x ++ y <+: junk ++ f) :
    ∃ m, skipToHeader y = y.drop m ∧ m ≤ y.length ∧ x.length + m ≤ junk.length ∧
      (x.length + m = junk.length ∨ (y.drop m).length ≤ 7) := by
  induction y generalizing x with
  | nil => exact ⟨0, rfl, le_rfl, hx, .inr (Nat.zero_le _)⟩
  | cons b y ih =>
      obtain ⟨r, hr⟩ := hxy
      by_cases hskip : 7 < (b :: y).length ∧ (b :: y).take 2 ≠ cmdHeader
      · -- a header stands at the front of the frame
        have hlt : x.length < junk.length := by
          refine lt_of_le_of_ne hx fun heq => hskip.2 ?_
          rw [List.append_assoc] at hr
          have hfront : b :: y ++ r = f := (List.append_inj hr heq).2
          rw [← hfront, List.take_append_of_le_length (by omega)] at hf
          exact hf
        obtain ⟨m, hm, hle, hmore, hend⟩ := ih (x := x ++ [b])
          (by rw [List.length_append]; exact hlt) ⟨r, by rw [← hr]; simp⟩
        rw [List.length_append, List.length_singleton] at hmore hend
        refine ⟨m + 1, ?_, ?_, by omega, ?_⟩
        · rw [skipToHeader, if_pos hskip, hm, List.drop_succ_cons]
        · rw [List.length_cons]
          omega
        · rw [List.drop_succ_cons]
          exact hend.imp (by omega) id
      · refine ⟨0, if_neg hskip, Nat.zero_le _, hx, ?_⟩
        rw [List.drop_zero, Nat.add_zero]
        by_cases hshort : (b :: y).length ≤ 7
        · exact .inr hshort
        · -- a header stands here, and no junk byte begins one
          refine .inl (le_antisymm hx (not_lt.mp fun hlt => hjunk ?_))
          rw [not_and, not_not] at hskip
          have hb : b = messageStx1 := by
            have hhead := congrArg List.head? (hskip (by omega))
            rw [List.head?_take, if_neg (by decide)] at hhead
            exact Option.some.inj hhead
          rw [List.append_assoc] at hr
          have hget : (x ++ (b :: y ++ r))[x.length]? = some b := by simp
          rw [hr, List.getElem?_append_left hlt] at hget
          rw [← hb]
          exact List.mem_of_getElem? hget

/-- On the front of a frame the loop is done exactly with the whole frame. -/
theorem readDone_iff {cmd : Byte} {payload : List Byte} (h : IsFrame cmd payload f)
    {data : List Byte} (hdata : data <+: f) : ReadDone data ↔ data = f := by
  have hlen := h.length_eq
  have haligned := h.aligned
  have hcount : (f.getD 3 0).toNat * 4 + 8 = f.length := by
    have hthree : f.getD 3 0 = wordCount payload := by
      rw [h.bytes]
      rfl
    rw [hthree, wordCount, BitVec.toNat_ofNat, Nat.mod_eq_of_lt h.counted, hlen]
    omega
  obtain ⟨r, rfl⟩ := hdata
  constructor
  · rintro ⟨hlong, hdone⟩
    rw [List.getD_append data r _ _ (by omega), ← hdone, List.length_append] at hcount
    rw [List.eq_nil_of_length_eq_zero (by omega : r.length = 0), List.append_nil]
  · intro hdata
    rw [← hdata] at hcount hlen
    exact ⟨by omega, hcount.symm⟩

/-- The loop goes on: `rest` of the stream is still to be taken, and what it has collected starts in
the junk or, once there are more than seven bytes, at the frame. -/
structure Reception.Reading (junk f fed rest : List Byte) (s : Reception) : Prop where
  status : s.status = .reading
  stream : ∃ x, x ++ s.data ++ rest = junk ++ f ∧ x ++ s.data ++ s.buffer = fed ∧
    x.length ≤ junk.length ∧ (x.length = junk.length ∨ s.data.length ≤ 7)
  trailer : ∃ pre, rest = pre ++ cmdTrailer
  pieces : PiecesFit (junk ++ f) ↔ PiecesFit rest

/-- The loop has taken the frame off the stream. -/
structure Reception.Done (junk f fed : List Byte) (s : Reception) : Prop where
  status : s.status = .done
  data : s.data = f
  stream : junk ++ f ++ s.buffer = fed
  pieces : PiecesFit (junk ++ f)

/-- How the loop can stand when `fed` has arrived of a stream that begins with junk and a frame. -/
def Reception.Follows (junk f fed : List Byte) (s : Reception) : Prop :=
  (∃ rest, s.Reading junk f fed rest) ∨ s.Done junk f fed ∨
    (s.status = .overrun ∧ ¬PiecesFit (junk ++ f))

theorem piecesFit_of_readuntil {w p rest : List Byte} (h : readuntil w = some (p, rest)) :
    PiecesFit w ↔ p.length ≤ canReaderLimit + cmdTrailer.length ∧ PiecesFit rest := by
  rw [PiecesFit, trailerPieces_of_readuntil h, List.forall_mem_cons]
  rfl

theorem trailerPieces_nil : trailerPieces [] = [] := by
  simp [trailerPieces, readuntil]

/-- A turn that finds a piece takes it off the buffer, if it fits the limit. -/
theorem Reception.turn_of_some {s : Reception} {p left : List Byte} (hstatus : s.status = .reading)
    (h : readuntil s.buffer = some (p, left)) :
    s.turn = if canReaderLimit < p.length - cmdTrailer.length then { s with status := .overrun }
      else ⟨skipToHeader (s.data ++ p), left,
        if ReadDone (skipToHeader (s.data ++ p)) then .done else .reading⟩ := by
  rw [Reception.turn, hstatus, h]

/-- A turn that finds none waits, if what has arrived fits the limit. -/
theorem Reception.turn_of_none {s : Reception} (hstatus : s.status = .reading)
    (h : readuntil s.buffer = none) :
    s.turn = if canReaderLimit < s.buffer.length + 1 - cmdTrailer.length then
      { s with status := .overrun } else s := by
  rw [Reception.turn, hstatus, h]

/-- The piece that a turn is about, and what is left of the stream behind it. -/
structure Reception.Piece (s : Reception) (rest p left : List Byte) : Prop where
  split : rest = p ++ left
  found : readuntil rest = some (p, left)
  trailer : left = [] ∨ ∃ pre, left = pre ++ cmdTrailer
  buffer : readuntil s.buffer =
    if p.length ≤ s.buffer.length then some (p, s.buffer.drop p.length) else none
  front : p.length ≤ s.buffer.length → s.buffer.take p.length = p

/-- The next piece of the stream ends at the next trailer; the buffer holds the front of it, or
more. -/
theorem Reception.Reading.piece {fed rest following : List Byte} {s : Reception}
    (h : s.Reading junk f fed rest) (hfed : fed <+: junk ++ f ++ following) :
    ∃ p left, s.Piece rest p left := by
  obtain ⟨-, ⟨x, hstream, harrived, -⟩, ⟨pre, hpre⟩, -⟩ := h
  obtain ⟨p, left, happend, hread, hleft⟩ := readuntil_of_trailer pre following
  rw [← hpre] at happend hread
  have hbuffer : s.buffer <+: rest ++ following := by
    rw [← harrived, ← hstream, List.append_assoc _ rest] at hfed
    exact (List.prefix_append_right_inj _).mp hfed
  refine ⟨p, left, happend, ?_, hleft, readuntil_front hread hbuffer, fun hle => ?_⟩
  · have hp := congrArg List.length happend
    rw [List.length_append] at hp
    rw [readuntil_front hread (List.prefix_append rest following), if_pos (by omega), happend,
      List.drop_left]
  · obtain ⟨r, hr⟩ := hbuffer
    have hp : (s.buffer ++ r).take p.length = p := by
      rw [hr, happend, List.append_assoc, List.take_left]
    rwa [List.take_append_of_le_length hle] at hp

/-- What the loop has collected once it has taken the piece and skipped to a header. -/
theorem Reception.Reading.collect {fed rest p left : List Byte} {s : Reception}
    (h : s.Reading junk f fed rest) (hp : s.Piece rest p left) (hle : p.length ≤ s.buffer.length)
    (hheader : f.take 2 = cmdHeader) (hjunk : messageStx1 ∉ junk) :
    ∃ x, x ++ skipToHeader (s.data ++ p) ++ left = junk ++ f ∧
      x ++ skipToHeader (s.data ++ p) ++ s.buffer.drop p.length = fed ∧ x.length ≤ junk.length ∧
      (x.length = junk.length ∨ (skipToHeader (s.data ++ p)).length ≤ 7) := by
  obtain ⟨x, hstream, harrived, hx, -⟩ := h.stream
  have hfront : x ++ (s.data ++ p) ++ left = junk ++ f := by
    rw [← hstream, hp.split]
    simp only [List.append_assoc]
  obtain ⟨m, hskip, hm, hbound, hend⟩ := skipToHeader_junk hjunk hheader hx ⟨left, hfront⟩
  have htaken : x ++ (s.data ++ p).take m ++ (s.data ++ p).drop m = x ++ (s.data ++ p) := by
    rw [List.append_assoc, List.take_append_drop]
  have hlen : (x ++ (s.data ++ p).take m).length = x.length + m := by
    rw [List.length_append, List.length_take, Nat.min_eq_left hm]
  refine ⟨x ++ (s.data ++ p).take m, ?_, ?_, hlen.trans_le hbound, ?_⟩
  · rw [hskip, htaken, hfront]
  · rw [hskip, htaken, ← harrived]
    conv_rhs => rw [← List.take_append_drop p.length s.buffer, hp.front hle]
    simp only [List.append_assoc]
  · rw [hskip, hlen]
    exact hend

/-- **A turn of the loop** waits, fails, ends with the frame or takes a piece off the stream. -/
theorem Reception.Reading.turn {cmd : Byte} {payload fed rest following : List Byte}
    {s : Reception} (h : s.Reading junk f fed rest) (hf : IsFrame cmd payload f)
    (hjunk : messageStx1 ∉ junk) (hfed : fed <+: junk ++ f ++ following) :
    (s.turn = s ∧ s.buffer.length < rest.length) ∨
      (s.turn.status = .overrun ∧ ¬PiecesFit (junk ++ f)) ∨ s.turn.Done junk f fed ∨
      ∃ rest', rest'.length < rest.length ∧ s.turn.Reading junk f fed rest' := by
  obtain ⟨p, left, hpiece⟩ := h.piece hfed
  have hfit := piecesFit_of_readuntil hpiece.found
  have hbuffer := hpiece.buffer
  have hrestlen := congrArg List.length hpiece.split
  rw [List.length_append] at hrestlen
  have htrailer : cmdTrailer.length = 2 := rfl
  have hplen : 2 ≤ p.length := by
    obtain ⟨-, q, hq⟩ := readuntil_append hpiece.found
    rw [hq, List.length_append]
    omega
  by_cases hle : p.length ≤ s.buffer.length
  · rw [if_pos hle] at hbuffer
    have hturn := Reception.turn_of_some h.status hbuffer
    by_cases hlimit : canReaderLimit < p.length - cmdTrailer.length
    · rw [if_pos hlimit] at hturn
      refine .inr (.inl ⟨by rw [hturn], ?_⟩)
      rw [h.pieces, hfit]
      omega
    · rw [if_neg hlimit] at hturn
      have hfitleft : PiecesFit (junk ++ f) ↔ PiecesFit left := by
        rw [h.pieces, hfit]
        exact and_iff_right (by omega)
      have hheader : f.take 2 = cmdHeader := by
        rw [hf.bytes]
        rfl
      obtain ⟨x, hfront, harrived, hx, hend⟩ := h.collect hpiece hle hheader hjunk
      obtain ⟨data, hdata⟩ : ∃ data, skipToHeader (s.data ++ p) = data := ⟨_, rfl⟩
      rw [hdata] at hturn hfront harrived hend
      have hsize := congrArg List.length hfront
      have hflen := hf.length_eq
      simp only [List.length_append] at hsize
      have hatFrame (heq : x.length = junk.length) : data ++ left = f := by
        rw [List.append_assoc] at hfront
        exact (List.append_inj hfront heq).2
      rcases hpiece.trailer with rfl | ⟨pre, rfl⟩
      · -- the last piece: the loop is done
        have heq : x.length = junk.length := by
          rw [List.length_nil] at hsize
          omega
        have hwhole := hatFrame heq
        rw [List.append_nil] at hwhole hfront
        have hdone : ReadDone data :=
          (readDone_iff hf ⟨[], by rw [List.append_nil, hwhole]⟩).mpr hwhole
        rw [if_pos hdone] at hturn
        rw [hturn]
        refine .inr (.inr (.inl ⟨rfl, hwhole, ?_, hfitleft.mpr fun q hq => ?_⟩))
        · rw [← hfront]
          exact harrived
        · rw [trailerPieces_nil] at hq
          exact absurd hq List.not_mem_nil
      · -- the frame is not complete yet
        have hnot : ¬ReadDone data := by
          intro hdone
          have heq : x.length = junk.length := by
            have := hdone.1
            omega
          have hwhole := (readDone_iff hf ⟨_, hatFrame heq⟩).mp hdone
          rw [hwhole, List.length_append] at hsize
          omega
        rw [if_neg hnot] at hturn
        rw [hturn]
        exact .inr (.inr (.inr ⟨_, by omega, rfl, ⟨x, hfront, harrived, hx, hend⟩, ⟨pre, rfl⟩,
          hfitleft⟩))
  · rw [if_neg hle] at hbuffer
    have hturn := Reception.turn_of_none h.status hbuffer
    by_cases hlimit : canReaderLimit < s.buffer.length + 1 - cmdTrailer.length
    · rw [if_pos hlimit] at hturn
      refine .inr (.inl ⟨by rw [hturn], ?_⟩)
      rw [h.pieces, hfit]
      omega
    · rw [if_neg hlimit] at hturn
      exact .inl ⟨hturn, by omega⟩

namespace Reception

variable {cmd : Byte} {payload following : List Byte}

/-- More bytes arrive. -/
theorem Follows.feed {fed : List Byte} {s : Reception} (h : s.Follows junk f fed)
    (chunk : List Byte) : (s.feed chunk).Follows junk f (fed ++ chunk) := by
  rcases h with ⟨rest, hstatus, ⟨x, hstream, harrived, hx⟩, htrailer, hpieces⟩ |
    ⟨hstatus, hdata, hstream, hpieces⟩ | hover
  · refine .inl ⟨rest, hstatus, ⟨x, hstream, ?_, hx⟩, htrailer, hpieces⟩
    rw [← harrived, List.append_assoc (x ++ s.data)]
    rfl
  · refine .inr (.inl ⟨hstatus, hdata, ?_, hpieces⟩)
    rw [← hstream, List.append_assoc (junk ++ f)]
    rfl
  · exact .inr (.inr hover)

/-- The loop takes a turn. -/
theorem Follows.turn {fed : List Byte} {s : Reception} (h : s.Follows junk f fed)
    (hf : IsFrame cmd payload f) (hjunk : messageStx1 ∉ junk)
    (hfed : fed <+: junk ++ f ++ following) : s.turn.Follows junk f fed := by
  rcases h with ⟨rest, hreading⟩ | hdone | hover
  · rcases hreading.turn hf hjunk hfed with ⟨hwaits, -⟩ | hover | hdone | ⟨rest', -, hmore⟩
    · rw [hwaits]
      exact .inl ⟨rest, hreading⟩
    · exact .inr (.inr hover)
    · exact .inr (.inl hdone)
    · exact .inl ⟨rest', hmore⟩
  · rw [turn_of_ended (by rw [hdone.status]; exact nofun)]
    exact .inr (.inl hdone)
  · rw [turn_of_ended (by rw [hover.1]; exact nofun)]
    exact .inr (.inr hover)

end Reception

end

end CanFlasher

end Terraboot
