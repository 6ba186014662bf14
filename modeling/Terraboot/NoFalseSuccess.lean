import Terraboot.FlashLink
import Terraboot.Rp2040Upload

/-!
# No False Success

What a successful `send_file` and `verify_file` say about the flash.

A device that finds the CRC check of a frame failed looks for the next frame within the bytes of
that frame. If it takes none there, success means that the flash holds the file. Otherwise it
does not: the file can hold requests of its own, which the device then answers with responses that
the host takes for the answers to its own.

## Main results

* `verifyFile_stored`: on every link on which the receivers take nothing but frames that have
  reached them intact, success means that the file is in the flash.
* `verifyFile_not_stored`: in general it does not.
-/

open LittleEndian NorFlash

namespace Terraboot

open CanFlasher

variable {S T : Type}

/-! ### A link at rest -/

namespace FlashLink

/-- Nothing is buffered at either end; these frames are on the wire. -/
structure Wire (d : Device S T) (requests responses : List (List Byte)) (s : FlashLink S T) :
    Prop where
  device : s.device = d
  receiveBuf : s.receiveBuf = []
  reader : s.reader = []
  toDevice : s.toDevice = requests
  toHost : s.toHost = responses

variable {b : Board S T} {takes : Taking} {d : Device S T} {s : FlashLink S T}
  {requests responses : List (List Byte)}

theorem Wire.write (h : s.Wire d [] responses) (msg : List Byte) :
    Wire d [msg] responses { s with toDevice := s.toDevice ++ [msg] } :=
  ⟨h.device, h.receiveBuf, h.reader, by rw [h.toDevice, List.nil_append], h.toHost⟩

/-- The steps of the link. -/
abbrev Reaches (b : Board S T) (takes : Taking) : FlashLink S T → FlashLink S T → Prop :=
  Relation.ReflTransGen (Step b takes)

/-- A message is lost on its way to the device. -/
theorem Wire.loseRequest {msg : List Byte} (h : s.Wire d [msg] responses) :
    ∃ t, Reaches b takes s t ∧ t.Wire d [] responses :=
  ⟨_, .single (.loseRequest (show s.toDevice = [] ++ msg :: [] from h.toDevice)),
    h.device, h.receiveBuf, h.reader, rfl, h.toHost⟩

/-- A message is lost on its way to the host. -/
theorem Wire.loseResponse {xs ys : List (List Byte)} {msg : List Byte}
    (h : s.Wire d requests (xs ++ msg :: ys)) :
    ∃ t, Reaches b takes s t ∧ t.Wire d requests (xs ++ ys) :=
  ⟨_, .single (.loseResponse h.toHost), h.device, h.receiveBuf, h.reader, h.toDevice, rfl⟩

/-- `console_task` discards bytes; if it sends a NACK, that is lost. -/
theorem reaches_discard (now : T) {k : ℕ} {sync : SyncState} {nack : Bool}
    (hfind : commandFindBlock s.receiveBuf s.syncState = ⟨-1, k, sync, nack⟩) :
    Reaches b takes s
      { s with receiveBuf := s.receiveBuf.drop k, syncState := sync } := by
  have hstep : Step b takes s (s.consoleTask b now) := by
    refine .console now fun msg hmsg => ?_
    simp [message, hfind] at hmsg
  rw [consoleTask, hfind] at hstep
  refine (Relation.ReflTransGen.single hstep).trans ?_
  cases nack with
  | false =>
      have hsame : s.toHost ++ ([] ++ []) = s.toHost := List.append_nil _
      show Reaches b takes { s with
        receiveBuf := s.receiveBuf.drop k
        syncState := sync
        toHost := s.toHost ++ ([] ++ []) } _
      rw [hsame]
  | true =>
      have hlose : Step b takes
          { s with
            receiveBuf := s.receiveBuf.drop k
            syncState := sync
            toHost := s.toHost ++ [commandRespondNack] }
          { s with
            receiveBuf := s.receiveBuf.drop k
            syncState := sync
            toHost := s.toHost ++ [] } :=
        .loseResponse (show s.toHost ++ [commandRespondNack] = s.toHost ++ _ :: [] from rfl)
      rw [List.append_nil] at hlose
      exact .single hlose

/-- `console_task` dispatches a message. -/
theorem reaches_dispatch (now : T) {k : ℕ} {sync : SyncState}
    (hfind : commandFindBlock s.receiveBuf s.syncState = ⟨1, k, sync, false⟩)
    (htakes : takes s.arrived (s.receiveBuf.take k)) :
    Reaches b takes s { s with
      device := (commandDispatch b now s.device s.receiveBuf k).1
      receiveBuf := s.receiveBuf.drop k
      syncState := sync
      toHost := s.toHost ++ (commandDispatch b now s.device s.receiveBuf k).2
      arrived := behind (s.receiveBuf.take k) s.arrived } := by
  have hstep : Step b takes s (s.consoleTask b now) := by
    refine .console now fun msg hmsg => ?_
    rw [message, hfind] at hmsg
    rwa [← Option.some.inj hmsg]
  rw [consoleTask, hfind] at hstep
  exact .single hstep

/-- A header byte ends the resync. -/
theorem reaches_synced (now : T) {tail : List Byte} (hbuf : s.receiveBuf = messageStx1 :: tail) :
    ∃ v, Reaches b takes s { s with syncState := ⟨false, v⟩ } := by
  obtain ⟨needSync, needValid, hsync⟩ : ∃ x y, s.syncState = ⟨x, y⟩ := ⟨_, _, rfl⟩
  cases needSync with
  | false => exact ⟨needValid, by rw [← hsync]⟩
  | true =>
      refine ⟨true, ?_⟩
      have hfind : commandFindBlock s.receiveBuf s.syncState =
          ⟨-1, 0, ⟨false, true⟩, !needValid⟩ := by
        rw [hbuf, hsync]
        exact commandFindBlock_resync tail needValid
      exact reaches_discard now hfind

/-- A message reaches the device intact. -/
theorem Wire.deliver (htakes : ∀ frames msg, msg ∈ frames → takes frames msg) (now : T)
    {cmd : Byte} {payload msg : List Byte} (hframe : IsFrame cmd payload msg)
    (hmax : msg.length ≤ messageMax) (h : s.Wire d [msg] responses) :
    ∃ t, Reaches b takes s t ∧ t.Wire (commandDispatch b now d msg msg.length).1 []
      (responses ++ (commandDispatch b now d msg msg.length).2) := by
  obtain ⟨device, receiveBuf, sync, reader, toDevice, toHost, arrived, received⟩ := s
  obtain ⟨rfl, rfl, rfl, rfl, rfl⟩ := h
  obtain ⟨tail, htail⟩ : ∃ tail, msg = messageStx1 :: tail := ⟨_, by rw [hframe.bytes]; rfl⟩
  have harrive : Reaches b takes ⟨device, [], sync, [], [msg], toHost, arrived, received⟩
      ⟨device, msg, sync, [], [], toHost, arrived ++ [msg], received⟩ := .single (.arrive rfl)
  obtain ⟨v, hsynced⟩ : ∃ v,
      Reaches b takes ⟨device, msg, sync, [], [], toHost, arrived ++ [msg], received⟩
        ⟨device, msg, ⟨false, v⟩, [], [], toHost, arrived ++ [msg], received⟩ :=
    reaches_synced now htail
  have hfind := commandFindBlock_frame hframe hmax [] v
  rw [List.append_nil] at hfind
  have htaken := reaches_dispatch (b := b)
    (s := ⟨device, msg, ⟨false, v⟩, [], [], toHost, arrived ++ [msg], received⟩) now hfind
    (htakes _ _ (by simp))
  exact ⟨_, (harrive.trans hsynced).trans htaken, rfl, List.drop_length, rfl, rfl, rfl⟩

/-- Bytes have arrived that the device has not looked at yet. -/
structure Loaded (d : Device S T) (buf : List Byte) (sync : SyncState)
    (responses : List (List Byte)) (s : FlashLink S T) : Prop where
  device : s.device = d
  receiveBuf : s.receiveBuf = buf
  syncState : s.syncState = sync
  reader : s.reader = []
  toDevice : s.toDevice = []
  toHost : s.toHost = responses

variable {buf : List Byte} {sync sync' : SyncState}

theorem Loaded.wire (h : s.Loaded d [] sync responses) : s.Wire d [] responses :=
  ⟨h.device, h.receiveBuf, h.reader, h.toDevice, h.toHost⟩

theorem Loaded.discard (h : s.Loaded d buf sync responses) (b : Board S T) (takes : Taking)
    (now : T) {k : ℕ} {nack : Bool} (hfind : commandFindBlock buf sync = ⟨-1, k, sync', nack⟩) :
    ∃ t, Reaches b takes s t ∧ t.Loaded d (buf.drop k) sync' responses := by
  obtain ⟨rfl, rfl, rfl, hreader, htoDevice, rfl⟩ := h
  exact ⟨_, reaches_discard now hfind, rfl, rfl, rfl, hreader, htoDevice, rfl⟩

theorem Loaded.synced (h : s.Loaded d (messageStx1 :: buf) sync responses) (b : Board S T)
    (takes : Taking) (now : T) :
    ∃ v t, Reaches b takes s t ∧ t.Loaded d (messageStx1 :: buf) ⟨false, v⟩ responses := by
  obtain ⟨v, hreach⟩ := reaches_synced (b := b) now h.receiveBuf
  exact ⟨v, _, hreach, h.device, h.receiveBuf, rfl, h.reader, h.toDevice, h.toHost⟩

/-- A device that takes any message takes one that was never sent. -/
theorem Loaded.dispatch {msg : List Byte} {out : List (List Byte)}
    (h : s.Loaded d (msg ++ buf) sync responses) (b : Board S T) (now : T)
    (hfind : commandFindBlock (msg ++ buf) sync = ⟨1, msg.length, sync', false⟩)
    (hout : (commandDispatch b now d msg msg.length).2 = out) :
    ∃ t, Reaches b .any s t ∧
      t.Loaded (commandDispatch b now d msg msg.length).1 buf sync' (responses ++ out) := by
  obtain ⟨rfl, hbuf, rfl, hreader, htoDevice, rfl⟩ := h
  have htake : s.receiveBuf.take msg.length = msg := by rw [hbuf, List.take_left]
  have hdrop : s.receiveBuf.drop msg.length = buf := by rw [hbuf, List.drop_left]
  have hdispatch := commandDispatch_take b now s.device s.receiveBuf msg.length
  rw [htake] at hdispatch
  rw [← hbuf] at hfind
  rw [← hout, hdispatch]
  exact ⟨_, reaches_dispatch now hfind trivial, rfl, hdrop, rfl, hreader, htoDevice, rfl⟩

/-! ### Runs of the host's programs -/

variable {cmd : Command} {payload q : List Byte} {tries : ℕ} {d' : Device S T}
  {responses' : List (List Byte)} {α : Type}

/-- The next response reaches the host intact. -/
theorem Wire.readResponse (b : Board S T) (htakes : ∀ frames msg, msg ∈ frames → takes frames msg)
    {c : Byte} {msg : List Byte} (hframe : IsFrame c q msg)
    (h : s.Wire d requests (msg :: responses))
    (k : Option (List Byte) × Bool → Coroutine α) :
    ∃ t, t.Wire d requests responses ∧ Prog.Run (world b takes)
      ((CanFlasher.readResponse false).bind k) s (k (some msg, false)) t := by
  obtain ⟨device, receiveBuf, sync, reader, toDevice, toHost, arrived, received⟩ := s
  obtain ⟨rfl, rfl, rfl, rfl, rfl⟩ := h
  have hloop : readLoop [] msg = some (msg, []) := by
    have := readLoop_frame hframe []
    rwa [List.append_nil] at this
  have hperform : (world b takes).perform .readFrame
      ⟨device, [], sync, msg, toDevice, responses, arrived, received ++ [msg]⟩
      (some msg : Option (List Byte))
      ⟨device, [], sync, [], toDevice, responses, arrived, behind msg (received ++ [msg])⟩ :=
    ⟨[], hloop, .inl (htakes _ _ (by simp)), rfl⟩
  have hread : Prog.Run (world b takes) ((CanFlasher.readResponse false).bind k) _ _ _ :=
    .op hperform (.refl (k (some msg, false)) _)
  refine ⟨_, ?_, .world (.receive rfl) hread⟩
  exact ⟨rfl, rfl, rfl, rfl, rfl⟩

/-- No response reaches the host in time. -/
theorem Wire.readTimeout (b : Board S T) (takes : Taking) (h : s.Wire d requests responses)
    (k : Option (List Byte) × Bool → Coroutine α) :
    ∃ t, t.Wire d requests responses ∧ Prog.Run (world b takes)
      ((CanFlasher.readResponse false).bind k) s (k (none, false)) t := by
  have hperform : (world b takes).perform .readFrame s (none : Option (List Byte))
      { s with reader := s.reader.drop 0 } := ⟨0, rfl⟩
  exact ⟨_, ⟨h.device, h.receiveBuf, h.reader, h.toDevice, h.toHost⟩,
    .op hperform (.refl (k (none, false)) _)⟩

/-- An attempt that is answered. -/
theorem Wire.sendCommand (htakes : ∀ frames msg, msg ∈ frames → takes frames msg)
    (h : s.Wire d [] responses) {k : ℕ} (hq : q.length = 4 * k) (hk : k + 1 < 256)
    (hreach : ∀ u, Wire d [frame cmd.code payload] responses u → ∃ t, Reaches b takes u t ∧
      t.Wire d' [] (frame ackSuccess (le32 (cmd.code.setWidth 32) ++ q) :: responses')) :
    ∃ t, t.Wire d' [] responses' ∧ Prog.Run (world b takes)
      (CanFlasher.sendCommand cmd payload (tries + 1) false) s (.ret (q, false)) t := by
  have hlen : (le32 (cmd.code.setWidth 32) ++ q).length = 4 * (k + 1) := by
    rw [List.length_append, le32_length, hq]
    omega
  have hframe : IsFrame ackSuccess (le32 (cmd.code.setWidth 32) ++ q) (frame ackSuccess _) :=
    ⟨by omega, by omega, rfl⟩
  obtain ⟨u, hu, hack⟩ := hreach _ (h.write _)
  obtain ⟨t, ht, hread⟩ := hack.readResponse b htakes hframe _
  have hwrite : (world b takes).perform (.write (buildCommand cmd.code payload)) s ()
      { s with toDevice := s.toDevice ++ [frame cmd.code payload] } := by
    rw [buildCommand_eq]
    rfl
  refine ⟨t, ht, .op hwrite ((Prog.Run.worlds hu hread).trans ?_)⟩
  dsimp only
  rw [checkResponse_frame cmd.code hq hk]
  exact .refl _ _

/-- An attempt that is not. -/
theorem Wire.sendCommandTimeout (h : s.Wire d [] responses)
    (hreach : ∀ u, Wire d [frame cmd.code payload] responses u → ∃ t, Reaches b takes u t ∧
      t.Wire d' [] responses') :
    ∃ t, t.Wire d' [] responses' ∧ Prog.Run (world b takes)
      (CanFlasher.sendCommand cmd payload (tries + 1) false) s
      (CanFlasher.sendCommand cmd payload tries false) t := by
  obtain ⟨u, hu, hwire⟩ := hreach _ (h.write _)
  obtain ⟨t, ht, hread⟩ := hwire.readTimeout b takes _
  have hwrite : (world b takes).perform (.write (buildCommand cmd.code payload)) s ()
      { s with toDevice := s.toDevice ++ [frame cmd.code payload] } := by
    rw [buildCommand_eq]
    rfl
  have hclear : (world b takes).perform .clear t () { t with reader := t.reader.drop 1024 } := rfl
  refine ⟨_, ?_, .op hwrite ((Prog.Run.worlds hu hread).trans (.op hclear (.refl _ _)))⟩
  exact ⟨ht.device, ht.receiveBuf, by rw [ht.reader]; rfl, ht.toDevice, ht.toHost⟩

/-- A message that is answered. -/
theorem Wire.deliverAnswered (htakes : ∀ frames msg, msg ∈ frames → takes frames msg) (now : T)
    {c : Byte} {msg : List Byte} (hframe : IsFrame c q msg) (hmax : msg.length ≤ messageMax)
    (h : s.Wire d [msg] responses) {out : List (List Byte)}
    (hout : (commandDispatch b now d msg msg.length).2 = out) :
    ∃ t, Reaches b takes s t ∧
      t.Wire (commandDispatch b now d msg msg.length).1 [] (responses ++ out) := by
  obtain ⟨t, hreach, ht⟩ := h.deliver (b := b) htakes now hframe hmax
  rw [hout] at ht
  exact ⟨t, hreach, ht⟩

/-- A message whose answer is lost. -/
theorem Wire.deliverUnanswered (htakes : ∀ frames msg, msg ∈ frames → takes frames msg) (now : T)
    {c : Byte} {msg ack : List Byte} (hframe : IsFrame c q msg) (hmax : msg.length ≤ messageMax)
    (h : s.Wire d [msg] responses)
    (hout : (commandDispatch b now d msg msg.length).2 = [ack]) :
    ∃ t, Reaches b takes s t ∧ t.Wire (commandDispatch b now d msg msg.length).1 [] responses := by
  obtain ⟨u, hu, hwire⟩ := h.deliverAnswered (b := b) htakes now hframe hmax hout
  obtain ⟨t, ht, hlost⟩ : ∃ t, Reaches b takes u t ∧ _ := hwire.loseResponse
  rw [List.append_nil] at hlost
  exact ⟨t, hu.trans ht, hlost⟩

end FlashLink

/-! ### Programs whose commands are answered -/

namespace CanFlasher

variable {σ : Type} {W : World σ NodeOp NodeOp.Answer} {s t u : σ} {a : Word}
  {payload block : List Byte} {primed primed' : Bool}

theorem packWord_toNat (a : Word) : packWord a.toNat = .ok (le32 a) := by
  rw [packWord, if_pos a.isLt, BitVec.ofNat_toNat, BitVec.setWidth_eq]

theorem unpackWord_of_le32 (a : Word) : unpackWord (le32 a) = .ok a.toNat := by
  have hread := ofLe32_le32_append a []
  rw [List.append_nil] at hread
  rw [unpackWord, if_pos (le32_length a), hread]

theorem sendBlock_run
    (h : Prog.Run W (sendCommand .sendBlock payload 3 primed) s (.ret (le32 a, primed')) t)
    (attempts recdAddr : ℕ) :
    Prog.Run W (sendBlock a.toNat payload (attempts + 1) recdAddr primed) s (.ret primed') t := by
  refine ((h.tryCatch _).bind _).trans ?_
  rw [Prog.tryCatch, Prog.bind]
  dsimp only
  rw [unpackWord_of_le32, lift, Prog.bind, if_pos rfl]
  exact .refl _ _

theorem sendBlocks_run {data rest : List Byte} {c c' : CanFlasher}
    (hne : data.take c.blockSize ≠ [])
    (hblock : data.take c.blockSize ++
      List.replicate (c.blockSize - (data.take c.blockSize).length) 0xFF = block)
    (hdrop : data.drop c.blockSize = rest)
    (h : Prog.Run W (sendBlock a.toNat (le32 a ++ block) 3 0 c.primed) s (.ret primed) u)
    (hrest : Prog.Run W (sendBlocks rest (a.toNat + c.blockSize) { c with
      primed := primed
      fwSha := c.fwSha ++ block
      blockCount := c.blockCount + 1 }) u (.ret c') t) :
    Prog.Run W (sendBlocks data a.toNat c) s (.ret c') t := by
  rw [sendBlocks, dif_neg hne, packWord_toNat, hblock, hdrop]
  exact (h.bind _).trans hrest

theorem sendBlocks_end (a : ℕ) (c : CanFlasher) (s : σ) :
    Prog.Run W (sendBlocks [] a c) s (.ret c) s := by
  rw [sendBlocks, dif_pos List.take_nil]
  exact .refl _ _

theorem sendFile_run {file : List Byte} {c c' : CanFlasher} {pages : Word}
    (h : Prog.Run W (sendBlocks file c.appStartAddr c) s (.ret c') t)
    (heof : Prog.Run W (sendCommand .sendEof [] 5 c'.primed) t (.ret (le32 pages, primed)) u) :
    Prog.Run W (sendFile file c) s (.ret { c' with primed := primed }) u := by
  refine (h.bind _).trans ((heof.bind _).trans ?_)
  rw [Prog.bind]
  dsimp only
  rw [unpackWord_of_le32]
  exact .refl _ _

theorem requestBlock_run
    (h : Prog.Run W (sendCommand .requestBlock (le32 a) 5 primed) s
      (.ret (le32 a ++ block, primed')) t) (i attempts : ℕ) :
    Prog.Run W (requestBlock i a.toNat (attempts + 1) primed) s
      (.ret (le32 a ++ block, primed')) t := by
  rw [requestBlock, packWord_toNat]
  refine (h.bind _).trans ?_
  rw [Prog.bind]
  dsimp only
  rw [List.take_left' (le32_length a), unpackWord_of_le32, lift, Prog.bind, if_pos rfl]
  exact .refl _ _

theorem requestBlocks_run {c : CanFlasher} {n i : ℕ} {verSha verSha' : List Byte}
    (haddr : i * c.blockSize + c.appStartAddr = a.toNat)
    (h : Prog.Run W (sendCommand .requestBlock (le32 a) 5 primed) s
      (.ret (le32 a ++ block, primed)) u)
    (hrest : Prog.Run W (requestBlocks c n (i + 1) (verSha ++ block) primed) u
      (.ret (verSha', primed')) t) :
    Prog.Run W (requestBlocks c (n + 1) i verSha primed) s (.ret (verSha', primed')) t := by
  rw [requestBlocks, haddr]
  refine ((requestBlock_run h i 2).bind _).trans ?_
  rw [Prog.bind]
  dsimp only
  rwa [List.drop_left' (le32_length a)]

theorem verifyFile_run {δ : Type} [DecidableEq δ] {sha1 : List Byte → δ} {c : CanFlasher}
    {verSha : List Byte} (hsha : sha1 verSha = sha1 c.fwSha)
    (h : Prog.Run W (requestBlocks c c.blockCount 0 [] c.primed) s (.ret (verSha, primed)) t) :
    Prog.Run W (verifyFile sha1 c) s (.ret { c with primed := primed }) t := by
  refine (h.bind _).trans ?_
  rw [Prog.bind]
  dsimp only
  rw [if_neg (not_not.mpr hsha)]
  exact .refl _ _

end CanFlasher

/-! ### A file that holds requests -/

namespace Rp2040

/-- What a message makes of the device. -/
def served (d : Device FlashState Word) (msg : List Byte) : Device FlashState Word :=
  (commandDispatch (board rp2040Config) 0 d msg msg.length).1

/-- The tool, connected to such a device. -/
def flasher : CanFlasher := ⟨false, [], 0, 0x10004000, 64⟩

/-- The link before a transfer. -/
def restingLink : FlashLink FlashState Word := ⟨rp2040Device, [], .init, [], [], [], [], []⟩

def firstBlock : List Byte := List.replicate 64 0x55

/-- `SEND_EOF` and two `REQUEST_BLOCK`. -/
def secondBlock : List Byte :=
  frame 0x13 [] ++ frame 0x14 (le32 0x10004000) ++ frame 0x14 (le32 0x10004040)
    ++ List.replicate 32 0xFF

/-- The file, of which the last 32 bytes are padding. -/
def requestsFile : List Byte := (firstBlock ++ secondBlock).take 96

def sendFirst : List Byte := frame 0x12 (le32 0x10004000 ++ firstBlock)
def sendSecond : List Byte := frame 0x12 (le32 0x10004040 ++ secondBlock)
def readFirst : List Byte := frame 0x14 (le32 0x10004000)
def readSecond : List Byte := frame 0x14 (le32 0x10004040)
def eof : List Byte := frame 0x13 []

/-- The second block with a wrong checksum. -/
def damagedSecond : List Byte := sendSecond.take 72 ++ [0x00, 0x00, 0x99, 0x03]

/-- The device when both blocks have arrived. -/
def afterSecond : Device FlashState Word := served (served rp2040Device sendFirst) sendSecond

/-- And when it has taken the three frames out of the damaged block. -/
def afterDamaged : Device FlashState Word :=
  served (served (served afterSecond eof) readFirst) readSecond

/-- What the device sends when it has searched the damaged block for frames. -/
def damagedResponses : List (List Byte) :=
  [frame ackSuccess (le32 0x13 ++ le32 1),
    frame ackSuccess (le32 0x14 ++ (le32 0x10004000 ++ firstBlock)),
    frame ackSuccess (le32 0x14 ++ (le32 0x10004040 ++ secondBlock))]

/-- **The device takes three frames out of the damaged one.** -/
theorem deliverDamaged {s : FlashLink FlashState Word} {responses : List (List Byte)}
    (h : s.Wire afterSecond [sendSecond] responses) :
    ∃ t, FlashLink.Reaches (board rp2040Config) .any s t ∧
      t.Wire afterDamaged [] (responses ++ damagedResponses) := by
  have hcrc : CrcFails damagedSecond := .inr (by decide +kernel)
  obtain ⟨tail, htail⟩ : ∃ tail, damagedSecond = messageStx1 :: tail := ⟨_, rfl⟩
  have harrived : FlashLink.Loaded afterSecond (messageStx1 :: tail) s.syncState responses
      { s with toDevice := [], receiveBuf := s.receiveBuf ++ damagedSecond } :=
    ⟨h.device, by rw [h.receiveBuf, List.nil_append, htail], rfl, h.reader, rfl, h.toHost⟩
  obtain ⟨v, s₀, hreach₀, h₀⟩ := harrived.synced (board rp2040Config) .any 0
  rw [← htail] at h₀
  -- the whole is rejected, what it holds is not
  have hreject : ∀ v, commandFindBlock damagedSecond ⟨false, v⟩ =
      ⟨-1, 8, ⟨false, true⟩, !v⟩ := by decide +kernel
  have hrest : damagedSecond.drop 8 = eof ++ (readFirst ++ (readSecond ++ damagedSecond.drop 40)) := by
    decide +kernel
  have hfind₁ : commandFindBlock (eof ++ (readFirst ++ (readSecond ++ damagedSecond.drop 40)))
      ⟨false, true⟩ = ⟨1, eof.length, ⟨false, false⟩, false⟩ := by decide +kernel
  have hfind₂ : commandFindBlock (readFirst ++ (readSecond ++ damagedSecond.drop 40))
      ⟨false, false⟩ = ⟨1, readFirst.length, ⟨false, false⟩, false⟩ := by decide +kernel
  have hfind₃ : commandFindBlock (readSecond ++ damagedSecond.drop 40) ⟨false, false⟩ =
      ⟨1, readSecond.length, ⟨false, false⟩, false⟩ := by decide +kernel
  have htrash : commandFindBlock (damagedSecond.drop 40) ⟨false, false⟩ =
      ⟨-1, 36, ⟨true, true⟩, true⟩ := by decide +kernel
  have hout₁ : (commandDispatch (board rp2040Config) 0 afterSecond eof eof.length).2 =
      [frame ackSuccess (le32 0x13 ++ le32 1)] := by decide +kernel
  have hout₂ : (commandDispatch (board rp2040Config) 0 (served afterSecond eof) readFirst
      readFirst.length).2 = [frame ackSuccess (le32 0x14 ++ (le32 0x10004000 ++ firstBlock))] := by
    decide +kernel
  have hout₃ : (commandDispatch (board rp2040Config) 0 (served (served afterSecond eof) readFirst)
      readSecond readSecond.length).2 =
      [frame ackSuccess (le32 0x14 ++ (le32 0x10004040 ++ secondBlock))] := by decide +kernel
  obtain ⟨s₁, hreach₁, h₁⟩ := h₀.discard (board rp2040Config) .any 0 (hreject v)
  rw [hrest] at h₁
  obtain ⟨s₂, hreach₂, h₂⟩ := h₁.dispatch (board rp2040Config) 0 hfind₁ hout₁
  obtain ⟨s₃, hreach₃, h₃⟩ := h₂.dispatch (board rp2040Config) 0 hfind₂ hout₂
  obtain ⟨s₄, hreach₄, h₄⟩ := h₃.dispatch (board rp2040Config) 0 hfind₃ hout₃
  obtain ⟨t, hreach, hend⟩ := h₄.discard (board rp2040Config) .any 0 htrash
  refine ⟨t, .head (.arriveCorrupted damagedSecond hcrc h.toDevice) (hreach₀.trans (hreach₁.trans
    (hreach₂.trans (hreach₃.trans (hreach₄.trans hreach))))), ?_⟩
  have hnil : (damagedSecond.drop 40).drop 36 = [] := by decide +kernel
  rw [hnil, List.append_assoc, List.append_assoc] at hend
  exact hend.wire

theorem isFrame_sendBlock (a : Word) {block : List Byte} (h : block.length = 64) :
    IsFrame 0x12 (le32 a ++ block) (frame 0x12 (le32 a ++ block)) := by
  have hlen : (le32 a ++ block).length = 68 := by rw [List.length_append, le32_length, h]
  exact ⟨by omega, by omega, rfl⟩

end Rp2040

/-! ### What a success says -/

/-- **No false success.** Whatever is lost, corrupted or late: when `send_file` and then
`verify_file` have returned, the flash holds the file, padded to whole blocks, if the receivers
take nothing but frames that have reached them intact. -/
theorem verifyFile_stored {b : Board S T} {m : Mach} (hcfg : b.cfg.IsBuildOf m) {δ : Type}
    [DecidableEq δ] {sha1 : List Byte → δ} {file : List Byte} {c c' : CanFlasher}
    (hsize : c.blockSize ∈ [64, 128, 256, 512]) (hsha : c.fwSha = []) (hcount : c.blockCount = 0)
    (hcollision : ∀ image, sha1 image = sha1 (FrameLink.padFile c.blockSize file) →
      image = FrameLink.padFile c.blockSize file)
    {s t : FlashLink S T} (hs : s.frames.Quiet)
    (hrun : Prog.Run (FlashLink.world b .intact) ((sendFile file c).bind (verifyFile sha1)) s
      (.ret c') t) :
    read t.device.flash.mem c.appStartAddr (FrameLink.padFile c.blockSize file).length =
      FrameLink.padFile c.blockSize file := by
  have hpos : 0 < c.blockSize := by
    simp only [List.mem_cons, List.not_mem_nil, or_false] at hsize
    omega
  exact FrameLink.sendFile_verifyFile_triple hcfg.block hpos hsha hcount hcollision s.frames c'
    t.frames hs (FlashLink.run_frames hrun)

namespace Rp2040

/-- A digest that tells every other image apart from the first block; of that it is the SHA-1. -/
def firstBlockSha1 (image : List Byte) : List Byte :=
  if image = firstBlock then
    [0x82, 0x74, 0x8c, 0xdf, 0x32, 0xf4, 0x4f, 0x2b, 0x40, 0xfb, 0xf7, 0x48, 0x8f, 0x19, 0xf5, 0x22,
      0x62, 0x9c, 0xbe, 0xf7]
  else image ++ List.replicate 21 0

theorem firstBlockSha1_inj {image : List Byte}
    (h : firstBlockSha1 image = firstBlockSha1 firstBlock) : image = firstBlock := by
  by_contra hne
  have hlen := congrArg List.length h
  rw [firstBlockSha1, firstBlockSha1, if_neg hne, if_pos rfl, List.length_append,
    List.length_replicate] at hlen
  simp only [List.length_cons, List.length_nil] at hlen
  omega

/-- One block is sent and verified. -/
theorem verifyFile_stored_firstBlock : ∃ c' t,
    Prog.Run (FlashLink.world (board rp2040Config) .intact)
      ((sendFile firstBlock flasher).bind (verifyFile firstBlockSha1)) restingLink (.ret c') t ∧
    read t.device.flash.mem flasher.appStartAddr 64 = firstBlock := by
  have htakes : ∀ frames msg, msg ∈ frames → Taking.intact frames msg := fun _ _ h => h
  have hsendFirst : IsFrame 0x12 (le32 0x10004000 ++ firstBlock) sendFirst :=
    isFrame_sendBlock _ (by decide)
  have heof : IsFrame 0x13 [] eof := ⟨by decide, by decide, rfl⟩
  have hreadFirst : IsFrame 0x14 (le32 0x10004000) readFirst := ⟨by decide, by decide, rfl⟩
  have hstart : restingLink.Wire rp2040Device [] [] := ⟨rfl, rfl, rfl, rfl, rfl⟩
  have hout₁ : (commandDispatch (board rp2040Config) 0 rp2040Device sendFirst
      sendFirst.length).2 = [frame ackSuccess (le32 0x12 ++ le32 0x10004000)] := by decide +kernel
  have hout₂ : (commandDispatch (board rp2040Config) 0 (served rp2040Device sendFirst) eof
      eof.length).2 = [frame ackSuccess (le32 0x13 ++ le32 1)] := by decide +kernel
  have hout₃ : (commandDispatch (board rp2040Config) 0 (served (served rp2040Device sendFirst) eof)
      readFirst readFirst.length).2 =
      [frame ackSuccess (le32 0x14 ++ (le32 0x10004000 ++ firstBlock))] := by decide +kernel
  obtain ⟨s₁, h₁, hrun₁⟩ : ∃ t, FlashLink.Wire (served rp2040Device sendFirst) [] [] t ∧
      Prog.Run (FlashLink.world (board rp2040Config) .intact)
        (sendCommand .sendBlock (le32 0x10004000 ++ firstBlock) 3 false) restingLink
        (.ret (le32 0x10004000, false)) t :=
    hstart.sendCommand htakes (k := 1) (le32_length _) (by omega) fun u hu =>
      hu.deliverAnswered htakes 0 hsendFirst (by decide) hout₁
  obtain ⟨s₂, h₂, hrun₂⟩ : ∃ t, FlashLink.Wire (served (served rp2040Device sendFirst) eof) [] []
        t ∧
      Prog.Run (FlashLink.world (board rp2040Config) .intact) (sendCommand .sendEof [] 5 false) s₁
        (.ret (le32 1, false)) t :=
    h₁.sendCommand htakes (k := 1) (le32_length _) (by omega) fun u hu =>
      hu.deliverAnswered htakes 0 heof (by decide) hout₂
  obtain ⟨s₃, h₃, hrun₃⟩ : ∃ t, FlashLink.Wire
        (served (served (served rp2040Device sendFirst) eof) readFirst) [] [] t ∧
      Prog.Run (FlashLink.world (board rp2040Config) .intact)
        (sendCommand .requestBlock (le32 0x10004000) 5 false) s₂
        (.ret (le32 0x10004000 ++ firstBlock, false)) t :=
    h₂.sendCommand htakes (k := 17) (by decide) (by omega) fun u hu =>
      hu.deliverAnswered htakes 0 hreadFirst (by decide) hout₃
  have hblock : Prog.Run (FlashLink.world (board rp2040Config) .intact)
      (CanFlasher.sendBlock flasher.appStartAddr (le32 0x10004000 ++ firstBlock) 3 0 false)
      restingLink (.ret false) s₁ := sendBlock_run hrun₁ 2 0
  have hsend : Prog.Run (FlashLink.world (board rp2040Config) .intact)
      (sendBlocks firstBlock flasher.appStartAddr flasher) restingLink
      (.ret ⟨false, firstBlock, 1, 0x10004000, 64⟩) s₁ :=
    CanFlasher.sendBlocks_run (a := 0x10004000) (by decide) (by decide +kernel) rfl hblock
      (sendBlocks_end _ _ _)
  have hverify : Prog.Run (FlashLink.world (board rp2040Config) .intact)
      (verifyFile firstBlockSha1 ⟨false, firstBlock, 1, 0x10004000, 64⟩) s₂
      (.ret ⟨false, firstBlock, 1, 0x10004000, 64⟩) s₃ :=
    verifyFile_run rfl (requestBlocks_run (a := 0x10004000) rfl hrun₃ (.refl _ _))
  have hrun := ((sendFile_run hsend hrun₂).bind (verifyFile firstBlockSha1)).trans hverify
  have hpad : FrameLink.padFile flasher.blockSize firstBlock = firstBlock := by decide +kernel
  have hquiet : restingLink.frames.Quiet :=
    ⟨by simp [restingLink, FlashLink.frames], by simp [restingLink, FlashLink.frames]⟩
  refine ⟨_, s₃, hrun, ?_⟩
  rcases rp2040Config_isBuild with hcfg | hcfg
  · have hstored := verifyFile_stored hcfg (by decide) rfl rfl
      (fun image h => by rw [hpad] at h ⊢; exact firstBlockSha1_inj h) hquiet hrun
    rwa [hpad] at hstored
  · have hstored := verifyFile_stored hcfg (by decide) rfl rfl
      (fun image h => by rw [hpad] at h ⊢; exact firstBlockSha1_inj h) hquiet hrun
    rwa [hpad] at hstored

/-- A link on which the device takes any message. -/
abbrev anyWorld : World (FlashLink FlashState Word) NodeOp NodeOp.Answer :=
  FlashLink.world (board rp2040Config) .any

/-- **A false success.** The acknowledgement of the second block is late; the block is sent again
and arrives damaged, and again. The device finds the requests in the damaged block and answers
them, and then receives the block for the third time and `SEND_EOF`, which clears the flash under
the first block. The host takes the old answers for the answers to its own requests. -/
theorem verifyFile_not_stored : restingLink.frames.Quiet ∧ ∃ c' t,
    Prog.Run anyWorld ((sendFile requestsFile flasher).bind (verifyFile id)) restingLink
      (.ret c') t ∧
    read t.device.flash.mem flasher.appStartAddr
        (FrameLink.padFile flasher.blockSize requestsFile).length ≠
      FrameLink.padFile flasher.blockSize requestsFile := by
  have htakes : ∀ frames msg, msg ∈ frames → Taking.any frames msg := fun _ _ _ => trivial
  have hsendFirst : IsFrame 0x12 (le32 0x10004000 ++ firstBlock) sendFirst :=
    isFrame_sendBlock _ (by decide)
  have hsendSecond : IsFrame 0x12 (le32 0x10004040 ++ secondBlock) sendSecond :=
    isFrame_sendBlock _ (by decide)
  have heof : IsFrame 0x13 [] eof := ⟨by decide, by decide, rfl⟩
  have hstart : restingLink.Wire rp2040Device [] [] := ⟨rfl, rfl, rfl, rfl, rfl⟩
  -- what the device answers
  have hout₁ : (commandDispatch (board rp2040Config) 0 rp2040Device sendFirst
      sendFirst.length).2 = [frame ackSuccess (le32 0x12 ++ le32 0x10004000)] := by decide +kernel
  have hout₂ : (commandDispatch (board rp2040Config) 0 (served rp2040Device sendFirst) sendSecond
      sendSecond.length).2 = [frame ackSuccess (le32 0x12 ++ le32 0x10004040)] := by decide +kernel
  have hout₃ : (commandDispatch (board rp2040Config) 0 afterDamaged sendSecond
      sendSecond.length).2 = [frame ackSuccess (le32 0x12 ++ le32 0x10004040)] := by decide +kernel
  have hout₄ : (commandDispatch (board rp2040Config) 0 (served afterDamaged sendSecond) eof
      eof.length).2 = [frame ackSuccess (le32 0x13 ++ le32 2)] := by decide +kernel
  obtain ⟨s₁, h₁, hrun₁⟩ : ∃ t, FlashLink.Wire (served rp2040Device sendFirst) [] [] t ∧
      Prog.Run anyWorld (sendCommand .sendBlock (le32 0x10004000 ++ firstBlock) 3 false)
        restingLink (.ret (le32 0x10004000, false)) t :=
    hstart.sendCommand htakes (k := 1) (le32_length _) (by omega) fun u hu =>
      hu.deliverAnswered htakes 0 hsendFirst (by decide) hout₁
  -- the second block: an acknowledgement that is late, a damaged block, and once more
  obtain ⟨s₂, h₂, hrun₂⟩ : ∃ t, FlashLink.Wire afterSecond []
        [frame ackSuccess (le32 0x12 ++ le32 0x10004040)] t ∧
      Prog.Run anyWorld (sendCommand .sendBlock (le32 0x10004040 ++ secondBlock) 3 false) s₁
        (sendCommand .sendBlock (le32 0x10004040 ++ secondBlock) 2 false) t :=
    h₁.sendCommandTimeout fun u hu =>
      hu.deliverAnswered htakes 0 hsendSecond (by decide) hout₂
  obtain ⟨s₃, h₃, hrun₃⟩ : ∃ t, FlashLink.Wire afterDamaged []
        (frame ackSuccess (le32 0x12 ++ le32 0x10004040) :: damagedResponses) t ∧
      Prog.Run anyWorld (sendCommand .sendBlock (le32 0x10004040 ++ secondBlock) 2 false) s₂
        (sendCommand .sendBlock (le32 0x10004040 ++ secondBlock) 1 false) t :=
    h₂.sendCommandTimeout fun u hu => deliverDamaged hu
  obtain ⟨s₄, h₄, hrun₄⟩ : ∃ t, FlashLink.Wire (served afterDamaged sendSecond) []
        damagedResponses t ∧
      Prog.Run anyWorld (sendCommand .sendBlock (le32 0x10004040 ++ secondBlock) 1 false) s₃
        (.ret (le32 0x10004040, false)) t :=
    h₃.sendCommand htakes (k := 1) (le32_length _) (by omega) fun u hu =>
      hu.deliverUnanswered htakes 0 hsendSecond (by decide) hout₃
  obtain ⟨s₅, h₅, hrun₅⟩ : ∃ t, FlashLink.Wire (served (served afterDamaged sendSecond) eof) []
        (damagedResponses.drop 1) t ∧
      Prog.Run anyWorld (sendCommand .sendEof [] 5 false) s₄ (.ret (le32 1, false)) t :=
    h₄.sendCommand htakes (k := 1) (le32_length _) (by omega) fun u hu =>
      hu.deliverUnanswered htakes 0 heof (by decide) hout₄
  -- the requests of the host are lost
  obtain ⟨s₆, h₆, hrun₆⟩ : ∃ t, FlashLink.Wire (served (served afterDamaged sendSecond) eof) []
        (damagedResponses.drop 2) t ∧
      Prog.Run anyWorld (sendCommand .requestBlock (le32 0x10004000) 5 false) s₅
        (.ret (le32 0x10004000 ++ firstBlock, false)) t :=
    h₅.sendCommand htakes (k := 17) (by decide) (by omega) fun u hu => hu.loseRequest
  obtain ⟨s₇, h₇, hrun₇⟩ : ∃ t, FlashLink.Wire (served (served afterDamaged sendSecond) eof) []
        [] t ∧
      Prog.Run anyWorld (sendCommand .requestBlock (le32 0x10004040) 5 false) s₆
        (.ret (le32 0x10004040 ++ secondBlock, false)) t :=
    h₆.sendCommand htakes (k := 17) (by decide) (by omega) fun u hu => hu.loseRequest
  -- put together
  have hblock₁ : Prog.Run anyWorld (CanFlasher.sendBlock flasher.appStartAddr
      (le32 0x10004000 ++ firstBlock) 3 0 false) restingLink (.ret false) s₁ :=
    sendBlock_run hrun₁ 2 0
  have hblock₂ : Prog.Run anyWorld (CanFlasher.sendBlock (flasher.appStartAddr + 64)
      (le32 0x10004040 ++ secondBlock) 3 0 false) s₁ (.ret false) s₄ :=
    sendBlock_run (hrun₂.trans (hrun₃.trans hrun₄)) 2 0
  have hrest : Prog.Run anyWorld (sendBlocks (requestsFile.drop 64) (flasher.appStartAddr + 64)
      ⟨false, firstBlock, 1, 0x10004000, 64⟩) s₁
      (.ret ⟨false, firstBlock ++ secondBlock, 2, 0x10004000, 64⟩) s₄ :=
    CanFlasher.sendBlocks_run (a := 0x10004040) (by decide) (by decide +kernel) (by decide +kernel) hblock₂
      (sendBlocks_end _ _ _)
  have hsend : Prog.Run anyWorld (sendBlocks requestsFile flasher.appStartAddr flasher)
      restingLink (.ret ⟨false, firstBlock ++ secondBlock, 2, 0x10004000, 64⟩) s₄ :=
    CanFlasher.sendBlocks_run (a := 0x10004000) (by decide) (by decide +kernel) rfl hblock₁ hrest
  have hverify : Prog.Run anyWorld
      (verifyFile id ⟨false, firstBlock ++ secondBlock, 2, 0x10004000, 64⟩) s₅
      (.ret ⟨false, firstBlock ++ secondBlock, 2, 0x10004000, 64⟩) s₇ :=
    verifyFile_run rfl (requestBlocks_run (a := 0x10004000) rfl hrun₆
      (requestBlocks_run (a := 0x10004040) rfl hrun₇ (.refl _ _)))
  refine ⟨⟨by simp [restingLink, FlashLink.frames], by simp [restingLink, FlashLink.frames]⟩, _, s₇,
    ((sendFile_run hsend hrun₅).bind _).trans hverify, ?_⟩
  have hbyte : (served (served afterDamaged sendSecond) eof).flash.mem flasher.appStartAddr =
      0xFF := by decide +kernel
  rw [h₇.device]
  intro heq
  have hhead := congrArg (fun l : List Byte => l.getD 0 0) heq
  have hfirst : (FrameLink.padFile flasher.blockSize requestsFile).getD 0 0 = 0x55 := by
    decide +kernel
  have hread : (read (served (served afterDamaged sendSecond) eof).flash.mem flasher.appStartAddr
      (FrameLink.padFile flasher.blockSize requestsFile).length).getD 0 0 = 0xFF := by
    rw [read_getD _ _ (by decide +kernel), Nat.add_zero]
    exact hbyte
  exact absurd (hread.symm.trans (hhead.trans hfirst)) (by decide)

end Rp2040

end Terraboot
