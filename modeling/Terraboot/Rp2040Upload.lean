import Terraboot.Rp2040Run

/-!
# Uploads to an RP2040 or RP2350

Whether a whole upload succeeds, from any content of the page buffer that an earlier
session may have left. The image always gets into flash. What can go wrong is the answer to
`SEND_EOF`: the number of pages written since reset is returned as an `int`, and the
driver never resets it.

## Main results

* `Rp2040.sendBlocks_run`: the blocks of an upload, each delivered any number of times.
* `Rp2040.upload_pages_stored_iff`: which uploads succeed.
-/

open LittleEndian NorFlash

namespace Terraboot

namespace Rp2040

/-- An RP2040 or RP2350 board. -/
def board (cfg : Config) : Board FlashState Word where
  cfg := cfg
  backend := backend cfg
  timer := .wrapping cfg.clockFreq

/-- The constants are those of one of the two processors. -/
def IsBuild (cfg : Config) : Prop := cfg.IsBuildOf .rp2040 ∨ cfg.IsBuildOf .rp2350

/-- What requests since the last reset can leave in the driver's variables. -/
def Reachable (cfg : Config) (st : FlashState) : Prop :=
  ∃ uuid mem history,
    (serve (board cfg) (Device.init (board cfg) uuid ⟨mem, []⟩) history).backend = st

namespace IsBuild

variable {cfg : Config}

theorem block (h : IsBuild cfg) : cfg.blockSize = 64 := by
  rcases h with h | h <;> exact h.block

theorem flashStart (h : IsBuild cfg) : cfg.flashStart = 0x10000000 := by
  rcases h with h | h <;> exact h.start

theorem launch (h : IsBuild cfg) : cfg.launchAppAddress = 0x10004000 := by
  rcases h with h | h <;> exact List.mem_singleton.mp h.launch

theorem flashEnd (h : IsBuild cfg) : cfg.flashEnd = 0x10200000 := by
  rcases h with h | h <;> (rw [Config.flashEnd, h.start, h.size]; rfl)

theorem inRange_iff (h : IsBuild cfg) (a : ℕ) :
    flashcmdBlockInRange cfg a = true ↔ cfg.launchAppAddress ≤ a ∧ a + 64 ≤ cfg.flashEnd := by
  rcases h with h | h <;> exact h.inRange_iff a

theorem inRange (h : IsBuild cfg) {a : ℕ} (hlo : cfg.launchAppAddress ≤ a)
    (hhi : a + 64 ≤ cfg.flashEnd) : a < 2 ^ 32 ∧ flashcmdBlockInRange cfg a = true := by
  have hend := h.flashEnd
  exact ⟨by omega, (h.inRange_iff a).mpr ⟨hlo, hhi⟩⟩

end IsBuild

variable {cfg : Config}

/-- Whatever is left in the buffer is for a page of the application area. -/
theorem Reachable.bounded (hb : IsBuild cfg) {st : FlashState} (h : Reachable cfg st) :
    st.Bounded cfg.launchAppAddress cfg.flashEnd := by
  obtain ⟨uuid, mem, history, rfl⟩ := h
  have hblock := hb.block
  have hend := hb.flashEnd
  have harea : IsArea cfg cfg.launchAppAddress cfg.flashEnd := by
    rcases hb with h | h
    · exact isArea h (.inl rfl)
    · exact isArea h (.inr rfl)
  have hconfined : (board cfg).backend.Confined cfg.blockSize cfg.launchAppAddress cfg.flashEnd
      (FlashState.Bounded cfg.launchAppAddress cfg.flashEnd) := by
    rw [hblock]
    exact confined harea hblock
  have hsize : cfg.blockSize ≤ cfg.flashEnd := by omega
  exact (Backend.Confined.serve (b := board cfg) hconfined hsize history hconfined.init
    (within_nil _ _)).1

variable {u : Upload Word} {w : Mem} {lo p a : ℕ} {d : Device FlashState Word}

/-! ### Blocks -/

/-- One delivery, by what the driver does. -/
theorem dispatch_sendBlock (hb : IsBuild cfg) (hlo : cfg.launchAppAddress ≤ a)
    (hhi : a + 64 ≤ cfg.flashEnd) {data : List Byte} (h : data.length = 64) (now : Word)
    {st' : FlashState} {f' : Flash}
    (hwrite : flashWriteBlock cfg d.backend d.flash a data = (0, st', f')) :
    Acked (board cfg) d (sendBlock now a data h) ∧
      (serve (board cfg) d [sendBlock now a data h]).backend = st' ∧
      (serve (board cfg) d [sendBlock now a data h]).flash = f' := by
  obtain ⟨ha, hrange⟩ := hb.inRange hlo hhi
  obtain ⟨hbackend, hflash, hacked⟩ :=
    commandDispatch_sendBlock (b := board cfg) hb.block d now ha hrange h
  have hdriver : (board cfg).backend.flashWriteBlock d.backend d.flash a data = (0, st', f') :=
    hwrite
  rw [hdriver] at hbackend hflash hacked
  exact ⟨hacked.mpr le_rfl, hbackend, hflash⟩

/-- The last block again, any number of times. -/
theorem resend_run (hb : IsBuild cfg) (hlo : cfg.launchAppAddress ≤ a)
    (hhi : a + 64 ≤ cfg.flashEnd) (h64 : a % 64 = 0) (times : List Word)
    (hd : Buffered u.image lo p (a + 64) d.backend d.flash) :
    AllAcked (board cfg) d (times.map fun t => sendBlock t a (u.block a) (u.block_length a)) ∧
      Buffered u.image lo p (a + 64)
        (serve (board cfg) d
          (times.map fun t => sendBlock t a (u.block a) (u.block_length a))).backend
        (serve (board cfg) d
          (times.map fun t => sendBlock t a (u.block a) (u.block_length a))).flash ∧
      (serve (board cfg) d (times.map fun t =>
        sendBlock t a (u.block a) (u.block_length a))).backend.pageWriteCount =
        d.backend.pageWriteCount := by
  induction times generalizing d with
  | nil => exact ⟨trivial, hd, rfl⟩
  | cons t ts ih =>
      have hstart := hb.flashStart
      have hlaunch := hb.launch
      obtain ⟨st', hwrite, hbuffered, hcount⟩ :=
        flashWriteBlock_again hb.block h64 (by omega) hhi hd
      obtain ⟨hacked, hbackend, hflash⟩ :=
        dispatch_sendBlock hb hlo hhi (u.block_length a) t hwrite
      obtain ⟨hacks, hbuffered', hcount'⟩ :=
        ih (d := serve (board cfg) d [sendBlock t a (u.block a) (u.block_length a)])
          (by rw [hbackend, hflash]; exact hbuffered)
      rw [hbackend] at hcount'
      exact ⟨⟨hacked, hacks⟩, hbuffered', hcount'.trans hcount⟩

/-- A block whose first delivery succeeds is acknowledged each time. -/
theorem deliveries_run (hb : IsBuild cfg) (hlo : cfg.launchAppAddress ≤ a)
    (hhi : a + 64 ≤ cfg.flashEnd) (h64 : a % 64 = 0) {st' : FlashState} {f' : Flash}
    (hwrite : flashWriteBlock cfg d.backend d.flash a (u.block a) = (0, st', f'))
    (hbuffered : Buffered u.image lo p (a + 64) st' f') :
    AllAcked (board cfg) d (u.deliveries a) ∧
      Buffered u.image lo p (a + 64) (serve (board cfg) d (u.deliveries a)).backend
        (serve (board cfg) d (u.deliveries a)).flash ∧
      (serve (board cfg) d (u.deliveries a)).backend.pageWriteCount = st'.pageWriteCount := by
  obtain ⟨hacked, hbackend, hflash⟩ :=
    dispatch_sendBlock hb hlo hhi (u.block_length a) (u.first a) hwrite
  obtain ⟨hacks, hbuffered', hcount⟩ := resend_run hb hlo hhi h64 (u.again a)
    (d := serve (board cfg) d [sendBlock (u.first a) a (u.block a) (u.block_length a)])
    (by rw [hbackend, hflash]; exact hbuffered)
  rw [hbackend] at hcount
  exact ⟨⟨hacked, hacks⟩, hbuffered', hcount⟩

/-- The pages that begin from `a` on in the next `n` bytes. -/
def pagesBegun (a n : ℕ) : ℕ := (a + n + 255) / 256 - (a + 255) / 256

theorem pagesBegun_step (h64 : a % 64 = 0) (n : ℕ) :
    pagesBegun a (64 + n) = (if a % 256 = 0 then 1 else 0) + pagesBegun (a + 64) n := by
  rw [pagesBegun, pagesBegun]
  split_ifs <;> omega

/-- **The blocks of an upload after the first** are all acknowledged, and stored as far as the
buffer says. -/
theorem sendBlocks_next (hb : IsBuild cfg) (hlo : cfg.launchAppAddress ≤ lo) (k : ℕ)
    (h64 : a % 64 = 0) (hhi : a + 64 * k ≤ cfg.flashEnd)
    (hd : Buffered u.image lo p a d.backend d.flash) :
    AllAcked (board cfg) d (u.sendBlocks a k) ∧
      (∃ p', Buffered u.image lo p' (a + 64 * k) (serve (board cfg) d (u.sendBlocks a k)).backend
        (serve (board cfg) d (u.sendBlocks a k)).flash) ∧
      (serve (board cfg) d (u.sendBlocks a k)).backend.pageWriteCount =
        d.backend.pageWriteCount + BitVec.ofNat 32 (pagesBegun a (64 * k)) := by
  induction k generalizing a p d with
  | zero =>
      have hnone : pagesBegun a (64 * 0) = 0 := by
        rw [pagesBegun]
        omega
      rw [hnone]
      exact ⟨trivial, ⟨p, hd⟩, (BitVec.add_zero _).symm⟩
  | succ k ih =>
      have hstart := hb.flashStart
      have hlaunch := hb.launch
      have hfirst := hd.first
      have hsome := hd.some
      obtain ⟨st', f', hwrite, hbuffered, hcount⟩ :=
        flashWriteBlock_next hb.block h64 (by omega) (by omega) hd
      obtain ⟨hacked, hbuffered', hcount'⟩ :=
        deliveries_run hb (by omega) (by omega) h64 hwrite hbuffered
      obtain ⟨hacks, hrest, hcounts⟩ := ih (by omega) (by omega) hbuffered'
      have hsplit : 64 * (k + 1) = 64 + 64 * k := by omega
      have hend : a + 64 + 64 * k = a + 64 * (k + 1) := by omega
      rw [hend] at hrest
      rw [Upload.sendBlocks, allAcked_append, serve_append, hcounts, hcount', hcount, hsplit,
        pagesBegun_step h64, BitVec.ofNat_add, BitVec.add_assoc]
      rw [hsplit] at hrest
      exact ⟨⟨hacked, hacks⟩, hrest, rfl⟩

/-- **The blocks of an upload** to the application area, from any content of the buffer. -/
theorem sendBlocks_run (hb : IsBuild cfg) (k : ℕ)
    (hfit : cfg.launchAppAddress + 64 * (k + 1) ≤ cfg.flashEnd)
    (hd : d.backend.Bounded cfg.launchAppAddress cfg.flashEnd) :
    AllAcked (board cfg) d (u.sendBlocks cfg.launchAppAddress (k + 1)) ∧
      (∃ p, Buffered u.image cfg.launchAppAddress p (cfg.launchAppAddress + 64 * (k + 1))
        (serve (board cfg) d (u.sendBlocks cfg.launchAppAddress (k + 1))).backend
        (serve (board cfg) d (u.sendBlocks cfg.launchAppAddress (k + 1))).flash) ∧
      (serve (board cfg) d
          (u.sendBlocks cfg.launchAppAddress (k + 1))).backend.pageWriteCount + 1 =
        d.backend.pageWriteCount +
          BitVec.ofNat 32 (staleWrites d.backend cfg.launchAppAddress + (k + 1 + 3) / 4) := by
  have hstart := hb.flashStart
  have hlaunch := hb.launch
  obtain ⟨st', f', hwrite, hbuffered, hcount⟩ := flashWriteBlock_first (w := u.image) hb.block
    (by omega) (by omega) (by omega) hd.length (fun hne => (hd.page hne).1) d.flash
  obtain ⟨hacked, hbuffered', hcount'⟩ :=
    deliveries_run hb le_rfl (by omega) (by omega) hwrite hbuffered
  obtain ⟨hacks, hrest, hcounts⟩ :=
    sendBlocks_next hb le_rfl k (by omega) (by omega) hbuffered'
  have hend : cfg.launchAppAddress + 64 + 64 * k = cfg.launchAppAddress + 64 * (k + 1) := by omega
  have hpages : pagesBegun (cfg.launchAppAddress + 64) (64 * k) + 1 = (k + 1 + 3) / 4 := by
    rw [pagesBegun, hlaunch]
    omega
  rw [hend] at hrest
  rw [Upload.sendBlocks, allAcked_append, serve_append, hcounts, hcount', hcount, ← hpages,
    BitVec.ofNat_add, BitVec.ofNat_add, ← BitVec.add_assoc, ← BitVec.add_assoc]
  exact ⟨⟨hacked, hacks⟩, hrest, rfl⟩

/-! ### The end of the upload -/

variable (cfg) in
/-- An end of upload, by what the driver does. -/
theorem dispatch_sendEof (now : Word) {st' : FlashState} {f' : Flash}
    (hcomplete : flashComplete cfg d.backend d.flash = (st'.pageWriteCount.toInt, st', f')) :
    (Acked (board cfg) d (sendEof now) ↔ 0 ≤ st'.pageWriteCount.toInt) ∧
      (serve (board cfg) d [sendEof now]).backend = st' ∧
      (serve (board cfg) d [sendEof now]).flash = f' := by
  obtain ⟨hbackend, hflash, hacked⟩ := commandDispatch_sendEof (board cfg) d now
  have hdriver : (board cfg).backend.flashComplete d.backend d.flash =
      (st'.pageWriteCount.toInt, st', f') := hcomplete
  rw [hdriver] at hbackend hflash hacked
  exact ⟨hacked, hbackend, hflash⟩

variable (cfg) in
/-- Further ends of the upload are answered like the first, and change nothing. -/
theorem sendEofs_run (times : List Word) (hempty : d.backend.bufferNotEmpty = false) :
    (0 ≤ d.backend.pageWriteCount.toInt → AllAcked (board cfg) d (times.map sendEof)) ∧
      (serve (board cfg) d (times.map sendEof)).flash = d.flash := by
  induction times generalizing d with
  | nil => exact ⟨fun _ => trivial, rfl⟩
  | cons t ts ih =>
      obtain ⟨hacked, hbackend, hflash⟩ :=
        dispatch_sendEof cfg (d := d) t (flashComplete_of_empty cfg hempty d.flash)
      obtain ⟨hacks, hflash'⟩ := ih (d := serve (board cfg) d [sendEof t])
        (by rw [hbackend]; exact hempty)
      rw [hbackend] at hacks
      exact ⟨fun hcount => ⟨hacked.mpr hcount, hacks hcount⟩, hflash'.trans hflash⟩

/-- The pages an upload of `n` blocks makes the driver count. -/
def uploadWrites (st : FlashState) (lo n : ℕ) : ℕ :=
  if n = 0 then st.bufferNotEmpty.toNat else staleWrites st lo + (n + 3) / 4

theorem toInt_ofNat_nonneg_iff (c : Word) (n : ℕ) :
    0 ≤ (c + BitVec.ofNat 32 n).toInt ↔ (c.toNat + n) % 2 ^ 32 < 2 ^ 31 := by
  have hnat : (c + BitVec.ofNat 32 n).toNat = (c.toNat + n) % 2 ^ 32 := by
    rw [BitVec.toNat_add, BitVec.toNat_ofNat, Nat.add_mod_mod]
  rw [BitVec.toInt_eq_toNat_cond, hnat]
  split_ifs with h <;> omega

/-- The first completion after the blocks of an upload. -/
theorem complete_run (hb : IsBuild cfg) (u : Upload Word)
    (hfit : cfg.launchAppAddress + 64 * u.blocks ≤ cfg.flashEnd)
    (hd : d.backend.Bounded cfg.launchAppAddress cfg.flashEnd) :
    AllAcked (board cfg) d (u.sendBlocks cfg.launchAppAddress u.blocks) ∧ ∃ st' f',
      flashComplete cfg (serve (board cfg) d (u.sendBlocks cfg.launchAppAddress u.blocks)).backend
        (serve (board cfg) d (u.sendBlocks cfg.launchAppAddress u.blocks)).flash =
          (st'.pageWriteCount.toInt, st', f') ∧
      st'.bufferNotEmpty = false ∧
      st'.pageWriteCount = d.backend.pageWriteCount +
        BitVec.ofNat 32 (uploadWrites d.backend cfg.launchAppAddress u.blocks) ∧
      ∀ x, InRange cfg.launchAppAddress (64 * u.blocks) x → f'.mem x = u.image x := by
  have hstart := hb.flashStart
  have hlaunch := hb.launch
  obtain ⟨n, hn⟩ : ∃ n, u.blocks = n := ⟨_, rfl⟩
  rw [hn] at hfit ⊢
  cases n with
  | zero =>
      refine ⟨trivial, ?_⟩
      rw [Upload.sendBlocks, uploadWrites, if_pos rfl]
      have hnone : ∀ (g : Flash) x, InRange cfg.launchAppAddress (64 * 0) x → g.mem x = u.image x := by
        rintro g x ⟨h₁, h₂⟩
        omega
      cases hne : d.backend.bufferNotEmpty with
      | false =>
          refine ⟨_, _, flashComplete_of_empty cfg hne _, hne, ?_, hnone _⟩
          exact (BitVec.add_zero _).symm
      | true =>
          have hst := flushBuffer_fst cfg hne d.flash
          refine ⟨_, _, rfl, ?_, ?_, hnone _⟩
          · exact congrArg FlashState.bufferNotEmpty hst
          · exact congrArg FlashState.pageWriteCount hst
  | succ k =>
      obtain ⟨hacked, ⟨p, hbuffered⟩, hcount⟩ := sendBlocks_run (u := u) hb k hfit hd
      obtain ⟨st', f', hcomplete, hempty, hcount', hstored⟩ :=
        flashComplete_buffered cfg (by omega) hbuffered
      rw [uploadWrites, if_neg (Nat.succ_ne_zero k)]
      exact ⟨hacked, st', f', hcomplete, hempty, hcount'.trans hcount, fun x hx =>
        hstored x hx.1 hx.2⟩

/-- **Which uploads succeed.** On every RP2040 and RP2350 build, from every flash content and
everything that earlier requests can leave in the driver's variables, for every image that
fits and every pattern of repeated deliveries: all requests are acknowledged and the image
is in flash afterwards exactly if the number of pages written since reset is not negative as an
`int`. -/
theorem upload_pages_stored_iff (hb : IsBuild cfg) (u : Upload Word) (eofAgain : List Word)
    (hfit : cfg.launchAppAddress + 64 * u.blocks ≤ cfg.flashEnd) {d : Device FlashState Word}
    (hreach : Reachable cfg d.backend) :
    (AllAcked (board cfg) d (u.requests cfg.launchAppAddress ++ eofAgain.map sendEof) ∧
      read (serve (board cfg) d
          (u.requests cfg.launchAppAddress ++ eofAgain.map sendEof)).flash.mem
        cfg.launchAppAddress (64 * u.blocks) =
      read u.image cfg.launchAppAddress (64 * u.blocks)) ↔
    (d.backend.pageWriteCount.toNat +
      uploadWrites d.backend cfg.launchAppAddress u.blocks) % 2 ^ 32 < 2 ^ 31 := by
  obtain ⟨hacked, st', f', hcomplete, hempty, hcount, hstored⟩ :=
    complete_run hb u hfit (hreach.bounded hb)
  obtain ⟨heof, hbackend, hflash⟩ := dispatch_sendEof cfg u.eof hcomplete
  obtain ⟨heofs, hflash'⟩ := sendEofs_run cfg eofAgain
    (d := serve (board cfg) (serve (board cfg) d (u.sendBlocks cfg.launchAppAddress u.blocks))
      [sendEof u.eof]) (by rw [hbackend]; exact hempty)
  rw [hbackend] at heofs
  rw [hflash] at hflash'
  rw [Upload.requests, List.append_assoc, allAcked_append, serve_append, allAcked_append,
    serve_append, allAcked_singleton, heof, hflash', and_iff_right hacked, hcount,
    toInt_ofNat_nonneg_iff]
  constructor
  · exact fun h => h.1.1
  · intro h
    refine ⟨⟨h, heofs ?_⟩, read_congr hstored⟩
    rw [hcount, toInt_ofNat_nonneg_iff]
    exact h

/-! ### A board that is never reset -/

/-- The default choices for an RP2040. -/
def rp2040Config : Config where
  canserial := false
  enableLed := false
  enableDoubleReset := false
  haveBoardCheckDoubleReset := false
  enableButton := false
  -- "rp2040"
  mcu := ⟨[0x72, 0x70, 0x32, 0x30, 0x34, 0x30], by decide⟩
  katapultVersion := releasedVersion
  clockFreq := 12000000
  flashStart := 0x10000000
  flashSize := 0x200000
  launchAppAddress := 0x10004000
  metadataPageSize := 0x400
  blockSize := 64

theorem rp2040Config_isBuild : IsBuild rp2040Config := .inl {
  can := nofun
  clock := ⟨false, rfl⟩
  start := rfl
  size := rfl
  launch := by decide
  block := rfl }

/-- Such a board with blank flash. -/
def rp2040Device : Device FlashState Word :=
  .init (board rp2040Config) someUuid ⟨fun _ => 0xFF, []⟩

/-- The upload of one block. -/
def oneBlock : Upload Word := ⟨fun _ => 0x55, 1, fun _ => 0, fun _ => [], 0⟩

/-- The same block uploaded `k` times. -/
def uploads (k : ℕ) : List (Request Word) :=
  (List.replicate k (oneBlock.requests 0x10004000)).flatten

/-- A block goes onto the blank board, sent twice and ended twice. -/
theorem upload_pages_stored_iff_blank :
    AllAcked (board rp2040Config) rp2040Device
        (Upload.requests ⟨fun _ => 0x55, 1, fun _ => 0, fun _ => [0], 0⟩ 0x10004000 ++
          [0].map sendEof) ∧
      read (serve (board rp2040Config) rp2040Device
        (Upload.requests ⟨fun _ => 0x55, 1, fun _ => 0, fun _ => [0], 0⟩ 0x10004000 ++
          [0].map sendEof)).flash.mem 0x10004000 64 =
      read (fun _ => 0x55) 0x10004000 64 :=
  (upload_pages_stored_iff rp2040Config_isBuild ⟨fun _ => 0x55, 1, fun _ => 0, fun _ => [0], 0⟩ [0]
    (by decide) (d := rp2040Device) ⟨_, _, [], rfl⟩).mpr (by decide)

/-- One more upload of the block counts one page. -/
theorem oneBlock_run {d : Device FlashState Word} (hreach : Reachable rp2040Config d.backend)
    (hempty : d.backend.bufferNotEmpty = false) :
    ∃ st' : FlashState, (AllAcked (board rp2040Config) d (oneBlock.requests 0x10004000) ↔
        0 ≤ st'.pageWriteCount.toInt) ∧
      (serve (board rp2040Config) d (oneBlock.requests 0x10004000)).backend = st' ∧
      st'.bufferNotEmpty = false ∧ st'.pageWriteCount = d.backend.pageWriteCount + 1 := by
  obtain ⟨hacked, st', f', hcomplete, hempty', hcount, -⟩ :=
    complete_run rp2040Config_isBuild oneBlock (by decide) (hreach.bounded rp2040Config_isBuild)
  obtain ⟨heof, hbackend, -⟩ := dispatch_sendEof rp2040Config oneBlock.eof hcomplete
  have hwrites : uploadWrites d.backend rp2040Config.launchAppAddress oneBlock.blocks = 1 := by
    have hstale : staleWrites d.backend rp2040Config.launchAppAddress = 0 := by
      rw [staleWrites, hempty, if_neg fun h => Bool.false_ne_true h.1]
    rw [uploadWrites, hstale]
    rfl
  rw [hwrites] at hcount
  refine ⟨st', ?_, ?_, hempty', hcount⟩
  · rw [Upload.requests, allAcked_append, allAcked_singleton]
    exact (and_iff_right hacked).trans heof
  · rw [Upload.requests, serve_append]
    exact hbackend

theorem uploads_reachable (k : ℕ) :
    Reachable rp2040Config (serve (board rp2040Config) rp2040Device (uploads k)).backend :=
  ⟨_, _, uploads k, rfl⟩

/-- The counter counts every upload. -/
theorem uploads_count (k : ℕ) :
    (serve (board rp2040Config) rp2040Device (uploads k)).backend.bufferNotEmpty = false ∧
      (serve (board rp2040Config) rp2040Device (uploads k)).backend.pageWriteCount =
        BitVec.ofNat 32 k := by
  induction k with
  | zero => exact ⟨rfl, rfl⟩
  | succ k ih =>
      obtain ⟨hempty, hcount⟩ := ih
      obtain ⟨st', -, hbackend, hempty', hcount'⟩ := oneBlock_run (uploads_reachable k) hempty
      have hnext : serve (board rp2040Config) rp2040Device (uploads (k + 1)) =
          serve (board rp2040Config) (serve (board rp2040Config) rp2040Device (uploads k))
            (oneBlock.requests 0x10004000) := by
        rw [uploads, List.replicate_succ', List.flatten_append, List.flatten_singleton,
          serve_append, ← uploads]
      rw [hnext, hbackend, hcount', hcount, BitVec.ofNat_add]
      exact ⟨hempty', rfl⟩

/-- The 2147483648th upload of one and the same block since reset is stored, and answered with an
error. -/
theorem upload_count_overflow :
    ¬AllAcked (board rp2040Config)
      (serve (board rp2040Config) rp2040Device (uploads (2 ^ 31 - 1)))
      (oneBlock.requests 0x10004000) := by
  obtain ⟨k, hk⟩ : ∃ k, k = 2 ^ 31 - 1 := ⟨_, rfl⟩
  rw [← hk]
  obtain ⟨hempty, hcount⟩ := uploads_count k
  obtain ⟨st', hacked, -, -, hcount'⟩ := oneBlock_run (uploads_reachable k) hempty
  have hneg : ¬0 ≤ st'.pageWriteCount.toInt := by
    have hone : (1 : Word) = BitVec.ofNat 32 1 := rfl
    rw [hcount', hcount, hone, toInt_ofNat_nonneg_iff, BitVec.toNat_ofNat, hk]
    decide
  exact fun h => hneg (hacked.mp h)

end Rp2040

end Terraboot
