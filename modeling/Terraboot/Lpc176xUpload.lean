import Terraboot.Lpc176xRun

/-!
# Uploads to an LPC176x

Whether a whole upload succeeds. A block that is delivered again is refused, because
`next_address` has moved on: the first lost acknowledgement ends the upload. If every
block arrives once, each unit has to be the first of its sector, or find its place blank
as far as the driver looks and as far as the data goes, or be there already.

## Main results

* `Lpc176x.deliveries_again`: no block can be delivered twice.
* `Lpc176x.upload_units_stored_iff`: which uploads succeed.
-/

open LittleEndian NorFlash Paging

namespace Terraboot

namespace Lpc176x

/-- An LPC176x board. -/
def board (rom : IapRom) (cfg : Config) : Board FlashState Word where
  cfg := cfg
  backend := backend rom cfg.blockSize
  timer := .wrapping cfg.clockFreq

/-- The constants are those of one of the two LPC176x processors. -/
def IsBuild (cfg : Config) : Prop := cfg.IsBuildOf .lpc1768 ∨ cfg.IsBuildOf .lpc1769

namespace IsBuild

variable {cfg : Config}

theorem block (h : IsBuild cfg) : cfg.blockSize = 64 := by
  rcases h with h | h <;> exact h.block

theorem launch (h : IsBuild cfg) : cfg.launchAppAddress = 0x4000 := by
  rcases h with h | h <;> exact List.mem_singleton.mp h.launch

theorem flashEnd (h : IsBuild cfg) : cfg.flashEnd = 0x80000 := by
  rcases h with h | h <;> (rw [Config.flashEnd, h.start, h.size]; rfl)

/-- The application area starts with a sector. -/
theorem launch_aligned (h : IsBuild cfg) : sectorMap.Aligned cfg.launchAppAddress := by
  rw [h.launch]
  rfl

theorem inRange_iff (h : IsBuild cfg) (a : ℕ) :
    flashcmdBlockInRange cfg a = true ↔ cfg.launchAppAddress ≤ a ∧ a + 64 ≤ cfg.flashEnd := by
  rcases h with h | h <;> exact h.inRange_iff a

theorem inRange (h : IsBuild cfg) {a : ℕ} (hlo : cfg.launchAppAddress ≤ a)
    (hhi : a + 64 ≤ cfg.flashEnd) : a < 2 ^ 32 ∧ flashcmdBlockInRange cfg a = true := by
  have hend := h.flashEnd
  exact ⟨by omega, (h.inRange_iff a).mpr ⟨hlo, hhi⟩⟩

end IsBuild

/-! ### No block can be delivered twice -/

/-- A block that is taken moves `next_address` on. -/
theorem nextAddress_of_taken {rom : IapRom} {st st' : FlashState} {f f' : Flash} {a : ℕ}
    {data : List Byte} {ret : ℤ} (ha : a < 2 ^ 32)
    (h : flashWriteBlock rom 64 st f a data = (ret, st', f')) (hret : 0 ≤ ret) :
    st'.nextAddress = a + 64 := by
  have hbuffer : ∀ s : FlashState, s.nextAddress = a →
      bufferBlock rom 64 s f a data = (ret, st', f') → st'.nextAddress = a + 64 := by
    intro s hs hb
    rw [bufferBlock] at hb
    dsimp only at hb
    split_ifs at hb with hlast hneg
    · rw [hb] at hneg
      exact absurd hret (Int.not_le.mpr hneg)
    · obtain ⟨r, c, g, hwrite, -⟩ := writeBuffer_cases rom
        { s with iapBuf := overwrite s.iapBuf (a &&& (iapBufMinSize - 1)) data } f
        (a := a - (a &&& (iapBufMinSize - 1))) (by omega)
        (overwrite s.iapBuf (a &&& (iapBufMinSize - 1)) data)
      rw [hwrite] at hb
      obtain ⟨-, rfl, -⟩ := Prod.mk.injEq .. ▸ hb
      exact congrArg (· + 64) hs
    · obtain ⟨-, rfl, -⟩ := Prod.mk.injEq .. ▸ hb
      exact congrArg (· + 64) hs
  have hfail : ∀ n : ℤ, n < 0 → (n, st, f) ≠ (ret, st', f') := by
    rintro n hn heq
    have : n = ret := congrArg Prod.fst heq
    omega
  rw [flashWriteBlock] at h
  split_ifs at h with haligned hsize hnext hunits
  · exact absurd h (hfail (-1) (by decide))
  · exact absurd h (hfail (-2) (by decide))
  · exact hbuffer _ rfl h
  · exact hbuffer _ (not_not.mp hnext).symm h
  · exact absurd (show 64 < iapBufMinSize by decide) hsize

/-- The block before `next_address` is out of order. -/
theorem flashWriteBlock_again (rom : IapRom) {st : FlashState} (f : Flash) {a : ℕ}
    (h64 : a % 64 = 0) (hnext : st.nextAddress = a + 64) (data : List Byte) :
    flashWriteBlock rom 64 st f a data = (-2, st, f) := by
  have haligned : a &&& (64 - 1) = 0 := by rw [and_63, h64]
  have hneq : a ≠ a + 64 := by omega
  have hunits : (a ||| (a + 64)) &&& (iapBufMinSize - 1) ≠ 0 := by
    rw [Nat.and_or_distrib_right]
    have h₁ : a &&& (iapBufMinSize - 1) = a % 256 := and_255 a
    have h₂ : (a + 64) &&& (iapBufMinSize - 1) = (a + 64) % 256 := and_255 _
    intro hzero
    obtain ⟨hz₁, hz₂⟩ := Nat.or_eq_zero_iff.mp hzero
    omega
  rw [flashWriteBlock, haligned, if_neg (not_not.mpr rfl), if_pos (by decide), hnext,
    if_pos hneq, if_pos hunits]

variable {rom : IapRom} {cfg : Config} {u : Upload Word}

theorem board_backend (hblock : cfg.blockSize = 64) :
    (board rom cfg).backend = backend rom 64 := by
  rw [← hblock]
  rfl

theorem board_flashWriteBlock (hblock : cfg.blockSize = 64) (st : FlashState) (f : Flash) (a : ℕ)
    (data : List Byte) : (board rom cfg).backend.flashWriteBlock st f a data =
      flashWriteBlock rom 64 st f a data := by
  rw [board_backend hblock]
  rfl

/-- **A block delivered again** is not acknowledged. -/
theorem deliveries_again (hb : IsBuild cfg) {a : ℕ} (h64 : a % 64 = 0)
    (hlo : cfg.launchAppAddress ≤ a) (hhi : a + 64 ≤ cfg.flashEnd) {d : Device FlashState Word}
    (hacked : AllAcked (board rom cfg) d (u.deliveries a)) : u.again a = [] := by
  obtain ⟨ha, hrange⟩ := hb.inRange hlo hhi
  cases hagain : u.again a with
  | nil => rfl
  | cons t ts =>
      rw [Upload.deliveries, hagain] at hacked
      obtain ⟨hfirst, hsecond, -⟩ := hacked
      obtain ⟨hbackend, hflash, hiff⟩ := commandDispatch_sendBlock (b := board rom cfg) hb.block d
        (u.first a) ha hrange (u.block_length a)
      obtain ⟨ret, st, f, hwrite⟩ : ∃ ret st f,
          flashWriteBlock rom 64 d.backend d.flash a (u.block a) = (ret, st, f) := ⟨_, _, _, rfl⟩
      rw [board_flashWriteBlock hb.block, hwrite] at hbackend hiff
      have hnext := nextAddress_of_taken ha hwrite (hiff.mp hfirst)
      have hnext : (commandDispatch (board rom cfg) (u.first a) d
          (sendBlock (u.first a) a (u.block a) (u.block_length a)).buf
          (sendBlock (u.first a) a (u.block a) (u.block_length a)).msglen).1.backend.nextAddress =
          a + 64 := (congrArg FlashState.nextAddress hbackend).trans hnext
      obtain ⟨-, -, hiff'⟩ := commandDispatch_sendBlock (b := board rom cfg) hb.block
        (commandDispatch (board rom cfg) (u.first a) d
          (sendBlock (u.first a) a (u.block a) (u.block_length a)).buf
          (sendBlock (u.first a) a (u.block a) (u.block_length a)).msglen).1
        t ha hrange (u.block_length a)
      have hnonneg := hiff'.mp hsecond
      rw [board_flashWriteBlock hb.block, flashWriteBlock_again rom _ h64 hnext] at hnonneg
      have hneg : ¬(0 : ℤ) ≤ -2 := by decide
      exact absurd hnonneg hneg

/-- In an upload that is acknowledged nothing is repeated. -/
theorem again_eq_nil (hb : IsBuild cfg) (k : ℕ) {a : ℕ} (h64 : a % 64 = 0)
    (hlo : cfg.launchAppAddress ≤ a) (hhi : a + 64 * k ≤ cfg.flashEnd)
    {d : Device FlashState Word} (hacked : AllAcked (board rom cfg) d (u.sendBlocks a k)) :
    ∀ i < k, u.again (a + 64 * i) = [] := by
  induction k generalizing a d with
  | zero => exact fun i hi => absurd hi (Nat.not_lt_zero i)
  | succ k ih =>
      rw [Upload.sendBlocks, allAcked_append] at hacked
      intro i hi
      cases i with
      | zero => exact deliveries_again hb h64 hlo (by omega) hacked.1
      | succ i =>
          have := ih (by omega) (by omega) (by omega) hacked.2 i (by omega)
          rwa [show a + 64 + 64 * i = a + 64 * (i + 1) by omega] at this

/-! ### The upload -/

/-- A unit of `w` can be stored over `m`. -/
def UnitStorable (m w : Mem) (c : ℕ) : Prop :=
  sectorMap.start c = c ∨ SectorErasedBy m w c ∨ read w c 256 = read m c 256 ∨
    (Blank m c 64 ∧ ∀ i < 256, m (c + i) &&& w (c + i) = w (c + i))

instance (m w : Mem) (c : ℕ) : Decidable (UnitStorable m w c) :=
  inferInstanceAs (Decidable (_ ∨ _ ∨ _ ∨ _))

/-- **What storing a unit takes**: it is not refused, and the old content does not spoil it. -/
theorem unitStorable_iff {m w : Mem} {c : ℕ} (hc : c % 256 = 0) :
    UnitStorable m w c ↔
      ¬UnitRefusedBy m w c ∧ ∀ x, InRange c 256 x → storedByte m w x = w x := by
  have hbyte : ∀ i < 256, storedByte m w (c + i) =
      if sectorMap.start c = c ∨ SectorErasedBy m w c then w (c + i)
      else m (c + i) &&& w (c + i) := by
    intro i hi
    have hsame := sectorStart_unit hc (Nat.le_add_right c i) (by omega)
    have hunit : (c + i) / 256 * 256 = c := by omega
    have herased : SectorErasedBy m w (c + i) ↔ SectorErasedBy m w c := by
      rw [SectorErasedBy, SectorErasedBy, hsame]
    rw [storedByte, hsame, hunit, if_congr (or_congr_right herased) rfl rfl]
  have hall : (∀ x, InRange c 256 x → storedByte m w x = w x) ↔
      ∀ i < 256, storedByte m w (c + i) = w (c + i) := by
    constructor
    · exact fun h i hi => h (c + i) ⟨by omega, by omega⟩
    · intro h x hx
      obtain ⟨h₁, h₂⟩ := hx
      have := h (x - c) (by omega)
      rwa [Nat.add_sub_cancel' h₁] at this
  rw [hall]
  by_cases hstart : sectorMap.start c = c
  · refine iff_of_true (.inl hstart) ⟨fun h => h.1 hstart, fun i hi => ?_⟩
    rw [hbyte i hi, if_pos (.inl hstart)]
  by_cases herased : SectorErasedBy m w c
  · refine iff_of_true (.inr (.inl herased)) ⟨fun h => h.2.1 herased, fun i hi => ?_⟩
    rw [hbyte i hi, if_pos (.inr herased)]
  have hold : (∀ i < 256, storedByte m w (c + i) = w (c + i)) ↔
      ∀ i < 256, m (c + i) &&& w (c + i) = w (c + i) := by
    refine forall_congr' fun i => imp_congr_right fun hi => ?_
    rw [hbyte i hi, if_neg (not_or.mpr ⟨hstart, herased⟩)]
  rw [hold, UnitStorable, or_iff_right hstart, or_iff_right herased, UnitRefusedBy,
    and_iff_right hstart, and_iff_right herased, UnitRefused, not_and_not_right]
  constructor
  · rintro (heq | ⟨hblank, hfits⟩)
    · refine ⟨fun _ => heq, fun i hi => ?_⟩
      rw [← (read_eq_read_iff w m c c 256).mp heq i hi, BitVec.and_self]
    · exact ⟨fun h => absurd hblank h, hfits⟩
  · rintro ⟨hor, hfits⟩
    by_cases hblank : Blank m c 64
    · exact .inr ⟨hblank, hfits⟩
    · exact .inl (hor hblank)

/-- The image of an upload to an address, filled up with `0xFF`. -/
def padded (u : Upload Word) (a : ℕ) : Mem := fun x =>
  if x < a + 64 * u.blocks then u.image x else 0xFF

/-- The flash agrees with an image on some units exactly if each of them is stored whole. -/
theorem read_unitsMem_iff {m w : Mem} {lo : ℕ} (hmod : lo % 256 = 0) (k : ℕ) :
    read (unitsMem m w lo (lo + 256 * k)) lo (256 * k) = read w lo (256 * k) ↔
      ∀ j < k, ∀ x, InRange (lo + 256 * j) 256 x → storedByte m w x = w x := by
  rw [read_eq_read_iff]
  constructor
  · intro h j hj x hx
    obtain ⟨h₁, h₂⟩ := hx
    have := h (x - lo) (by omega)
    rwa [Nat.add_sub_cancel' (by omega), unitsMem_of_mem (by omega) (by omega)] at this
  · intro h i hi
    rw [unitsMem_of_mem (by omega) (by omega)]
    exact h (i / 256) (by omega) (lo + i) ⟨by omega, by omega⟩

/-- The driver's run over the image of an upload and its completion: both succeed and the padded
image is in flash exactly if every unit can be stored. -/
theorem run_stored_iff (hrom : rom.Succeeds) {lo : ℕ} (hlo : sectorMap.Aligned lo)
    (hbound : lo + 64 * u.blocks ≤ 0x80000) {st : FlashState} (hst : st = .init) (f : Flash) :
    (∃ st' f', (backend rom 64).writeBlocks (padded u lo) lo u.blocks st f = some (st', f') ∧
      0 ≤ (flashComplete rom 64 st' f').1 ∧
      read (flashComplete rom 64 st' f').2.2.mem lo (256 * ((u.blocks + 3) / 4)) =
        read (padded u lo) lo (256 * ((u.blocks + 3) / 4))) ↔
    ∀ j < (u.blocks + 3) / 4, UnitStorable f.mem (padded u lo) (lo + 256 * j) := by
  have hmod : lo % 256 = 0 := by
    rw [← hlo]
    exact sectorStart_mod lo
  obtain ⟨w, hw⟩ : ∃ w, padded u lo = w := ⟨_, rfl⟩
  have hpad : ∀ x, lo + 64 * u.blocks ≤ x → w x = 0xFF := fun x hx => by
    rw [← hw]
    exact if_neg (by omega)
  have hcount : ∀ k ≤ u.blocks / 4 + 1, 0 ≤ (BitVec.ofNat 32 k).toInt := by
    intro k hk
    rw [BitVec.toInt_eq_toNat_cond, BitVec.toNat_ofNat]
    split_ifs with h
    · exact Int.natCast_nonneg _
    · omega
  have hstaged : Staged w lo st := hst ▸ Staged.initial hmod w
  have hzero : st.pageWriteCount = 0 := by rw [hst]; rfl
  have hstorable : ∀ j, UnitStorable f.mem w (lo + 256 * j) ↔
      ¬UnitRefusedBy f.mem w (lo + 256 * j) ∧
        ∀ x, InRange (lo + 256 * j) 256 x → storedByte f.mem w x = w x :=
    fun j => unitStorable_iff (by omega)
  rw [hw]
  rcases writeBlocks_run hrom hlo u.blocks (by omega) hstaged rfl with
    ⟨⟨j, hj, hrefused⟩, hnone⟩ | ⟨haccepted, st₁, f₁, hsome, hstaged₁, hmem₁, k, hk, hcount₁⟩
  · refine iff_of_false ?_ fun h => ((hstorable j).mp (h j (by omega))).1 hrefused
    rintro ⟨st', f', hrun, -⟩
    rw [hnone] at hrun
    exact absurd hrun nofun
  rw [hsome]
  replace hcount₁ : st₁.pageWriteCount = BitVec.ofNat 32 k := by
    rw [hcount₁, hzero]
    exact BitVec.zero_add _
  have hrun : ∀ P : FlashState → Flash → Prop,
      (∃ st' f', some (st₁, f₁) = some (st', f') ∧ P st' f') ↔ P st₁ f₁ := by
    intro P
    constructor
    · rintro ⟨st', f', heq, hP⟩
      obtain ⟨rfl, rfl⟩ := Prod.mk.inj (Option.some.inj heq)
      exact hP
    · exact fun hP => ⟨st₁, f₁, rfl, hP⟩
  rw [hrun]
  have haddr : lo + 64 * u.blocks = lo + 256 * (u.blocks / 4) + 64 * (u.blocks % 4) := by omega
  rw [haddr] at hstaged₁
  rcases flashComplete_staged hrom (Nat.le_add_right lo (256 * (u.blocks / 4))) (by omega)
    (by omega) (Nat.mod_lt _ (by omega)) hstaged₁ (fun x hx => hpad x (by have := hx.1; omega))
    hmem₁ with
    ⟨hr, hcomplete⟩ | ⟨hr, hrefused, st', hcomplete⟩ | ⟨hr, hlast, st', f', hcomplete, hmem', hcount'⟩
  · -- whole units only
    have hunits : (u.blocks + 3) / 4 = u.blocks / 4 := by omega
    rw [hcomplete, hunits, hmem₁, read_unitsMem_iff hmod, hcount₁, and_iff_right (hcount k (by omega))]
    refine forall_congr' fun j => imp_congr_right fun hj => ?_
    rw [hstorable, and_iff_right (haccepted j hj)]
  · have hneg : ¬(0 : ℤ) ≤ -2 := by decide
    rw [hcomplete]
    refine iff_of_false (fun h => hneg h.1) fun h => ?_
    exact ((hstorable _).mp (h (u.blocks / 4) (by omega))).1 hrefused
  · have hunits : (u.blocks + 3) / 4 = u.blocks / 4 + 1 := by omega
    have hend : lo + 256 * (u.blocks / 4) + 256 = lo + 256 * (u.blocks / 4 + 1) := by omega
    have hnonneg : 0 ≤ st'.pageWriteCount.toInt := by
      rcases hcount' with heq | heq
      · rw [heq, hcount₁]
        exact hcount k (by omega)
      · have hadd : st'.pageWriteCount = BitVec.ofNat 32 (k + 1) := by
          rw [heq, hcount₁, BitVec.ofNat_add]
          rfl
        rw [hadd]
        exact hcount (k + 1) (by omega)
    rw [hcomplete, hunits, hmem', hend, read_unitsMem_iff hmod, and_iff_right hnonneg]
    refine forall_congr' fun j => imp_congr_right fun hj => ?_
    rw [hstorable, and_iff_right]
    rcases Nat.lt_succ_iff_lt_or_eq.mp hj with hlt | rfl
    · exact haccepted j hlt
    · exact hlast

/-- **Which uploads succeed.** On every LPC176x build, from every flash content, for every image
that fits and every pattern of repeated deliveries: all requests of the upload are
acknowledged and the image, filled up to whole units, is in flash afterwards exactly if no
block is delivered twice and every unit can be stored. -/
theorem upload_units_stored_iff (hb : IsBuild cfg) (hrom : rom.Succeeds) (u : Upload Word)
    (hfit : cfg.launchAppAddress + 64 * u.blocks ≤ cfg.flashEnd) {d : Device FlashState Word}
    (hboot : d.backend = (board rom cfg).backend.init) :
    (AllAcked (board rom cfg) d (u.requests cfg.launchAppAddress) ∧
      read (serve (board rom cfg) d (u.requests cfg.launchAppAddress)).flash.mem
        cfg.launchAppAddress (256 * ((u.blocks + 3) / 4)) =
      read (padded u cfg.launchAppAddress) cfg.launchAppAddress (256 * ((u.blocks + 3) / 4))) ↔
    (∀ i < u.blocks, u.again (cfg.launchAppAddress + 64 * i) = []) ∧
    ∀ j < (u.blocks + 3) / 4,
      UnitStorable d.flash.mem (padded u cfg.launchAppAddress) (cfg.launchAppAddress + 256 * j) := by
  have hlaunch := hb.launch
  have hend := hb.flashEnd
  obtain ⟨lo, hlo⟩ : ∃ lo, cfg.launchAppAddress = lo := ⟨_, rfl⟩
  have haligned : sectorMap.Aligned lo := hlo ▸ hb.launch_aligned
  rw [hlo] at hfit hlaunch ⊢
  rw [Upload.requests, allAcked_append, allAcked_singleton, serve_append]
  by_cases hagain : ∀ i < u.blocks, u.again (lo + 64 * i) = []
  swap
  · refine iff_of_false (fun h => hagain ?_) fun h => hagain h.1
    exact again_eq_nil hb u.blocks (by omega) (by omega) hfit h.1.1
  rw [and_iff_right hagain, ← run_stored_iff hrom haligned (by omega)
    (hboot.trans (by rw [board_backend hb.block]; rfl)) d.flash]
  obtain ⟨hacked, hresult⟩ := Upload.sendBlocks_writeBlocks (b := board rom cfg) hb.block u.blocks
    (fun i hi => hb.inRange (by omega) (by omega)) hagain d
  have hcontent : (backend rom 64).writeBlocks (padded u lo) lo u.blocks d.backend d.flash =
      (board rom cfg).backend.writeBlocks u.image lo u.blocks d.backend d.flash := by
    rw [board_backend hb.block]
    exact Backend.writeBlocks_congr (fun x hx => if_pos hx.2) _ _
  rw [hcontent, hacked]
  obtain ⟨-, hflash, hack⟩ := commandDispatch_sendEof (board rom cfg)
    (serve (board rom cfg) d (u.sendBlocks lo u.blocks)) u.eof
  rw [board_backend hb.block] at hflash hack
  rw [hack, serve_cons]
  constructor
  · rintro ⟨⟨hsome, hnonneg⟩, hread⟩
    obtain ⟨⟨st', f'⟩, hrun⟩ := Option.isSome_iff_exists.mp hsome
    obtain ⟨hst, hf⟩ := hresult st' f' hrun
    rw [hst, hf] at hnonneg hflash
    refine ⟨st', f', hrun, hnonneg, ?_⟩
    rw [← hread]
    exact congrArg (fun g : Flash => read g.mem lo _) hflash.symm
  · rintro ⟨st', f', hrun, hnonneg, hread⟩
    obtain ⟨hst, hf⟩ := hresult st' f' hrun
    rw [hst, hf] at hflash ⊢
    refine ⟨⟨by rw [hrun]; rfl, hnonneg⟩, ?_⟩
    rw [← hread]
    exact congrArg (fun g : Flash => read g.mem lo _) hflash

/-! ### A board -/

/-- The default choices for an LPC1769. -/
def lpc1769Config : Config where
  canserial := false
  enableLed := false
  enableDoubleReset := false
  haveBoardCheckDoubleReset := false
  enableButton := false
  -- "lpc1769"
  mcu := ⟨[0x6c, 0x70, 0x63, 0x31, 0x37, 0x36, 0x39], by decide⟩
  katapultVersion := releasedVersion
  clockFreq := 120000000
  flashStart := 0
  flashSize := 0x80000
  launchAppAddress := 0x4000
  metadataPageSize := 0x400
  blockSize := 64

theorem lpc1769Config_isBuild : IsBuild lpc1769Config := .inr {
  can := nofun
  clock := ⟨false, rfl⟩
  start := rfl
  size := rfl
  launch := by decide
  block := rfl }

/-- A ROM whose commands always succeed. -/
def workingRom : IapRom := ⟨fun _ _ => 0, fun _ _ _ => 0⟩

theorem workingRom_succeeds : workingRom.Succeeds := ⟨fun _ _ => rfl, fun _ _ _ => rfl⟩

/-- Such a board with blank flash. -/
def lpc1769Device : Device FlashState Word :=
  .init (board workingRom lpc1769Config) someUuid ⟨fun _ => 0xFF, []⟩

/-- One block goes onto a blank board, and its unit is filled up. -/
theorem upload_units_stored_iff_blank :
    AllAcked (board workingRom lpc1769Config) lpc1769Device
        (Upload.requests ⟨fun _ => 0x55, 1, fun _ => 0, fun _ => [], 0⟩ 0x4000) ∧
      read (serve (board workingRom lpc1769Config) lpc1769Device
        (Upload.requests ⟨fun _ => 0x55, 1, fun _ => 0, fun _ => [], 0⟩ 0x4000)).flash.mem
        0x4000 256 =
      read (padded ⟨fun _ => 0x55, 1, fun _ => 0, fun _ => [], 0⟩ 0x4000) 0x4000 256 := by
  refine (upload_units_stored_iff lpc1769Config_isBuild workingRom_succeeds
    ⟨fun _ => 0x55, 1, fun _ => 0, fun _ => [], 0⟩ (by decide) (d := lpc1769Device) rfl).mpr
    ⟨fun _ _ => rfl, fun j hj => .inl ?_⟩
  obtain rfl : j = 0 := Nat.lt_one_iff.mp hj
  rfl

/-- On the same board the acknowledgement of the block gets lost, and the host sends it again. -/
theorem upload_resent_not_acked :
    ¬AllAcked (board workingRom lpc1769Config) lpc1769Device
      (Upload.requests ⟨fun _ => 0x55, 1, fun _ => 0, fun _ => [0], 0⟩ 0x4000) := by
  obtain ⟨u, hu⟩ : ∃ u : Upload Word, u = ⟨fun _ => 0x55, 1, fun _ => 0, fun _ => [0], 0⟩ :=
    ⟨_, rfl⟩
  have hblocks : u.blocks = 1 := by rw [hu]
  rw [← hu, Upload.requests, hblocks, allAcked_append]
  rintro ⟨hacked, -⟩
  have hnil := again_eq_nil lpc1769Config_isBuild 1 (by decide) le_rfl (by decide) hacked 0
    Nat.one_pos
  rw [hu] at hnil
  exact absurd hnil (List.cons_ne_nil _ _)

end Lpc176x

end Terraboot
