import Terraboot.Lpc176xUpload
import Terraboot.Rp2040Upload
import Terraboot.Stm32Pages

/-!
# The Deployer

`deployer.c`: an application that overwrites the bootloader with the binary it carries and
reboots into it. It stops at the first block the flash driver refuses, and ignores the
result of `flash_complete`. On STM32 every block is compared with flash after it has been
written, and the RP2040 driver erases every sector; the LPC176x driver does neither.

## Main results

* `writeBinary_eq`: the loop is a run of the driver over the binary, filled up with `0xFF`.
* `Stm32.writeBlocks_stored`, `Rp2040.writeBlocks_stored`: what the drivers take is stored.
* `schedMain_never_half_written_iff`: when the deployer reboots only into a whole binary.
-/

open LittleEndian NorFlash Paging

namespace Terraboot

variable {S : Type}

/-- How `sched_main` ends: with `try_request_canboot`, or in `halt`. -/
inductive Deployment
  | requestCanboot (flash : Flash)
  | halt

/-- The loop of `sched_main` over the rest `p` of the binary; `none` if it halts. -/
def writeBinary (B : Backend S) (blockSize : ℕ) (hblock : 0 < blockSize) (p : List Byte)
    (fstart : ℕ) (st : S) (f : Flash) : Option (S × Flash) :=
  if p = [] then some (st, f)
  else
    let c := if p.length < blockSize then p.length else blockSize
    let data := p.take c ++ List.replicate (blockSize - c) 0xff
    let r := B.flashWriteBlock st f fstart data
    if r.1 < 0 then none else writeBinary B blockSize hblock (p.drop c) (fstart + c) r.2.1 r.2.2
termination_by p.length
decreasing_by
  rename_i hne _
  have := List.length_pos_iff.mpr hne
  rw [List.length_drop]
  split <;> omega

/-- `sched_main` of `deployer.c` -/
def schedMain (B : Backend S) (cfg : Config) (hblock : 0 < cfg.blockSize) (canbootBinary : List Byte)
    (f : Flash) : Deployment :=
  if memEqual f.mem cfg.flashStart canbootBinary then .requestCanboot f
  else
    match writeBinary B cfg.blockSize hblock canbootBinary cfg.flashStart B.init f with
    | none => .halt
    | some (st, f) => .requestCanboot (B.flashComplete st f).2.2

/-- **The deployer never reboots into a half-written bootloader**: whenever it requests the
bootloader, the binary is in flash. -/
def NeverHalfWritten (B : Backend S) (cfg : Config) (hblock : 0 < cfg.blockSize)
    (canbootBinary : List Byte) (f : Flash) : Prop :=
  ∀ f', schedMain B cfg hblock canbootBinary f = .requestCanboot f' →
    canbootBinary = read f'.mem cfg.flashStart canbootBinary.length

/-! ### The loop as a run of the driver -/

/-- The binary in flash that is blank otherwise. -/
def binaryMem (a : ℕ) (canbootBinary : List Byte) : Mem := write (fun _ => 0xFF) a canbootBinary

theorem binaryMem_of_mem {a i : ℕ} {p : List Byte} (h : i < p.length) :
    binaryMem a p (a + i) = p.getD i 0 := by
  rw [binaryMem, write_of_mem _ ⟨by omega, by omega⟩, Nat.add_sub_cancel_left]

theorem binaryMem_of_le {a x : ℕ} {p : List Byte} (h : a + p.length ≤ x) :
    binaryMem a p x = 0xFF :=
  write_of_not_mem _ fun hx => absurd hx.2 (by omega)

/-- The block that the loop fills up is the block of the filled-up binary. -/
theorem take_append_replicate_eq {w : Mem} {a : ℕ} {p : List Byte}
    (hin : ∀ i < p.length, w (a + i) = p.getD i 0) (hout : ∀ i, p.length ≤ i → w (a + i) = 0xFF)
    {c : ℕ} (hc : c = if p.length < 64 then p.length else 64) :
    p.take c ++ List.replicate (64 - c) 0xFF = read w a 64 := by
  have hle : c ≤ p.length ∧ c ≤ 64 := by split_ifs at hc <;> omega
  have hrest : c = p.length ∨ c = 64 := by split_ifs at hc <;> omega
  have htake : (p.take c).length = c := by rw [List.length_take]; omega
  refine eq_read_of_getD_eq ?_ fun i hi => ?_
  · rw [List.length_append, htake, List.length_replicate]
    omega
  · rw [List.getD_eq_getElem?_getD]
    by_cases hic : i < c
    · rw [List.getElem?_append_left (by omega), List.getElem?_take_of_lt hic,
        ← List.getD_eq_getElem?_getD, hin i (by omega)]
    · rw [List.getElem?_append_right (by omega), htake, List.getElem?_replicate, if_pos (by omega),
        hout i (by omega)]
      rfl

/-- **The loop is a run of the driver** over the binary, filled up to whole blocks. -/
theorem writeBinary_eq (B : Backend S) {w : Mem} {a : ℕ} {p : List Byte}
    (hin : ∀ i < p.length, w (a + i) = p.getD i 0) (hout : ∀ i, p.length ≤ i → w (a + i) = 0xFF)
    (st : S) (f : Flash) :
    writeBinary B 64 (by decide) p a st f = B.writeBlocks w a ((p.length + 63) / 64) st f := by
  obtain ⟨n, hn⟩ : ∃ n, p.length = n := ⟨_, rfl⟩
  induction n using Nat.strong_induction_on generalizing a p st f with
  | _ n ih =>
      rw [writeBinary]
      by_cases hp : p = []
      · rw [if_pos hp, hp]
        rfl
      · rw [if_neg hp]
        have hpos := List.length_pos_iff.mpr hp
        obtain ⟨c, hc⟩ : ∃ c, c = if p.length < 64 then p.length else 64 := ⟨_, rfl⟩
        have hdata := take_append_replicate_eq hin hout hc
        dsimp only
        rw [← hc, hdata]
        clear hdata
        obtain ⟨ret, st', f', hwrite⟩ : ∃ ret st' f',
            B.flashWriteBlock st f a (read w a 64) = (ret, st', f') := ⟨_, _, _, rfl⟩
        have hblocks : (p.length + 63) / 64 = (p.length - 1) / 64 + 1 := by omega
        rw [hwrite, hblocks]
        dsimp only
        split_ifs with hret
        · exact (Backend.writeBlocks_succ_of_neg (by rw [hwrite]; exact hret)).symm
        · rw [Backend.writeBlocks_succ_of_nonneg hwrite (Int.not_lt.mp hret)]
          by_cases hlast : p.length < 64
          · -- the filled-up block was the last one
            have hcp : c = p.length := by rw [hc, if_pos hlast]
            have hnone : (p.length - 1) / 64 = 0 := by omega
            rw [hcp, List.drop_length, writeBinary, if_pos rfl, hnone]
            rfl
          · have hc64 : c = 64 := by rw [hc, if_neg hlast]
            have hdrop : (p.drop 64).length = p.length - 64 := List.length_drop
            have hrest : (p.length - 1) / 64 = ((p.drop 64).length + 63) / 64 := by omega
            rw [hc64, hrest]
            refine ih (p.drop 64).length (by omega) (fun i hi => ?_) (fun i hi => ?_) st' f' rfl
            · rw [Nat.add_assoc, hin (64 + i) (by omega), List.getD_eq_getElem?_getD,
                List.getD_eq_getElem?_getD, List.getElem?_drop]
            · rw [Nat.add_assoc]
              exact hout (64 + i) (by omega)

/-- The deployer is safe exactly if the binary is there already, or completion leaves it there
whenever the driver takes all blocks. -/
theorem neverHalfWritten_iff {B : Backend S} {cfg : Config} {hblock : 0 < cfg.blockSize}
    (h64 : cfg.blockSize = 64) {p : List Byte} {f : Flash} :
    NeverHalfWritten B cfg hblock p f ↔
      p = read f.mem cfg.flashStart p.length ∨
      ∀ st' f', B.writeBlocks (binaryMem cfg.flashStart p) cfg.flashStart ((p.length + 63) / 64)
          B.init f = some (st', f') →
        p = read (B.flashComplete st' f').2.2.mem cfg.flashStart p.length := by
  have hloop : writeBinary B cfg.blockSize hblock p cfg.flashStart B.init f =
      B.writeBlocks (binaryMem cfg.flashStart p) cfg.flashStart ((p.length + 63) / 64) B.init f := by
    have hsize : ∀ n (hn : 0 < n), n = 64 → writeBinary B n hn p cfg.flashStart B.init f =
        writeBinary B 64 (by decide) p cfg.flashStart B.init f := by
      rintro n hn rfl
      rfl
    rw [hsize _ hblock h64]
    exact writeBinary_eq B (fun i hi => binaryMem_of_mem hi)
      (fun i hi => binaryMem_of_le (Nat.add_le_add_left hi _)) _ _
  rw [NeverHalfWritten, schedMain, hloop]
  by_cases hthere : p = read f.mem cfg.flashStart p.length
  · rw [if_pos ((memEqual_iff _ _ _).mpr hthere)]
    refine iff_of_true ?_ (.inl hthere)
    rintro f' heq
    obtain rfl := Deployment.requestCanboot.inj heq
    exact hthere
  · rw [if_neg (mt (memEqual_iff _ _ _).mp hthere), or_iff_right hthere]
    cases B.writeBlocks (binaryMem cfg.flashStart p) cfg.flashStart ((p.length + 63) / 64)
        B.init f with
    | none => exact iff_of_true nofun nofun
    | some r =>
        constructor
        · rintro h st' f' heq
          obtain rfl := Option.some.inj heq
          exact h _ rfl
        · rintro h f' heq
          obtain rfl := Deployment.requestCanboot.inj heq
          exact h r.1 r.2 rfl

/-! ### The drivers that store what they take -/

/-- What the STM32 driver takes it has compared. -/
theorem Stm32.flashWriteBlock_stored (chip : Stm32) (reg : ℕ) {w : Mem} {a : ℕ} (h64 : a % 64 = 0)
    (ha : a < 2 ^ 32) {st st' : Stm32.FlashState} {f f' : Flash} {ret : ℤ}
    (h : Stm32.flashWriteBlock chip reg 64 st f a (read w a 64) = (ret, st', f')) (hret : 0 ≤ ret) :
    (∀ x < a, f'.mem x = f.mem x) ∧ ∀ x, InRange a 64 x → f'.mem x = w x := by
  have hlen : (read w a 64).length = 64 := read_length _ _ _
  have hbyte : ∀ x, InRange a 64 x → (read w a 64).getD (x - a) 0 = w x := by
    rintro x ⟨h₁, h₂⟩
    rw [read_getD _ _ (by omega), Nat.add_sub_cancel' h₁]
  have hout : ∀ x < a, ¬InRange a (read w a 64).length x := fun x hx hin =>
    absurd hin.1 (Nat.not_le.mpr hx)
  by_cases hstart : (chip.pageMap reg).start a = a
  · obtain ⟨g, hwrite, hmem⟩ := flashWriteBlock_start hstart ha hlen st f
    rw [h] at hwrite
    obtain rfl : f' = g := congrArg (fun r => r.2.2) hwrite
    refine ⟨fun x hx => ?_, fun x hx => ?_⟩
    · rw [hmem, pageMem_apply, if_neg (hout x hx), if_neg fun hc => by
        have := hc.2.1
        omega]
    · rw [hmem, pageMem_apply, if_pos (by rw [hlen]; exact hx), hbyte x hx]
  · rcases flashWriteBlock_later hstart h64 ha (read w a 64) st f with
      ⟨-, g, hwrite, hmem⟩ | ⟨-, hfail⟩
    · rw [h] at hwrite
      obtain rfl : f' = g := congrArg (fun r => r.2.2) hwrite
      refine ⟨fun x hx => ?_, fun x hx => ?_⟩
      · rw [hmem, write_of_not_mem _ (hout x hx)]
      · rw [hmem, write_of_mem _ (by rw [hlen]; exact hx), hbyte x hx]
    · rw [h] at hfail
      exact absurd hret (Int.not_le.mpr hfail)

/-- **Blocks that the STM32 driver takes are stored.** -/
theorem Stm32.writeBlocks_stored (chip : Stm32) (reg : ℕ) {w : Mem} (k : ℕ) {a : ℕ}
    (h64 : a % 64 = 0) (hbound : a + 64 * k ≤ 2 ^ 32) {st st' : Stm32.FlashState} {f f' : Flash}
    (h : (Stm32.backend chip reg 64).writeBlocks w a k st f = some (st', f')) :
    (∀ x < a, f'.mem x = f.mem x) ∧ ∀ x, InRange a (64 * k) x → f'.mem x = w x := by
  induction k generalizing a st f with
  | zero =>
      obtain ⟨rfl, rfl⟩ := Prod.mk.inj (Option.some.inj h)
      exact ⟨fun _ _ => rfl, fun x hx => absurd hx.2 (Nat.not_lt.mpr hx.1)⟩
  | succ k ih =>
      obtain ⟨ret, st₁, f₁, hwrite⟩ : ∃ ret st₁ f₁,
          (Stm32.backend chip reg 64).flashWriteBlock st f a (read w a 64) = (ret, st₁, f₁) :=
        ⟨_, _, _, rfl⟩
      by_cases hret : ret < 0
      · rw [Backend.writeBlocks_succ_of_neg (by rw [hwrite]; exact hret)] at h
        exact absurd h nofun
      · have hnonneg := Int.not_lt.mp hret
        rw [Backend.writeBlocks_succ_of_nonneg hwrite hnonneg] at h
        obtain ⟨hbefore, hblock⟩ :=
          Stm32.flashWriteBlock_stored chip reg h64 (by omega) hwrite hnonneg
        obtain ⟨hbefore', hrest⟩ := ih (by omega) (by omega) h
        refine ⟨fun x hx => (hbefore' x (by omega)).trans (hbefore x hx), fun x hx => ?_⟩
        obtain ⟨h₁, h₂⟩ := hx
        by_cases hfirst : x < a + 64
        · exact (hbefore' x hfirst).trans (hblock x ⟨h₁, hfirst⟩)
        · exact hrest x ⟨by omega, by omega⟩

/-- The blocks after the first, to the RP2040 driver. -/
theorem Rp2040.writeBlocks_next {cfg : Config} (hblock : cfg.blockSize = 64) {w : Mem}
    {lo : ℕ} (hlo : cfg.flashStart ≤ lo) (k : ℕ) {a p : ℕ} (h64 : a % 64 = 0)
    (hhi : a + 64 * k ≤ cfg.flashEnd) {st : Rp2040.FlashState} {f : Flash}
    (h : Rp2040.Buffered w lo p a st f) :
    ∃ p' st' f', (Rp2040.backend cfg).writeBlocks w a k st f = some (st', f') ∧
      Rp2040.Buffered w lo p' (a + 64 * k) st' f' := by
  induction k generalizing a p st f with
  | zero => exact ⟨p, st, f, rfl, h⟩
  | succ k ih =>
      obtain ⟨st₁, f₁, hwrite, hbuffered, -⟩ :=
        Rp2040.flashWriteBlock_next hblock h64 hlo (by omega) h
      obtain ⟨p', st', f', hrun, hbuffered'⟩ := ih (by omega) (by omega) hbuffered
      refine ⟨p', st', f', ?_, ?_⟩
      · rw [Backend.writeBlocks_succ_of_nonneg hwrite le_rfl]
        exact hrun
      · rwa [show a + 64 + 64 * k = a + 64 * (k + 1) by omega] at hbuffered'

/-- **Blocks that the RP2040 driver takes are stored** when it completes. -/
theorem Rp2040.writeBlocks_stored {cfg : Config} (hblock : cfg.blockSize = 64) {w : Mem}
    (hsector : cfg.flashStart % 4096 = 0) (k : ℕ) (hhi : cfg.flashStart + 64 * k ≤ cfg.flashEnd)
    {st' : Rp2040.FlashState} {f f' : Flash}
    (h : (Rp2040.backend cfg).writeBlocks w cfg.flashStart k (Rp2040.backend cfg).init f =
      some (st', f')) :
    ∀ x, InRange cfg.flashStart (64 * k) x →
      ((Rp2040.backend cfg).flashComplete st' f').2.2.mem x = w x := by
  cases k with
  | zero => exact fun x hx => absurd hx.2 (Nat.not_lt.mpr hx.1)
  | succ k =>
      have hlen : (Rp2040.backend cfg).init.buffer.length = 256 := by
        have hpage : Rp2040.pageSize cfg.blockSize = 256 := by rw [hblock]; rfl
        rw [← hpage]
        exact List.length_replicate
      obtain ⟨st₁, f₁, hwrite, hbuffered, -⟩ := Rp2040.flashWriteBlock_first (w := w) hblock le_rfl
        hsector (by omega) hlen nofun f
      obtain ⟨p, st₂, f₂, hrun, hbuffered'⟩ :=
        Rp2040.writeBlocks_next hblock le_rfl k (by omega) (by omega) hbuffered
      rw [Backend.writeBlocks_succ_of_nonneg hwrite le_rfl, hrun] at h
      obtain ⟨rfl, rfl⟩ := Prod.mk.inj (Option.some.inj h)
      obtain ⟨st₃, f₃, hcomplete, -, -, hstored⟩ :=
        Rp2040.flashComplete_buffered cfg le_rfl hbuffered'
      intro x hx
      have hflash : ((Rp2040.backend cfg).flashComplete st₂ f₂).2.2 = f₃ :=
        congrArg (fun r => r.2.2) hcomplete
      rw [hflash]
      exact hstored x hx.1 (by have := hx.2; omega)

/-! ### The LPC176x driver -/

/-- The old flash content does not spoil the binary on an LPC176x: it is the binary; or a full
unit of it is refused; or each byte of the binary lies in the first unit of a sector or in a
sector that is erased, or no bit of it is cleared that the binary needs set, and in a unit
that is refused it is the binary's already. -/
def Lpc176x.Deployable (m : Mem) (a : ℕ) (p : List Byte) : Prop :=
  p = read m a p.length ∨
  (∃ j < (p.length + 63) / 64 / 4, UnitRefusedBy m (binaryMem a p) (a + 256 * j)) ∨
  ∀ x, InRange a p.length x →
    (sectorMap.start x = x / 256 * 256 ∨ SectorErasedBy m (binaryMem a p) x ∨
      m x &&& binaryMem a p x = binaryMem a p x) ∧
    (UnitRefusedBy m (binaryMem a p) (x / 256 * 256) → m x = binaryMem a p x)

theorem Lpc176x.storedByte_eq_iff (m w : Mem) (x : ℕ) :
    storedByte m w x = w x ↔
      sectorMap.start x = x / 256 * 256 ∨ SectorErasedBy m w x ∨ m x &&& w x = w x := by
  rw [storedByte, ← or_assoc]
  split_ifs with h
  · exact iff_of_true rfl (.inl h)
  · exact (or_iff_right h).symm

/-- A place that is refused has not been touched. -/
theorem Lpc176x.unitsMem_of_refused {m w : Mem} {lo c x : ℕ} (hlo : lo ≤ c) (hc : c % 256 = 0)
    (h : UnitRefusedBy m w c) (hx : InRange c 256 x) : unitsMem m w lo c x = m x := by
  rw [unitsMem_later hc hlo h.1 hx, if_neg h.2.1]

/-- **When the deployer is safe on an LPC176x.** -/
theorem Lpc176x.neverHalfWritten_iff {rom : IapRom} (hrom : rom.Succeeds) {cfg : Config}
    {hblock : 0 < cfg.blockSize} (h64 : cfg.blockSize = 64) (hstart : cfg.flashStart = 0)
    {p : List Byte} (hfit : p.length ≤ 0x4000) (f : Flash) :
    NeverHalfWritten (Lpc176x.backend rom 64) cfg hblock p f ↔
      Lpc176x.Deployable f.mem cfg.flashStart p := by
  rw [Terraboot.neverHalfWritten_iff h64, Deployable, hstart]
  refine or_congr_right ?_
  obtain ⟨w, hw⟩ : ∃ w, binaryMem 0 p = w := ⟨_, rfl⟩
  obtain ⟨n, hn⟩ : ∃ n, (p.length + 63) / 64 = n := ⟨_, rfl⟩
  have hin : ∀ i < p.length, w i = p.getD i 0 := fun i hi => by
    have := binaryMem_of_mem (a := 0) hi
    rwa [hw, Nat.zero_add] at this
  have hpad : ∀ x, p.length ≤ x → w x = 0xFF := fun x hx => by
    have := binaryMem_of_le (a := 0) (p := p) (x := x) (by omega)
    rwa [hw] at this
  -- the binary in a flash, byte by byte
  have hread : ∀ m : Mem, p = read m 0 p.length ↔ ∀ x, InRange 0 p.length x → m x = w x := by
    intro m
    rw [eq_read_iff]
    constructor
    · intro h x hx
      have := h x (by have := hx.2; omega)
      rwa [Nat.zero_add, ← hin x (by have := hx.2; omega)] at this
    · intro h i hi
      rw [Nat.zero_add, ← hin i hi]
      exact h i ⟨Nat.zero_le i, by omega⟩
  simp only [hread, hw, hn]
  have haligned : sectorMap.Aligned 0 := rfl
  rcases writeBlocks_run hrom haligned n (by omega) (Staged.initial rfl w) (f := f) rfl with
    ⟨⟨j, hj, hrefused⟩, hnone⟩ | ⟨haccepted, st₁, f₁, hsome, hstaged, hmem, -⟩
  · have hinit : (Lpc176x.backend rom 64).writeBlocks w 0 n (Lpc176x.backend rom 64).init f =
        none := hnone
    rw [hinit]
    exact iff_of_true nofun (.inl ⟨j, hj, hrefused⟩)
  have hinit : (Lpc176x.backend rom 64).writeBlocks w 0 n (Lpc176x.backend rom 64).init f =
      some (st₁, f₁) := hsome
  have hnotRefused : ¬∃ j < n / 4, UnitRefusedBy f.mem w (0 + 256 * j) := by
    rintro ⟨j, hj, hrefused⟩
    exact haccepted j hj hrefused
  have hrun : ∀ P : FlashState → Flash → Prop,
      (∀ st' f', some (st₁, f₁) = some (st', f') → P st' f') ↔ P st₁ f₁ := by
    intro P
    constructor
    · exact fun h => h st₁ f₁ rfl
    · rintro hP st' f' heq
      obtain ⟨rfl, rfl⟩ := Prod.mk.inj (Option.some.inj heq)
      exact hP
  rw [hinit, hrun, or_iff_right hnotRefused]
  refine forall_congr' fun x => imp_congr_right fun hx => ?_
  obtain ⟨-, hlt⟩ := hx
  rw [← storedByte_eq_iff]
  -- the units that have been written
  have hfull : ∀ y, y / 256 < n / 4 → ¬UnitRefusedBy f.mem w (y / 256 * 256) := fun y hy => by
    have := haccepted (y / 256) hy
    rwa [Nat.zero_add, Nat.mul_comm] at this
  have haddr : 0 + 64 * n = 0 + 256 * (n / 4) + 64 * (n % 4) := by omega
  rw [haddr] at hstaged
  rcases flashComplete_staged hrom (Nat.le_add_right 0 (256 * (n / 4))) (by omega) (by omega)
    (Nat.mod_lt _ (by omega)) hstaged (fun y hy => hpad y (by have := hy.1; omega)) hmem with
    ⟨hr, hcomplete⟩ | ⟨hr, hrefused, st', hcomplete⟩ | ⟨hr, hlast, st', f', hcomplete, hmem', -⟩
  · have hflash : ((Lpc176x.backend rom 64).flashComplete st₁ f₁).2.2 = f₁ :=
      congrArg (fun r => r.2.2) hcomplete
    rw [hflash, hmem, unitsMem_of_mem (Nat.zero_le x) (by omega)]
    exact (and_iff_left fun h => absurd h (hfull x (by omega))).symm
  · have hflash : ((Lpc176x.backend rom 64).flashComplete st₁ f₁).2.2 = f₁ :=
      congrArg (fun r => r.2.2) hcomplete
    rw [hflash, hmem]
    by_cases hbefore : x < 0 + 256 * (n / 4)
    · rw [unitsMem_of_mem (Nat.zero_le x) hbefore]
      exact (and_iff_left fun h => absurd h (hfull x (by omega))).symm
    · have hunit : x / 256 * 256 = 0 + 256 * (n / 4) := by omega
      rw [hunit, unitsMem_of_refused (Nat.zero_le _) (by omega) hrefused ⟨by omega, by omega⟩]
      constructor
      · intro h
        refine ⟨?_, fun _ => h⟩
        rw [storedByte_eq_iff, h, BitVec.and_self]
        exact .inr (.inr rfl)
      · exact fun h => h.2 hrefused
  · have hflash : ((Lpc176x.backend rom 64).flashComplete st₁ f₁).2.2 = f' :=
      congrArg (fun r => r.2.2) hcomplete
    rw [hflash, hmem', unitsMem_of_mem (Nat.zero_le x) (by omega)]
    refine (and_iff_left fun h => absurd h ?_).symm
    by_cases hbefore : x / 256 < n / 4
    · exact hfull x hbefore
    · have hunit : x / 256 * 256 = 0 + 256 * (n / 4) := by omega
      rw [hunit]
      exact hlast

/-! ### All builds -/

/-- **When the deployer never reboots into a half-written bootloader.** On every build, for every
binary that fits before the application and every content of flash: always on STM32, RP2040
and RP2350, and on LPC176x exactly if the old content does not spoil the binary. -/
theorem schedMain_never_half_written_iff {m : Mach} {cfg : Config} (hb : cfg.IsBuildOf m)
    {hw : Hardware} (hrom : hw.iap.Succeeds) (hblock : 0 < cfg.blockSize) {p : List Byte}
    (hfit : cfg.flashStart + p.length ≤ cfg.launchAppAddress) (f : Flash) :
    NeverHalfWritten (m.backend hw cfg) cfg hblock p f ↔
      (m = .lpc1768 ∨ m = .lpc1769 → Lpc176x.Deployable f.mem cfg.flashStart p) := by
  have h64 := hb.block
  -- a driver that stores the blocks it takes
  have hsafe : ∀ {S : Type} {B : Backend S},
      (∀ st' f', B.writeBlocks (binaryMem cfg.flashStart p) cfg.flashStart ((p.length + 63) / 64)
          B.init f = some (st', f') →
        ∀ x, InRange cfg.flashStart (64 * ((p.length + 63) / 64)) x →
          (B.flashComplete st' f').2.2.mem x = binaryMem cfg.flashStart p x) →
      NeverHalfWritten B cfg hblock p f := by
    intro S B hB
    rw [neverHalfWritten_iff h64]
    refine .inr fun st' f' hrun => ?_
    rw [eq_read_iff]
    intro i hi
    rw [hB st' f' hrun _ ⟨by omega, by omega⟩, binaryMem_of_mem hi]
  have hlpc : ∀ {rom : Lpc176x.IapRom}, rom.Succeeds → cfg.flashStart = 0 →
      cfg.launchAppAddress = 0x4000 →
      (NeverHalfWritten (Lpc176x.backend rom cfg.blockSize) cfg hblock p f ↔
        Lpc176x.Deployable f.mem cfg.flashStart p) := by
    intro rom hrom hstart hlaunch
    rw [h64]
    exact Lpc176x.neverHalfWritten_iff hrom h64 hstart (by omega) f
  have hrp : cfg.flashStart = 0x10000000 → cfg.launchAppAddress = 0x10004000 →
      cfg.flashSize = 0x200000 → NeverHalfWritten (Rp2040.backend cfg) cfg hblock p f := by
    intro hstart hlaunch hsize
    refine hsafe fun st' f' hrun => Rp2040.writeBlocks_stored h64 (by omega) _ ?_ hrun
    rw [Config.flashEnd]
    omega
  cases m with
  | stm32 chip =>
      refine iff_of_true (hsafe fun st' f' hrun => ?_) (fun h => by simp at h)
      have hstart : cfg.flashStart = 0x8000000 := hb.start
      have haligned := hb.launch_aligned hw.flashSizeReg
      have hbound : cfg.launchAppAddress ≤ 0x8020000 := by
        have hmem := hb.launch
        cases chip <;> simp [Mach.launchAppAddresses, Stm32.family] at hmem <;> omega
      rw [Mach.backend, h64] at hrun
      exact (Stm32.writeBlocks_stored chip hw.flashSizeReg _ (by omega) (by omega) hrun).2
  | lpc1768 =>
      exact (hlpc hrom hb.start (List.mem_singleton.mp hb.launch)).trans
        ⟨fun h _ => h, fun h => h (.inl rfl)⟩
  | lpc1769 =>
      exact (hlpc hrom hb.start (List.mem_singleton.mp hb.launch)).trans
        ⟨fun h _ => h, fun h => h (.inr rfl)⟩
  | rp2040 =>
      exact iff_of_true (hrp hb.start (List.mem_singleton.mp hb.launch) hb.size)
        (fun h => by simp at h)
  | rp2350 =>
      exact iff_of_true (hrp hb.start (List.mem_singleton.mp hb.launch) hb.size)
        (fun h => by simp at h)

/-- On the shipped configuration nothing can go wrong, whatever is in flash. -/
theorem schedMain_never_half_written_iff_steinzeit :
    NeverHalfWritten (Mach.backend ⟨64, Lpc176x.workingRom⟩ steinzeit (.stm32 .f103)) steinzeit
      (by decide) [0x00, 0x50, 0x00, 0x20, 0x01] ⟨fun _ => 0x00, []⟩ :=
  (schedMain_never_half_written_iff steinzeit_isBuildOf
    Lpc176x.workingRom_succeeds (by decide) (by decide) _).mpr
    (fun h => by simp at h)

/-- On an LPC1769 one old byte is in the way of the last, incomplete unit of a binary of 1025
bytes: the driver refuses the unit on completion, and the deployer reboots all the same. -/
theorem schedMain_half_written :
    ¬NeverHalfWritten (Mach.backend ⟨0, Lpc176x.workingRom⟩ Lpc176x.lpc1769Config .lpc1769)
      Lpc176x.lpc1769Config (by decide) (List.replicate 1025 0x55)
      ⟨fun x => if x = 1024 then 0x00 else 0xFF, []⟩ := by
  obtain ⟨m, hm⟩ : ∃ m : Mem, m = fun x => if x = 1024 then 0x00 else 0xFF := ⟨_, rfl⟩
  obtain ⟨p, hp⟩ : ∃ p : List Byte, p = List.replicate 1025 0x55 := ⟨_, rfl⟩
  have hlen : p.length = 1025 := by rw [hp, List.length_replicate]
  have hold : ∀ x, x ≠ 1024 → m x = 0xFF := fun x hx => by rw [hm]; exact if_neg hx
  have hbyte : m 1024 = 0x00 := by rw [hm]; exact if_pos rfl
  have hnew : ∀ i < 1025, p.getD i 0 = 0x55 := fun i hi => by
    rw [hp, List.getD_eq_getElem?_getD, List.getElem?_replicate, if_pos hi]
    rfl
  have hw : binaryMem 0 p 1024 = 0x55 := by
    have := binaryMem_of_mem (a := 0) (p := p) (i := 1024) (by omega)
    rw [Nat.zero_add] at this
    rw [this, hnew 1024 (by omega)]
  have hrefused : Lpc176x.UnitRefusedBy m (binaryMem 0 p) 1024 := by
    refine ⟨by decide, fun herased => herased.1 fun x hx => hold x ?_, fun hblank => ?_, fun heq => ?_⟩
    · have hend : x < 0 + 1024 := hx.2
      omega
    · have := hblank 1024 ⟨by omega, by omega⟩
      rw [hbyte] at this
      exact absurd this (by decide)
    · have := (read_eq_read_iff _ _ _ _ _).mp heq 0 (by omega)
      rw [Nat.add_zero, hw, hbyte] at this
      exact absurd this (by decide)
  have hblock : 0 < Lpc176x.lpc1769Config.blockSize := by decide
  have hsafe : NeverHalfWritten (Lpc176x.backend Lpc176x.workingRom 64) Lpc176x.lpc1769Config
      hblock p ⟨m, []⟩ ↔ Lpc176x.Deployable m 0 p :=
    Lpc176x.neverHalfWritten_iff Lpc176x.workingRom_succeeds rfl rfl (by omega) _
  rw [← hm, ← hp]
  intro h
  rcases hsafe.mp h with hthere | ⟨j, hj, hunit⟩ | hspared
  · have := (eq_read_iff _ _ _).mp hthere 0 (by omega)
    rw [hnew 0 (by omega), hold _ (by omega)] at this
    exact absurd this (by decide)
  · rw [hlen] at hj
    exact hunit.2.2.1 fun x hx => hold x (by have := hx.2; omega)
  · have : m 1024 = binaryMem 0 p 1024 :=
      (hspared 1024 ⟨by decide, by rw [hlen]; decide⟩).2 hrefused
    rw [hbyte, hw] at this
    exact absurd this (by decide)

end Terraboot
