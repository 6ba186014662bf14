import Terraboot.BlockRun

/-!
# Units and Sectors of the LPC176x Driver

The driver of `lpc176x/flash.c` writes units of 256 bytes. The first unit of a sector is
always stored, and the sector is erased on the way unless a quarter of it is blank or the
unit seems to have been written before. A later unit is refused if the first quarter of
its place is in use, unless it is there already; otherwise it is programmed, and what is
there afterwards is the conjunction with the old content: the driver does not compare it.

## Main results

* `Lpc176x.writeBuffer_unit`: the flash while units are written in order, `unitsMem`, and
  the units that are refused.
* `Lpc176x.flashWriteBlock_staged`, `Lpc176x.flashComplete_staged`: the blocks of a unit are
  staged, and the rest of the last one is blank.
-/

open LittleEndian NorFlash Paging

namespace Terraboot

namespace Lpc176x

/-- The ROM's commands return 0. -/
structure IapRom.Succeeds (rom : IapRom) : Prop where
  erase : ∀ f sector, rom.eraseSector f sector = 0
  write : ∀ f a data, rom.writeFlash f a data = 0

/-! ### Sectors -/

/-- A sector is a whole number of units, at least 16. -/
theorem exists_sectorSize (a : ℕ) : ∃ j, 16 ≤ j ∧ flashGetSectorSize a = 256 * j := by
  rw [flashGetSectorSize]
  split_ifs
  · exact ⟨16, by omega, by omega⟩
  · exact ⟨128, by omega, by omega⟩

/-- The start of a sector is the start of a unit. -/
theorem sectorStart_mod (a : ℕ) : sectorMap.start a % 256 = 0 := by
  rw [PageMap.start, sectorMap_size, flashGetSectorSize]
  split_ifs <;> omega

/-- All addresses of a unit are in one sector. -/
theorem sectorStart_unit {c x : ℕ} (hc : c % 256 = 0) (h₁ : c ≤ x) (h₂ : x < c + 256) :
    sectorMap.start x = sectorMap.start c := by
  obtain ⟨j, -, hj⟩ := exists_sectorSize c
  have hle := sectorMap.start_le c
  have hlt := sectorMap.lt_start_add_size c
  have hmod := sectorStart_mod c
  rw [sectorMap_size, hj] at hlt
  refine (sectorMap.start_eq_of_mem (a := c) (by omega) ?_).1
  rw [sectorMap_size, hj]
  omega

/-- The sector that starts at `a` is erased when its first unit is written: neither it nor the
rest of a sector that holds the unit already is found erased. -/
def SectorErased (m : Mem) (a : ℕ) (data : List Byte) : Prop :=
  ¬Blank m a (flashGetSectorSize a / 4) ∧
    ¬(data = read m a 256 ∧ Blank m (a + 256) (flashGetSectorSize a / 4 - 64))

instance (m : Mem) (a : ℕ) (data : List Byte) : Decidable (SectorErased m a data) :=
  inferInstanceAs (Decidable (_ ∧ _))

/-- The decision depends on the sector only. -/
theorem sectorErased_congr {m m' : Mem} {a : ℕ} {data : List Byte}
    (h : ∀ x, InRange a (flashGetSectorSize a) x → m x = m' x) :
    SectorErased m a data ↔ SectorErased m' a data := by
  obtain ⟨j, hj, hsize⟩ := exists_sectorSize a
  have hquarter : Blank m a (flashGetSectorSize a / 4) ↔ Blank m' a (flashGetSectorSize a / 4) :=
    blank_congr fun x hx => h x ⟨hx.1, by have := hx.2; omega⟩
  have hrest : Blank m (a + 256) (flashGetSectorSize a / 4 - 64) ↔
      Blank m' (a + 256) (flashGetSectorSize a / 4 - 64) :=
    blank_congr fun x hx => h x ⟨by have := hx.1; omega, by have := hx.2; omega⟩
  have hread : read m a 256 = read m' a 256 :=
    read_congr fun x hx => h x ⟨hx.1, by have := hx.2; omega⟩
  rw [SectorErased, SectorErased, hquarter, hrest, hread]

/-- What the first unit of a sector adds to the count: nothing if it is found there. -/
def sectorCount (m : Mem) (a : ℕ) (data : List Byte) : Word :=
  if ¬Blank m a (flashGetSectorSize a / 4) ∧ data = read m a 256 ∧
      Blank m (a + 256) (flashGetSectorSize a / 4 - 64) then 0 else 1

theorem sectorCount_cases (m : Mem) (a : ℕ) (data : List Byte) :
    sectorCount m a data = 0 ∨ sectorCount m a data = 1 := by
  rw [sectorCount]
  split_ifs
  · exact .inl rfl
  · exact .inr rfl

/-- A later unit is refused: its place is in use, and not by the unit itself. -/
def UnitRefused (m : Mem) (a : ℕ) (data : List Byte) : Prop :=
  ¬Blank m a 64 ∧ data ≠ read m a 256

instance (m : Mem) (a : ℕ) (data : List Byte) : Decidable (UnitRefused m a data) :=
  inferInstanceAs (Decidable (_ ∧ _))

theorem unitRefused_congr {m m' : Mem} {a : ℕ} {data : List Byte}
    (h : ∀ x, InRange a 256 x → m x = m' x) :
    UnitRefused m a data ↔ UnitRefused m' a data := by
  have hquarter : Blank m a 64 ↔ Blank m' a 64 :=
    blank_congr fun x hx => h x ⟨hx.1, by have := hx.2; omega⟩
  rw [UnitRefused, UnitRefused, hquarter, read_congr h]

/-! ### Writing a unit -/

section Unit

variable {rom : IapRom}

theorem unlockAndWrite_of_succeeds (hrom : rom.Succeeds) (st : FlashState) (f : Flash) (a : ℕ)
    (data : List Byte) : unlockAndWrite rom st f a data = (0, st, f.program a data) := by
  rw [unlockAndWrite, writeFlash, hrom.write]
  rfl

theorem eraseSector_of_succeeds (hrom : rom.Succeeds) (f : Flash) (a : ℕ)
    (hstart : sectorMap.start a = a) :
    eraseSector rom f (flashGetSectorIndex a) = (0, f.erase a (flashGetSectorSize a)) := by
  rw [eraseSector, hrom.erase, sectorBase_index, hstart]
  rfl

/-- **The first unit of a sector** is always stored, and the rest of the sector is kept or
erased. -/
theorem writeBuffer_start (hrom : rom.Succeeds) {a : ℕ} (hstart : sectorMap.start a = a)
    (ha : a < 2 ^ 32) {data : List Byte} (h : data.length = 256) (st : FlashState) (f : Flash) :
    ∃ f', writeBuffer rom st f a data =
        (0, { st with pageWriteCount := st.pageWriteCount + sectorCount f.mem a data }, f') ∧
      f'.mem = write (if SectorErased f.mem a data then
        eraseMem f.mem a (flashGetSectorSize a) else f.mem) a data := by
  obtain ⟨j, hj, hsize⟩ := exists_sectorSize a
  have herased : checkErased f.mem a (flashGetSectorSize a) = true ↔
      Blank f.mem a (flashGetSectorSize a / 4) := by
    have := checkErased_iff_quarter f.mem a (16 * j)
    rwa [show 16 * (16 * j) = flashGetSectorSize a by omega,
      show 4 * (16 * j) = flashGetSectorSize a / 4 by omega] at this
  have hrest : checkErased f.mem (a + 256) (flashGetSectorSize a - 256) = true ↔
      Blank f.mem (a + 256) (flashGetSectorSize a / 4 - 64) := by
    have := checkErased_iff_quarter f.mem (a + 256) (16 * j - 16)
    rwa [show 16 * (16 * j - 16) = flashGetSectorSize a - 256 by omega,
      show 4 * (16 * j - 16) = flashGetSectorSize a / 4 - 64 by omega] at this
  have hwritten : (memEqual f.mem a data &&
      checkErased f.mem (a + 256) (flashGetSectorSize a - 256)) = true ↔
      data = read f.mem a 256 ∧ Blank f.mem (a + 256) (flashGetSectorSize a / 4 - 64) := by
    rw [Bool.and_eq_true, memEqual_iff, hrest, h]
  rw [writeBuffer]
  dsimp only
  rw [alignDown_sectorSize ha, if_pos hstart, h]
  by_cases h₁ : Blank f.mem a (flashGetSectorSize a / 4)
  · rw [if_pos (herased.mpr h₁), unlockAndWrite_of_succeeds hrom]
    have hnot : ¬SectorErased f.mem a data := fun he => he.1 h₁
    have hcount : sectorCount f.mem a data = 1 := if_neg fun hfound => hfound.1 h₁
    rw [hcount]
    refine ⟨_, rfl, ?_⟩
    rw [if_neg hnot, Flash.program_mem]
    exact programMem_of_blank (h₁.mono le_rfl (by omega))
  · rw [if_neg (mt herased.mp h₁)]
    by_cases h₂ : data = read f.mem a 256 ∧ Blank f.mem (a + 256) (flashGetSectorSize a / 4 - 64)
    · rw [if_pos (hwritten.mpr h₂)]
      have hnot : ¬SectorErased f.mem a data := fun he => he.2 h₂
      have hcount : sectorCount f.mem a data = 0 := if_pos ⟨h₁, h₂⟩
      rw [hcount, add_zero]
      refine ⟨_, rfl, ?_⟩
      rw [if_neg hnot, write_self f.mem a (by rw [h]; exact h₂.1)]
    · rw [if_neg (mt hwritten.mp h₂), eraseSector_of_succeeds hrom f a hstart,
        unlockAndWrite_of_succeeds hrom]
      have hyes : SectorErased f.mem a data := ⟨h₁, h₂⟩
      have hcount : sectorCount f.mem a data = 1 := if_neg fun hfound => h₂ hfound.2
      rw [hcount]
      refine ⟨_, rfl, ?_⟩
      rw [if_pos hyes, Flash.program_mem, Flash.erase_mem]
      exact programMem_of_blank
        ((blank_eraseMem f.mem a (flashGetSectorSize a)).mono le_rfl (by omega))

/-- **A later unit** is refused, or programmed. -/
theorem writeBuffer_later (hrom : rom.Succeeds) {a : ℕ} (hstart : sectorMap.start a ≠ a)
    (ha : a < 2 ^ 32) {data : List Byte} (h : data.length = 256) (st : FlashState) (f : Flash) :
    (UnitRefused f.mem a data ∧ writeBuffer rom st f a data = (-2, st, f)) ∨
    (¬UnitRefused f.mem a data ∧ ∃ f', writeBuffer rom st f a data = (0, st, f') ∧
      f'.mem = programMem f.mem a data) := by
  have herased : checkErased f.mem a 256 = true ↔ Blank f.mem a 64 := checkErased_iff_quarter _ _ 16
  rw [writeBuffer]
  dsimp only
  rw [alignDown_sectorSize ha, if_neg hstart, h]
  by_cases hblank : Blank f.mem a 64
  · rw [herased.mpr hblank, unlockAndWrite_of_succeeds hrom]
    exact .inr ⟨fun hr => hr.1 hblank, _, rfl, rfl⟩
  · rw [Bool.eq_false_iff.mpr (mt herased.mp hblank)]
    by_cases heq : data = read f.mem a 256
    · have hequal : memEqual f.mem a data = true := by
        rw [memEqual_iff, h]
        exact heq
      rw [hequal]
      refine .inr ⟨fun hr => hr.2 heq, f, rfl, ?_⟩
      have heq' : data = read f.mem a data.length := by rw [h]; exact heq
      rw [programMem_of_eq heq', write_self f.mem a heq']
    · have hdiffer : memEqual f.mem a data = false := by
        rw [Bool.eq_false_iff, Ne, memEqual_iff, h]
        exact heq
      rw [hdiffer]
      exact .inl ⟨⟨hblank, heq⟩, rfl⟩

end Unit

/-! ### Units in order -/

/-- The sector of an address is erased when its first unit of `w` is written over `m`. -/
def SectorErasedBy (m w : Mem) (x : ℕ) : Prop :=
  SectorErased m (sectorMap.start x) (read w (sectorMap.start x) 256)

instance (m w : Mem) (x : ℕ) : Decidable (SectorErasedBy m w x) :=
  inferInstanceAs (Decidable (SectorErased _ _ _))

/-- The unit at `c` is refused when the units of `w` before it have been written over `m`. -/
def UnitRefusedBy (m w : Mem) (c : ℕ) : Prop :=
  sectorMap.start c ≠ c ∧ ¬SectorErasedBy m w c ∧ UnitRefused m c (read w c 256)

instance (m w : Mem) (c : ℕ) : Decidable (UnitRefusedBy m w c) :=
  inferInstanceAs (Decidable (_ ∧ _ ∧ _))

/-- What a unit of `w` leaves at an address of it. -/
def storedByte (m w : Mem) (x : ℕ) : Byte :=
  if sectorMap.start x = x / 256 * 256 ∨ SectorErasedBy m w x then w x else m x &&& w x

/-- The flash once the units of `w` between `lo` and `c` have been written over `m`. -/
def unitsMem (m w : Mem) (lo c : ℕ) : Mem := fun x =>
  if InRange lo (c - lo) x then storedByte m w x
  else if lo ≤ x ∧ sectorMap.start x < c ∧ SectorErasedBy m w x then 0xFF
  else m x

section UnitsMem

variable {m w : Mem} {lo c x : ℕ}

theorem unitsMem_of_lt (h : x < lo) : unitsMem m w lo c x = m x := by
  rw [unitsMem, if_neg fun hx => absurd hx.1 (by omega), if_neg fun hx => absurd hx.1 (by omega)]

theorem unitsMem_of_mem (h₁ : lo ≤ x) (h₂ : x < c) : unitsMem m w lo c x = storedByte m w x :=
  if_pos ⟨h₁, by omega⟩

theorem unitsMem_of_le (h₁ : lo ≤ x) (h₂ : c ≤ x) : unitsMem m w lo c x =
    if sectorMap.start x < c ∧ SectorErasedBy m w x then 0xFF else m x := by
  rw [unitsMem, if_neg fun hx => absurd hx.2 (by omega)]
  exact if_congr (and_iff_right h₁) rfl rfl

/-- Before the first unit. -/
theorem unitsMem_self (hlo : sectorMap.Aligned lo) : unitsMem m w lo lo = m := by
  funext x
  by_cases hx : x < lo
  · exact unitsMem_of_lt hx
  · have hle := sectorMap.le_start hlo (not_lt.mp hx)
    rw [unitsMem_of_le (not_lt.mp hx) (not_lt.mp hx), if_neg fun h => absurd h.1 (by omega)]

/-- Sectors that have not been reached are as before. -/
theorem unitsMem_of_le_start (h : lo ≤ x) (hstart : c ≤ sectorMap.start x) :
    unitsMem m w lo c x = m x := by
  have hle := sectorMap.start_le x
  rw [unitsMem_of_le h (by omega), if_neg fun hx => absurd hx.1 (by omega)]

/-- The place of a later unit before it is written. -/
theorem unitsMem_later (hc : c % 256 = 0) (hlo : lo ≤ c) (hstart : sectorMap.start c ≠ c)
    (hx : InRange c 256 x) :
    unitsMem m w lo c x = if SectorErasedBy m w c then 0xFF else m x := by
  obtain ⟨h₁, h₂⟩ := hx
  have hsame := sectorStart_unit hc h₁ h₂
  have hle := sectorMap.start_le c
  have herased : SectorErasedBy m w x ↔ SectorErasedBy m w c := by
    rw [SectorErasedBy, SectorErasedBy, hsame]
  rw [unitsMem_of_le (by omega) h₁, hsame]
  exact if_congr ((and_iff_right (by omega)).trans herased) rfl rfl

/-- The first unit of a sector has been written. -/
theorem write_unitsMem_start (hc : c % 256 = 0) (hlo : lo ≤ c) (hstart : sectorMap.start c = c) :
    write (if SectorErasedBy m w c then
        eraseMem (unitsMem m w lo c) c (flashGetSectorSize c) else unitsMem m w lo c)
      c (read w c 256) = unitsMem m w lo (c + 256) := by
  obtain ⟨j, hj, hsize⟩ := exists_sectorSize c
  have hlen : (read w c 256).length = 256 := read_length _ _ _
  have hsector : ∀ y, c ≤ y → y < c + flashGetSectorSize c → sectorMap.start y = c := fun y h₁ h₂ =>
    (sectorMap.start_eq_of_mem (a := c) (by omega) (by rw [hstart]; exact h₂)).1.trans hstart
  funext y
  by_cases hin : InRange c 256 y
  · obtain ⟨h₁, h₂⟩ := hin
    have hunit : sectorMap.start y = y / 256 * 256 := by
      rw [hsector y h₁ (by omega)]
      omega
    rw [write_of_mem _ (by rw [hlen]; exact ⟨h₁, h₂⟩), read_getD _ _ (by omega),
      Nat.add_sub_cancel' h₁, unitsMem_of_mem (by omega) h₂, storedByte, if_pos (.inl hunit)]
  · rw [write_of_not_mem _ (by rw [hlen]; exact hin)]
    have hout : y < c ∨ c + 256 ≤ y := by
      by_contra hno
      exact hin ⟨by omega, by omega⟩
    by_cases hsec : InRange c (flashGetSectorSize c) y
    · obtain ⟨h₁, h₂⟩ := hsec
      have hy := hsector y h₁ h₂
      have herased : SectorErasedBy m w y ↔ SectorErasedBy m w c := by
        rw [SectorErasedBy, SectorErasedBy, hy, hstart]
      have hold : unitsMem m w lo c y = m y := unitsMem_of_le_start (by omega) hy.ge
      rw [unitsMem_of_le (x := y) (c := c + 256) (by omega) (by omega), hy,
        if_congr ((and_iff_right (by omega)).trans herased) rfl rfl]
      split_ifs
      · exact if_pos ⟨h₁, h₂⟩
      · exact hold
    · have hkeep : (if SectorErasedBy m w c then
          eraseMem (unitsMem m w lo c) c (flashGetSectorSize c) else unitsMem m w lo c) y =
          unitsMem m w lo c y := by
        split_ifs
        · exact if_neg hsec
        · rfl
      rw [hkeep]
      rcases hout with hlt | hge
      · by_cases hbelow : y < lo
        · rw [unitsMem_of_lt hbelow, unitsMem_of_lt hbelow]
        · rw [unitsMem_of_mem (by omega) hlt, unitsMem_of_mem (by omega) (by omega)]
      · have hbeyond : c + flashGetSectorSize c ≤ y := by
          by_contra hno
          exact hsec ⟨by omega, by omega⟩
        have hend := sectorMap.end_le_start (a := c) (x := y) (by rw [hstart]; exact hbeyond)
        rw [hstart, sectorMap_size] at hend
        rw [unitsMem_of_le_start (by omega) (by omega),
          unitsMem_of_le_start (by omega) (by omega)]

/-- A later unit has been written. -/
theorem programMem_unitsMem_later (hc : c % 256 = 0) (hlo : lo ≤ c)
    (hstart : sectorMap.start c ≠ c) :
    programMem (unitsMem m w lo c) c (read w c 256) = unitsMem m w lo (c + 256) := by
  have hlen : (read w c 256).length = 256 := read_length _ _ _
  funext y
  rw [programMem, hlen]
  by_cases hin : InRange c 256 y
  · obtain ⟨h₁, h₂⟩ := hin
    have hsame := sectorStart_unit hc h₁ h₂
    have hunit : ¬sectorMap.start y = y / 256 * 256 := by
      rw [hsame]
      omega
    have herased : SectorErasedBy m w y ↔ SectorErasedBy m w c := by
      rw [SectorErasedBy, SectorErasedBy, hsame]
    rw [if_pos ⟨h₁, h₂⟩, read_getD _ _ (by omega), Nat.add_sub_cancel' h₁,
      unitsMem_later hc hlo hstart ⟨h₁, h₂⟩, unitsMem_of_mem (by omega) h₂, storedByte,
      if_congr ((or_iff_right hunit).trans herased) rfl rfl]
    split_ifs
    · exact allOnes_and _
    · rfl
  · rw [if_neg hin]
    have hout : y < c ∨ c + 256 ≤ y := by
      by_contra hno
      exact hin ⟨by omega, by omega⟩
    rcases hout with hlt | hge
    · by_cases hbelow : y < lo
      · rw [unitsMem_of_lt hbelow, unitsMem_of_lt hbelow]
      · rw [unitsMem_of_mem (by omega) hlt, unitsMem_of_mem (by omega) (by omega)]
    · have hmod := sectorStart_mod y
      have hne : sectorMap.start y ≠ c := fun heq =>
        hstart (heq ▸ (sectorMap.start_start y).1)
      have hreached : sectorMap.start y < c + 256 ↔ sectorMap.start y < c := by omega
      rw [unitsMem_of_le (by omega) (by omega), unitsMem_of_le (by omega) hge]
      exact if_congr (and_congr_left' hreached.symm) rfl rfl

end UnitsMem

/-- **The units of an image in order**: each is refused, or extends the flash as `unitsMem`
says. -/
theorem writeBuffer_unit {rom : IapRom} (hrom : rom.Succeeds) {m w : Mem} {lo c : ℕ}
    (hlo : lo ≤ c) (hc : c % 256 = 0) (hbound : c < 2 ^ 32) (st : FlashState) {f : Flash}
    (hf : f.mem = unitsMem m w lo c) :
    (UnitRefusedBy m w c ∧ writeBuffer rom st f c (read w c 256) = (-2, st, f)) ∨
    (¬UnitRefusedBy m w c ∧ ∃ n f',
      writeBuffer rom st f c (read w c 256) = (0, { st with pageWriteCount := n }, f') ∧
      (n = st.pageWriteCount ∨ n = st.pageWriteCount + 1) ∧
      f'.mem = unitsMem m w lo (c + 256)) := by
  have hlen : (read w c 256).length = 256 := read_length _ _ _
  by_cases hstart : sectorMap.start c = c
  · obtain ⟨f', hwrite, hmem⟩ := writeBuffer_start hrom hstart hbound hlen st f
    have hcount : ∀ k : Word, k = 0 ∨ k = 1 →
        st.pageWriteCount + k = st.pageWriteCount ∨
          st.pageWriteCount + k = st.pageWriteCount + 1 := by
      rintro k (rfl | rfl)
      · exact .inl (add_zero _)
      · exact .inr rfl
    have herased : SectorErased f.mem c (read w c 256) ↔ SectorErasedBy m w c := by
      rw [SectorErasedBy, hstart, hf]
      refine sectorErased_congr fun x hx => unitsMem_of_le_start (hlo.trans hx.1) ?_
      have := (sectorMap.start_eq_of_mem (a := c) (b := x) (by have := hx.1; omega)
        (by rw [hstart]; exact hx.2)).1
      rw [this, hstart]
    rw [if_congr herased rfl rfl, hf, write_unitsMem_start hc hlo hstart] at hmem
    exact .inr ⟨fun h => h.1 hstart, _, f', hwrite, hcount _ (sectorCount_cases _ _ _), hmem⟩
  · have hrefused : UnitRefused f.mem c (read w c 256) ↔ UnitRefusedBy m w c := by
      rw [UnitRefusedBy, hf, and_iff_right hstart]
      by_cases he : SectorErasedBy m w c
      · refine iff_of_false (fun h => h.1 fun x hx => ?_) fun h => h.1 he
        rw [unitsMem_later hc hlo hstart ⟨hx.1, by have := hx.2; omega⟩, if_pos he]
      · rw [and_iff_right he]
        refine unitRefused_congr fun x hx => ?_
        rw [unitsMem_later hc hlo hstart hx, if_neg he]
    rcases writeBuffer_later hrom hstart hbound hlen st f with ⟨hr, hwrite⟩ | ⟨hr, f', hwrite, hmem⟩
    · exact .inl ⟨hrefused.mp hr, hwrite⟩
    · refine .inr ⟨mt hrefused.mpr hr, st.pageWriteCount, f', hwrite, .inl rfl, ?_⟩
      rw [hmem, hf, programMem_unitsMem_later hc hlo hstart]

end Lpc176x

end Terraboot
