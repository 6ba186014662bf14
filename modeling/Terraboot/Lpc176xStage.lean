import Terraboot.FlashSession
import Terraboot.Lpc176xUpload

/-!
# What the LPC176x Driver Remembers

The driver of `lpc176x/flash.c` remembers the address of the next block, the blocks staged for the
unit it belongs to, and the number of sectors it has started. While blocks are staged, only the
next one is taken; while none are, the first block of any unit is. Of the staged bytes, those can
be seen that make a difference to the flash.

## Main results

* `Lpc176x.SameStage.indist`: states with the same flash content that are at the `SameStage` cannot
  be told apart.
-/

open LittleEndian NorFlash Paging

namespace Terraboot

namespace Lpc176x

/-- The number of bytes staged in `iap_buf`. -/
def FlashState.staged (st : FlashState) : ℕ := st.nextAddress % 256

/-- The unit the staged bytes belong to. -/
def FlashState.unit (st : FlashState) : ℕ := st.nextAddress - st.nextAddress % 256

/-- What every reachable state of the driver satisfies. -/
structure InArea (cfg : Config) (st : FlashState) : Prop where
  bounded : st.Bounded cfg.launchAppAddress cfg.flashEnd
  blocks : st.nextAddress % 64 = 0

/-- No continuation of the staged bytes is accepted over the flash content `m`. -/
structure Stuck (m : Mem) (st : FlashState) : Prop where
  staged : 0 < st.staged
  later : sectorMap.start st.unit ≠ st.unit
  used : ¬Blank m st.unit 64
  differs : ∃ i < st.staged, st.iapBuf.getD i 0 ≠ m (st.unit + i)

/-- Some staged byte cannot be programmed over the flash content `m`. -/
def Spoiled (m : Mem) (st : FlashState) : Prop :=
  ∃ i < st.staged, m (st.unit + i) &&& st.iapBuf.getD i 0 ≠ st.iapBuf.getD i 0

/-- The states differ in nothing that can be seen, over the flash content `m`. -/
inductive SameStage (m : Mem) (st st' : FlashState) : Prop
  /-- Nothing is staged. -/
  | empty (h : st.staged = 0) (h' : st'.staged = 0)
      (hcount : st.pageWriteCount = st'.pageWriteCount)
  /-- The same is staged for the same unit. -/
  | same (hnext : st.nextAddress = st'.nextAddress) (hstaged : 0 < st.staged)
      (hcount : st.pageWriteCount = st'.pageWriteCount)
      (hbytes : ∀ i < st.staged, st.iapBuf.getD i 0 = st'.iapBuf.getD i 0)
  /-- Every upload fails, and at the same block. -/
  | stuck (h : Stuck m st) (h' : Stuck m st')
      (hnext : st.nextAddress = st'.nextAddress ∨ (st.staged = 192 ∧ st'.staged = 192))
  /-- The staged bytes are programmed without a comparison and leave the same in the flash; either
  the driver will not notice that the place is in use then, or it will refuse them both. -/
  | masked (hnext : st.nextAddress = st'.nextAddress) (hstaged : 0 < st.staged)
      (hcount : st.pageWriteCount = st'.pageWriteCount)
      (hlater : sectorMap.start st.unit ≠ st.unit) (hblank : Blank m st.unit 64)
      (hbytes : ∀ i < st.staged, m (st.unit + i) &&& st.iapBuf.getD i 0 =
        m (st.unit + i) &&& st'.iapBuf.getD i 0)
      (hafter : (∀ i < 64, st.iapBuf.getD i 0 = 0xFF) ∨ (Spoiled m st ∧ Spoiled m st'))

variable {rom : IapRom} {cfg : Config} {st st' : FlashState} {f f' : Flash}

/-! ### What a call does -/

/-- A unit is accepted: it is the first of its sector, or it is not refused. -/
def Accepted (m : Mem) (a : ℕ) (data : List Byte) : Prop :=
  sectorMap.start a = a ∨ ¬UnitRefused m a data

instance (m : Mem) (a : ℕ) (data : List Byte) : Decidable (Accepted m a data) :=
  inferInstanceAs (Decidable (_ ∨ _))

/-- The flash when a unit has been accepted. -/
def acceptedMem (m : Mem) (a : ℕ) (data : List Byte) : Mem :=
  if sectorMap.start a = a then
    write (if SectorErased m a data then eraseMem m a (flashGetSectorSize a) else m) a data
  else programMem m a data

/-- What an accepted unit adds to the count. -/
def acceptedCount (m : Mem) (a : ℕ) (data : List Byte) : Word :=
  if sectorMap.start a = a then sectorCount m a data else 0

section Unit

variable {a : ℕ} {data : List Byte}

theorem writeBuffer_of_accepted (hrom : rom.Succeeds) (ha : a < 2 ^ 32) (hdata : data.length = 256)
    (st : FlashState) (f : Flash) (h : Accepted f.mem a data) :
    ∃ f', writeBuffer rom st f a data =
        (0, { st with pageWriteCount := st.pageWriteCount + acceptedCount f.mem a data }, f') ∧
      f'.mem = acceptedMem f.mem a data := by
  by_cases hstart : sectorMap.start a = a
  · rw [acceptedCount, acceptedMem, if_pos hstart, if_pos hstart]
    exact writeBuffer_start hrom hstart ha hdata st f
  · rw [acceptedCount, acceptedMem, if_neg hstart, if_neg hstart, add_zero]
    rcases writeBuffer_later hrom hstart ha hdata st f with ⟨hr, -⟩ | ⟨-, f', hwrite, hmem⟩
    · exact absurd hr (h.resolve_left hstart)
    · exact ⟨f', hwrite, hmem⟩

theorem writeBuffer_of_not_accepted (hrom : rom.Succeeds) (ha : a < 2 ^ 32)
    (hdata : data.length = 256) (st : FlashState) (f : Flash) (h : ¬Accepted f.mem a data) :
    writeBuffer rom st f a data = (-2, st, f) := by
  obtain ⟨hstart, hr⟩ := not_or.mp h
  rcases writeBuffer_later hrom hstart ha hdata st f with ⟨-, hwrite⟩ | ⟨hr', -⟩
  · exact hwrite
  · exact absurd hr' hr

end Unit

section Write

variable {a : ℕ} {data : List Byte}

variable (rom) in
theorem flashWriteBlock_unaligned (h64 : a % 64 ≠ 0) (st : FlashState) (f : Flash)
    (data : List Byte) : flashWriteBlock rom 64 st f a data = (-1, st, f) := by
  have haligned : a &&& (64 - 1) ≠ 0 := by rwa [and_63]
  rw [flashWriteBlock, if_pos haligned]

variable (rom) in
/-- A block out of order is refused. -/
theorem flashWriteBlock_out_of_order (h64 : a % 64 = 0) (hne : a ≠ st.nextAddress)
    (h : a % 256 ≠ 0 ∨ 0 < st.staged) (f : Flash) (data : List Byte) :
    flashWriteBlock rom 64 st f a data = (-2, st, f) := by
  have haligned : a &&& (64 - 1) = 0 := by rw [and_63, h64]
  have hunits : (a ||| st.nextAddress) &&& (iapBufMinSize - 1) ≠ 0 := by
    rw [Nat.and_or_distrib_right]
    have h₁ : a &&& (iapBufMinSize - 1) = a % 256 := and_255 a
    have h₂ : st.nextAddress &&& (iapBufMinSize - 1) = st.staged := and_255 _
    intro hzero
    obtain ⟨hz₁, hz₂⟩ := Nat.or_eq_zero_iff.mp hzero
    omega
  rw [flashWriteBlock, haligned, if_neg (not_not.mpr rfl), if_pos (by decide), if_pos hne,
    if_pos hunits]

variable (rom) in
/-- A block that does not end its unit is staged. -/
theorem flashWriteBlock_stages (h64 : a % 64 = 0)
    (hnext : st.nextAddress = a ∨ (a % 256 = 0 ∧ st.staged = 0)) (hmid : a % 256 ≠ 192) (f : Flash)
    (data : List Byte) : flashWriteBlock rom 64 st f a data =
      (0, ⟨overwrite st.iapBuf (a % 256) data, a + 64, st.pageWriteCount⟩, f) := by
  have hidx : a &&& (iapBufMinSize - 1) = a % 256 := and_255 a
  rw [flashWriteBlock_taken h64 hnext, bufferBlock, hidx]
  exact if_neg hmid

/-- The last block of a unit writes it. -/
theorem flashWriteBlock_ends {u : ℕ} (hu : u % 256 = 0) (hnext : st.nextAddress = u + 192)
    (f : Flash) (data : List Byte) : flashWriteBlock rom 64 st f (u + 192) data =
      let r := writeBuffer rom ⟨overwrite st.iapBuf 192 data, u + 192, st.pageWriteCount⟩ f u
        (overwrite st.iapBuf 192 data)
      if r.1 < 0 then r
      else (0, { r.2.1 with nextAddress := r.2.1.nextAddress + 64 }, r.2.2) := by
  have hidx : (u + 192) &&& (iapBufMinSize - 1) = 192 := (and_255 _).trans (by omega)
  have hlast : 192 = iapBufMinSize - 64 := rfl
  rw [flashWriteBlock_taken (by omega) (.inl hnext), bufferBlock, hidx, if_pos hlast,
    Nat.add_sub_cancel]

/-- The last block of an accepted unit. -/
theorem flashWriteBlock_accepted (hrom : rom.Succeeds) {u : ℕ} (hu : u % 256 = 0)
    (hbound : u < 2 ^ 32) (hnext : st.nextAddress = u + 192) (hlen : st.iapBuf.length = 256)
    (hdata : data.length = 64) (h : Accepted f.mem u (overwrite st.iapBuf 192 data)) :
    ∃ f', flashWriteBlock rom 64 st f (u + 192) data =
        (0, ⟨overwrite st.iapBuf 192 data, u + 256,
          st.pageWriteCount + acceptedCount f.mem u (overwrite st.iapBuf 192 data)⟩, f') ∧
      f'.mem = acceptedMem f.mem u (overwrite st.iapBuf 192 data) := by
  have hlen' : (overwrite st.iapBuf 192 data).length = 256 := by
    rw [overwrite_length (by omega), hlen]
  obtain ⟨f', hwrite, hmem⟩ := writeBuffer_of_accepted hrom hbound hlen'
    ⟨overwrite st.iapBuf 192 data, u + 192, st.pageWriteCount⟩ f h
  refine ⟨f', ?_, hmem⟩
  rw [flashWriteBlock_ends hu hnext, hwrite]
  exact if_neg (lt_irrefl (0 : ℤ))

/-- The last block of a refused unit stays in the buffer. -/
theorem flashWriteBlock_not_accepted (hrom : rom.Succeeds) {u : ℕ} (hu : u % 256 = 0)
    (hbound : u < 2 ^ 32) (hnext : st.nextAddress = u + 192) (hlen : st.iapBuf.length = 256)
    (hdata : data.length = 64) (h : ¬Accepted f.mem u (overwrite st.iapBuf 192 data)) :
    flashWriteBlock rom 64 st f (u + 192) data =
      (-2, ⟨overwrite st.iapBuf 192 data, u + 192, st.pageWriteCount⟩, f) := by
  have hlen' : (overwrite st.iapBuf 192 data).length = 256 := by
    rw [overwrite_length (by omega), hlen]
  rw [flashWriteBlock_ends hu hnext, writeBuffer_of_not_accepted hrom hbound hlen' _ f h]
  exact if_pos (show (-2 : ℤ) < 0 by decide)

end Write

/-! ### Completion -/

/-- The buffer with the rest of the unit blank. -/
def FlashState.padded (st : FlashState) : List Byte :=
  overwrite st.iapBuf st.staged (List.replicate (256 - st.staged) 0xFF)

theorem FlashState.padded_length (hlen : st.iapBuf.length = 256) : st.padded.length = 256 := by
  have : st.staged < 256 := Nat.mod_lt _ (by decide)
  rw [FlashState.padded, overwrite_length (by rw [List.length_replicate]; omega), hlen]

/-- The staged bytes stay. -/
theorem FlashState.padded_getD (hlen : st.iapBuf.length = 256) {i : ℕ} (hi : i < 256) :
    st.padded.getD i 0 = if i < st.staged then st.iapBuf.getD i 0 else 0xFF := by
  have hlt : st.staged < 256 := Nat.mod_lt _ (by decide)
  rw [FlashState.padded, overwrite_getD (by rw [List.length_replicate]; omega),
    List.length_replicate]
  by_cases hin : i < st.staged
  · rw [if_pos hin, if_neg (by omega)]
  · rw [if_neg hin, if_pos (by omega), List.getD_eq_getElem?_getD, List.getElem?_replicate,
      if_pos (by omega)]
    rfl

variable (rom) in
theorem flashComplete_empty (h : st.staged = 0) (f : Flash) :
    flashComplete rom 64 st f = (st.pageWriteCount.toInt, st, f) := by
  have hidx : st.nextAddress &&& (iapBufMinSize - 1) = 0 := (and_255 _).trans h
  rw [flashComplete, hidx]
  exact if_neg fun hc => hc.2 rfl

/-- The completion of staged blocks writes the padded buffer. -/
theorem flashComplete_eq (h : 0 < st.staged) (f : Flash) : flashComplete rom 64 st f =
    let r := writeBuffer rom { st with iapBuf := st.padded } f st.unit st.padded
    if r.1 < 0 then r else (r.2.1.pageWriteCount.toInt, r.2) := by
  have hidx : st.nextAddress &&& (iapBufMinSize - 1) = st.nextAddress % 256 := and_255 _
  have hcond : 64 < iapBufMinSize ∧ st.nextAddress % 256 ≠ 0 := ⟨by decide, Nat.ne_of_gt h⟩
  rw [flashComplete, hidx]
  exact if_pos hcond

theorem flashComplete_accepted (hrom : rom.Succeeds) (h : 0 < st.staged) (hbound : st.unit < 2 ^ 32)
    (hlen : st.iapBuf.length = 256) (haccepted : Accepted f.mem st.unit st.padded) :
    ∃ f', flashComplete rom 64 st f =
        ((st.pageWriteCount + acceptedCount f.mem st.unit st.padded).toInt,
          ⟨st.padded, st.nextAddress,
            st.pageWriteCount + acceptedCount f.mem st.unit st.padded⟩, f') ∧
      f'.mem = acceptedMem f.mem st.unit st.padded := by
  obtain ⟨f', hwrite, hmem⟩ := writeBuffer_of_accepted hrom hbound
    (FlashState.padded_length hlen) { st with iapBuf := st.padded } f haccepted
  refine ⟨f', ?_, hmem⟩
  rw [flashComplete_eq h, hwrite]
  exact if_neg (lt_irrefl (0 : ℤ))

theorem flashComplete_not_accepted (hrom : rom.Succeeds) (h : 0 < st.staged)
    (hbound : st.unit < 2 ^ 32) (hlen : st.iapBuf.length = 256)
    (hrefused : ¬Accepted f.mem st.unit st.padded) :
    flashComplete rom 64 st f = (-2, { st with iapBuf := st.padded }, f) := by
  rw [flashComplete_eq h, writeBuffer_of_not_accepted hrom hbound (FlashState.padded_length hlen)
    { st with iapBuf := st.padded } f hrefused]
  exact if_pos (show (-2 : ℤ) < 0 by decide)

/-! ### The invariant -/

theorem InArea.length (h : InArea cfg st) : st.iapBuf.length = 256 := h.bounded.length

/-- Where the unit of the staged blocks lies. -/
theorem InArea.unit_spec (hcfg : IsBuild cfg) (h : InArea cfg st) (hstaged : 0 < st.staged) :
    st.nextAddress = st.unit + st.staged ∧ st.unit % 256 = 0 ∧ st.staged % 64 = 0 ∧
      st.staged < 256 ∧ cfg.launchAppAddress ≤ st.unit ∧ st.unit + 256 ≤ cfg.flashEnd := by
  have hlaunch := hcfg.launch
  have hend := hcfg.flashEnd
  have hblocks := h.blocks
  have hnext : st.nextAddress % 256 = 0 ∨ _ := h.bounded.next
  rw [FlashState.staged] at hstaged ⊢
  rw [FlashState.unit]
  omega

/-- The state that has staged a block. -/
theorem staged_stages {a : ℕ} (h64 : a % 64 = 0) (hmid : a % 256 ≠ 192) (b : List Byte) (c : Word) :
    (⟨b, a + 64, c⟩ : FlashState).staged = a % 256 + 64 ∧
      (⟨b, a + 64, c⟩ : FlashState).unit = a - a % 256 := by
  rw [FlashState.staged, FlashState.unit]
  dsimp only
  omega

/-- A state in which a unit has been written. -/
theorem staged_eq_zero {u : ℕ} (hu : u % 256 = 0) (b : List Byte) (c : Word) :
    (⟨b, u + 256, c⟩ : FlashState).staged = 0 := by
  rw [FlashState.staged]
  dsimp only
  omega

/-- The blocks a state may take keep the invariant. -/
theorem InArea.stages (h : InArea cfg st) {a : ℕ} (h64 : a % 64 = 0)
    (hlo : cfg.launchAppAddress ≤ a) (hhi : a + 64 ≤ cfg.flashEnd) {data : List Byte}
    (hdata : data.length = 64) (c : Word) :
    InArea cfg ⟨overwrite st.iapBuf (a % 256) data, a + 64, c⟩ := by
  have hlen : (overwrite st.iapBuf (a % 256) data).length = 256 := by
    rw [overwrite_length (by rw [h.length]; omega), h.length]
  refine ⟨⟨hlen, .inr ⟨?_, hhi⟩⟩, ?_⟩
  · dsimp only
    omega
  · dsimp only
    omega

theorem InArea.write (hrom : rom.Succeeds) (hcfg : IsBuild cfg) (h : InArea cfg st) {a : ℕ}
    (hlo : cfg.launchAppAddress ≤ a) (hhi : a + 64 ≤ cfg.flashEnd) {data : List Byte}
    (hdata : data.length = 64) (f : Flash) :
    InArea cfg (flashWriteBlock rom 64 st f a data).2.1 := by
  by_cases h64 : a % 64 = 0
  swap
  · rw [flashWriteBlock_unaligned rom h64]
    exact h
  by_cases htaken : st.nextAddress = a ∨ (a % 256 = 0 ∧ st.staged = 0)
  swap
  · obtain ⟨hne, hor⟩ := not_or.mp htaken
    rw [flashWriteBlock_out_of_order rom h64 (Ne.symm hne) (by omega)]
    exact h
  by_cases hmid : a % 256 = 192
  swap
  · rw [flashWriteBlock_stages rom h64 htaken hmid]
    exact h.stages h64 hlo hhi hdata _
  have hnext : st.nextAddress = a := htaken.resolve_right (by omega)
  obtain ⟨u, rfl⟩ : ∃ u, a = u + 192 := ⟨a - 192, by omega⟩
  have hend := hcfg.flashEnd
  by_cases haccepted : Accepted f.mem u (overwrite st.iapBuf 192 data)
  · obtain ⟨f', hwrite, -⟩ := flashWriteBlock_accepted hrom (by omega) (by omega) hnext h.length hdata
      haccepted
    have hstages := h.stages h64 hlo hhi hdata (st.pageWriteCount +
      acceptedCount f.mem u (overwrite st.iapBuf 192 data))
    rw [hmid] at hstages
    rw [hwrite]
    exact hstages
  · rw [flashWriteBlock_not_accepted hrom (by omega) (by omega) hnext h.length hdata haccepted]
    have hlen : (overwrite st.iapBuf 192 data).length = 256 := by
      rw [overwrite_length (by rw [h.length]; omega), h.length]
    exact ⟨⟨hlen, .inr ⟨hlo, by dsimp only; omega⟩⟩, h64⟩

theorem InArea.complete (hrom : rom.Succeeds) (hcfg : IsBuild cfg) (h : InArea cfg st) (f : Flash) :
    InArea cfg (flashComplete rom 64 st f).2.1 := by
  by_cases hstaged : st.staged = 0
  · rw [flashComplete_empty rom hstaged]
    exact h
  obtain ⟨-, -, -, -, -, hhi⟩ := h.unit_spec hcfg (Nat.pos_of_ne_zero hstaged)
  have hend := hcfg.flashEnd
  have hpadded : ∀ c : Word, InArea cfg ⟨st.padded, st.nextAddress, c⟩ := fun c =>
    ⟨⟨FlashState.padded_length h.length, h.bounded.next⟩, h.blocks⟩
  by_cases haccepted : Accepted f.mem st.unit st.padded
  · obtain ⟨f', hcomplete, -⟩ := flashComplete_accepted hrom (Nat.pos_of_ne_zero hstaged) (by omega)
      h.length haccepted
    rw [hcomplete]
    exact hpadded _
  · rw [flashComplete_not_accepted hrom (Nat.pos_of_ne_zero hstaged) (by omega) h.length haccepted]
    exact hpadded _

/-! ### States at the same stage -/

/-- Two results that differ in nothing that can be seen. -/
structure SameResult (r r' : ℤ × FlashState × Flash) : Prop where
  ret : r.1 = r'.1
  mem : r.2.2.mem = r'.2.2.mem
  stage : SameStage r.2.2.mem r.2.1 r'.2.1

theorem eq_of_getD_eq {l l' : List Byte} {n : ℕ} (hl : l.length = n) (hl' : l'.length = n)
    (h : ∀ i < n, l.getD i 0 = l'.getD i 0) : l = l' := by
  refine List.ext_getElem (hl.trans hl'.symm) fun i hi hi' => ?_
  have hbyte := h i (by omega)
  rwa [List.getD_eq_getElem _ _ hi, List.getD_eq_getElem _ _ hi'] at hbyte

/-- Completion fills equal buffers up in the same way. -/
theorem padded_congr (h : st.iapBuf.length = 256) (h' : st'.iapBuf.length = 256)
    (hnext : st.nextAddress = st'.nextAddress)
    (hbytes : ∀ i < st.staged, st.iapBuf.getD i 0 = st'.iapBuf.getD i 0) : st.padded = st'.padded := by
  have hstaged : st.staged = st'.staged := congrArg (· % 256) hnext
  refine eq_of_getD_eq (FlashState.padded_length h) (FlashState.padded_length h') fun i hi => ?_
  rw [FlashState.padded_getD h hi, FlashState.padded_getD h' hi, ← hstaged]
  split_ifs with hin
  · exact hbytes i hin
  · rfl

section Stuck

variable {m : Mem}

/-- What has been staged stays in the way. -/
theorem Stuck.congr (hs : Stuck m st) (hnext : st'.nextAddress = st.nextAddress)
    (hbytes : ∀ i < st.staged, st'.iapBuf.getD i 0 = st.iapBuf.getD i 0) : Stuck m st' := by
  have hstaged : st'.staged = st.staged := congrArg (· % 256) hnext
  have hunit : st'.unit = st.unit := by rw [FlashState.unit, FlashState.unit, hnext]
  obtain ⟨i, hi, hne⟩ := hs.differs
  refine ⟨hstaged ▸ hs.staged, hunit ▸ hs.later, hunit ▸ hs.used, i, hstaged ▸ hi, ?_⟩
  rw [hbytes i hi, hunit]
  exact hne

theorem Stuck.not_accepted (hs : Stuck m st) {data : List Byte}
    (hbytes : ∀ i < st.staged, data.getD i 0 = st.iapBuf.getD i 0) : ¬Accepted m st.unit data := by
  rintro (hstart | haccepted)
  · exact hs.later hstart
  refine haccepted ⟨hs.used, fun heq => ?_⟩
  obtain ⟨i, hi, hne⟩ := hs.differs
  have hlt : st.staged < 256 := Nat.mod_lt _ (by decide)
  rw [← hbytes i hi, heq, read_getD m st.unit (by omega)] at hne
  exact hne rfl

theorem Stuck.stages (h : InArea cfg st) (hs : Stuck m st) (hmid : st.staged ≠ 192)
    {data : List Byte} (hdata : data.length = 64) (c : Word) :
    Stuck m ⟨overwrite st.iapBuf st.staged data, st.nextAddress + 64, c⟩ := by
  have hlt : st.staged < 256 := Nat.mod_lt _ (by decide)
  have hblocks := h.blocks
  have hmod : st.staged % 64 = 0 := by
    rw [FlashState.staged]
    omega
  obtain ⟨hstaged, hunit⟩ := staged_stages hblocks hmid (overwrite st.iapBuf st.staged data) c
  obtain ⟨i, hi, hne⟩ := hs.differs
  have hunit' : (⟨overwrite st.iapBuf st.staged data, st.nextAddress + 64, c⟩ : FlashState).unit =
    st.unit := hunit
  refine ⟨by rw [hstaged]; omega, by rw [hunit']; exact hs.later, by rw [hunit']; exact hs.used, i,
    by rw [hstaged]; exact Nat.lt_add_right 64 hi, ?_⟩
  rw [hunit']
  dsimp only
  rw [overwrite_getD (by rw [h.length]; omega), if_neg (by omega)]
  exact hne

/-- A block that a stuck state refuses. -/
theorem Stuck.refuses (hrom : rom.Succeeds) (hcfg : IsBuild cfg) (h : InArea cfg st)
    (hs : Stuck f.mem st) {a : ℕ} (h64 : a % 64 = 0) {data : List Byte} (hdata : data.length = 64)
    (hno : a ≠ st.nextAddress ∨ st.staged = 192) :
    ∃ buf, flashWriteBlock rom 64 st f a data = (-2, { st with iapBuf := buf }, f) ∧
      Stuck f.mem { st with iapBuf := buf } := by
  by_cases hne : a = st.nextAddress
  swap
  · exact ⟨st.iapBuf, flashWriteBlock_out_of_order rom h64 hne (.inr hs.staged) f data, hs⟩
  obtain ⟨hnext, hunit, -, -, -, hhi⟩ := h.unit_spec hcfg hs.staged
  have hend := hcfg.flashEnd
  have hlast := hno.resolve_left (not_not.mpr hne)
  rw [hlast] at hnext
  have hbytes : ∀ i < st.staged,
      (overwrite st.iapBuf 192 data).getD i 0 = st.iapBuf.getD i 0 := by
    intro i hi
    rw [overwrite_getD (by rw [h.length]; omega), if_neg (by omega)]
  refine ⟨overwrite st.iapBuf 192 data, ?_, hs.congr rfl hbytes⟩
  rw [hne, hnext, flashWriteBlock_not_accepted hrom hunit (by omega) hnext h.length hdata
    (hs.not_accepted hbytes)]

theorem Stuck.completes (hrom : rom.Succeeds) (hcfg : IsBuild cfg) (h : InArea cfg st)
    (hs : Stuck f.mem st) : flashComplete rom 64 st f = (-2, { st with iapBuf := st.padded }, f) ∧
      Stuck f.mem { st with iapBuf := st.padded } := by
  obtain ⟨-, -, -, hlt, -, hhi⟩ := h.unit_spec hcfg hs.staged
  have hend := hcfg.flashEnd
  have hbytes : ∀ i < st.staged, st.padded.getD i 0 = st.iapBuf.getD i 0 := by
    intro i hi
    rw [FlashState.padded_getD h.length (by omega), if_pos hi]
  exact ⟨flashComplete_not_accepted hrom hs.staged (by omega) h.length (hs.not_accepted hbytes),
    hs.congr rfl hbytes⟩

end Stuck

section SameStage

variable {a : ℕ} {data : List Byte}

/-- A block that both states refuse without looking at it. -/
theorem SameStage.write_out_of_order (hsame : SameStage f.mem st st') (hmem : f.mem = f'.mem)
    (h64 : a % 64 = 0) (hno : ¬(st.nextAddress = a ∨ (a % 256 = 0 ∧ st.staged = 0)))
    (hno' : ¬(st'.nextAddress = a ∨ (a % 256 = 0 ∧ st'.staged = 0))) :
    SameResult (flashWriteBlock rom 64 st f a data) (flashWriteBlock rom 64 st' f' a data) := by
  obtain ⟨hne, hor⟩ := not_or.mp hno
  obtain ⟨hne', hor'⟩ := not_or.mp hno'
  rw [flashWriteBlock_out_of_order rom h64 (Ne.symm hne) (by omega),
    flashWriteBlock_out_of_order rom h64 (Ne.symm hne') (by omega)]
  exact ⟨rfl, hmem, hsame⟩

/-- The first block of a unit. -/
theorem SameStage.write_first (h : InArea cfg st) (h' : InArea cfg st') (hmem : f.mem = f'.mem)
    (hstaged : st.staged = 0) (hstaged' : st'.staged = 0)
    (hcount : st.pageWriteCount = st'.pageWriteCount) (ha : a % 256 = 0) (hdata : data.length = 64) :
    SameResult (flashWriteBlock rom 64 st f a data) (flashWriteBlock rom 64 st' f' a data) := by
  have h64 : a % 64 = 0 := by omega
  obtain ⟨hnew, -⟩ := staged_stages h64 (by omega) (overwrite st.iapBuf (a % 256) data)
    st.pageWriteCount
  rw [flashWriteBlock_stages rom h64 (.inr ⟨ha, hstaged⟩) (by omega),
    flashWriteBlock_stages rom h64 (.inr ⟨ha, hstaged'⟩) (by omega)]
  refine ⟨rfl, hmem, .same rfl (by rw [hnew]; omega) hcount fun i hi => ?_⟩
  rw [hnew] at hi
  dsimp only
  rw [overwrite_getD (by rw [h.length]; omega), overwrite_getD (by rw [h'.length]; omega),
    if_pos (by omega), if_pos (by omega)]

/-- The next block where the same is staged. -/
theorem SameStage.write_same (hrom : rom.Succeeds) (hcfg : IsBuild cfg) (h : InArea cfg st)
    (h' : InArea cfg st') (hmem : f.mem = f'.mem) (hnext : st.nextAddress = st'.nextAddress)
    (hstaged : 0 < st.staged) (hcount : st.pageWriteCount = st'.pageWriteCount)
    (hbytes : ∀ i < st.staged, st.iapBuf.getD i 0 = st'.iapBuf.getD i 0)
    (hdata : data.length = 64) :
    SameResult (flashWriteBlock rom 64 st f st.nextAddress data)
      (flashWriteBlock rom 64 st' f' st.nextAddress data) := by
  obtain ⟨haddr, hunit, hmod, hlt, -, hhi⟩ := h.unit_spec hcfg hstaged
  have hend := hcfg.flashEnd
  have hoff : st.nextAddress % 256 = st.staged := rfl
  by_cases hmid : st.staged = 192
  swap
  · obtain ⟨hnew, -⟩ := staged_stages h.blocks hmid (overwrite st.iapBuf st.staged data)
      st.pageWriteCount
    rw [flashWriteBlock_stages rom h.blocks (.inl rfl) hmid,
      flashWriteBlock_stages rom h.blocks (.inl hnext.symm) hmid, hoff]
    refine ⟨rfl, hmem, .same rfl (by rw [hnew]; omega) hcount fun i hi => ?_⟩
    rw [hnew, hoff] at hi
    dsimp only
    rw [overwrite_getD (by rw [h.length]; omega), overwrite_getD (by rw [h'.length]; omega)]
    split_ifs
    · rfl
    · exact hbytes i (by omega)
  · rw [hmid] at haddr hbytes
    have hlen : (overwrite st.iapBuf 192 data).length = 256 := by
      rw [overwrite_length (by rw [h.length]; omega), h.length]
    have hlen' : (overwrite st'.iapBuf 192 data).length = 256 := by
      rw [overwrite_length (by rw [h'.length]; omega), h'.length]
    have hbuf : overwrite st.iapBuf 192 data = overwrite st'.iapBuf 192 data := by
      refine eq_of_getD_eq hlen hlen' fun i hi => ?_
      rw [overwrite_getD (by rw [h.length]; omega), overwrite_getD (by rw [h'.length]; omega)]
      split_ifs
      · rfl
      · exact hbytes i (by omega)
    have haddr' : st'.nextAddress = st.unit + 192 := hnext.symm.trans haddr
    by_cases haccepted : Accepted f.mem st.unit (overwrite st.iapBuf 192 data)
    · obtain ⟨g, hwrite, hg⟩ := flashWriteBlock_accepted hrom hunit (by omega) haddr h.length hdata
        haccepted
      have haccepted' : Accepted f'.mem st.unit (overwrite st'.iapBuf 192 data) := by
        rw [← hmem, ← hbuf]
        exact haccepted
      obtain ⟨g', hwrite', hg'⟩ := flashWriteBlock_accepted hrom hunit (by omega) haddr' h'.length
        hdata haccepted'
      rw [haddr, hwrite, hwrite', ← hbuf, ← hmem, ← hcount]
      refine ⟨rfl, ?_, .empty (staged_eq_zero hunit _ _) (staged_eq_zero hunit _ _) rfl⟩
      rw [hg, hg', ← hbuf, ← hmem]
    · have hrefused' : ¬Accepted f'.mem st.unit (overwrite st'.iapBuf 192 data) := by
        rw [← hmem, ← hbuf]
        exact haccepted
      rw [haddr, flashWriteBlock_not_accepted hrom hunit (by omega) haddr h.length hdata haccepted,
        flashWriteBlock_not_accepted hrom hunit (by omega) haddr' h'.length hdata hrefused', ← hbuf]
      refine ⟨rfl, hmem, .same rfl ?_ hcount fun i _ => rfl⟩
      rw [FlashState.staged]
      dsimp only
      omega

/-- A block where both states are stuck. -/
theorem SameStage.write_stuck (hrom : rom.Succeeds) (hcfg : IsBuild cfg) (h : InArea cfg st)
    (h' : InArea cfg st') (hmem : f.mem = f'.mem) (hs : Stuck f.mem st) (hs' : Stuck f.mem st')
    (hnext : st.nextAddress = st'.nextAddress ∨ (st.staged = 192 ∧ st'.staged = 192))
    (h64 : a % 64 = 0) (hdata : data.length = 64) :
    SameResult (flashWriteBlock rom 64 st f a data) (flashWriteBlock rom 64 st' f' a data) := by
  have hs'' : Stuck f'.mem st' := hmem ▸ hs'
  have hstaged : st.nextAddress = st'.nextAddress → st.staged = st'.staged := congrArg (· % 256)
  by_cases hno : a ≠ st.nextAddress ∧ a ≠ st'.nextAddress ∨ st.staged = 192 ∧ st'.staged = 192
  · obtain ⟨buf, hwrite, hstuck⟩ := hs.refuses hrom hcfg h h64 hdata (hno.imp (·.1) (·.1))
    obtain ⟨buf', hwrite', hstuck'⟩ := hs''.refuses hrom hcfg h' h64 hdata (hno.imp (·.2) (·.2))
    rw [hwrite, hwrite']
    exact ⟨rfl, hmem, .stuck hstuck (hmem ▸ hstuck') hnext⟩
  · obtain ⟨hat, hmid⟩ := not_or.mp hno
    have hnext := hnext.resolve_right hmid
    have hstaged := hstaged hnext
    have hmid : st.staged ≠ 192 := fun heq => hmid ⟨heq, hstaged ▸ heq⟩
    obtain rfl : a = st.nextAddress := by
      rw [← hnext] at hat
      exact not_not.mp fun hne => hat ⟨hne, hne⟩
    have hoff : st.nextAddress % 256 = st.staged := rfl
    have hstuck := hs'.stages h' (hstaged ▸ hmid) hdata st'.pageWriteCount
    rw [flashWriteBlock_stages rom h.blocks (.inl rfl) hmid,
      flashWriteBlock_stages rom h.blocks (.inl hnext.symm) hmid, hoff]
    rw [← hstaged, ← hnext] at hstuck
    exact ⟨rfl, hmem, .stuck (hs.stages h hmid hdata _) hstuck (.inl rfl)⟩

/-- The next block where the staged bytes are masked. -/
theorem SameStage.write_masked (hrom : rom.Succeeds) (hcfg : IsBuild cfg) (h : InArea cfg st)
    (h' : InArea cfg st') (hmem : f.mem = f'.mem) (hnext : st.nextAddress = st'.nextAddress)
    (hstaged : 0 < st.staged) (hcount : st.pageWriteCount = st'.pageWriteCount)
    (hlater : sectorMap.start st.unit ≠ st.unit) (hblank : Blank f.mem st.unit 64)
    (hbytes : ∀ i < st.staged, f.mem (st.unit + i) &&& st.iapBuf.getD i 0 =
      f.mem (st.unit + i) &&& st'.iapBuf.getD i 0)
    (hafter : (∀ i < 64, st.iapBuf.getD i 0 = 0xFF) ∨ (Spoiled f.mem st ∧ Spoiled f.mem st'))
    (hdata : data.length = 64) :
    SameResult (flashWriteBlock rom 64 st f st.nextAddress data)
      (flashWriteBlock rom 64 st' f' st.nextAddress data) := by
  obtain ⟨haddr, hunit, hmod, hlt, -, hhi⟩ := h.unit_spec hcfg hstaged
  have hend := hcfg.flashEnd
  have hoff : st.nextAddress % 256 = st.staged := rfl
  have hoff' : st'.staged = st.staged := congrArg (· % 256) hnext.symm
  have hunit' : st'.unit = st.unit := by rw [FlashState.unit, FlashState.unit, hnext]
  have hgetD : ∀ {b : List Byte}, b.length = 256 → ∀ i, (overwrite b st.staged data).getD i 0 =
      if st.staged ≤ i ∧ i < st.staged + 64 then data.getD (i - st.staged) 0 else b.getD i 0 := by
    intro b hb i
    rw [overwrite_getD (by omega), hdata]
  by_cases hmid : st.staged = 192
  swap
  · obtain ⟨hnew, hsame⟩ := staged_stages h.blocks hmid (overwrite st.iapBuf st.staged data)
      st.pageWriteCount
    obtain ⟨hnew', hsame'⟩ := staged_stages h.blocks hmid (overwrite st'.iapBuf st.staged data)
      st'.pageWriteCount
    have hu : (⟨overwrite st.iapBuf st.staged data, st.nextAddress + 64, st.pageWriteCount⟩ :
      FlashState).unit = st.unit := hsame
    have hu' : (⟨overwrite st'.iapBuf st.staged data, st.nextAddress + 64, st'.pageWriteCount⟩ :
      FlashState).unit = st.unit := hsame'
    rw [hoff] at hnew hnew'
    rw [flashWriteBlock_stages rom h.blocks (.inl rfl) hmid,
      flashWriteBlock_stages rom h.blocks (.inl hnext.symm) hmid, hoff]
    refine ⟨rfl, hmem, .masked rfl ?_ hcount ?_ ?_ ?_ ?_⟩
    · rw [hnew]
      omega
    · rw [hu]
      exact hlater
    · rw [hu]
      exact hblank
    · intro i hi
      rw [hnew] at hi
      rw [hu]
      dsimp only
      rw [hgetD h.length, hgetD h'.length]
      split_ifs
      · rfl
      · exact hbytes i (by omega)
    · -- what has been staged before is kept
      refine hafter.imp (fun hff i hi => ?_) ?_
      · dsimp only
        rw [hgetD h.length, if_neg (by omega)]
        exact hff i hi
      · rintro ⟨⟨i, hi, hne⟩, j, hj, hne'⟩
        refine ⟨⟨i, (Nat.lt_add_right 64 hi).trans_eq hnew.symm, ?_⟩, j,
          (Nat.lt_add_right 64 (hoff' ▸ hj)).trans_eq hnew'.symm, ?_⟩
        · rw [hu]
          dsimp only
          rw [hgetD h.length, if_neg (by omega)]
          exact hne
        · rw [hu']
          dsimp only
          rw [hgetD h'.length, if_neg (by omega), ← hunit']
          exact hne'
  · rw [hmid] at haddr hbytes hgetD
    have haddr' : st'.nextAddress = st.unit + 192 := hnext.symm.trans haddr
    have hlen : (overwrite st.iapBuf 192 data).length = 256 := by
      rw [overwrite_length (by rw [h.length]; omega), h.length]
    have hlen' : (overwrite st'.iapBuf 192 data).length = 256 := by
      rw [overwrite_length (by rw [h'.length]; omega), h'.length]
    obtain ⟨g, hwrite, hg⟩ := flashWriteBlock_accepted hrom hunit (by omega) haddr h.length hdata
      (.inr fun hr => hr.1 hblank)
    obtain ⟨g', hwrite', hg'⟩ := flashWriteBlock_accepted (f := f') hrom hunit (by omega) haddr'
      h'.length hdata (.inr fun hr => hr.1 (hmem ▸ hblank))
    rw [acceptedCount, if_neg hlater, add_zero] at hwrite hwrite'
    rw [acceptedMem, if_neg hlater] at hg hg'
    rw [haddr, hwrite, hwrite']
    refine ⟨rfl, ?_, .empty (staged_eq_zero hunit _ _) (staged_eq_zero hunit _ _) hcount⟩
    rw [hg, hg', ← hmem, programMem_eq_iff hlen hlen']
    intro i hi
    rw [hgetD h.length, hgetD h'.length]
    split_ifs
    · rfl
    · exact hbytes i (by omega)

/-- Completed bytes over blank flash: the driver notices them, and is stuck exactly if they were
not stored. -/
theorem stuck_completed_iff {m : Mem} (h : InArea cfg st) (hstaged : 64 ≤ st.staged)
    (hlater : sectorMap.start st.unit ≠ st.unit) (hblank : Blank m st.unit 64)
    (hne : ∃ j < 64, st.iapBuf.getD j 0 ≠ 0xFF) (c : Word) :
    Stuck (programMem m st.unit st.padded) ⟨st.padded, st.nextAddress, c⟩ ↔ Spoiled m st := by
  have hlt : st.staged < 256 := Nat.mod_lt _ (by decide)
  have hpadded := FlashState.padded_length h.length
  have hbyte : ∀ i < st.staged, programMem m st.unit st.padded (st.unit + i) =
      m (st.unit + i) &&& st.iapBuf.getD i 0 := by
    intro i hi
    rw [programMem_add m _ (by omega), FlashState.padded_getD h.length (by omega), if_pos hi]
  have hkept : ∀ i < st.staged, st.padded.getD i 0 = st.iapBuf.getD i 0 := by
    intro i hi
    rw [FlashState.padded_getD h.length (by omega), if_pos hi]
  constructor
  · rintro ⟨-, -, -, i, hi, hdiffers⟩
    have hi : i < st.staged := hi
    have hdiffers : st.padded.getD i 0 ≠ programMem m st.unit st.padded (st.unit + i) := hdiffers
    rw [hbyte i hi, hkept i hi] at hdiffers
    exact ⟨i, hi, hdiffers.symm⟩
  · rintro ⟨i, hi, hspoiled⟩
    refine ⟨show 0 < st.staged by omega, hlater, fun hused => ?_, i, hi, ?_⟩
    · obtain ⟨j, hj, hff⟩ := hne
      have hstored : programMem m st.unit st.padded (st.unit + j) = 0xFF :=
        hused (st.unit + j) ⟨Nat.le_add_right _ _, Nat.add_lt_add_left hj _⟩
      rw [hbyte j (by omega), hblank (st.unit + j) ⟨by omega, by omega⟩, allOnes_and] at hstored
      exact hff hstored
    · show st.padded.getD i 0 ≠ programMem m st.unit st.padded (st.unit + i)
      rw [hbyte i hi, hkept i hi]
      exact hspoiled.symm

/-- The completion where the same is staged. -/
theorem SameStage.complete_same (hrom : rom.Succeeds) (hcfg : IsBuild cfg) (h : InArea cfg st)
    (h' : InArea cfg st') (hmem : f.mem = f'.mem) (hnext : st.nextAddress = st'.nextAddress)
    (hstaged : 0 < st.staged) (hcount : st.pageWriteCount = st'.pageWriteCount)
    (hbytes : ∀ i < st.staged, st.iapBuf.getD i 0 = st'.iapBuf.getD i 0) :
    SameResult (flashComplete rom 64 st f) (flashComplete rom 64 st' f') := by
  obtain ⟨-, -, -, -, -, hhi⟩ := h.unit_spec hcfg hstaged
  have hend := hcfg.flashEnd
  have hunit : st'.unit = st.unit := by rw [FlashState.unit, FlashState.unit, hnext]
  have hstaged' : 0 < st'.staged := by
    rw [FlashState.staged, ← hnext]
    exact hstaged
  have hpadded := padded_congr h.length h'.length hnext hbytes
  by_cases haccepted : Accepted f.mem st.unit st.padded
  · have haccepted' : Accepted f'.mem st'.unit st'.padded := by
      rw [← hmem, ← hpadded, hunit]
      exact haccepted
    obtain ⟨g, hcomplete, hg⟩ := flashComplete_accepted hrom hstaged (by omega) h.length haccepted
    obtain ⟨g', hcomplete', hg'⟩ := flashComplete_accepted hrom hstaged' (by omega) h'.length
      haccepted'
    rw [hcomplete, hcomplete', ← hmem, ← hpadded, hunit, hcount]
    refine ⟨rfl, ?_, .same hnext hstaged rfl fun i _ => rfl⟩
    rw [hg, hg', ← hmem, ← hpadded, hunit]
  · have hrefused' : ¬Accepted f'.mem st'.unit st'.padded := by
      rw [← hmem, ← hpadded, hunit]
      exact haccepted
    rw [flashComplete_not_accepted hrom hstaged (by omega) h.length haccepted,
      flashComplete_not_accepted hrom hstaged' (by omega) h'.length hrefused', ← hpadded]
    exact ⟨rfl, hmem, .same hnext hstaged hcount fun i _ => rfl⟩

/-- The completion where the staged bytes are masked. -/
theorem SameStage.complete_masked (hrom : rom.Succeeds) (hcfg : IsBuild cfg) (h : InArea cfg st)
    (h' : InArea cfg st') (hmem : f.mem = f'.mem) (hnext : st.nextAddress = st'.nextAddress)
    (hstaged : 0 < st.staged) (hcount : st.pageWriteCount = st'.pageWriteCount)
    (hlater : sectorMap.start st.unit ≠ st.unit) (hblank : Blank f.mem st.unit 64)
    (hbytes : ∀ i < st.staged, f.mem (st.unit + i) &&& st.iapBuf.getD i 0 =
      f.mem (st.unit + i) &&& st'.iapBuf.getD i 0)
    (hafter : (∀ i < 64, st.iapBuf.getD i 0 = 0xFF) ∨ (Spoiled f.mem st ∧ Spoiled f.mem st')) :
    SameResult (flashComplete rom 64 st f) (flashComplete rom 64 st' f') := by
  obtain ⟨-, -, hmod, hlt, -, hhi⟩ := h.unit_spec hcfg hstaged
  have hend := hcfg.flashEnd
  have hunit : st'.unit = st.unit := by rw [FlashState.unit, FlashState.unit, hnext]
  have hsame : st'.staged = st.staged := congrArg (· % 256) hnext.symm
  have hfirst : 64 ≤ st.staged := by omega
  have hpadded := FlashState.padded_length h.length
  have hpadded' := FlashState.padded_length h'.length
  -- the completed units program the same
  have hprogram : programMem f.mem st.unit st.padded = programMem f.mem st.unit st'.padded := by
    rw [programMem_eq_iff hpadded hpadded']
    intro i hi
    rw [FlashState.padded_getD h.length hi, FlashState.padded_getD h'.length hi, hsame]
    split_ifs with hin
    · exact hbytes i hin
    · rfl
  obtain ⟨g, hcomplete, hg⟩ := flashComplete_accepted hrom hstaged (by omega) h.length
    (.inr fun hr => hr.1 hblank)
  obtain ⟨g', hcomplete', hg'⟩ := flashComplete_accepted (f := f') hrom (hsame.symm ▸ hstaged)
    (by omega) h'.length (.inr fun hr => hr.1 (by rw [← hmem, hunit]; exact hblank))
  rw [acceptedCount, if_neg hlater, add_zero] at hcomplete
  rw [acceptedCount, hunit, if_neg hlater, add_zero] at hcomplete'
  rw [acceptedMem, if_neg hlater] at hg
  rw [acceptedMem, hunit, if_neg hlater, ← hmem, ← hprogram] at hg'
  rw [hcomplete, hcomplete']
  refine ⟨by rw [hcount], hg.trans hg'.symm, ?_⟩
  dsimp only
  rw [hg]
  have hkept : ∀ i < st.staged, programMem f.mem st.unit st.padded (st.unit + i) =
      f.mem (st.unit + i) &&& st.iapBuf.getD i 0 := by
    intro i hi
    rw [programMem_add f.mem _ (by omega), FlashState.padded_getD h.length (by omega), if_pos hi]
  by_cases hff : ∀ i < 64, st.iapBuf.getD i 0 = 0xFF
  · refine .masked hnext hstaged hcount hlater (fun x hx => ?_) (fun i hi => ?_) (.inl fun i hi => ?_)
    · -- the place still looks blank
      have hx : InRange st.unit 64 x := hx
      obtain ⟨i, rfl⟩ := Nat.exists_eq_add_of_le hx.1
      have hi : i < 64 := by have := hx.2; omega
      rw [hkept i (by omega), hff i hi, hblank _ hx]
      rfl
    · have hi : i < st.staged := hi
      show programMem f.mem st.unit st.padded (st.unit + i) &&& st.padded.getD i 0 =
        programMem f.mem st.unit st.padded (st.unit + i) &&& st'.padded.getD i 0
      rw [hkept i hi, FlashState.padded_getD h.length (by omega), if_pos hi,
        FlashState.padded_getD h'.length (by omega), if_pos (by omega), BitVec.and_assoc,
        BitVec.and_self, hbytes i hi, BitVec.and_assoc, BitVec.and_self]
    · dsimp only
      rw [FlashState.padded_getD h.length (by omega), if_pos (by omega)]
      exact hff i hi
  · obtain ⟨hspoiled, hspoiled'⟩ := hafter.resolve_left hff
    obtain ⟨j, hj⟩ := not_forall.mp hff
    obtain ⟨hj, hne⟩ := Classical.not_imp.mp hj
    have hne' : st'.iapBuf.getD j 0 ≠ 0xFF := by
      have hbyte := hbytes j (by omega)
      rw [hblank _ ⟨by omega, by omega⟩, allOnes_and, allOnes_and] at hbyte
      rwa [← hbyte]
    have hstuck := (stuck_completed_iff h hfirst hlater hblank ⟨j, hj, hne⟩ st.pageWriteCount).mpr
      hspoiled
    have hstuck' := (stuck_completed_iff (m := f.mem) h' (hsame.symm ▸ hfirst)
      (hunit.symm ▸ hlater) (hunit.symm ▸ hblank) ⟨j, hj, hne'⟩ st'.pageWriteCount).mpr hspoiled'
    rw [hunit, ← hprogram] at hstuck'
    exact .stuck hstuck hstuck' (.inl hnext)

/-- **One call keeps states at the same stage**, and gives the same result. -/
theorem SameStage.write (hrom : rom.Succeeds) (hcfg : IsBuild cfg) (h : InArea cfg st)
    (h' : InArea cfg st') (hmem : f.mem = f'.mem) (hsame : SameStage f.mem st st')
    (hdata : data.length = 64) :
    SameResult (flashWriteBlock rom 64 st f a data) (flashWriteBlock rom 64 st' f' a data) := by
  by_cases h64 : a % 64 = 0
  swap
  · rw [flashWriteBlock_unaligned rom h64, flashWriteBlock_unaligned rom h64]
    exact ⟨rfl, hmem, hsame⟩
  cases hsame with
  | empty hstaged hstaged' hcount =>
      by_cases ha : a % 256 = 0
      · exact SameStage.write_first h h' hmem hstaged hstaged' hcount ha hdata
      · rw [FlashState.staged] at hstaged hstaged'
        exact SameStage.write_out_of_order (.empty hstaged hstaged' hcount) hmem h64 (by omega)
          (by omega)
  | same hnext hstaged hcount hbytes =>
      by_cases hat : st.nextAddress = a
      · subst hat
        exact SameStage.write_same hrom hcfg h h' hmem hnext hstaged hcount hbytes hdata
      · have hstaged' : 0 < st'.staged := by rwa [FlashState.staged, ← hnext]
        exact SameStage.write_out_of_order (.same hnext hstaged hcount hbytes) hmem h64 (by omega)
          (by omega)
  | stuck hs hs' hnext =>
      exact SameStage.write_stuck hrom hcfg h h' hmem hs hs' hnext h64 hdata
  | masked hnext hstaged hcount hlater hblank hbytes hafter =>
      by_cases hat : st.nextAddress = a
      · subst hat
        exact SameStage.write_masked hrom hcfg h h' hmem hnext hstaged hcount hlater hblank hbytes
          hafter hdata
      · have hstaged' : 0 < st'.staged := by rwa [FlashState.staged, ← hnext]
        exact SameStage.write_out_of_order
          (.masked hnext hstaged hcount hlater hblank hbytes hafter) hmem h64 (by omega) (by omega)

theorem SameStage.complete (hrom : rom.Succeeds) (hcfg : IsBuild cfg) (h : InArea cfg st)
    (h' : InArea cfg st') (hmem : f.mem = f'.mem) (hsame : SameStage f.mem st st') :
    SameResult (flashComplete rom 64 st f) (flashComplete rom 64 st' f') := by
  cases hsame with
  | empty hstaged hstaged' hcount =>
      rw [flashComplete_empty rom hstaged, flashComplete_empty rom hstaged']
      exact ⟨by rw [hcount], hmem, .empty hstaged hstaged' hcount⟩
  | same hnext hstaged hcount hbytes =>
      exact SameStage.complete_same hrom hcfg h h' hmem hnext hstaged hcount hbytes
  | stuck hs hs' hnext =>
      obtain ⟨hcomplete, hstuck⟩ := hs.completes hrom hcfg h
      obtain ⟨hcomplete', hstuck'⟩ := Stuck.completes hrom hcfg h' (hmem ▸ hs')
      rw [hcomplete, hcomplete']
      exact ⟨rfl, hmem, .stuck hstuck (hmem ▸ hstuck') hnext⟩
  | masked hnext hstaged hcount hlater hblank hbytes hafter =>
      exact SameStage.complete_masked hrom hcfg h h' hmem hnext hstaged hcount hlater hblank hbytes
        hafter

/-! ### Calls -/

/-- What a call does, with the size of a block. -/
theorem flashMachine_eq (hcfg : IsBuild cfg) (rom : IapRom) (s : FlashState × Flash) :
    (∀ a data hrange hdata,
      (board rom cfg).flashMachine.step s (.write a data hrange hdata) =
          (flashWriteBlock rom 64 s.1 s.2 a data).2 ∧
        (board rom cfg).flashMachine.output s (.write a data hrange hdata) =
          if (flashWriteBlock rom 64 s.1 s.2 a data).1 < 0 then none else some 0) ∧
    (board rom cfg).flashMachine.step s .complete = (flashComplete rom 64 s.1 s.2).2 ∧
    (board rom cfg).flashMachine.output s .complete =
      if (flashComplete rom 64 s.1 s.2).1 < 0 then none
      else some (BitVec.ofInt 32 (flashComplete rom 64 s.1 s.2).1) := by
  have hbackend : (board rom cfg).backend = backend rom 64 := board_backend hcfg.block
  obtain ⟨st, f⟩ := s
  simp only [Board.flashMachine, hbackend, backend, and_self, implies_true]

theorem inArea_step (hrom : rom.Succeeds) (hcfg : IsBuild cfg) (s : FlashState × Flash)
    (call : FlashCall (board rom cfg).cfg) (h : InArea cfg s.1) :
    InArea cfg ((board rom cfg).flashMachine.step s call).1 := by
  obtain ⟨hwrite, hcomplete, -⟩ := flashMachine_eq hcfg rom s
  cases call with
  | complete =>
      rw [hcomplete]
      exact h.complete hrom hcfg s.2
  | write a data hrange hdata =>
      obtain ⟨hlo, hhi⟩ := (hcfg.inRange_iff _).mp hrange
      rw [(hwrite a data hrange hdata).1]
      exact h.write hrom hcfg hlo hhi hdata s.2

/-- **States at the same stage cannot be told apart.** -/
theorem SameStage.indist (hrom : rom.Succeeds) (hcfg : IsBuild cfg) (h : InArea cfg st)
    (h' : InArea cfg st') (hmem : f.mem = f'.mem) (hsame : SameStage f.mem st st') :
    (board rom cfg).flashMachine.Indist (st, f) (st', f') := by
  refine Mealy.indist_of_bisim (R := fun s t => (InArea cfg s.1 ∧ InArea cfg t.1) ∧
    s.2.mem = t.2.mem ∧ SameStage s.2.mem s.1 t.1) (fun _ _ hR => hR.2.1) ?_ ?_ ⟨⟨h, h'⟩, hmem, hsame⟩
  · rintro s t call ⟨⟨h, h'⟩, hmem, hsame⟩
    obtain ⟨hwrite, -, hcomplete⟩ := flashMachine_eq hcfg rom s
    obtain ⟨hwrite', -, hcomplete'⟩ := flashMachine_eq hcfg rom t
    cases call with
    | complete => rw [hcomplete, hcomplete', (hsame.complete hrom hcfg h h' hmem).ret]
    | write a data hrange hdata =>
        rw [(hwrite a data hrange hdata).2, (hwrite' a data hrange hdata).2,
          (hsame.write hrom hcfg h h' hmem hdata).ret]
  · rintro s t call ⟨⟨h, h'⟩, hmem, hsame⟩
    refine ⟨⟨inArea_step hrom hcfg s call h, inArea_step hrom hcfg t call h'⟩, ?_⟩
    obtain ⟨hwrite, hcomplete, -⟩ := flashMachine_eq hcfg rom s
    obtain ⟨hwrite', hcomplete', -⟩ := flashMachine_eq hcfg rom t
    cases call with
    | complete =>
        rw [hcomplete, hcomplete']
        exact ⟨(hsame.complete hrom hcfg h h' hmem).mem, (hsame.complete hrom hcfg h h' hmem).stage⟩
    | write a data hrange hdata =>
        rw [(hwrite a data hrange hdata).1, (hwrite' a data hrange hdata).1]
        exact ⟨(hsame.write hrom hcfg h h' hmem hdata).mem, (hsame.write hrom hcfg h h' hmem hdata).stage⟩

end SameStage

end Lpc176x

end Terraboot
