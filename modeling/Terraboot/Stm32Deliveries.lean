import Terraboot.Boards
import Terraboot.Stm32Pages
import Terraboot.Upload

/-!
# Deliveries to an STM32

What becomes of one block of an upload that is delivered once or more often in a row. The
first block of a page decides, when it arrives for the first or for the second time,
whether the rest of the page is erased (`Stm32.PageErased`).

## Main results

* `Stm32.deliveries_start`: the first block of a page, delivered any number of times.
* `Stm32.deliveries_later`: any other block.
-/

open NorFlash Paging

namespace Terraboot

namespace Stm32

/-- The data is what erased flash holds. -/
def DataBlank (data : List Byte) : Prop := ∀ v ∈ data, v = 0xFF

instance (data : List Byte) : Decidable (DataBlank data) :=
  inferInstanceAs (Decidable (∀ v ∈ data, v = 0xFF))

/-- The driver erases a page with this content while the first block is delivered and then
resent a number of times: at once if the page is found neither erased nor written, or when
the block is resent and what the driver looks at then is not blank. -/
def PageErased (m : Mem) (a size : ℕ) (data : List Byte) (resent : ℕ) : Prop :=
  (¬FoundErased m a size ∧ ¬FoundWritten m a size data) ∨
    (0 < resent ∧ ¬DataBlank data ∧ ¬Blank m (a + 64) (size / 4 - 16))

instance (m : Mem) (a size : ℕ) (data : List Byte) (resent : ℕ) :
    Decidable (PageErased m a size data resent) :=
  inferInstanceAs (Decidable (_ ∨ _))

/-- How often `page_write_count` is incremented while the first block is resent. -/
def resentWrites (m : Mem) (a size : ℕ) (data : List Byte) (erased : Bool) (resent : ℕ) : ℕ :=
  if DataBlank data then resent
  else if 0 < resent ∧ erased = false ∧ ¬Blank m (a + 64) (size / 4 - 16) then 1
  else 0

/-- How often `page_write_count` is incremented for a page. -/
def pageWrites (m : Mem) (a size : ℕ) (data : List Byte) (resent : ℕ) : ℕ :=
  (if FoundErased m a size ∨ ¬FoundWritten m a size data then 1 else 0) +
    resentWrites m a size data (decide (¬FoundErased m a size ∧ ¬FoundWritten m a size data)) resent

/-! ### What the driver finds once the first block is there -/

variable {m : Mem} {a size : ℕ} {data : List Byte} {erased : Bool}

/-- The rest of the first quarter is blank once the first block has been stored. -/
def QuarterFree (m : Mem) (a size : ℕ) (erased : Bool) : Prop :=
  erased = true ∨ Blank m (a + 64) (size / 4 - 64)

theorem blank_pageMem (h : data.length = 64) {b k : ℕ} (hb : a + 64 ≤ b)
    (hk : b + k ≤ a + size) :
    Blank (pageMem m a size data erased) b k ↔ erased = true ∨ Blank m b k := by
  have happly : ∀ x, InRange b k x →
      pageMem m a size data erased x = if erased = true then 0xFF else m x := by
    rintro x ⟨h₁, h₂⟩
    have hout : ¬InRange a data.length x := fun hx => by
      obtain ⟨_, _⟩ := hx
      omega
    have hin : InRange a size x := ⟨by omega, by omega⟩
    rw [pageMem_apply, if_neg hout]
    cases erased with
    | false => exact if_neg fun hx => Bool.false_ne_true hx.1
    | true => exact if_pos ⟨rfl, hin⟩
  constructor
  · intro hblank
    cases erased with
    | false => exact .inr fun x hx => (happly x hx).symm.trans (hblank x hx)
    | true => exact .inl rfl
  · intro hor x hx
    rw [happly x hx]
    rcases hor with rfl | hblank
    · rfl
    · rw [hblank x hx, ite_self]

theorem foundErased_pageMem (h : data.length = 64) (hsize : 1024 ≤ size)
    (hfree : QuarterFree m a size erased) :
    FoundErased (pageMem m a size data erased) a size ↔ DataBlank data := by
  have hrest : Blank (pageMem m a size data erased) (a + 64) (size / 4 - 64) :=
    (blank_pageMem h le_rfl (by omega)).mpr hfree
  have hblock : ∀ i < 64, pageMem m a size data erased (a + i) = data.getD i 0 := by
    intro i hi
    rw [pageMem_apply, if_pos ⟨by omega, by omega⟩, Nat.add_sub_cancel_left]
  constructor
  · intro herased v hv
    obtain ⟨i, hi, rfl⟩ := List.getElem_of_mem hv
    have hbyte := herased (a + i) ⟨by omega, by omega⟩
    rw [hblock i (by omega), List.getD_eq_getElem?_getD, List.getElem?_eq_getElem hi] at hbyte
    exact hbyte
  · rintro hdata x ⟨h₁, h₂⟩
    by_cases hx : x < a + 64
    · have hlt : x - a < data.length := by omega
      have hbyte := hblock (x - a) (by omega)
      rw [Nat.add_sub_cancel' h₁, List.getD_eq_getElem?_getD, List.getElem?_eq_getElem hlt] at hbyte
      rw [hbyte]
      exact hdata _ (List.getElem_mem hlt)
    · exact hrest x ⟨by omega, by omega⟩

theorem foundWritten_pageMem (h : data.length = 64) (hsize : 1024 ≤ size) :
    FoundWritten (pageMem m a size data erased) a size data ↔
      erased = true ∨ Blank m (a + 64) (size / 4 - 16) := by
  have hread : data = read (pageMem m a size data erased) a 64 := by
    have := read_pageMem m a size data erased
    rw [h] at this
    exact this.symm
  rw [FoundWritten, blank_pageMem h le_rfl (by omega)]
  exact and_iff_right hread

/-- The erase that one more delivery brings about. -/
def resendErases (m : Mem) (a size : ℕ) (data : List Byte) (erased : Bool) : Bool :=
  decide (¬DataBlank data ∧ ¬(erased = true ∨ Blank m (a + 64) (size / 4 - 16)))

/-- After a delivery that erased the page, or could not, further ones do not erase it. -/
theorem resendErases_or (n : ℕ) :
    ((erased || resendErases m a size data erased) || decide (0 < n ∧ ¬DataBlank data ∧
        ¬Blank m (a + 64) (size / 4 - 16))) =
      (erased || decide (0 < n + 1 ∧ ¬DataBlank data ∧ ¬Blank m (a + 64) (size / 4 - 16))) := by
  cases erased with
  | true => rfl
  | false =>
      by_cases hdata : DataBlank data <;> by_cases hrest : Blank m (a + 64) (size / 4 - 16) <;>
        simp [resendErases, hdata, hrest]

theorem resentWrites_zero : resentWrites m a size data erased 0 = 0 := by
  have hnone : ¬(0 < 0 ∧ erased = false ∧ ¬Blank m (a + 64) (size / 4 - 16)) :=
    fun h => Nat.lt_irrefl 0 h.1
  rw [resentWrites, if_neg hnone, ite_self]

/-- The pages counted for one more delivery. -/
theorem resentWrites_succ (n : ℕ) :
    resentWrites m a size data erased (n + 1) =
      (if DataBlank data ∨ ¬(erased = true ∨ Blank m (a + 64) (size / 4 - 16)) then 1 else 0) +
        resentWrites m a size data (erased || resendErases m a size data erased) n := by
  by_cases hdata : DataBlank data
  · rw [resentWrites, resentWrites, if_pos hdata, if_pos hdata, if_pos (.inl hdata), Nat.add_comm]
  · by_cases hrest : Blank m (a + 64) (size / 4 - 16) <;> cases erased <;>
      simp [resentWrites, resendErases, hdata, hrest]

/-- A page that is not erased at once has its first quarter free. -/
theorem quarterFree_of_found (hsize : 1024 ≤ size)
    (hfound : FoundErased m a size ∨ FoundWritten m a size data) :
    Blank m (a + 64) (size / 4 - 64) := by
  rcases hfound with herased | ⟨-, hrest⟩
  · exact herased.mono (by omega) (by omega)
  · exact hrest.mono le_rfl (by omega)

/-! ### Requests -/

section Requests

variable {chip : Stm32} {cfg : Config} {reg : ℕ}

theorem board_flashWriteBlock (hblock : cfg.blockSize = 64) (st : FlashState) (f : Flash) (a : ℕ)
    (data : List Byte) : (Stm32.board chip reg cfg).backend.flashWriteBlock st f a data =
      flashWriteBlock chip reg 64 st f a data := by
  rw [← hblock]
  rfl

/-- The first block of a page is acknowledged and stored. -/
theorem dispatch_start (hblock : cfg.blockSize = 64) (hstart : (chip.pageMap reg).start a = a)
    (ha : a < 2 ^ 32) (hrange : flashcmdBlockInRange cfg a = true) (h : data.length = 64)
    (d : Device FlashState Word) (now : Word) :
    Acked (Stm32.board chip reg cfg) d (sendBlock now a data h) ∧
      (serve (Stm32.board chip reg cfg) d [sendBlock now a data h]).flash.mem =
        pageMem d.flash.mem a (chip.flashGetPageSize reg a) data
          (decide (¬FoundErased d.flash.mem a (chip.flashGetPageSize reg a) ∧
            ¬FoundWritten d.flash.mem a (chip.flashGetPageSize reg a) data)) ∧
      (serve (Stm32.board chip reg cfg) d [sendBlock now a data h]).backend.pageWriteCount =
        d.backend.pageWriteCount + BitVec.ofNat 32 (if FoundErased d.flash.mem a
          (chip.flashGetPageSize reg a) ∨ ¬FoundWritten d.flash.mem a
          (chip.flashGetPageSize reg a) data then 1 else 0) := by
  obtain ⟨f', hwrite, hmem⟩ := flashWriteBlock_start hstart ha h d.backend d.flash
  obtain ⟨hbackend, hflash, hacked⟩ := commandDispatch_sendBlock (b := Stm32.board chip reg cfg)
    hblock d now ha hrange h
  rw [board_flashWriteBlock hblock, hwrite] at hbackend hflash hacked
  refine ⟨hacked.mpr le_rfl, ?_, ?_⟩
  · rw [serve_cons, ← hmem]
    exact congrArg NorFlash.Flash.mem hflash
  · rw [serve_cons]
    exact congrArg FlashState.pageWriteCount hbackend

/-- A later block is acknowledged and stored, or not acknowledged. -/
theorem dispatch_later (hblock : cfg.blockSize = 64) (hstart : (chip.pageMap reg).start a ≠ a)
    (h64 : a % 64 = 0) (ha : a < 2 ^ 32) (hrange : flashcmdBlockInRange cfg a = true)
    (h : data.length = 64) (d : Device FlashState Word) (now : Word) :
    (Acked (Stm32.board chip reg cfg) d (sendBlock now a data h) ↔ Stores d.flash.mem a data) ∧
      (Stores d.flash.mem a data →
        (serve (Stm32.board chip reg cfg) d [sendBlock now a data h]).flash.mem =
          write d.flash.mem a data ∧
        (serve (Stm32.board chip reg cfg) d [sendBlock now a data h]).backend = d.backend) := by
  obtain ⟨hbackend, hflash, hacked⟩ := commandDispatch_sendBlock (b := Stm32.board chip reg cfg)
    hblock d now ha hrange h
  rw [board_flashWriteBlock hblock] at hbackend hflash hacked
  rcases flashWriteBlock_later hstart h64 ha data d.backend d.flash with
    ⟨hstores, f', hwrite, hmem⟩ | ⟨hstores, hfail⟩
  · rw [hwrite] at hbackend hflash hacked
    refine ⟨iff_of_true (hacked.mpr le_rfl) hstores, fun _ => ⟨?_, ?_⟩⟩
    · rw [serve_cons, ← hmem]
      exact congrArg NorFlash.Flash.mem hflash
    · exact hbackend
  · refine ⟨iff_of_false (fun hack => ?_) hstores, fun hs => absurd hs hstores⟩
    exact absurd (hacked.mp hack) (Int.not_le.mpr hfail)

/-- One more delivery of a block that is there is acknowledged; it can erase the rest of the
page, and counts unless it finds the page written. -/
theorem dispatch_resend (hblock : cfg.blockSize = 64) (hstart : (chip.pageMap reg).start a = a)
    (ha : a < 2 ^ 32) (hrange : flashcmdBlockInRange cfg a = true) (h : data.length = 64)
    {d : Device FlashState Word}
    (hmem : d.flash.mem = pageMem m a (chip.flashGetPageSize reg a) data erased)
    (hfree : QuarterFree m a (chip.flashGetPageSize reg a) erased) (now : Word) :
    Acked (Stm32.board chip reg cfg) d (sendBlock now a data h) ∧
      (serve (Stm32.board chip reg cfg) d [sendBlock now a data h]).flash.mem =
        pageMem m a (chip.flashGetPageSize reg a) data
          (erased || resendErases m a (chip.flashGetPageSize reg a) data erased) ∧
      (serve (Stm32.board chip reg cfg) d [sendBlock now a data h]).backend.pageWriteCount =
        d.backend.pageWriteCount + BitVec.ofNat 32 (if DataBlank data ∨ ¬(erased = true ∨
          Blank m (a + 64) (chip.flashGetPageSize reg a / 4 - 16)) then 1 else 0) := by
  obtain ⟨j, hj, hsize⟩ := exists_pageSize chip reg a
  have h1024 : 1024 ≤ chip.flashGetPageSize reg a := by omega
  obtain ⟨hack, hmem', hcount⟩ := dispatch_start hblock hstart ha hrange h d now
  have herased : FoundErased d.flash.mem a (chip.flashGetPageSize reg a) ↔ DataBlank data := by
    rw [hmem, foundErased_pageMem h h1024 hfree]
  have hwritten : FoundWritten d.flash.mem a (chip.flashGetPageSize reg a) data ↔
      erased = true ∨ Blank m (a + 64) (chip.flashGetPageSize reg a / 4 - 16) := by
    rw [hmem, foundWritten_pageMem h h1024]
  have herases : decide (¬FoundErased d.flash.mem a (chip.flashGetPageSize reg a) ∧
      ¬FoundWritten d.flash.mem a (chip.flashGetPageSize reg a) data) =
      resendErases m a (chip.flashGetPageSize reg a) data erased := by
    rw [resendErases, decide_eq_decide, herased, hwritten]
  refine ⟨hack, ?_, ?_⟩
  · rw [hmem', herases, hmem, pageMem_pageMem]
  · rw [hcount, if_congr (or_congr herased (not_congr hwritten)) rfl rfl]

/-- **The first block of a page, once it is there**: resending it is always acknowledged, and
the first time can erase the rest of the page. -/
theorem resend_start (hblock : cfg.blockSize = 64) (hstart : (chip.pageMap reg).start a = a)
    (ha : a < 2 ^ 32) (hrange : flashcmdBlockInRange cfg a = true) (h : data.length = 64)
    (times : List Word) {d : Device FlashState Word}
    (hmem : d.flash.mem = pageMem m a (chip.flashGetPageSize reg a) data erased)
    (hfree : QuarterFree m a (chip.flashGetPageSize reg a) erased) :
    AllAcked (Stm32.board chip reg cfg) d (times.map fun t => sendBlock t a data h) ∧
      (serve (Stm32.board chip reg cfg) d (times.map fun t => sendBlock t a data h)).flash.mem =
        pageMem m a (chip.flashGetPageSize reg a) data (erased || decide (0 < times.length ∧
          ¬DataBlank data ∧ ¬Blank m (a + 64) (chip.flashGetPageSize reg a / 4 - 16))) ∧
      (serve (Stm32.board chip reg cfg) d
          (times.map fun t => sendBlock t a data h)).backend.pageWriteCount =
        d.backend.pageWriteCount + BitVec.ofNat 32
          (resentWrites m a (chip.flashGetPageSize reg a) data erased times.length) := by
  induction times generalizing erased d with
  | nil =>
      refine ⟨trivial, ?_, ?_⟩
      · rw [List.map_nil, List.length_nil, decide_eq_false fun hn => Nat.lt_irrefl 0 hn.1,
          Bool.or_false]
        exact hmem
      · rw [List.length_nil, resentWrites_zero]
        exact (BitVec.add_zero _).symm
  | cons t ts ih =>
      obtain ⟨hack, hmem', hcount⟩ := dispatch_resend hblock hstart ha hrange h hmem hfree t
      have hfree' : QuarterFree m a (chip.flashGetPageSize reg a)
          (erased || resendErases m a (chip.flashGetPageSize reg a) data erased) := by
        rcases hfree with rfl | hblank
        · exact .inl rfl
        · exact .inr hblank
      obtain ⟨hacks, hmems, hcounts⟩ := ih hmem' hfree'
      rw [List.map_cons, List.length_cons]
      refine ⟨⟨hack, hacks⟩, ?_, ?_⟩
      · rw [resendErases_or] at hmems
        exact hmems
      · rw [resentWrites_succ, BitVec.ofNat_add, ← BitVec.add_assoc, ← hcount]
        exact hcounts

/-- **The first block of a page**, delivered any number of times, is acknowledged each time
and stored, and the rest of the page is kept or erased. -/
theorem deliveries_start (hblock : cfg.blockSize = 64) (hstart : (chip.pageMap reg).start a = a)
    (ha : a < 2 ^ 32) (hrange : flashcmdBlockInRange cfg a = true) (u : Upload Word)
    (d : Device FlashState Word) :
    AllAcked (Stm32.board chip reg cfg) d (u.deliveries a) ∧
      (serve (Stm32.board chip reg cfg) d (u.deliveries a)).flash.mem =
        pageMem d.flash.mem a (chip.flashGetPageSize reg a) (u.block a) (decide (PageErased
          d.flash.mem a (chip.flashGetPageSize reg a) (u.block a) (u.again a).length)) ∧
      (serve (Stm32.board chip reg cfg) d (u.deliveries a)).backend.pageWriteCount =
        d.backend.pageWriteCount + BitVec.ofNat 32 (pageWrites d.flash.mem a
          (chip.flashGetPageSize reg a) (u.block a) (u.again a).length) := by
  obtain ⟨j, hj, hsize⟩ := exists_pageSize chip reg a
  have h := u.block_length a
  obtain ⟨hack, hmem, hcount⟩ :=
    dispatch_start hblock hstart ha hrange h d (u.first a)
  have hfree : QuarterFree d.flash.mem a (chip.flashGetPageSize reg a)
      (decide (¬FoundErased d.flash.mem a (chip.flashGetPageSize reg a) ∧
        ¬FoundWritten d.flash.mem a (chip.flashGetPageSize reg a) (u.block a))) := by
    by_cases hfound : FoundErased d.flash.mem a (chip.flashGetPageSize reg a) ∨
        FoundWritten d.flash.mem a (chip.flashGetPageSize reg a) (u.block a)
    · exact .inr (quarterFree_of_found (by omega) hfound)
    · exact .inl (decide_eq_true (not_or.mp hfound))
  obtain ⟨hacks, hmems, hcounts⟩ :=
    resend_start hblock hstart ha hrange h (u.again a) hmem hfree
  refine ⟨⟨hack, hacks⟩, ?_, ?_⟩
  · rw [← Bool.decide_or] at hmems
    exact hmems
  · rw [hcount, BitVec.add_assoc, ← BitVec.ofNat_add] at hcounts
    exact hcounts

/-- A later block, once it is there: resending it changes nothing. -/
theorem resend_later (hblock : cfg.blockSize = 64) (hstart : (chip.pageMap reg).start a ≠ a)
    (h64 : a % 64 = 0) (ha : a < 2 ^ 32) (hrange : flashcmdBlockInRange cfg a = true)
    (h : data.length = 64) (times : List Word) {d : Device FlashState Word}
    (hmem : d.flash.mem = write m a data) :
    AllAcked (Stm32.board chip reg cfg) d (times.map fun t => sendBlock t a data h) ∧
      (serve (Stm32.board chip reg cfg) d (times.map fun t => sendBlock t a data h)).flash.mem =
        write m a data ∧
      (serve (Stm32.board chip reg cfg) d (times.map fun t => sendBlock t a data h)).backend =
        d.backend := by
  induction times generalizing d with
  | nil => exact ⟨trivial, hmem, rfl⟩
  | cons t ts ih =>
      have hstores : Stores d.flash.mem a data := by
        rw [hmem]
        exact stores_write m a data
      obtain ⟨hacked, hresult⟩ :=
        dispatch_later hblock hstart h64 ha hrange h d t
      obtain ⟨hmem', hbackend⟩ := hresult hstores
      rw [hmem, write_write] at hmem'
      obtain ⟨hacks, hmems, hbackends⟩ := ih hmem'
      exact ⟨⟨hacked.mpr hstores, hacks⟩, hmems, hbackends.trans hbackend⟩

/-- **A later block**, delivered any number of times, is acknowledged exactly if its place
is free as far as it has to be, or it is there already; then it is stored, and nothing
else changes. -/
theorem deliveries_later (hblock : cfg.blockSize = 64) (hstart : (chip.pageMap reg).start a ≠ a)
    (h64 : a % 64 = 0) (ha : a < 2 ^ 32) (hrange : flashcmdBlockInRange cfg a = true)
    (u : Upload Word) (d : Device FlashState Word) :
    (AllAcked (Stm32.board chip reg cfg) d (u.deliveries a) ↔
        Stores d.flash.mem a (u.block a)) ∧
      (Stores d.flash.mem a (u.block a) →
        (serve (Stm32.board chip reg cfg) d (u.deliveries a)).flash.mem =
          write d.flash.mem a (u.block a) ∧
        (serve (Stm32.board chip reg cfg) d (u.deliveries a)).backend = d.backend) := by
  have h := u.block_length a
  obtain ⟨hacked, hresult⟩ :=
    dispatch_later hblock hstart h64 ha hrange h d (u.first a)
  constructor
  · constructor
    · exact fun hacks => hacked.mp hacks.1
    · intro hstores
      obtain ⟨hmem, -⟩ := hresult hstores
      exact ⟨hacked.mpr hstores,
        (resend_later hblock hstart h64 ha hrange h (u.again a) hmem).1⟩
  · intro hstores
    obtain ⟨hmem, hbackend⟩ := hresult hstores
    obtain ⟨-, hmems, hbackends⟩ :=
      resend_later hblock hstart h64 ha hrange h (u.again a) hmem
    exact ⟨hmems, hbackends.trans hbackend⟩

end Requests

end Stm32

end Terraboot
