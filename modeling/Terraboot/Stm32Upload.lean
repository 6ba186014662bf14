import Terraboot.Stm32Deliveries

/-!
# Uploads to an STM32

An upload walks through the application area block by block. Behind the block that is being
written, flash is as it was before the upload, except that the rest of the current page
may have been erased (`Stm32.Untouched`); so what becomes of a block depends on the old
content, on the block, and on what the first block of its page has done to the page.

## Main results

* `Stm32.deliveries_step`: one block of an upload.
* `Stm32.sendBlocks_run`: any number of them.
* `Stm32.upload_stored_iff`: which uploads succeed.
-/

open NorFlash Paging

namespace Terraboot

namespace Stm32

/-! ### Which uploads succeed -/

section Conditions

variable {T : Type} (P : PageMap) (m : Mem) (u : Upload T)

/-- In the upload to a flash with this content, the page that starts at `s` is erased. -/
def ErasesPage (s : ℕ) : Prop := PageErased m s (P.size s) (u.block s) (u.again s).length

instance (s : ℕ) : Decidable (ErasesPage P m u s) :=
  inferInstanceAs (Decidable (PageErased _ _ _ _ _))

/-- The block for an address can be stored: it is the first of its page, or the page gets
erased, or the old content of its place permits. -/
def Storable (a : ℕ) : Prop :=
  P.start a = a ∨ ErasesPage P m u (P.start a) ∨ Stores m a (u.block a)

/-- What the block for an address adds to `page_write_count`. -/
def blockWrites (a : ℕ) : ℕ :=
  if P.start a = a then pageWrites m a (P.size a) (u.block a) (u.again a).length else 0

/-- What the blocks from an address on add to `page_write_count`. -/
def uploadWrites (a : ℕ) : ℕ → ℕ
  | 0 => 0
  | k + 1 => blockWrites P m u a + uploadWrites (a + 64) k

/-- The flash from `a` on, in an upload that has got there: as before, except for the rest
of a page that has been erased. -/
structure Untouched (a : ℕ) (M : Mem) : Prop where
  erased : ∀ x, a ≤ x → P.start x < a → ErasesPage P m u (P.start x) → M x = 0xFF
  kept : ∀ x, a ≤ x → (P.start x < a → ¬ErasesPage P m u (P.start x)) → M x = m x

end Conditions

/-! ### The decisions depend on the page only -/

section Congruence

variable {m m' : Mem} {a size : ℕ} {data : List Byte} {resent : ℕ}

theorem foundErased_congr (h : ∀ x, InRange a size x → m x = m' x) :
    FoundErased m a size ↔ FoundErased m' a size :=
  blank_congr fun x hx => h x ⟨hx.1, by obtain ⟨_, _⟩ := hx; omega⟩

theorem rest_congr (h : ∀ x, InRange a size x → m x = m' x) :
    Blank m (a + 64) (size / 4 - 16) ↔ Blank m' (a + 64) (size / 4 - 16) :=
  blank_congr fun x hx => by
    obtain ⟨_, _⟩ := hx
    exact h x ⟨by omega, by omega⟩

theorem foundWritten_congr (hsize : 1024 ≤ size) (h : ∀ x, InRange a size x → m x = m' x) :
    FoundWritten m a size data ↔ FoundWritten m' a size data := by
  have hread : read m a 64 = read m' a 64 :=
    read_congr fun x hx => h x ⟨hx.1, by obtain ⟨_, _⟩ := hx; omega⟩
  rw [FoundWritten, FoundWritten, hread, rest_congr h]

theorem pageErased_congr (hsize : 1024 ≤ size) (h : ∀ x, InRange a size x → m x = m' x) :
    PageErased m a size data resent ↔ PageErased m' a size data resent := by
  rw [PageErased, PageErased, foundErased_congr h, foundWritten_congr hsize h, rest_congr h]

theorem pageWrites_congr (hsize : 1024 ≤ size) (h : ∀ x, InRange a size x → m x = m' x) :
    pageWrites m a size data resent = pageWrites m' a size data resent := by
  simp only [pageWrites, resentWrites, foundErased_congr h, foundWritten_congr hsize h,
    rest_congr h]

theorem stores_congr (hdata : data.length = 64) (h : ∀ x, InRange a 64 x → m x = m' x) :
    Stores m a data ↔ Stores m' a data := by
  have hread : read m a data.length = read m' a data.length := by
    rw [hdata]
    exact read_congr h
  have hfree : Blank m a 16 ↔ Blank m' a 16 :=
    blank_congr fun x hx => h x ⟨hx.1, by obtain ⟨_, _⟩ := hx; omega⟩
  have hfits : (∀ i < data.length, m (a + i) &&& data.getD i 0 = data.getD i 0) ↔
      ∀ i < data.length, m' (a + i) &&& data.getD i 0 = data.getD i 0 :=
    forall_congr' fun i => imp_congr_right fun hi => by
      rw [h (a + i) ⟨by omega, by omega⟩]
  rw [Stores, Stores, hread, hfree, hfits]

end Congruence

/-! ### What an upload has not reached yet -/

namespace Untouched

variable {chip : Stm32} {reg : ℕ} {T : Type} {m M : Mem} {u : Upload T} {a : ℕ}

theorem initial (hlaunch : (chip.pageMap reg).Aligned a) :
    Untouched (chip.pageMap reg) m u a m where
  erased x hx hstart := absurd ((chip.pageMap reg).le_start hlaunch hx) (by omega)
  kept _ _ _ := rfl

/-- A page that begins here is as before. -/
theorem page (h : Untouched (chip.pageMap reg) m u a M) (hstart : (chip.pageMap reg).start a = a) :
    ∀ x, InRange a ((chip.pageMap reg).size a) x → M x = m x := by
  rintro x ⟨h₁, h₂⟩
  have hpage := ((chip.pageMap reg).start_eq_of_mem (hstart.le.trans h₁) (by omega)).1
  exact h.kept x h₁ fun hlt => absurd hlt (by omega)

/-- A block in the middle of a page can be stored exactly if the old content, or what the
first block has done to the page, permits it. -/
theorem stores_iff (h : Untouched (chip.pageMap reg) m u a M) (h64 : a % 64 = 0)
    (hstart : (chip.pageMap reg).start a ≠ a) :
    Stores M a (u.block a) ↔ Storable (chip.pageMap reg) m u a := by
  have hle := (chip.pageMap reg).start_le a
  have hpage : ∀ x, InRange a 64 x → (chip.pageMap reg).start x = (chip.pageMap reg).start a := by
    rintro x ⟨h₁, h₂⟩
    have := block_end_le chip reg h64
    exact ((chip.pageMap reg).start_eq_of_mem (hle.trans h₁) (by omega)).1
  rw [Storable, or_iff_right hstart]
  by_cases herases : ErasesPage (chip.pageMap reg) m u ((chip.pageMap reg).start a)
  · refine iff_of_true (stores_of_blank (u.block_length a) fun x hx => ?_) (.inl herases)
    have hx' := hpage x hx
    exact h.erased x hx.1 (by omega) (by rw [hx']; exact herases)
  · rw [or_iff_right herases]
    refine stores_congr (u.block_length a) fun x hx => h.kept x hx.1 fun _ => ?_
    rw [hpage x hx]
    exact herases

/-- The first block of a page has been stored. -/
theorem startPage (h : Untouched (chip.pageMap reg) m u a M)
    (hstart : (chip.pageMap reg).start a = a) :
    Untouched (chip.pageMap reg) m u (a + 64) (pageMem M a ((chip.pageMap reg).size a) (u.block a)
      (decide (ErasesPage (chip.pageMap reg) m u a))) := by
  have hlen := u.block_length a
  have hout : ∀ x, a + 64 ≤ x → ¬InRange a (u.block a).length x := fun x hx hin => by
    obtain ⟨_, _⟩ := hin
    omega
  have hpage : ∀ x, a + 64 ≤ x → x < a + (chip.pageMap reg).size a →
      (chip.pageMap reg).start x = a := fun x h₁ h₂ =>
    (((chip.pageMap reg).start_eq_of_mem (a := a) (by omega) (by omega)).1).trans hstart
  have hbeyond : ∀ x, a + (chip.pageMap reg).size a ≤ x →
      a + 64 ≤ (chip.pageMap reg).start x := fun x hx => by
    have hend := (chip.pageMap reg).end_le_start (a := a) (x := x) (by omega)
    have hblock := block_end_le chip reg (a := a) (by rw [← hstart]; exact start_mod_64 chip reg a)
    omega
  constructor
  · intro x hx hlt herases
    have hin : x < a + (chip.pageMap reg).size a := by
      by_contra hc
      have := hbeyond x (not_lt.mp hc)
      omega
    rw [hpage x hx hin] at herases
    rw [pageMem_apply, if_neg (hout x hx), if_pos ⟨decide_eq_true herases, by omega, hin⟩]
  · intro x hx hkept
    rw [pageMem_apply, if_neg (hout x hx)]
    by_cases hin : x < a + (chip.pageMap reg).size a
    · have herases : ¬ErasesPage (chip.pageMap reg) m u a := by
        have := hkept (by rw [hpage x hx hin]; omega)
        rwa [hpage x hx hin] at this
      rw [if_neg fun hc => herases (of_decide_eq_true hc.1)]
      exact h.page hstart x ⟨by omega, hin⟩
    · have hstartx := hbeyond x (not_lt.mp hin)
      rw [if_neg fun hc => hin hc.2.2]
      exact h.kept x (by omega) fun hlt => absurd hlt (by omega)

/-- A later block has been stored. -/
theorem laterBlock (h : Untouched (chip.pageMap reg) m u a M) (h64 : a % 64 = 0)
    (hstart : (chip.pageMap reg).start a ≠ a) :
    Untouched (chip.pageMap reg) m u (a + 64) (write M a (u.block a)) := by
  have hlen := u.block_length a
  have hwrite : ∀ x, a + 64 ≤ x → write M a (u.block a) x = M x := fun x hx =>
    write_of_not_mem M fun hin => by
      obtain ⟨_, _⟩ := hin
      omega
  -- no page starts inside a block
  have hpages : ∀ x, (chip.pageMap reg).start x < a + 64 → (chip.pageMap reg).start x < a := by
    intro x hx
    have hmod := start_mod_64 chip reg x
    have hne : (chip.pageMap reg).start x ≠ a := fun heq =>
      hstart (heq ▸ ((chip.pageMap reg).start_start x).1)
    omega
  constructor
  · intro x hx hlt herases
    rw [hwrite x hx]
    exact h.erased x (by omega) (hpages x hlt) herases
  · intro x hx hkept
    rw [hwrite x hx]
    exact h.kept x (by omega) fun hlt => hkept (by omega)

end Untouched

/-! ### The upload -/

/-- The device after the blocks of `k` addresses from `a` on have been stored. -/
structure StoredBlocks (P : PageMap) (m : Mem) (u : Upload Word) (a k : ℕ)
    (d d' : Device FlashState Word) : Prop where
  untouched : Untouched P m u (a + 64 * k) d'.flash.mem
  before : ∀ x < a, d'.flash.mem x = d.flash.mem x
  image : ∀ x, InRange a (64 * k) x → d'.flash.mem x = u.image x
  count : d'.backend.pageWriteCount =
    d.backend.pageWriteCount + BitVec.ofNat 32 (uploadWrites P m u a k)

theorem StoredBlocks.append {P : PageMap} {m : Mem} {u : Upload Word} {a k : ℕ}
    {d d₁ d₂ : Device FlashState Word} (h₁ : StoredBlocks P m u a 1 d d₁)
    (h₂ : StoredBlocks P m u (a + 64) k d₁ d₂) : StoredBlocks P m u a (k + 1) d d₂ where
  untouched := by
    rw [show a + 64 * (k + 1) = a + 64 + 64 * k by ring]
    exact h₂.untouched
  before x hx := (h₂.before x (by omega)).trans (h₁.before x hx)
  image x hx := by
    obtain ⟨_, _⟩ := hx
    by_cases hfirst : x < a + 64
    · exact (h₂.before x hfirst).trans (h₁.image x ⟨by omega, by omega⟩)
    · exact h₂.image x ⟨by omega, by omega⟩
  count := by
    rw [h₂.count, h₁.count, BitVec.add_assoc, ← BitVec.ofNat_add]
    rfl

variable {chip : Stm32} {reg : ℕ} {cfg : Config} {m : Mem} {u : Upload Word}

theorem block_getD (u : Upload Word) {a x : ℕ} (h : InRange a 64 x) :
    (u.block a).getD (x - a) 0 = u.image x := by
  obtain ⟨h₁, h₂⟩ := h
  rw [Upload.block, read_getD _ _ (by omega), Nat.add_sub_cancel' h₁]

/-- **One block of an upload** is acknowledged each time exactly if it can be stored, and then
it is. -/
theorem deliveries_step (hb : cfg.IsBuildOf (.stm32 chip)) {a : ℕ} (h64 : a % 64 = 0)
    (hlaunch : cfg.launchAppAddress ≤ a) (hend : a + 64 ≤ cfg.flashEnd)
    {d : Device FlashState Word} (hd : Untouched (chip.pageMap reg) m u a d.flash.mem) :
    (AllAcked (Stm32.board chip reg cfg) d (u.deliveries a) ↔
        Storable (chip.pageMap reg) m u a) ∧
      (Storable (chip.pageMap reg) m u a → StoredBlocks (chip.pageMap reg) m u a 1 d
        (serve (Stm32.board chip reg cfg) d (u.deliveries a))) := by
  have hblock := hb.block
  have ha : a < 2 ^ 32 := by
    have := hb.flashEnd_lt
    omega
  have hrange : flashcmdBlockInRange cfg a = true :=
    (hb.inRange_iff a).mpr ⟨hlaunch, hend⟩
  have hlen := u.block_length a
  have hout : ∀ x, x < a → ¬InRange a (u.block a).length x := fun x hx hin => by
    obtain ⟨_, _⟩ := hin
    omega
  by_cases hstart : (chip.pageMap reg).start a = a
  · obtain ⟨j, hj, hsize⟩ := exists_pageSize chip reg a
    have h1024 : 1024 ≤ chip.flashGetPageSize reg a := by omega
    obtain ⟨hacks, hmem, hcount⟩ := deliveries_start hblock hstart ha hrange u d
    have hpage := hd.page hstart
    rw [decide_eq_decide.mpr (pageErased_congr h1024 hpage)] at hmem
    rw [pageWrites_congr h1024 hpage] at hcount
    refine ⟨iff_of_true hacks (.inl hstart), fun _ => ⟨?_, ?_, ?_, ?_⟩⟩
    · rw [hmem]
      exact hd.startPage hstart
    · intro x hx
      rw [hmem, pageMem_apply, if_neg (hout x hx), if_neg fun hc => by
        obtain ⟨_, _⟩ := hc.2
        omega]
    · intro x hx
      rw [hmem, pageMem_apply, if_pos (by rw [hlen]; exact hx), block_getD u hx]
    · rw [hcount, uploadWrites, blockWrites, if_pos hstart]
      rfl
  · have hstores := hd.stores_iff h64 hstart
    obtain ⟨hacks, hresult⟩ := deliveries_later hblock hstart h64 ha hrange u d
    refine ⟨hacks.trans hstores, fun hs => ?_⟩
    obtain ⟨hmem, hbackend⟩ := hresult (hstores.mpr hs)
    refine ⟨?_, ?_, ?_, ?_⟩
    · rw [hmem]
      exact hd.laterBlock h64 hstart
    · intro x hx
      rw [hmem, write_of_not_mem _ (hout x hx)]
    · intro x hx
      rw [hmem, write_of_mem _ (by rw [hlen]; exact hx), block_getD u hx]
    · rw [hbackend, uploadWrites, blockWrites, if_neg hstart]
      exact (BitVec.add_zero _).symm

/-- **The blocks of an upload** are all acknowledged exactly if each of them can be stored,
and then they are. -/
theorem sendBlocks_run (hb : cfg.IsBuildOf (.stm32 chip)) (k : ℕ) {a : ℕ} (h64 : a % 64 = 0)
    (hlaunch : cfg.launchAppAddress ≤ a) (hend : a + 64 * k ≤ cfg.flashEnd)
    {d : Device FlashState Word} (hd : Untouched (chip.pageMap reg) m u a d.flash.mem) :
    (AllAcked (Stm32.board chip reg cfg) d (u.sendBlocks a k) ↔
        ∀ i < k, Storable (chip.pageMap reg) m u (a + 64 * i)) ∧
      ((∀ i < k, Storable (chip.pageMap reg) m u (a + 64 * i)) →
        StoredBlocks (chip.pageMap reg) m u a k d
          (serve (Stm32.board chip reg cfg) d (u.sendBlocks a k))) := by
  induction k generalizing a d with
  | zero =>
      refine ⟨iff_of_true trivial fun i hi => absurd hi (Nat.not_lt_zero i), fun _ => ?_⟩
      exact ⟨hd, fun _ _ => rfl, fun x hx => absurd hx.2 (by have := hx.1; omega),
        (BitVec.add_zero _).symm⟩
  | succ k ih =>
      have hsplit : (∀ i < k + 1, Storable (chip.pageMap reg) m u (a + 64 * i)) ↔
          Storable (chip.pageMap reg) m u a ∧
            ∀ i < k, Storable (chip.pageMap reg) m u (a + 64 + 64 * i) := by
        constructor
        · intro h
          refine ⟨h 0 (by omega), fun i hi => ?_⟩
          rw [show a + 64 + 64 * i = a + 64 * (i + 1) by ring]
          exact h (i + 1) (by omega)
        · rintro ⟨hfirst, hrest⟩ i hi
          cases i with
          | zero => exact hfirst
          | succ i =>
              rw [show a + 64 * (i + 1) = a + 64 + 64 * i by ring]
              exact hrest i (by omega)
      obtain ⟨hacked, hstored⟩ := deliveries_step hb h64 hlaunch (by omega) hd
      rw [Upload.sendBlocks, allAcked_append, serve_append, hacked, hsplit]
      constructor
      · refine and_congr_right fun hfirst => ?_
        exact (ih (by omega) (by omega) (by omega) (hstored hfirst).untouched).1
      · rintro ⟨hfirst, hrest⟩
        exact (hstored hfirst).append
          ((ih (by omega) (by omega) (by omega) (hstored hfirst).untouched).2 hrest)

end Stm32

end Terraboot
