import Terraboot.Frame
import Terraboot.Kconfig
import Terraboot.NorFlash

/-!
# What the Flash Drivers Share

The interface of `flash.h` (`Backend`: write a block, complete) and `check_erased`, of
which `stm32/flash.c` and `lpc176x/flash.c` hold identical copies. The function compares
whole words from `addr` up to an end pointer that is computed in byte arithmetic as
`addr + count / 4`; the specification below states the range that is really inspected.

## Main results

* `checkErased_iff`: the test succeeds exactly when the first `count / 4` bytes, rounded
  up to a whole number of words, are blank.
-/

open LittleEndian NorFlash

namespace Terraboot

/-- A flash driver: its static variables and the two functions of `flash.h`. The result
is negative on failure. -/
structure Backend (S : Type) where
  init : S
  flashWriteBlock : S → Flash → ℕ → List Byte → ℤ × S × Flash
  flashComplete : S → Flash → ℤ × S × Flash

/-- The loop of `check_erased`. -/
def checkErasedLoop (m : Mem) (p e : ℕ) : Bool :=
  if p < e then
    if ofLe32 (read m p 4) ≠ 0xffffffff then false else checkErasedLoop m (p + 4) e
  else true
termination_by e - p

/-- `check_erased`: the end pointer is `(void*)addr + count / 4`. -/
def checkErased (m : Mem) (addr count : ℕ) : Bool := checkErasedLoop m addr (addr + count / 4)

/-- `memcmp(data, (void*)addr, len) == 0` -/
def memEqual (m : Mem) (addr : ℕ) (data : List Byte) : Bool := data == read m addr data.length

theorem memEqual_iff (m : Mem) (addr : ℕ) (data : List Byte) :
    memEqual m addr data = true ↔ data = read m addr data.length := by
  rw [memEqual, beq_iff_eq]

/-- A word reads as all ones exactly when its four bytes are blank. -/
theorem ofLe32_read_eq_ones_iff (m : Mem) (p : ℕ) :
    ofLe32 (read m p 4) = 0xffffffff ↔ Blank m p 4 := by
  have hread : read m p 4 = [m p, m (p + 1), m (p + 2), m (p + 3)] := rfl
  have hones : le32 0xffffffff = [0xFF, 0xFF, 0xFF, 0xFF] := by decide
  rw [hread]
  constructor
  · intro h
    have hle := le32_ofLe32 (m p) (m (p + 1)) (m (p + 2)) (m (p + 3))
    rw [h, hones] at hle
    simp only [List.cons.injEq, and_true] at hle
    rintro x ⟨h₁, h₂⟩
    obtain rfl | rfl | rfl | rfl : x = p ∨ x = p + 1 ∨ x = p + 2 ∨ x = p + 3 := by omega
    · exact hle.1.symm
    · exact hle.2.1.symm
    · exact hle.2.2.1.symm
    · exact hle.2.2.2.symm
  · intro h
    rw [h p ⟨by omega, by omega⟩, h (p + 1) ⟨by omega, by omega⟩,
      h (p + 2) ⟨by omega, by omega⟩, h (p + 3) ⟨by omega, by omega⟩]
    decide

/-- The loop inspects the words that start before the end pointer. -/
theorem checkErasedLoop_iff (m : Mem) (p e : ℕ) :
    checkErasedLoop m p e = true ↔ Blank m p ((e - p + 3) / 4 * 4) := by
  induction p using checkErasedLoop.induct m e with
  | case1 p hlt hne =>
      rw [checkErasedLoop, if_pos hlt, if_pos hne]
      refine iff_of_false Bool.false_ne_true fun h => hne ?_
      rw [ofLe32_read_eq_ones_iff]
      exact h.mono le_rfl (by omega)
  | case2 p hlt hne ih =>
      rw [checkErasedLoop, if_pos hlt, if_neg hne, ih]
      rw [not_not, ofLe32_read_eq_ones_iff] at hne
      constructor
      · intro h x hx
        by_cases hxp : x < p + 4
        · exact hne x ⟨hx.1, hxp⟩
        · obtain ⟨_, _⟩ := hx
          exact h x ⟨by omega, by omega⟩
      · exact fun h => h.mono (by omega) (by omega)
  | case3 p hlt =>
      rw [checkErasedLoop, if_neg hlt]
      refine iff_of_true rfl ?_
      rintro x ⟨_, _⟩
      omega

/-- **What `check_erased` inspects**: a quarter of the range, in whole words. -/
theorem checkErased_iff (m : Mem) (addr count : ℕ) :
    checkErased m addr count = true ↔ Blank m addr ((count / 4 + 3) / 4 * 4) := by
  rw [checkErased, checkErasedLoop_iff, Nat.add_sub_cancel_left]

/-- **When `check_erased` answers for the whole range**: if a byte that it inspects is not blank,
or if all bytes behind these are. -/
theorem checkErased_blank_iff (m : Mem) (addr count : ℕ) :
    (checkErased m addr count = true ↔ Blank m addr count) ↔
      (∃ i < (count / 4 + 3) / 4 * 4, m (addr + i) ≠ 0xFF) ∨
        ∀ i, (count / 4 + 3) / 4 * 4 ≤ i → i < count → m (addr + i) = 0xFF := by
  have hpart : (count / 4 + 3) / 4 * 4 ≤ count := by omega
  rw [checkErased_iff]
  obtain ⟨n, hn⟩ : ∃ n, (count / 4 + 3) / 4 * 4 = n := ⟨_, rfl⟩
  rw [hn] at hpart ⊢
  constructor
  · intro h
    by_cases hblank : Blank m addr n
    · refine .inr fun i _ hi => ?_
      exact h.mp hblank (addr + i) ⟨by omega, by omega⟩
    · refine .inl ?_
      by_contra hall
      push Not at hall
      refine hblank fun x hx => ?_
      have hbyte := hall (x - addr) (by obtain ⟨_, _⟩ := hx; omega)
      rwa [Nat.add_sub_cancel' hx.1] at hbyte
  · rintro (⟨i, hi, hne⟩ | hrest)
    · have hx : InRange addr n (addr + i) := ⟨by omega, by omega⟩
      refine iff_of_false (fun h => hne (h _ hx)) fun h => hne (h _ ?_)
      exact ⟨by omega, by omega⟩
    · refine ⟨fun h x hx => ?_, fun h => h.mono le_rfl (by omega)⟩
      obtain ⟨hlo, hhi⟩ := hx
      by_cases hin : x < addr + n
      · exact h x ⟨hlo, hin⟩
      · have hbyte := hrest (x - addr) (by omega) (by omega)
        rwa [Nat.add_sub_cancel' hlo] at hbyte

/-- A blank page of 1 KiB but for its last byte passes for erased. -/
theorem checkErased_misses :
    ¬∀ (m : Mem) (addr count : ℕ), addr % 4 = 0 → count % 4 = 0 →
      (checkErased m addr count = true ↔ Blank m addr count) := by
  intro h
  have hpage := (h (write (fun _ => 0xFF) 0x80023FF [0x00]) 0x8002000 1024 rfl rfl).mp
    ((checkErased_iff _ _ _).mpr fun x hx => write_of_not_mem _ fun hlast => by
      obtain ⟨-, _⟩ := hx
      obtain ⟨_, -⟩ := hlast
      omega)
  exact absurd (hpage 0x80023FF ⟨by omega, by omega⟩) (by decide)

/-- For a count of whole 16-byte units the inspected range is exactly a quarter. -/
theorem checkErased_iff_quarter (m : Mem) (addr k : ℕ) :
    checkErased m addr (16 * k) = true ↔ Blank m addr (4 * k) := by
  rw [checkErased_iff, show (16 * k / 4 + 3) / 4 * 4 = 4 * k by omega]

end Terraboot
