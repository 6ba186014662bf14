import Terraboot.Boards
import Terraboot.ByteNumbers
import Terraboot.Mixing

/-!
# The Lanes of the Hash

`fasthash64` folds the 64-bit lanes of its input, of which the last may be a partial one, with a
step that is injective in both arguments. So damage within one lane always changes the hash.

## Main results

* `fasthashLoop_eq`: the hash is a fold over the lanes.
* `fasthash64_ne`: byte strings of one length that differ within one lane have different hashes.
* `appvalidateVerify_damage`: damage to the application within one lane is always found, and other
  bytes do not matter.
-/

open LittleEndian NorFlash Mixing

namespace Terraboot

/-! ### Lanes -/

/-- The bytes of a lane: eight, or what there is. -/
def laneBytes (b : List Byte) (i : ℕ) : List Byte := (b.drop (8 * i)).take 8

/-- The lanes of a byte string. -/
def lanes (b : List Byte) : List (BitVec 64) :=
  (List.range ((b.length + 7) / 8)).map fun i => BitVec.ofNat 64 (ofBytes (laneBytes b i))

/-- A lane is folded in. -/
def foldLane (h v : BitVec 64) : BitVec 64 := (h ^^^ mix v) * fasthashM

theorem laneBytes_length_le (b : List Byte) (i : ℕ) : (laneBytes b i).length ≤ 8 :=
  List.length_take_le 8 _

/-- The first lane of more than eight bytes, and the others. -/
theorem lanes_append {b : List Byte} (hb : b.length = 8) (pos : List Byte) :
    lanes (b ++ pos) = BitVec.ofNat 64 (ofBytes b) :: lanes pos := by
  have hcount : ((b ++ pos).length + 7) / 8 = (pos.length + 7) / 8 + 1 := by
    rw [List.length_append, hb]
    omega
  have hfirst : laneBytes (b ++ pos) 0 = b := List.take_left' hb
  rw [lanes, hcount, List.range_succ_eq_map, List.map_cons, List.map_map, hfirst]
  refine congrArg _ (List.map_congr_left fun i _ => ?_)
  rw [Function.comp_apply, laneBytes, laneBytes, Nat.mul_succ, Nat.add_comm (8 * i) 8,
    ← List.drop_drop, List.drop_left' hb]

/-- Fewer than eight bytes are one lane. -/
theorem lanes_tail {pos : List Byte} (hne : pos ≠ []) (hlt : pos.length < 8) :
    lanes pos = [BitVec.ofNat 64 (ofBytes pos)] := by
  have hpos : 0 < pos.length := List.length_pos_iff.mpr hne
  have hcount : (pos.length + 7) / 8 = 1 := by omega
  have hall : laneBytes pos 0 = pos := List.take_of_length_le hlt.le
  rw [lanes, hcount]
  exact congrArg (fun l => [BitVec.ofNat 64 (ofBytes l)]) hall

theorem fasthashTail_eq {pos : List Byte} (h : pos.length ≤ 8) :
    fasthashTail pos = BitVec.ofNat 64 (ofBytes pos) := by
  refine BitVec.eq_of_toNat_eq ?_
  have hpack : (fasthashTail pos).toNat = ofBytes pos := shiftPack_toNat (w := 64) (by omega)
  rw [← hpack, BitVec.toNat_ofNat, Nat.mod_eq_of_lt (fasthashTail pos).isLt]

/-- **The hash folds the lanes.** -/
theorem fasthashLoop_eq (h : BitVec 64) (b : List Byte) :
    fasthashLoop h b = (lanes b).foldl foldLane h := by
  fun_induction fasthashLoop h b with
  | case1 h b₀ b₁ b₂ b₃ b₄ b₅ b₆ b₇ pos ih =>
      have hword : ofLe64 [b₀, b₁, b₂, b₃, b₄, b₅, b₆, b₇] =
          BitVec.ofNat 64 (ofBytes [b₀, b₁, b₂, b₃, b₄, b₅, b₆, b₇]) := by
        rw [← ofLe64_toNat rfl, BitVec.ofNat_toNat, BitVec.setWidth_eq]
      have hlanes := lanes_append (b := [b₀, b₁, b₂, b₃, b₄, b₅, b₆, b₇]) rfl pos
      rw [ih, hword]
      exact congrArg (List.foldl foldLane h) hlanes.symm
  | case2 h => rfl
  | case3 h pos hshort hne =>
      have hlt : pos.length < 8 := by
        by_contra hlong
        match pos, hlong with
        | b₀ :: b₁ :: b₂ :: b₃ :: b₄ :: b₅ :: b₆ :: b₇ :: pos, _ =>
            exact hshort b₀ b₁ b₂ b₃ b₄ b₅ b₆ b₇ pos rfl
        | [], h | [_], h | [_, _], h | [_, _, _], h | [_, _, _, _], h | [_, _, _, _, _], h
        | [_, _, _, _, _, _], h | [_, _, _, _, _, _, _], h => exact h (by simp)
      rw [fasthashTail_eq hlt.le, lanes_tail hne hlt]
      rfl

/-! ### Injectivity -/

theorem mix_injective : Function.Injective mix := by
  have hdown := xorShift_injective (w := 64) (k := 23) (by decide)
  have hmul : Function.Injective fun h : BitVec 64 => h * 0x2127599bf4325c37 :=
    mul_odd_injective (by decide)
  have hup := xorShift_injective (w := 64) (k := 47) (by decide)
  exact (hup.comp hmul).comp hdown

theorem mul_fasthashM_injective : Function.Injective fun h : BitVec 64 => h * fasthashM :=
  mul_odd_injective (by decide)

theorem foldLane_injective_left (v : BitVec 64) : Function.Injective fun h => foldLane h v :=
  fun _ _ h => (BitVec.xor_left_inj (mix v)).mp (mul_fasthashM_injective h)

theorem foldLane_injective_right (h : BitVec 64) : Function.Injective (foldLane h) :=
  (mul_fasthashM_injective.comp (xor_injective h)).comp mix_injective

/-! ### Damage -/

/-- Where the bytes of a lane agree, so does the lane. -/
theorem lanes_getElem?_congr {b b' : List Byte} (hlength : b.length = b'.length) {i : ℕ}
    (h : laneBytes b i = laneBytes b' i) : (lanes b)[i]? = (lanes b')[i]? := by
  rw [lanes, lanes, List.getElem?_map, List.getElem?_map, hlength]
  by_cases hi : i < (b'.length + 7) / 8
  · rw [List.getElem?_range hi, Option.map_some, Option.map_some, h]
  · rw [List.getElem?_eq_none (by rw [List.length_range]; omega)]
    rfl

/-- The lanes are told apart by their bytes. -/
theorem lanes_getElem?_ne {b b' : List Byte} (hlength : b.length = b'.length) {i : ℕ}
    (hi : 8 * i < b.length) (h : laneBytes b i ≠ laneBytes b' i) : (lanes b)[i]? ≠ (lanes b')[i]? := by
  have hcount : i < (b.length + 7) / 8 := by omega
  have hlane : (laneBytes b i).length = (laneBytes b' i).length := by
    rw [laneBytes, laneBytes, List.length_take, List.length_take, List.length_drop, List.length_drop,
      hlength]
  have hbound (l : List Byte) : ofBytes (laneBytes l i) < 2 ^ 64 :=
    (ofBytes_lt _).trans_le (Nat.pow_le_pow_right (by decide) (laneBytes_length_le l i))
  rw [lanes, lanes, List.getElem?_map, List.getElem?_map, ← hlength, List.getElem?_range hcount,
    Option.map_some, Option.map_some]
  intro heq
  refine h (ofBytes_inj hlane ?_)
  have hnat := congrArg BitVec.toNat (Option.some.inj heq)
  rwa [BitVec.toNat_ofNat, BitVec.toNat_ofNat, Nat.mod_eq_of_lt (hbound b),
    Nat.mod_eq_of_lt (hbound b')] at hnat

/-- The bytes of a lane are those with its number. -/
theorem laneBytes_eq_iff (b b' : List Byte) (i : ℕ) :
    laneBytes b i = laneBytes b' i ↔ ∀ k, k / 8 = i → b[k]? = b'[k]? := by
  constructor
  · intro h k hk
    have hget := congrArg (·[k - 8 * i]?) h
    have hk8 : k - 8 * i < 8 := by omega
    simp only [laneBytes, List.getElem?_take_of_lt hk8, List.getElem?_drop] at hget
    rwa [Nat.add_sub_cancel' (by omega)] at hget
  · intro h
    refine List.ext_getElem? fun k => ?_
    by_cases hk : k < 8
    · simp only [laneBytes, List.getElem?_take_of_lt hk, List.getElem?_drop]
      exact h (8 * i + k) (by omega)
    · rw [List.getElem?_eq_none ((laneBytes_length_le b i).trans (not_lt.mp hk)),
        List.getElem?_eq_none ((laneBytes_length_le b' i).trans (not_lt.mp hk))]

/-- **Damage within one lane changes the hash.** -/
theorem fasthash64_ne {b b' : List Byte} (hlength : b.length = b'.length) {j : ℕ}
    (hlane : ∀ k, k / 8 ≠ j → b[k]? = b'[k]?) (hne : b ≠ b') (seed : BitVec 64) :
    fasthash64 b seed ≠ fasthash64 b' seed := by
  have hbytes : laneBytes b j ≠ laneBytes b' j := by
    intro hsame
    refine hne (List.ext_getElem? fun k => ?_)
    by_cases hk : k / 8 = j
    · exact (laneBytes_eq_iff b b' j).mp hsame k hk
    · exact hlane k hk
  have hj : 8 * j < b.length := by
    by_contra hbeyond
    refine hbytes ?_
    rw [laneBytes, laneBytes, List.drop_eq_nil_of_le (by omega), List.drop_eq_nil_of_le (by omega)]
  have hlanes : (lanes b).length = (lanes b').length := by
    rw [lanes, lanes, List.length_map, List.length_map, hlength]
  have hfold := foldl_ne foldLane_injective_left foldLane_injective_right
    (lanes_getElem?_ne hlength hj hbytes) hlanes fun i hi =>
      lanes_getElem?_congr hlength ((laneBytes_eq_iff b b' i).mpr fun k hk =>
        hlane k (hk.trans_ne hi))
  rw [fasthash64, fasthash64, fasthashLoop_eq, fasthashLoop_eq, hlength]
  exact fun h => hfold _ (mix_injective h)

/-- The metadata is read from 84 bytes. -/
theorem appvalidateGetMetadata_congr {cfg : Config} {m m' : Mem}
    (h : ∀ x, InRange cfg.launchAppAddress 84 x → m' x = m x) :
    appvalidateGetMetadata cfg m' = appvalidateGetMetadata cfg m ∧
      read m' cfg.launchAppAddress metaCrcOffset = read m cfg.launchAppAddress metaCrcOffset := by
  have hread (i n : ℕ) (hin : i + n ≤ 84) :
      read m' (cfg.launchAppAddress + i) n = read m (cfg.launchAppAddress + i) n :=
    read_congr fun x hx => h x ⟨(Nat.le_add_right _ _).trans hx.1, hx.2.trans_le (by omega)⟩
  refine ⟨?_, hread 0 80 (by decide)⟩
  rw [appvalidateGetMetadata, appvalidateGetMetadata, hread 24 4 (by decide), hread 28 8 (by decide),
    hread 36 4 (by decide), hread 40 32 (by decide),
    hread metaCrcOffset 4 (by decide)]
  exact congrArg (AppMetadata.mk · _ _ _ _ _) (hread 0 24 (by decide))

/-- **Damage to the application.** If the metadata stays as it is: where the verdict was that the
application is valid and some of its bytes change, all of one lane, the verdict is a hash mismatch;
and where none of its bytes changes, whatever else does, the verdict stays the same. -/
theorem appvalidateVerify_damage (cfg : Config) (m m' : Mem)
    (hmeta : ∀ x, InRange cfg.launchAppAddress 84 x → m' x = m x) :
    (appvalidateVerify cfg m = .valid → ∀ j,
      (∃ i < (appvalidateGetMetadata cfg m).appSize.toNat,
        m' (getAppCodeAddr cfg + i) ≠ m (getAppCodeAddr cfg + i)) →
      (∀ i < (appvalidateGetMetadata cfg m).appSize.toNat,
        m' (getAppCodeAddr cfg + i) ≠ m (getAppCodeAddr cfg + i) → i / 8 = j) →
      appvalidateVerify cfg m' = .hashMismatch) ∧
    ((∀ i < (appvalidateGetMetadata cfg m).appSize.toNat,
        m' (getAppCodeAddr cfg + i) = m (getAppCodeAddr cfg + i)) →
      appvalidateVerify cfg m' = appvalidateVerify cfg m) := by
  obtain ⟨hmetadata, hheader⟩ := appvalidateGetMetadata_congr hmeta
  constructor
  · rintro hvalid j ⟨i₀, hi₀, hchanged⟩ hlane
    obtain ⟨hmagic, hcrc, hzero, hmax, hhash⟩ := (appvalidateVerify_eq_valid_iff cfg m).mp hvalid
    have hsize : ¬((appvalidateGetMetadata cfg m).appSize = 0 ∨
        maxAppSize cfg < (appvalidateGetMetadata cfg m).appSize) :=
      not_or.mpr ⟨hzero, BitVec.not_lt.mpr hmax⟩
    obtain ⟨n, hn⟩ : ∃ n, (appvalidateGetMetadata cfg m).appSize.toNat = n := ⟨_, rfl⟩
    rw [hn] at hi₀ hlane hhash
    have hdiffer : fasthash64 (read m' (getAppCodeAddr cfg) n) 0 ≠
        fasthash64 (read m (getAppCodeAddr cfg) n) 0 := by
      refine fasthash64_ne (j := j) (by rw [read_length, read_length]) (fun k hk => ?_) ?_ 0
      · by_cases hkn : k < n
        · simp only [NorFlash.read, List.getElem?_map, List.getElem?_range hkn, Option.map_some]
          by_contra hne
          exact hk (hlane k hkn fun h => hne (congrArg some h))
        · rw [List.getElem?_eq_none (by rw [read_length]; omega),
            List.getElem?_eq_none (by rw [read_length]; omega)]
      · intro hsame
        exact hchanged ((read_eq_read_iff m' m _ _ n).mp hsame i₀ hi₀)
    rw [appvalidateVerify, hmetadata, hheader, if_neg (not_not.mpr hmagic),
      if_neg (not_not.mpr hcrc), if_neg hsize, hn, if_pos (hdiffer.trans_eq hhash)]
  · intro hcode
    rw [appvalidateVerify, appvalidateVerify, hmetadata, hheader,
      (read_eq_read_iff m' m _ _ _).mpr hcode]

/-- One bit of a small application is flipped. -/
theorem appvalidateVerify_damage_bit :
    appvalidateVerify steinzeit (write steinzeitApp (getAppCodeAddr steinzeit + 2) [0x01]) =
      .hashMismatch :=
  (appvalidateVerify_damage steinzeit steinzeitApp
    (write steinzeitApp (getAppCodeAddr steinzeit + 2) [0x01])
    (fun x hx => if_neg fun h => absurd hx.2 (not_lt.mpr (le_trans (by decide) h.1)))).1
    ((applicationCheckValid_iff steinzeit steinzeitApp).mp steinzeitApp_valid).2.2 0
    (by decide +kernel) (by decide +kernel)

end Terraboot
