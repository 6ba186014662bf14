import Terraboot.Boards
import Terraboot.FlashCmd

/-!
# The Metadata in the CONNECT Response

`command_connect` and `appvalidate_verify` read the same metadata page. Both compare the magic;
the checksum is compared by `appvalidate_verify` only.

## Main results

* `reportedVersion_connect`, `reportedVariant_connect`: where version and name stand in the
  response.
* `connect_metadata_iff`: for which pages the response agrees with the verdict.
-/

open LittleEndian NorFlash

namespace Terraboot

variable {S T : Type}

/-! ### What a response reports -/

/-- The version in a response to CONNECT. -/
def reportedVersion (resp : List Byte) : Word := getWord resp 6

/-- The variant name in a response to CONNECT: what stands behind processor and bootloader version,
in front of the trailer, up to the first NUL. -/
def reportedVariant (cfg : Config) (resp : List Byte) : List Byte :=
  ((resp.take (resp.length - 4)).drop (4 * (9 + divRoundUp4 cfg.mcu.strlen
    + divRoundUp4 cfg.katapultVersion.strlen))).takeWhile (· != 0)

/-- The response agrees with `appvalidate_verify`: it reports a version or a name only if the
metadata is neither missing nor corrupt, and then exactly those of the metadata. -/
structure AgreesWithVerify (cfg : Config) (m : Mem) (resp : List Byte) : Prop where
  valid : reportedVersion resp ≠ 0 ∨ reportedVariant cfg resp ≠ [] →
    appvalidateVerify cfg m ≠ .noMetadata ∧ appvalidateVerify cfg m ≠ .metaCorrupt
  exact : appvalidateVerify cfg m ≠ .noMetadata → appvalidateVerify cfg m ≠ .metaCorrupt →
    reportedVersion resp = (appvalidateGetMetadata cfg m).appVersion ∧
      reportedVariant cfg resp =
        (appvalidateGetMetadata cfg m).appVariantName.takeWhile (· != 0) ∧
      (reportedVariant cfg resp).length ≤ 32

/-- A name is read back from its padded words. -/
theorem takeWhile_padWords {s : List Byte} (h : (0 : Byte) ∉ s) :
    (padWords s).takeWhile (· != 0) = s := by
  have hall : ∀ x ∈ s, (x != 0) = true := by
    intro x hx
    rw [bne_iff_ne]
    rintro rfl
    exact h hx
  rw [padWords, List.takeWhile_append_of_pos hall]
  cases 4 * divRoundUp4 s.length - s.length with
  | zero => exact List.append_nil s
  | succ n =>
      rw [List.replicate_succ, List.takeWhile_cons_of_neg (by decide)]
      exact List.append_nil s

theorem zero_not_mem_takeWhile (s : List Byte) : (0 : Byte) ∉ s.takeWhile (· != 0) := fun h =>
  absurd (List.mem_takeWhile_imp h) (by decide)

/-- `strnlen` bytes of a name are the part in front of its first NUL. -/
theorem connectVariant_eq {md : AppMetadata} (h : md.appVariantName.length = 32) :
    connectVariant md = if hasMagic md then md.appVariantName.takeWhile (· != 0) else [] := by
  rw [connectVariant, strnlen, List.take_of_length_le h.le]
  exact if_congr Iff.rfl (List.prefix_iff_eq_take.mp (List.takeWhile_prefix _)).symm rfl

/-- A name is empty if it starts with a NUL. -/
theorem takeWhile_eq_nil_iff_head? {s : List Byte} (h : s.length = 32) :
    s.takeWhile (· != 0) = [] ↔ s.head? = some 0 := by
  cases s with
  | nil => cases h
  | cons x s =>
      rw [List.head?_cons, Option.some_inj, List.takeWhile_cons]
      by_cases hx : x = 0
      · rw [if_neg (by simpa using hx)]
        exact iff_of_true rfl hx
      · rw [if_pos (bne_iff_ne.mpr hx)]
        exact iff_of_false (List.cons_ne_nil _ _) hx

/-! ### The response of `command_connect` -/

/-- The response is its payload between a header of two words and a trailer. -/
theorem commandRespondAck_connect_parts (cfg : Config) (md : AppMetadata) :
    ∃ head trailer : List Byte, head.length = 8 ∧ trailer.length = 4 ∧
      commandRespondAck cmdConnect (connectOut cfg md) (connectOutLen cfg md) =
        head ++ connectPayload cfg md ++ trailer := by
  rw [commandRespondAck_connect, frame]
  obtain ⟨crc, hcrc⟩ : ∃ crc, crc16Ccitt (0xa0 :: wordCount (le32 cmdConnect ++
      connectPayload cfg md) :: (le32 cmdConnect ++ connectPayload cfg md)) = crc := ⟨_, rfl⟩
  rw [hcrc]
  refine ⟨[messageStx1, messageStx2, 0xa0, wordCount (le32 cmdConnect ++ connectPayload cfg md)]
    ++ le32 cmdConnect, le16 crc ++ [messageSync2, messageSync], rfl, rfl, ?_⟩
  simp only [List.append_assoc]

theorem reportedVersion_connect (cfg : Config) (md : AppMetadata) :
    reportedVersion (commandRespondAck cmdConnect (connectOut cfg md) (connectOutLen cfg md)) =
      connectAppVersion md := by
  obtain ⟨head, trailer, hhead, -, hresp⟩ := commandRespondAck_connect_parts cfg md
  obtain ⟨rest, hrest⟩ : ∃ rest, connectPayload cfg md = le32 protoVersion
      ++ le32 (BitVec.ofNat 32 cfg.launchAppAddress) ++ le32 (BitVec.ofNat 32 cfg.blockSize)
      ++ le32 (connectAppFlashSize cfg) ++ (le32 (connectAppVersion md) ++ rest) := by
    rw [connectPayload, connectFields]
    simp only [List.append_assoc]
    exact ⟨_, rfl⟩
  have hdrop : (head ++ (le32 protoVersion ++ le32 (BitVec.ofNat 32 cfg.launchAppAddress)
      ++ le32 (BitVec.ofNat 32 cfg.blockSize) ++ le32 (connectAppFlashSize cfg))).length = 4 * 6 := by
    simp only [List.length_append, le32_length, hhead]
  rw [reportedVersion, getWord, hresp, hrest, List.append_assoc, List.append_assoc,
    ← List.append_assoc head, List.drop_left' hdrop, List.append_assoc, ofLe32_le32_append]

theorem reportedVariant_connect (cfg : Config) {md : AppMetadata}
    (h : md.appVariantName.length = 32) :
    reportedVariant cfg (commandRespondAck cmdConnect (connectOut cfg md) (connectOutLen cfg md)) =
      connectVariant md := by
  obtain ⟨head, trailer, hhead, htrailer, hresp⟩ := commandRespondAck_connect_parts cfg md
  obtain ⟨front, hfront⟩ : ∃ front, head ++ (connectFields cfg md ++ padWords cfg.mcu.val
      ++ wordArray 1 ++ padWords cfg.katapultVersion.val ++ wordArray 1) = front := ⟨_, rfl⟩
  have hlen : front.length = 4 * (9 + divRoundUp4 cfg.mcu.strlen
      + divRoundUp4 cfg.katapultVersion.strlen) := by
    rw [← hfront]
    simp only [List.length_append, hhead, connectFields_length, padWords_length, wordArray_length,
      CString.strlen]
    omega
  have hzero : (0 : Byte) ∉ connectVariant md := by
    rw [connectVariant_eq h]
    split_ifs
    · exact zero_not_mem_takeWhile _
    · exact List.not_mem_nil
  have hcut : (front ++ padWords (connectVariant md) ++ trailer).length - 4 =
      (front ++ padWords (connectVariant md)).length := by
    rw [List.length_append, htrailer, Nat.add_sub_cancel]
  rw [reportedVariant, hresp, connectPayload, ← List.append_assoc head, hfront, hcut, List.take_left,
    List.drop_left' hlen, takeWhile_padWords hzero]

/-! ### Response and verdict -/

theorem appVariantName_length (cfg : Config) (m : Mem) :
    (appvalidateGetMetadata cfg m).appVariantName.length = 32 := read_length _ _ _

/-- The verdict on the metadata alone. -/
theorem appvalidateVerify_metadata_iff (cfg : Config) (m : Mem) :
    appvalidateVerify cfg m ≠ .noMetadata ∧ appvalidateVerify cfg m ≠ .metaCorrupt ↔
      hasMagic (appvalidateGetMetadata cfg m) ∧ (appvalidateGetMetadata cfg m).metaCrc =
        fasthash32 (read m cfg.launchAppAddress metaCrcOffset) 0 := by
  rw [appvalidateVerify, hasMagic]
  split_ifs with hmagic hcrc hsize hhash
  · exact iff_of_false (fun h => h.1 rfl) fun h => hmagic h.1
  · exact iff_of_false (fun h => h.2 rfl) fun h => hcrc h.2
  all_goals exact iff_of_true (by simp) ⟨not_not.mp hmagic, not_not.mp hcrc⟩

/-- The page is one on which the response agrees with the verdict: if the magic is intact, the
checksum is right, or there is neither a version nor a name. -/
def ReportsSoundly (cfg : Config) (m : Mem) : Prop :=
  (appvalidateGetMetadata cfg m).magic = appMetadataMagic →
    (appvalidateGetMetadata cfg m).metaCrc =
        fasthash32 (read m cfg.launchAppAddress metaCrcOffset) 0 ∨
      (appvalidateGetMetadata cfg m).appVersion = 0 ∧
        (appvalidateGetMetadata cfg m).appVariantName.head? = some 0

instance (cfg : Config) (m : Mem) : Decidable (ReportsSoundly cfg m) :=
  inferInstanceAs (Decidable (_ → _))

theorem agreesWithVerify_connect_iff (cfg : Config) (m : Mem) :
    AgreesWithVerify cfg m (commandRespondAck cmdConnect
        (connectOut cfg (appvalidateGetMetadata cfg m))
        (connectOutLen cfg (appvalidateGetMetadata cfg m))) ↔ ReportsSoundly cfg m := by
  have hname := appVariantName_length cfg m
  have hverdict := appvalidateVerify_metadata_iff cfg m
  rw [ReportsSoundly]
  generalize hmd : appvalidateGetMetadata cfg m = md at hname hverdict ⊢
  have hversion := reportedVersion_connect cfg md
  have hvariant := reportedVariant_connect cfg hname
  generalize commandRespondAck cmdConnect (connectOut cfg md) (connectOutLen cfg md) = resp
    at hversion hvariant ⊢
  rw [connectAppVersion] at hversion
  rw [connectVariant_eq hname] at hvariant
  by_cases hmagic : hasMagic md
  · rw [if_pos hmagic] at hversion hvariant
    rw [and_iff_right hmagic] at hverdict
    constructor
    · -- a corrupt page is not reported
      intro hagrees _
      by_contra hnot
      obtain ⟨hcrc, hreported⟩ := not_or.mp hnot
      refine hcrc (hverdict.mp (hagrees.valid ?_))
      rw [hversion, hvariant, Ne, Ne, takeWhile_eq_nil_iff_head? hname]
      exact not_and_or.mp hreported
    · intro hpage
      refine ⟨fun hreported => ?_, fun _ _ => ⟨?_, ?_, ?_⟩⟩
      · rcases hpage hmagic with hcrc | ⟨hzero, hnul⟩
        · exact hverdict.mpr hcrc
        · rw [hversion, hvariant, Ne, Ne, takeWhile_eq_nil_iff_head? hname] at hreported
          exact absurd ⟨hzero, hnul⟩ (not_and_or.mpr hreported)
      · rw [hversion, hmd]
      · rw [hvariant, hmd]
      · rw [hvariant, ← hname]
        exact (List.takeWhile_prefix _).length_le
  · -- without the magic nothing is reported
    rw [if_neg hmagic] at hversion hvariant
    refine iff_of_true ⟨fun hreported => ?_, fun hno hcorrupt => ?_⟩ fun h => absurd h hmagic
    · rcases hreported with h | h
      · exact absurd hversion h
      · exact absurd hvariant h
    · exact absurd (hverdict.mp ⟨hno, hcorrupt⟩).1 hmagic

/-- **When CONNECT and boot validation agree on the metadata**: on every page but those whose magic
is intact and whose checksum is wrong, with a version other than zero or a name. -/
theorem connect_metadata_iff (b : Board S T) (d : Device S T) :
    ∃ resp, (commandConnect b d).2 = [resp] ∧
      (AgreesWithVerify b.cfg d.flash.mem resp ↔ ReportsSoundly b.cfg d.flash.mem) :=
  ⟨_, rfl, agreesWithVerify_connect_iff b.cfg d.flash.mem⟩

/-- Flash of a board of the shipped configuration with the small application in it, one bit of its
variant name flipped. -/
def flippedName : Mem := fun x => if x = 0x8002028 then 0x01 else steinzeitApp x

/-- The magic is intact and the checksum is wrong, and the name is reported. -/
theorem connect_reports_corrupt :
    ¬∀ (d : Device Stm32.FlashState Word) (resp : List Byte),
      (commandConnect steinzeitBoard d).2 = [resp] → AgreesWithVerify steinzeit d.flash.mem resp := by
  intro h
  have hagrees := h { steinzeitDevice with flash := ⟨flippedName, []⟩ } _ rfl
  have hnot : ¬ReportsSoundly steinzeit flippedName := by decide +kernel
  exact hnot ((agreesWithVerify_connect_iff steinzeit flippedName).mp hagrees)

end Terraboot
