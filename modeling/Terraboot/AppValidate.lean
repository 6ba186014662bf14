import Terraboot.Frame
import Terraboot.Kconfig
import Terraboot.NorFlash

/-!
# Application Validation

`lib/fast-hash/fasthash.c`, `appvalidate.c` and `application_check_valid` of
`generic/armcm_canboot.c`: the application is started only if the metadata page at
`LAUNCH_APP_ADDRESS` is intact, the sizes fit, and the hash of the application code
matches. Everything here is a function of the flash content.

## Main results

* `appvalidateVerify_eq_valid_iff`, `applicationCheckValid_iff`: what a valid application
  is.
* `applicationCheckValid_packagedApp`: an application that is packaged with its hash is
  valid.
-/

open LittleEndian NorFlash

namespace Terraboot

/-! ### The hash -/

/-- The macro `mix`. -/
def mix (h : BitVec 64) : BitVec 64 :=
  let h := h ^^^ (h >>> 23)
  let h := h * 0x2127599bf4325c37
  h ^^^ (h >>> 47)

/-- The multiplier of `fasthash64`. -/
def fasthashM : BitVec 64 := 0x880355f21e6d1965

/-- The tail of fewer than eight bytes: the fall-through cases of the `switch`, from the
last byte to the first. -/
def fasthashTail (pos : List Byte) : BitVec 64 :=
  (List.range pos.length).reverse.foldl
    (fun v i => v ^^^ ((pos.getD i 0).setWidth 64 <<< (8 * i))) 0

/-- The loop over whole 64-bit words, and the tail. -/
def fasthashLoop : BitVec 64 → List Byte → BitVec 64
  | h, b₀ :: b₁ :: b₂ :: b₃ :: b₄ :: b₅ :: b₆ :: b₇ :: pos =>
      fasthashLoop ((h ^^^ mix (ofLe64 [b₀, b₁, b₂, b₃, b₄, b₅, b₆, b₇])) * fasthashM) pos
  | h, [] => h
  | h, pos => (h ^^^ mix (fasthashTail pos)) * fasthashM

/-- `fasthash64` -/
def fasthash64 (buf : List Byte) (seed : BitVec 64) : BitVec 64 :=
  mix (fasthashLoop (seed ^^^ (BitVec.ofNat 64 buf.length * fasthashM)) buf)

/-- `fasthash32` -/
def fasthash32 (buf : List Byte) (seed : Word) : Word :=
  let h := fasthash64 buf (seed.setWidth 64)
  (h - (h >>> 32)).setWidth 32

/-! ### The metadata page -/

/-- `APP_METADATA_MAGIC`, with its terminator: "TERRABOOT_RaiseTheWorld". -/
def appMetadataMagic : List Byte :=
  [0x54, 0x45, 0x52, 0x52, 0x41, 0x42, 0x4f, 0x4f, 0x54, 0x5f, 0x52, 0x61,
   0x69, 0x73, 0x65, 0x54, 0x68, 0x65, 0x57, 0x6f, 0x72, 0x6c, 0x64, 0x00]

/-- `app_metadata_t`, a packed structure of 84 bytes; `reserved` is read only as part of
the checksummed bytes. -/
structure AppMetadata where
  magic : List Byte
  appSize : Word
  appHash : BitVec 64
  appVersion : Word
  appVariantName : List Byte
  metaCrc : Word
  deriving DecidableEq, Repr

/-- `offsetof(app_metadata_t, meta_crc)` -/
def metaCrcOffset : ℕ := 80

/-- `appvalidate_get_metadata` -/
def appvalidateGetMetadata (cfg : Config) (m : Mem) : AppMetadata :=
  let a := cfg.launchAppAddress
  { magic := read m a 24
    appSize := ofLe32 (read m (a + 24) 4)
    appHash := ofLe64 (read m (a + 28) 8)
    appVersion := ofLe32 (read m (a + 36) 4)
    appVariantName := read m (a + 40) 32
    metaCrc := ofLe32 (read m (a + metaCrcOffset) 4) }

/-- `app_verify_result_t` -/
inductive AppVerifyResult
  | valid
  | noMetadata
  | sizeInvalid
  | hashMismatch
  | metaCorrupt
  deriving DecidableEq, Repr

/-- `get_app_code_addr` -/
def getAppCodeAddr (cfg : Config) : ℕ := cfg.launchAppAddress + cfg.metadataPageSize

/-- `MAX_APP_SIZE`, an unsigned 32-bit expression where it is compared. -/
def maxAppSize (cfg : Config) : Word :=
  BitVec.ofNat 32 cfg.flashSize
    - (BitVec.ofNat 32 cfg.launchAppAddress - BitVec.ofNat 32 cfg.flashStart)
    - BitVec.ofNat 32 cfg.metadataPageSize

/-- `appvalidate_verify` -/
def appvalidateVerify (cfg : Config) (m : Mem) : AppVerifyResult :=
  let md := appvalidateGetMetadata cfg m
  if md.magic ≠ appMetadataMagic then .noMetadata
  else if md.metaCrc ≠ fasthash32 (read m cfg.launchAppAddress metaCrcOffset) 0 then .metaCorrupt
  else if md.appSize = 0 ∨ maxAppSize cfg < md.appSize then .sizeInvalid
  else if fasthash64 (read m (getAppCodeAddr cfg) md.appSize.toNat) 0 ≠ md.appHash then
    .hashMismatch
  else .valid

/-- `application_check_valid`: the first word of the application must look like a stack
pointer, and the metadata must verify. -/
def applicationCheckValid (cfg : Config) (m : Mem) : Bool :=
  let app := ofLe32 (read m (getAppCodeAddr cfg) 4)
  if app = 0 ∨ app = 0xffffffff then false
  else appvalidateVerify cfg m == .valid

/-- **When the metadata verifies**: it is intact, the size is admissible and the code has
the recorded hash. -/
theorem appvalidateVerify_eq_valid_iff (cfg : Config) (m : Mem) :
    appvalidateVerify cfg m = .valid ↔
      (appvalidateGetMetadata cfg m).magic = appMetadataMagic ∧
      (appvalidateGetMetadata cfg m).metaCrc =
        fasthash32 (read m cfg.launchAppAddress metaCrcOffset) 0 ∧
      (appvalidateGetMetadata cfg m).appSize ≠ 0 ∧
      (appvalidateGetMetadata cfg m).appSize ≤ maxAppSize cfg ∧
      fasthash64 (read m (getAppCodeAddr cfg) (appvalidateGetMetadata cfg m).appSize.toNat) 0 =
        (appvalidateGetMetadata cfg m).appHash := by
  rw [appvalidateVerify]
  generalize appvalidateGetMetadata cfg m = md
  split_ifs with hmagic hcrc hsize hhash
  · exact iff_of_false nofun fun h => hmagic h.1
  · exact iff_of_false nofun fun h => hcrc h.2.1
  · refine iff_of_false nofun ?_
    rintro ⟨-, -, hne, hle, -⟩
    rcases hsize with hzero | hbig
    · exact hne hzero
    · exact BitVec.not_lt.mpr hle hbig
  · exact iff_of_false nofun fun h => hhash h.2.2.2.2
  · rw [not_or] at hsize
    exact iff_of_true rfl ⟨not_not.mp hmagic, not_not.mp hcrc, hsize.1,
      BitVec.not_lt.mp hsize.2, not_not.mp hhash⟩

/-- **When the application is valid**: its first word is a plausible stack pointer and the
metadata verifies. -/
theorem applicationCheckValid_iff (cfg : Config) (m : Mem) :
    applicationCheckValid cfg m = true ↔
      ofLe32 (read m (getAppCodeAddr cfg) 4) ≠ 0 ∧
      ofLe32 (read m (getAppCodeAddr cfg) 4) ≠ 0xffffffff ∧
      appvalidateVerify cfg m = .valid := by
  rw [applicationCheckValid]
  split_ifs with hsp
  · refine iff_of_false not_false fun h => ?_
    rcases hsp with hzero | hones
    · exact h.1 hzero
    · exact h.2.1 hones
  · rw [not_or] at hsp
    rw [beq_iff_eq]
    exact ⟨fun h => ⟨hsp.1, hsp.2, h⟩, fun h => h.2.2⟩

/-- Blank flash holds no application. -/
theorem applicationCheckValid_of_blank {cfg : Config} {m : Mem}
    (h : Blank m (getAppCodeAddr cfg) 4) : applicationCheckValid cfg m = false := by
  have hword : ofLe32 (read m (getAppCodeAddr cfg) 4) = 0xffffffff := by
    have : read m (getAppCodeAddr cfg) 4 = [0xFF, 0xFF, 0xFF, 0xFF] := by
      symm
      rw [show (4 : ℕ) = ([0xFF, 0xFF, 0xFF, 0xFF] : List (BitVec 8)).length from rfl, eq_read_iff]
      intro i hi
      have hi' : i < 4 := hi
      rw [h (getAppCodeAddr cfg + i) ⟨by omega, by omega⟩]
      match i, hi' with
      | 0, _ => rfl
      | 1, _ => rfl
      | 2, _ => rfl
      | 3, _ => rfl
    rw [this]
    decide
  rw [applicationCheckValid]
  rw [if_pos (.inr hword)]

/-! ### Packaged applications -/

/-- The checksummed part of the metadata of an application. -/
def packagedHeader (code : List Byte) (appVersion : Word) (variant : List Byte) : List Byte :=
  appMetadataMagic ++ le32 (BitVec.ofNat 32 code.length) ++ le64 (fasthash64 code 0)
    ++ le32 appVersion ++ variant ++ List.replicate 8 0xFF

/-- The metadata of an application, as the build of the application has to package it. -/
def packagedMetadata (code : List Byte) (appVersion : Word) (variant : List Byte) : List Byte :=
  packagedHeader code appVersion variant
    ++ le32 (fasthash32 (packagedHeader code appVersion variant) 0)

/-- Flash into which a packaged application is written. -/
def packagedApp (cfg : Config) (code : List Byte) (appVersion : Word) (variant : List Byte)
    (m : Mem) : Mem :=
  write (write m cfg.launchAppAddress (packagedMetadata code appVersion variant))
    (getAppCodeAddr cfg) code

/-- **A packaged application is valid**, whatever else the flash holds. -/
theorem applicationCheckValid_packagedApp {cfg : Config} {code variant : List Byte}
    (appVersion : Word) (m : Mem) (hmeta : 84 ≤ cfg.metadataPageSize)
    (hvariant : variant.length = 32) (hcode : 4 ≤ code.length) (hlt : code.length < 2 ^ 32)
    (hmax : BitVec.ofNat 32 code.length ≤ maxAppSize cfg)
    (hsp : ofLe32 code ≠ 0 ∧ ofLe32 code ≠ 0xffffffff) :
    applicationCheckValid cfg (packagedApp cfg code appVersion variant m) = true := by
  obtain ⟨m', hm'⟩ : ∃ m', packagedApp cfg code appVersion variant m = m' := ⟨_, rfl⟩
  obtain ⟨hdr, hhdr⟩ : ∃ hdr, packagedHeader code appVersion variant = hdr := ⟨_, rfl⟩
  have hhdrlen : hdr.length = 80 := by
    rw [← hhdr, packagedHeader]
    simp [hvariant, appMetadataMagic]
  obtain ⟨crc, hcrc⟩ : ∃ crc, fasthash32 hdr 0 = crc := ⟨_, rfl⟩
  have hparts : hdr ++ le32 crc = appMetadataMagic ++
      (le32 (BitVec.ofNat 32 code.length) ++ (le64 (fasthash64 code 0) ++
        (le32 appVersion ++ (variant ++ (List.replicate 8 0xFF ++ le32 crc))))) := by
    rw [← hhdr, packagedHeader]
    simp only [List.append_assoc]
  -- the metadata page reads back, and so does the code
  have hread : ∀ i n : ℕ, i + n ≤ 84 →
      read m' (cfg.launchAppAddress + i) n = ((hdr ++ le32 crc).drop i).take n := by
    intro i n hin
    rw [← hm', packagedApp, read_write_of_disjoint _ (.inl (by rw [getAppCodeAddr]; omega)),
      packagedMetadata, hhdr, hcrc, read_write_part _ (by
        rw [List.length_append, hhdrlen, le32_length]; omega)]
  have hcodeRead : read m' (getAppCodeAddr cfg) code.length = code := by
    rw [← hm', packagedApp, read_write]
  have hstack : ofLe32 (read m' (getAppCodeAddr cfg) 4) = ofLe32 code := by
    have := read_write_part (write m cfg.launchAppAddress (packagedMetadata code appVersion variant))
      (a := getAppCodeAddr cfg) (i := 0) (n := 4) (d := code) (by omega)
    rw [Nat.add_zero, List.drop_zero] at this
    rw [← hm', packagedApp, this, ofLe32_take]
  have hheader : read m' cfg.launchAppAddress metaCrcOffset = hdr :=
    (hread 0 80 (by omega)).trans (by rw [List.drop_zero, List.take_left' hhdrlen])
  have hmagic : (appvalidateGetMetadata cfg m').magic = appMetadataMagic :=
    (hread 0 24 (by omega)).trans (by rw [hparts]; rfl)
  have hsize : (appvalidateGetMetadata cfg m').appSize = BitVec.ofNat 32 code.length := by
    rw [appvalidateGetMetadata, hread 24 4 (by omega), hparts]
    exact ofLe32_le32 _
  have hhash : (appvalidateGetMetadata cfg m').appHash = fasthash64 code 0 := by
    rw [appvalidateGetMetadata, hread 28 8 (by omega), hparts]
    exact (congrArg ofLe64 (List.append_nil (le64 _))).symm.trans (ofLe64_le64_append _ [])
  have hmetaCrc : (appvalidateGetMetadata cfg m').metaCrc = crc := by
    have htail : ((hdr ++ le32 crc).drop metaCrcOffset).take 4 = le32 crc := by
      rw [metaCrcOffset, List.drop_left' hhdrlen]
      rfl
    rw [appvalidateGetMetadata, hread metaCrcOffset 4 (by rw [metaCrcOffset]), htail]
    exact ofLe32_le32 _
  have hnat : (BitVec.ofNat 32 code.length).toNat = code.length := by
    rw [BitVec.toNat_ofNat, Nat.mod_eq_of_lt hlt]
  rw [hm', applicationCheckValid_iff, appvalidateVerify_eq_valid_iff, hstack, hheader, hmagic, hsize,
    hhash, hmetaCrc, hcrc, hnat, hcodeRead]
  refine ⟨hsp.1, hsp.2, rfl, rfl, ?_, hmax, rfl⟩
  intro hzero
  have := congrArg BitVec.toNat hzero
  rw [hnat] at this
  have hz : (0 : Word).toNat = 0 := rfl
  omega

end Terraboot
