import RosheraCad.Library.ByteReader
import RosheraCad.Library.Checked
import RosheraCad.Types

/-!
# The file header

A file starts with a header of 128 bytes. Multi-byte fields are stored in the order the header
itself names. A checksum over the header stands in the header; what it covers depends on the
version.
-/

namespace RosheraCad

/-! ## Errors -/

inductive RosFileError
  | io
  | invalidHeader (field reason : String)
  | invalidMagic (expected actual : Bytes)
  | crcMismatch (chunk : String) (expected actual : UInt32)
  | versionTooNew (fileVersion maxSupported : String)
  | versionTooOld (fileVersion minSupported : String)
  | invalidChunk (chunkType : Bytes) (offset : UInt64) (reason : String)
  | invalidChunkSize (chunk : Bytes) (size maxSize : UInt64)
  | missingRequiredChunk (chunkType : Bytes)
  | invalidCompression (value : UInt8)
  | failedToReadEntry (offset : UInt64) (i : ℕ) (cause : RosFileError)
  | invalidChunkAt (i : ℕ) (cause : RosFileError)
  | unsupportedAlgorithm (id : UInt8)
  | corruptedData (tagSize dataSize : ℕ)
  | missingKey (chunkType : Bytes)
  | encryptionFailed
  | decryptionFailed
  | keyDerivationFailed (reason : String)
  | invalidSignature (reason : String)
  | other (message : String)
  deriving DecidableEq

class Crc32 where
  crc32 : Bytes → UInt32

abbrev exampleCrc32 : Crc32 where
  crc32 data := UInt32.ofNat (data.foldl (fun acc b ↦ acc * 257 + b.toNat + 1) 0)

/-! ## Constants -/

/-- Magic string at the start of every file, `"ROSHERA\0"`. -/
def rosheraMagic : ByteVec 8 := ⟨[0x52, 0x4f, 0x53, 0x48, 0x45, 0x52, 0x41, 0x00], rfl⟩

def currentMajorVersion : UInt8 := 3

def currentMinorVersion : UInt8 := 2

def currentPatchVersion : UInt8 := 0

/-- First minor version whose checksum covers the whole header and whose signature the chunk index.
-/
def integritySchemeV2MinMinor : UInt8 := 2

def usesIntegritySchemeV2 (majorVersion minorVersion : UInt8) : Bool :=
  majorVersion > currentMajorVersion ||
    (majorVersion == currentMajorVersion && minorVersion ≥ integritySchemeV2MinMinor)

def headerSize : ℕ := 128

def headerCrcInput (headerBytes : Bytes) (majorVersion minorVersion : UInt8) : Option Bytes :=
  if headerBytes.length < headerSize then none
  else
    some (headerBytes.take 12 ++
      if usesIntegritySchemeV2 majorVersion minorVersion then headerBytes.extract 16 headerSize
      else [])

/-! ## Fields -/

inductive Endianness
  | little
  | big
  deriving DecidableEq

namespace Endianness

def fromU8 (value : UInt8) : Except RosFileError Endianness :=
  if value = 1 then .ok little
  else if value = 2 then .ok big
  else .error (.invalidHeader "endianness" s!"Invalid value: {value}")

def toU8 : Endianness → UInt8
  | little => 1
  | big => 2

/-- The byte order integers are stored in. -/
def order : Endianness → ByteOrder
  | little => .littleEndian
  | big => .bigEndian

theorem fromU8_eq_ok {value : UInt8} {e : Endianness} : fromU8 value = .ok e ↔ value = e.toU8 := by
  rw [fromU8]
  by_cases h₁ : value = 1
  · rw [if_pos h₁, h₁]
    rcases e with - | - <;> decide
  · rw [if_neg h₁]
    by_cases h₂ : value = 2
    · rw [if_pos h₂, h₂]
      rcases e with - | - <;> decide
    · rw [if_neg h₂]
      rcases e with - | -
      · exact iff_of_false nofun h₁
      · exact iff_of_false nofun h₂

theorem toU8_injective : Function.Injective toU8 := by
  intro e e' h
  rcases e with - | - <;> rcases e' with - | - <;> first | rfl | exact absurd h (by decide)

end Endianness

structure FeatureFlags where
  bits : UInt64
  deriving DecidableEq

namespace FeatureFlags

def hasSignature (f : FeatureFlags) : Bool := f.bits &&& ((1 : UInt64) <<< 0) != 0

def encrypted (f : FeatureFlags) : Bool := f.bits &&& ((1 : UInt64) <<< 4) != 0

def withSignature (f : FeatureFlags) : FeatureFlags := ⟨f.bits ||| ((1 : UInt64) <<< 0)⟩

def withEncryption (f : FeatureFlags) : FeatureFlags := ⟨f.bits ||| ((1 : UInt64) <<< 4)⟩

def withAiProvenance (f : FeatureFlags) : FeatureFlags := ⟨f.bits ||| ((1 : UInt64) <<< 5)⟩

end FeatureFlags

/-- Top-level file header. -/
structure FileHeader where
  magic : ByteVec 8
  majorVersion : UInt8
  minorVersion : UInt8
  patchVersion : UInt8
  endianness : Endianness
  headerCrc32 : UInt32
  fileSize : UInt64
  creationTime : UInt64
  fileUuid : ByteVec 16
  indexOffset : UInt64
  indexEntryCount : UInt32
  indexEntrySize : UInt32
  encryptionAlgo : UInt8
  kdfAlgo : UInt8
  signatureAlgo : UInt8
  aiTracking : UInt8
  kdfIterations : UInt32
  kdfSalt : ByteVec 16
  fileIv : ByteVec 8
  featureFlags : FeatureFlags
  reserved : ByteVec 8
  aiCommandCount : UInt64
  aiChunkOffset : UInt64

namespace FileHeader

/-- A new header with defaults, given the time and a fresh UUID. -/
def new (creationTime : UInt64) (fileUuid : ByteVec 16) : FileHeader where
  magic := rosheraMagic
  majorVersion := currentMajorVersion
  minorVersion := currentMinorVersion
  patchVersion := currentPatchVersion
  endianness := .little
  headerCrc32 := 0
  fileSize := 0
  creationTime
  fileUuid
  indexOffset := 0
  indexEntryCount := 0
  indexEntrySize := 96
  encryptionAlgo := 0
  kdfAlgo := 0
  signatureAlgo := 0
  aiTracking := 0
  kdfIterations := 0
  kdfSalt := .replicate 16 0
  fileIv := .replicate 8 0
  featureFlags := ⟨0⟩
  reserved := .replicate 8 0
  aiCommandCount := 0
  aiChunkOffset := 0

def withAiTracking (h : FileHeader) (level : UInt8) : FileHeader :=
  { h with
    aiTracking := level
    featureFlags := h.featureFlags.withAiProvenance }

/-! ## Reading -/

open ByteReader in
def parseWithEndianness (order : ByteOrder) (magic : ByteVec 8) :
    ByteReader RosFileError FileHeader := do
  let majorVersion ← readU8 .io
  let minorVersion ← readU8 .io
  let patchVersion ← readU8 .io
  let endianness ← readU8 .io
  let endianness ← Endianness.fromU8 endianness
  let headerCrc32 ← readU32 .io order
  let fileSize ← readU64 .io order
  let creationTime ← readU64 .io order
  let fileUuid ← readExact .io 16
  let indexOffset ← readU64 .io order
  let indexEntryCount ← readU32 .io order
  let indexEntrySize ← readU32 .io order
  let encryptionAlgo ← readU8 .io
  let kdfAlgo ← readU8 .io
  let signatureAlgo ← readU8 .io
  let aiTracking ← readU8 .io
  let kdfIterations ← readU32 .io order
  let kdfSalt ← readExact .io 16
  let fileIv ← readExact .io 8
  let featureFlags ← readU64 .io order
  let reserved ← readExact .io 8
  let aiCommandCount ← readU64 .io order
  let aiChunkOffset ← readU64 .io order
  return {
    magic, majorVersion, minorVersion, patchVersion, endianness, headerCrc32, fileSize, creationTime
    fileUuid, indexOffset, indexEntryCount, indexEntrySize, encryptionAlgo, kdfAlgo, signatureAlgo
    aiTracking, kdfIterations, kdfSalt, fileIv, featureFlags := ⟨featureFlags⟩, reserved
    aiCommandCount, aiChunkOffset }

@[irreducible] def serializeWithEndianness (order : ByteOrder) (h : FileHeader) : Bytes :=
  h.magic.toList ++ [h.majorVersion] ++ [h.minorVersion] ++ [h.patchVersion] ++
    [h.endianness.toU8] ++ order.bytes 4 h.headerCrc32.toNat ++
    order.bytes 8 h.fileSize.toNat ++ order.bytes 8 h.creationTime.toNat ++ h.fileUuid.toList ++
    order.bytes 8 h.indexOffset.toNat ++ order.bytes 4 h.indexEntryCount.toNat ++
    order.bytes 4 h.indexEntrySize.toNat ++ [h.encryptionAlgo] ++ [h.kdfAlgo] ++
    [h.signatureAlgo] ++ [h.aiTracking] ++ order.bytes 4 h.kdfIterations.toNat ++
    h.kdfSalt.toList ++ h.fileIv.toList ++ order.bytes 8 h.featureFlags.bits.toNat ++
    h.reserved.toList ++ order.bytes 8 h.aiCommandCount.toNat ++
    order.bytes 8 h.aiChunkOffset.toNat

def isSupported (h : FileHeader) : Except RosFileError Unit := do
  let version := s!"{h.majorVersion}.{h.minorVersion}.{h.patchVersion}"
  ensure (h.magic = rosheraMagic) (.invalidMagic rosheraMagic.toList h.magic.toList)
  ensure (¬ h.majorVersion > currentMajorVersion)
    (.versionTooNew version
      s!"{currentMajorVersion}.{currentMinorVersion}.{currentPatchVersion}")
  ensure (¬ h.majorVersion < 3) (.versionTooOld version "3.0.0")

/-- Whether the header's fields are consistent. -/
def validate (h : FileHeader) : Except RosFileError Unit := do
  h.isSupported
  ensure (h.reserved.toList.all (· == 0)) (.invalidHeader "reserved" "Reserved bytes must be zero")
  ensure (h.indexEntrySize = 96)
    (.invalidHeader "index_entry_size" s!"Must be 96, got {h.indexEntrySize}")
  ensure (¬ h.encryptionAlgo > 2)
    (.invalidHeader "encryption_algo" s!"Invalid algorithm ID: {h.encryptionAlgo}")
  ensure (¬ (h.encryptionAlgo ≠ 0 ∧ h.kdfAlgo = 0))
    (.invalidHeader "kdf_algo" "KDF required when encryption is enabled")

section

variable [Crc32]

open ByteReader in
def readFrom (file : Bytes) : Except RosFileError FileHeader := do
  let image ← (readExact .io headerSize).run file
  let headerBytes := image.1.toList
  let magic ← (readExact .io 8).run headerBytes
  ensure (magic.1 = rosheraMagic) (.invalidMagic rosheraMagic.toList magic.1.toList)
  let endianness ← Endianness.fromU8 (headerBytes.getD 11 0)
  let header ← (parseWithEndianness endianness.order magic.1).run magic.2
  let crcInput ← Except.ofOption
    (.invalidHeader "header_crc32"
      s!"header image is {headerBytes.length} bytes, shorter than the mandatory {headerSize}")
    (headerCrcInput headerBytes (headerBytes.getD 8 0) (headerBytes.getD 9 0))
  let computedCrc := Crc32.crc32 crcInput
  let storedCrc := UInt32.ofNat (endianness.order.value (headerBytes.extract 12 16))
  ensure (computedCrc = storedCrc) (.crcMismatch "header" storedCrc computedCrc)
  return header.1

/-- The header's image, with its checksum computed and stored. -/
def toBytes (h : FileHeader) : Except RosFileError (FileHeader × Bytes) := do
  let order := h.endianness.order
  let headerBytes := h.serializeWithEndianness order
  let crcInput ← Except.ofOption
    (.invalidHeader "header_crc32" s!"serialized header is not {headerSize} bytes")
    (headerCrcInput headerBytes h.majorVersion h.minorVersion)
  let crc := Crc32.crc32 crcInput
  return ({ h with headerCrc32 := crc },
    headerBytes.take 12 ++ order.bytes 4 crc.toNat ++ headerBytes.drop 16)

end

/-! ## The image of a header -/

def front (h : FileHeader) : Bytes :=
  h.magic.toList ++ ([h.majorVersion] ++ ([h.minorVersion] ++ ([h.patchVersion] ++
    [h.endianness.toU8])))

def back (order : ByteOrder) (h : FileHeader) : Bytes :=
  order.bytes 8 h.fileSize.toNat ++ (order.bytes 8 h.creationTime.toNat ++ (h.fileUuid.toList ++
  (order.bytes 8 h.indexOffset.toNat ++ (order.bytes 4 h.indexEntryCount.toNat ++
  (order.bytes 4 h.indexEntrySize.toNat ++ ([h.encryptionAlgo] ++ ([h.kdfAlgo] ++
  ([h.signatureAlgo] ++ ([h.aiTracking] ++ (order.bytes 4 h.kdfIterations.toNat ++
  (h.kdfSalt.toList ++ (h.fileIv.toList ++ (order.bytes 8 h.featureFlags.bits.toNat ++
  (h.reserved.toList ++ (order.bytes 8 h.aiCommandCount.toNat ++
  order.bytes 8 h.aiChunkOffset.toNat)))))))))))))))

theorem serialize_eq (order : ByteOrder) (h : FileHeader) :
    h.serializeWithEndianness order =
      h.front ++ (order.bytes 4 h.headerCrc32.toNat ++ h.back order) := by
  unfold serializeWithEndianness front back
  simp only [List.append_assoc]

theorem length_front (h : FileHeader) : h.front.length = 12 := by
  simp [front]

theorem length_back (order : ByteOrder) (h : FileHeader) : (h.back order).length = 112 := by
  simp [back, ByteOrder.length_bytes]

theorem length_serialize (order : ByteOrder) (h : FileHeader) :
    (h.serializeWithEndianness order).length = headerSize := by
  rw [serialize_eq, List.length_append, List.length_append, length_front, length_back,
    ByteOrder.length_bytes]
  rfl

theorem serialize_fields (order : ByteOrder) (h : FileHeader) :
    h.serializeWithEndianness order = h.magic.toList ++ ([h.majorVersion] ++ ([h.minorVersion] ++
      ([h.patchVersion] ++ ([h.endianness.toU8] ++
        (order.bytes 4 h.headerCrc32.toNat ++ h.back order))))) := by
  rw [serialize_eq, front]
  simp only [List.append_assoc]

open ByteReader in
theorem reads_parse (order : ByteOrder) (h : FileHeader) :
    Reads (parseWithEndianness order h.magic)
      ([h.majorVersion] ++ ([h.minorVersion] ++ ([h.patchVersion] ++ ([h.endianness.toU8] ++
        (order.bytes 4 h.headerCrc32.toNat ++ h.back order))))) h := by
  refine (reads_readU8 _ _).bind ((reads_readU8 _ _).bind ((reads_readU8 _ _).bind
    ((reads_readU8 _ _).bind (.check (Endianness.fromU8_eq_ok.mpr rfl) ?_))))
  -- one step for each field, in the order they are stored
  refine (reads_readU32 _ _ _).bind ((reads_readU64 _ _ _).bind ((reads_readU64 _ _ _).bind ?_))
  refine (reads_readExact _ _).bind ((reads_readU64 _ _ _).bind ((reads_readU32 _ _ _).bind ?_))
  refine (reads_readU32 _ _ _).bind ((reads_readU8 _ _).bind ((reads_readU8 _ _).bind ?_))
  refine (reads_readU8 _ _).bind ((reads_readU8 _ _).bind ((reads_readU32 _ _ _).bind ?_))
  refine (reads_readExact _ _).bind ((reads_readExact _ _).bind ((reads_readU64 _ _ _).bind ?_))
  exact (reads_readExact _ _).bind ((reads_readU64 _ _ _).bind (reads_readU64 _ _ _).last)

open ByteReader in
theorem parse_bytes {order : ByteOrder} {magic : ByteVec 8} {h : FileHeader} {bytes rest : Bytes}
    (hread : parseWithEndianness order magic bytes = .ok (h, rest)) :
    h.magic = magic ∧ bytes = [h.majorVersion] ++ ([h.minorVersion] ++ ([h.patchVersion] ++
      ([h.endianness.toU8] ++ (order.bytes 4 h.headerCrc32.toNat ++ h.back order)))) ++ rest := by
  obtain ⟨_, _, hmajor, hread⟩ := bind_eq_ok.mp hread
  obtain ⟨_, _, hminor, hread⟩ := bind_eq_ok.mp hread
  obtain ⟨_, _, hpatch, hread⟩ := bind_eq_ok.mp hread
  obtain ⟨_, _, hendian, hread⟩ := bind_eq_ok.mp hread
  obtain ⟨_, _, hcheck, hread⟩ := bind_eq_ok.mp hread
  obtain ⟨hendianness, hmid⟩ := lift_eq_ok.mp hcheck
  obtain ⟨_, _, hcrc, hread⟩ := bind_eq_ok.mp hread
  obtain ⟨_, _, hsize, hread⟩ := bind_eq_ok.mp hread
  obtain ⟨_, _, htime, hread⟩ := bind_eq_ok.mp hread
  obtain ⟨_, _, huuid, hread⟩ := bind_eq_ok.mp hread
  obtain ⟨_, _, hoffset, hread⟩ := bind_eq_ok.mp hread
  obtain ⟨_, _, hcount, hread⟩ := bind_eq_ok.mp hread
  obtain ⟨_, _, hentry, hread⟩ := bind_eq_ok.mp hread
  obtain ⟨_, _, hencryption, hread⟩ := bind_eq_ok.mp hread
  obtain ⟨_, _, hkdf, hread⟩ := bind_eq_ok.mp hread
  obtain ⟨_, _, hsignature, hread⟩ := bind_eq_ok.mp hread
  obtain ⟨_, _, htracking, hread⟩ := bind_eq_ok.mp hread
  obtain ⟨_, _, hiterations, hread⟩ := bind_eq_ok.mp hread
  obtain ⟨_, _, hsalt, hread⟩ := bind_eq_ok.mp hread
  obtain ⟨_, _, hiv, hread⟩ := bind_eq_ok.mp hread
  obtain ⟨_, _, hflags, hread⟩ := bind_eq_ok.mp hread
  obtain ⟨_, _, hreserved, hread⟩ := bind_eq_ok.mp hread
  obtain ⟨_, _, hcommands, hread⟩ := bind_eq_ok.mp hread
  obtain ⟨_, _, hprov, hread⟩ := bind_eq_ok.mp hread
  cases hread
  refine ⟨rfl, ?_⟩
  rw [readU8_bytes hmajor, readU8_bytes hminor, readU8_bytes hpatch, readU8_bytes hendian,
    Endianness.fromU8_eq_ok.mp hendianness, ← hmid, readU32_bytes hcrc, readU64_bytes hsize,
    readU64_bytes htime, readExact_bytes huuid, readU64_bytes hoffset, readU32_bytes hcount,
    readU32_bytes hentry, readU8_bytes hencryption, readU8_bytes hkdf, readU8_bytes hsignature,
    readU8_bytes htracking, readU32_bytes hiterations, readExact_bytes hsalt, readExact_bytes hiv,
    readU64_bytes hflags, readExact_bytes hreserved, readU64_bytes hcommands, readU64_bytes hprov]
  unfold back
  simp only [List.append_assoc]

def crcInput (h : FileHeader) : Bytes :=
  h.front ++ if usesIntegritySchemeV2 h.majorVersion h.minorVersion then h.back h.endianness.order
    else []

def image (h : FileHeader) : Bytes := h.serializeWithEndianness h.endianness.order

theorem length_image (h : FileHeader) : h.image.length = headerSize := length_serialize _ h

section

variable [Crc32]

def crc (h : FileHeader) : UInt32 := Crc32.crc32 h.crcInput

def sealed (h : FileHeader) : FileHeader := { h with headerCrc32 := h.crc }

omit [Crc32] in
theorem take_serialize (order : ByteOrder) (h : FileHeader) :
    (h.serializeWithEndianness order).take 12 = h.front := by
  rw [serialize_eq]
  exact List.take_left' (length_front h)

omit [Crc32] in
theorem drop_serialize (order : ByteOrder) (h : FileHeader) :
    (h.serializeWithEndianness order).drop 16 = h.back order := by
  rw [serialize_eq, ← List.append_assoc, List.drop_left']
  rw [List.length_append, length_front, ByteOrder.length_bytes]

omit [Crc32] in
theorem getD_serialize (order : ByteOrder) (h : FileHeader) :
    (h.serializeWithEndianness order).getD 8 0 = h.majorVersion ∧
      (h.serializeWithEndianness order).getD 9 0 = h.minorVersion ∧
      (h.serializeWithEndianness order).getD 11 0 = h.endianness.toU8 ∧
      (h.serializeWithEndianness order).extract 12 16 = order.bytes 4 h.headerCrc32.toNat := by
  have hlen : h.magic.toList.length = 8 := h.magic.toList_length
  refine ⟨?_, ?_, ?_, ?_⟩
  rotate_left 3
  · rw [List.extract_eq_take_drop, serialize_eq, List.drop_left' (length_front h)]
    exact List.take_left' (ByteOrder.length_bytes _ _ _)
  all_goals
    rw [serialize_fields, List.getD_eq_getElem?_getD,
      List.getElem?_append_right (hlen.trans_le (by decide)), hlen]
    rfl

omit [Crc32] in
theorem image_injective : Function.Injective image := by
  intro h h' heq
  rw [image, image] at heq
  have hendian : h.endianness = h'.endianness := by
    refine Endianness.toU8_injective ?_
    rw [← (getD_serialize h.endianness.order h).2.2.1, heq]
    exact (getD_serialize _ h').2.2.1
  rw [hendian, serialize_fields, serialize_fields] at heq
  obtain ⟨hmagic, hfields⟩ := List.append_inj heq
    (h.magic.toList_length.trans h'.magic.toList_length.symm)
  have hread := reads_parse h'.endianness.order h []
  rw [hfields, List.Vector.eq _ _ hmagic, reads_parse h'.endianness.order h' []] at hread
  cases hread
  rfl

omit [Crc32] in
theorem headerCrcInput_image (h : FileHeader) :
    headerCrcInput (h.serializeWithEndianness h.endianness.order) h.majorVersion h.minorVersion =
      some h.crcInput := by
  have hlen : ¬ (h.serializeWithEndianness h.endianness.order).length < headerSize := by
    rw [length_serialize]
    exact Nat.lt_irrefl _
  have hback : (h.back h.endianness.order).take (headerSize - 16) = h.back h.endianness.order :=
    List.take_of_length_le (length_back _ h).le
  rw [headerCrcInput, if_neg hlen, take_serialize, List.extract_eq_take_drop, drop_serialize, hback,
    crcInput]

theorem toBytes_eq (h : FileHeader) : h.toBytes = .ok (h.sealed, h.sealed.image) := by
  have himage : h.sealed.image = h.front ++ h.endianness.order.bytes 4 h.crc.toNat ++
      h.back h.endianness.order := by
    rw [image, serialize_eq, List.append_assoc]
    rfl
  rw [toBytes, headerCrcInput_image, take_serialize, drop_serialize, himage]
  rfl

open ByteReader in
/-- **What is accepted as a header**: the image of one with the right magic string and checksum, at
the start of the file. -/
theorem readFrom_eq_ok {file : Bytes} {h : FileHeader} : readFrom file = .ok h ↔
    h.magic = rosheraMagic ∧ h.headerCrc32 = h.crc ∧ ∃ rest, file = h.image ++ rest := by
  constructor
  · intro hread
    obtain ⟨⟨image, rest⟩, himage, hread⟩ := Except.bind_eq_ok.mp hread
    obtain ⟨⟨magic, cursor⟩, hmagic, hread⟩ := Except.bind_eq_ok.mp hread
    obtain ⟨_, hchecked, hread⟩ := Except.bind_eq_ok.mp hread
    have hmagic_eq := ensure_eq_ok.mp hchecked
    obtain ⟨endianness, hendian, hread⟩ := Except.bind_eq_ok.mp hread
    obtain ⟨⟨header, left⟩, hparse, hread⟩ := Except.bind_eq_ok.mp hread
    obtain ⟨crcInput, hinput, hread⟩ := Except.bind_eq_ok.mp hread
    obtain ⟨_, hcrc, hread⟩ := Except.bind_eq_ok.mp hread
    cases hread
    have himage_eq : image.toList = header.serializeWithEndianness endianness.order := by
      have hbytes := readExact_bytes hmagic
      obtain ⟨hmagic, hcursor⟩ := parse_bytes hparse
      -- the fields take the whole image, so nothing is left over
      dsimp only at hmagic hcursor
      rw [hcursor, ← hmagic, ← List.append_assoc, ← serialize_fields] at hbytes
      have hlen := congrArg List.length hbytes
      rw [List.length_append, length_serialize, image.toList_length] at hlen
      have hleft : left = [] := List.length_eq_zero_iff.mp (by omega)
      rw [hbytes, hleft, List.append_nil]
    have hsame : endianness = header.endianness := by
      have h11 := Endianness.fromU8_eq_ok.mp hendian
      dsimp only at h11
      rw [himage_eq, (getD_serialize _ header).2.2.1] at h11
      exact Endianness.toU8_injective h11.symm
    subst hsame
    have hcrc := ensure_eq_ok.mp hcrc
    have hinput := Except.ofOption_eq_ok.mp hinput
    obtain ⟨h8, h9, -, h12⟩ := getD_serialize header.endianness.order header
    dsimp only at hmagic_eq hcrc hinput
    rw [himage_eq, h8, h9, headerCrcInput_image] at hinput
    rw [himage_eq, h12, ByteOrder.value_bytes (UInt32.toNat_lt _), UInt32.ofNat_toNat] at hcrc
    cases hinput
    refine ⟨(parse_bytes hparse).1.trans hmagic_eq, hcrc.symm, rest, ?_⟩
    rw [readExact_bytes himage, himage_eq]
    rfl
  · rintro ⟨hmagic, hcrc, rest, hfile⟩
    have himage := reads_readExact RosFileError.io (⟨h.image, h.length_image⟩ : ByteVec headerSize)
      rest
    have hfields := reads_parse h.endianness.order h []
    rw [List.append_nil] at hfields
    have hread := reads_readExact RosFileError.io h.magic
    obtain ⟨h8, h9, h11, h12⟩ := getD_serialize h.endianness.order h
    rw [hfile]
    refine Except.bind_eq_ok.mpr ⟨_, himage, Except.bind_eq_ok.mpr ⟨(h.magic, _), ?_,
      Except.bind_eq_ok.mpr ⟨(), ensure_eq_ok.mpr hmagic, Except.bind_eq_ok.mpr ⟨h.endianness, ?_,
      Except.bind_eq_ok.mpr ⟨(h, []), hfields, Except.bind_eq_ok.mpr ⟨h.crcInput, ?_,
      Except.bind_eq_ok.mpr ⟨(), ?_, rfl⟩⟩⟩⟩⟩⟩⟩
    · have hmagic := reads_readExact RosFileError.io h.magic
        ([h.majorVersion] ++ ([h.minorVersion] ++ ([h.patchVersion] ++ ([h.endianness.toU8] ++
          (h.endianness.order.bytes 4 h.headerCrc32.toNat ++ h.back h.endianness.order)))))
      rwa [← serialize_fields] at hmagic
    · exact Endianness.fromU8_eq_ok.mpr h11
    · refine Except.ofOption_eq_ok.mpr ?_
      have hinput := h.headerCrcInput_image
      rwa [← h8, ← h9] at hinput
    · refine ensure_eq_ok.mpr ?_
      have hstored : UInt32.ofNat (h.endianness.order.value (h.image.extract 12 16)) =
          h.headerCrc32 := by
        rw [image, h12, ByteOrder.value_bytes (UInt32.toNat_lt _), UInt32.ofNat_toNat]
      exact hcrc.symm.trans hstored.symm

end

end FileHeader

end RosheraCad
