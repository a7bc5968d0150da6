import RosheraCad.Ros.Encryption
import RosheraCad.Ros.Layout
import RosheraCad.Ros.Payload

/-!
# Importing a file

After the audit the chunk keys are derived, and HIST, PROV and GEOM are read. Whether a chunk is
decrypted is decided by its own index entry, not by the header.
-/

namespace RosheraCad

/-! ## Keys -/

/-- Whether a file's chunk keys can be re-derived. -/
inductive RosKeyRecoverability
  | notEncrypted
  | derivableFromPassword
  | neverPersisted
  | unsupportedChain (kdfAlgo : UInt8)
  deriving DecidableEq

def keyRecoverability (header : FileHeader) : RosKeyRecoverability :=
  if ¬ header.featureFlags.encrypted then .notEncrypted
  else if header.kdfAlgo = kdfAlgoArgon2idFileBound then .derivableFromPassword
  else if header.kdfAlgo = kdfAlgoArgon2idUnbound then .neverPersisted
  else .unsupportedChain header.kdfAlgo

def checkKdfChain (header : FileHeader) : Except ExportError Unit :=
  match keyRecoverability header with
  | .notEncrypted | .derivableFromPassword => .ok ()
  | .neverPersisted => .error (.unsupportedKdf header.kdfAlgo true)
  | .unsupportedChain _ => .error (.unsupportedKdf header.kdfAlgo false)

def deriveKeySet [Kdf] (header : FileHeader) (password : Option String) :
    Except ExportError (Option KeySet) :=
  if ¬ header.featureFlags.encrypted then .ok none
  else do
    checkKdfChain header
    let password ← Except.ofOption .passwordRequired password
    let keyManager := SoftwareKeyManager.withClampedTimeCost header.kdfIterations
    let keySet ← (keyManager.generateKeySet password header.kdfSalt header.fileUuid).mapError
      .keyDerivation
    return some keySet

variable {keySet : Option KeySet}

theorem exists_keys_of_deriveKeySet [Kdf] {header : FileHeader} {password : Option String}
    (hencrypted : header.featureFlags.encrypted)
    (h : deriveKeySet header password = .ok keySet) : ∃ keys, keySet = some keys := by
  rw [deriveKeySet, if_neg (not_not.mpr hencrypted)] at h
  obtain ⟨_, -, h⟩ := Except.bind_eq_ok.mp h
  obtain ⟨_, -, h⟩ := Except.bind_eq_ok.mp h
  obtain ⟨keys, -, h⟩ := Except.bind_eq_ok.mp h
  cases h
  exact ⟨keys, rfl⟩

/-! ## Chunk payloads -/

def ChunkTable.position (table : ChunkTable) (chunkType : FourCC) : UInt32 :=
  UInt32.ofNat ((table.entries.findIdx? (·.chunkType = chunkType)).getD 0)

def readChunkBytes [Aead] (file : Bytes) (table : ChunkTable) (chunkType : ChunkType)
    (keySet : Option KeySet) (fileIv : ByteVec 8) (kdfAuthenticity : KdfInputAuthenticity) :
    Except ExportError Bytes := do
  let entry ← Except.ofOption (.missingChunk chunkType) (table.findByType chunkType)
  let read ← ((ByteReader.readExact RosFileError.io entry.sizeOnDisk.toNat).run
    (file.drop entry.offset.toNat)).mapError fun _ ↦ .readChunk chunkType
  let data := read.1.toList
  if entry.encrypted then
    let keys ← Except.ofOption (.noKey chunkType) keySet
    let algorithm ← (EncryptionAlgorithm.fromId entry.encAlgo).mapError fun _ ↦
      .unknownAlgorithm entry.encAlgo chunkType
    let decryptor : ChunkEncryptor := ⟨algorithm, keys, fileIv⟩
    (decryptor.decryptChunk entry.chunkType data (table.position entry.chunkType) none).mapError
      (.decryption chunkType · kdfAuthenticity)
  else return data

theorem readChunkBytes_eq [Aead] {file raw : Bytes} {table : ChunkTable} {chunkType : ChunkType}
    {entry : ChunkIndexEntry} (hfile : file.length < 2 ^ 63)
    (hentry : table.findByType chunkType = some entry) (hraw : rawChunkBytes file entry = .ok raw)
    (keySet : Option KeySet) (fileIv : ByteVec 8) (kdfAuthenticity : KdfInputAuthenticity) :
    readChunkBytes file table chunkType keySet fileIv kdfAuthenticity =
      if entry.encrypted then do
        let keys ← Except.ofOption (.noKey chunkType) keySet
        let algorithm ← (EncryptionAlgorithm.fromId entry.encAlgo).mapError fun _ ↦
          .unknownAlgorithm entry.encAlgo chunkType
        let decryptor : ChunkEncryptor := ⟨algorithm, keys, fileIv⟩
        (decryptor.decryptChunk entry.chunkType raw (table.position entry.chunkType) none).mapError
          (.decryption chunkType · kdfAuthenticity)
      else .ok raw := by
  obtain ⟨hlen, before, after, hbefore, hsplit⟩ :=
    slice_eq_some.mp ((rawChunkBytes_eq_ok hfile).mp hraw)
  have hread : (((ByteReader.readExact RosFileError.io entry.sizeOnDisk.toNat).run
      (file.drop entry.offset.toNat)).mapError fun _ ↦ ExportError.readChunk chunkType) =
        .ok (⟨raw, hlen⟩, after) := by
    rw [hsplit, List.append_assoc, List.drop_left' hbefore]
    exact Except.mapError_eq_ok.mpr (ByteReader.reads_readExact _ ⟨raw, hlen⟩ after)
  rw [readChunkBytes, hentry]
  show (Except.mapError _ _ >>= _) = _
  rw [hread]
  rfl

def readChunkPayload [Aead] (α : Type) [MessagePack α] (file : Bytes) (table : ChunkTable)
    (chunkType : ChunkType) (keySet : Option KeySet) (fileIv : ByteVec 8)
    (kdfAuthenticity : KdfInputAuthenticity) : Except ExportError α := do
  let data ← readChunkBytes file table chunkType keySet fileIv kdfAuthenticity
  ensure (chunkType ≠ .META) (.deserialize chunkType)
  Except.ofOption (.deserialize chunkType) (MessagePack.fromSlice data)

def readMetaReplayStatus [SerdeJson] (file : Bytes) (table : ChunkTable) :
    Except ExportError RosReplayStatus := do
  let entry ← Except.ofOption (.missingChunk .META) (table.findByType .META)
  let metaBytes ← rawChunkBytes file entry
  let metaValue ← Except.ofOption .metaNotJson (SerdeJson.fromSlice metaBytes)
  match metaValue.get? "replay_status" with
  | none => return .notAttempted
  | some value => Except.ofOption .replayStatus (SerdeJson.replayStatusFromValue value)

/-! ## Import -/

/-- Reader output. -/
structure RosImport (AICommand CurveData SurfaceData : Type) where
  timeline : List TimelineEvent
  branches : List BranchManifest
  aipr : ProvChunk AICommand
  snapshot : Option (BRepSnapshot CurveData SurfaceData)
  signature : RosSignatureVerdict
  replayStatus : RosReplayStatus

section

variable [Aead] {CurveData SurfaceData : Type} [MessagePack (BRepSnapshot CurveData SurfaceData)]

def readSnapshot (a : RosAudited) (keySet : Option KeySet) :
    Except ExportError (Option (BRepSnapshot CurveData SurfaceData)) :=
  if (a.chunkTable.findByType .GEOM).isSome then
    some <$>
      readChunkPayload (BRepSnapshot CurveData SurfaceData) a.file.1 a.chunkTable .GEOM keySet
      a.header.fileIv (.of a.signature)
  else .ok none

theorem readSnapshot_eq_some {a : RosAudited} {snapshot : BRepSnapshot CurveData SurfaceData} :
    readSnapshot a keySet = .ok (some snapshot) ↔ (a.chunkTable.findByType .GEOM).isSome ∧
      readChunkPayload (BRepSnapshot CurveData SurfaceData) a.file.1 a.chunkTable .GEOM keySet
        a.header.fileIv (.of a.signature) = .ok snapshot := by
  rw [readSnapshot]
  by_cases hgeom : (a.chunkTable.findByType .GEOM).isSome
  · rw [if_pos hgeom, and_iff_right hgeom]
    constructor
    · intro h
      obtain ⟨geom, hread, hsome⟩ := Except.bind_eq_ok.mp h
      cases hsome
      exact hread
    · intro h
      exact Except.bind_eq_ok.mpr ⟨snapshot, h, rfl⟩
  · rw [if_neg hgeom]
    exact iff_of_false nofun fun h ↦ hgeom h.1

theorem readSnapshot_eq_none {a : RosAudited} :
    (readSnapshot a keySet : Except ExportError (Option (BRepSnapshot CurveData SurfaceData))) =
      .ok none ↔ a.chunkTable.findByType .GEOM = none := by
  rw [readSnapshot]
  by_cases hgeom : (a.chunkTable.findByType .GEOM).isSome
  · rw [if_pos hgeom]
    refine iff_of_false (fun h ↦ ?_) (Option.isSome_iff_ne_none.mp hgeom)
    obtain ⟨geom, -, hsome⟩ := Except.bind_eq_ok.mp h
    cases hsome
  · rw [if_neg hgeom]
    exact iff_of_true rfl (Option.not_isSome_iff_eq_none.mp hgeom)

end

section

variable [Crc32] [Sha2] [Ed25519] [Kdf] [Aead] [SerdeJson] [MessagePack SignatureChunk]
  [MessagePack HistChunk] {AICommand CurveData SurfaceData : Type}
  [MessagePack (ProvChunk AICommand)] [MessagePack (BRepSnapshot CurveData SurfaceData)]

def checkAiHints (header : FileHeader) (table : ChunkTable) (prov : ProvChunk AICommand) :
    Except ExportError Unit :=
  if usesIntegritySchemeV2 header.majorVersion header.minorVersion then do
    let commands := UInt64.ofNat prov.commands.length
    ensure (header.aiCommandCount = commands) (.aiCommandCount header.aiCommandCount commands)
    let entry ← Except.ofOption (.missingChunk .PROV) (table.findByType .PROV)
    ensure (header.aiChunkOffset = entry.offset)
      (.aiChunkOffset header.aiChunkOffset entry.offset)
  else .ok ()

/-- Read a file. -/
def importRos (buffer : Buffer) (password : Option String) :
    Except ExportError (RosImport AICommand CurveData SurfaceData) := do
  let a ← auditRosBytes buffer
  let keySet ← deriveKeySet a.header password
  let kdfAuthenticity := KdfInputAuthenticity.of a.signature
  let hist ← readChunkPayload HistChunk a.file.1 a.chunkTable .HIST keySet a.header.fileIv
    kdfAuthenticity
  let prov ← readChunkPayload (ProvChunk AICommand) a.file.1 a.chunkTable .PROV keySet
    a.header.fileIv kdfAuthenticity
  checkAiHints a.header a.chunkTable prov
  let snapshot ← readSnapshot a keySet
  let replayStatus ← readMetaReplayStatus a.file.1 a.chunkTable
  return { timeline := hist.events, branches := hist.branches, aipr := prov, snapshot
           signature := a.signature, replayStatus }

theorem importRos_eq_ok {buffer : Buffer} {password : Option String}
    {i : RosImport AICommand CurveData SurfaceData} : importRos buffer password = .ok i ↔
      ∃ a keySet hist, auditRosBytes buffer = .ok a ∧
        deriveKeySet a.header password = .ok keySet ∧
        readChunkPayload HistChunk a.file.1 a.chunkTable .HIST keySet a.header.fileIv
          (.of a.signature) = .ok hist ∧
        readChunkPayload (ProvChunk AICommand) a.file.1 a.chunkTable .PROV keySet a.header.fileIv
          (.of a.signature) = .ok i.aipr ∧
        checkAiHints a.header a.chunkTable i.aipr = .ok () ∧
        readSnapshot a keySet = .ok i.snapshot ∧
        readMetaReplayStatus a.file.1 a.chunkTable = .ok i.replayStatus ∧
        i.timeline = hist.events ∧ i.branches = hist.branches ∧ i.signature = a.signature := by
  rw [importRos, Except.bind_eq_ok]
  constructor
  · rintro ⟨a, ha, h⟩
    obtain ⟨keySet, hkeys, h⟩ := Except.bind_eq_ok.mp h
    obtain ⟨hist, hhist, h⟩ := Except.bind_eq_ok.mp h
    obtain ⟨prov, hprov, h⟩ := Except.bind_eq_ok.mp h
    obtain ⟨_, hhints, h⟩ := Except.bind_eq_ok.mp h
    obtain ⟨snapshot, hsnapshot, h⟩ := Except.bind_eq_ok.mp h
    obtain ⟨replayStatus, hreplay, h⟩ := Except.bind_eq_ok.mp h
    cases h
    exact ⟨a, keySet, hist, ha, hkeys, hhist, hprov, hhints, hsnapshot, hreplay, rfl, rfl, rfl⟩
  · rintro ⟨a, keySet, hist, ha, hkeys, hhist, hprov, hhints, hsnapshot, hreplay, htimeline,
      hbranches, hsignature⟩
    refine ⟨a, ha, Except.bind_eq_ok.mpr ⟨keySet, hkeys, Except.bind_eq_ok.mpr ⟨hist, hhist,
      Except.bind_eq_ok.mpr ⟨i.aipr, hprov, Except.bind_eq_ok.mpr ⟨(), hhints,
      Except.bind_eq_ok.mpr ⟨i.snapshot, hsnapshot, Except.bind_eq_ok.mpr
      ⟨i.replayStatus, hreplay, ?_⟩⟩⟩⟩⟩⟩⟩
    rw [← htimeline, ← hbranches, ← hsignature]
    rfl

end

end RosheraCad
