import RosheraCad.Ros.Import

/-!
# Exporting a file

An export builds META, HIST, PROV and, when asked for, GEOM, encrypts all but META when there is a
password, and lays them out. A SIGN chunk is appended last. The clock and the random numbers are
given.
-/

namespace RosheraCad

/-! ## What is exported -/

/-- What an export takes from the clock and the random number generator. -/
structure ExportEnv where
  creationTime : UInt64
  fileUuid : ByteVec 16
  kdfSalt : ByteVec 16
  fileIv : ByteVec 8
  writtenAt : Timestamp
  created : UInt64
  trackerTime : UInt64
  sessionId : UInt64
  signedAt : UInt64

structure HistData where
  branches : List BranchManifest
  events : List TimelineEvent

/-- Everything the writer needs in addition to the options. -/
structure RosExportPayload (AICommand Curve Surface : Type) where
  model : BRepModel Curve Surface
  history : Option HistData
  aipr : Option (AICommandTracker AICommand)

structure RosExportOptions where
  includeSnapshot : Bool
  trackingLevel : TrackingLevel
  verifyReplay : Bool
  sign : Bool
  signingKey : Option (ByteVec 32)
  password : Option String
  author : String
  software : String
  units : String

inductive RosWriteSignature
  | unsigned
  | signed (signerId publicKey : String)
  deriving DecidableEq

/-- What an export wrote. -/
structure RosWriteSummary where
  histEventCount : ℕ
  histBranchCount : ℕ
  provCommandCount : ℕ
  provSessionId : UInt64
  signature : RosWriteSignature
  replayStatus : RosReplayStatus

variable {AICommand Curve Surface CurveData SurfaceData : Type}

def RosExportPayload.hist (payload : RosExportPayload AICommand Curve Surface) (env : ExportEnv) :
    HistChunk :=
  match payload.history with
  | some data => .new env.writtenAt data.branches data.events
  | none => .empty env.writtenAt

def RosExportPayload.prov (payload : RosExportPayload AICommand Curve Surface) (env : ExportEnv)
    (options : RosExportOptions) : ProvChunk AICommand :=
  match payload.aipr with
  | some tracker => .fromTracker tracker
  | none => .empty env.trackerTime env.sessionId options.trackingLevel .default

def replayVerdict [FloatDebug] {Replica Assemblies Saved : Type*}
    (kernel : ReplayKernel Replica Assemblies Saved) (verifyReplay : Bool)
    (events : List TimelineEvent) : Except ExportError RosReplayStatus :=
  if verifyReplay then
    let outcome := (kernel.rebuildModelFromEvents kernel.newModel events).2
    if outcome.eventsSkipped = 0 then .ok (.verified outcome.eventsApplied)
    else
      match outcome.firstFailure with
      | some failure => .ok (.incomplete outcome.eventsApplied outcome.eventsSkipped failure)
      | none => .error (.inventedFailure outcome.eventsSkipped events.length)
  else .ok .notAttempted

def metaData (env : ExportEnv) (payload : RosExportPayload AICommand Curve Surface)
    (options : RosExportOptions) (replayStatus : RosReplayStatus) : MetaData where
  author := options.author
  created := env.created
  software := options.software
  units := options.units
  vertices := payload.model.vertices.iter.length
  edges := payload.model.edges.iter.length
  faces := payload.model.faces.iter.length
  solids := payload.model.solids.iter.length
  includeSnapshot := options.includeSnapshot
  replayStatus

/-! ## Content chunks -/

section

variable [Kdf]

def FileHeader.withKdf (header : FileHeader) (env : ExportEnv) (kdfIterations : UInt32) :
    FileHeader :=
  { header with
    encryptionAlgo := EncryptionAlgorithm.asId (.aead .aes256Gcm)
    kdfAlgo := kdfAlgoArgon2idFileBound
    kdfIterations
    kdfSalt := env.kdfSalt
    fileIv := env.fileIv
    featureFlags := header.featureFlags.withEncryption }

def setUpEncryption (env : ExportEnv) (options : RosExportOptions) (header : FileHeader) :
    Except ExportError (FileHeader × Option KeySet) :=
  match options.password with
  | none => .ok (header, none)
  | some password => do
    let keyManager := SoftwareKeyManager.default
    let keySet ← (keyManager.generateKeySet password env.kdfSalt header.fileUuid).mapError
      .keyDerivation
    return (header.withKdf env keyManager.kdfIterations, some keySet)

end

section

variable [Crc32] [Aead]

def Chunk.withSizeAndCrc (chunk : Chunk) : Chunk :=
  { chunk with
    index := { chunk.index with
      uncompressedSize := UInt64.ofNat chunk.data.length
      crc32 := Crc32.crc32 chunk.data } }

def encryptIfEnabled (chunk : Chunk) (keySet : Option KeySet) (fileIv : ByteVec 8)
    (chunkIndex : ℕ) : Except ExportError Chunk :=
  match keySet with
  | none => .ok chunk.withSizeAndCrc
  | some keys => do
    let encryptor : ChunkEncryptor := ⟨.aead .aes256Gcm, keys, fileIv⟩
    let data ← (encryptor.encryptChunk chunk.index.chunkType chunk.data
      (UInt32.ofNat chunkIndex) none).mapError .encryption
    return Chunk.withSizeAndCrc
      { index := { chunk.index with encrypted := true, encAlgo := 1 }, data }

def payloadChunk {α : Type} [MessagePack α] (chunkType : ChunkType) (value : α)
    (keySet : Option KeySet) (fileIv : ByteVec 8) (chunkIndex : ℕ) : Except ExportError Chunk := do
  let bytes ← Except.ofOption (.serialize chunkType) (MessagePack.toVecNamed value)
  encryptIfEnabled (.new chunkType bytes) keySet fileIv chunkIndex

def snapshotChunks [CurveCodec Curve CurveData] [SurfaceCodec Surface SurfaceData]
    [MessagePack (BRepSnapshot CurveData SurfaceData)] (model : BRepModel Curve Surface)
    (includeSnapshot : Bool) (keySet : Option KeySet) (fileIv : ByteVec 8) (chunkIndex : ℕ) :
    Except ExportError (List Chunk) :=
  if includeSnapshot then do
    let snapshot ← Except.ofOption .snapshot (BRepSnapshot.fromModel model)
    let chunk ← payloadChunk .GEOM snapshot keySet fileIv chunkIndex
    return [chunk]
  else .ok []

end

structure ExportContent where
  header : FileHeader
  keySet : Option KeySet
  replayStatus : RosReplayStatus
  chunks : List Chunk

section

variable [FloatDebug] [Crc32] [Kdf] [Aead] [SerdeJson] [MessagePack HistChunk]
  [MessagePack (ProvChunk AICommand)] [MessagePack (BRepSnapshot CurveData SurfaceData)]
  [CurveCodec Curve CurveData] [SurfaceCodec Surface SurfaceData] {Replica Assemblies Saved : Type*}
  (kernel : ReplayKernel Replica Assemblies Saved) (env : ExportEnv)
  (payload : RosExportPayload AICommand Curve Surface) (options : RosExportOptions)

def exportContent : Except ExportError ExportContent := do
  let header := (FileHeader.new env.creationTime env.fileUuid).withAiTracking
    options.trackingLevel.toU8
  let (header, keySet) ← setUpEncryption env options header
  let header := { header with endianness := .little }
  let hist := payload.hist env
  let replayStatus ← replayVerdict kernel options.verifyReplay hist.events
  let metaChunk := Chunk.new .META
    (SerdeJson.toString (metaData env payload options replayStatus).toJson)
  let histChunk ← payloadChunk .HIST hist keySet header.fileIv 1
  let prov := payload.prov env options
  let provChunk ← payloadChunk .PROV prov keySet header.fileIv 2
  let geomChunks ← snapshotChunks payload.model options.includeSnapshot keySet header.fileIv 3
  let chunks := layOut (UInt64.ofNat headerSize) ([metaChunk, histChunk, provChunk] ++ geomChunks)
  let provEntry ← Except.ofOption (.missingChunk .PROV)
    ((⟨chunks.map (·.index)⟩ : ChunkTable).findByType .PROV)
  let header := { header with
    aiCommandCount := UInt64.ofNat prov.commands.length
    aiChunkOffset := provEntry.offset }
  return { header, keySet, replayStatus, chunks }

end

/-! ## Signing -/

section

variable [Crc32] [Sha2]

def FileHeader.withClaim (header : FileHeader) (contentChunks : ℕ) : FileHeader :=
  { header with
    signatureAlgo := SignatureAlgorithm.ed25519.toU8
    featureFlags := header.featureFlags.withSignature
    indexEntryCount := UInt32.ofNat (contentChunks + 1) }

def signingRoot (header : FileHeader) (chunks : List Chunk) : Except ExportError Bytes := do
  let (_, headerImage) ← header.toBytes.mapError .ros
  let headerLeaf ← normalizedHeaderLeaf headerImage
  let leaves := signedLeafSet headerLeaf (chunks.map (·.data)) (chunks.map (·.index.toBytes))
  Except.ofOption (.ros .io) (MerkleTree.fromLeaves leaves .sha256).rootHash

variable [Ed25519] [MessagePack SignatureChunk]

def signerIdOf (publicKey : ByteVec 32) : ByteVec 16 :=
  ⟨derivedSignerId publicKey.toList, by
    rw [derivedSignerId, List.length_take, length_sha256]
    decide⟩

def appendSignChunk (signedAt : UInt64) (chunks : List Chunk) (header : FileHeader)
    (key : ByteVec 32) : Except ExportError (FileHeader × List Chunk × RosWriteSignature) := do
  let header := header.withClaim chunks.length
  let root ← signingRoot header chunks
  let publicKey := Ed25519.verifyingKey key
  let signerId := signerIdOf publicKey
  let signer : FileSigner := ⟨key, signerId⟩
  let record := signer.signFile root header.fileUuid signedAt
  let signBytes := (SignatureChunk.mk record).serialize
  ensure (¬ signBytes.isEmpty) .noSignBytes
  return (header, chunks ++ [.new .SIGN signBytes],
    .signed (toHex signerId.toList) (toHex publicKey.toList))

def signIfAsked (signedAt : UInt64) (options : RosExportOptions) (content : ExportContent) :
    Except ExportError (FileHeader × List Chunk × RosWriteSignature) :=
  match options.sign, options.signingKey with
  | false, _ => .ok (content.header, content.chunks, .unsigned)
  | true, none => .error .signingKeyRequired
  | true, some key => appendSignChunk signedAt content.chunks content.header key

end

/-! ## Writing -/

def checkSignatureClaimMatchesTable (headerClaimsSignature carriesSignChunk : Bool) :
    Except ExportError Unit :=
  ensure (headerClaimsSignature = carriesSignChunk)
    (.claimDisagrees headerClaimsSignature carriesSignChunk)

def checkKeyBinding (keySetFileId headerFileUuid : ByteVec 16) : Except ExportError Unit :=
  ensure (keySetFileId = headerFileUuid) (.keyBinding keySetFileId headerFileUuid)

structure ExportedFile where
  header : FileHeader
  chunks : List Chunk
  file : Buffer

section

variable [Crc32]

def writeFile (header : FileHeader) (chunks : List Chunk) (keySet : Option KeySet) :
    Except ExportError ExportedFile := do
  let chunks := layOut (UInt64.ofNat headerSize) chunks
  let header := header.withLayout chunks
  let carriesSignChunk := chunks.any (·.index.chunkType = ChunkType.SIGN.asFourcc)
  checkSignatureClaimMatchesTable header.featureFlags.hasSignature carriesSignChunk
  keySet.toList.forM fun keys ↦ checkKeyBinding keys.fileId header.fileUuid
  let (header, headerImage) ← header.toBytes.mapError .writeHeader
  let bytes := fileBytes headerImage chunks
  if h : bytes.length < 2 ^ 63 then return { header, chunks, file := ⟨bytes, h⟩ }
  else throw .capacityOverflow

end

section

variable [FloatDebug] [Crc32] [Sha2] [Ed25519] [Kdf] [Aead] [SerdeJson]
  [MessagePack SignatureChunk] [MessagePack HistChunk] [MessagePack (ProvChunk AICommand)]
  [MessagePack (BRepSnapshot CurveData SurfaceData)] [CurveCodec Curve CurveData]
  [SurfaceCodec Surface SurfaceData] {Replica Assemblies Saved : Type*}
  (kernel : ReplayKernel Replica Assemblies Saved) (env : ExportEnv)
  (payload : RosExportPayload AICommand Curve Surface) (options : RosExportOptions)

/-- Export a model, a timeline and its provenance. -/
def exportBrepToRos : Except ExportError (ExportedFile × RosWriteSummary) := do
  let content ← exportContent kernel env payload options
  let (header, chunks, signature) ← signIfAsked env.signedAt options content
  let exported ← writeFile header chunks content.keySet
  let hist := payload.hist env
  let prov := payload.prov env options
  return (exported,
    { histEventCount := hist.events.length
      histBranchCount := hist.branches.length
      provCommandCount := prov.commands.length
      provSessionId := prov.session
      signature
      replayStatus := content.replayStatus })

end

end RosheraCad
