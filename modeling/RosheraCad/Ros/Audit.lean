import RosheraCad.Ros.Chunk
import RosheraCad.Ros.Signature

/-!
# The audit of a file

Before a key is derived a reader checks the header and its declared size, the chunk index, that
nothing is compressed, that the chunks fill the space between the header and the index, the
signature over the raw bytes, and the checksum of every chunk. The header is signed with three
ranges blanked.
-/

namespace RosheraCad

/-- A byte vector holds at most `isize::MAX` bytes. -/
abbrev Buffer := { bytes : Bytes // bytes.length < 2 ^ 63 }

/-! ## Verdicts and errors -/

inductive SignatureDefect
  | deserialize (cause : RosFileError)
  | noContent
  | mismatch
  | verification (cause : RosFileError)
  deriving DecidableEq

inductive RosSignatureVerdict
  | unsigned
  | verified (signerId publicKey : String)
  | invalid (reason : SignatureDefect)
  | forgedSignerId (declaredSignerId derivedSignerId publicKey : String)
  | supersededScheme (fileVersion : String) (indexSize : ℕ)
  deriving DecidableEq

/-- What the file lets a reader conclude about the header fields the chunk keys descend from. -/
inductive KdfInputAuthenticity
  | signed (publicKey : String) (identityForged : Bool)
  | signatureBroken
  | unauthenticated (superseded : Bool)
  deriving DecidableEq

def KdfInputAuthenticity.of : RosSignatureVerdict → KdfInputAuthenticity
  | .verified _ publicKey => signed publicKey false
  | .forgedSignerId _ _ publicKey => signed publicKey true
  | .invalid _ => signatureBroken
  | .unsigned => unauthenticated false
  | .supersededScheme _ _ => unauthenticated true

inductive LayoutDefect
  | chunkEndOverflows
  | chunkOutside (chunkType : FourCC) (offset stop indexOffset : UInt64)
  | totalOverflows
  | deadSpace (payloadTotal expectedIndexOffset indexOffset : UInt64)
  | indexEndOverflows
  | indexEnd (indexEnd fileLen : UInt64)
  deriving DecidableEq

inductive ExportError
  | readHeader (cause : RosFileError)
  | headerValidation (cause : RosFileError)
  | bigEndian
  | fileSize (declared actual : UInt64)
  | readChunkIndex (cause : RosFileError)
  | chunkTable (cause : RosFileError)
  | compression (chunkType : FourCC) (algorithm : CompressionAlgorithm) (compressedSize : UInt64)
  | layout (detail : LayoutDefect)
  | forgedClaim
  | headerImage (length : ℕ)
  | indexEntryOutside (i fileLen : ℕ) (indexOffset : UInt64)
  | chunkOutside (chunkType : FourCC) (offset len : UInt64) (fileLen : ℕ)
  | chunkCrc (chunkType : FourCC) (declared actual : UInt32) (len : ℕ)
  | unsupportedKdf (kdfAlgo : UInt8) (neverPersisted : Bool)
  | passwordRequired
  | keyDerivation (cause : RosFileError)
  | missingChunk (chunkType : ChunkType)
  | readChunk (chunkType : ChunkType)
  | noKey (chunkType : ChunkType)
  | unknownAlgorithm (id : UInt8) (chunkType : ChunkType)
  | decryption (chunkType : ChunkType) (cause : RosFileError) (diagnosis : KdfInputAuthenticity)
  | deserialize (chunkType : ChunkType)
  | aiCommandCount (declared actual : UInt64)
  | aiChunkOffset (declared actual : UInt64)
  | metaNotJson
  | replayStatus
  | inventedFailure (eventsSkipped events : ℕ)
  | serialize (chunkType : ChunkType)
  | snapshot
  | encryption (cause : RosFileError)
  | signingKeyRequired
  | noSignBytes
  | ros (cause : RosFileError)
  | claimDisagrees (headerClaims carriesSign : Bool)
  | keyBinding (keySetFileId headerFileUuid : ByteVec 16)
  | writeHeader (cause : RosFileError)
  | capacityOverflow
  deriving DecidableEq

/-! ## Slices -/

def slice (file : Bytes) (start stop : ℕ) : Option Bytes :=
  if start ≤ stop ∧ stop ≤ file.length then some (file.extract start stop) else none

variable {file data : Bytes}

theorem slice_eq_some {start len : ℕ} :
    slice file start (start + len) = some data ↔
      data.length = len ∧
        ∃ before after, before.length = start ∧ file = before ++ data ++ after := by
  rw [slice]
  constructor
  · intro h
    by_cases hin : start ≤ start + len ∧ start + len ≤ file.length
    · rw [if_pos hin, Option.some_inj, List.extract_eq_take_drop, Nat.add_sub_cancel_left] at h
      have hdata : data.length = len := by
        rw [← h, List.length_take, List.length_drop]
        omega
      refine ⟨hdata, file.take start, file.drop (start + len), ?_, ?_⟩
      · rw [List.length_take]
        omega
      · rw [← h, List.append_assoc, ← List.drop_drop, List.take_append_drop,
          List.take_append_drop]
    · rw [if_neg hin] at h
      cases h
  · rintro ⟨hdata, before, after, hbefore, hfile⟩
    have hlen : file.length = start + len + after.length := by
      rw [hfile, List.length_append, List.length_append, hbefore, hdata]
    rw [if_pos ⟨Nat.le_add_right _ _, by omega⟩, List.extract_eq_take_drop, Nat.add_sub_cancel_left,
      hfile, List.append_assoc, List.drop_left' hbefore, List.take_left' hdata]

theorem le_length_of_slice {start stop : ℕ}
    (h : slice file start stop = some data) : stop ≤ file.length := by
  rw [slice] at h
  by_cases hin : start ≤ stop ∧ stop ≤ file.length
  · exact hin.2
  · rw [if_neg hin] at h
    cases h

def rawChunkBytes (file : Bytes) (entry : ChunkIndexEntry) : Except ExportError Bytes := do
  let outOfBounds := ExportError.chunkOutside entry.chunkType entry.offset entry.sizeOnDisk
    file.length
  let stop ← Except.ofOption outOfBounds (checkedAdd entry.offset entry.sizeOnDisk)
  Except.ofOption outOfBounds (slice file entry.offset.toNat stop.toNat)

theorem rawChunkBytes_eq_ok {entry : ChunkIndexEntry}
    (hfile : file.length < 2 ^ 63) : rawChunkBytes file entry = .ok data ↔
      slice file entry.offset.toNat (entry.offset.toNat + entry.sizeOnDisk.toNat) = some data := by
  rw [rawChunkBytes, Except.bind_eq_ok]
  constructor
  · rintro ⟨stop, hstop, h⟩
    have hstop := checkedAdd_eq_some.mp (Except.ofOption_eq_ok.mp hstop)
    rw [← hstop]
    exact Except.ofOption_eq_ok.mp h
  · intro h
    obtain ⟨hdata, before, after, hbefore, hsplit⟩ := slice_eq_some.mp h
    have hlen := congrArg List.length hsplit
    rw [List.length_append, List.length_append] at hlen
    -- what lies inside the file does not overflow
    have hadd : (entry.offset + entry.sizeOnDisk).toNat =
        entry.offset.toNat + entry.sizeOnDisk.toNat := by
      rw [UInt64.toNat_add]
      omega
    refine ⟨entry.offset + entry.sizeOnDisk,
      Except.ofOption_eq_ok.mpr (checkedAdd_eq_some.mpr hadd), Except.ofOption_eq_ok.mpr ?_⟩
    rw [hadd]
    exact h

/-! ## The signed leaves -/

/-- The ranges blanked in the signed leaf: the checksum, the file size and the index offset. -/
def headerLeafZeroedRanges : List (ℕ × ℕ) := [(12, 16), (16, 24), (48, 56)]

def fillZero (bytes : Bytes) (range : ℕ × ℕ) : Bytes :=
  bytes.take range.1 ++ List.replicate (range.2 - range.1) 0 ++ bytes.drop range.2

/-- The header image with those ranges blanked. -/
def normalizedHeaderLeaf (headerImage : Bytes) : Except ExportError Bytes := do
  let leaf ← Except.ofOption (.headerImage headerImage.length) (slice headerImage 0 headerSize)
  return headerLeafZeroedRanges.foldl fillZero leaf

theorem fillZero_append (start stop : ℕ) {before middle after : Bytes}
    (hstart : before.length = start) (hstop : start + middle.length = stop) :
    fillZero (before ++ (middle ++ after)) (start, stop) =
      before ++ (List.replicate (stop - start) 0 ++ after) := by
  have hdrop : (before ++ (middle ++ after)).drop stop = after := by
    rw [← List.append_assoc]
    refine List.drop_left' ?_
    rw [List.length_append, hstart, hstop]
  rw [fillZero, List.take_left' hstart, hdrop, List.append_assoc]

def FileHeader.blanked (h : FileHeader) : FileHeader :=
  { h with
    headerCrc32 := 0
    fileSize := 0
    indexOffset := 0 }

theorem normalizedHeaderLeaf_image (h : FileHeader) (rest : Bytes) :
    normalizedHeaderLeaf (h.image ++ rest) = .ok h.blanked.image := by
  have hslice : slice (h.image ++ rest) 0 headerSize = some h.image := by
    have hslice : slice (h.image ++ rest) 0 (0 + headerSize) = some h.image :=
      slice_eq_some.mpr ⟨h.length_image, [], rest, rfl, rfl⟩
    rwa [Nat.zero_add] at hslice
  refine Except.bind_eq_ok.mpr ⟨h.image, Except.ofOption_eq_ok.mpr hslice, congrArg Except.ok ?_⟩
  have hlen (w n : ℕ) := ByteOrder.length_bytes h.endianness.order w n
  rw [headerLeafZeroedRanges, List.foldl_cons, List.foldl_cons, List.foldl_cons, List.foldl_nil]
  -- the checksum stands after the front
  rw [FileHeader.image, FileHeader.serialize_eq,
    fillZero_append 12 16 h.length_front (by rw [hlen])]
  -- then the file size
  unfold FileHeader.back
  rw [← List.append_assoc, fillZero_append 16 24
    (by rw [List.length_append, FileHeader.length_front, List.length_replicate]) (by rw [hlen])]
  -- and the index offset after the creation time and the UUID
  rw [← List.append_assoc, ← List.append_assoc, ← List.append_assoc,
    fillZero_append 48 56
      (by simp [FileHeader.length_front, ByteOrder.length_bytes]) (by rw [hlen])]
  rw [FileHeader.image, FileHeader.serialize_eq, ← ByteOrder.bytes_zero h.endianness.order,
    ← ByteOrder.bytes_zero h.endianness.order]
  unfold FileHeader.back
  simp only [List.append_assoc]
  rfl

def signedLeafSet (headerLeaf : Bytes) (payloads indexEntries : List Bytes) : List Bytes :=
  headerLeaf :: payloads ++ indexEntries

def signedChunk (file : Bytes) (header : FileHeader) (entry : ChunkIndexEntry) (i : ℕ) :
    Except ExportError (Bytes × Bytes) := do
  let payload ← rawChunkBytes file entry
  let entryOob := ExportError.indexEntryOutside i file.length header.indexOffset
  let start ← Except.ofOption entryOob
    (checkedAdd header.indexOffset (UInt64.ofNat (i * chunkIndexEntrySize)))
  let stop ← Except.ofOption entryOob (checkedAdd start (UInt64.ofNat chunkIndexEntrySize))
  let indexEntry ← Except.ofOption entryOob (slice file start.toNat stop.toNat)
  return (payload, indexEntry)

/-- The raw payload and index entry of every chunk but SIGN, in table order. -/
def signedChunks (file : Bytes) (header : FileHeader) (table : ChunkTable) :
    Except ExportError (List (Bytes × Bytes)) :=
  (table.entries.zipIdx.filter fun e ↦ e.1.chunkType ≠ ChunkType.SIGN.asFourcc).mapM
    fun e ↦ signedChunk file header e.1 e.2

/-! ## The signature verdict -/

/-- The hexadecimal form of bytes. -/
def toHex (bytes : Bytes) : String :=
  String.ofList (bytes.flatMap fun b ↦ [Uuid.hexDigit (b.toNat / 16), Uuid.hexDigit (b.toNat % 16)])

def FileHeader.versionString (h : FileHeader) : String :=
  s!"{h.majorVersion}.{h.minorVersion}.{h.patchVersion}"

section

variable [Crc32] [Sha2] [Ed25519] [MessagePack SignatureChunk]

def verdictOf (root : Bytes) (sigChunk : SignatureChunk) : RosSignatureVerdict :=
  match verifySignature root sigChunk.signer with
  | .ok true =>
    let derived := derivedSignerId sigChunk.signer.publicKey
    let declared := sigChunk.signer.metadata.signerId.toList
    let publicKey := toHex sigChunk.signer.publicKey
    if derived ≠ declared then .forgedSignerId (toHex declared) (toHex derived) publicKey
    else .verified (toHex declared) publicKey
  | .ok false => .invalid .mismatch
  | .error cause => .invalid (.verification cause)

def signatureVerdict (file : Bytes) (header : FileHeader) (table : ChunkTable) :
    Except ExportError RosSignatureVerdict :=
  let headerClaims := header.featureFlags.hasSignature || header.signatureAlgo != 0
  match table.findByType .SIGN with
  | none => if headerClaims then .error .forgedClaim else .ok .unsigned
  | some entry =>
    if ¬ usesIntegritySchemeV2 header.majorVersion header.minorVersion then
      .ok (.supersededScheme header.versionString (table.entries.length * chunkIndexEntrySize))
    else do
      let signBytes ← rawChunkBytes file entry
      match SignatureChunk.deserialize signBytes with
      | .error cause => return .invalid (.deserialize cause)
      | .ok sigChunk =>
        let headerLeaf ← normalizedHeaderLeaf file
        let chunks ← signedChunks file header table
        let leaves := signedLeafSet headerLeaf (chunks.map Prod.fst) (chunks.map Prod.snd)
        match (MerkleTree.fromLeaves leaves .sha256).rootHash with
        | none => return .invalid .noContent
        | some root => return verdictOf root sigChunk

/-! ## The audit -/

def auditChunks (indexOffset : UInt64) : List ChunkIndexEntry → UInt64 → Except ExportError UInt64
  | [], payloadTotal => .ok payloadTotal
  | entry :: entries, payloadTotal => do
    let size := entry.sizeOnDisk
    let stop ← Except.ofOption (.layout .chunkEndOverflows) (checkedAdd entry.offset size)
    ensure (¬ (entry.offset < UInt64.ofNat headerSize ∨ stop > indexOffset))
      (.layout (.chunkOutside entry.chunkType entry.offset stop indexOffset))
    let payloadTotal ← Except.ofOption (.layout .totalOverflows) (checkedAdd payloadTotal size)
    auditChunks indexOffset entries payloadTotal

/-- No dead space anywhere in the file. The expected index offset is not checked for overflow. -/
def auditLayout (indexOffset fileLen : UInt64) (entries : List ChunkIndexEntry) :
    Except ExportError Unit := do
  let payloadTotal ← auditChunks indexOffset entries 0
  let expectedIndexOffset := UInt64.ofNat headerSize + payloadTotal
  ensure (indexOffset = expectedIndexOffset)
    (.layout (.deadSpace payloadTotal expectedIndexOffset indexOffset))
  let indexEnd ← Except.ofOption (.layout .indexEndOverflows)
    (checkedAdd indexOffset (UInt64.ofNat entries.length * UInt64.ofNat chunkIndexEntrySize))
  ensure (indexEnd = fileLen) (.layout (.indexEnd indexEnd fileLen))

/-- The result of the password-free half of reading a file. -/
structure RosAudited where
  file : Buffer
  header : FileHeader
  chunkTable : ChunkTable
  signature : RosSignatureVerdict

/-- Everything that is checked before a key is needed. -/
def auditRosBytes (buffer : Buffer) : Except ExportError RosAudited := do
  let fileLen := UInt64.ofNat buffer.1.length
  let header ← (FileHeader.readFrom buffer.1).mapError .readHeader
  header.validate.mapError .headerValidation
  ensure (header.endianness = .little) .bigEndian
  ensure (header.fileSize = fileLen) (.fileSize header.fileSize fileLen)
  let chunkTable ← (ChunkTable.readFrom buffer.1 header.indexOffset header.indexEntryCount).mapError
    .readChunkIndex
  chunkTable.validate.mapError .chunkTable
  chunkTable.entries.forM fun entry ↦
    ensure (¬ (entry.compressedSize ≠ 0 ∨ entry.compression ≠ .none))
      (.compression entry.chunkType entry.compression entry.compressedSize)
  auditLayout header.indexOffset fileLen chunkTable.entries
  let signature ← signatureVerdict buffer.1 header chunkTable
  chunkTable.entries.forM fun entry ↦ do
    let bytes ← rawChunkBytes buffer.1 entry
    ensure (entry.verifyCrc bytes)
      (.chunkCrc entry.chunkType entry.crc32 (Crc32.crc32 bytes) bytes.length)
  return { file := buffer, header, chunkTable, signature }

end

/-! ## What the audit establishes -/

theorem auditChunks_eq_ok {indexOffset total total' : UInt64} {entries : List ChunkIndexEntry} :
    auditChunks indexOffset entries total = .ok total' ↔
      (∀ e ∈ entries, headerSize ≤ e.offset.toNat ∧
        e.offset.toNat + e.sizeOnDisk.toNat ≤ indexOffset.toNat) ∧
      total'.toNat = total.toNat + (entries.map (·.sizeOnDisk.toNat)).sum := by
  induction entries generalizing total with
  | nil =>
    rw [auditChunks, Except.ok.injEq, List.map_nil, List.sum_nil, Nat.add_zero, UInt64.toNat_inj]
    exact ⟨fun h ↦ ⟨nofun, h.symm⟩, fun h ↦ h.2.symm⟩
  | cons e entries ih =>
    rw [auditChunks, Except.bind_eq_ok, List.forall_mem_cons, List.map_cons, List.sum_cons]
    have hsmall : (UInt64.ofNat headerSize).toNat = headerSize := rfl
    constructor
    · rintro ⟨stop, hstop, h⟩
      obtain ⟨_, hinside, h⟩ := Except.bind_eq_ok.mp h
      obtain ⟨next, hnext, h⟩ := Except.bind_eq_ok.mp h
      obtain ⟨hrest, htotal⟩ := ih.mp h
      have hstop := checkedAdd_eq_some.mp (Except.ofOption_eq_ok.mp hstop)
      have hnext := checkedAdd_eq_some.mp (Except.ofOption_eq_ok.mp hnext)
      have hinside := ensure_eq_ok.mp hinside
      rw [UInt64.lt_iff_toNat_lt, gt_iff_lt, UInt64.lt_iff_toNat_lt, hstop, hsmall] at hinside
      exact ⟨⟨⟨by omega, by omega⟩, hrest⟩, by omega⟩
    · rintro ⟨⟨⟨hstart, hstop⟩, hrest⟩, htotal⟩
      have hindex := indexOffset.toNat_lt
      have htop := total'.toNat_lt
      have hadd : (e.offset + e.sizeOnDisk).toNat = e.offset.toNat + e.sizeOnDisk.toNat := by
        rw [UInt64.toNat_add]
        omega
      have hnext : (total + e.sizeOnDisk).toNat = total.toNat + e.sizeOnDisk.toNat := by
        rw [UInt64.toNat_add]
        omega
      refine ⟨_, Except.ofOption_eq_ok.mpr (checkedAdd_eq_some.mpr hadd),
        Except.bind_eq_ok.mpr ⟨(), ensure_eq_ok.mpr ?_, Except.bind_eq_ok.mpr
        ⟨_, Except.ofOption_eq_ok.mpr (checkedAdd_eq_some.mpr hnext), ih.mpr ⟨hrest, by omega⟩⟩⟩⟩
      rw [UInt64.lt_iff_toNat_lt, gt_iff_lt, UInt64.lt_iff_toNat_lt, hadd, hsmall]
      omega

theorem auditLayout_eq_ok {indexOffset fileLen : UInt64} {entries : List ChunkIndexEntry}
    (hne : entries ≠ []) (hcount : entries.length < 2 ^ 32) {u : Unit} :
    auditLayout indexOffset fileLen entries = .ok u ↔
      (∀ e ∈ entries, headerSize ≤ e.offset.toNat ∧
        e.offset.toNat + e.sizeOnDisk.toNat ≤ indexOffset.toNat) ∧
      indexOffset.toNat = headerSize + (entries.map (·.sizeOnDisk.toNat)).sum ∧
      fileLen.toNat = indexOffset.toNat + entries.length * chunkIndexEntrySize := by
  have hsize : (UInt64.ofNat entries.length * UInt64.ofNat chunkIndexEntrySize).toNat =
      entries.length * chunkIndexEntrySize := by
    rw [UInt64.toNat_mul, UInt64.toNat_ofNat', UInt64.toNat_ofNat', chunkIndexEntrySize]
    omega
  have hhead : (UInt64.ofNat headerSize).toNat = 128 := rfl
  have hheader : headerSize = 128 := rfl
  have hzero : (0 : UInt64).toNat = 0 := rfl
  rw [auditLayout, Except.bind_eq_ok]
  constructor
  · rintro ⟨total, htotal, h⟩
    obtain ⟨_, hindex, h⟩ := Except.bind_eq_ok.mp h
    obtain ⟨stop, hstop, h⟩ := Except.bind_eq_ok.mp h
    obtain ⟨hinside, htotal⟩ := auditChunks_eq_ok.mp htotal
    have hindex := congrArg UInt64.toNat (ensure_eq_ok.mp hindex)
    have hstop := checkedAdd_eq_some.mp (Except.ofOption_eq_ok.mp hstop)
    have hfile := congrArg UInt64.toNat (ensure_eq_ok.mp h)
    rw [UInt64.toNat_add, hhead] at hindex
    -- the sum of header and payloads did not wrap around: a chunk lies below the index
    obtain ⟨e, he⟩ := List.exists_mem_of_ne_nil entries hne
    have hfirst := hinside e he
    have hbound := total.toNat_lt
    refine ⟨hinside, by omega, by omega⟩
  · rintro ⟨hinside, hindex, hfile⟩
    have hoffset := indexOffset.toNat_lt
    have hlen := fileLen.toNat_lt
    have htotal : (UInt64.ofNat (entries.map (·.sizeOnDisk.toNat)).sum).toNat =
        (entries.map (·.sizeOnDisk.toNat)).sum := by
      rw [UInt64.toNat_ofNat']
      omega
    refine ⟨_, auditChunks_eq_ok.mpr ⟨hinside, htotal.trans (by omega)⟩, Except.bind_eq_ok.mpr
      ⟨(), ensure_eq_ok.mpr ?_, Except.bind_eq_ok.mpr ⟨fileLen, Except.ofOption_eq_ok.mpr
        (checkedAdd_eq_some.mpr (by omega)), ensure_eq_ok.mpr rfl⟩⟩⟩
    rw [← UInt64.toNat_inj, UInt64.toNat_add, htotal, hhead]
    omega

section

variable [Crc32] [Sha2] [Ed25519] [MessagePack SignatureChunk]

structure Audited (a : RosAudited) : Prop where
  header_read : FileHeader.readFrom a.file.1 = .ok a.header
  header_valid : a.header.validate = .ok ()
  little : a.header.endianness = .little
  file_size : a.header.fileSize.toNat = a.file.1.length
  table_read : ChunkTable.readFrom a.file.1 a.header.indexOffset a.header.indexEntryCount =
    .ok a.chunkTable
  table_valid : a.chunkTable.validate = .ok ()
  uncompressed : ∀ e ∈ a.chunkTable.entries, e.compressedSize = 0 ∧ e.compression = .none
  inside : ∀ e ∈ a.chunkTable.entries, headerSize ≤ e.offset.toNat ∧
    e.offset.toNat + e.sizeOnDisk.toNat ≤ a.header.indexOffset.toNat
  index_offset : a.header.indexOffset.toNat =
    headerSize + (a.chunkTable.entries.map (·.sizeOnDisk.toNat)).sum
  index_end : a.file.1.length =
    a.header.indexOffset.toNat + a.chunkTable.entries.length * chunkIndexEntrySize
  verdict : signatureVerdict a.file.1 a.header a.chunkTable = .ok a.signature
  crc : ∀ e ∈ a.chunkTable.entries, ∃ bytes, rawChunkBytes a.file.1 e = .ok bytes ∧
    e.verifyCrc bytes

theorem auditRosBytes_eq_ok {buffer : Buffer} {a : RosAudited} :
    auditRosBytes buffer = .ok a ↔ a.file = buffer ∧ Audited a := by
  have hfile : (UInt64.ofNat buffer.1.length).toNat = buffer.1.length := by
    have hlen := buffer.2
    rw [UInt64.toNat_ofNat']
    omega
  -- The checks come apart one by one, in the order the audit makes them.
  rw [auditRosBytes, Except.bind_eq_ok]
  constructor
  · rintro ⟨header, hheader, h⟩
    obtain ⟨_, hvalid, h⟩ := Except.bind_eq_ok.mp h
    obtain ⟨_, hlittle, h⟩ := Except.bind_eq_ok.mp h
    obtain ⟨_, hsize, h⟩ := Except.bind_eq_ok.mp h
    obtain ⟨table, htable, h⟩ := Except.bind_eq_ok.mp h
    obtain ⟨_, hconsistent, h⟩ := Except.bind_eq_ok.mp h
    obtain ⟨_, hcompression, h⟩ := Except.bind_eq_ok.mp h
    obtain ⟨_, hlayout, h⟩ := Except.bind_eq_ok.mp h
    obtain ⟨signature, hverdict, h⟩ := Except.bind_eq_ok.mp h
    obtain ⟨_, hcrc, h⟩ := Except.bind_eq_ok.mp h
    cases h
    have htable := Except.mapError_eq_ok.mp htable
    have hconsistent := Except.mapError_eq_ok.mp hconsistent
    have hcount : table.entries.length < 2 ^ 32 :=
      ChunkTable.length_of_readFrom htable ▸ header.indexEntryCount.toNat_lt
    obtain ⟨hinside, hoffset, hend⟩ :=
      (auditLayout_eq_ok (ChunkTable.ne_nil_of_validate hconsistent) hcount).mp hlayout
    refine ⟨rfl, Except.mapError_eq_ok.mp hheader, Except.mapError_eq_ok.mp hvalid,
      ensure_eq_ok.mp hlittle, ?_, htable, hconsistent, ?_, hinside, hoffset, ?_, hverdict, ?_⟩
    · rw [← hfile]
      exact congrArg UInt64.toNat (ensure_eq_ok.mp hsize)
    · intro e he
      have hplain := ensure_eq_ok.mp (Except.forM_eq_ok.mp hcompression e he)
      rw [not_or, not_not, not_not] at hplain
      exact hplain
    · rw [← hfile]
      exact hend
    · intro e he
      obtain ⟨bytes, hbytes, hmatch⟩ :=
        Except.bind_eq_ok.mp (Except.forM_eq_ok.mp hcrc e he)
      exact ⟨bytes, hbytes, ensure_eq_ok.mp hmatch⟩
  · rintro ⟨rfl, h⟩
    have hcount : a.chunkTable.entries.length < 2 ^ 32 :=
      ChunkTable.length_of_readFrom h.table_read ▸ a.header.indexEntryCount.toNat_lt
    have hlayout : auditLayout a.header.indexOffset (UInt64.ofNat a.file.1.length)
        a.chunkTable.entries = .ok () :=
      (auditLayout_eq_ok (ChunkTable.ne_nil_of_validate h.table_valid) hcount).mpr
        ⟨h.inside, h.index_offset, hfile.trans h.index_end⟩
    refine ⟨_, Except.mapError_eq_ok.mpr h.header_read, Except.bind_eq_ok.mpr
      ⟨(), Except.mapError_eq_ok.mpr h.header_valid, Except.bind_eq_ok.mpr
      ⟨(), ensure_eq_ok.mpr h.little, Except.bind_eq_ok.mpr ⟨(), ensure_eq_ok.mpr ?_,
      Except.bind_eq_ok.mpr ⟨_, Except.mapError_eq_ok.mpr h.table_read, Except.bind_eq_ok.mpr
      ⟨(), Except.mapError_eq_ok.mpr h.table_valid, Except.bind_eq_ok.mpr
      ⟨(), Except.forM_eq_ok.mpr ?_, Except.bind_eq_ok.mpr ⟨(), hlayout, Except.bind_eq_ok.mpr
      ⟨_, h.verdict, Except.bind_eq_ok.mpr ⟨(), Except.forM_eq_ok.mpr ?_, rfl⟩⟩⟩⟩⟩⟩⟩⟩⟩⟩
    · rw [← UInt64.toNat_inj, hfile]
      exact h.file_size
    · intro e he
      refine ensure_eq_ok.mpr ?_
      rw [not_or, not_not, not_not]
      exact h.uncompressed e he
    · intro e he
      obtain ⟨bytes, hbytes, hmatch⟩ := h.crc e he
      exact Except.bind_eq_ok.mpr ⟨bytes, hbytes, ensure_eq_ok.mpr hmatch⟩

end

end RosheraCad
