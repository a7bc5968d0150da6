import RosheraCad.Ros.Export

/-!
# What an export writes

The chunks of an exported file store its payloads, each at its position: META and SIGN as they
stand, the others encrypted when there are keys. A chunk is found by its type, and what it stores is
read back.
-/

namespace RosheraCad

/-! ## Chunks that store payloads -/

def ChunkType.keysOf (chunkType : ChunkType) (keySet : Option KeySet) : Option KeySet :=
  if chunkType = .META ∨ chunkType = .SIGN then none else keySet

variable {keySet : Option KeySet} {options : RosExportOptions} {header : FileHeader}
  {chunks : List Chunk}

section

variable [Aead] {chunkType : ChunkType} {fileIv : ByteVec 8}

def storedBytes (keySet : Option KeySet) (fileIv : ByteVec 8) (position : ℕ)
    (chunkType : ChunkType) (payload : Bytes) : Except RosFileError Bytes :=
  match chunkType.keysOf keySet with
  | none => .ok payload
  | some keys => (⟨.aead .aes256Gcm, keys, fileIv⟩ : ChunkEncryptor).encryptChunk
      chunkType.asFourcc payload (UInt32.ofNat position) none

theorem length_of_storedBytes [LawfulAead] {position : ℕ} {payload data : Bytes}
    (h : storedBytes keySet fileIv position chunkType payload = .ok data) :
    data.length = payload.length + if (chunkType.keysOf keySet).isSome then 16 else 0 := by
  rw [storedBytes] at h
  rcases hkeys : chunkType.keysOf keySet with - | keys
  · rw [hkeys] at h
    cases h
    rfl
  · rw [hkeys] at h
    exact (ChunkEncryptor.decryptChunk_of_encryptChunk h).2

variable [Crc32]

def storedEntry (keySet : Option KeySet) (chunkType : ChunkType) (offset : UInt64) (data : Bytes) :
    ChunkIndexEntry :=
  { ChunkIndexEntry.new chunkType.asFourcc with
    offset
    uncompressedSize := UInt64.ofNat data.length
    crc32 := Crc32.crc32 data
    encrypted := (chunkType.keysOf keySet).isSome
    encAlgo := if (chunkType.keysOf keySet).isSome then 1 else 0 }

structure Chunk.Stores (chunk : Chunk) (keySet : Option KeySet) (fileIv : ByteVec 8) (position : ℕ)
    (chunkType : ChunkType) (payload : Bytes) : Prop where
  index : chunk.index = storedEntry keySet chunkType chunk.index.offset chunk.data
  data : storedBytes keySet fileIv position chunkType payload = .ok chunk.data

namespace Chunk.Stores

variable {chunk : Chunk} {keySet : Option KeySet} {fileIv : ByteVec 8} {position : ℕ}
  {chunkType : ChunkType} {payload : Bytes}

section

variable (h : chunk.Stores keySet fileIv position chunkType payload)

include h

theorem chunkType_eq :
    chunk.index.chunkType = chunkType.asFourcc := by
  rw [h.index]
  rfl

theorem withOffset (offset : UInt64) :
    Chunk.Stores { chunk with index := { chunk.index with offset } } keySet fileIv position
      chunkType payload := by
  refine ⟨?_, h.data⟩
  dsimp only
  rw [h.index]
  rfl

/-- The entry is consistent exactly when the data respect the size limit. -/
theorem validate_iff (hlen : chunk.data.length < 2 ^ 64) :
    chunk.index.validate = .ok () ↔ chunk.data.length ≤ maxChunkSize.toNat := by
  have hsize : (UInt64.ofNat chunk.data.length).toNat = chunk.data.length := by
    rw [UInt64.toNat_ofNat']
    omega
  have halgo : ¬ ((chunkType.keysOf keySet).isSome = true ∧
      (if (chunkType.keysOf keySet).isSome then 1 else 0 : UInt8) > 3) := by
    rcases (chunkType.keysOf keySet).isSome with - | - <;> decide
  rw [ChunkIndexEntry.validate_eq_ok, h.index]
  constructor
  · rintro ⟨-, hle, -⟩
    rw [gt_iff_lt, UInt64.lt_iff_toNat_lt] at hle
    have hle : ¬ maxChunkSize.toNat < (UInt64.ofNat chunk.data.length).toNat := hle
    omega
  · intro hle
    refine ⟨⟨by rfl, by rfl⟩, ?_, fun hcompressed ↦ hcompressed.1 rfl, halgo⟩
    rw [gt_iff_lt, UInt64.lt_iff_toNat_lt]
    show ¬ maxChunkSize.toNat < (UInt64.ofNat chunk.data.length).toNat
    omega

theorem sound (hlen : chunk.data.length ≤ maxChunkSize.toNat) : chunk.Sound := by
  have hmax : maxChunkSize.toNat < 2 ^ 64 := maxChunkSize.toNat_lt
  refine ⟨(h.validate_iff (by omega)).mpr hlen, ?_, ?_, ?_⟩
  · rw [h.index]
    show (UInt64.ofNat chunk.data.length).toNat = _
    rw [UInt64.toNat_ofNat']
    omega
  · rw [h.index]
    exact ⟨rfl, rfl⟩
  · rw [h.index]
    exact beq_self_eq_true _

end

end Chunk.Stores

theorem stores_new (hplain : chunkType = .META ∨ chunkType = .SIGN)
    (keySet : Option KeySet) (fileIv : ByteVec 8) (position : ℕ) (payload : Bytes) :
    (Chunk.new chunkType payload).Stores keySet fileIv position chunkType payload := by
  have hkeys : chunkType.keysOf keySet = none := if_pos hplain
  refine ⟨?_, ?_⟩
  · rw [storedEntry, hkeys]
    rfl
  · rw [storedBytes, hkeys]
    rfl

theorem encryptIfEnabled_new_eq_ok {payload : Bytes} {position : ℕ} {chunk : Chunk}
    (hcontent : chunkType ≠ .META ∧ chunkType ≠ .SIGN)
    (h : encryptIfEnabled (.new chunkType payload) keySet fileIv position = .ok chunk) :
    chunk.Stores keySet fileIv position chunkType payload := by
  have hkeys : chunkType.keysOf keySet = keySet :=
    if_neg fun h ↦ h.elim hcontent.1 hcontent.2
  rcases keySet with - | keys
  · obtain rfl := Except.ok.inj h
    refine ⟨?_, ?_⟩
    · rw [storedEntry, hkeys]
      rfl
    · rw [storedBytes, hkeys]
      rfl
  · obtain ⟨data, hdata, h⟩ := Except.bind_eq_ok.mp h
    cases h
    refine ⟨?_, ?_⟩
    · rw [storedEntry, hkeys]
      rfl
    · rw [storedBytes, hkeys]
      exact Except.mapError_eq_ok.mp hdata

theorem payloadChunk_eq_ok {α : Type} [MessagePack α] {value : α} {position : ℕ} {chunk : Chunk}
    (hcontent : chunkType ≠ .META ∧ chunkType ≠ .SIGN)
    (h : payloadChunk chunkType value keySet fileIv position = .ok chunk) :
    ∃ bytes, MessagePack.toVecNamed value = some bytes ∧
      chunk.Stores keySet fileIv position chunkType bytes := by
  obtain ⟨bytes, hbytes, h⟩ := Except.bind_eq_ok.mp h
  exact ⟨bytes, Except.ofOption_eq_ok.mp hbytes, encryptIfEnabled_new_eq_ok hcontent h⟩

/-! ## Files that store payloads -/

inductive StoredChunks (keySet : Option KeySet) (fileIv : ByteVec 8) :
    ℕ → List Chunk → List (ChunkType × Bytes) → Prop
  | nil (position : ℕ) : StoredChunks keySet fileIv position [] []
  | cons {position : ℕ} {chunk : Chunk} {chunks : List Chunk} {chunkType : ChunkType}
      {payload : Bytes} {payloads : List (ChunkType × Bytes)} :
      chunk.Stores keySet fileIv position chunkType payload →
      StoredChunks keySet fileIv (position + 1) chunks payloads →
      StoredChunks keySet fileIv position (chunk :: chunks) ((chunkType, payload) :: payloads)

namespace StoredChunks

variable {keySet : Option KeySet} {fileIv : ByteVec 8} {position : ℕ} {chunks : List Chunk}
  {payloads : List (ChunkType × Bytes)}

section

variable (h : StoredChunks keySet fileIv position chunks payloads)

include h

theorem length_eq :
    chunks.length = payloads.length := by
  induction h with
  | nil => rfl
  | cons _ _ ih => rw [List.length_cons, ih, List.length_cons]

theorem layOut (offset : UInt64) :
    StoredChunks keySet fileIv position (layOut offset chunks) payloads := by
  induction h generalizing offset with
  | nil => exact .nil _
  | cons hchunk _ ih => exact .cons (hchunk.withOffset offset) (ih _)

theorem append {chunks' : List Chunk} {payloads' : List (ChunkType × Bytes)}
    (h' : StoredChunks keySet fileIv (position + chunks.length) chunks' payloads') :
    StoredChunks keySet fileIv position (chunks ++ chunks') (payloads ++ payloads') := by
  induction h with
  | nil => exact h'
  | cons hchunk _ ih =>
    refine .cons hchunk (ih ?_)
    rwa [List.length_cons, ← Nat.add_assoc, Nat.add_right_comm] at h'

theorem map_chunkType :
    chunks.map (·.index.chunkType) = payloads.map (·.1.asFourcc) := by
  induction h with
  | nil => rfl
  | cons hchunk _ ih => rw [List.map_cons, List.map_cons, ih, hchunk.chunkType_eq]

theorem exists_stores {chunk : Chunk}
    (hchunk : chunk ∈ chunks) : ∃ i chunkType payload, (chunkType, payload) ∈ payloads ∧
      chunk.Stores keySet fileIv i chunkType payload := by
  induction h with
  | nil => cases hchunk
  | cons hhead _ ih =>
    rcases List.mem_cons.mp hchunk with rfl | hmem
    · exact ⟨_, _, _, List.mem_cons_self, hhead⟩
    · obtain ⟨i, chunkType, payload, hpayload, hstores⟩ := ih hmem
      exact ⟨i, chunkType, payload, List.mem_cons_of_mem _ hpayload, hstores⟩

theorem find (hnodup : (payloads.map (·.1.asFourcc)).Nodup) {i : ℕ}
    {payload : Bytes} (hpayload : payloads[i]? = some (chunkType, payload)) :
    ∃ chunk ∈ chunks, chunk.Stores keySet fileIv (position + i) chunkType payload ∧
      (⟨chunks.map (·.index)⟩ : ChunkTable).findByType chunkType = some chunk.index ∧
      (chunks.map (·.index)).findIdx? (·.chunkType = chunkType.asFourcc) = some i := by
  induction h generalizing i with
  | nil => cases hpayload
  | @cons position head chunks headType headPayload payloads hhead hrest ih =>
    rw [List.map_cons, List.nodup_cons] at hnodup
    rw [ChunkTable.findByType, List.map_cons, List.find?_cons, List.findIdx?_cons,
      hhead.chunkType_eq]
    rcases i with - | i
    · rw [List.getElem?_cons_zero, Option.some_inj, Prod.mk.injEq] at hpayload
      obtain ⟨rfl, rfl⟩ := hpayload
      refine ⟨head, List.mem_cons_self, hhead, ?_, ?_⟩
      · rw [decide_eq_true rfl]
      · rw [if_pos (decide_eq_true rfl)]
    · -- the head has another type
      rw [List.getElem?_cons_succ] at hpayload
      obtain ⟨chunk, hchunk, hstores, hfind, hidx⟩ := ih hnodup.2 hpayload
      have hne : ¬ headType.asFourcc = chunkType.asFourcc := fun heq ↦ hnodup.1
        (List.mem_map.mpr ⟨_, List.mem_of_getElem? hpayload, heq.symm⟩)
      refine ⟨chunk, List.mem_cons_of_mem _ hchunk, ?_, ?_, ?_⟩
      · rwa [Nat.add_assoc, Nat.add_comm 1 i] at hstores
      · rw [decide_eq_false hne]
        exact hfind
      · rw [if_neg (by rw [decide_eq_false hne]; exact Bool.false_ne_true), hidx]
        rfl

theorem findByType_eq_none (habsent : chunkType.asFourcc ∉ payloads.map (·.1.asFourcc)) :
    (⟨chunks.map (·.index)⟩ : ChunkTable).findByType chunkType = none := by
  rw [ChunkTable.findByType, List.find?_eq_none]
  intro entry hentry
  obtain ⟨chunk, hchunk, rfl⟩ := List.mem_map.mp hentry
  have hmem : chunk.index.chunkType ∈ chunks.map (·.index.chunkType) := List.mem_map_of_mem hchunk
  rw [h.map_chunkType] at hmem
  rw [decide_eq_true_iff]
  exact fun heq ↦ habsent (heq ▸ hmem)

end

end StoredChunks

section

variable [LawfulAead] {header : FileHeader} {keySet : Option KeySet} {fileIv : ByteVec 8}
  {chunks : List Chunk} {payloads : List (ChunkType × Bytes)} {file : Buffer}

theorem readChunkBytes_of_stored (hfile : LaidOut header chunks file)
    (hstored : StoredChunks keySet fileIv 0 chunks payloads)
    (hnodup : (payloads.map (·.1.asFourcc)).Nodup) {i : ℕ}
    {payload : Bytes} (hpayload : payloads[i]? = some (chunkType, payload))
    (kdfAuthenticity : KdfInputAuthenticity) :
    readChunkBytes file.1 ⟨chunks.map (·.index)⟩ chunkType keySet fileIv kdfAuthenticity =
      .ok payload := by
  obtain ⟨chunk, hchunk, hstores, hfind, hidx⟩ := hstored.find hnodup hpayload
  rw [Nat.zero_add] at hstores
  have hposition : (⟨chunks.map (·.index)⟩ : ChunkTable).position chunkType.asFourcc =
      UInt32.ofNat i := by
    rw [ChunkTable.position, hidx]
    rfl
  have hdata := hstores.data
  have hencrypted : chunk.index.encrypted = (chunkType.keysOf keySet).isSome := by
    rw [hstores.index]
    rfl
  rw [readChunkBytes_eq file.2 hfind (hfile.rawChunkBytes_eq hchunk), hencrypted]
  rw [storedBytes] at hdata
  rcases hkeys : chunkType.keysOf keySet with - | keys
  · rw [hkeys] at hdata
    rw [Except.ok.inj hdata]
    exact if_neg Bool.false_ne_true
  · rw [hkeys] at hdata
    have hsome : keySet = some keys := by
      rw [ChunkType.keysOf] at hkeys
      by_cases hplain : chunkType = .META ∨ chunkType = .SIGN
      · rw [if_pos hplain] at hkeys
        cases hkeys
      · rwa [if_neg hplain] at hkeys
    have halgo : chunk.index.encAlgo = EncryptionAlgorithm.asId (.aead .aes256Gcm) := by
      rw [hstores.index, storedEntry, hkeys]
      rfl
    rw [hstores.chunkType_eq, hposition]
    exact Except.bind_eq_ok.mpr ⟨keys, Except.ofOption_eq_ok.mpr hsome, Except.bind_eq_ok.mpr
      ⟨_, Except.mapError_eq_ok.mpr (EncryptionAlgorithm.fromId_eq_ok.mpr halgo),
      Except.mapError_eq_ok.mpr (ChunkEncryptor.decryptChunk_of_encryptChunk hdata).1⟩⟩

end

end

/-! ## Content -/

structure ExportBytes where
  metaText : Bytes
  hist : Bytes
  prov : Bytes
  geom : Option Bytes
  sign : Option Bytes

namespace ExportBytes

def content (bytes : ExportBytes) : List (ChunkType × Bytes) :=
  [(.META, bytes.metaText), (.HIST, bytes.hist), (.PROV, bytes.prov)] ++
    bytes.geom.toList.map fun geom ↦ (ChunkType.GEOM, geom)

def payloads (bytes : ExportBytes) : List (ChunkType × Bytes) :=
  bytes.content ++ bytes.sign.toList.map fun sign ↦ (ChunkType.SIGN, sign)

theorem nodup_payloads (bytes : ExportBytes) : (bytes.payloads.map (·.1.asFourcc)).Nodup := by
  obtain ⟨metaText, hist, prov, geom, sign⟩ := bytes
  rcases geom with - | geom <;> rcases sign with - | sign <;>
    simp only [payloads, content, Option.toList, List.map_nil, List.map_cons, List.append_nil,
      List.cons_append, List.nil_append] <;> decide

theorem length_content_le (bytes : ExportBytes) : bytes.content.length ≤ 4 := by
  obtain ⟨metaText, hist, prov, geom, sign⟩ := bytes
  rcases geom with - | geom <;> exact Nat.le_of_ble_eq_true rfl

theorem length_payloads_le (bytes : ExportBytes) : bytes.payloads.length ≤ 5 := by
  obtain ⟨metaText, hist, prov, geom, sign⟩ := bytes
  rcases geom with - | geom <;> rcases sign with - | sign <;> exact Nat.le_of_ble_eq_true rfl

theorem sign_notMem_content (bytes : ExportBytes) :
    ChunkType.SIGN.asFourcc ∉ bytes.content.map (·.1.asFourcc) := by
  obtain ⟨metaText, hist, prov, geom, sign⟩ := bytes
  rcases geom with - | geom <;>
    simp only [content, Option.toList, List.map_nil, List.map_cons, List.append_nil,
      List.cons_append, List.nil_append] <;> decide

theorem geom_notMem_payloads {bytes : ExportBytes} (h : bytes.geom = none) :
    ChunkType.GEOM.asFourcc ∉ bytes.payloads.map (·.1.asFourcc) := by
  obtain ⟨metaText, hist, prov, geom, sign⟩ := bytes
  obtain rfl : geom = none := h
  rcases sign with - | sign <;>
    simp only [payloads, content, Option.toList, List.map_nil, List.map_cons, List.append_nil,
      List.cons_append, List.nil_append] <;> decide

end ExportBytes

def keyedHeader (env : ExportEnv) (options : RosExportOptions) : FileHeader :=
  let header := (FileHeader.new env.creationTime env.fileUuid).withAiTracking
    options.trackingLevel.toU8
  if options.password.isSome then header.withKdf env rosheraKdfTimeCost else header

theorem deriveKeySet_of_setUpEncryption [Kdf] {env : ExportEnv} {header start : FileHeader}
    (h : setUpEncryption env options start = .ok (header, keySet)) :
    header = (if options.password.isSome then start.withKdf env rosheraKdfTimeCost else start) ∧
    keySet.isSome = options.password.isSome ∧
    (∀ keys ∈ keySet, keys.fileId = start.fileUuid) ∧
    ∀ h' : FileHeader, h'.featureFlags.encrypted = options.password.isSome →
      (options.password.isSome → h'.kdfAlgo = kdfAlgoArgon2idFileBound ∧
        h'.kdfIterations = rosheraKdfTimeCost ∧ h'.kdfSalt = env.kdfSalt ∧
        h'.fileUuid = start.fileUuid) →
      deriveKeySet h' options.password = .ok keySet := by
  rw [setUpEncryption] at h
  rcases hpassword : options.password with - | password
  · rw [hpassword] at h
    cases h
    refine ⟨rfl, rfl, nofun, fun h' hplain _ ↦ ?_⟩
    rw [deriveKeySet, if_pos (by rw [hplain]; exact Bool.false_ne_true)]
  · rw [hpassword] at h
    obtain ⟨keys, hkeys, h⟩ := Except.bind_eq_ok.mp h
    cases h
    have hkeys := Except.mapError_eq_ok.mp hkeys
    refine ⟨rfl, rfl, fun keys' hmem ↦ ?_, fun h' hencrypted hkdf ↦ ?_⟩
    · cases hmem
      exact SoftwareKeyManager.fileId_of_generateKeySet hkeys
    · obtain ⟨halgo, hiterations, hsalt, huuid⟩ := hkdf rfl
      have hchain : checkKdfChain h' = .ok () := by
        rw [checkKdfChain, keyRecoverability, if_neg (by rw [hencrypted]; exact fun hf ↦ hf rfl),
          if_pos halgo]
      rw [deriveKeySet, if_neg (by rw [hencrypted]; exact fun hf ↦ hf rfl)]
      refine Except.bind_eq_ok.mpr ⟨(), hchain, Except.bind_eq_ok.mpr ⟨password, rfl,
        Except.bind_eq_ok.mpr ⟨keys, Except.mapError_eq_ok.mpr ?_, rfl⟩⟩⟩
      rw [hiterations, hsalt, huuid]
      exact hkeys

section

variable [FloatDebug] [Crc32] [Kdf] [Aead] [SerdeJson] [MessagePack HistChunk]
  {AICommand Curve Surface CurveData SurfaceData : Type}
  [MessagePack (ProvChunk AICommand)] [MessagePack (BRepSnapshot CurveData SurfaceData)]
  [CurveCodec Curve CurveData] [SurfaceCodec Surface SurfaceData] {Replica Assemblies Saved : Type*}
  {kernel : ReplayKernel Replica Assemblies Saved} {env : ExportEnv}
  {payload : RosExportPayload AICommand Curve Surface} {options : RosExportOptions}

structure ExportBytes.Encodes (bytes : ExportBytes) (env : ExportEnv)
    (payload : RosExportPayload AICommand Curve Surface) (options : RosExportOptions)
    (replayStatus : RosReplayStatus) : Prop where
  metaText : bytes.metaText =
    SerdeJson.toString (metaData env payload options replayStatus).toJson
  hist : MessagePack.toVecNamed (payload.hist env) = some bytes.hist
  prov : MessagePack.toVecNamed (payload.prov env options) = some bytes.prov
  geom : options.includeSnapshot → ∃ snapshot geom, BRepSnapshot.fromModel payload.model =
    some snapshot ∧ MessagePack.toVecNamed snapshot = some geom ∧ bytes.geom = some geom
  no_geom : ¬ options.includeSnapshot → bytes.geom = none

structure ExportContent.Built (content : ExportContent)
    (kernel : ReplayKernel Replica Assemblies Saved) (env : ExportEnv)
    (payload : RosExportPayload AICommand Curve Surface) (options : RosExportOptions)
    (bytes : ExportBytes) : Prop where
  encodes : bytes.Encodes env payload options content.replayStatus
  verdict : replayVerdict kernel options.verifyReplay (payload.hist env).events =
    .ok content.replayStatus
  stored : StoredChunks content.keySet content.header.fileIv 0 content.chunks bytes.content
  laidOut : layOut (UInt64.ofNat headerSize) content.chunks = content.chunks
  keys : ∃ header, setUpEncryption env options ((FileHeader.new env.creationTime
    env.fileUuid).withAiTracking options.trackingLevel.toU8) = .ok (header, content.keySet)
  header : ∃ provEntry, (⟨content.chunks.map (·.index)⟩ : ChunkTable).findByType .PROV =
    some provEntry ∧ content.header = { keyedHeader env options with
      endianness := .little
      aiCommandCount := UInt64.ofNat (payload.prov env options).commands.length
      aiChunkOffset := provEntry.offset }

theorem exportContent_eq_ok {content : ExportContent}
    (h : exportContent kernel env payload options = .ok content) :
    ∃ bytes : ExportBytes, bytes.sign = none ∧ content.Built kernel env payload options bytes := by
  obtain ⟨⟨header, keySet⟩, hkeys, h⟩ := Except.bind_eq_ok.mp h
  obtain ⟨replayStatus, hverdict, h⟩ := Except.bind_eq_ok.mp h
  obtain ⟨hist, hhist, h⟩ := Except.bind_eq_ok.mp h
  obtain ⟨prov, hprov, h⟩ := Except.bind_eq_ok.mp h
  obtain ⟨geoms, hgeoms, h⟩ := Except.bind_eq_ok.mp h
  obtain ⟨provEntry, hentry, h⟩ := Except.bind_eq_ok.mp h
  cases h
  obtain ⟨histBytes, hhistBytes, hhist⟩ := payloadChunk_eq_ok (by decide) hhist
  obtain ⟨provBytes, hprovBytes, hprov⟩ := payloadChunk_eq_ok (by decide) hprov
  have hheader := (deriveKeySet_of_setUpEncryption hkeys).1
  have hgeom : ∃ geom : Option Bytes,
      (options.includeSnapshot → ∃ snapshot geom', BRepSnapshot.fromModel payload.model =
        some snapshot ∧ MessagePack.toVecNamed snapshot = some geom' ∧ geom = some geom') ∧
      (¬ options.includeSnapshot → geom = none) ∧
      StoredChunks keySet header.fileIv 3 geoms
        (geom.toList.map fun geom ↦ (ChunkType.GEOM, geom)) := by
    rw [snapshotChunks] at hgeoms
    by_cases hinclude : options.includeSnapshot
    · rw [if_pos hinclude] at hgeoms
      obtain ⟨snapshot, hsnapshot, hgeoms⟩ := Except.bind_eq_ok.mp hgeoms
      obtain ⟨chunk, hchunk, hgeoms⟩ := Except.bind_eq_ok.mp hgeoms
      cases hgeoms
      obtain ⟨geom, hgeom, hstores⟩ := payloadChunk_eq_ok (by decide) hchunk
      exact ⟨some geom, fun _ ↦ ⟨snapshot, geom, Except.ofOption_eq_ok.mp hsnapshot, hgeom, rfl⟩,
        fun hno ↦ absurd hinclude hno, .cons hstores (.nil _)⟩
    · rw [if_neg hinclude] at hgeoms
      cases hgeoms
      exact ⟨none, fun hyes ↦ absurd hyes hinclude, fun _ ↦ rfl, .nil _⟩
  obtain ⟨geom, hsnapshot, hnone, hgeom⟩ := hgeom
  refine ⟨⟨SerdeJson.toString (metaData env payload options replayStatus).toJson, histBytes,
    provBytes, geom, none⟩, rfl, ?_⟩
  refine ⟨⟨rfl, hhistBytes, hprovBytes, hsnapshot, hnone⟩, hverdict, ?_, layOut_layOut _ _ _,
    ⟨header, hkeys⟩, provEntry, Except.ofOption_eq_ok.mp hentry, ?_⟩
  · refine StoredChunks.layOut ?_ _
    exact .cons (stores_new (.inl rfl) _ _ _ _) (.cons hhist (.cons hprov hgeom))
  · rw [hheader]
    rfl

end

/-! ## Signing -/

section

variable [Crc32] [Sha2]

def signedLeaves (header : FileHeader) (chunks : List Chunk) : List Bytes :=
  signedLeafSet header.blanked.image (chunks.map (·.data)) (chunks.map (·.index.toBytes))

theorem signingRoot_eq_ok {root : Bytes} :
    signingRoot header chunks = .ok root ↔
      (MerkleTree.fromLeaves (signedLeaves header chunks) .sha256).rootHash = some root := by
  have hleaf := normalizedHeaderLeaf_image header.sealed []
  rw [List.append_nil] at hleaf
  have hroot : signingRoot header chunks = Except.ofOption (.ros .io)
      (MerkleTree.fromLeaves (signedLeaves header chunks) .sha256).rootHash := by
    rw [signingRoot, FileHeader.toBytes_eq]
    show (normalizedHeaderLeaf header.sealed.image >>= _) = _
    rw [hleaf]
    rfl
  rw [hroot, Except.ofOption_eq_ok]

variable [Ed25519] [MessagePack SignatureChunk]

def recordOf (key : ByteVec 32) (root : Bytes) (fileId : ByteVec 16) (signedAt : UInt64) :
    SignatureRecord :=
  (FileSigner.mk key (signerIdOf (Ed25519.verifyingKey key))).signFile root fileId signedAt

theorem appendSignChunk_eq_ok {signedAt : UInt64} {chunks chunks' : List Chunk}
    {header header' : FileHeader} {key : ByteVec 32} {signature : RosWriteSignature} :
    appendSignChunk signedAt chunks header key = .ok (header', chunks', signature) ↔
      ∃ root, signingRoot (header.withClaim chunks.length) chunks = .ok root ∧
        (SignatureChunk.mk (recordOf key root header.fileUuid signedAt)).serialize ≠ [] ∧
        header' = header.withClaim chunks.length ∧
        chunks' = chunks ++
          [.new .SIGN (SignatureChunk.mk (recordOf key root header.fileUuid signedAt)).serialize] ∧
        signature = .signed (toHex (signerIdOf (Ed25519.verifyingKey key)).toList)
          (toHex (Ed25519.verifyingKey key).toList) := by
  rw [appendSignChunk, Except.bind_eq_ok]
  constructor
  · rintro ⟨root, hroot, h⟩
    obtain ⟨_, hne, h⟩ := Except.bind_eq_ok.mp h
    cases h
    refine ⟨root, hroot, fun hnil ↦ ensure_eq_ok.mp hne ?_, rfl, rfl, rfl⟩
    exact List.isEmpty_iff.mpr hnil
  · rintro ⟨root, hroot, hne, rfl, rfl, rfl⟩
    refine ⟨root, hroot, Except.bind_eq_ok.mpr ⟨(), ensure_eq_ok.mpr fun hempty ↦ hne ?_, rfl⟩⟩
    exact List.isEmpty_iff.mp hempty

theorem signIfAsked_eq_ok {signedAt : UInt64} {content : ExportContent}
    {signature : RosWriteSignature}
    (h : signIfAsked signedAt options content = .ok (header, chunks, signature)) :
    (options.sign = false ∧ header = content.header ∧ chunks = content.chunks ∧
      signature = .unsigned) ∨
    (options.sign = true ∧ ∃ key, options.signingKey = some key ∧
      appendSignChunk signedAt content.chunks content.header key =
        .ok (header, chunks, signature)) := by
  rw [signIfAsked] at h
  rcases hsign : options.sign with - | -
  · rw [hsign] at h
    cases h
    exact .inl ⟨rfl, rfl, rfl, rfl⟩
  · rw [hsign] at h
    rcases hkey : options.signingKey with - | key
    · rw [hkey] at h
      cases h
    · rw [hkey] at h
      exact .inr ⟨rfl, key, rfl, h⟩

end

/-! ## Writing -/

section

variable [Crc32]

theorem writeFile_eq_ok
    {exported : ExportedFile} (h : writeFile header chunks keySet = .ok exported) :
    exported.chunks = layOut (UInt64.ofNat headerSize) chunks ∧
      exported.header = (header.withLayout exported.chunks).sealed ∧
      exported.file.1 = fileBytes exported.header.image exported.chunks := by
  obtain ⟨_, -, h⟩ := Except.bind_eq_ok.mp h
  obtain ⟨_, -, h⟩ := Except.bind_eq_ok.mp h
  obtain ⟨⟨sealed, image⟩, himage, h⟩ := Except.bind_eq_ok.mp h
  have himage := Except.mapError_eq_ok.mp himage
  rw [FileHeader.toBytes_eq, Except.ok.injEq, Prod.mk.injEq] at himage
  obtain ⟨rfl, rfl⟩ := himage
  dsimp only at h
  by_cases hlen : (fileBytes (header.withLayout
      (layOut (UInt64.ofNat headerSize) chunks)).sealed.image
        (layOut (UInt64.ofNat headerSize) chunks)).length < 2 ^ 63
  · rw [dif_pos hlen] at h
    cases h
    exact ⟨rfl, rfl, rfl⟩
  · rw [dif_neg hlen] at h
    cases h

end

section

variable [FloatDebug] [Crc32] [Sha2] [Ed25519] [Kdf] [Aead] [SerdeJson]
  [MessagePack SignatureChunk] [MessagePack HistChunk]
  {AICommand Curve Surface CurveData SurfaceData : Type} [MessagePack (ProvChunk AICommand)]
  [MessagePack (BRepSnapshot CurveData SurfaceData)] [CurveCodec Curve CurveData]
  [SurfaceCodec Surface SurfaceData] {Replica Assemblies Saved : Type*}

structure Exported (kernel : ReplayKernel Replica Assemblies Saved) (env : ExportEnv)
    (payload : RosExportPayload AICommand Curve Surface) (options : RosExportOptions)
    (exported : ExportedFile) (content : ExportContent) (bytes : ExportBytes)
    (header : FileHeader) :
    Prop where
  content_ok : exportContent kernel env payload options = .ok content
  built : content.Built kernel env payload options bytes
  chunks : exported.chunks = content.chunks ++
    layOut (endOffset (UInt64.ofNat headerSize) content.chunks)
      (bytes.sign.toList.map (Chunk.new .SIGN))
  header_eq : exported.header = (header.withLayout exported.chunks).sealed
  file : exported.file.1 = fileBytes exported.header.image exported.chunks
  unsigned : options.sign = false → bytes.sign = none ∧ header = content.header
  signed : options.sign = true → ∃ key root, options.signingKey = some key ∧
    header = content.header.withClaim content.chunks.length ∧
    signingRoot header content.chunks = .ok root ∧
    bytes.sign = some (SignatureChunk.mk
      (recordOf key root content.header.fileUuid env.signedAt)).serialize ∧
    (SignatureChunk.mk (recordOf key root content.header.fileUuid env.signedAt)).serialize ≠ []

theorem exportBrepToRos_eq_ok {kernel : ReplayKernel Replica Assemblies Saved} {env : ExportEnv}
    {payload : RosExportPayload AICommand Curve Surface}
    {exported : ExportedFile} {summary : RosWriteSummary}
    (h : exportBrepToRos kernel env payload options = .ok (exported, summary)) :
    ∃ content bytes header, Exported kernel env payload options exported content bytes header ∧
      summary.replayStatus = content.replayStatus := by
  obtain ⟨content, hcontent, h⟩ := Except.bind_eq_ok.mp h
  obtain ⟨⟨header, chunks, signature⟩, hsign, h⟩ := Except.bind_eq_ok.mp h
  obtain ⟨exported', hwrite, h⟩ := Except.bind_eq_ok.mp h
  cases h
  obtain ⟨bytes, hnone, hbuilt⟩ := exportContent_eq_ok hcontent
  obtain ⟨hchunks, hheader, hfile⟩ := writeFile_eq_ok hwrite
  rcases signIfAsked_eq_ok hsign with ⟨hoff, rfl, rfl, -⟩ | ⟨hon, key, hkey, happend⟩
  · refine ⟨content, bytes, content.header, ⟨hcontent, hbuilt, ?_, hheader, hfile,
      fun _ ↦ ⟨hnone, rfl⟩, fun hon ↦ ?_⟩, rfl⟩
    · rw [hchunks, hbuilt.laidOut, hnone]
      exact (List.append_nil _).symm
    · rw [hoff] at hon
      cases hon
  · obtain ⟨root, hroot, hne, rfl, rfl, -⟩ := appendSignChunk_eq_ok.mp happend
    have hbuilt' : content.Built kernel env payload options { bytes with
        sign := some (SignatureChunk.mk
          (recordOf key root content.header.fileUuid env.signedAt)).serialize } :=
      ⟨⟨hbuilt.encodes.metaText, hbuilt.encodes.hist, hbuilt.encodes.prov, hbuilt.encodes.geom,
        hbuilt.encodes.no_geom⟩, hbuilt.verdict, hbuilt.stored, hbuilt.laidOut, hbuilt.keys,
        hbuilt.header⟩
    refine ⟨content, _, _, ⟨hcontent, hbuilt', ?_, hheader, hfile, fun hoff ↦ ?_, fun _ ↦
      ⟨key, root, hkey, rfl, hroot, rfl, hne⟩⟩, rfl⟩
    · rw [hchunks, layOut_append, hbuilt.laidOut]
      rfl
    · rw [hon] at hoff
      cases hoff

namespace Exported

variable {kernel : ReplayKernel Replica Assemblies Saved} {env : ExportEnv}
  {payload : RosExportPayload AICommand Curve Surface} {options : RosExportOptions}
  {exported : ExportedFile} {content : ExportContent} {bytes : ExportBytes} {header : FileHeader}

theorem stored (h : Exported kernel env payload options exported content bytes header) :
    StoredChunks content.keySet content.header.fileIv 0 exported.chunks bytes.payloads := by
  rw [h.chunks]
  refine h.built.stored.append (StoredChunks.layOut ?_ _)
  rcases bytes.sign with - | sign
  · exact .nil _
  · exact .cons (stores_new (.inr rfl) _ _ _ _) (.nil _)

end Exported

end

end RosheraCad
