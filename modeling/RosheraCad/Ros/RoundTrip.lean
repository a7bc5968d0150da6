import RosheraCad.Ros.Written
import Mathlib.Algebra.Order.BigOperators.Group.List

/-!
# The round trip of a file

What was exported is imported again, exactly when every chunk fits the size limit of the format. The
reader refuses a chunk above the limit; the writer does not ask for it.
-/

namespace RosheraCad

section

variable [FloatDebug] [Crc32] [Sha2] [Ed25519] [Kdf] [Aead] [SerdeJson]
  [MessagePack SignatureChunk] [MessagePack HistChunk]
  {AICommand Curve Surface CurveData SurfaceData : Type} [MessagePack (ProvChunk AICommand)]
  [MessagePack (BRepSnapshot CurveData SurfaceData)] [CurveCodec Curve CurveData]
  [SurfaceCodec Surface SurfaceData] {Replica Assemblies Saved : Type*}

/-! ## The size limit -/

/-- Every content payload fits the size limit of a chunk, with the tag of an encrypted one. -/
structure FitsChunkLimit (kernel : ReplayKernel Replica Assemblies Saved) (env : ExportEnv)
    (payload : RosExportPayload AICommand Curve Surface) (options : RosExportOptions) : Prop where
  metaText (status : RosReplayStatus) :
    replayVerdict kernel options.verifyReplay (payload.hist env).events = .ok status →
    (SerdeJson.toString (metaData env payload options status).toJson).length ≤ maxChunkSize.toNat
  hist (bytes : Bytes) : MessagePack.toVecNamed (payload.hist env) = some bytes →
    (bytes.length + if options.password.isSome then 16 else 0) ≤ maxChunkSize.toNat
  prov (bytes : Bytes) : MessagePack.toVecNamed (payload.prov env options) = some bytes →
    (bytes.length + if options.password.isSome then 16 else 0) ≤ maxChunkSize.toNat
  geom (snapshot : BRepSnapshot CurveData SurfaceData) (bytes : Bytes) : options.includeSnapshot →
    BRepSnapshot.fromModel payload.model = some snapshot →
    MessagePack.toVecNamed snapshot = some bytes →
    (bytes.length + if options.password.isSome then 16 else 0) ≤ maxChunkSize.toNat

variable {kernel : ReplayKernel Replica Assemblies Saved} {env : ExportEnv}
  {payload : RosExportPayload AICommand Curve Surface} {options : RosExportOptions}
  {exported : ExportedFile} {content : ExportContent} {bytes : ExportBytes} {header : FileHeader}

omit [Sha2] [Ed25519] [MessagePack SignatureChunk] in
theorem ExportContent.Built.isSome_keySet (h : content.Built kernel env payload options bytes) :
    content.keySet.isSome = options.password.isSome := by
  obtain ⟨_, hkeys⟩ := h.keys
  exact (deriveKeySet_of_setUpEncryption hkeys).2.1

omit [Sha2] [Ed25519] [MessagePack SignatureChunk] in
theorem ExportContent.Built.fits_iff [LawfulAead]
    (h : content.Built kernel env payload options bytes) :
    (∀ chunk ∈ content.chunks, chunk.data.length ≤ maxChunkSize.toNat) ↔
      FitsChunkLimit kernel env payload options := by
  have hnodup : (bytes.content.map (·.1.asFourcc)).Nodup := by
    have hall := bytes.nodup_payloads
    rw [ExportBytes.payloads, List.map_append] at hall
    exact hall.of_append_left
  have hsize {i : ℕ} {chunkType : ChunkType} {b : Bytes}
      (hpayload : bytes.content[i]? = some (chunkType, b)) : ∃ chunk ∈ content.chunks,
        chunk.data.length =
          b.length + if (chunkType.keysOf content.keySet).isSome then 16 else 0 := by
    obtain ⟨chunk, hchunk, hstores, -⟩ := h.stored.find hnodup hpayload
    exact ⟨chunk, hchunk, length_of_storedBytes hstores.data⟩
  have hkeys : ∀ t, t ≠ ChunkType.META → t ≠ .SIGN →
      (t.keysOf content.keySet).isSome = options.password.isSome := by
    intro t hmeta hsign
    rw [ChunkType.keysOf, if_neg fun hor ↦ hor.elim hmeta hsign, h.isSome_keySet]
  constructor
  · intro hall
    refine ⟨fun status hstatus ↦ ?_, fun b hb ↦ ?_, fun b hb ↦ ?_,
      fun snapshot b hinclude hsome hb ↦ ?_⟩
    · rw [h.verdict] at hstatus
      cases hstatus
      obtain ⟨chunk, hchunk, hlen⟩ := hsize (i := 0) rfl
      have := hall chunk hchunk
      rw [← h.encodes.metaText]
      omega
    · obtain ⟨chunk, hchunk, hlen⟩ := hsize (i := 1) rfl
      have hle := hall chunk hchunk
      rw [h.encodes.hist] at hb
      cases hb
      rwa [hlen, hkeys .HIST (by decide) (by decide)] at hle
    · obtain ⟨chunk, hchunk, hlen⟩ := hsize (i := 2) rfl
      have hle := hall chunk hchunk
      rw [h.encodes.prov] at hb
      cases hb
      rwa [hlen, hkeys .PROV (by decide) (by decide)] at hle
    · obtain ⟨snapshot', geom, hsome', hgeom, hbytes⟩ := h.encodes.geom hinclude
      rw [hsome] at hsome'
      cases hsome'
      rw [hb] at hgeom
      cases hgeom
      have hpayload : bytes.content[3]? = some (.GEOM, b) := by
        rw [ExportBytes.content, hbytes]
        rfl
      obtain ⟨chunk, hchunk, hlen⟩ := hsize hpayload
      have hle := hall chunk hchunk
      rwa [hlen, hkeys .GEOM (by decide) (by decide)] at hle
  · intro hfits chunk hchunk
    -- Every content chunk stores one of the four payloads.
    obtain ⟨i, chunkType, b, hpayload, hstores⟩ := h.stored.exists_stores hchunk
    rw [length_of_storedBytes hstores.data]
    rw [ExportBytes.content, List.mem_append, List.mem_cons, List.mem_cons, List.mem_singleton]
      at hpayload
    rcases hpayload with (hp | hp | hp) | hp
    · cases hp
      rw [h.encodes.metaText]
      exact hfits.metaText _ h.verdict
    · cases hp
      rw [hkeys .HIST (by decide) (by decide)]
      exact hfits.hist _ h.encodes.hist
    · cases hp
      rw [hkeys .PROV (by decide) (by decide)]
      exact hfits.prov _ h.encodes.prov
    · obtain ⟨geom, hgeom, heq⟩ := List.mem_map.mp hp
      cases heq
      rw [hkeys .GEOM (by decide) (by decide)]
      by_cases hinclude : options.includeSnapshot
      · obtain ⟨snapshot, geom', hsome, hbytes, hgeom'⟩ := h.encodes.geom hinclude
        rw [hgeom'] at hgeom
        cases List.mem_singleton.mp hgeom
        exact hfits.geom snapshot _ hinclude hsome hbytes
      · rw [h.encodes.no_geom hinclude] at hgeom
        cases hgeom

/-! ## The file -/

def exportFlags (sign encrypted : Bool) : FeatureFlags :=
  let flags := FeatureFlags.withAiProvenance ⟨0⟩
  let flags := if encrypted then flags.withEncryption else flags
  if sign then flags.withSignature else flags

omit [FloatDebug] [Crc32] [Sha2] [Ed25519] [Kdf] [Aead] [SerdeJson] [MessagePack SignatureChunk]
  [MessagePack HistChunk] in
theorem exportFlags_spec (sign encrypted : Bool) :
    (exportFlags sign encrypted).hasSignature = sign ∧
      (exportFlags sign encrypted).encrypted = encrypted := by
  rcases sign with - | - <;> rcases encrypted with - | - <;> decide

namespace Exported

variable (h : Exported kernel env payload options exported content bytes header)

include h

theorem header_eq_withClaim :
    header = if options.sign then content.header.withClaim content.chunks.length
      else content.header := by
  rcases hsign : options.sign with - | -
  · exact (h.unsigned hsign).2
  · obtain ⟨_, _, -, hheader, -⟩ := h.signed hsign
    exact hheader

theorem header_fields :
    header.magic = rosheraMagic ∧ header.majorVersion = currentMajorVersion ∧
    header.minorVersion = currentMinorVersion ∧ header.endianness = .little ∧
    header.validate = .ok () ∧
    header.featureFlags = exportFlags options.sign options.password.isSome ∧
    (header.signatureAlgo != 0) = options.sign ∧
    (options.password.isSome → header.kdfAlgo = kdfAlgoArgon2idFileBound ∧
      header.kdfIterations = rosheraKdfTimeCost ∧ header.kdfSalt = env.kdfSalt) ∧
    header.fileUuid = env.fileUuid ∧ header.fileIv = content.header.fileIv := by
  obtain ⟨provEntry, -, hcontent⟩ := h.built.header
  rw [h.header_eq_withClaim, hcontent, keyedHeader]
  rcases options.sign with - | - <;> rcases options.password with - | password <;>
    exact ⟨rfl, rfl, rfl, rfl, rfl, rfl, rfl, fun hsome ↦ by cases hsome <;> exact ⟨rfl, rfl, rfl⟩,
      rfl, rfl⟩

theorem layOut_eq :
    layOut (UInt64.ofNat headerSize) exported.chunks = exported.chunks := by
  rw [h.chunks, layOut_append, h.built.laidOut, layOut_layOut]

theorem length_chunks_le :
    exported.chunks.length ≤ 5 := by
  rw [h.stored.length_eq]
  exact bytes.length_payloads_le

theorem length_file :
    exported.file.1.length = headerSize + dataLength exported.chunks +
      exported.chunks.length * chunkIndexEntrySize := by
  rw [h.file, h.header_eq, length_fileBytes (FileHeader.length_image _)]

theorem toNat_endOffset_chunks :
    (endOffset (UInt64.ofNat headerSize) exported.chunks).toNat =
      headerSize + dataLength exported.chunks := by
  have hlen := h.length_file
  have hfile := exported.file.2
  have hhead : (UInt64.ofNat headerSize).toNat = headerSize := rfl
  exact toNat_endOffset (by rw [hhead]; omega)

theorem laidOut
    (hsize : ∀ chunk ∈ exported.chunks, chunk.data.length ≤ maxChunkSize.toNat) :
    LaidOut (header.withLayout exported.chunks) exported.chunks exported.file := by
  have hlen := h.length_file
  have hfile := exported.file.2
  have hcount := h.length_chunks_le
  have hhead : (UInt64.ofNat headerSize).toNat = headerSize := rfl
  have hend := h.toNat_endOffset_chunks
  obtain ⟨hmagic, hmajor, hminor, hlittle, hvalid, -⟩ := h.header_fields
  refine ⟨hvalid, hlittle, ?_, fun chunk hchunk ↦ ?_, ?_, ?_, hend, ?_, ?_⟩
  · have hplaced : Placed (UInt64.ofNat headerSize).toNat
        (layOut (UInt64.ofNat headerSize) exported.chunks) :=
      placed_layOut (by rw [hhead]; omega)
    rwa [h.layOut_eq, hhead] at hplaced
  · obtain ⟨_, _, _, -, hstores⟩ := h.stored.exists_stores hchunk
    exact hstores.sound (hsize chunk hchunk)
  · intro required hrequired
    have hpayload : ∃ (i : ℕ) (b : Bytes), bytes.payloads[i]? = some (required, b) := by
      rw [List.mem_cons, List.mem_cons, List.mem_singleton] at hrequired
      rcases hrequired with rfl | rfl | rfl
      · exact ⟨0, _, rfl⟩
      · exact ⟨1, _, rfl⟩
      · exact ⟨2, _, rfl⟩
    obtain ⟨i, b, hpayload⟩ := hpayload
    obtain ⟨chunk, -, -, hfind, -⟩ := h.stored.find bytes.nodup_payloads hpayload
    rw [hfind]
    rfl
  · show (UInt32.ofNat exported.chunks.length).toNat = _
    rw [UInt32.toNat_ofNat']
    omega
  · show (endOffset (UInt64.ofNat headerSize) exported.chunks +
      UInt64.ofNat (exported.chunks.length * chunkIndexEntrySize)).toNat = _
    rw [toNat_add_length (by rw [hend]; omega), hend, hlen]
  · rw [h.file, h.header_eq]

/-- **A file that is read back respects the size limit.** -/
theorem size_of_audited
    {a : RosAudited} (ha : auditRosBytes exported.file = .ok a) :
    ∀ chunk ∈ exported.chunks, chunk.data.length ≤ maxChunkSize.toNat := by
  obtain ⟨hfile, haudited⟩ := auditRosBytes_eq_ok.mp ha
  have hlen := h.length_file
  have hsmall := exported.file.2
  have hcount := h.length_chunks_le
  -- the header that is read is the one that was written
  have hread := haudited.header_read
  have hwritten : FileHeader.readFrom exported.file.1 = .ok exported.header := by
    refine FileHeader.readFrom_eq_ok.mpr ⟨?_, ?_, exported.chunks.flatMap (·.data) ++
      exported.chunks.flatMap (·.index.toBytes), ?_⟩
    · rw [h.header_eq]
      exact h.header_fields.1
    · rw [h.header_eq]
      rfl
    · rw [h.file, fileBytes, List.append_assoc]
  rw [hfile, hwritten] at hread
  have hsame : exported.header = a.header := Except.ok.inj hread
  -- and the table is read where it was written
  obtain ⟨rest, htable⟩ := ChunkTable.readFrom_eq_ok.mp haudited.table_read
  have hoffset : a.header.indexOffset.toNat = headerSize + dataLength exported.chunks := by
    rw [← hsame, h.header_eq]
    exact h.toNat_endOffset_chunks
  have hentries : a.header.indexEntryCount.toNat = (exported.chunks.map (·.index)).length := by
    rw [← hsame, h.header_eq, List.length_map]
    show (UInt32.ofNat exported.chunks.length).toNat = _
    rw [UInt32.toNat_ofNat']
    omega
  have hdrop : exported.file.1.drop a.header.indexOffset.toNat =
      (exported.chunks.map (·.index)).flatMap (·.toBytes) ++ [] := by
    rw [h.file, h.header_eq, fileBytes, hoffset, List.append_nil, List.flatMap_map]
    refine List.drop_left' ?_
    rw [List.length_append, FileHeader.length_image, length_flatMap_data]
  rw [hfile, hentries, hdrop] at htable
  have hvalid := ChunkTable.validate_of_readEntries htable
  intro chunk hchunk
  obtain ⟨_, _, _, -, hstores⟩ := h.stored.exists_stores hchunk
  have hchunkLen : chunk.data.length ≤ dataLength exported.chunks :=
    List.le_sum_of_mem (List.mem_map_of_mem hchunk)
  exact (hstores.validate_iff (by omega)).mp (hvalid _ (List.mem_map_of_mem hchunk))

/-! ## The verdict -/

theorem filter_chunks :
    exported.chunks.filter (·.index.chunkType ≠ ChunkType.SIGN.asFourcc) = content.chunks := by
  have hcontent : content.chunks.filter (·.index.chunkType ≠ ChunkType.SIGN.asFourcc) =
      content.chunks := by
    refine List.filter_eq_self.mpr fun chunk hchunk ↦ decide_eq_true fun heq ↦ ?_
    have hmem : chunk.index.chunkType ∈ content.chunks.map (·.index.chunkType) :=
      List.mem_map_of_mem hchunk
    rw [h.built.stored.map_chunkType, heq] at hmem
    exact bytes.sign_notMem_content hmem
  rw [h.chunks, List.filter_append, hcontent]
  rcases bytes.sign with - | sign
  · exact List.append_nil _
  · exact List.append_nil _

theorem length_chunks
    (hsign : options.sign = true) : exported.chunks.length = content.chunks.length + 1 := by
  obtain ⟨key, root, -, -, -, hbytes, -⟩ := h.signed hsign
  rw [h.chunks, List.length_append, length_layOut, hbytes]
  rfl

theorem blanked_eq
    (hsign : options.sign = true) : exported.header.blanked = header.blanked := by
  obtain ⟨_, _, -, hheader, -⟩ := h.signed hsign
  rw [h.header_eq, hheader, FileHeader.withLayout, h.length_chunks hsign]
  rfl

theorem signedLeafSet_eq
    (hsign : options.sign = true) (hsize : ∀ chunk ∈ exported.chunks,
      chunk.data.length ≤ maxChunkSize.toNat) :
    ∃ chunks, signedChunks exported.file.1 exported.header ⟨exported.chunks.map (·.index)⟩ =
      .ok chunks ∧ normalizedHeaderLeaf exported.file.1 = .ok header.blanked.image ∧
      signedLeafSet header.blanked.image (chunks.map Prod.fst) (chunks.map Prod.snd) =
        signedLeaves header content.chunks := by
  have hchunks := (h.laidOut hsize).signedChunks_eq
  rw [h.filter_chunks, ← h.header_eq] at hchunks
  refine ⟨_, hchunks, ?_, ?_⟩
  · rw [h.file, fileBytes, List.append_assoc, normalizedHeaderLeaf_image, h.blanked_eq hsign]
  · rw [signedLeaves, List.map_map, List.map_map]
    rfl

end Exported

/-- Verified under the signing key when the export signs, and unsigned otherwise. -/
def RosExportOptions.verdict (options : RosExportOptions) : RosSignatureVerdict :=
  match options.sign, options.signingKey with
  | true, some key => .verified (toHex (signerIdOf (Ed25519.verifyingKey key)).toList)
      (toHex (Ed25519.verifyingKey key).toList)
  | _, _ => .unsigned

namespace Exported

variable (h : Exported kernel env payload options exported content bytes header)

include h

theorem signatureVerdict_eq [LawfulEd25519] [LawfulMessagePack SignatureChunk]
    (hsize : ∀ chunk ∈ exported.chunks, chunk.data.length ≤ maxChunkSize.toNat) :
    signatureVerdict exported.file.1 exported.header ⟨exported.chunks.map (·.index)⟩ =
      .ok options.verdict := by
  obtain ⟨-, hmajor, hminor, -, -, hflags, halgo, -⟩ := h.header_fields
  have hclaims : (exported.header.featureFlags.hasSignature ||
      exported.header.signatureAlgo != 0) = options.sign := by
    rw [h.header_eq]
    show (header.featureFlags.hasSignature || header.signatureAlgo != 0) = _
    rw [hflags, (exportFlags_spec _ _).1, halgo, Bool.or_self]
  rcases hsign : options.sign with - | -
  · -- no chunk is a SIGN chunk, and the header claims none
    have hstored := h.stored
    rw [ExportBytes.payloads, (h.unsigned hsign).1, Option.toList, List.map_nil,
      List.append_nil] at hstored
    have hfind := hstored.findByType_eq_none bytes.sign_notMem_content
    rw [signatureVerdict, hfind]
    dsimp only
    rw [hclaims, hsign, if_neg Bool.false_ne_true, RosExportOptions.verdict, hsign]
  · obtain ⟨key, root, hkey, hheader, hroot, hbytes, hne⟩ := h.signed hsign
    have hpayload : bytes.payloads[bytes.content.length]? = some (.SIGN, (SignatureChunk.mk
        (recordOf key root content.header.fileUuid env.signedAt)).serialize) := by
      rw [ExportBytes.payloads, List.getElem?_append_right (Nat.le_refl _), Nat.sub_self, hbytes]
      rfl
    obtain ⟨chunk, hchunk, hstores, hfind, -⟩ := h.stored.find bytes.nodup_payloads hpayload
    have hdata := hstores.data
    rw [storedBytes, ChunkType.keysOf, if_pos (.inr rfl)] at hdata
    have hraw := (h.laidOut hsize).rawChunkBytes_eq hchunk
    rw [← Except.ok.inj hdata] at hraw
    have hversion : usesIntegritySchemeV2 exported.header.majorVersion
        exported.header.minorVersion = true := by
      rw [h.header_eq]
      show usesIntegritySchemeV2 header.majorVersion header.minorVersion = true
      rw [hmajor, hminor]
      rfl
    obtain ⟨chunks, hchunks, hleaf, hleaves⟩ := h.signedLeafSet_eq hsign hsize
    have hverdict : verdictOf root (SignatureChunk.mk
        (recordOf key root content.header.fileUuid env.signedAt)) = options.verdict := by
      rw [verdictOf, recordOf, verifySignature_signFile, RosExportOptions.verdict, hsign, hkey]
      exact if_neg (not_not.mpr rfl)
    rw [signatureVerdict, hfind]
    dsimp only
    rw [if_neg (not_not.mpr hversion)]
    refine Except.bind_eq_ok.mpr ⟨_, hraw, ?_⟩
    rw [SignatureChunk.deserialize_serialize hne]
    refine Except.bind_eq_ok.mpr ⟨_, hleaf, Except.bind_eq_ok.mpr ⟨chunks, hchunks, ?_⟩⟩
    rw [hleaves, signingRoot_eq_ok.mp hroot]
    exact congrArg Except.ok hverdict

theorem audited [LawfulEd25519] [LawfulMessagePack SignatureChunk]
    (hsize : ∀ chunk ∈ exported.chunks, chunk.data.length ≤ maxChunkSize.toNat) :
    auditRosBytes exported.file = .ok ⟨exported.file, exported.header,
      ⟨exported.chunks.map (·.index)⟩, options.verdict⟩ := by
  have hverdict := h.signatureVerdict_eq hsize
  rw [h.header_eq] at hverdict ⊢
  exact auditRosBytes_eq_ok.mpr ⟨rfl, (h.laidOut hsize).audited hverdict⟩

/-! ## The import -/

theorem deriveKeySet_eq :
    deriveKeySet exported.header options.password = .ok content.keySet := by
  obtain ⟨-, -, -, -, -, hflags, -, hkdf, huuid, -⟩ := h.header_fields
  obtain ⟨_, hkeys⟩ := h.built.keys
  refine (deriveKeySet_of_setUpEncryption hkeys).2.2.2 _ ?_ fun hpassword ↦ ?_
  · rw [h.header_eq]
    show header.featureFlags.encrypted = _
    rw [hflags, (exportFlags_spec _ _).2]
  · obtain ⟨hkdfAlgo, hiterations, hsalt⟩ := hkdf hpassword
    rw [h.header_eq]
    exact ⟨hkdfAlgo, hiterations, hsalt, huuid⟩

theorem readChunkPayload_eq [LawfulAead] {α : Type} [MessagePack α] [LawfulMessagePack α]
    (hsize : ∀ chunk ∈ exported.chunks, chunk.data.length ≤ maxChunkSize.toNat) {i : ℕ}
    {chunkType : ChunkType} {value : α} {encoded : Bytes} (hne : chunkType ≠ .META)
    (hpayload : bytes.payloads[i]? = some (chunkType, encoded))
    (hencoded : MessagePack.toVecNamed value = some encoded)
    (kdfAuthenticity : KdfInputAuthenticity) :
    readChunkPayload α exported.file.1 ⟨exported.chunks.map (·.index)⟩ chunkType content.keySet
      exported.header.fileIv kdfAuthenticity = .ok value := by
  have hiv : exported.header.fileIv = content.header.fileIv := by
    rw [h.header_eq]
    exact h.header_fields.2.2.2.2.2.2.2.2.2
  rw [hiv]
  exact Except.bind_eq_ok.mpr ⟨encoded, readChunkBytes_of_stored (h.laidOut hsize) h.stored
    bytes.nodup_payloads hpayload kdfAuthenticity, Except.bind_eq_ok.mpr ⟨(), ensure_eq_ok.mpr hne,
    Except.ofOption_eq_ok.mpr (LawfulMessagePack.fromSlice_toVecNamed hencoded)⟩⟩

theorem checkAiHints_eq :
    checkAiHints exported.header ⟨exported.chunks.map (·.index)⟩ (payload.prov env options) =
      .ok () := by
  obtain ⟨provEntry, hentry, hcontent⟩ := h.built.header
  have hfind :
      (⟨exported.chunks.map (·.index)⟩ : ChunkTable).findByType .PROV = some provEntry := by
    rw [ChunkTable.findByType] at hentry ⊢
    rw [h.chunks, List.map_append, List.find?_append, hentry]
    rfl
  have hhints : exported.header.aiCommandCount =
      UInt64.ofNat (payload.prov env options).commands.length ∧
        exported.header.aiChunkOffset = provEntry.offset := by
    rw [h.header_eq, h.header_eq_withClaim, hcontent]
    rcases options.sign with - | - <;> exact ⟨rfl, rfl⟩
  rw [checkAiHints]
  split
  · exact Except.bind_eq_ok.mpr ⟨(), ensure_eq_ok.mpr hhints.1, Except.bind_eq_ok.mpr
      ⟨provEntry, Except.ofOption_eq_ok.mpr hfind, ensure_eq_ok.mpr hhints.2⟩⟩
  · rfl

theorem readMetaReplayStatus_eq
    (hsize : ∀ chunk ∈ exported.chunks, chunk.data.length ≤ maxChunkSize.toNat)
    (hjson : SerdeJson.fromSlice (SerdeJson.toString
      (metaData env payload options content.replayStatus).toJson) =
        some (metaData env payload options content.replayStatus).toJson)
    (hstatus : SerdeJson.replayStatusFromValue content.replayStatus.toValue =
      some content.replayStatus) :
    readMetaReplayStatus exported.file.1 ⟨exported.chunks.map (·.index)⟩ =
      .ok content.replayStatus := by
  have hpayload : bytes.payloads[0]? = some (.META, bytes.metaText) := rfl
  obtain ⟨chunk, hchunk, hstores, hfind, -⟩ := h.stored.find bytes.nodup_payloads hpayload
  have hdata := hstores.data
  rw [storedBytes, ChunkType.keysOf, if_pos (.inl rfl)] at hdata
  have hraw := (h.laidOut hsize).rawChunkBytes_eq hchunk
  rw [← Except.ok.inj hdata, h.built.encodes.metaText] at hraw
  refine Except.bind_eq_ok.mpr ⟨chunk.index, Except.ofOption_eq_ok.mpr hfind, Except.bind_eq_ok.mpr
    ⟨_, hraw, Except.bind_eq_ok.mpr ⟨_, Except.ofOption_eq_ok.mpr hjson, ?_⟩⟩⟩
  rw [MetaData.get?_replayStatus]
  exact Except.ofOption_eq_ok.mpr hstatus

theorem readSnapshot_eq [LawfulAead] [LawfulMessagePack (BRepSnapshot CurveData SurfaceData)]
    (hsize : ∀ chunk ∈ exported.chunks, chunk.data.length ≤ maxChunkSize.toNat) :
    readSnapshot ⟨exported.file, exported.header, ⟨exported.chunks.map (·.index)⟩,
      options.verdict⟩ content.keySet =
        .ok (if options.includeSnapshot then BRepSnapshot.fromModel payload.model else none) := by
  by_cases hinclude : options.includeSnapshot
  · obtain ⟨snapshot, geom, hsnapshot, hgeom, hbytes⟩ := h.built.encodes.geom hinclude
    have hpayload : bytes.payloads[3]? = some (.GEOM, geom) := by
      rw [ExportBytes.payloads, ExportBytes.content, hbytes]
      rfl
    obtain ⟨_, -, -, hfind, -⟩ := h.stored.find bytes.nodup_payloads hpayload
    rw [if_pos hinclude, hsnapshot]
    refine readSnapshot_eq_some.mpr ⟨?_, h.readChunkPayload_eq hsize (by decide) hpayload hgeom _⟩
    rw [hfind]
    rfl
  · rw [if_neg hinclude]
    exact readSnapshot_eq_none.mpr (h.stored.findByType_eq_none
      (ExportBytes.geom_notMem_payloads (h.built.encodes.no_geom hinclude)))

end Exported

/-! ## The round trip -/

/-- **The round trip**: the file is imported, and everything that was exported comes back. -/
structure RoundTrips (env : ExportEnv) (payload : RosExportPayload AICommand Curve Surface)
    (options : RosExportOptions) (exported : ExportedFile) (summary : RosWriteSummary)
    (i : RosImport AICommand CurveData SurfaceData) : Prop where
  imported : importRos exported.file options.password = .ok i
  branches : i.branches = (payload.hist env).branches
  events : i.timeline = (payload.hist env).events
  aipr : i.aipr = payload.prov env options
  snapshot : i.snapshot =
    if options.includeSnapshot then BRepSnapshot.fromModel payload.model else none
  replayStatus : i.replayStatus = summary.replayStatus
  /-- The file is verified under the signing key exactly when it was signed. -/
  signature : i.signature = options.verdict

/-- A record with a key and a signature of full length fits a chunk. -/
def SignaturesFit : Prop :=
  ∀ (record : SignatureRecord) (bytes : Bytes), record.publicKey.length = 32 →
    record.signature.length = 64 → MessagePack.toVecNamed (SignatureChunk.mk record) = some bytes →
    bytes.length ≤ maxChunkSize.toNat

theorem fitsChunkLimit_of_importRos [LawfulAead] {summary : RosWriteSummary}
    (hexport : exportBrepToRos kernel env payload options = .ok (exported, summary))
    {i : RosImport AICommand CurveData SurfaceData} {password : Option String}
    (himport : importRos exported.file password = .ok i) :
    FitsChunkLimit kernel env payload options := by
  obtain ⟨content, bytes, header, h, -⟩ := exportBrepToRos_eq_ok hexport
  obtain ⟨a, -, -, ha, -⟩ := importRos_eq_ok.mp himport
  have hsize := h.size_of_audited ha
  refine h.built.fits_iff.mp fun chunk hchunk ↦ hsize chunk ?_
  rw [h.chunks]
  exact List.mem_append_left _ hchunk

theorem exists_exportBrepToRos (hcontent : exportContent kernel env payload options = .ok content)
    (hsign : options.sign = false) (hroom : headerSize + dataLength content.chunks +
      content.chunks.length * chunkIndexEntrySize < 2 ^ 63) :
    ∃ exported summary, exportBrepToRos kernel env payload options = .ok (exported, summary) := by
  obtain ⟨bytes, -, hbuilt⟩ := exportContent_eq_ok hcontent
  obtain ⟨provEntry, -, hheader⟩ := hbuilt.header
  obtain ⟨_, hkeys⟩ := hbuilt.keys
  have hsigned : signIfAsked env.signedAt options content =
      .ok (content.header, content.chunks, .unsigned) := by
    rw [signIfAsked, hsign]
  -- the header claims no signature, and no chunk is one
  have hclaim : content.header.featureFlags.hasSignature = false := by
    have hflags : content.header.featureFlags = exportFlags false options.password.isSome := by
      rw [hheader, keyedHeader]
      rcases options.password with - | password <;> rfl
    rw [hflags, (exportFlags_spec _ _).1]
  have hcarries : content.chunks.any (·.index.chunkType = ChunkType.SIGN.asFourcc) = false := by
    refine List.any_eq_false.mpr fun chunk hchunk ↦ ?_
    rw [decide_eq_true_iff]
    intro heq
    have hmem : chunk.index.chunkType ∈ content.chunks.map (·.index.chunkType) :=
      List.mem_map_of_mem hchunk
    rw [hbuilt.stored.map_chunkType, heq] at hmem
    exact bytes.sign_notMem_content hmem
  have huuid : content.header.fileUuid = env.fileUuid := by
    rw [hheader, keyedHeader]
    rcases options.password with - | password <;> rfl
  have hbinding : content.keySet.toList.forM (fun keys ↦ checkKeyBinding keys.fileId
      content.header.fileUuid) = .ok () := by
    refine Except.forM_eq_ok.mpr fun keys hmem ↦ ensure_eq_ok.mpr ?_
    rw [(deriveKeySet_of_setUpEncryption hkeys).2.2.1 keys (Option.mem_toList.mp hmem), huuid]
    rfl
  have hwrite : ∃ exported, writeFile content.header content.chunks content.keySet =
      .ok exported := by
    have hlen : (fileBytes (content.header.withLayout content.chunks).sealed.image
        content.chunks).length < 2 ^ 63 := by
      rwa [length_fileBytes (FileHeader.length_image _)]
    refine ⟨⟨(content.header.withLayout content.chunks).sealed, content.chunks, _, hlen⟩, ?_⟩
    rw [writeFile, hbuilt.laidOut]
    refine Except.bind_eq_ok.mpr ⟨(), ensure_eq_ok.mpr (hclaim.trans hcarries.symm),
      Except.bind_eq_ok.mpr ⟨(), hbinding, Except.bind_eq_ok.mpr
      ⟨_, Except.mapError_eq_ok.mpr (FileHeader.toBytes_eq _), ?_⟩⟩⟩
    exact dif_pos hlen
  obtain ⟨exported, hwrite⟩ := hwrite
  exact ⟨exported, _, Except.bind_eq_ok.mpr ⟨content, hcontent, Except.bind_eq_ok.mpr
    ⟨_, hsigned, Except.bind_eq_ok.mpr ⟨exported, hwrite, rfl⟩⟩⟩⟩

/-- **When an export round trips**: exactly when its payloads fit the size limit of a chunk. -/
theorem exists_roundTrips_iff [LawfulAead] [LawfulEd25519] [LawfulMessagePack SignatureChunk]
    [LawfulMessagePack HistChunk] [LawfulMessagePack (ProvChunk AICommand)]
    [LawfulMessagePack (BRepSnapshot CurveData SurfaceData)] {summary : RosWriteSummary}
    (hexport : exportBrepToRos kernel env payload options = .ok (exported, summary))
    (hjson : SerdeJson.fromSlice (SerdeJson.toString
      (metaData env payload options summary.replayStatus).toJson) =
        some (metaData env payload options summary.replayStatus).toJson)
    (hstatus : SerdeJson.replayStatusFromValue summary.replayStatus.toValue =
      some summary.replayStatus) (hsignatures : SignaturesFit) :
    (∃ i : RosImport AICommand CurveData SurfaceData,
      RoundTrips env payload options exported summary i) ↔
      FitsChunkLimit kernel env payload options := by
  constructor
  · rintro ⟨i, hi⟩
    exact fitsChunkLimit_of_importRos hexport hi.imported
  · intro hfits
    obtain ⟨content, bytes, header, h, hsame⟩ := exportBrepToRos_eq_ok hexport
    rw [hsame] at hjson hstatus
    have hsize : ∀ chunk ∈ exported.chunks, chunk.data.length ≤ maxChunkSize.toNat := by
      intro chunk hchunk
      rw [h.chunks, List.mem_append] at hchunk
      rcases hchunk with hchunk | hchunk
      · exact h.built.fits_iff.mpr hfits chunk hchunk
      · -- the SIGN chunk
        rcases hsign : options.sign with - | -
        · rw [(h.unsigned hsign).1] at hchunk
          cases hchunk
        · obtain ⟨key, root, -, -, -, hbytes, hne⟩ := h.signed hsign
          rw [hbytes] at hchunk
          cases List.mem_singleton.mp hchunk
          rw [SignatureChunk.serialize] at hne
          rcases hencoded : MessagePack.toVecNamed (SignatureChunk.mk
              (recordOf key root content.header.fileUuid env.signedAt)) with - | encoded
          · rw [hencoded] at hne
            exact absurd rfl hne
          · show (SignatureChunk.serialize _).length ≤ _
            rw [SignatureChunk.serialize, hencoded]
            exact hsignatures _ encoded (List.Vector.toList_length _) (List.Vector.toList_length _)
              hencoded
    have hhist : bytes.payloads[1]? = some (.HIST, bytes.hist) := rfl
    have hprov : bytes.payloads[2]? = some (.PROV, bytes.prov) := rfl
    refine ⟨⟨(payload.hist env).events, (payload.hist env).branches, payload.prov env options,
      if options.includeSnapshot then BRepSnapshot.fromModel payload.model else none,
      options.verdict, content.replayStatus⟩, ?_, rfl, rfl, rfl, rfl, hsame.symm, rfl⟩
    exact importRos_eq_ok.mpr ⟨_, _, payload.hist env, h.audited hsize, h.deriveKeySet_eq,
      h.readChunkPayload_eq hsize (by decide) hhist h.built.encodes.hist _,
      h.readChunkPayload_eq hsize (by decide) hprov h.built.encodes.prov _, h.checkAiHints_eq,
      h.readSnapshot_eq hsize, h.readMetaReplayStatus_eq hsize hjson hstatus, rfl, rfl, rfl⟩

end

/-! ## A file to compute with -/

def exampleKernel : ReplayKernel Unit Unit Unit where
  newModel := ()
  noAssemblies := ()
  applyEvent _ _ remap _ := (.ok (), (), (), remap)
  take _ := ()
  restore _ _ := ()

def exampleEnv : ExportEnv where
  creationTime := 0
  fileUuid := .replicate 16 7
  kdfSalt := .replicate 16 1
  fileIv := .replicate 8 2
  writtenAt := ⟨0⟩
  created := 0
  trackerTime := 0
  sessionId := 0
  signedAt := 0

def examplePayload : RosExportPayload Unit Unit Unit where
  model := ⟨.empty, .empty, .empty, .empty, .empty, .empty, .empty, .empty⟩
  history := none
  aipr := none

def exampleOptions : RosExportOptions where
  includeSnapshot := true
  trackingLevel := .detailed
  verifyReplay := false
  sign := true
  signingKey := some (.replicate 32 5)
  password := some "pw"
  author := "author"
  software := ""
  units := "mm"

abbrev exampleFloat : FloatDebug := ⟨fun x ↦ toString x⟩
abbrev exampleCurves : CurveCodec Unit Unit := ⟨id, some⟩
abbrev exampleSurfaces : SurfaceCodec Unit Unit := ⟨some, some⟩

def plainOptions (author : String) : RosExportOptions :=
  { exampleOptions with includeSnapshot := false, sign := false, password := none, author }

theorem length_text_author (m : MetaData) :
    m.toJson.text.length = m.author.length + { m with author := "" }.toJson.text.length := by
  have hlen (s : String) : (asciiBytes s).length = s.length := by
    rw [asciiBytes, List.length_map, String.length_toList]
  have hentry (author : String) (next : String × Json) (rest : List (String × Json)) :
      (Json.entryTexts (("author", .string author) :: next :: rest)).length =
        author.length + (Json.entryTexts (("author", .string "") :: next :: rest)).length := by
    simp only [Json.entryTexts, Json.text, List.length_append, hlen]
    have hempty : "".length = 0 := rfl
    omega
  simp only [MetaData.toJson, Json.text, List.length_append]
  rw [hentry]
  omega

section

attribute [local instance] exampleCrc32 exampleSha2 exampleEd25519 exampleSignatures exampleKdf
  exampleAead exampleHist exampleProv exampleSnapshot exampleFloat exampleCurves exampleSurfaces

private theorem signaturesFit_example : SignaturesFit := by
  intro record bytes hkey hsignature hbytes
  have hbytes : (if _ then _ else _) = _ := hbytes
  by_cases hfull : record.algorithm = .ed25519 ∧ record.publicKey.length = 32 ∧
      record.signature.length = 64
  · rw [if_pos hfull, Option.some_inj] at hbytes
    rw [← hbytes]
    simp only [List.length_append, hkey, hsignature, List.Vector.toList_length, length_toLe]
    decide
  · rw [if_neg hfull] at hbytes
    cases hbytes

/-- A signed and encrypted file with a snapshot round trips exactly when its payloads fit. -/
theorem exists_roundTrips_iff_example :
    letI := exampleJson [(metaData exampleEnv examplePayload exampleOptions .notAttempted).toJson]
    ∃ exported summary, exportBrepToRos exampleKernel exampleEnv examplePayload exampleOptions =
      .ok (exported, summary) ∧
      ((∃ i : RosImport Unit Unit Unit,
        RoundTrips exampleEnv examplePayload exampleOptions exported summary i) ↔
        FitsChunkLimit exampleKernel exampleEnv examplePayload exampleOptions) := by
  let := exampleJson [(metaData exampleEnv examplePayload exampleOptions .notAttempted).toJson]
  have := lawful_exampleAead
  have := lawful_exampleEd25519
  have := lawful_exampleSignatures
  have := lawful_exampleHist
  have := lawful_exampleProv
  have := lawful_exampleSnapshot
  have hok : (exportBrepToRos exampleKernel exampleEnv examplePayload exampleOptions).toBool := by
    decide +kernel
  rcases hexport : exportBrepToRos exampleKernel exampleEnv examplePayload exampleOptions
    with err | ⟨exported, summary⟩
  · rw [hexport] at hok
    cases hok
  obtain ⟨content, bytes, header, h, hsame⟩ := exportBrepToRos_eq_ok hexport
  have hstatus : summary.replayStatus = .notAttempted := by
    rw [hsame]
    exact (Except.ok.inj h.built.verdict).symm
  refine ⟨exported, summary, rfl, exists_roundTrips_iff hexport ?_ ?_ signaturesFit_example⟩
  · rw [hstatus]
    exact List.find?_cons_of_pos (decide_eq_true rfl)
  · exact replayStatusFromValue_exampleJson _ _

/-- A file whose author has a name as long as a chunk may be is written and cannot be read. -/
private theorem not_roundTrips_of_author (author : String)
    (hlong : maxChunkSize.toNat ≤ author.length) (hroom : author.length ≤ 2 * maxChunkSize.toNat) :
    letI := exampleJson [(metaData exampleEnv examplePayload (plainOptions author)
      .notAttempted).toJson]
    ∃ exported summary, exportBrepToRos exampleKernel exampleEnv examplePayload
      (plainOptions author) = .ok (exported, summary) ∧
      ¬ ∃ i : RosImport Unit Unit Unit,
        RoundTrips exampleEnv examplePayload (plainOptions author) exported summary i := by
  let := exampleJson [(metaData exampleEnv examplePayload (plainOptions author)
    .notAttempted).toJson]
  have := lawful_exampleAead
  have hmax : maxChunkSize.toNat = 1073741824 := rfl
  rw [hmax] at hlong hroom
  have htext : (metaData exampleEnv examplePayload (plainOptions author)
      .notAttempted).toJson.text.length = author.length + (metaData exampleEnv examplePayload
        (plainOptions "") .notAttempted).toJson.text.length :=
    length_text_author (metaData exampleEnv examplePayload (plainOptions author) .notAttempted)
  have hrest : 0 < (metaData exampleEnv examplePayload (plainOptions "")
    .notAttempted).toJson.text.length ∧ (metaData exampleEnv examplePayload (plainOptions "")
      .notAttempted).toJson.text.length ≤ 1000 := by decide +kernel
  obtain ⟨content, hcontent, hdata, hcount⟩ : ∃ content, exportContent exampleKernel exampleEnv
      examplePayload (plainOptions author) = .ok content ∧
      dataLength content.chunks = (metaData exampleEnv examplePayload
        (plainOptions author) .notAttempted).toJson.text.length + 2 ∧
      content.chunks.length = 3 := ⟨_, rfl, rfl, rfl⟩
  obtain ⟨exported, summary, hexport⟩ := exists_exportBrepToRos hcontent rfl (by
    rw [hdata, hcount, headerSize, chunkIndexEntrySize]
    omega)
  refine ⟨exported, summary, hexport, ?_⟩
  rintro ⟨i, hi⟩
  have hfits := (fitsChunkLimit_of_importRos hexport hi.imported).metaText .notAttempted rfl
  have hle : (metaData exampleEnv examplePayload (plainOptions author)
    .notAttempted).toJson.text.length ≤ maxChunkSize.toNat := hfits
  rw [hmax] at hle
  omega

/-- **A file that is written and cannot be read**: META is longer than a chunk may be. -/
theorem not_roundTrips_longAuthor :
    letI := exampleJson [(metaData exampleEnv examplePayload (plainOptions (String.ofList
      (List.replicate maxChunkSize.toNat 'a'))) .notAttempted).toJson]
    ∃ exported summary, exportBrepToRos exampleKernel exampleEnv examplePayload
      (plainOptions (String.ofList (List.replicate maxChunkSize.toNat 'a'))) =
        .ok (exported, summary) ∧
      ¬ ∃ i : RosImport Unit Unit Unit, RoundTrips exampleEnv examplePayload
        (plainOptions (String.ofList (List.replicate maxChunkSize.toNat 'a')))
        exported summary i := by
  have hlen : (String.ofList (List.replicate maxChunkSize.toNat 'a')).length =
      maxChunkSize.toNat := by
    rw [String.length_ofList, List.length_replicate]
  exact not_roundTrips_of_author _ hlen.ge (by rw [hlen]; exact Nat.le_mul_of_pos_left _ two_pos)

end

end RosheraCad
