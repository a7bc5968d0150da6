import RosheraCad.CanonicalRef
import RosheraCad.Ros.RoundTrip

/-!
# What a signature binds

A file that is verified under a key has the signed header fields, the payloads and the index entries
of a file that was exported with that key. The Merkle root binds the padded list of leaves only; the
number of leaves follows from the header and from the chunks that every file must have.
-/

namespace RosheraCad

/-! ## Hexadecimal texts -/

private theorem hexDigits_injective {b b' : UInt8}
    (h : [Uuid.hexDigit (b.toNat / 16), Uuid.hexDigit (b.toNat % 16)] =
      [Uuid.hexDigit (b'.toNat / 16), Uuid.hexDigit (b'.toNat % 16)]) : b = b' := by
  have hvalue {m n : ℕ} (hm : m < 16) (hn : n < 16) (heq : Uuid.hexDigit m = Uuid.hexDigit n) :
      m = n := by
    rw [← (Uuid.hexValue_hexDigit hm).1, heq, (Uuid.hexValue_hexDigit hn).1]
  have hb := b.toNat_lt
  have hb' := b'.toNat_lt
  obtain ⟨hhigh, hlow⟩ := List.cons_eq_cons.mp h
  have hhigh := hvalue (by omega) (by omega) hhigh
  have hlow := hvalue (by omega) (by omega) (List.cons_eq_cons.mp hlow).1
  rw [← UInt8.toNat_inj]
  omega

/-- **The hexadecimal form determines the bytes.** -/
theorem toHex_injective : Function.Injective toHex := by
  intro bytes bytes' h
  rw [toHex, toHex, String.ofList_inj] at h
  induction bytes generalizing bytes' with
  | nil =>
    rcases bytes' with - | ⟨b', bytes'⟩
    · rfl
    · cases h
  | cons b bytes ih =>
    rcases bytes' with - | ⟨b', bytes'⟩
    · cases h
    · rw [List.flatMap_cons, List.flatMap_cons] at h
      obtain ⟨hdigits, hrest⟩ := List.append_inj h rfl
      rw [hexDigits_injective hdigits, ih hrest]

/-! ## Verified files -/

section

variable [Sha2]

def signedStrings (leaves : List Bytes) : List Bytes :=
  MerkleTree.hashed leaves .sha256 ++ (MerkleTree.fromLeaves leaves .sha256).rootHash.toList

/-- The strings hashed for two lists of leaves do not collide. -/
def NoSignedCollision (leaves leaves' : List Bytes) : Prop :=
  ∀ x ∈ signedStrings leaves, ∀ y ∈ signedStrings leaves', sha256 x = sha256 y → x = y

instance (leaves leaves' : List Bytes) : Decidable (NoSignedCollision leaves leaves') :=
  inferInstanceAs (Decidable (∀ x ∈ signedStrings leaves, ∀ y ∈ signedStrings leaves',
    sha256 x = sha256 y → x = y))

theorem padded_eq_of_sha256_eq {leaves leaves' : List Bytes} {root root' : Bytes}
    (h : NoSignedCollision leaves leaves')
    (hroot : (MerkleTree.fromLeaves leaves .sha256).rootHash = some root)
    (hroot' : (MerkleTree.fromLeaves leaves' .sha256).rootHash = some root')
    (hdigest : sha256 root = sha256 root') : HashTree.padded leaves = HashTree.padded leaves' := by
  have hsame : root = root' := by
    refine h root ?_ root' ?_ hdigest
    · rw [signedStrings, hroot]
      exact List.mem_append_right _ List.mem_cons_self
    · rw [signedStrings, hroot']
      exact List.mem_append_right _ List.mem_cons_self
  have hcollision : MerkleTree.NoCollision leaves leaves' .sha256 := fun x hx y hy ↦
    h x (List.mem_append_left _ hx) y (List.mem_append_left _ hy)
  refine (MerkleTree.rootHash_eq_iff hcollision).mp ?_
  rw [hroot, hroot', hsame]

end

def RosAudited.leaves (a : RosAudited) : Except ExportError (List Bytes) := do
  let headerLeaf ← normalizedHeaderLeaf a.file.1
  let chunks ← signedChunks a.file.1 a.header a.chunkTable
  return signedLeafSet headerLeaf (chunks.map Prod.fst) (chunks.map Prod.snd)

theorem RosAudited.leaves_eq_ok {a : RosAudited} {leaves : List Bytes} :
    a.leaves = .ok leaves ↔ ∃ headerLeaf chunks, normalizedHeaderLeaf a.file.1 = .ok headerLeaf ∧
      signedChunks a.file.1 a.header a.chunkTable = .ok chunks ∧
      leaves = signedLeafSet headerLeaf (chunks.map Prod.fst) (chunks.map Prod.snd) := by
  rw [RosAudited.leaves, Except.bind_eq_ok]
  constructor
  · rintro ⟨headerLeaf, hleaf, h⟩
    obtain ⟨chunks, hchunks, h⟩ := Except.bind_eq_ok.mp h
    cases h
    exact ⟨headerLeaf, chunks, hleaf, hchunks, rfl⟩
  · rintro ⟨headerLeaf, chunks, hleaf, hchunks, rfl⟩
    exact ⟨headerLeaf, hleaf, Except.bind_eq_ok.mpr ⟨chunks, hchunks, rfl⟩⟩

section

variable [Sha2] [Ed25519]

theorem verdictOf_eq_verified {root : Bytes} {sigChunk : SignatureChunk} {signerId : String}
    {publicKey : ByteVec 32}
    (h : verdictOf root sigChunk = .verified signerId (toHex publicKey.toList)) :
    ∃ signature, Ed25519.verify publicKey (sha256 root) signature := by
  rw [verdictOf] at h
  split at h
  next hverify =>
    obtain ⟨-, key, signature, hkey, -, -, hverify⟩ := verifySignature_eq_true.mp hverify
    dsimp only at h
    split at h
    · cases h
    · rw [RosSignatureVerdict.verified.injEq] at h
      have hsame : key = publicKey := List.Vector.eq _ _ (hkey.symm.trans (toHex_injective h.2))
      rw [← hsame]
      exact ⟨signature, hverify⟩
  next => cases h
  next => cases h

variable [MessagePack SignatureChunk]

theorem signatureVerdict_eq_verified {a : RosAudited} {signerId : String} {publicKey : ByteVec 32}
    (h : signatureVerdict a.file.1 a.header a.chunkTable =
      .ok (.verified signerId (toHex publicKey.toList))) :
    (a.chunkTable.findByType .SIGN).isSome ∧ ∃ leaves root signature, a.leaves = .ok leaves ∧
      (MerkleTree.fromLeaves leaves .sha256).rootHash = some root ∧
      Ed25519.verify publicKey (sha256 root) signature := by
  rw [signatureVerdict] at h
  rcases hfind : a.chunkTable.findByType .SIGN with - | entry
  · -- a file without a SIGN chunk is unsigned
    rw [hfind] at h
    dsimp only at h
    split at h <;> cases h
  · rw [hfind] at h
    dsimp only at h
    refine ⟨rfl, ?_⟩
    split at h
    · cases h
    · obtain ⟨signBytes, -, h⟩ := Except.bind_eq_ok.mp h
      rcases hchunk : SignatureChunk.deserialize signBytes with cause | sigChunk
      · rw [hchunk] at h
        cases h
      · rw [hchunk] at h
        obtain ⟨headerLeaf, hleaf, h⟩ := Except.bind_eq_ok.mp h
        obtain ⟨chunks, hchunks, h⟩ := Except.bind_eq_ok.mp h
        rcases hroot : (MerkleTree.fromLeaves (signedLeafSet headerLeaf (chunks.map Prod.fst)
          (chunks.map Prod.snd)) .sha256).rootHash with - | root
        · rw [hroot] at h
          cases h
        · rw [hroot] at h
          obtain ⟨signature, hverify⟩ := verdictOf_eq_verified (Except.ok.inj h)
          exact ⟨_, root, signature, RosAudited.leaves_eq_ok.mpr ⟨headerLeaf, chunks, hleaf,
            hchunks, rfl⟩, hroot, hverify⟩

omit [Sha2] [Ed25519] [MessagePack SignatureChunk] in
theorem length_signedChunks {file : Bytes} {header : FileHeader} {table : ChunkTable}
    {chunks : List (Bytes × Bytes)} (h : signedChunks file header table = .ok chunks) :
    chunks.length = (table.entries.filter (·.chunkType ≠ ChunkType.SIGN.asFourcc)).length := by
  rw [← (Except.mapM_eq_ok.mp h).length_eq]
  conv_rhs => rw [← List.zipIdx_map_fst 0 table.entries, List.filter_map, List.length_map]
  rfl

variable [Crc32]

theorem length_signedChunks_of_audited {a : RosAudited} (ha : Audited a)
    (hsign : (a.chunkTable.findByType .SIGN).isSome) {chunks : List (Bytes × Bytes)}
    (h : signedChunks a.file.1 a.header a.chunkTable = .ok chunks) :
    3 ≤ chunks.length ∧ chunks.length < a.header.indexEntryCount.toNat := by
  have hcount := ChunkTable.length_of_readFrom ha.table_read
  have hsplit := List.length_eq_length_filter_add (l := a.chunkTable.entries)
    (·.chunkType ≠ ChunkType.SIGN.asFourcc)
  have hlen := length_signedChunks h
  constructor
  · -- the types of the required chunks are among those of the chunks that are not SIGN
    have hrequired : [ChunkType.META, .HIST, .PROV].map ChunkType.asFourcc ⊆
        (a.chunkTable.entries.filter
          (·.chunkType ≠ ChunkType.SIGN.asFourcc)).map (·.chunkType) := by
      intro code hcode
      obtain ⟨required, hmem, rfl⟩ := List.mem_map.mp hcode
      obtain ⟨entry, hentry⟩ := Option.isSome_iff_exists.mp
        ((ChunkTable.validate_eq_ok.mp ha.table_valid).1 required hmem)
      have htype := List.find?_some hentry
      rw [decide_eq_true_iff] at htype
      refine List.mem_map.mpr ⟨entry, List.mem_filter.mpr ⟨List.mem_of_find?_eq_some hentry, ?_⟩,
        htype⟩
      rw [htype]
      have hcontent : ∀ t ∈ [ChunkType.META, .HIST, .PROV],
          decide (t.asFourcc ≠ ChunkType.SIGN.asFourcc) = true := by decide
      exact hcontent required hmem
    have hnodup : ([ChunkType.META, .HIST, .PROV].map ChunkType.asFourcc).Nodup := by decide
    have hle := (hnodup.subperm hrequired).length_le
    rwa [List.length_map, List.length_map, ← hlen] at hle
  · -- and one chunk is SIGN
    obtain ⟨entry, hentry⟩ := Option.isSome_iff_exists.mp hsign
    have htype := List.find?_some hentry
    have hmem : entry ∈ a.chunkTable.entries.filter
        fun e ↦ !decide (e.chunkType ≠ ChunkType.SIGN.asFourcc) := by
      refine List.mem_filter.mpr ⟨List.mem_of_find?_eq_some hentry, ?_⟩
      rw [decide_eq_true_iff] at htype
      rw [htype]
      decide
    have hpos := List.length_pos_of_mem hmem
    omega

end

private theorem leaves_eq_of_padded_eq {image image' : Bytes}
    {payloads payloads' entries entries' : List Bytes} (hlen : payloads.length = entries.length)
    (hlen' : payloads'.length = entries'.length)
    (hcount : payloads.length = payloads'.length ∨ payloads.length = 3 ∧ payloads'.length = 4)
    (h : HashTree.padded (signedLeafSet image payloads entries) =
      HashTree.padded (signedLeafSet image' payloads' entries')) :
    image = image' ∧ payloads = payloads' ∧ entries = entries' := by
  have hlength (i : Bytes) (p e : List Bytes) :
      (signedLeafSet i p e).length = 1 + p.length + e.length := by
    rw [signedLeafSet, List.cons_append, List.length_cons, List.length_append]
    omega
  rcases hcount with hcount | ⟨hthree, hfour⟩
  · have heq := HashTree.eq_of_padded_eq (by rw [hlength, hlength]; omega) h
    obtain ⟨himage, hrest⟩ := List.cons_eq_cons.mp heq
    obtain ⟨hpayloads, hentries⟩ := List.append_inj hrest hcount
    exact ⟨himage, hpayloads, hentries⟩
  · -- seven leaves are padded to eight, and nine to sixteen
    have hpad := congrArg List.length h
    rw [HashTree.length_padded, HashTree.length_padded, hlength, hlength, ← hlen, ← hlen', hthree,
      hfour] at hpad
    simp [HashTree.combine, HashTree.pairUp, List.replicate] at hpad

/-! ## Signed exports -/

section

variable [FloatDebug] [Crc32] [Sha2] [Ed25519] [Kdf] [Aead] [SerdeJson]
  [MessagePack SignatureChunk] [MessagePack HistChunk]
  {AICommand Curve Surface CurveData SurfaceData : Type} [MessagePack (ProvChunk AICommand)]
  [MessagePack (BRepSnapshot CurveData SurfaceData)] [CurveCodec Curve CurveData]
  [SurfaceCodec Surface SurfaceData] {Replica Assemblies Saved : Type*}

structure SignedExport (AICommand Curve Surface : Type) {CurveData SurfaceData : Type}
    [MessagePack (ProvChunk AICommand)] [MessagePack (BRepSnapshot CurveData SurfaceData)]
    [CurveCodec Curve CurveData] [SurfaceCodec Surface SurfaceData]
    (kernel : ReplayKernel Replica Assemblies Saved) where
  env : ExportEnv
  payload : RosExportPayload AICommand Curve Surface
  options : RosExportOptions
  key : ByteVec 32
  exported : ExportedFile
  summary : RosWriteSummary
  ok : exportBrepToRos kernel env payload options = .ok (exported, summary)
  sign : options.sign = true
  signingKey : options.signingKey = some key

namespace SignedExport

variable {kernel : ReplayKernel Replica Assemblies Saved}

def Signs (run : SignedExport AICommand Curve Surface kernel) (root : Bytes) : Prop :=
  ∃ content, exportContent kernel run.env run.payload run.options = .ok content ∧
    signingRoot (content.header.withClaim content.chunks.length) content.chunks = .ok root

/-- The chunks of the file but SIGN. -/
def contentChunks (run : SignedExport AICommand Curve Surface kernel) : List Chunk :=
  run.exported.chunks.filter (·.index.chunkType ≠ ChunkType.SIGN.asFourcc)

def leaves (run : SignedExport AICommand Curve Surface kernel) : List Bytes :=
  signedLeaves run.exported.header run.contentChunks

theorem spec (run : SignedExport AICommand Curve Surface kernel) :
    normalizedHeaderLeaf run.exported.file.1 = .ok run.exported.header.blanked.image ∧
    run.contentChunks.length ≤ 4 ∧
    run.exported.header.indexEntryCount.toNat = run.contentChunks.length + 1 ∧
    ∀ root, run.Signs root →
      (MerkleTree.fromLeaves run.leaves .sha256).rootHash = some root := by
  obtain ⟨content, bytes, header, h, -⟩ := exportBrepToRos_eq_ok run.ok
  obtain ⟨_, _, -, hheader, -⟩ := h.signed run.sign
  have hchunks : run.contentChunks = content.chunks := h.filter_chunks
  have hcontent : content.chunks.length ≤ 4 := by
    rw [h.built.stored.length_eq]
    exact bytes.length_content_le
  have hcount : run.exported.header.indexEntryCount.toNat = content.chunks.length + 1 := by
    rw [h.header_eq]
    show (UInt32.ofNat run.exported.chunks.length).toNat = _
    rw [h.length_chunks run.sign, UInt32.toNat_ofNat']
    omega
  rw [leaves, hchunks]
  refine ⟨?_, hcontent, hcount, fun root hroot ↦ ?_⟩
  · rw [h.file, fileBytes, List.append_assoc, normalizedHeaderLeaf_image]
  · obtain ⟨content', hcontent', hroot⟩ := hroot
    rw [h.content_ok] at hcontent'
    cases hcontent'
    have hsame : signedLeaves run.exported.header content.chunks =
        signedLeaves (content.header.withClaim content.chunks.length) content.chunks := by
      rw [signedLeaves, signedLeaves, h.blanked_eq run.sign, hheader]
    rw [hsame]
    exact signingRoot_eq_ok.mp hroot

end SignedExport

end

/-! ## A signed file to compute with -/

abbrev oneMessage (message : Bytes) : Ed25519 :=
  { exampleEd25519 with verify := fun _ data _ ↦ data = message }

section

attribute [local instance] exampleCrc32 exampleSha2 exampleSignatures exampleKdf exampleAead
  exampleHist exampleProv exampleSnapshot exampleFloat exampleCurves exampleSurfaces

def exampleRoot : Bytes :=
  letI := exampleJson []
  ((exportContent exampleKernel exampleEnv examplePayload exampleOptions).bind fun content ↦
    signingRoot (content.header.withClaim content.chunks.length) content.chunks).toOption.getD []

private def exampleVerified : Bool :=
  letI := exampleJson []
  letI := oneMessage (sha256 exampleRoot)
  match exportBrepToRos exampleKernel exampleEnv examplePayload exampleOptions with
  | .error _ => false
  | .ok (exported, _) =>
    match auditRosBytes exported.file with
    | .error _ => false
    | .ok a =>
      (match a.signature with
        | .verified _ publicKey => publicKey = toHex (List.Vector.replicate 32 5).toList
        | _ => false) &&
      match a.leaves with
      | .error _ => false
      | .ok leaves => decide (NoSignedCollision leaves (signedLeaves exported.header
          (exported.chunks.filter (·.index.chunkType ≠ ChunkType.SIGN.asFourcc))))

end

end RosheraCad
