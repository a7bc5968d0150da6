import RosheraCad.Ros.Import

/-!
# Authenticated content

The content of a file that declares encryption should be what authenticated decryption yields. But a
chunk whose entry is not marked as encrypted is taken as it stands, and so is one that is marked but
names no algorithm.
-/

namespace RosheraCad

/-- The chunks an import takes its content from. -/
def contentTypes : List ChunkType := [.HIST, .PROV, .GEOM]

def ChunkIndexEntry.NamesCipher (entry : ChunkIndexEntry) : Prop :=
  entry.encrypted ∧ (entry.encAlgo = 1 ∨ entry.encAlgo = 2)

variable {password : Option String} {chunkType : ChunkType} {entry : ChunkIndexEntry}
  {a : RosAudited}

namespace RosAudited

variable [Kdf] [Aead]

def payloadBytes (a : RosAudited) (password : Option String) (chunkType : ChunkType) :
    Except ExportError Bytes := do
  let keySet ← deriveKeySet a.header password
  readChunkBytes a.file.1 a.chunkTable chunkType keySet a.header.fileIv (.of a.signature)

/-- The bytes an import deserializes are the authenticated decryption of the chunk's raw bytes. -/
def Authenticated (a : RosAudited) (password : Option String) (chunkType : ChunkType) : Prop :=
  ∃ keySet entry raw cipher key data,
    deriveKeySet a.header password = .ok (some keySet) ∧
    a.chunkTable.findByType chunkType = some entry ∧
    rawChunkBytes a.file.1 entry = .ok raw ∧
    keySet.getChunkKey entry.chunkType = some key ∧
    Aead.decrypt cipher key (ChunkEncryptor.generateChunkIv a.header.fileIv entry.chunkType
      (a.chunkTable.position entry.chunkType)) [] raw = some data ∧
    a.payloadBytes password chunkType = .ok data

theorem payloadBytes_cases {keySet : Option KeySet} {raw data : Bytes}
    (hkeys : deriveKeySet a.header password = .ok keySet)
    (hentry : a.chunkTable.findByType chunkType = some entry)
    (hraw : rawChunkBytes a.file.1 entry = .ok raw)
    (hdata : a.payloadBytes password chunkType = .ok data) [LawfulAead] :
    (entry.NamesCipher ∧ ∃ keys cipher key, keySet = some keys ∧
      keys.getChunkKey entry.chunkType = some key ∧
      Aead.decrypt cipher key (ChunkEncryptor.generateChunkIv a.header.fileIv entry.chunkType
        (a.chunkTable.position entry.chunkType)) [] raw = some data) ∨
      (¬ entry.NamesCipher ∧ data = raw) := by
  obtain ⟨keySet', hkeys', hdata⟩ := Except.bind_eq_ok.mp hdata
  rw [hkeys] at hkeys'
  cases hkeys'
  rw [readChunkBytes_eq a.file.2 hentry hraw] at hdata
  by_cases hencrypted : entry.encrypted
  · rw [if_pos hencrypted] at hdata
    obtain ⟨keys, hsome, hdata⟩ := Except.bind_eq_ok.mp hdata
    obtain ⟨algorithm, halgorithm, hdata⟩ := Except.bind_eq_ok.mp hdata
    have hid := EncryptionAlgorithm.fromId_eq_ok.mp (Except.mapError_eq_ok.mp halgorithm)
    have hdata := Except.mapError_eq_ok.mp hdata
    rcases algorithm with - | cipher
    · -- marked as encrypted, but with no algorithm
      refine .inr ⟨fun hnames ↦ ?_, (Except.ok.inj hdata).symm⟩
      rw [ChunkIndexEntry.NamesCipher, hid] at hnames
      exact absurd hnames.2 (by decide)
    · obtain ⟨key, hkey, hdecrypt⟩ := ChunkEncryptor.decryptChunk_aead_eq_ok.mp hdata
      refine .inl ⟨⟨hencrypted, ?_⟩, keys, cipher, key, Except.ofOption_eq_ok.mp hsome, hkey,
        hdecrypt⟩
      rw [hid]
      rcases cipher with - | -
      · exact .inl rfl
      · exact .inr rfl
  · rw [if_neg hencrypted] at hdata
    exact .inr ⟨fun hnames ↦ hencrypted hnames.1, (Except.ok.inj hdata).symm⟩

/-- **A chunk that was read is authenticated exactly when its entry names a cipher**, as decryption
shortens. -/
theorem authenticated_iff_namesCipher {keySet : KeySet} {raw data : Bytes}
    (hkeys : deriveKeySet a.header password = .ok (some keySet))
    (hentry : a.chunkTable.findByType chunkType = some entry)
    (hraw : rawChunkBytes a.file.1 entry = .ok raw)
    (hdata : a.payloadBytes password chunkType = .ok data) [LawfulAead] :
    a.Authenticated password chunkType ↔ entry.NamesCipher := by
  rcases payloadBytes_cases hkeys hentry hraw hdata with h | ⟨hplain, hsame⟩
  · obtain ⟨hnames, keys, cipher, key, hsome, hkey, hdecrypt⟩ := h
    cases hsome
    exact iff_of_true ⟨keySet, entry, raw, cipher, key, data, hkeys, hentry, hraw, hkey, hdecrypt,
      hdata⟩ hnames
  · refine iff_of_false (fun hauth ↦ ?_) hplain
    obtain ⟨_, _, raw', cipher, key, data', -, hentry', hraw', -, hdecrypt, hdata'⟩ := hauth
    rw [hentry] at hentry'
    cases hentry'
    rw [hraw] at hraw'
    cases hraw'
    rw [hdata] at hdata'
    cases hdata'
    have hlen := LawfulAead.length_decrypt hdecrypt
    rw [hsame] at hlen
    omega

end RosAudited

section

variable [Crc32] [Sha2] [Ed25519] [Kdf] [Aead] [SerdeJson] [MessagePack SignatureChunk]
  [MessagePack HistChunk] {AICommand CurveData SurfaceData : Type}
  [MessagePack (ProvChunk AICommand)] [MessagePack (BRepSnapshot CurveData SurfaceData)]

theorem exists_payloadBytes_of_importRos {buffer : Buffer}
    {i : RosImport AICommand CurveData SurfaceData}
    (himport : importRos buffer password = .ok i) (ha : auditRosBytes buffer = .ok a)
    (hcontent : chunkType ∈ contentTypes)
    (hpresent : (a.chunkTable.findByType chunkType).isSome) :
    ∃ data, a.payloadBytes password chunkType = .ok data := by
  obtain ⟨a', keySet, hist, ha', hkeys, hhist, hprov, -, hsnapshot, -⟩ := importRos_eq_ok.mp himport
  rw [ha] at ha'
  cases ha'
  have hread {α : Type} [MessagePack α] {t : ChunkType} {x : α}
      (h : readChunkPayload α a.file.1 a.chunkTable t keySet a.header.fileIv (.of a.signature) =
        .ok x) : ∃ data, a.payloadBytes password t = .ok data := by
    obtain ⟨data, hdata, -⟩ := Except.bind_eq_ok.mp h
    exact ⟨data, Except.bind_eq_ok.mpr ⟨keySet, hkeys, hdata⟩⟩
  rw [contentTypes, List.mem_cons, List.mem_cons, List.mem_singleton] at hcontent
  rcases hcontent with rfl | rfl | rfl
  · exact hread hhist
  · exact hread hprov
  · rcases hs : i.snapshot with - | snapshot
    · rw [hs, readSnapshot_eq_none] at hsnapshot
      rw [hsnapshot] at hpresent
      cases hpresent
    · rw [hs, readSnapshot_eq_some] at hsnapshot
      exact hread hsnapshot.2

theorem authenticated_iff_of_importRos [LawfulAead] {buffer : Buffer}
    {i : RosImport AICommand CurveData SurfaceData}
    (himport : importRos buffer password = .ok i) (ha : auditRosBytes buffer = .ok a)
    (hencrypted : a.header.featureFlags.encrypted)
    (hcontent : chunkType ∈ contentTypes)
    (hentry : a.chunkTable.findByType chunkType = some entry) :
    a.Authenticated password chunkType ↔ entry.NamesCipher := by
  obtain ⟨a', keySet, -, ha', hkeys, -⟩ := importRos_eq_ok.mp himport
  rw [ha] at ha'
  cases ha'
  obtain ⟨keys, rfl⟩ := exists_keys_of_deriveKeySet hencrypted hkeys
  have hpresent : (a.chunkTable.findByType chunkType).isSome := by
    rw [hentry]
    rfl
  obtain ⟨data, hdata⟩ := exists_payloadBytes_of_importRos himport ha hcontent hpresent
  obtain ⟨raw, hraw, -⟩ :=
    (auditRosBytes_eq_ok.mp ha).2.crc entry (List.mem_of_find?_eq_some hentry)
  exact RosAudited.authenticated_iff_namesCipher hkeys hentry hraw hdata

end

/-! ## A substituted file -/

def substitutedHeader : FileHeader :=
  { FileHeader.new 0 (.replicate 16 7) with
    encryptionAlgo := 1
    kdfAlgo := kdfAlgoArgon2idFileBound
    kdfIterations := rosheraKdfTimeCost
    featureFlags := FeatureFlags.withEncryption ⟨0⟩
    aiChunkOffset := 131 }

def substitutedFile : Buffer :=
  ⟨plainFile substitutedHeader, by rw [length_plainFile]; decide⟩

section

attribute [local instance] exampleCrc32 exampleSha2 exampleEd25519 exampleSignatures exampleKdf
  exampleAead exampleHist exampleProv exampleSnapshot

private theorem importRos_substitutedFile :
    letI := exampleJson [.object []]
    ∃ (i : RosImport Unit Unit Unit) (a : RosAudited),
      importRos substitutedFile (some "pw") = .ok i ∧ auditRosBytes substitutedFile = .ok a ∧
      a.header.featureFlags.encrypted ∧
      ∃ entry, a.chunkTable.findByType .HIST = some entry ∧ ¬ entry.encrypted := by
  let := exampleJson [.object []]
  have hok : (importRos substitutedFile (some "pw") :
      Except ExportError (RosImport Unit Unit Unit)).toBool := by decide +kernel
  rcases hi : (importRos substitutedFile (some "pw") :
      Except ExportError (RosImport Unit Unit Unit)) with err | i
  · rw [hi] at hok
    cases hok
  obtain ⟨a, -, -, ha, -⟩ := importRos_eq_ok.mp hi
  have hheader : ((auditRosBytes substitutedFile).toOption.map fun a ↦
      (a.header.featureFlags.encrypted, (a.chunkTable.findByType .HIST).map (·.encrypted))) =
        some (true, some false) := by decide +kernel
  rw [ha, Except.toOption, Option.map_some, Option.some_inj, Prod.mk.injEq] at hheader
  obtain ⟨entry, hentry, hplain⟩ := Option.map_eq_some_iff.mp hheader.2
  exact ⟨i, a, rfl, ha, hheader.1, entry, hentry, by rw [hplain]; exact Bool.false_ne_true⟩

end

end RosheraCad
