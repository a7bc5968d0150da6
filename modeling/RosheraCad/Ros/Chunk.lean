import RosheraCad.Ros.Header

/-!
# Chunks and the chunk index

After the header come the chunks, and after them an index of one entry of 96 bytes for each. An
entry that was written is read back. The byte that says whether a chunk is encrypted is read as a
flag, so an entry is not always written as it was read.
-/

namespace RosheraCad

/-! ## Chunk types -/

abbrev FourCC := ByteVec 4

inductive ChunkType
  | META
  | HIST
  | PROV
  | GEOM
  | TOPO
  | FEAT
  | CONS
  | KEYS
  | BCHN
  | ACLS
  | SIGN
  | CUSTOM (code : FourCC)
  deriving DecidableEq

def ChunkType.asFourcc : ChunkType → FourCC
  | META => ⟨[0x4d, 0x45, 0x54, 0x41], rfl⟩
  | HIST => ⟨[0x48, 0x49, 0x53, 0x54], rfl⟩
  | PROV => ⟨[0x50, 0x52, 0x4f, 0x56], rfl⟩
  | GEOM => ⟨[0x47, 0x45, 0x4f, 0x4d], rfl⟩
  | TOPO => ⟨[0x54, 0x4f, 0x50, 0x4f], rfl⟩
  | FEAT => ⟨[0x46, 0x45, 0x41, 0x54], rfl⟩
  | CONS => ⟨[0x43, 0x4f, 0x4e, 0x53], rfl⟩
  | KEYS => ⟨[0x4b, 0x45, 0x59, 0x53], rfl⟩
  | BCHN => ⟨[0x42, 0x43, 0x48, 0x4e], rfl⟩
  | ACLS => ⟨[0x41, 0x43, 0x4c, 0x53], rfl⟩
  | SIGN => ⟨[0x53, 0x49, 0x47, 0x4e], rfl⟩
  | CUSTOM code => code

inductive CompressionAlgorithm
  | none
  | inherit
  | zstd
  | lzma
  | brotli
  deriving DecidableEq

namespace CompressionAlgorithm

def fromU8 (value : UInt8) : Except RosFileError CompressionAlgorithm :=
  if value = 0 then .ok none
  else if value = 1 then .ok inherit
  else if value = 2 then .ok zstd
  else if value = 3 then .ok lzma
  else if value = 4 then .ok brotli
  else .error (.invalidCompression value)

def toU8 : CompressionAlgorithm → UInt8
  | none => 0
  | inherit => 1
  | zstd => 2
  | lzma => 3
  | brotli => 4

theorem fromU8_toU8 (c : CompressionAlgorithm) : fromU8 c.toU8 = .ok c := by
  rcases c with - | - | - | - | - <;> rfl

end CompressionAlgorithm

/-! ## Index entries -/

def chunkIndexEntrySize : ℕ := 96

def maxChunkSize : UInt64 := 1024 * 1024 * 1024

structure ChunkIndexEntry where
  chunkType : FourCC
  version : UInt32
  offset : UInt64
  uncompressedSize : UInt64
  compressedSize : UInt64
  crc32 : UInt32
  flags : UInt32
  compression : CompressionAlgorithm
  compLevel : UInt8
  reservedComp : ByteVec 6
  encrypted : Bool
  encAlgo : UInt8
  keyId : ByteVec 16
  chunkIv : ByteVec 12
  authTag : ByteVec 2
  accessLevel : UInt32
  ownerId : UInt32
  reserved : ByteVec 8

namespace ChunkIndexEntry

def new (chunkType : FourCC) : ChunkIndexEntry where
  chunkType
  version := 1
  offset := 0
  uncompressedSize := 0
  compressedSize := 0
  crc32 := 0
  flags := 0
  compression := .none
  compLevel := 0
  reservedComp := .replicate 6 0
  encrypted := false
  encAlgo := 0
  keyId := .replicate 16 0
  chunkIv := .replicate 12 0
  authTag := .replicate 2 0
  accessLevel := 0
  ownerId := 0
  reserved := .replicate 8 0

/-- Whether the entry's fields are consistent. -/
def validate (e : ChunkIndexEntry) : Except RosFileError Unit := do
  ensure (e.reserved.toList.all (· == 0) ∧ e.reservedComp.toList.all (· == 0))
    (.invalidChunk e.chunkType.toList e.offset "Reserved bytes must be zero")
  ensure (¬ e.uncompressedSize > maxChunkSize)
    (.invalidChunkSize e.chunkType.toList e.uncompressedSize maxChunkSize)
  ensure (¬ (e.compression ≠ .none ∧ e.compressedSize > 0 ∧ e.compressedSize ≥ e.uncompressedSize))
    (.invalidChunk e.chunkType.toList e.offset
      "Compressed size should be less than uncompressed size")
  ensure (¬ (e.encrypted ∧ e.encAlgo > 3))
    (.invalidChunk e.chunkType.toList e.offset s!"Invalid encryption algorithm: {e.encAlgo}")

def sizeOnDisk (e : ChunkIndexEntry) : UInt64 :=
  if e.compressedSize > 0 then e.compressedSize else e.uncompressedSize

open ByteReader in
def readFrom : ByteReader RosFileError ChunkIndexEntry := do
  let chunkType ← readExact .io 4
  let version ← readU32 .io .littleEndian
  let offset ← readU64 .io .littleEndian
  let uncompressedSize ← readU64 .io .littleEndian
  let compressedSize ← readU64 .io .littleEndian
  let crc32 ← readU32 .io .littleEndian
  let flags ← readU32 .io .littleEndian
  let compression ← readU8 .io
  let compression ← CompressionAlgorithm.fromU8 compression
  let compLevel ← readU8 .io
  let reservedComp ← readExact .io 6
  let encrypted ← readU8 .io
  let encAlgo ← readU8 .io
  let keyId ← readExact .io 16
  let chunkIv ← readExact .io 12
  let authTag ← readExact .io 2
  let accessLevel ← readU32 .io .littleEndian
  let ownerId ← readU32 .io .littleEndian
  let reserved ← readExact .io 8
  let entry := {
    chunkType, version, offset, uncompressedSize, compressedSize, crc32, flags, compression
    compLevel, reservedComp, encrypted := encrypted != 0, encAlgo, keyId, chunkIv, authTag
    accessLevel, ownerId, reserved }
  entry.validate
  return entry

@[irreducible] def toBytes (e : ChunkIndexEntry) : Bytes :=
  e.chunkType.toList ++ (toLe 4 e.version.toNat ++ (toLe 8 e.offset.toNat ++
  (toLe 8 e.uncompressedSize.toNat ++ (toLe 8 e.compressedSize.toNat ++ (toLe 4 e.crc32.toNat ++
  (toLe 4 e.flags.toNat ++ ([e.compression.toU8] ++ ([e.compLevel] ++ (e.reservedComp.toList ++
  ([if e.encrypted then 1 else 0] ++ ([e.encAlgo] ++ (e.keyId.toList ++ (e.chunkIv.toList ++
  (e.authTag.toList ++ (toLe 4 e.accessLevel.toNat ++ (toLe 4 e.ownerId.toNat ++
  e.reserved.toList))))))))))))))))

theorem length_toBytes (e : ChunkIndexEntry) : e.toBytes.length = chunkIndexEntrySize := by
  unfold toBytes
  simp [length_toLe, chunkIndexEntrySize]

variable {e : ChunkIndexEntry}

theorem validate_eq_ok {u : Unit} : e.validate = .ok u ↔
    (e.reserved.toList.all (· == 0) ∧ e.reservedComp.toList.all (· == 0)) ∧
      ¬ e.uncompressedSize > maxChunkSize ∧
      ¬ (e.compression ≠ .none ∧ e.compressedSize > 0 ∧ e.compressedSize ≥ e.uncompressedSize) ∧
      ¬ (e.encrypted ∧ e.encAlgo > 3) := by
  constructor
  · intro h
    obtain ⟨_, h₁, h⟩ := Except.bind_eq_ok.mp h
    obtain ⟨_, h₂, h⟩ := Except.bind_eq_ok.mp h
    obtain ⟨_, h₃, h⟩ := Except.bind_eq_ok.mp h
    exact ⟨ensure_eq_ok.mp h₁, ensure_eq_ok.mp h₂, ensure_eq_ok.mp h₃, ensure_eq_ok.mp h⟩
  · rintro ⟨h₁, h₂, h₃, h₄⟩
    exact Except.bind_eq_ok.mpr ⟨(), ensure_eq_ok.mpr h₁, Except.bind_eq_ok.mpr
      ⟨(), ensure_eq_ok.mpr h₂, Except.bind_eq_ok.mpr
      ⟨(), ensure_eq_ok.mpr h₃, ensure_eq_ok.mpr h₄⟩⟩⟩

open ByteReader in
theorem continues_readFrom (e : ChunkIndexEntry) :
    Continues readFrom e.toBytes (do liftM e.validate; pure e) := by
  unfold toBytes
  refine (reads_readExact _ _).continues ((reads_readU32 _ .littleEndian _).continues
    ((reads_readU64 _ .littleEndian _).continues ((reads_readU64 _ .littleEndian _).continues
    ((reads_readU64 _ .littleEndian _).continues ((reads_readU32 _ .littleEndian _).continues
    ((reads_readU32 _ .littleEndian _).continues ((reads_readU8 _ _).continues ?_)))))))
  refine Continues.check (CompressionAlgorithm.fromU8_toU8 _) ?_
  refine (reads_readU8 _ _).continues ((reads_readExact _ _).continues
    ((reads_readU8 _ _).continues ((reads_readU8 _ _).continues ((reads_readExact _ _).continues
    ((reads_readExact _ _).continues ((reads_readExact _ _).continues
    ((reads_readU32 _ .littleEndian _).continues
    ((reads_readU32 _ .littleEndian _).continues ?_))))))))
  have hflag : ((if e.encrypted then 1 else 0 : UInt8) != 0) = e.encrypted := by
    rcases e.encrypted with - | - <;> rfl
  rw [hflag, ← List.append_nil e.reserved.toList]
  exact (reads_readExact _ _).continues fun _ ↦ rfl

open ByteReader in
theorem readFrom_toBytes_eq_ok {e e' : ChunkIndexEntry} {rest rest' : Bytes} :
    readFrom (e.toBytes ++ rest) = .ok (e', rest') ↔
      e.validate = .ok () ∧ e' = e ∧ rest' = rest := by
  rw [continues_readFrom e rest, bind_eq_ok]
  constructor
  · rintro ⟨_, mid, hcheck, h⟩
    obtain ⟨hvalid, rfl⟩ := lift_eq_ok.mp hcheck
    cases h
    exact ⟨hvalid, rfl, rfl⟩
  · rintro ⟨hvalid, rfl, rfl⟩
    exact ⟨(), rest', lift_eq_ok.mpr ⟨hvalid, rfl⟩, rfl⟩

open ByteReader in
theorem reads_readFrom (h : e.validate = .ok ()) :
    Reads readFrom e.toBytes e := fun _ ↦ readFrom_toBytes_eq_ok.mpr ⟨h, rfl, rfl⟩

open ByteReader in
theorem validate_of_readFrom {bytes rest : Bytes}
    (h : readFrom bytes = .ok (e, rest)) : e.validate = .ok () := by
  -- the fields are read first
  iterate 19 obtain ⟨_, _, _, h⟩ := bind_eq_ok.mp h
  obtain ⟨_, _, hcheck, h⟩ := bind_eq_ok.mp h
  have hvalid := (lift_eq_ok.mp hcheck).1
  cases h
  exact hvalid

section

variable [Crc32]

def verifyCrc (e : ChunkIndexEntry) (data : Bytes) : Bool := Crc32.crc32 data == e.crc32

end

end ChunkIndexEntry

structure Chunk where
  index : ChunkIndexEntry
  data : Bytes

def Chunk.new [Crc32] (chunkType : ChunkType) (data : Bytes) : Chunk where
  index :=
    { ChunkIndexEntry.new chunkType.asFourcc with
      uncompressedSize := UInt64.ofNat data.length
      crc32 := Crc32.crc32 data }
  data

/-! ## The chunk table -/

/-- The entries of the index. -/
structure ChunkTable where
  entries : List ChunkIndexEntry

namespace ChunkTable

def findByType (table : ChunkTable) (chunkType : ChunkType) : Option ChunkIndexEntry :=
  table.entries.find? (·.chunkType = chunkType.asFourcc)

def readEntries (offset : UInt64) : ℕ → ℕ → ByteReader RosFileError (List ChunkIndexEntry)
  | 0, _ => pure []
  | count + 1, i => do
    let entry ← fun bytes ↦ (ChunkIndexEntry.readFrom bytes).mapError
      (.failedToReadEntry (offset + UInt64.ofNat (i * chunkIndexEntrySize)) i)
    return entry :: (← readEntries offset count (i + 1))

def readFrom (file : Bytes) (offset : UInt64) (count : UInt32) :
    Except RosFileError ChunkTable := do
  let entries ← (readEntries offset count.toNat 0).run (file.drop offset.toNat)
  return ⟨entries.1⟩

/-- The checks of neighbours in a list sorted by offset, without a check for overflow. -/
def validateOrder : List ChunkIndexEntry → Except RosFileError Unit
  | prev :: curr :: entries => do
    let prevEnd := prev.offset + prev.sizeOnDisk
    ensure (¬ prevEnd > curr.offset)
      (.invalidChunk curr.chunkType.toList curr.offset
        s!"Overlaps with previous chunk ending at {prevEnd}")
    validateOrder (curr :: entries)
  | _ => .ok ()

/-- The required chunks are there, each entry is consistent, and no chunk reaches into the next. -/
def validate (table : ChunkTable) : Except RosFileError Unit := do
  [ChunkType.META, .HIST, .PROV].forM fun required ↦
    ensure (table.findByType required).isSome (.missingRequiredChunk required.asFourcc.toList)
  table.entries.zipIdx.forM fun (entry, i) ↦ entry.validate.mapError (.invalidChunkAt i)
  validateOrder (table.entries.insertionSort (·.offset ≤ ·.offset))

/-! ## What was read -/

open ByteReader in
theorem reads_readEntries {entries : List ChunkIndexEntry}
    (h : ∀ e ∈ entries, e.validate = .ok ()) (offset : UInt64) (i : ℕ) :
    Reads (readEntries offset entries.length i) (entries.flatMap (·.toBytes)) entries := by
  induction entries generalizing i with
  | nil => exact Reads.pure []
  | cons e entries ih =>
    rw [List.forall_mem_cons] at h
    rw [List.flatMap_cons, List.length_cons]
    refine Reads.bind (a := e) (fun rest ↦ ?_) (ih h.2 (i + 1)).last
    exact Except.mapError_eq_ok.mpr (ChunkIndexEntry.reads_readFrom h.1 rest)

open ByteReader in
theorem validate_of_readEntries {entries : List ChunkIndexEntry} {offset : UInt64} {i : ℕ}
    {rest rest' : Bytes} {out : List ChunkIndexEntry}
    (h : readEntries offset entries.length i (entries.flatMap (·.toBytes) ++ rest) =
      .ok (out, rest')) : ∀ e ∈ entries, e.validate = .ok () := by
  induction entries generalizing i out rest' with
  | nil => exact nofun
  | cons e entries ih =>
    rw [List.flatMap_cons, List.length_cons, List.append_assoc] at h
    obtain ⟨e', mid, he, h⟩ := bind_eq_ok.mp h
    obtain ⟨hvalid, rfl, rfl⟩ :=
      ChunkIndexEntry.readFrom_toBytes_eq_ok.mp (Except.mapError_eq_ok.mp he)
    obtain ⟨tail, mid', htail, -⟩ := bind_eq_ok.mp h
    exact List.forall_mem_cons.mpr ⟨hvalid, ih htail⟩

open ByteReader in
theorem readEntries_eq_ok {offset : UInt64} {count i : ℕ} {bytes rest : Bytes}
    {entries : List ChunkIndexEntry} (h : readEntries offset count i bytes = .ok (entries, rest)) :
    entries.length = count ∧ ∀ e ∈ entries, e.validate = .ok () := by
  induction count generalizing i bytes entries with
  | zero =>
    cases h
    exact ⟨rfl, nofun⟩
  | succ count ih =>
    obtain ⟨e, mid, he, h⟩ := bind_eq_ok.mp h
    obtain ⟨tail, mid', htail, h⟩ := bind_eq_ok.mp h
    cases h
    obtain ⟨hlen, hvalid⟩ := ih htail
    refine ⟨congrArg Nat.succ hlen, List.forall_mem_cons.mpr ⟨?_, hvalid⟩⟩
    exact ChunkIndexEntry.validate_of_readFrom (Except.mapError_eq_ok.mp he)

variable {table : ChunkTable}

theorem readFrom_eq_ok {file : Bytes} {offset : UInt64} {count : UInt32} :
    readFrom file offset count = .ok table ↔ ∃ rest,
      readEntries offset count.toNat 0 (file.drop offset.toNat) = .ok (table.entries, rest) := by
  constructor
  · intro h
    obtain ⟨⟨entries, rest⟩, hread, h⟩ := Except.bind_eq_ok.mp h
    cases h
    exact ⟨rest, hread⟩
  · rintro ⟨rest, hread⟩
    exact Except.bind_eq_ok.mpr ⟨_, hread, rfl⟩

theorem validateOrder_eq_ok {entries : List ChunkIndexEntry} {u : Unit} :
    validateOrder entries = .ok u ↔
      entries.IsChain fun prev curr ↦ ¬ prev.offset + prev.sizeOnDisk > curr.offset := by
  induction entries with
  | nil => exact iff_of_true rfl .nil
  | cons prev entries ih =>
    rcases entries with - | ⟨curr, entries⟩
    · exact iff_of_true rfl (.singleton prev)
    · rw [List.isChain_cons_cons, ← ih, validateOrder, Except.bind_eq_ok]
      constructor
      · rintro ⟨_, hstep, hrest⟩
        exact ⟨ensure_eq_ok.mp hstep, hrest⟩
      · rintro ⟨hstep, hrest⟩
        exact ⟨(), ensure_eq_ok.mpr hstep, hrest⟩

theorem validate_eq_ok {u : Unit} : table.validate = .ok u ↔
    (∀ required ∈ [ChunkType.META, .HIST, .PROV], (table.findByType required).isSome) ∧
      (∀ e ∈ table.entries, e.validate = .ok ()) ∧
      (table.entries.insertionSort (·.offset ≤ ·.offset)).IsChain
        fun prev curr ↦ ¬ prev.offset + prev.sizeOnDisk > curr.offset := by
  have heach : (∀ p ∈ table.entries.zipIdx,
      p.1.validate.mapError (RosFileError.invalidChunkAt p.2) = .ok ()) ↔
        ∀ e ∈ table.entries, e.validate = .ok () := by
    constructor
    · intro h e he
      obtain ⟨i, hi⟩ := List.mem_iff_getElem?.mp he
      exact Except.mapError_eq_ok.mp (h (e, i) (List.mk_mem_zipIdx_iff_getElem?.mpr hi))
    · intro h p hp
      exact Except.mapError_eq_ok.mpr (h p.1 (List.fst_mem_of_mem_zipIdx hp))
  rw [validate, Except.bind_eq_ok]
  constructor
  · rintro ⟨_, hrequired, h⟩
    obtain ⟨_, hentries, horder⟩ := Except.bind_eq_ok.mp h
    refine ⟨fun required hmem ↦ ?_, heach.mp (Except.forM_eq_ok.mp hentries), ?_⟩
    · exact ensure_eq_ok.mp (Except.forM_eq_ok.mp hrequired required hmem)
    · exact validateOrder_eq_ok.mp horder
  · rintro ⟨hrequired, hentries, horder⟩
    refine ⟨(), Except.forM_eq_ok.mpr fun required hmem ↦ ?_, Except.bind_eq_ok.mpr ⟨(), ?_, ?_⟩⟩
    · exact ensure_eq_ok.mpr (hrequired required hmem)
    · exact Except.forM_eq_ok.mpr (heach.mpr hentries)
    · exact validateOrder_eq_ok.mpr horder

theorem length_of_readFrom {file : Bytes} {offset : UInt64} {count : UInt32}
    (h : readFrom file offset count = .ok table) : table.entries.length = count.toNat := by
  obtain ⟨rest, hread⟩ := readFrom_eq_ok.mp h
  exact (readEntries_eq_ok hread).1

theorem ne_nil_of_validate (h : table.validate = .ok ()) :
    table.entries ≠ [] := by
  intro hnil
  have hmeta := (validate_eq_ok.mp h).1 .META List.mem_cons_self
  rw [findByType, hnil] at hmeta
  cases hmeta

end ChunkTable

end RosheraCad
