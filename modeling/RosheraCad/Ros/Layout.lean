import RosheraCad.Ros.Audit
import Mathlib.Data.List.Chain

/-!
# Laying out a file

A file is written as its header, its chunks one after another, and their index entries. A file laid
out in this way passes the audit, when its chunks are consistent and the signature verdict can be
computed.
-/

namespace RosheraCad

def layOut : UInt64 → List Chunk → List Chunk
  | _, [] => []
  | currentOffset, chunk :: chunks =>
    { chunk with index := { chunk.index with offset := currentOffset } } ::
      layOut (currentOffset + UInt64.ofNat chunk.data.length) chunks

def endOffset (currentOffset : UInt64) (chunks : List Chunk) : UInt64 :=
  chunks.foldl (fun offset chunk ↦ offset + UInt64.ofNat chunk.data.length) currentOffset

def FileHeader.withLayout (header : FileHeader) (chunks : List Chunk) : FileHeader :=
  let indexOffset := endOffset (UInt64.ofNat headerSize) chunks
  { header with
    indexOffset
    indexEntryCount := UInt32.ofNat chunks.length
    fileSize := indexOffset + UInt64.ofNat (chunks.length * chunkIndexEntrySize) }

def fileBytes (headerImage : Bytes) (chunks : List Chunk) : Bytes :=
  headerImage ++ chunks.flatMap (·.data) ++ chunks.flatMap (·.index.toBytes)

theorem layOut_append (offset : UInt64) (chunks chunks' : List Chunk) :
    layOut offset (chunks ++ chunks') =
      layOut offset chunks ++ layOut (endOffset offset chunks) chunks' := by
  induction chunks generalizing offset with
  | nil => rfl
  | cons chunk chunks ih =>
    rw [List.cons_append, layOut, ih]
    rfl

theorem layOut_layOut (offset offset' : UInt64) (chunks : List Chunk) :
    layOut offset (layOut offset' chunks) = layOut offset chunks := by
  induction chunks generalizing offset offset' with
  | nil => rfl
  | cons chunk chunks ih =>
    rw [layOut, layOut, ih]
    rfl

theorem length_layOut (offset : UInt64) (chunks : List Chunk) :
    (layOut offset chunks).length = chunks.length := by
  induction chunks generalizing offset with
  | nil => rfl
  | cons chunk chunks ih => rw [layOut, List.length_cons, ih, List.length_cons]

/-! ## Places -/

def dataLength (chunks : List Chunk) : ℕ := (chunks.map (·.data.length)).sum

theorem length_flatMap_data (chunks : List Chunk) :
    (chunks.flatMap (·.data)).length = dataLength chunks := by
  rw [List.length_flatMap, dataLength]

theorem length_flatMap_index (chunks : List Chunk) :
    (chunks.flatMap (·.index.toBytes)).length = chunks.length * chunkIndexEntrySize := by
  rw [List.length_flatMap]
  simp only [ChunkIndexEntry.length_toBytes]
  rw [List.map_const', List.sum_replicate_nat]

theorem length_fileBytes {image : Bytes} (himage : image.length = headerSize)
    (chunks : List Chunk) : (fileBytes image chunks).length =
      headerSize + dataLength chunks + chunks.length * chunkIndexEntrySize := by
  rw [fileBytes, List.length_append, List.length_append, himage, length_flatMap_data,
    length_flatMap_index]

def Placed : ℕ → List Chunk → Prop
  | _, [] => True
  | offset, chunk :: chunks =>
    chunk.index.offset.toNat = offset ∧ Placed (offset + chunk.data.length) chunks

theorem toNat_add_length {offset : UInt64} {n : ℕ} (h : offset.toNat + n < 2 ^ 64) :
    (offset + UInt64.ofNat n).toNat = offset.toNat + n := by
  rw [UInt64.toNat_add, UInt64.toNat_ofNat']
  omega

variable {chunks : List Chunk} {chunk : Chunk}

theorem placed_layOut {offset : UInt64} (h : offset.toNat + dataLength chunks < 2 ^ 64) :
    Placed offset.toNat (layOut offset chunks) := by
  induction chunks generalizing offset with
  | nil => trivial
  | cons chunk chunks ih =>
    rw [dataLength, List.map_cons, List.sum_cons, ← dataLength] at h
    have hnext : (offset + UInt64.ofNat chunk.data.length).toNat =
        offset.toNat + chunk.data.length := toNat_add_length (by omega)
    refine ⟨rfl, ?_⟩
    have hrest : Placed (offset + UInt64.ofNat chunk.data.length).toNat
        (layOut (offset + UInt64.ofNat chunk.data.length) chunks) := ih (by omega)
    rwa [hnext] at hrest

theorem toNat_endOffset {offset : UInt64} (h : offset.toNat + dataLength chunks < 2 ^ 64) :
    (endOffset offset chunks).toNat = offset.toNat + dataLength chunks := by
  induction chunks generalizing offset with
  | nil => rfl
  | cons chunk chunks ih =>
    rw [dataLength, List.map_cons, List.sum_cons, ← dataLength] at h ⊢
    have hnext : (offset + UInt64.ofNat chunk.data.length).toNat =
        offset.toNat + chunk.data.length := toNat_add_length (by omega)
    rw [endOffset, List.foldl_cons, ← endOffset, ih (by omega), hnext]
    omega

theorem Placed.exists_append {offset : ℕ} (h : Placed offset chunks)
    (hchunk : chunk ∈ chunks) : ∃ before after,
      chunks.flatMap (·.data) = before ++ chunk.data ++ after ∧
        chunk.index.offset.toNat = offset + before.length := by
  induction chunks generalizing offset with
  | nil => cases hchunk
  | cons c chunks ih =>
    obtain ⟨hoffset, hrest⟩ := h
    rw [List.flatMap_cons]
    rcases List.mem_cons.mp hchunk with rfl | hmem
    · exact ⟨[], _, rfl, hoffset⟩
    · obtain ⟨before, after, hdata, hplace⟩ := ih hrest hmem
      refine ⟨c.data ++ before, after, by rw [hdata]; simp only [List.append_assoc], ?_⟩
      rw [hplace, List.length_append]
      omega

theorem exists_append_of_mem_zipIdx {i k : ℕ} (h : (chunk, i) ∈ chunks.zipIdx k) : ∃ before after,
      chunks.flatMap (·.index.toBytes) = before ++ chunk.index.toBytes ++ after ∧
        i * chunkIndexEntrySize = k * chunkIndexEntrySize + before.length := by
  induction chunks generalizing k with
  | nil => cases h
  | cons c chunks ih =>
    rw [List.zipIdx_cons, List.mem_cons] at h
    rw [List.flatMap_cons]
    rcases h with h | h
    · obtain ⟨rfl, rfl⟩ := Prod.mk.inj h
      exact ⟨[], _, rfl, rfl⟩
    · obtain ⟨before, after, hindex, hplace⟩ := ih h
      refine ⟨c.index.toBytes ++ before, after, by rw [hindex]; simp only [List.append_assoc], ?_⟩
      rw [hplace, List.length_append, ChunkIndexEntry.length_toBytes, Nat.succ_mul]
      omega

/-! ## Passing the audit -/

section

variable [Crc32]

/-- The entry of a chunk describes its data. -/
structure Chunk.Sound (chunk : Chunk) : Prop where
  valid : chunk.index.validate = .ok ()
  size : chunk.index.sizeOnDisk.toNat = chunk.data.length
  uncompressed : chunk.index.compressedSize = 0 ∧ chunk.index.compression = .none
  crc : chunk.index.verifyCrc chunk.data

omit [Crc32] in
theorem Placed.pairwise {offset : ℕ} (h : Placed offset chunks)
    (hsize : ∀ c ∈ chunks, c.index.sizeOnDisk.toNat = c.data.length) :
    (chunks.map (·.index)).Pairwise (fun e e' ↦
      e.offset.toNat + e.sizeOnDisk.toNat ≤ e'.offset.toNat) ∧
    ∀ c ∈ chunks, offset ≤ c.index.offset.toNat ∧
      c.index.offset.toNat + c.index.sizeOnDisk.toNat ≤ offset + dataLength chunks := by
  induction chunks generalizing offset with
  | nil => exact ⟨.nil, nofun⟩
  | cons c chunks ih =>
    obtain ⟨hoffset, hrest⟩ := h
    rw [List.forall_mem_cons] at hsize
    obtain ⟨hpairwise, hbounds⟩ := ih hrest hsize.2
    rw [List.map_cons, List.pairwise_cons, List.forall_mem_cons, dataLength, List.map_cons,
      List.sum_cons, ← dataLength]
    refine ⟨⟨fun e he ↦ ?_, hpairwise⟩, ⟨by omega, by rw [hsize.1]; omega⟩, fun d hd ↦ ?_⟩
    · obtain ⟨d, hd, rfl⟩ := List.mem_map.mp he
      rw [hsize.1, hoffset]
      exact (hbounds d hd).1
    · have hd := hbounds d hd
      omega

theorem validate_of_placed {offset : ℕ} (h : Placed offset chunks)
    (hsound : ∀ c ∈ chunks, c.Sound) (hend : offset + dataLength chunks < 2 ^ 64)
    (hrequired : ∀ required ∈ [ChunkType.META, .HIST, .PROV],
      ((⟨chunks.map (·.index)⟩ : ChunkTable).findByType required).isSome) :
    (⟨chunks.map (·.index)⟩ : ChunkTable).validate = .ok () := by
  obtain ⟨hpairwise, hbounds⟩ := h.pairwise fun c hc ↦ (hsound c hc).size
  have hvalid : ∀ e ∈ chunks.map (·.index), e.validate = .ok () := by
    intro e he
    obtain ⟨c, hc, rfl⟩ := List.mem_map.mp he
    exact (hsound c hc).valid
  refine ChunkTable.validate_eq_ok.mpr ⟨hrequired, hvalid, ?_⟩
  -- the chunks are in order already
  have hsorted : (chunks.map (·.index)).Pairwise (·.offset ≤ ·.offset) := by
    refine hpairwise.imp fun {e e'} hle ↦ ?_
    rw [UInt64.le_iff_toNat_le]
    exact (Nat.le_add_right _ _).trans hle
  rw [hsorted.insertionSort_eq]
  refine (hpairwise.isChain).imp_of_mem_imp fun e e' he _ hle ↦ ?_
  obtain ⟨c, hc, rfl⟩ := List.mem_map.mp he
  have hc := (hbounds c hc).2
  rw [gt_iff_lt, UInt64.lt_iff_toNat_lt, UInt64.toNat_add, Nat.mod_eq_of_lt (by omega)]
  omega

omit [Crc32] in
theorem sum_sizeOnDisk (hsize : ∀ c ∈ chunks, c.index.sizeOnDisk.toNat = c.data.length) :
    ((chunks.map (·.index)).map (·.sizeOnDisk.toNat)).sum = dataLength chunks := by
  rw [List.map_map, dataLength]
  exact congrArg List.sum (List.map_congr_left hsize)

structure LaidOut (header : FileHeader) (chunks : List Chunk) (file : Buffer) : Prop where
  valid : header.validate = .ok ()
  little : header.endianness = .little
  placed : Placed headerSize chunks
  sound : ∀ c ∈ chunks, c.Sound
  required : ∀ required ∈ [ChunkType.META, .HIST, .PROV],
    ((⟨chunks.map (·.index)⟩ : ChunkTable).findByType required).isSome
  count : header.indexEntryCount.toNat = chunks.length
  offset : header.indexOffset.toNat = headerSize + dataLength chunks
  size : header.fileSize.toNat = file.1.length
  bytes : file.1 = fileBytes header.sealed.image chunks

namespace LaidOut

variable {header : FileHeader} {chunks : List Chunk} {file : Buffer}

section

variable (h : LaidOut header chunks file)

include h

theorem rawChunkBytes_eq (hchunk : chunk ∈ chunks) :
    rawChunkBytes file.1 chunk.index = .ok chunk.data := by
  obtain ⟨before, after, hdata, hplace⟩ := h.placed.exists_append hchunk
  refine (rawChunkBytes_eq_ok file.2).mpr (slice_eq_some.mpr ⟨(h.sound chunk hchunk).size.symm,
    header.sealed.image ++ before, after ++ chunks.flatMap (·.index.toBytes), ?_, ?_⟩)
  · rw [List.length_append, FileHeader.length_image, hplace]
  · rw [h.bytes, fileBytes, hdata]
    simp only [List.append_assoc]

theorem audited {verdict : RosSignatureVerdict} [Sha2] [Ed25519] [MessagePack SignatureChunk]
    (hverdict : signatureVerdict file.1 header.sealed ⟨chunks.map (·.index)⟩ = .ok verdict) :
    Audited ⟨file, header.sealed, ⟨chunks.map (·.index)⟩, verdict⟩ := by
  have hlen := length_fileBytes header.sealed.length_image chunks
  rw [← h.bytes] at hlen
  have hfile := file.2
  obtain ⟨hpairwise, hbounds⟩ := h.placed.pairwise fun c hc ↦ (h.sound c hc).size
  have hoffset : header.sealed.indexOffset.toNat = headerSize + dataLength chunks := h.offset
  refine ⟨?_, h.valid, h.little, h.size, ?_, ?_, ?_, ?_, ?_, ?_, hverdict, ?_⟩
  · obtain ⟨_, hsupported, -⟩ := Except.bind_eq_ok.mp h.valid
    obtain ⟨_, hmagic, -⟩ := Except.bind_eq_ok.mp hsupported
    refine FileHeader.readFrom_eq_ok.mpr ⟨ensure_eq_ok.mp hmagic, rfl,
      chunks.flatMap (·.data) ++ chunks.flatMap (·.index.toBytes), ?_⟩
    rw [h.bytes, fileBytes, List.append_assoc]
  · -- the index starts where the chunks end
    have hdrop : file.1.drop header.sealed.indexOffset.toNat =
        (chunks.map (·.index)).flatMap (·.toBytes) ++ [] := by
      rw [h.bytes, fileBytes, hoffset, List.append_nil, List.flatMap_map]
      refine List.drop_left' ?_
      rw [List.length_append, FileHeader.length_image, length_flatMap_data]
    have hcount : header.sealed.indexEntryCount.toNat = (chunks.map (·.index)).length := by
      rw [List.length_map]
      exact h.count
    refine ChunkTable.readFrom_eq_ok.mpr ⟨[], ?_⟩
    rw [hdrop, hcount]
    refine ChunkTable.reads_readEntries (fun e he ↦ ?_) _ _ _
    obtain ⟨c, hc, rfl⟩ := List.mem_map.mp he
    exact (h.sound c hc).valid
  · exact validate_of_placed h.placed h.sound (by omega) h.required
  · intro e he
    obtain ⟨c, hc, rfl⟩ := List.mem_map.mp he
    exact (h.sound c hc).uncompressed
  · intro e he
    obtain ⟨c, hc, rfl⟩ := List.mem_map.mp he
    rw [hoffset]
    exact hbounds c hc
  · -- the chunks end where the index starts
    rw [hoffset, sum_sizeOnDisk fun c hc ↦ (h.sound c hc).size]
  · rw [hlen, hoffset, List.length_map]
  · intro e he
    obtain ⟨c, hc, rfl⟩ := List.mem_map.mp he
    exact ⟨c.data, h.rawChunkBytes_eq hc, (h.sound c hc).crc⟩

theorem signedChunk_eq {i : ℕ} (hchunk : (chunk, i) ∈ chunks.zipIdx) :
    signedChunk file.1 header.sealed chunk.index i = .ok (chunk.data, chunk.index.toBytes) := by
  have hoffset : header.sealed.indexOffset.toNat = headerSize + dataLength chunks := h.offset
  obtain ⟨before, after, hindex, hplace⟩ := exists_append_of_mem_zipIdx hchunk
  rw [Nat.zero_mul, Nat.zero_add] at hplace
  have hentry : slice file.1 (headerSize + dataLength chunks + before.length)
      (headerSize + dataLength chunks + before.length + chunkIndexEntrySize) =
        some chunk.index.toBytes := by
    refine slice_eq_some.mpr ⟨chunk.index.length_toBytes,
      header.sealed.image ++ chunks.flatMap (·.data) ++ before, after, ?_, ?_⟩
    · rw [List.length_append, List.length_append, FileHeader.length_image, length_flatMap_data]
    · rw [h.bytes, fileBytes, hindex]
      simp only [List.append_assoc]
  -- positions inside the file do not overflow
  have hbound := (le_length_of_slice hentry).trans_lt file.2
  obtain ⟨start, hstart, hstartNat⟩ : ∃ start, checkedAdd header.sealed.indexOffset
      (UInt64.ofNat (i * chunkIndexEntrySize)) = some start ∧
        start.toNat = headerSize + dataLength chunks + before.length := by
    rw [hplace, ← hoffset]
    exact exists_checkedAdd (by omega)
  obtain ⟨stop, hstop, hstopNat⟩ : ∃ stop, checkedAdd start (UInt64.ofNat chunkIndexEntrySize) =
      some stop ∧ stop.toNat = start.toNat + chunkIndexEntrySize := exists_checkedAdd (by omega)
  rw [← hstartNat, ← hstopNat] at hentry
  exact Except.bind_eq_ok.mpr ⟨_, h.rawChunkBytes_eq (List.fst_mem_of_mem_zipIdx hchunk),
    Except.bind_eq_ok.mpr ⟨start, Except.ofOption_eq_ok.mpr hstart,
    Except.bind_eq_ok.mpr ⟨stop, Except.ofOption_eq_ok.mpr hstop,
    Except.bind_eq_ok.mpr ⟨_, Except.ofOption_eq_ok.mpr hentry, rfl⟩⟩⟩⟩

theorem signedChunks_eq :
    signedChunks file.1 header.sealed ⟨chunks.map (·.index)⟩ =
      .ok ((chunks.filter (·.index.chunkType ≠ ChunkType.SIGN.asFourcc)).map fun c ↦
        (c.data, c.index.toBytes)) := by
  rw [signedChunks, List.zipIdx_map, List.filter_map, List.mapM_map]
  have hkeep : chunks.filter (·.index.chunkType ≠ ChunkType.SIGN.asFourcc) =
      (chunks.zipIdx.filter fun e ↦
        e.1.index.chunkType ≠ ChunkType.SIGN.asFourcc).map Prod.fst := by
    conv_lhs => rw [← List.zipIdx_map_fst 0 chunks, List.filter_map]
    rfl
  rw [hkeep, List.map_map]
  refine Except.mapM_eq_ok_map fun e he ↦ ?_
  exact h.signedChunk_eq (List.mem_of_mem_filter he)

end

end LaidOut

end

def plainChunks : List Chunk :=
  letI := exampleCrc32
  layOut (UInt64.ofNat headerSize)
    [.new .META (asciiBytes "{}"), .new .HIST [0x90], .new .PROV [0x91]]

def plainFile (header : FileHeader) : Bytes :=
  letI := exampleCrc32
  fileBytes (header.withLayout plainChunks).sealed.image plainChunks

theorem length_plainFile (header : FileHeader) : (plainFile header).length = 420 := by
  rw [plainFile, length_fileBytes (FileHeader.length_image _)]
  decide

end RosheraCad
