import RosheraCad.Ros.Chunk

/-!
# The header and index codecs

A header is written as its image with the checksum patched in, in either byte order and at any
version; one with another magic string is never read. What is read is written as the image it was
read from.
-/

namespace RosheraCad

namespace FileHeader

section

variable [Crc32]

theorem readFrom_sealed_eq_ok {h h' : FileHeader} {rest : Bytes} :
    readFrom (h.sealed.image ++ rest) = .ok h' ↔ h' = h.sealed ∧ h.magic = rosheraMagic := by
  rw [readFrom_eq_ok]
  constructor
  · rintro ⟨hmagic, -, rest', himage⟩
    obtain ⟨himage, -⟩ := List.append_inj himage
      ((length_image h.sealed).trans (length_image h').symm)
    obtain rfl := image_injective himage
    exact ⟨rfl, hmagic⟩
  · rintro ⟨rfl, hmagic⟩
    exact ⟨hmagic, rfl, rest, rfl⟩

theorem toBytes_of_readFrom {image : Bytes} {h : FileHeader} (hlen : image.length = headerSize)
    (hread : readFrom image = .ok h) : h.toBytes = .ok (h, image) := by
  obtain ⟨-, hcrc, rest, rfl⟩ := readFrom_eq_ok.mp hread
  rw [List.length_append, length_image] at hlen
  have hrest : rest = [] := List.length_eq_zero_iff.mp (by omega)
  have hsealed : h.sealed = h := by rw [sealed, ← hcrc]
  rw [toBytes_eq, hsealed, hrest, List.append_nil]

end

end FileHeader

section

variable [Crc32]

/-- **The codecs round trip**: a header with the magic string is read back with only its checksum
replaced, an image read is written again byte for byte, and a consistent index entry takes 96 bytes
and is read back. -/
theorem codecs_roundTrip :
    (∀ (h : FileHeader) (rest : Bytes), h.magic = rosheraMagic → ∃ crc image,
      h.toBytes = .ok ({ h with headerCrc32 := crc }, image) ∧ image.length = headerSize ∧
      FileHeader.readFrom (image ++ rest) = .ok { h with headerCrc32 := crc }) ∧
    (∀ (image : Bytes) (h : FileHeader), image.length = headerSize →
      FileHeader.readFrom image = .ok h → h.toBytes = .ok (h, image)) ∧
    ∀ (e : ChunkIndexEntry) (rest : Bytes), e.validate = .ok () →
      e.toBytes.length = 96 ∧ ChunkIndexEntry.readFrom (e.toBytes ++ rest) = .ok (e, rest) := by
  refine ⟨fun h rest hmagic ↦ ?_, fun image h ↦ FileHeader.toBytes_of_readFrom,
    fun e rest hvalid ↦ ⟨e.length_toBytes, ChunkIndexEntry.reads_readFrom hvalid rest⟩⟩
  exact ⟨h.crc, h.sealed.image, h.toBytes_eq, h.sealed.length_image,
    FileHeader.readFrom_sealed_eq_ok.mpr ⟨rfl, hmagic⟩⟩

end

section

attribute [local instance] exampleCrc32

/-- A big-endian header of version 3.1 and the entry of an empty chunk, read back. -/
theorem codecs_roundTrip_bigEndian :
    let h : FileHeader :=
      { FileHeader.new 0 (.replicate 16 7) with endianness := .big, minorVersion := 1 }
    ∃ crc image, h.toBytes = .ok ({ h with headerCrc32 := crc }, image) ∧
      FileHeader.readFrom image = .ok { h with headerCrc32 := crc } ∧
      ({ h with headerCrc32 := crc } : FileHeader).toBytes =
        .ok ({ h with headerCrc32 := crc }, image) ∧
      (ChunkIndexEntry.new ChunkType.META.asFourcc).toBytes.length = 96 := by
  intro h
  obtain ⟨hheader, himage, hentry⟩ := codecs_roundTrip
  obtain ⟨crc, image, hwrite, hlen, hread⟩ := hheader h [] rfl
  rw [List.append_nil] at hread
  exact ⟨crc, image, hwrite, hread, himage _ _ hlen hread, (hentry _ [] rfl).1⟩

/-- A header that carries another magic string is written, and what was written is not read. -/
theorem not_readFrom_of_foreign_magic :
    let h : FileHeader := { FileHeader.new 0 (.replicate 16 7) with magic := .replicate 8 0 }
    ∃ image, h.toBytes = .ok (h.sealed, image) ∧ ∀ h', FileHeader.readFrom image ≠ .ok h' := by
  intro h
  refine ⟨h.sealed.image, h.toBytes_eq, fun h' hread ↦ ?_⟩
  rw [← List.append_nil h.sealed.image] at hread
  have hmagic : h.magic = rosheraMagic := (FileHeader.readFrom_sealed_eq_ok.mp hread).2
  revert hmagic
  decide

end

end RosheraCad
