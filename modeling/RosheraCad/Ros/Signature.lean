import RosheraCad.Ros.Header
import RosheraCad.Ros.Merkle

/-!
# Signatures

A file carries at most one signature: an Ed25519 signature over the SHA-256 digest of the root of
its Merkle tree, in a record with the public key and an id of the signer.

Ed25519 and MessagePack are parameters.
-/

namespace RosheraCad

/-- MessagePack encoding of a type (`rmp_serde`). -/
class MessagePack (α : Type) where
  toVecNamed : α → Option Bytes
  fromSlice : Bytes → Option α

/-- What was encoded is decoded again. -/
class LawfulMessagePack (α : Type) [MessagePack α] : Prop where
  fromSlice_toVecNamed {a : α} {bytes : Bytes} :
    MessagePack.toVecNamed a = some bytes → MessagePack.fromSlice bytes = some a

class Ed25519 where
  verifyingKey : ByteVec 32 → ByteVec 32
  sign : ByteVec 32 → Bytes → ByteVec 64
  isKey : ByteVec 32 → Bool
  verify : ByteVec 32 → Bytes → ByteVec 64 → Bool

/-- Genuine signatures are accepted. -/
class LawfulEd25519 [Ed25519] : Prop where
  isKey_verifyingKey (key : ByteVec 32) : Ed25519.isKey (Ed25519.verifyingKey key)
  verify_sign (key : ByteVec 32) (message : Bytes) :
    Ed25519.verify (Ed25519.verifyingKey key) message (Ed25519.sign key message)

/-! ## Records -/

inductive SignatureAlgorithm
  | none
  | ed25519
  deriving DecidableEq

def SignatureAlgorithm.toU8 : SignatureAlgorithm → UInt8
  | none => 0
  | ed25519 => 1

structure FileSignatureMetadata where
  fileId : ByteVec 16
  timestamp : UInt64
  signerId : ByteVec 16
  signatureVersion : UInt32

structure SignatureRecord where
  algorithm : SignatureAlgorithm
  publicKey : Bytes
  signature : Bytes
  metadata : FileSignatureMetadata

/-- The SIGN chunk: exactly one signature. -/
structure SignatureChunk where
  signer : SignatureRecord

namespace SignatureChunk

variable [MessagePack SignatureChunk]

def serialize (chunk : SignatureChunk) : Bytes := (MessagePack.toVecNamed chunk).getD []

def deserialize (data : Bytes) : Except RosFileError SignatureChunk :=
  Except.ofOption (.invalidSignature "deserialize") (MessagePack.fromSlice data)

theorem deserialize_serialize [LawfulMessagePack SignatureChunk] {chunk : SignatureChunk}
    (h : chunk.serialize ≠ []) : deserialize chunk.serialize = .ok chunk := by
  rw [serialize] at h ⊢
  rcases hbytes : MessagePack.toVecNamed chunk with - | bytes
  · rw [hbytes] at h
    exact absurd rfl h
  · exact Except.ofOption_eq_ok.mpr (LawfulMessagePack.fromSlice_toVecNamed hbytes)

end SignatureChunk

/-! ## Signing and verifying -/

section

variable [Sha2]

def sha256 (data : Bytes) : Bytes := Sha2.digest .sha256 data

theorem length_sha256 (data : Bytes) : (sha256 data).length = 32 := Sha2.length_digest _ _

def derivedSignerId (publicKey : Bytes) : Bytes := (sha256 publicKey).take 16

end

section

variable [Ed25519]

structure FileSigner where
  signingKey : ByteVec 32
  signerId : ByteVec 16

variable [Sha2]

def FileSigner.signFile (signer : FileSigner) (fileData : Bytes) (fileId : ByteVec 16)
    (timestamp : UInt64) : SignatureRecord where
  algorithm := .ed25519
  publicKey := (Ed25519.verifyingKey signer.signingKey).toList
  signature := (Ed25519.sign signer.signingKey (sha256 fileData)).toList
  metadata := { fileId, timestamp, signerId := signer.signerId, signatureVersion := 1 }

def verifySignature (fileData : Bytes) (record : SignatureRecord) : Except RosFileError Bool := do
  ensure (record.algorithm = .ed25519) (.invalidSignature "Only Ed25519 supported")
  if h : record.publicKey.length = 32 ∧ record.signature.length = 64 then
    let publicKey : ByteVec 32 := ⟨record.publicKey, h.1⟩
    ensure (Ed25519.isKey publicKey) (.invalidSignature "Invalid public key")
    return Ed25519.verify publicKey (sha256 fileData) ⟨record.signature, h.2⟩
  else return false

theorem verifySignature_eq_true {fileData : Bytes} {record : SignatureRecord} :
    verifySignature fileData record = .ok true ↔ record.algorithm = .ed25519 ∧
      ∃ (publicKey : ByteVec 32) (signature : ByteVec 64), record.publicKey = publicKey.toList ∧
        record.signature = signature.toList ∧ Ed25519.isKey publicKey ∧
        Ed25519.verify publicKey (sha256 fileData) signature := by
  rw [verifySignature, Except.bind_eq_ok]
  constructor
  · rintro ⟨_, halgorithm, h⟩
    by_cases hlen : record.publicKey.length = 32 ∧ record.signature.length = 64
    · rw [dif_pos hlen] at h
      obtain ⟨_, hkey, h⟩ := Except.bind_eq_ok.mp h
      exact ⟨ensure_eq_ok.mp halgorithm, ⟨_, hlen.1⟩, ⟨_, hlen.2⟩, rfl, rfl, ensure_eq_ok.mp hkey,
        Except.ok.inj h⟩
    · rw [dif_neg hlen] at h
      cases h
  · rintro ⟨halgorithm, publicKey, signature, hpublic, hsignature, hkey, hverify⟩
    have hlen : record.publicKey.length = 32 ∧ record.signature.length = 64 :=
      ⟨hpublic ▸ publicKey.toList_length, hsignature ▸ signature.toList_length⟩
    have hk : (⟨record.publicKey, hlen.1⟩ : ByteVec 32) = publicKey := List.Vector.eq _ _ hpublic
    have hs : (⟨record.signature, hlen.2⟩ : ByteVec 64) = signature := List.Vector.eq _ _ hsignature
    refine ⟨(), ensure_eq_ok.mpr halgorithm, ?_⟩
    rw [dif_pos hlen]
    dsimp only
    rw [hk, hs]
    refine Except.bind_eq_ok.mpr ⟨(), ensure_eq_ok.mpr hkey, ?_⟩
    rw [hverify]
    rfl

theorem verifySignature_signFile [LawfulEd25519] (signer : FileSigner) (fileData : Bytes)
    (fileId : ByteVec 16) (timestamp : UInt64) :
    verifySignature fileData (signer.signFile fileData fileId timestamp) = .ok true :=
  verifySignature_eq_true.mpr ⟨rfl, _, _, rfl, rfl, LawfulEd25519.isKey_verifyingKey _,
    LawfulEd25519.verify_sign _ _⟩

end

/-! ## Signatures to compute with -/

/-- A signature that repeats the key and the first 32 bytes of the message. -/
abbrev exampleEd25519 : Ed25519 where
  verifyingKey key := key
  sign key message :=
    ⟨key.toList ++ (message ++ List.replicate 32 0).take 32, by
      rw [List.length_append, key.toList_length, List.length_take, List.length_append,
        List.length_replicate]
      omega⟩
  isKey _ := true
  verify key message signature :=
    signature.toList = key.toList ++ (message ++ List.replicate 32 0).take 32

theorem lawful_exampleEd25519 : letI := exampleEd25519; LawfulEd25519 := by
  let := exampleEd25519
  exact ⟨fun _ ↦ rfl, fun _ _ ↦ decide_eq_true rfl⟩

open ByteReader in
private def readSignature : ByteReader Unit SignatureChunk := do
  let publicKey ← readExact () 32
  let signature ← readExact () 64
  let fileId ← readExact () 16
  let timestamp ← readU64 () .littleEndian
  let signerId ← readExact () 16
  let signatureVersion ← readU32 () .littleEndian
  return ⟨⟨.ed25519, publicKey.toList, signature.toList,
    ⟨fileId, timestamp, signerId, signatureVersion⟩⟩⟩

abbrev exampleSignatures : MessagePack SignatureChunk where
  toVecNamed chunk :=
    let record := chunk.signer
    if record.algorithm = .ed25519 ∧ record.publicKey.length = 32 ∧
        record.signature.length = 64 then
      some (record.publicKey ++ (record.signature ++ (record.metadata.fileId.toList ++
        (toLe 8 record.metadata.timestamp.toNat ++ (record.metadata.signerId.toList ++
        toLe 4 record.metadata.signatureVersion.toNat)))))
    else none
  fromSlice bytes :=
    match readSignature bytes with
    | .ok (chunk, []) => some chunk
    | _ => none

theorem lawful_exampleSignatures :
    letI := exampleSignatures; LawfulMessagePack SignatureChunk := by
  let := exampleSignatures
  refine ⟨fun {chunk bytes} h ↦ ?_⟩
  obtain ⟨⟨algorithm, publicKey, signature, metadata⟩⟩ := chunk
  have h : (if _ then _ else _) = _ := h
  by_cases hfull : algorithm = .ed25519 ∧ publicKey.length = 32 ∧ signature.length = 64
  · rw [if_pos hfull, Option.some_inj] at h
    obtain ⟨rfl, hkey, hsignature⟩ := hfull
    have hread : ByteReader.Reads readSignature bytes
        ⟨⟨.ed25519, publicKey, signature, metadata⟩⟩ := by
      rw [← h]
      exact (ByteReader.reads_readExact _ ⟨publicKey, hkey⟩).bind
        ((ByteReader.reads_readExact _ ⟨signature, hsignature⟩).bind
        ((ByteReader.reads_readExact _ _).bind ((ByteReader.reads_readU64 _ .littleEndian _).bind
        ((ByteReader.reads_readExact _ _).bind (ByteReader.reads_readU32 _ .littleEndian _).last))))
    have hall := hread []
    rw [List.append_nil] at hall
    show (match readSignature bytes with | .ok (chunk, []) => some chunk | _ => none) = _
    rw [hall]
  · rw [if_neg hfull] at h
    cases h

end RosheraCad
