import RosheraCad.Ros.Chunk

/-!
# Keys and chunk encryption

Argon2id turns the password and the salt into a master key, and HKDF expands it over the file's UUID
into a file key and over a chunk's code into that chunk's key. The IV of a chunk is the file's IV
followed by the chunk's code, mixed with the position of the chunk. The ciphers are parameters.
-/

namespace RosheraCad

/-! ## Key derivation -/

class Kdf where
  argon2id : UInt32 → String → ByteVec 16 → Except String (ByteVec 32)
  hkdfExpand : Bytes → ByteVec 32 → Bytes → Option (ByteVec 32)

abbrev SecureKey := ByteVec 32

/-- In-memory representation of all file keys. -/
structure KeySet where
  master : SecureKey
  fileId : ByteVec 16
  fileKey : SecureKey
  chunkKeys : List (FourCC × SecureKey)

def KeySet.getChunkKey (keySet : KeySet) (chunkFourcc : FourCC) : Option SecureKey :=
  keySet.chunkKeys.lookup chunkFourcc

def kdfAlgoArgon2idFileBound : UInt8 := 3

/-- The superseded chain, in which it was bound to a random id that no file carries. -/
def kdfAlgoArgon2idUnbound : UInt8 := 2

def rosheraKdfTimeCost : UInt32 := 3

def rosheraKdfTimeCostMax : UInt32 := 16

def standardChunkFourccs : List FourCC :=
  [ChunkType.META, .HIST, .PROV, .GEOM, .TOPO, .FEAT, .CONS, .KEYS, .BCHN, .ACLS, .SIGN].map
    ChunkType.asFourcc

structure SoftwareKeyManager where
  kdfIterations : UInt32

variable {keySet : KeySet}

namespace SoftwareKeyManager

def default : SoftwareKeyManager := ⟨rosheraKdfTimeCost⟩

def withClampedTimeCost (timeCost : UInt32) : SoftwareKeyManager :=
  ⟨max 1 (min timeCost rosheraKdfTimeCostMax)⟩

variable [Kdf]

def deriveFileKey (masterKey : SecureKey) (fileId : ByteVec 16) : Except RosFileError SecureKey :=
  Except.ofOption (.keyDerivationFailed "HKDF expand failed")
    (Kdf.hkdfExpand (asciiBytes "ROSHERA_FILE_KEY_V3") masterKey fileId.toList)

def deriveChunkKey (fileKey : SecureKey) (chunkType : FourCC) : Except RosFileError SecureKey :=
  Except.ofOption (.keyDerivationFailed "HKDF expand failed")
    (Kdf.hkdfExpand (asciiBytes "ROSHERA_CHUNK_V3" ++ chunkType.toList) fileKey chunkType.toList)

def generateKeySet (manager : SoftwareKeyManager) (password : String) (salt fileId : ByteVec 16) :
    Except RosFileError KeySet := do
  let master ← (Kdf.argon2id manager.kdfIterations password salt).mapError .keyDerivationFailed
  let fileKey ← deriveFileKey master fileId
  let chunkKeys ← standardChunkFourccs.mapM fun chunkType ↦ do
    return (chunkType, ← deriveChunkKey fileKey chunkType)
  return { master, fileId, fileKey, chunkKeys }

theorem fileId_of_generateKeySet {manager : SoftwareKeyManager} {password : String}
    {salt fileId : ByteVec 16}
    (h : manager.generateKeySet password salt fileId = .ok keySet) : keySet.fileId = fileId := by
  obtain ⟨master, -, h⟩ := Except.bind_eq_ok.mp h
  obtain ⟨fileKey, -, h⟩ := Except.bind_eq_ok.mp h
  obtain ⟨chunkKeys, -, h⟩ := Except.bind_eq_ok.mp h
  cases h
  rfl

end SoftwareKeyManager

/-! ## Encryption -/

inductive Cipher
  | aes256Gcm
  | chacha20Poly1305
  deriving DecidableEq

inductive EncryptionAlgorithm
  | none
  | aead (cipher : Cipher)
  deriving DecidableEq

namespace EncryptionAlgorithm

def fromId (id : UInt8) : Except RosFileError EncryptionAlgorithm :=
  if id = 0 then .ok none
  else if id = 1 then .ok (aead .aes256Gcm)
  else if id = 2 then .ok (aead .chacha20Poly1305)
  else .error (.unsupportedAlgorithm id)

def asId : EncryptionAlgorithm → UInt8
  | none => 0
  | aead .aes256Gcm => 1
  | aead .chacha20Poly1305 => 2

theorem fromId_eq_ok {id : UInt8} {algorithm : EncryptionAlgorithm} :
    fromId id = .ok algorithm ↔ id = algorithm.asId := by
  rw [fromId]
  by_cases h₀ : id = 0
  · rw [if_pos h₀, h₀]
    rcases algorithm with - | (- | -) <;> decide
  rw [if_neg h₀]
  by_cases h₁ : id = 1
  · rw [if_pos h₁, h₁]
    rcases algorithm with - | (- | -) <;> decide
  rw [if_neg h₁]
  by_cases h₂ : id = 2
  · rw [if_pos h₂, h₂]
    rcases algorithm with - | (- | -) <;> decide
  rw [if_neg h₂]
  rcases algorithm with - | (- | -)
  · exact iff_of_false nofun h₀
  · exact iff_of_false nofun h₁
  · exact iff_of_false nofun h₂

def tagSize : EncryptionAlgorithm → ℕ
  | none => 0
  | aead _ => 16

end EncryptionAlgorithm

/-- Authenticated encryption, by the key, the IV, the additional data and the data. -/
class Aead where
  encrypt : Cipher → SecureKey → ByteVec 12 → Bytes → Bytes → Option Bytes
  decrypt : Cipher → SecureKey → ByteVec 12 → Bytes → Bytes → Option Bytes

/-- What is relied on of authenticated encryption. -/
class LawfulAead [Aead] : Prop where
  decrypt_encrypt {cipher : Cipher} {key : SecureKey} {iv : ByteVec 12} {aad data out : Bytes} :
    Aead.encrypt cipher key iv aad data = some out → Aead.decrypt cipher key iv aad out = some data
  length_decrypt {cipher : Cipher} {key : SecureKey} {iv : ByteVec 12} {aad data out : Bytes} :
    Aead.decrypt cipher key iv aad out = some data → out.length = data.length + 16

structure ChunkEncryptor where
  algorithm : EncryptionAlgorithm
  keySet : KeySet
  fileIv : ByteVec 8

namespace ChunkEncryptor

def generateChunkIv (fileIv : ByteVec 8) (chunkType : FourCC) (chunkIndex : UInt32) : ByteVec 12 :=
  let index := [chunkIndex >>> 24, chunkIndex >>> 16, chunkIndex >>> 8, chunkIndex].map
    UInt32.toUInt8
  ⟨fileIv.toList ++ List.zipWith (· ^^^ ·) chunkType.toList index, by simp [index]⟩

variable [Aead] {chunkIndex : UInt32} {fileIv : ByteVec 8} {chunkType : FourCC} {aad : Option Bytes}
  {data out : Bytes}

def encryptChunk (e : ChunkEncryptor) (chunkType : FourCC) (data : Bytes) (chunkIndex : UInt32)
    (additionalData : Option Bytes) : Except RosFileError Bytes :=
  match e.algorithm with
  | .none => .ok data
  | .aead cipher => do
    let key ← Except.ofOption (.missingKey chunkType.toList) (e.keySet.getChunkKey chunkType)
    let iv := generateChunkIv e.fileIv chunkType chunkIndex
    Except.ofOption .encryptionFailed (Aead.encrypt cipher key iv (additionalData.getD []) data)

def decryptChunk (e : ChunkEncryptor) (chunkType : FourCC) (encryptedData : Bytes)
    (chunkIndex : UInt32) (additionalData : Option Bytes) : Except RosFileError Bytes :=
  match e.algorithm with
  | .none => .ok encryptedData
  | .aead cipher => do
    let tagSize := e.algorithm.tagSize
    ensure (¬ encryptedData.length < tagSize) (.corruptedData tagSize encryptedData.length)
    let key ← Except.ofOption (.missingKey chunkType.toList) (e.keySet.getChunkKey chunkType)
    let iv := generateChunkIv e.fileIv chunkType chunkIndex
    Except.ofOption .decryptionFailed
      (Aead.decrypt cipher key iv (additionalData.getD []) encryptedData)

theorem encryptChunk_aead_eq_ok {cipher : Cipher}
    :
    (mk (.aead cipher) keySet fileIv).encryptChunk chunkType data chunkIndex aad = .ok out ↔
      ∃ key, keySet.getChunkKey chunkType = some key ∧
        Aead.encrypt cipher key (generateChunkIv fileIv chunkType chunkIndex) (aad.getD []) data =
          some out := by
  rw [encryptChunk]
  dsimp only
  rw [Except.bind_eq_ok]
  simp only [Except.ofOption_eq_ok]

theorem decryptChunk_aead_eq_ok [LawfulAead] {cipher : Cipher}
    :
    (mk (.aead cipher) keySet fileIv).decryptChunk chunkType data chunkIndex aad = .ok out ↔
      ∃ key, keySet.getChunkKey chunkType = some key ∧
        Aead.decrypt cipher key (generateChunkIv fileIv chunkType chunkIndex) (aad.getD []) data =
          some out := by
  rw [decryptChunk]
  dsimp only
  rw [Except.bind_eq_ok]
  constructor
  · rintro ⟨_, -, h⟩
    obtain ⟨key, hkey, h⟩ := Except.bind_eq_ok.mp h
    exact ⟨key, Except.ofOption_eq_ok.mp hkey, Except.ofOption_eq_ok.mp h⟩
  · rintro ⟨key, hkey, h⟩
    -- what decrypts has room for the tag
    have hlen := LawfulAead.length_decrypt h
    refine ⟨(), ensure_eq_ok.mpr ?_, Except.bind_eq_ok.mpr ⟨key, Except.ofOption_eq_ok.mpr hkey,
      Except.ofOption_eq_ok.mpr h⟩⟩
    rw [EncryptionAlgorithm.tagSize]
    omega

theorem decryptChunk_of_encryptChunk [LawfulAead] {cipher : Cipher}
    (h : (mk (.aead cipher) keySet fileIv).encryptChunk chunkType data chunkIndex aad = .ok out) :
    (mk (.aead cipher) keySet fileIv).decryptChunk chunkType out chunkIndex aad = .ok data ∧
      out.length = data.length + 16 := by
  obtain ⟨key, hkey, hout⟩ := encryptChunk_aead_eq_ok.mp h
  have hdecrypt := LawfulAead.decrypt_encrypt hout
  exact ⟨decryptChunk_aead_eq_ok.mpr ⟨key, hkey, hdecrypt⟩, LawfulAead.length_decrypt hdecrypt⟩

end ChunkEncryptor

/-! ## Ciphers to compute with -/

def exampleDigest (n : ℕ) (data : Bytes) : ByteVec n :=
  ⟨toLe n (data.foldl (fun acc b ↦ acc * 257 + b.toNat + 1) 0), length_toLe _ _⟩

abbrev exampleKdf : Kdf where
  argon2id passes password salt :=
    .ok (exampleDigest 32 (toLe 4 passes.toNat ++ asciiBytes password ++ salt.toList))
  hkdfExpand salt key info := some (exampleDigest 32 (salt ++ key.toList ++ info))

abbrev exampleAead : Aead where
  encrypt _ key iv aad data :=
    some (data.map (· + 7) ++
      (exampleDigest 16 (key.toList ++ iv.toList ++ aad ++ data.map (· + 7))).toList)
  decrypt _ key iv aad data :=
    let body := data.take (data.length - 16)
    if 16 ≤ data.length ∧
        data.drop (data.length - 16) =
          (exampleDigest 16 (key.toList ++ iv.toList ++ aad ++ body)).toList then
      some (body.map (· - 7))
    else none

theorem lawful_exampleAead : letI := exampleAead; LawfulAead := by
  let := exampleAead
  refine ⟨fun {_ key iv aad data out} h ↦ ?_, fun {_ key iv aad data out} h ↦ ?_⟩
  · have hout := (Option.some.inj h).symm
    have htag :=
      (exampleDigest 16 (key.toList ++ iv.toList ++ aad ++ data.map (· + 7))).toList_length
    have hlen : out.length - 16 = (data.map (· + 7)).length := by
      rw [hout, List.length_append, htag]
      omega
    have htake : out.take (out.length - 16) = data.map (· + 7) := by
      rw [hlen, hout, List.take_left]
    have hdrop : out.drop (out.length - 16) =
        (exampleDigest 16 (key.toList ++ iv.toList ++ aad ++ data.map (· + 7))).toList := by
      rw [hlen, hout, List.drop_left]
    have hroom : 16 ≤ out.length := by
      rw [hout, List.length_append, htag]
      omega
    show (if _ then _ else _) = _
    rw [htake, if_pos ⟨hroom, hdrop⟩, List.map_map]
    simp [Function.comp_def]
  · have h : (if _ then _ else _) = _ := h
    by_cases hin : 16 ≤ out.length ∧ out.drop (out.length - 16) = (exampleDigest 16
        (key.toList ++ iv.toList ++ aad ++ out.take (out.length - 16))).toList
    · rw [if_pos hin, Option.some_inj] at h
      rw [← h, List.length_map, List.length_take]
      omega
    · rw [if_neg hin] at h
      cases h

end RosheraCad
