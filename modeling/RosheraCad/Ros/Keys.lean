import RosheraCad.Ros.Encryption
import RosheraCad.Ros.Signature

/-!
# Keys in memory and in escrow

A key has an id and its material. The escrow of a key set is its serialized form, encrypted under
the escrow key. A key is serialized as its id alone, so an escrow never gives back the material.
-/

namespace RosheraCad

namespace Keys

/-! ## Keys -/

/-- Secure key material container. -/
structure SecureKey where
  id : ByteVec 16
  material : Bytes
  deriving DecidableEq

def SecureKey.cipherKey (key : SecureKey) : Option (ByteVec 32) :=
  if h : key.material.length = 32 then some ⟨key.material, h⟩ else none

theorem SecureKey.isSome_cipherKey {key : SecureKey} :
    key.cipherKey.isSome ↔ key.material.length = 32 := by
  rw [cipherKey]
  split
  · next h => exact iff_of_true rfl h
  · next h => exact iff_of_false nofun h

inductive KeyAlgorithm
  | none
  | aes256Gcm
  | chaCha20Poly1305
  | aes256Ctr
  deriving DecidableEq

inductive KeyType
  | symmetric
  | publicKey
  | derived
  | escrowed
  deriving DecidableEq

structure KeyEntry where
  keyId : ByteVec 16
  keyType : KeyType
  algorithm : KeyAlgorithm
  keySize : UInt16
  usageFlags : UInt32
  parentKeyId : Option (ByteVec 16)
  derivationInfo : Option Bytes
  requiredLevel : UInt32
  expiration : Option UInt64
  encryptedKey : Option Bytes
  certificate : Option Bytes
  deriving DecidableEq

structure KeySet (Key : Type) where
  master : Key
  fileId : ByteVec 16
  fileKey : Key
  chunkKeys : List (FourCC × Key)
  metadata : List (ByteVec 16 × KeyEntry)
  deriving DecidableEq

namespace KeySet

variable {Key Key' : Type}

def map (f : Key → Key') (keySet : KeySet Key) : KeySet Key' where
  master := f keySet.master
  fileId := keySet.fileId
  fileKey := f keySet.fileKey
  chunkKeys := keySet.chunkKeys.map fun e ↦ (e.1, f e.2)
  metadata := keySet.metadata

def getChunkKey (keySet : KeySet Key) (chunkFourcc : FourCC) : Option Key :=
  keySet.chunkKeys.lookup chunkFourcc

end KeySet

def SecureKey.serialize (key : SecureKey) : ByteVec 16 := key.id

def SecureKey.deserialize (id : ByteVec 16) : SecureKey := ⟨id, []⟩

theorem SecureKey.deserialize_serialize_iff {key : SecureKey} :
    deserialize key.serialize = key ↔ key.material = [] := by
  rw [deserialize, serialize]
  rcases key with ⟨id, material⟩
  constructor
  · intro h
    exact (SecureKey.mk.inj h).2.symm
  · rintro rfl
    rfl

/-! ## Escrow -/

inductive KeyManagementError
  | escrowError (operation details : String)
  deriving DecidableEq

/-- Key escrow service for backup and recovery. -/
structure KeyEscrowService where
  escrowKey : SecureKey

namespace KeyEscrowService

variable [Aead] [MessagePack (KeySet (ByteVec 16))]

def escrowKeySet (service : KeyEscrowService) (nonce : ByteVec 12) (keySet : KeySet SecureKey) :
    Except KeyManagementError Bytes := do
  let serialized ← Except.ofOption (.escrowError "serialize" "")
    (MessagePack.toVecNamed (keySet.map SecureKey.serialize))
  let key ← Except.ofOption (.escrowError "cipher init" "Invalid escrow key")
    service.escrowKey.cipherKey
  let ciphertext ← Except.ofOption (.escrowError "encrypt" "Encryption failed")
    (Aead.encrypt .aes256Gcm key nonce [] serialized)
  return nonce.toList ++ ciphertext

def recoverKeySet (service : KeyEscrowService) (escrowedData : Bytes) :
    Except KeyManagementError (KeySet SecureKey) :=
  if h : escrowedData.length < 12 then .error (.escrowError "recover" "Invalid escrow data")
  else do
    let nonce : ByteVec 12 := ⟨escrowedData.take 12, List.length_take_of_le (not_lt.mp h)⟩
    let key ← Except.ofOption (.escrowError "cipher init" "Invalid escrow key")
      service.escrowKey.cipherKey
    let plaintext ← Except.ofOption (.escrowError "decrypt" "Decryption failed")
      (Aead.decrypt .aes256Gcm key nonce [] (escrowedData.drop 12))
    let wire ← Except.ofOption (.escrowError "deserialize" "") (MessagePack.fromSlice plaintext)
    return KeySet.map SecureKey.deserialize wire

theorem recoverKeySet_escrowKeySet [LawfulAead] [LawfulMessagePack (KeySet (ByteVec 16))]
    {service : KeyEscrowService} {nonce : ByteVec 12} {keySet : KeySet SecureKey} {data : Bytes}
    (h : service.escrowKeySet nonce keySet = .ok data) :
    service.recoverKeySet data =
      .ok ((keySet.map SecureKey.serialize).map SecureKey.deserialize) := by
  obtain ⟨serialized, hserialized, h⟩ := Except.bind_eq_ok.mp h
  obtain ⟨key, hkey, h⟩ := Except.bind_eq_ok.mp h
  obtain ⟨ciphertext, hciphertext, h⟩ := Except.bind_eq_ok.mp h
  cases h
  rw [Except.ofOption_eq_ok] at hserialized hkey hciphertext
  have hlen : ¬ (nonce.toList ++ ciphertext).length < 12 := by
    rw [List.length_append, nonce.toList_length]
    omega
  have htake : (nonce.toList ++ ciphertext).take 12 = nonce.toList :=
    List.take_left' nonce.toList_length
  have hdrop : (nonce.toList ++ ciphertext).drop 12 = ciphertext :=
    List.drop_left' nonce.toList_length
  have hnonce : (⟨(nonce.toList ++ ciphertext).take 12,
      List.length_take_of_le (not_lt.mp hlen)⟩ : ByteVec 12) = nonce := List.Vector.eq _ _ htake
  rw [recoverKeySet, dif_neg hlen]
  dsimp only
  rw [hnonce, hdrop]
  refine Except.bind_eq_ok.mpr ⟨key, Except.ofOption_eq_ok.mpr hkey, ?_⟩
  refine Except.bind_eq_ok.mpr ⟨serialized, Except.ofOption_eq_ok.mpr ?_, ?_⟩
  · exact LawfulAead.decrypt_encrypt hciphertext
  · exact Except.bind_eq_ok.mpr ⟨_, Except.ofOption_eq_ok.mpr
      (LawfulMessagePack.fromSlice_toVecNamed hserialized), rfl⟩

end KeyEscrowService

/-! ## What is recovered -/

section Recovery

variable [Aead] [MessagePack (KeySet (ByteVec 16))]

def DecryptsFor (keySet recovered : KeySet SecureKey) : Prop :=
  ∀ (chunkFourcc : FourCC) (key : SecureKey), keySet.getChunkKey chunkFourcc = some key →
    ∀ (cipher : Cipher) (cipherKey : ByteVec 32) (iv : ByteVec 12) (aad data out : Bytes),
      key.cipherKey = some cipherKey → Aead.encrypt cipher cipherKey iv aad data = some out →
      ∃ key' cipherKey', recovered.getChunkKey chunkFourcc = some key' ∧
        key'.cipherKey = some cipherKey' ∧ Aead.decrypt cipher cipherKey' iv aad out = some data

/-- An escrow of the key set gives back its file id, its file key and its chunk keys. -/
def KeyEscrowService.Recovers (service : KeyEscrowService) (nonce : ByteVec 12)
    (keySet : KeySet SecureKey) : Prop :=
  ∃ data recovered, service.escrowKeySet nonce keySet = .ok data ∧
    service.recoverKeySet data = .ok recovered ∧ recovered.fileId = keySet.fileId ∧
    recovered.fileKey = keySet.fileKey ∧ recovered.chunkKeys = keySet.chunkKeys ∧
    DecryptsFor keySet recovered

omit [MessagePack (KeySet (ByteVec 16))] in
theorem decryptsFor_of_chunkKeys_eq [LawfulAead] {keySet recovered : KeySet SecureKey}
    (h : recovered.chunkKeys = keySet.chunkKeys) : DecryptsFor keySet recovered := by
  intro chunkFourcc key hkey cipher cipherKey iv aad data out hcipherKey hout
  refine ⟨key, cipherKey, ?_, hcipherKey, LawfulAead.decrypt_encrypt hout⟩
  rw [KeySet.getChunkKey, h]
  exact hkey

/-- **An escrow gives back usable keys exactly when there was nothing to give back**: no key but the
master key has material. -/
theorem recoversSecrets_iff [LawfulAead] [LawfulMessagePack (KeySet (ByteVec 16))]
    (service : KeyEscrowService) (nonce : ByteVec 12) (keySet : KeySet SecureKey)
    {serialized : Bytes}
    (hpack : MessagePack.toVecNamed (keySet.map SecureKey.serialize) = some serialized)
    (hencrypt : ∀ key, (Aead.encrypt .aes256Gcm key nonce [] serialized).isSome) :
    service.Recovers nonce keySet ↔
      service.escrowKey.material.length = 32 ∧ keySet.fileKey.material = [] ∧
        ∀ e ∈ keySet.chunkKeys, e.2.material = [] := by
  -- the chunk keys come back exactly when none of them has material
  have hchunks : (keySet.chunkKeys.map fun e ↦
      (e.1, SecureKey.deserialize (SecureKey.serialize e.2))) = keySet.chunkKeys ↔
        ∀ e ∈ keySet.chunkKeys, e.2.material = [] := by
    have hself := List.map_inj_left (l := keySet.chunkKeys) (g := id)
      (f := fun e ↦ (e.1, SecureKey.deserialize (SecureKey.serialize e.2)))
    rw [List.map_id] at hself
    rw [hself]
    refine forall₂_congr fun e _ ↦ ?_
    rw [← SecureKey.deserialize_serialize_iff, Prod.ext_iff]
    exact and_iff_right rfl
  constructor
  · rintro ⟨data, recovered, hescrow, hrecover, -, hfileKey, hchunkKeys, -⟩
    rw [KeyEscrowService.recoverKeySet_escrowKeySet hescrow] at hrecover
    cases hrecover
    refine ⟨?_, SecureKey.deserialize_serialize_iff.mp hfileKey, hchunks.mp ?_⟩
    · obtain ⟨_, -, hescrow⟩ := Except.bind_eq_ok.mp hescrow
      obtain ⟨key, hkey, -⟩ := Except.bind_eq_ok.mp hescrow
      rw [Except.ofOption_eq_ok] at hkey
      exact SecureKey.isSome_cipherKey.mp (by rw [hkey, Option.isSome_some])
    · refine Eq.trans ?_ hchunkKeys
      simp [KeySet.map]
  · rintro ⟨hlen, hfileKey, hmaterial⟩
    obtain ⟨key, hkey⟩ := Option.isSome_iff_exists.mp (SecureKey.isSome_cipherKey.mpr hlen)
    obtain ⟨ciphertext, hciphertext⟩ := Option.isSome_iff_exists.mp (hencrypt key)
    have hescrow : service.escrowKeySet nonce keySet = .ok (nonce.toList ++ ciphertext) := by
      rw [KeyEscrowService.escrowKeySet, hpack, hkey]
      show (Except.ofOption _ (Aead.encrypt .aes256Gcm key nonce [] serialized) >>= _) = _
      rw [hciphertext]
      rfl
    have hchunkKeys : ((keySet.map SecureKey.serialize).map SecureKey.deserialize).chunkKeys =
        keySet.chunkKeys := by
      refine Eq.trans ?_ (hchunks.mpr hmaterial)
      simp [KeySet.map]
    exact ⟨_, _, hescrow, KeyEscrowService.recoverKeySet_escrowKeySet hescrow, rfl,
      SecureKey.deserialize_serialize_iff.mpr hfileKey, hchunkKeys,
      decryptsFor_of_chunkKeys_eq hchunkKeys⟩

end Recovery

/-! ## Key sets to compute with -/

def exampleKeySet (material : Bytes) : KeySet SecureKey where
  master := ⟨exampleDigest 16 [0], material⟩
  fileId := exampleDigest 16 [1]
  fileKey := ⟨exampleDigest 16 [2], material⟩
  chunkKeys := [(ChunkType.GEOM.asFourcc, ⟨exampleDigest 16 [3], material⟩)]
  metadata := []

def exampleEscrow : KeyEscrowService := ⟨⟨exampleDigest 16 [4], List.replicate 32 7⟩⟩

abbrev exampleKeyCodec : MessagePack (KeySet (ByteVec 16)) where
  toVecNamed wire := if wire = (exampleKeySet []).map SecureKey.serialize then some [0x85] else none
  fromSlice bytes :=
    if bytes = [0x85] then some ((exampleKeySet []).map SecureKey.serialize) else none

theorem lawful_exampleKeyCodec :
    letI := exampleKeyCodec
    LawfulMessagePack (KeySet (ByteVec 16)) := by
  let := exampleKeyCodec
  refine ⟨fun {wire bytes} h ↦ ?_⟩
  have hbytes : (if _ then _ else _) = _ := h
  by_cases hwire : wire = (exampleKeySet []).map SecureKey.serialize
  · rw [if_pos hwire] at hbytes
    rw [← Option.some.inj hbytes, hwire]
    rfl
  · rw [if_neg hwire] at hbytes
    cases hbytes

/-- Keys without material come back. -/
theorem recovers_empty :
    letI := exampleAead
    letI := exampleKeyCodec
    exampleEscrow.Recovers (exampleDigest 12 []) (exampleKeySet []) := by
  let := exampleAead
  let := exampleKeyCodec
  have := lawful_exampleAead
  have := lawful_exampleKeyCodec
  refine (recoversSecrets_iff exampleEscrow (exampleDigest 12 []) (exampleKeySet []) (if_pos rfl)
    fun _ ↦ rfl).mpr ⟨rfl, rfl, ?_⟩
  intro e he
  rw [List.mem_singleton.mp he]

/-- Keys of 32 bytes are escrowed, and their material does not come back. -/
theorem not_recovers_material :
    letI := exampleAead
    letI := exampleKeyCodec
    ¬ exampleEscrow.Recovers (exampleDigest 12 []) (exampleKeySet (List.replicate 32 1)) := by
  let := exampleAead
  let := exampleKeyCodec
  have := lawful_exampleAead
  have := lawful_exampleKeyCodec
  rintro ⟨data, recovered, hescrow, hrecover, -, hfileKey, -⟩
  rw [KeyEscrowService.recoverKeySet_escrowKeySet hescrow] at hrecover
  cases hrecover
  have hmaterial := congrArg SecureKey.material hfileKey
  revert hmaterial
  decide

end Keys

end RosheraCad
