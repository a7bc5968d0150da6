import RosheraCad.Library.Blocks
import RosheraCad.Ros.Keys

/-!
# Streaming encryption

An encryptor collects bytes in a buffer and cuts blocks of a fixed size off its front. Each block is
encrypted on its own, under the IV mixed with its number, and written behind its length. The
decryptor takes the end of the stream within a length for the end of the data. The loop that cuts
blocks need not end, and is given fuel.
-/

namespace RosheraCad

namespace Streaming

/-! ## Ciphers of a stream -/

inductive StreamError
  | encryptionFailed (algorithm details : String)
  | decryptionFailed (algorithm details : String)
  | corruptedData (expectedTag actualTag : String)
  | unexpectedEof
  | panicked
  deriving DecidableEq

def cipherName : Cipher → String
  | .aes256Gcm => "AES-256-GCM"
  | .chacha20Poly1305 => "ChaCha20-Poly1305"

/-- What both ends of a stream are created with, and whether the build checks additions. -/
structure StreamCipher where
  algorithm : EncryptionAlgorithm
  key : Keys.SecureKey
  iv : ByteVec 12
  overflowChecks : Bool

/-- The largest block the decryptor reads. -/
def maxBlockSize : ℕ := 1024 * 1024

namespace StreamCipher

def blockIv (c : StreamCipher) (chunkIndex : UInt32) : ByteVec 12 :=
  let index := [chunkIndex >>> 24, chunkIndex >>> 16, chunkIndex >>> 8, chunkIndex].map
    UInt32.toUInt8
  ⟨c.iv.toList.take 8 ++ List.zipWith (· ^^^ ·) (c.iv.toList.drop 8) index, by simp [index]⟩

/-- The number of the next block. In a build that checks additions the last number has none. -/
def bump (c : StreamCipher) (chunkIndex : UInt32) : Except StreamError UInt32 :=
  if c.overflowChecks ∧ chunkIndex.toNat + 1 = 2 ^ 32 then .error .panicked
  else .ok (chunkIndex + 1)

variable [Aead]

def sealBlock (c : StreamCipher) (chunkIndex : UInt32) (block : Bytes) :
    Except StreamError Bytes :=
  match c.algorithm with
  | .none => .ok block
  | .aead cipher => do
    let key ← Except.ofOption (.encryptionFailed (cipherName cipher) "Invalid key") c.key.cipherKey
    Except.ofOption (.encryptionFailed (cipherName cipher) "Block encryption failed")
      (Aead.encrypt cipher key (c.blockIv chunkIndex) [] block)

def openBlock (c : StreamCipher) (chunkIndex : UInt32) (encrypted : Bytes) :
    Except StreamError Bytes :=
  match c.algorithm with
  | .none => .ok encrypted
  | .aead cipher => do
    let key ← Except.ofOption (.decryptionFailed (cipherName cipher) "Invalid key") c.key.cipherKey
    Except.ofOption (.decryptionFailed (cipherName cipher) "Block decryption failed")
      (Aead.decrypt cipher key (c.blockIv chunkIndex) [] encrypted)

end StreamCipher

/-! ## The encryptor -/

structure StreamingEncryptor where
  cipher : StreamCipher
  writer : Bytes
  buffer : Bytes
  bufferSize : ℕ
  chunkIndex : UInt32

namespace StreamingEncryptor

/-- Create a new streaming encryptor. No vector has room for `2 ^ 63` bytes. -/
def new (cipher : StreamCipher) (bufferSize : ℕ) : Except StreamError StreamingEncryptor :=
  if bufferSize < 2 ^ 63 then
    .ok { cipher, writer := [], buffer := [], bufferSize, chunkIndex := 0 }
  else .error .panicked

variable [Aead]

def encryptBlock (e : StreamingEncryptor) (block : Bytes) :
    Except StreamError StreamingEncryptor := do
  let encrypted ← e.cipher.sealBlock e.chunkIndex block
  let chunkIndex ← e.cipher.bump e.chunkIndex
  return { e with writer := e.writer ++ (toLe 4 encrypted.length ++ encrypted), chunkIndex }

def drained (e : StreamingEncryptor) : StreamingEncryptor :=
  { e with buffer := e.buffer.drop e.bufferSize }

def drainBlocks : ℕ → StreamingEncryptor → Option (Except StreamError StreamingEncryptor)
  | 0, _ => none
  | fuel + 1, e =>
    if e.bufferSize ≤ e.buffer.length then
      match e.drained.encryptBlock (e.buffer.take e.bufferSize) with
      | .error err => some (.error err)
      | .ok e => drainBlocks fuel e
    else some (.ok e)

def update (fuel : ℕ) (e : StreamingEncryptor) (data : Bytes) :
    Option (Except StreamError StreamingEncryptor) :=
  drainBlocks fuel { e with buffer := e.buffer ++ data }

def finalize (e : StreamingEncryptor) : Except StreamError Bytes :=
  if e.buffer ≠ [] then (e.encryptBlock e.buffer).map writer else .ok e.writer

/-- Updates with the parts of a text, then the end, up to the first error. -/
def run (fuel : ℕ) (e : StreamingEncryptor) : List Bytes → Option (Except StreamError Bytes)
  | [] => some e.finalize
  | part :: parts =>
    match e.update fuel part with
    | none => none
    | some (.error err) => some (.error err)
    | some (.ok e) => run fuel e parts

end StreamingEncryptor

/-- Encrypting a text in parts ends, with an output or an error. -/
def Encrypts [Aead] (cipher : StreamCipher) (bufferSize : ℕ) (parts : List Bytes)
    (result : Except StreamError Bytes) : Prop :=
  match StreamingEncryptor.new cipher bufferSize with
  | .error err => result = .error err
  | .ok e => ∃ fuel, e.run fuel parts = some result

/-! ## The decryptor -/

structure StreamingDecryptor where
  cipher : StreamCipher
  reader : Bytes
  chunkIndex : UInt32

namespace StreamingDecryptor

def new (cipher : StreamCipher) (reader : Bytes) : StreamingDecryptor :=
  { cipher, reader, chunkIndex := 0 }

variable [Aead]

/-- Read and decrypt the next block. The end of the stream inside the length is the end. -/
def readBlock (d : StreamingDecryptor) :
    Except StreamError (Option (Bytes × StreamingDecryptor)) :=
  if d.reader.length < 4 then .ok none
  else do
    let blockSize := ofLe (d.reader.take 4)
    let rest := d.reader.drop 4
    ensure (blockSize ≤ maxBlockSize)
      (.corruptedData "Block size <= 1MB" (toString blockSize ++ " bytes"))
    ensure (blockSize ≤ rest.length) .unexpectedEof
    let decrypted ← d.cipher.openBlock d.chunkIndex (rest.take blockSize)
    let chunkIndex ← d.cipher.bump d.chunkIndex
    return some (decrypted, { d with reader := rest.drop blockSize, chunkIndex })

def readBlocks : ℕ → StreamingDecryptor → Option (Except StreamError Bytes)
  | 0, _ => none
  | fuel + 1, d =>
    match d.readBlock with
    | .error err => some (.error err)
    | .ok none => some (.ok [])
    | .ok (some (block, d)) => (readBlocks fuel d).map fun rest ↦ rest.map (block ++ ·)

def readAll (d : StreamingDecryptor) : Option (Except StreamError Bytes) :=
  readBlocks (d.reader.length + 1) d

end StreamingDecryptor

/-! ## The blocks of a text -/

variable {c : StreamCipher}

section Encryption

variable [Aead] {parts : List Bytes}

def sealBlocks (c : StreamCipher) : UInt32 → List Bytes → Except StreamError Bytes
  | _, [] => .ok []
  | chunkIndex, block :: blocks => do
    let encrypted ← c.sealBlock chunkIndex block
    let next ← c.bump chunkIndex
    let rest ← sealBlocks c next blocks
    return toLe 4 encrypted.length ++ encrypted ++ rest

namespace StreamingEncryptor

variable {e e' : StreamingEncryptor} {block data : Bytes}

/-- What an encryptor has written when the bytes `data` are still to come. -/
def complete (e : StreamingEncryptor) (data : Bytes) : Except StreamError Bytes :=
  (sealBlocks e.cipher e.chunkIndex ((e.buffer ++ data).blocks e.bufferSize)).map (e.writer ++ ·)

theorem encryptBlock_eq_ok (h : e.encryptBlock block = .ok e') :
    e'.cipher = e.cipher ∧ e'.bufferSize = e.bufferSize ∧ e'.buffer = e.buffer := by
  obtain ⟨encrypted, -, h⟩ := Except.bind_eq_ok.mp h
  obtain ⟨chunkIndex, -, h⟩ := Except.bind_eq_ok.mp h
  cases h
  exact ⟨rfl, rfl, rfl⟩

theorem sealBlocks_encryptBlock (e : StreamingEncryptor) (block : Bytes) (blocks : List Bytes) :
    (sealBlocks e.cipher e.chunkIndex (block :: blocks)).map (e.writer ++ ·) =
      e.encryptBlock block >>= fun e ↦
        (sealBlocks e.cipher e.chunkIndex blocks).map (e.writer ++ ·) := by
  rw [sealBlocks, encryptBlock]
  rcases e.cipher.sealBlock e.chunkIndex block with err | encrypted
  · rfl
  · rcases e.cipher.bump e.chunkIndex with err | next
    · rfl
    · show Except.map _ (sealBlocks e.cipher next blocks >>= _) =
        Except.map _ (sealBlocks e.cipher next blocks)
      rcases sealBlocks e.cipher next blocks with err | rest
      · rfl
      · show Except.ok (e.writer ++ (_ ++ rest)) = Except.ok (e.writer ++ _ ++ rest)
        rw [List.append_assoc, List.append_assoc, List.append_assoc]

theorem complete_of_le (hpos : 0 < e.bufferSize) (hle : e.bufferSize ≤ e.buffer.length)
    (data : Bytes) :
    e.complete data =
      e.drained.encryptBlock (e.buffer.take e.bufferSize) >>= fun e ↦ e.complete data := by
  have hle' : e.bufferSize ≤ (e.buffer ++ data).length := by
    rw [List.length_append]
    omega
  rw [complete, List.blocks_of_le hpos hle', List.take_append_of_le_length hle,
    List.drop_append_of_le_length hle,
    show e.cipher = e.drained.cipher from rfl, show e.chunkIndex = e.drained.chunkIndex from rfl,
    show e.writer = e.drained.writer from rfl, sealBlocks_encryptBlock]
  rcases h : e.drained.encryptBlock (e.buffer.take e.bufferSize) with err | e'
  · rfl
  · obtain ⟨-, hsize, hbuffer⟩ := encryptBlock_eq_ok h
    show Except.map _ _ = complete e' data
    rw [complete, hsize, hbuffer]
    rfl

/-- **The loop ends**, and what it leaves to be written is what there was to be written. -/
theorem drainBlocks_spec {fuel : ℕ} (hpos : 0 < e.bufferSize) (hfuel : e.buffer.length < fuel) :
    ∃ r, drainBlocks fuel e = some r ∧
      (∀ data, e.complete data = r >>= fun e ↦ e.complete data) ∧
      ∀ e', r = .ok e' → e'.bufferSize = e.bufferSize ∧ e'.buffer.length < e.bufferSize := by
  induction fuel generalizing e with
  | zero => omega
  | succ fuel ih =>
    rw [drainBlocks]
    by_cases hle : e.bufferSize ≤ e.buffer.length
    · rw [if_pos hle]
      have hcomplete := complete_of_le hpos hle
      rcases h : e.drained.encryptBlock (e.buffer.take e.bufferSize) with err | e₁
      · rw [h] at hcomplete
        exact ⟨.error err, rfl, hcomplete, nofun⟩
      · obtain ⟨-, hsize, hbuffer⟩ := encryptBlock_eq_ok h
        have hlen : e₁.buffer.length < fuel := by
          rw [hbuffer, drained, List.length_drop]
          omega
        obtain ⟨r, hr, hr', hdone⟩ := ih (hsize ▸ hpos) hlen
        rw [hsize] at hdone
        rw [h] at hcomplete
        exact ⟨r, hr, fun data ↦ (hcomplete data).trans (hr' data), hdone⟩
    · rw [if_neg hle]
      refine ⟨.ok e, rfl, fun _ ↦ rfl, ?_⟩
      rintro e' h
      cases h
      exact ⟨rfl, not_le.mp hle⟩

theorem finalize_eq (hlt : e.buffer.length < e.bufferSize) : e.finalize = e.complete [] := by
  rw [finalize, complete, List.append_nil, List.blocks_of_lt hlt]
  by_cases hne : e.buffer = []
  · rw [if_neg (not_not.mpr hne), if_pos hne]
    show _ = Except.ok (e.writer ++ [])
    rw [List.append_nil]
  · rw [if_pos hne, if_neg hne, sealBlocks_encryptBlock]
    rcases e.encryptBlock e.buffer with err | e'
    · rfl
    · show _ = Except.ok (e'.writer ++ [])
      rw [List.append_nil]
      rfl

/-- **Encrypting in parts is encrypting the whole text**, whatever is in the buffer. -/
theorem run_eq {fuel : ℕ} (hlt : e.buffer.length < e.bufferSize)
    (hfuel : e.bufferSize + parts.flatten.length < fuel) :
    e.run fuel parts = some (e.complete parts.flatten) := by
  induction parts generalizing e with
  | nil => rw [run, finalize_eq hlt, List.flatten_nil]
  | cons part parts ih =>
    rw [List.flatten_cons, List.length_append] at hfuel
    have hpos : 0 < e.bufferSize := by omega
    have henough : (e.buffer ++ part).length < fuel := by
      rw [List.length_append]
      omega
    obtain ⟨r, hr, hcomplete, hdone⟩ :=
      drainBlocks_spec (e := { e with buffer := e.buffer ++ part }) hpos henough
    have hpart : e.complete (part ++ parts.flatten) = r >>= fun e ↦ e.complete parts.flatten := by
      rw [← hcomplete, complete, complete, List.append_assoc]
    rw [run, update, hr, List.flatten_cons, hpart]
    rcases r with err | e'
    · rfl
    · obtain ⟨hsize, hlt'⟩ := hdone e' rfl
      dsimp only at hsize hlt'
      exact ih (hsize ▸ hlt') (by omega)

theorem drainBlocks_mono {fuel fuel' : ℕ} {r : Except StreamError StreamingEncryptor}
    (h : drainBlocks fuel e = some r) (hle : fuel ≤ fuel') : drainBlocks fuel' e = some r := by
  induction fuel generalizing e fuel' with
  | zero => cases h
  | succ fuel ih =>
    obtain ⟨fuel', rfl⟩ := Nat.exists_eq_add_of_le' (Nat.succ_le_of_lt (Nat.lt_of_lt_of_le
      fuel.succ_pos hle))
    rw [drainBlocks] at h ⊢
    split at h
    · next hfull =>
      rw [if_pos hfull]
      split at h
      · exact h
      · exact ih h (Nat.le_of_succ_le_succ hle)
    · next hshort =>
      rw [if_neg hshort]
      exact h

theorem run_mono {fuel fuel' : ℕ} {r : Except StreamError Bytes}
    (h : e.run fuel parts = some r) (hle : fuel ≤ fuel') : e.run fuel' parts = some r := by
  induction parts generalizing e with
  | nil => exact h
  | cons part parts ih =>
    rw [run] at h ⊢
    rcases hupdate : e.update fuel part with _ | (err | e')
    · rw [hupdate] at h
      cases h
    · rw [hupdate] at h
      rw [update, drainBlocks_mono hupdate hle]
      exact h
    · rw [hupdate] at h
      rw [update, drainBlocks_mono hupdate hle]
      exact ih h

/-- With no room in its buffer the encryptor never comes back from an update. -/
theorem drainBlocks_ne_ok (hzero : e.bufferSize = 0) (fuel : ℕ) (e' : StreamingEncryptor) :
    drainBlocks fuel e ≠ some (.ok e') := by
  induction fuel generalizing e with
  | zero => exact nofun
  | succ fuel ih =>
    rw [drainBlocks, if_pos (by omega)]
    rcases h : e.drained.encryptBlock (e.buffer.take e.bufferSize) with err | e₁
    · exact nofun
    · obtain ⟨-, hsize, -⟩ := encryptBlock_eq_ok h
      exact ih (hsize.trans hzero)

end StreamingEncryptor

theorem encrypts_iff {bufferSize : ℕ} (hpos : 0 < bufferSize)
    (hlt : bufferSize < 2 ^ 63) {result : Except StreamError Bytes} :
    Encrypts c bufferSize parts result ↔
      result = sealBlocks c 0 (parts.flatten.blocks bufferSize) := by
  rw [Encrypts, StreamingEncryptor.new, if_pos hlt]
  dsimp only
  have hcomplete : ∀ data, StreamingEncryptor.complete ⟨c, [], [], bufferSize, 0⟩ data =
      sealBlocks c 0 (data.blocks bufferSize) := by
    intro data
    show Except.map _ (sealBlocks c 0 (data.blocks bufferSize)) = _
    rcases sealBlocks c 0 (data.blocks bufferSize) with err | out <;> rfl
  have hrun : ∀ fuel, bufferSize + parts.flatten.length < fuel →
      StreamingEncryptor.run fuel ⟨c, [], [], bufferSize, 0⟩ parts =
        some (sealBlocks c 0 (parts.flatten.blocks bufferSize)) := by
    intro fuel hfuel
    rw [← hcomplete]
    exact StreamingEncryptor.run_eq hpos hfuel
  constructor
  · rintro ⟨fuel, hfuel⟩
    have henough := StreamingEncryptor.run_mono hfuel
      (le_max_left fuel (bufferSize + parts.flatten.length + 1))
    rw [hrun _ (Nat.lt_of_succ_le (le_max_right fuel _))] at henough
    exact (Option.some_inj.mp henough).symm
  · rintro rfl
    exact ⟨_, hrun _ (Nat.lt_succ_self _)⟩

/-- Without room in its buffer the encryptor writes nothing for a text that has a part. -/
theorem not_encrypts_of_zero {part output : Bytes} :
    ¬ Encrypts c 0 (part :: parts) (.ok output) := by
  rw [Encrypts, StreamingEncryptor.new, if_pos (by decide)]
  rintro ⟨fuel, hfuel⟩
  rw [StreamingEncryptor.run] at hfuel
  split at hfuel
  · cases hfuel
  · cases hfuel
  · next e' hupdate => exact StreamingEncryptor.drainBlocks_ne_ok rfl fuel e' hupdate

end Encryption

/-! ## Reading the blocks back -/

section Decryption

variable [Aead] {chunkIndex : UInt32}

namespace StreamCipher

variable {c : StreamCipher} {chunkIndex next : UInt32} {block encrypted : Bytes}

omit [Aead] in
theorem bump_eq_ok : c.bump chunkIndex = .ok next ↔
    (c.overflowChecks = true → chunkIndex.toNat + 1 ≠ 2 ^ 32) ∧ next = chunkIndex + 1 := by
  rw [bump]
  split
  · next h => exact iff_of_false nofun fun h' ↦ h'.1 h.1 h.2
  · next h =>
    rw [Except.ok.injEq, eq_comm]
    exact (and_iff_right fun hc hlast ↦ h ⟨hc, hlast⟩).symm

theorem openBlock_sealBlock [LawfulAead] (h : c.sealBlock chunkIndex block = .ok encrypted) :
    c.openBlock chunkIndex encrypted = .ok block := by
  rw [sealBlock] at h
  rw [openBlock]
  rcases halgorithm : c.algorithm with - | cipher
  · rw [halgorithm] at h
    exact congrArg Except.ok (Except.ok.inj h).symm
  · rw [halgorithm] at h
    obtain ⟨key, hkey, h⟩ := Except.bind_eq_ok.mp h
    rw [Except.ofOption_eq_ok] at hkey h
    exact Except.bind_eq_ok.mpr ⟨key, Except.ofOption_eq_ok.mpr hkey,
      Except.ofOption_eq_ok.mpr (LawfulAead.decrypt_encrypt h)⟩

theorem length_openBlock [LawfulAead] (h : c.openBlock chunkIndex encrypted = .ok block) :
    encrypted.length = block.length + c.algorithm.tagSize := by
  rw [openBlock] at h
  rcases halgorithm : c.algorithm with - | cipher
  · rw [halgorithm] at h
    exact congrArg List.length (Except.ok.inj h)
  · rw [halgorithm] at h
    obtain ⟨key, -, h⟩ := Except.bind_eq_ok.mp h
    exact LawfulAead.length_decrypt (Except.ofOption_eq_ok.mp h)

theorem length_sealBlock [LawfulAead] (h : c.sealBlock chunkIndex block = .ok encrypted) :
    encrypted.length = block.length + c.algorithm.tagSize :=
  length_openBlock (openBlock_sealBlock h)

end StreamCipher

theorem sealBlocks_cons_eq_ok {block output : Bytes} {blocks : List Bytes} :
    sealBlocks c chunkIndex (block :: blocks) = .ok output ↔
      ∃ encrypted next rest, c.sealBlock chunkIndex block = .ok encrypted ∧
        c.bump chunkIndex = .ok next ∧ sealBlocks c next blocks = .ok rest ∧
        output = toLe 4 encrypted.length ++ encrypted ++ rest := by
  constructor
  · intro h
    obtain ⟨encrypted, hencrypted, h⟩ := Except.bind_eq_ok.mp h
    obtain ⟨next, hnext, h⟩ := Except.bind_eq_ok.mp h
    obtain ⟨rest, hrest, h⟩ := Except.bind_eq_ok.mp h
    cases h
    exact ⟨encrypted, next, rest, hencrypted, hnext, hrest, rfl⟩
  · rintro ⟨encrypted, next, rest, hencrypted, hnext, hrest, rfl⟩
    exact Except.bind_eq_ok.mpr ⟨encrypted, hencrypted, Except.bind_eq_ok.mpr ⟨next, hnext,
      Except.bind_eq_ok.mpr ⟨rest, hrest, rfl⟩⟩⟩

theorem length_sealBlocks [LawfulAead]
    {blocks : List Bytes} {output : Bytes} (h : sealBlocks c chunkIndex blocks = .ok output) :
    output.length = blocks.flatten.length + blocks.length * (4 + c.algorithm.tagSize) := by
  induction blocks generalizing chunkIndex output with
  | nil =>
    cases h
    simp
  | cons block blocks ih =>
    obtain ⟨encrypted, next, rest, hencrypted, -, hrest, rfl⟩ := sealBlocks_cons_eq_ok.mp h
    rw [List.length_append, List.length_append, length_toLe, ih hrest,
      StreamCipher.length_sealBlock hencrypted, List.flatten_cons, List.length_append,
      List.length_cons]
    ring

namespace StreamingDecryptor

variable {d : StreamingDecryptor}

theorem readBlock_toLe {size : ℕ} {rest : Bytes} (hsize : size < 256 ^ 4) :
    readBlock ⟨c, toLe 4 size ++ rest, chunkIndex⟩ = do
      ensure (size ≤ maxBlockSize)
        (.corruptedData "Block size <= 1MB" (toString size ++ " bytes"))
      ensure (size ≤ rest.length) .unexpectedEof
      let decrypted ← c.openBlock chunkIndex (rest.take size)
      let next ← c.bump chunkIndex
      return some (decrypted, ⟨c, rest.drop size, next⟩) := by
  have hlong : ¬ (toLe 4 size ++ rest).length < 4 := by
    rw [List.length_append, length_toLe]
    omega
  have htake : ofLe ((toLe 4 size ++ rest).take 4) = size := by
    rw [List.take_left' (length_toLe _ _)]
    exact ofLe_toLe hsize
  have hdrop : (toLe 4 size ++ rest).drop 4 = rest := List.drop_left' (length_toLe _ _)
  rw [readBlock]
  dsimp only
  rw [if_neg hlong, htake, hdrop]

theorem readBlock_of_large {size : ℕ} {rest : Bytes}
    (hlarge : maxBlockSize < size) (hsize : size < 256 ^ 4) :
    readBlock ⟨c, toLe 4 size ++ rest, chunkIndex⟩ =
      .error (.corruptedData "Block size <= 1MB" (toString size ++ " bytes")) := by
  rw [readBlock_toLe hsize, ensure, if_neg (not_le.mpr hlarge)]
  rfl

theorem readBlock_of_cut {size : ℕ} {rest : Bytes}
    (hsize : size ≤ maxBlockSize) (hcut : rest.length < size) :
    readBlock ⟨c, toLe 4 size ++ rest, chunkIndex⟩ = .error .unexpectedEof := by
  rw [readBlock_toLe (lt_of_le_of_lt hsize (by decide)), ensure, if_pos hsize, ensure,
    if_neg (not_le.mpr hcut)]
  rfl

theorem readBlock_sealed [LawfulAead] {chunkIndex next : UInt32}
    {block encrypted rest : Bytes} (hencrypted : c.sealBlock chunkIndex block = .ok encrypted)
    (hnext : c.bump chunkIndex = .ok next) (hlen : encrypted.length ≤ maxBlockSize) :
    readBlock ⟨c, toLe 4 encrypted.length ++ encrypted ++ rest, chunkIndex⟩ =
      .ok (some (block, ⟨c, rest, next⟩)) := by
  rw [List.append_assoc, readBlock_toLe (lt_of_le_of_lt hlen (by decide)), List.take_left,
    List.drop_left]
  refine Except.bind_eq_ok.mpr ⟨(), ensure_eq_ok.mpr hlen, ?_⟩
  refine Except.bind_eq_ok.mpr ⟨(), ensure_eq_ok.mpr ?_, ?_⟩
  · rw [List.length_append]
    exact Nat.le_add_right _ _
  · exact Except.bind_eq_ok.mpr ⟨block, StreamCipher.openBlock_sealBlock hencrypted,
      Except.bind_eq_ok.mpr ⟨next, hnext, rfl⟩⟩

theorem readBlock_cases {block : Bytes} {d' : StreamingDecryptor}
    (h : d.readBlock = .ok (some (block, d'))) :
    ∃ encrypted : Bytes, 4 + encrypted.length + d'.reader.length = d.reader.length ∧
      encrypted.length = ofLe (d.reader.take 4) ∧ encrypted.length ≤ maxBlockSize ∧
      d.cipher.openBlock d.chunkIndex encrypted = .ok block ∧ d'.cipher = d.cipher := by
  rw [readBlock] at h
  split at h
  · cases h
  · next hlong =>
    obtain ⟨⟨⟩, hmax, h⟩ := Except.bind_eq_ok.mp h
    obtain ⟨⟨⟩, hroom, h⟩ := Except.bind_eq_ok.mp h
    obtain ⟨decrypted, hopen, h⟩ := Except.bind_eq_ok.mp h
    obtain ⟨next, -, h⟩ := Except.bind_eq_ok.mp h
    rw [ensure_eq_ok] at hmax hroom
    cases h
    rw [List.length_drop] at hroom
    have hlen : ((d.reader.drop 4).take (ofLe (d.reader.take 4))).length =
        ofLe (d.reader.take 4) := by
      rw [List.length_take, List.length_drop]
      omega
    refine ⟨(d.reader.drop 4).take (ofLe (d.reader.take 4)), ?_, hlen, ?_, hopen, rfl⟩
    · dsimp only
      rw [hlen, List.length_drop, List.length_drop]
      omega
    · rw [hlen]
      exact hmax

theorem length_lt_of_readBlock (h : d.readBlock = .ok none) : d.reader.length < 4 := by
  by_contra hlong
  rw [readBlock, if_neg hlong] at h
  simp only [Except.bind_eq_ok] at h
  obtain ⟨_, -, _, -, _, -, _, -, h⟩ := h
  cases h

theorem readBlocks_cases [LawfulAead] {fuel : ℕ} {out : Bytes}
    (h : readBlocks fuel d = some (.ok out)) :
    ∃ blocks rest, rest < 4 ∧
      d.reader.length = out.length + blocks * (4 + d.cipher.algorithm.tagSize) + rest ∧
      out.length + blocks * d.cipher.algorithm.tagSize ≤ blocks * maxBlockSize := by
  induction fuel generalizing d out with
  | zero => cases h
  | succ fuel ih =>
    rw [readBlocks] at h
    split at h
    · cases h
    · next hread =>
      cases h
      exact ⟨0, d.reader.length, length_lt_of_readBlock hread, by simp, by simp⟩
    · next block d' hread =>
      obtain ⟨r, hr, hmap⟩ := Option.map_eq_some_iff.mp h
      rcases r with err | rest
      · cases hmap
      · cases hmap
        obtain ⟨encrypted, hlen, -, hmax, hopen, hcipher⟩ := readBlock_cases hread
        obtain ⟨blocks, left, hleft, hreader, hbound⟩ := ih hr
        have htag := StreamCipher.length_openBlock hopen
        rw [hcipher] at hreader hbound
        refine ⟨blocks + 1, left, hleft, ?_, ?_⟩
        · rw [← hlen, hreader, htag, List.length_append]
          ring
        · rw [List.length_append, Nat.add_one_mul, Nat.add_one_mul]
          omega

end StreamingDecryptor

end Decryption

end Streaming

end RosheraCad
