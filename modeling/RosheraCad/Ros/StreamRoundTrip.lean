import RosheraCad.Ros.Streaming

/-!
# The round trip of a stream

A text comes back from its stream when it fits: the encryptor has room for it, the key is one of the
cipher, the longest block is one the decryptor reads, and the blocks can be numbered. A longer text
would take more blocks than were written.
-/

namespace RosheraCad

namespace Streaming

section

variable [Aead] {c : StreamCipher} {bufferSize : ℕ}

/-! ## Reading a stream -/

section

variable {c : StreamCipher} {chunkIndex : UInt32} {blocks : List Bytes} {output : Bytes}

theorem exists_sealBlocks
    (hseal : ∀ block ∈ blocks, ∀ i, ∃ encrypted, c.sealBlock i block = .ok encrypted)
    (hcount : c.overflowChecks = true → chunkIndex.toNat + blocks.length < 2 ^ 32) :
    ∃ output, sealBlocks c chunkIndex blocks = .ok output := by
  induction blocks generalizing chunkIndex with
  | nil => exact ⟨[], rfl⟩
  | cons block blocks ih =>
    rw [List.forall_mem_cons] at hseal
    rw [List.length_cons] at hcount
    obtain ⟨encrypted, hencrypted⟩ := hseal.1 chunkIndex
    have hnext : c.bump chunkIndex = .ok (chunkIndex + 1) := by
      refine StreamCipher.bump_eq_ok.mpr ⟨fun hc ↦ ?_, rfl⟩
      have hlt := hcount hc
      omega
    obtain ⟨rest, hrest⟩ := @ih (chunkIndex + 1) hseal.2 fun hc ↦ by
      have hlt := hcount hc
      have hone : (1 : UInt32).toNat = 1 := rfl
      rw [UInt32.toNat_add, hone, Nat.mod_eq_of_lt (by omega)]
      omega
    exact ⟨_, sealBlocks_cons_eq_ok.mpr ⟨encrypted, _, rest, hencrypted, hnext, hrest, rfl⟩⟩

theorem length_lt_of_sealBlocks (h : sealBlocks c chunkIndex blocks = .ok output)
    (hc : c.overflowChecks = true) : chunkIndex.toNat + blocks.length < 2 ^ 32 := by
  induction blocks generalizing chunkIndex output with
  | nil => exact chunkIndex.toNat_lt
  | cons block blocks ih =>
    obtain ⟨encrypted, next, rest, -, hnext, hrest, -⟩ := sealBlocks_cons_eq_ok.mp h
    obtain ⟨hlast, rfl⟩ := StreamCipher.bump_eq_ok.mp hnext
    have hlt := ih hrest
    have hne := hlast hc
    have hindex := chunkIndex.toNat_lt
    have hone : (1 : UInt32).toNat = 1 := rfl
    rw [UInt32.toNat_add, hone, Nat.mod_eq_of_lt (by omega)] at hlt
    rw [List.length_cons]
    omega

theorem readBlocks_sealBlocks [LawfulAead] (h : sealBlocks c chunkIndex blocks = .ok output)
    (hlen : ∀ block ∈ blocks, block.length + c.algorithm.tagSize ≤ maxBlockSize) {rest : Bytes}
    (hrest : rest.length < 4) {fuel : ℕ} (hfuel : blocks.length < fuel) :
    StreamingDecryptor.readBlocks fuel ⟨c, output ++ rest, chunkIndex⟩ =
      some (.ok blocks.flatten) := by
  induction blocks generalizing chunkIndex output fuel with
  | nil =>
    cases h
    cases fuel with
    | zero => exact absurd hfuel (Nat.not_lt_zero _)
    | succ fuel =>
      rw [StreamingDecryptor.readBlocks, StreamingDecryptor.readBlock, List.nil_append,
        if_pos hrest]
      rfl
  | cons block blocks ih =>
    obtain ⟨encrypted, next, output, hencrypted, hnext, houtput, rfl⟩ :=
      sealBlocks_cons_eq_ok.mp h
    rw [List.forall_mem_cons] at hlen
    rw [List.length_cons] at hfuel
    have hmax : encrypted.length ≤ maxBlockSize := by
      rw [StreamCipher.length_sealBlock hencrypted]
      exact hlen.1
    cases fuel with
    | zero => exact absurd hfuel (Nat.not_lt_zero _)
    | succ fuel =>
      rw [StreamingDecryptor.readBlocks, List.append_assoc _ output,
        StreamingDecryptor.readBlock_sealed hencrypted hnext hmax]
      dsimp only
      rw [ih houtput hlen.2 (by omega)]
      rfl

end

/-! ## Texts that fit -/

def StreamCipher.KeyFits (c : StreamCipher) : Prop :=
  c.algorithm = .none ∨ c.key.material.length = 32

/-- What a text has to be to come back. -/
structure Fits (c : StreamCipher) (bufferSize : ℕ) (data : Bytes) : Prop where
  pos : 0 < bufferSize
  lt : bufferSize < 2 ^ 63
  key : data ≠ [] → c.KeyFits
  block : data ≠ [] → min bufferSize data.length + c.algorithm.tagSize ≤ maxBlockSize
  count : c.overflowChecks = true → data.length ≤ (2 ^ 32 - 1) * bufferSize

/-- Encryption ends with one output for all ways to split a text, and decryption gives it back. -/
def RoundTrips (c : StreamCipher) (bufferSize : ℕ) (data : Bytes) : Prop :=
  ∃ output,
    (∀ parts : List Bytes, parts.flatten = data → Encrypts c bufferSize parts (.ok output)) ∧
    (StreamingDecryptor.new c output).readAll = some (.ok data)

def BlocksEncrypt : Prop :=
  ∀ (cipher : Cipher) (key : ByteVec 32) (iv : ByteVec 12) (block : Bytes),
    block.length ≤ maxBlockSize → (Aead.encrypt cipher key iv [] block).isSome

theorem StreamCipher.KeyFits.exists_sealBlock (hkey : c.KeyFits)
    (hencrypt : BlocksEncrypt) {block : Bytes} (hlen : block.length ≤ maxBlockSize)
    (chunkIndex : UInt32) : ∃ encrypted, c.sealBlock chunkIndex block = .ok encrypted := by
  rw [sealBlock]
  rcases halgorithm : c.algorithm with - | cipher
  · exact ⟨block, rfl⟩
  · have hmaterial : c.key.material.length = 32 :=
      hkey.resolve_left fun h ↦ by rw [halgorithm] at h; cases h
    obtain ⟨key, hcipherKey⟩ := Option.isSome_iff_exists.mp
      (Keys.SecureKey.isSome_cipherKey.mpr hmaterial)
    obtain ⟨encrypted, hencrypted⟩ := Option.isSome_iff_exists.mp
      (hencrypt cipher key (c.blockIv chunkIndex) block hlen)
    exact ⟨encrypted, Except.bind_eq_ok.mpr ⟨key, Except.ofOption_eq_ok.mpr hcipherKey,
      Except.ofOption_eq_ok.mpr hencrypted⟩⟩

theorem StreamCipher.keyFits_of_sealBlock {chunkIndex : UInt32}
    {block encrypted : Bytes} (h : c.sealBlock chunkIndex block = .ok encrypted) : c.KeyFits := by
  rw [sealBlock] at h
  rcases halgorithm : c.algorithm with - | cipher
  · exact .inl halgorithm
  · rw [halgorithm] at h
    obtain ⟨key, hkey, -⟩ := Except.bind_eq_ok.mp h
    refine .inr (Keys.SecureKey.isSome_cipherKey.mp ?_)
    rw [Except.ofOption_eq_ok.mp hkey, Option.isSome_some]

namespace Fits

variable {c : StreamCipher} {bufferSize : ℕ} {data : Bytes}

omit [Aead] in
theorem length_le (h : Fits c bufferSize data) :
    ∀ block ∈ data.blocks bufferSize, block.length + c.algorithm.tagSize ≤ maxBlockSize := by
  intro block hblock
  have hne : data ≠ [] := by
    rintro rfl
    rw [List.blocks_nil] at hblock
    cases hblock
  have hle := List.length_le_of_mem_blocks h.pos data block hblock
  have hmax := h.block hne
  omega

theorem exists_output (h : Fits c bufferSize data) (hencrypt : BlocksEncrypt) :
    ∃ output, sealBlocks c 0 (data.blocks bufferSize) = .ok output := by
  refine exists_sealBlocks (fun block hblock i ↦ ?_) fun hc ↦ ?_
  · have hne : data ≠ [] := by
      rintro rfl
      rw [List.blocks_nil] at hblock
      cases hblock
    have hle := h.length_le block hblock
    exact (h.key hne).exists_sealBlock hencrypt (by omega) i
  · have hzero : (0 : UInt32).toNat = 0 := rfl
    obtain ⟨-, hlt⟩ := List.length_blocks_bounds h.pos data
    have hle := h.count hc
    rw [hzero, Nat.zero_add]
    have hmul : (data.blocks bufferSize).length * bufferSize < 2 ^ 32 * bufferSize := by omega
    exact Nat.lt_of_mul_lt_mul_right hmul

/-- **A text that fits comes back**, however it is split. -/
theorem roundTrips [LawfulAead] (h : Fits c bufferSize data) (hencrypt : BlocksEncrypt) :
    RoundTrips c bufferSize data := by
  obtain ⟨output, houtput⟩ := h.exists_output hencrypt
  refine ⟨output, fun parts hparts ↦ ?_, ?_⟩
  · rw [encrypts_iff h.pos h.lt, hparts, houtput]
  · have hlen := length_sealBlocks houtput
    have hend : ([] : Bytes).length < 4 := by decide
    have hfuel : (data.blocks bufferSize).length < output.length + 1 := by
      rw [hlen, Nat.mul_add]
      omega
    have hread := readBlocks_sealBlocks houtput h.length_le hend hfuel
    rw [List.append_nil, List.flatten_blocks h.pos] at hread
    exact hread

end Fits

theorem ofLe_of_readAll [LawfulAead] {data output : Bytes}
    (hpos : 0 < bufferSize) (hle : bufferSize ≤ data.length)
    (houtput : sealBlocks c 0 (data.blocks bufferSize) = .ok output)
    (hread : (StreamingDecryptor.new c output).readAll = some (.ok data)) :
    ofLe (toLe 4 (bufferSize + c.algorithm.tagSize)) ≤ maxBlockSize := by
  rw [List.blocks_of_le hpos hle] at houtput
  obtain ⟨encrypted, next, rest, hencrypted, -, -, rfl⟩ := sealBlocks_cons_eq_ok.mp houtput
  have hlen := StreamCipher.length_sealBlock hencrypted
  rw [List.length_take_of_le hle] at hlen
  have htake : (toLe 4 encrypted.length ++ encrypted ++ rest).take 4 =
      toLe 4 (bufferSize + c.algorithm.tagSize) := by
    rw [List.append_assoc, List.take_left' (length_toLe _ _), hlen]
  rw [StreamingDecryptor.readAll, StreamingDecryptor.readBlocks] at hread
  split at hread
  · cases hread
  · next hnone =>
    -- the stream does not end inside its first length
    have hshort : (toLe 4 encrypted.length ++ encrypted ++ rest).length < 4 :=
      StreamingDecryptor.length_lt_of_readBlock hnone
    rw [List.append_assoc, List.length_append, length_toLe] at hshort
    omega
  · next block d' hsome =>
    obtain ⟨opened, -, hopened, hmax, -⟩ := StreamingDecryptor.readBlock_cases hsome
    rw [← htake]
    exact hopened ▸ hmax

theorem length_of_readAll [LawfulAead] {data output : Bytes}
    (hpos : 0 < bufferSize) (hne : data ≠ [])
    (houtput : sealBlocks c 0 (data.blocks bufferSize) = .ok output)
    (hread : (StreamingDecryptor.new c output).readAll = some (.ok data)) :
    min bufferSize data.length + c.algorithm.tagSize ≤ maxBlockSize := by
  have hlen := length_sealBlocks houtput
  rw [List.flatten_blocks hpos] at hlen
  obtain ⟨hceil, hfloor⟩ := List.length_blocks_bounds hpos data
  -- as many blocks were read as were written
  obtain ⟨blocks, rest, hrest, hreader, hbound⟩ := StreamingDecryptor.readBlocks_cases hread
  have hsame : blocks = (data.blocks bufferSize).length := by
    have hpos' : 0 < 4 + c.algorithm.tagSize := by omega
    have hcount : (data.blocks bufferSize).length * (4 + c.algorithm.tagSize) =
        rest + blocks * (4 + c.algorithm.tagSize) := by
      have hreader' : output.length =
          data.length + blocks * (4 + c.algorithm.tagSize) + rest := hreader
      omega
    rw [← Nat.mul_div_cancel (data.blocks bufferSize).length hpos', hcount,
      Nat.add_mul_div_right _ _ hpos', Nat.div_eq_of_lt (by omega), Nat.zero_add]
  have hbound : data.length + blocks * c.algorithm.tagSize ≤ blocks * maxBlockSize := hbound
  rw [hsame] at hbound
  obtain ⟨m, hm⟩ : ∃ m, (data.blocks bufferSize).length = m + 1 := by
    obtain ⟨bs, hbs⟩ := List.blocks_ne_nil hpos hne
    exact ⟨bs.length, by rw [hbs, List.length_cons]⟩
  rw [hm, Nat.add_one_mul] at hceil hfloor
  rw [hm, Nat.add_one_mul, Nat.add_one_mul] at hbound
  rcases Nat.eq_zero_or_pos m with rfl | hmpos
  · -- the only block is the text
    omega
  · have hfull : bufferSize < data.length := by
      have hle : 1 * bufferSize ≤ m * bufferSize := Nat.mul_le_mul_right _ hmpos
      omega
    have hfirst := ofLe_of_readAll hpos hfull.le houtput hread
    have htag : c.algorithm.tagSize ≤ 16 := by
      rcases c.algorithm with - | cipher
      · exact Nat.zero_le 16
      · exact le_rfl
    rw [min_eq_left hfull.le]
    by_contra hbig
    -- a length below the width is written as it is, and a longer one is out of all proportion
    rcases Nat.lt_or_ge (bufferSize + c.algorithm.tagSize) (256 ^ 4) with hlt | hge
    · rw [ofLe_toLe hlt] at hfirst
      omega
    · have hmul : m * (256 ^ 4 - 16) ≤ m * bufferSize := Nat.mul_le_mul_left _ (by omega)
      rw [maxBlockSize] at hbound
      omega

theorem RoundTrips.fits [LawfulAead] {data : Bytes}
    (h : RoundTrips c bufferSize data) : Fits c bufferSize data := by
  obtain ⟨output, hencrypts, hread⟩ := h
  have hpos : 0 < bufferSize := by
    -- an update with no bytes never comes back from an encryptor without room
    refine Nat.pos_of_ne_zero ?_
    rintro rfl
    exact not_encrypts_of_zero (hencrypts [[], data] (by simp))
  have hlt : bufferSize < 2 ^ 63 := by
    by_contra hlarge
    have hencrypt := hencrypts [data] (by simp)
    rw [Encrypts, StreamingEncryptor.new, if_neg hlarge] at hencrypt
    cases hencrypt
  have houtput : sealBlocks c 0 (data.blocks bufferSize) = .ok output := by
    have hencrypt := (encrypts_iff hpos hlt).mp (hencrypts [data] (by simp))
    rw [show [data].flatten = data by simp] at hencrypt
    exact hencrypt.symm
  obtain ⟨hceil, hfloor⟩ := List.length_blocks_bounds hpos data
  refine ⟨hpos, hlt, fun hne ↦ ?_, fun hne ↦ ?_, fun hc ↦ ?_⟩
  · obtain ⟨blocks, hblocks⟩ := List.blocks_ne_nil hpos hne
    rw [hblocks] at houtput
    obtain ⟨encrypted, -, -, hencrypted, -⟩ := sealBlocks_cons_eq_ok.mp houtput
    exact StreamCipher.keyFits_of_sealBlock hencrypted
  · exact length_of_readAll hpos hne houtput hread
  · have hcount := length_lt_of_sealBlocks houtput hc
    have hzero : (0 : UInt32).toNat = 0 := rfl
    rw [hzero, Nat.zero_add] at hcount
    exact hceil.trans (Nat.mul_le_mul_right _ (Nat.le_pred_of_lt hcount))

/-- **A text comes back exactly when it fits.** -/
theorem roundTrips_iff [LawfulAead] (hencrypt : BlocksEncrypt) (c : StreamCipher) (bufferSize : ℕ)
    (data : Bytes) : RoundTrips c bufferSize data ↔ Fits c bufferSize data :=
  ⟨RoundTrips.fits, fun h ↦ h.roundTrips hencrypt⟩

end

def exampleStream : StreamCipher where
  algorithm := .aead .aes256Gcm
  key := ⟨exampleDigest 16 [0], List.replicate 32 7⟩
  iv := exampleDigest 12 [1]
  overflowChecks := true

/-- Three bytes in blocks of two. -/
theorem roundTrips_three :
    letI := exampleAead
    RoundTrips exampleStream 2 [1, 2, 3] := by
  let := exampleAead
  have := lawful_exampleAead
  refine (roundTrips_iff (fun _ _ _ _ _ ↦ rfl) exampleStream 2 [1, 2, 3]).mpr ?_
  refine ⟨by decide, by decide, fun _ ↦ .inr rfl, fun _ ↦ ?_, fun _ ↦ by decide⟩
  show min 2 3 + 16 ≤ 1024 * 1024
  decide

/-- A mebibyte in one block is not read back, and without room in its buffer the encryptor never
ends. -/
theorem not_roundTrips_mebibyte :
    letI := exampleAead
    ¬ RoundTrips exampleStream (1024 * 1024) (List.replicate (1024 * 1024) 0) ∧
      ¬ RoundTrips exampleStream 0 [1, 2, 3] := by
  let := exampleAead
  have := lawful_exampleAead
  refine ⟨fun h ↦ ?_, fun h ↦ absurd h.fits.pos (Nat.lt_irrefl 0)⟩
  have hblock := h.fits.block (List.ne_nil_of_length_eq_add_one List.length_replicate)
  rw [List.length_replicate, min_self] at hblock
  have htag : exampleStream.algorithm.tagSize = 16 := rfl
  rw [htag, maxBlockSize] at hblock
  omega

end Streaming

end RosheraCad
