import RosheraCad.Ros.StreamRoundTrip

/-!
# Truncated streams

Nothing in a stream says how many blocks there are. A stream cut inside a block is refused; one cut
between two blocks, or inside a length, is read as the text of the blocks before the cut.
-/

namespace RosheraCad

namespace Streaming

section

variable [Aead]

def Refuses (c : StreamCipher) (stream : Bytes) : Prop :=
  ∃ err, err ≠ .panicked ∧ (StreamingDecryptor.new c stream).readAll = some (.error err)

/-- A cut after `n` bytes leaves the whole length of a block and not the whole block. -/
def EndsInBlock (tagSize : ℕ) : List Bytes → ℕ → Prop
  | [], _ => False
  | block :: blocks, n =>
    (4 ≤ n ∧ n < 4 + (block.length + tagSize)) ∨
      (4 + (block.length + tagSize) ≤ n ∧
        EndsInBlock tagSize blocks (n - (4 + (block.length + tagSize))))

variable {c : StreamCipher} {chunkIndex : UInt32} {blocks : List Bytes} {output : Bytes}

omit [Aead] in
theorem EndsInBlock.four_le {tagSize n : ℕ} (h : EndsInBlock tagSize blocks n) : 4 ≤ n := by
  cases blocks with
  | nil => exact h.elim
  | cons block blocks =>
    rcases h with ⟨hle, -⟩ | ⟨hle, -⟩
    · exact hle
    · omega

theorem readBlocks_take [LawfulAead] (h : sealBlocks c chunkIndex blocks = .ok output)
    (hlen : ∀ block ∈ blocks, block.length + c.algorithm.tagSize ≤ maxBlockSize) {n : ℕ}
    (hn : n < output.length) {fuel : ℕ} (hfuel : n < fuel) :
    (EndsInBlock c.algorithm.tagSize blocks n ∧
        StreamingDecryptor.readBlocks fuel ⟨c, output.take n, chunkIndex⟩ =
          some (.error .unexpectedEof)) ∨
      (¬ EndsInBlock c.algorithm.tagSize blocks n ∧
        ∃ before after, blocks = before ++ after ∧ after ≠ [] ∧
          StreamingDecryptor.readBlocks fuel ⟨c, output.take n, chunkIndex⟩ =
            some (.ok before.flatten)) := by
  induction blocks generalizing chunkIndex output n fuel with
  | nil =>
    cases h
    exact absurd hn (Nat.not_lt_zero _)
  | cons block blocks ih =>
    obtain ⟨encrypted, next, rest, hencrypted, hnext, hrest, rfl⟩ := sealBlocks_cons_eq_ok.mp h
    rw [List.forall_mem_cons] at hlen
    have hsize := StreamCipher.length_sealBlock hencrypted
    have hmax : encrypted.length ≤ maxBlockSize := hsize ▸ hlen.1
    rw [List.length_append, List.length_append, length_toLe] at hn
    obtain ⟨fuel, rfl⟩ : ∃ k, fuel = k + 1 := ⟨fuel - 1, by omega⟩
    rw [EndsInBlock, ← hsize, StreamingDecryptor.readBlocks]
    rcases Nat.lt_or_ge n 4 with hlength | hlength
    · -- the cut is in the length
      refine .inr ⟨by omega, [], block :: blocks, rfl, List.cons_ne_nil _ _, ?_⟩
      rw [StreamingDecryptor.readBlock, if_pos (by dsimp only; rw [List.length_take]; omega)]
      rfl
    · rcases Nat.lt_or_ge n (4 + encrypted.length) with hbody | hbody
      · refine .inl ⟨.inl ⟨hlength, hbody⟩, ?_⟩
        have htake : (toLe 4 encrypted.length ++ encrypted ++ rest).take n =
            toLe 4 encrypted.length ++ (encrypted ++ rest).take (n - 4) := by
          rw [List.append_assoc, List.take_append, length_toLe,
            List.take_of_length_le (by rw [length_toLe]; exact hlength)]
        have hcut : ((encrypted ++ rest).take (n - 4)).length < encrypted.length := by
          rw [List.length_take]
          omega
        rw [htake, StreamingDecryptor.readBlock_of_cut hmax hcut]
      · -- the block is whole, and the cut is in what follows
        have hframe : (toLe 4 encrypted.length ++ encrypted).length = 4 + encrypted.length := by
          rw [List.length_append, length_toLe]
        have htake : (toLe 4 encrypted.length ++ encrypted ++ rest).take n =
            toLe 4 encrypted.length ++ encrypted ++ rest.take (n - (4 + encrypted.length)) := by
          rw [List.take_append, hframe, List.take_of_length_le (by rw [hframe]; exact hbody)]
        rw [htake, StreamingDecryptor.readBlock_sealed hencrypted hnext hmax]
        dsimp only
        have hcut : n - (4 + encrypted.length) < rest.length := by omega
        have hfuel' : n - (4 + encrypted.length) < fuel := by omega
        rcases ih hrest hlen.2 hcut hfuel' with
          ⟨hends, hread⟩ | ⟨hends, before, after, rfl, hafter, hread⟩
        · rw [hread]
          exact .inl ⟨.inr ⟨hbody, hends⟩, rfl⟩
        · rw [hread]
          refine .inr ⟨?_, block :: before, after, rfl, hafter, rfl⟩
          rintro (⟨-, hlt⟩ | ⟨-, hends'⟩)
          · omega
          · exact hends hends'

/-! ## What is refused -/

theorem sealBlocks_of_encrypts {bufferSize : ℕ} {parts : List Bytes}
    (h : Encrypts c bufferSize parts (.ok output)) (hne : parts.flatten ≠ []) :
    0 < bufferSize ∧ sealBlocks c 0 (parts.flatten.blocks bufferSize) = .ok output := by
  have hpos : 0 < bufferSize := by
    refine Nat.pos_of_ne_zero ?_
    rintro rfl
    cases parts with
    | nil => exact hne rfl
    | cons part parts => exact not_encrypts_of_zero h
  have hlt : bufferSize < 2 ^ 63 := by
    by_contra hlarge
    rw [Encrypts, StreamingEncryptor.new, if_neg hlarge] at h
    cases h
  exact ⟨hpos, ((encrypts_iff hpos hlt).mp h).symm⟩

theorem output_eq_nil {bufferSize : ℕ} {parts : List Bytes}
    (h : Encrypts c bufferSize parts (.ok output)) (hnil : parts.flatten = []) : output = [] := by
  have hlt : bufferSize < 2 ^ 63 := by
    by_contra hlarge
    rw [Encrypts, StreamingEncryptor.new, if_neg hlarge] at h
    cases h
  rcases Nat.eq_zero_or_pos bufferSize with rfl | hpos
  · cases parts with
    | nil =>
      obtain ⟨fuel, hrun⟩ := h
      exact (Except.ok.inj (Option.some.inj hrun)).symm
    | cons part parts => exact absurd h not_encrypts_of_zero
  · have hseal := (encrypts_iff hpos hlt).mp h
    rw [hnil, List.blocks_nil] at hseal
    exact Except.ok.inj hseal

theorem readAll_take_of_lt {n : ℕ} (hn : n < 4) :
    (StreamingDecryptor.new c (output.take n)).readAll = some (.ok []) := by
  rw [StreamingDecryptor.readAll, StreamingDecryptor.readBlocks, StreamingDecryptor.readBlock,
    if_pos]
  rw [StreamingDecryptor.new, List.length_take]
  omega

theorem refuses_of_large {size : ℕ} {rest : Bytes} (hlarge : maxBlockSize < size)
    (hsize : size < 256 ^ 4) : Refuses c (toLe 4 size ++ rest) := by
  refine ⟨.corruptedData "Block size <= 1MB" (toString size ++ " bytes"), nofun, ?_⟩
  rw [StreamingDecryptor.readAll, StreamingDecryptor.readBlocks, StreamingDecryptor.new,
    StreamingDecryptor.readBlock_of_large hlarge hsize]

theorem refuses_take_iff_endsInBlock [LawfulAead] (h : sealBlocks c 0 blocks = .ok output)
    (hlen : ∀ block ∈ blocks, block.length + c.algorithm.tagSize ≤ maxBlockSize) {n : ℕ}
    (hn : n < output.length) :
    Refuses c (output.take n) ↔ EndsInBlock c.algorithm.tagSize blocks n := by
  have hfuel : n < (output.take n).length + 1 := by
    rw [List.length_take]
    omega
  rcases readBlocks_take h hlen hn hfuel with ⟨hends, hread⟩ | ⟨hends, before, after, -, -, hread⟩
  · exact iff_of_true ⟨.unexpectedEof, nofun, hread⟩ hends
  · refine iff_of_false ?_ hends
    rintro ⟨err, -, herr⟩
    have hsame := hread.symm.trans herr
    cases hsame

/-- **Which cuts are refused.** All cuts are, exactly for the empty text. A cut is refused exactly
when it leaves the length of a block and not the block, or a length the decryptor refuses. -/
theorem refuses_take_iff [LawfulAead] {bufferSize : ℕ} {parts : List Bytes}
    (h : Encrypts c bufferSize parts (.ok output)) :
    ((∀ n < output.length, Refuses c (output.take n)) ↔ parts.flatten = []) ∧
      (min bufferSize parts.flatten.length + c.algorithm.tagSize < 2 ^ 32 →
        ∀ n < output.length, (Refuses c (output.take n) ↔
          4 ≤ n ∧ (maxBlockSize < min bufferSize parts.flatten.length + c.algorithm.tagSize ∨
            EndsInBlock c.algorithm.tagSize (parts.flatten.blocks bufferSize) n))) := by
  have hshort : ∀ n < 4, ¬ Refuses c (output.take n) := by
    rintro n hn ⟨err, -, herr⟩
    rw [readAll_take_of_lt hn] at herr
    cases herr
  refine ⟨⟨fun hall ↦ ?_, fun hnil n hn ↦ ?_⟩, fun hsize n hn ↦ ?_⟩
  · by_contra hne
    obtain ⟨hpos, hseal⟩ := sealBlocks_of_encrypts h hne
    obtain ⟨rest, hblocks⟩ := List.blocks_ne_nil hpos hne
    rw [hblocks] at hseal
    obtain ⟨encrypted, -, rest, -, -, -, rfl⟩ := sealBlocks_cons_eq_ok.mp hseal
    refine hshort 0 (by decide) (hall 0 ?_)
    rw [List.append_assoc, List.length_append, length_toLe]
    omega
  · rw [output_eq_nil h hnil] at hn
    exact absurd hn (Nat.not_lt_zero n)
  · have hne : parts.flatten ≠ [] := by
      intro hnil
      rw [output_eq_nil h hnil] at hn
      exact Nat.not_lt_zero n hn
    obtain ⟨hpos, hseal⟩ := sealBlocks_of_encrypts h hne
    rcases Nat.lt_or_ge maxBlockSize
      (min bufferSize parts.flatten.length + c.algorithm.tagSize) with hlarge | hread
    · rcases Nat.lt_or_ge n 4 with hlt | hge
      · exact iff_of_false (hshort n hlt) fun h' ↦ absurd h'.1 (not_le.mpr hlt)
      · refine iff_of_true ?_ ⟨hge, .inl hlarge⟩
        -- the first block is the longest
        obtain ⟨rest, hblocks⟩ := List.blocks_ne_nil hpos hne
        rw [hblocks] at hseal
        obtain ⟨encrypted, -, rest, hencrypted, -, -, rfl⟩ := sealBlocks_cons_eq_ok.mp hseal
        have hlen := StreamCipher.length_sealBlock hencrypted
        rw [List.length_take] at hlen
        rw [List.append_assoc, List.take_append, length_toLe,
          List.take_of_length_le (by rw [length_toLe]; exact hge), hlen]
        exact refuses_of_large hlarge hsize
    · rw [refuses_take_iff_endsInBlock hseal (fun block hblock ↦ ?_) hn]
      · constructor
        · exact fun hends ↦ ⟨hends.four_le, .inr hends⟩
        · exact fun h' ↦ h'.2.resolve_left (not_lt.mpr hread)
      · have hle := List.length_le_of_mem_blocks hpos parts.flatten block hblock
        omega

end

/-! ## A stream to compute with -/

def exampleOutput : Bytes :=
  letI := exampleAead
  match sealBlocks exampleStream 0 [[1, 2], [3]] with
  | .ok output => output
  | .error _ => []

private theorem blocks_three : List.blocks 2 [(1 : UInt8), 2, 3] = [[1, 2], [3]] := by
  rw [List.blocks_of_le (by decide) (by decide), List.blocks_of_lt (by decide)]
  rfl

theorem encrypts_exampleOutput :
    letI := exampleAead
    Encrypts exampleStream 2 [[1], [2, 3]] (.ok exampleOutput) := by
  let := exampleAead
  refine (encrypts_iff (by decide) (by decide)).mpr ?_
  show _ = sealBlocks exampleStream 0 (List.blocks 2 [1, 2, 3])
  rw [blocks_three]
  rfl

/-- A cut in the second block is refused. -/
theorem refuses_take_thirty :
    letI := exampleAead
    Refuses exampleStream (exampleOutput.take 30) := by
  let := exampleAead
  have := lawful_exampleAead
  refine ((refuses_take_iff encrypts_exampleOutput).2 (by decide) 30 (by decide +kernel)).mpr ?_
  refine ⟨by decide, .inr ?_⟩
  show EndsInBlock 16 (List.blocks 2 [1, 2, 3]) 30
  rw [blocks_three]
  exact .inr ⟨by decide, .inl ⟨by decide, by decide⟩⟩

/-- The stream cut after its first block is read as the text of that block. -/
theorem readAll_take_first :
    letI := exampleAead
    ∃ output, Encrypts exampleStream 2 [[1], [2, 3]] (.ok output) ∧ 22 < output.length ∧
      (StreamingDecryptor.new exampleStream (output.take 22)).readAll = some (.ok [1, 2]) :=
  ⟨exampleOutput, encrypts_exampleOutput, by decide +kernel, by decide +kernel⟩

end Streaming

end RosheraCad
