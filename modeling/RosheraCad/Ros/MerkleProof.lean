import RosheraCad.Ros.Merkle
import RosheraCad.Ros.Header

/-!
# Inclusion proofs

A proof of inclusion lists the siblings on the way from a leaf to the root. The search for a leaf
tries the left subtree first. Verification trusts no part of a proof: the running hash is a full
digest on every level, so a pair that is hashed to a node's hash splits where the node's own does.
-/

namespace RosheraCad

inductive Position
  | left
  | right
  deriving DecidableEq

structure ProofNode where
  hash : Bytes
  position : Position

structure MerkleProof where
  leafHash : Bytes
  leafIndex : ℕ
  siblings : List ProofNode
  algorithm : HashAlgorithm

def ProofNode.step (sibling : ProofNode) : Bytes ⊕ Bytes :=
  match sibling.position with
  | .left => .inl sibling.hash
  | .right => .inr sibling.hash

/-- Search a subtree for a leaf and push the siblings on the way back. -/
def buildProofPath (targetIndex : ℕ) : MerkleNode → List ProofNode → Bool × List ProofNode
  | .leafNode _ index, path => (index == targetIndex, path)
  | .internalNode _ left right, path =>
    match buildProofPath targetIndex left path with
    | (true, path) => (true, path ++ [⟨right.hash, .right⟩])
    | (false, path) =>
      match buildProofPath targetIndex right path with
      | (true, path) => (true, path ++ [⟨left.hash, .left⟩])
      | (false, path) => (false, path)

section

variable [Sha2] {leaves : List Bytes} {algorithm : HashAlgorithm}

/-- Generate the inclusion proof for a leaf. The result of the search is not looked at. -/
def MerkleTree.generateProof (tree : MerkleTree) (leafIndex : ℕ) :
    Except RosFileError MerkleProof :=
  match tree.leaves[leafIndex]? with
  | none => .error (.other s!"Leaf index {leafIndex} out of bounds")
  | some leafData =>
    match tree.root with
    | none => .error (.other "Empty tree has no proofs")
    | some root => .ok {
        leafHash := merkleHash tree.algorithm (.inl leafData)
        leafIndex
        siblings := (buildProofPath leafIndex root []).2
        algorithm := tree.algorithm }

namespace MerkleProof

def hashPair (proof : MerkleProof) (left right : Bytes) : Bytes :=
  merkleHash proof.algorithm (.inr (left, right))

def verify (proof : MerkleProof) (rootHash leafData : Bytes) : Bool :=
  if merkleHash proof.algorithm (.inl leafData) ≠ proof.leafHash then false
  else
    let currentHash := proof.siblings.foldl (fun currentHash sibling ↦
      match sibling.position with
      | .left => proof.hashPair sibling.hash currentHash
      | .right => proof.hashPair currentHash sibling.hash) proof.leafHash
    currentHash == rootHash

def inputs (proof : MerkleProof) (leafData : Bytes) : List (Bytes ⊕ Bytes × Bytes) :=
  .inl leafData :: HashTree.climbed (merkleHash proof.algorithm)
    (merkleHash proof.algorithm (.inl leafData)) (proof.siblings.map (·.step))

def hashed (proof : MerkleProof) (leafData : Bytes) : List Bytes :=
  (proof.inputs leafData).map merkleMessage

theorem verify_iff {proof : MerkleProof} {rootHash leafData : Bytes} :
    proof.verify rootHash leafData ↔
      merkleHash proof.algorithm (.inl leafData) = proof.leafHash ∧
      HashTree.climb (merkleHash proof.algorithm) proof.leafHash
        (proof.siblings.map (·.step)) = rootHash := by
  have hstep : ∀ (currentHash : Bytes) (sibling : ProofNode),
      (match sibling.position with
        | .left => proof.hashPair sibling.hash currentHash
        | .right => proof.hashPair currentHash sibling.hash) =
      merkleHash proof.algorithm (HashTree.climbInput currentHash sibling.step) := by
    rintro currentHash ⟨hash, - | -⟩ <;> rfl
  rw [verify]
  by_cases hleaf : merkleHash proof.algorithm (.inl leafData) = proof.leafHash
  · rw [if_neg (not_not.mpr hleaf), HashTree.climb, List.foldl_map]
    simp only [hstep, beq_iff_eq, hleaf, true_and]
  · rw [if_pos hleaf]
    simp [hleaf]

/-- No string hashed for the proof collides with another that is hashed for the tree. -/
def NoCollision (proof : MerkleProof) (leafData : Bytes) (leaves : List Bytes)
    (algorithm : HashAlgorithm) : Prop :=
  ∀ x ∈ proof.hashed leafData, ∀ y ∈ MerkleTree.hashed leaves algorithm,
    Sha2.digest proof.algorithm x = Sha2.digest algorithm y → x = y

end MerkleProof

/-! ## Completeness -/

namespace MerkleNode

def indices : MerkleNode → List ℕ
  | leafNode _ index => [index]
  | internalNode _ left right => left.indices ++ right.indices

def Built (leaves : List Bytes) (algorithm : HashAlgorithm) : MerkleNode → Prop
  | leafNode hash index =>
    ∃ data, leaves[index]? = some data ∧ hash = merkleHash algorithm (.inl data)
  | internalNode hash left right =>
    hash = merkleHash algorithm (.inr (left.hash, right.hash)) ∧
      left.Built leaves algorithm ∧ right.Built leaves algorithm

end MerkleNode

/-- **The search for a leaf** pushes what leads from it to the node, or nothing if it is not there.
-/
theorem buildProofPath_spec {targetIndex : ℕ}
    {leafData : Bytes} (htarget : leaves[targetIndex]? = some leafData) {node : MerkleNode}
    (h : node.Built leaves algorithm) (path : List ProofNode) :
    (targetIndex ∉ node.indices ∧ buildProofPath targetIndex node path = (false, path)) ∨
    targetIndex ∈ node.indices ∧ ∃ siblings,
      buildProofPath targetIndex node path = (true, path ++ siblings) ∧
      HashTree.climb (merkleHash algorithm) (merkleHash algorithm (.inl leafData))
        (siblings.map (·.step)) = node.hash := by
  induction node generalizing path with
  | leafNode hash index =>
    obtain ⟨data, hdata, rfl⟩ := h
    by_cases hindex : index = targetIndex
    · subst hindex
      cases htarget.symm.trans hdata
      exact .inr ⟨List.mem_cons_self, [], by rw [buildProofPath, beq_self_eq_true,
        List.append_nil], rfl⟩
    · refine .inl ⟨fun hmem ↦ hindex (List.mem_singleton.mp hmem).symm, ?_⟩
      rw [buildProofPath, beq_false_of_ne hindex]
  | internalNode hash left right ihl ihr =>
    obtain ⟨rfl, hleft, hright⟩ := h
    rcases ihl hleft path with ⟨hnotl, hl⟩ | ⟨hmem, siblings, hl, hclimb⟩
    · rcases ihr hright path with ⟨hnotr, hr⟩ | ⟨hmem, siblings, hr, hclimb⟩
      · refine .inl ⟨fun hmem ↦ (List.mem_append.mp hmem).elim hnotl hnotr, ?_⟩
        rw [buildProofPath, hl]
        dsimp only
        rw [hr]
      · refine .inr ⟨List.mem_append_right _ hmem, siblings ++ [⟨left.hash, .left⟩], ?_, ?_⟩
        · rw [← List.append_assoc, buildProofPath, hl]
          dsimp only
          rw [hr]
        · rw [List.map_append, List.map_singleton, HashTree.climb_append, hclimb]
          rfl
    · refine .inr ⟨List.mem_append_left _ hmem, siblings ++ [⟨right.hash, .right⟩], ?_, ?_⟩
      · rw [← List.append_assoc, buildProofPath, hl]
      · rw [List.map_append, List.map_singleton, HashTree.climb_append, hclimb]
        rfl

namespace MerkleTree

theorem exists_root_fromLeaves (algorithm : HashAlgorithm)
    (hne : leaves ≠ []) : ∃ root, (fromLeaves leaves algorithm).root = some root ∧
      root.Built leaves algorithm ∧ ∀ i < leaves.length, i ∈ root.indices := by
  have hroot : (fromLeaves leaves algorithm).root =
      HashTree.combine (MerkleNode.internal algorithm)
        (leaves.zipIdx.map fun e ↦ MerkleNode.leaf e.1 e.2 algorithm) := by
    rw [fromLeaves, if_neg (by rwa [List.isEmpty_iff])]
  rw [hroot]
  rcases hcombine : HashTree.combine (MerkleNode.internal algorithm)
    (leaves.zipIdx.map fun e ↦ MerkleNode.leaf e.1 e.2 algorithm) with - | root
  · rw [HashTree.combine_eq_none_iff, List.map_eq_nil_iff, List.zipIdx_eq_nil_iff] at hcombine
    exact absurd hcombine hne
  refine ⟨root, hcombine, ?_, fun i hi ↦ ?_⟩
  · have hstep : ∀ (_ : ℕ) (left right : MerkleNode), left.Built leaves algorithm →
        right.Built leaves algorithm →
        (MerkleNode.internal algorithm left right).Built leaves algorithm :=
      fun _ _ _ hleft hright ↦ ⟨rfl, hleft, hright⟩
    obtain ⟨-, hbuilt⟩ := HashTree.combine_induction hstep (n := 0) (fun node hnode ↦ by
      obtain ⟨⟨data, i⟩, hmem, rfl⟩ := List.mem_map.mp hnode
      exact ⟨data, List.mk_mem_zipIdx_iff_getElem?.mp hmem, rfl⟩) hcombine
    exact hbuilt
  · -- the indices are those of the list padded, of which it is a prefix
    have hindices := HashTree.map_combine (f := MerkleNode.internal algorithm) (k := (· ++ ·))
      (g := MerkleNode.indices) (fun _ _ ↦ rfl)
      (leaves.zipIdx.map fun e ↦ MerkleNode.leaf e.1 e.2 algorithm)
    have hrange : (leaves.zipIdx.map fun e ↦ MerkleNode.leaf e.1 e.2 algorithm).map
        MerkleNode.indices = (List.range leaves.length).map fun i ↦ [i] := by
      rw [List.range_eq_range', ← List.zipIdx_map_snd 0 leaves, List.map_map, List.map_map]
      rfl
    rw [hcombine, hrange, Option.map_some] at hindices
    have hpadded : HashTree.padded (List.range leaves.length) = root.indices := by
      rw [HashTree.padded, ← hindices, Option.getD_some]
    rw [← hpadded]
    exact (HashTree.prefix_padded _).subset (List.mem_range.mpr hi)

theorem verify_generateProof {i : ℕ}
    {data : Bytes} (hi : leaves[i]? = some data) : ∃ proof rootHash,
      (fromLeaves leaves algorithm).generateProof i = .ok proof ∧
      (fromLeaves leaves algorithm).rootHash = some rootHash ∧ proof.verify rootHash data := by
  have hne : leaves ≠ [] := by
    rintro rfl
    cases hi
  obtain ⟨root, hroot, hbuilt, hindices⟩ := exists_root_fromLeaves algorithm hne
  obtain ⟨hlt, -⟩ := List.getElem?_eq_some_iff.mp hi
  rcases buildProofPath_spec hi hbuilt [] with ⟨hnot, -⟩ | ⟨-, siblings, hpath, hclimb⟩
  · exact absurd (hindices i hlt) hnot
  have hleaves : (fromLeaves leaves algorithm).leaves = leaves := by
    rw [fromLeaves, if_neg (by rwa [List.isEmpty_iff])]
  have halgorithm : (fromLeaves leaves algorithm).algorithm = algorithm := by
    rw [fromLeaves, if_neg (by rwa [List.isEmpty_iff])]
  refine ⟨⟨merkleHash algorithm (.inl data), i, siblings, algorithm⟩, root.hash, ?_, ?_, ?_⟩
  · rw [generateProof, hleaves, hi]
    dsimp only
    rw [hroot, halgorithm]
    dsimp only
    rw [hpath, List.nil_append]
  · rw [rootHash, hroot, Option.map_some]
  · exact MerkleProof.verify_iff.mpr ⟨rfl, hclimb⟩

end MerkleTree

/-! ## Soundness -/

namespace MerkleProof

/-- The tags and the length of a digest keep the strings of a proof and those of a tree apart. -/
private theorem merkleMessage_injOn_inputs {t : HashTree Bytes}
    {data : Bytes} {siblings : List (Bytes ⊕ Bytes)} :
    ∀ x ∈ .inl data :: HashTree.climbed (merkleHash algorithm) (merkleHash algorithm (.inl data))
        siblings,
      ∀ y ∈ t.inputs (merkleHash algorithm), merkleMessage x = merkleMessage y → x = y := by
  intro x hx y hy h
  obtain rfl | ⟨a, b, c, d, rfl, rfl, happend⟩ := merkleMessage_cases h
  · rfl
  · obtain ⟨x, y, rfl, rfl⟩ := HashTree.exists_of_pair_mem_inputs hy
    -- the running hash stands on one side, and has the length of the node's child there
    rcases List.mem_cons.mp hx with hx | hx
    · cases hx
    rcases HashTree.exists_of_pair_mem_climbed hx with ⟨z, rfl⟩ | ⟨z, rfl⟩
    · obtain ⟨hleft, rfl⟩ := List.append_inj happend
        ((Sha2.length_digest ..).trans (Sha2.length_digest ..).symm)
      rw [hleft]
    · obtain ⟨rfl, hright⟩ := List.append_inj' happend
        ((Sha2.length_digest ..).trans (Sha2.length_digest ..).symm)
      rw [hright]

private theorem length_climb (input : Bytes ⊕ Bytes × Bytes) (siblings : List (Bytes ⊕ Bytes)) :
    (HashTree.climb (merkleHash algorithm) (merkleHash algorithm input) siblings).length =
      algorithm.hashSize := by
  induction siblings generalizing input with
  | nil => exact Sha2.length_digest ..
  | cons sibling siblings ih => exact ih _

theorem mem_leaves_of_verify {proof : MerkleProof} {rootHash data : Bytes}
    (hroot : (MerkleTree.fromLeaves leaves algorithm).rootHash = some rootHash)
    (hcollision : proof.NoCollision data leaves algorithm) (h : proof.verify rootHash data) :
    data ∈ leaves := by
  obtain ⟨hleaf, hclimb⟩ := verify_iff.mp h
  rw [← hleaf] at hclimb
  rw [MerkleTree.rootHash_fromLeaves, HashTree.rootOf, Option.map_eq_some_iff] at hroot
  obtain ⟨t, ht, rfl⟩ := hroot
  -- digests of different algorithms have different lengths
  have halgorithm : proof.algorithm = algorithm := by
    obtain ⟨input, hinput⟩ := t.exists_root_eq (merkleHash algorithm)
    have hlen := congrArg List.length hclimb
    rw [length_climb, hinput, merkleHash, Sha2.length_digest] at hlen
    rcases hp : proof.algorithm with - | - <;> rcases algorithm with - | - <;>
      rw [hp] at hlen <;> first | rfl | cases hlen
  subst halgorithm
  have hmem : data ∈ t.leaves := by
    refine HashTree.mem_leaves_of_climb (fun x hx y hy hxy ↦ ?_) hclimb
    refine merkleMessage_injOn_inputs x hx y hy (hcollision _ (List.mem_map_of_mem hx) _ ?_ hxy)
    refine List.mem_map_of_mem ?_
    rwa [HashTree.inputsOf, ht]
  refine HashTree.mem_of_mem_padded ?_
  rwa [← HashTree.map_leaves_ofList, ht]

end MerkleProof

/-- **Inclusion proofs are complete and sound**: the proof generated for a leaf verifies, and what
verifies under any proof is a leaf, as long as no string of the proof collides with one of the tree.
-/
theorem inclusionProofs_complete_sound (leaves : List Bytes) (algorithm : HashAlgorithm)
    (hne : leaves ≠ []) :
    ∃ rootHash, (MerkleTree.fromLeaves leaves algorithm).rootHash = some rootHash ∧
      (∀ i data, leaves[i]? = some data → ∃ proof,
        (MerkleTree.fromLeaves leaves algorithm).generateProof i = .ok proof ∧
        proof.verify rootHash data) ∧
      ∀ (proof : MerkleProof) (data : Bytes), proof.NoCollision data leaves algorithm →
        proof.verify rootHash data → data ∈ leaves := by
  obtain ⟨root, hroot, -, -⟩ := MerkleTree.exists_root_fromLeaves algorithm hne
  have hhash : (MerkleTree.fromLeaves leaves algorithm).rootHash = some root.hash := by
    rw [MerkleTree.rootHash, hroot, Option.map_some]
  refine ⟨root.hash, hhash, fun i data hi ↦ ?_, fun proof data hcollision hverify ↦ ?_⟩
  · obtain ⟨proof, rootHash, hproof, hrootHash, hverify⟩ :=
      @MerkleTree.verify_generateProof _ leaves algorithm i data hi
    cases hhash.symm.trans hrootHash
    exact ⟨proof, hproof, hverify⟩
  · exact MerkleProof.mem_leaves_of_verify hhash hcollision hverify

end

section

attribute [local instance] exampleSha2

/-- The proof for the last of three leaves, which is paired with itself. -/
def proofOfThird : MerkleProof where
  leafHash := merkleHash .sha256 (.inl [3])
  leafIndex := 2
  siblings := [⟨merkleHash .sha256 (.inl [3]), .right⟩, ⟨merkleHash .sha256
    (.inr (merkleHash .sha256 (.inl [1]), merkleHash .sha256 (.inl [2]))), .left⟩]
  algorithm := .sha256

private theorem noCollision_proofOfThird :
    proofOfThird.NoCollision [3] [[1], [2], [3]] .sha256 := by
  rw [MerkleProof.NoCollision, MerkleTree.hashed, HashTree.inputsOf, MerkleTree.ofList_three]
  decide +kernel

/-- Three leaves: the second has a proof, and what the proof for the third proves is a leaf. -/
theorem inclusionProofs_complete_sound_three :
    ∃ rootHash, (MerkleTree.fromLeaves [[1], [2], [3]] .sha256).rootHash = some rootHash ∧
      (∃ proof, (MerkleTree.fromLeaves [[1], [2], [3]] .sha256).generateProof 1 = .ok proof ∧
        proof.verify rootHash [2]) ∧
      proofOfThird.verify rootHash [3] ∧ [3] ∈ [[1], [2], [(3 : UInt8)]] := by
  obtain ⟨rootHash, hroot, hcomplete, hsound⟩ :=
    inclusionProofs_complete_sound [[1], [2], [3]] .sha256 (by decide)
  have hverify : proofOfThird.verify rootHash [3] := by
    rw [MerkleTree.rootHash_fromLeaves, HashTree.rootOf, MerkleTree.ofList_three] at hroot
    cases hroot
    exact MerkleProof.verify_iff.mpr ⟨rfl, rfl⟩
  exact ⟨rootHash, hroot, hcomplete 1 [2] rfl, hverify,
    hsound proofOfThird [3] noCollision_proofOfThird hverify⟩

end

end RosheraCad
