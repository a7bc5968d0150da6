import RosheraCad.Library.HashTree
import RosheraCad.Types

/-!
# Merkle trees over chunks

A tree is built bottom-up from the leaf data; a node left over at the end of a level is paired with
itself. So a trailing block of leaves may be repeated without changing the root. Leaves and internal
nodes are hashed under different tags. SHA-2 is a parameter, with digests of its length.
-/

namespace RosheraCad

inductive HashAlgorithm
  | sha256
  | sha512
  deriving DecidableEq

def HashAlgorithm.hashSize : HashAlgorithm → ℕ
  | sha256 => 32
  | sha512 => 64

class Sha2 where
  digest : HashAlgorithm → Bytes → Bytes
  length_digest : ∀ algorithm data, (digest algorithm data).length = algorithm.hashSize

inductive MerkleNode
  | leafNode (hash : Bytes) (index : ℕ)
  | internalNode (hash : Bytes) (left right : MerkleNode)

structure MerkleTree where
  root : Option MerkleNode
  leaves : List Bytes
  algorithm : HashAlgorithm

/-- `"leaf:"` before the data of a leaf, `"node:"` before the two hashes of a pair. -/
def merkleMessage : Bytes ⊕ Bytes × Bytes → Bytes
  | .inl data => [0x6c, 0x65, 0x61, 0x66, 0x3a] ++ data
  | .inr (left, right) => [0x6e, 0x6f, 0x64, 0x65, 0x3a] ++ left ++ right

/-- The tags keep leaves and nodes apart, and a leaf's string has its data as it stands. -/
theorem merkleMessage_cases {x y : Bytes ⊕ Bytes × Bytes} (h : merkleMessage x = merkleMessage y) :
    x = y ∨ ∃ a b c d, x = .inr (a, b) ∧ y = .inr (c, d) ∧ a ++ b = c ++ d := by
  obtain a | ⟨a, b⟩ := x <;> obtain c | ⟨c, d⟩ := y
  · exact Or.inl (by rw [List.append_cancel_left h])
  · simp [merkleMessage] at h
  · simp [merkleMessage] at h
  · rw [merkleMessage, merkleMessage, List.append_assoc, List.append_assoc] at h
    exact Or.inr ⟨a, b, c, d, rfl, rfl, List.append_cancel_left h⟩

section

variable [Sha2]

def merkleHash (algorithm : HashAlgorithm) (input : Bytes ⊕ Bytes × Bytes) : Bytes :=
  Sha2.digest algorithm (merkleMessage input)

namespace MerkleNode

def hash : MerkleNode → Bytes
  | leafNode hash _ => hash
  | internalNode hash _ _ => hash

def leaf (data : Bytes) (index : ℕ) (algorithm : HashAlgorithm) : MerkleNode :=
  leafNode (merkleHash algorithm (.inl data)) index

def internal (algorithm : HashAlgorithm) (left right : MerkleNode) : MerkleNode :=
  internalNode (merkleHash algorithm (.inr (left.hash, right.hash))) left right

end MerkleNode

namespace MerkleTree

/-- Create an empty tree. -/
def new (algorithm : HashAlgorithm) : MerkleTree := ⟨none, [], algorithm⟩

/-- Build a tree from leaf data. -/
def fromLeaves (leaves : List Bytes) (algorithm : HashAlgorithm) : MerkleTree :=
  if leaves.isEmpty then new algorithm
  else
    let nodes := leaves.zipIdx.map fun (data, i) ↦ MerkleNode.leaf data i algorithm
    ⟨HashTree.combine (MerkleNode.internal algorithm) nodes, leaves, algorithm⟩

def rootHash (tree : MerkleTree) : Option Bytes := tree.root.map MerkleNode.hash

def hashed (leaves : List Bytes) (algorithm : HashAlgorithm) : List Bytes :=
  (HashTree.inputsOf (merkleHash algorithm) leaves).map merkleMessage

theorem rootHash_fromLeaves (leaves : List Bytes) (algorithm : HashAlgorithm) :
    (fromLeaves leaves algorithm).rootHash = HashTree.rootOf (merkleHash algorithm) leaves := by
  rw [HashTree.rootOf_eq_combine, rootHash, fromLeaves]
  rcases leaves with - | ⟨data, leaves⟩
  · simp [new, HashTree.combine]
  · have hcons : ¬ (data :: leaves).isEmpty := Bool.false_ne_true
    rw [if_neg hcons]
    dsimp only
    rw [HashTree.map_combine (g := MerkleNode.hash)
      (k := fun a b ↦ merkleHash algorithm (.inr (a, b))) fun _ _ ↦ rfl, List.map_map]
    congr 1
    have hfst : (data :: leaves) = (data :: leaves).zipIdx.map Prod.fst :=
      (List.zipIdx_map_fst ..).symm
    conv_rhs => rw [hfst, List.map_map]
    rfl

variable {algorithm : HashAlgorithm}

private theorem length_of_pair_mem {leaves : List Bytes}
    {a b : Bytes} (h : .inr (a, b) ∈ HashTree.inputsOf (merkleHash algorithm) leaves) :
    a.length = algorithm.hashSize := by
  obtain ⟨x, -, rfl, -⟩ := HashTree.exists_of_pair_mem_inputsOf h
  exact Sha2.length_digest algorithm _

/-- The tags and the fixed length of the hashes keep the strings of two trees apart. -/
theorem merkleMessage_injOn {l₁ l₂ : List Bytes} :
    ∀ x ∈ HashTree.inputsOf (merkleHash algorithm) l₁,
      ∀ y ∈ HashTree.inputsOf (merkleHash algorithm) l₂,
        merkleMessage x = merkleMessage y → x = y := by
  intro x hx y hy h
  obtain rfl | ⟨a, b, c, d, rfl, rfl, happend⟩ := merkleMessage_cases h
  · rfl
  · obtain ⟨rfl, rfl⟩ := List.append_inj happend
      ((length_of_pair_mem hx).trans (length_of_pair_mem hy).symm)
    rfl

/-- The strings hashed for two lists do not collide. -/
def NoCollision (l₁ l₂ : List Bytes) (algorithm : HashAlgorithm) : Prop :=
  ∀ x ∈ hashed l₁ algorithm, ∀ y ∈ hashed l₂ algorithm,
    Sha2.digest algorithm x = Sha2.digest algorithm y → x = y

theorem rootHash_eq_iff {l₁ l₂ : List Bytes} (h : NoCollision l₁ l₂ algorithm) :
    (fromLeaves l₁ algorithm).rootHash = (fromLeaves l₂ algorithm).rootHash ↔
      HashTree.padded l₁ = HashTree.padded l₂ := by
  rw [rootHash_fromLeaves, rootHash_fromLeaves]
  refine HashTree.rootOf_eq_iff fun x hx y hy hxy ↦ merkleMessage_injOn x hx y hy ?_
  exact h _ (List.mem_map_of_mem hx) _ (List.mem_map_of_mem hy) hxy

/-- **What the root hash binds**: two lists share a root exactly when they are padded to one list;
the shorter is a prefix of the longer. -/
theorem rootHash_binds (l₁ l₂ : List Bytes) (algorithm : HashAlgorithm)
    (h : NoCollision l₁ l₂ algorithm) :
    ((fromLeaves l₁ algorithm).rootHash = (fromLeaves l₂ algorithm).rootHash ↔
      HashTree.padded l₁ = HashTree.padded l₂) ∧
    ((fromLeaves l₁ algorithm).rootHash = (fromLeaves l₂ algorithm).rootHash →
      (l₁.length = l₂.length → l₁ = l₂) ∧ (l₁.length ≤ l₂.length → l₁ <+: l₂)) := by
  refine ⟨rootHash_eq_iff h, fun hroot ↦ ?_⟩
  have hpadded := (rootHash_eq_iff h).mp hroot
  refine ⟨fun hlen ↦ HashTree.eq_of_padded_eq hlen hpadded, fun hlen ↦ ?_⟩
  exact List.prefix_of_prefix_length_le (HashTree.prefix_padded l₁)
    (hpadded ▸ HashTree.prefix_padded l₂) hlen

end MerkleTree

end

/-! ## A digest to compute with -/

def exampleBytes : ℕ → ℕ → Bytes
  | 0, _ => []
  | n + 1, value => UInt8.ofNat value :: exampleBytes n (value / 256)

theorem length_exampleBytes (n value : ℕ) : (exampleBytes n value).length = n := by
  induction n generalizing value with
  | zero => rfl
  | succ n ih => rw [exampleBytes, List.length_cons, ih]

abbrev exampleSha2 : Sha2 where
  digest algorithm data :=
    exampleBytes algorithm.hashSize (data.foldl (fun acc b ↦ acc * 257 + b.toNat + 1) 0)
  length_digest _ _ := length_exampleBytes _ _

namespace MerkleTree

theorem ofList_three {α : Type} (a b c : α) : HashTree.ofList [a, b, c] =
    some (.node (.node (.leaf a) (.leaf b)) (.node (.leaf c) (.leaf c))) := by
  simp [HashTree.ofList, HashTree.combine, HashTree.pairUp]

private theorem ofList_four {α : Type} (a b c d : α) : HashTree.ofList [a, b, c, d] =
    some (.node (.node (.leaf a) (.leaf b)) (.node (.leaf c) (.leaf d))) := by
  simp [HashTree.ofList, HashTree.combine, HashTree.pairUp]

private theorem noCollision_repeated :
    letI := exampleSha2
    NoCollision [[1], [2], [3]] [[1], [2], [3], [3]] .sha256 := by
  let := exampleSha2
  rw [NoCollision, hashed, hashed, HashTree.inputsOf, HashTree.inputsOf, ofList_three, ofList_four]
  decide +kernel

/-- The root of three leaves and that of four leaves of which the last is repeated. -/
theorem rootHash_binds_repeated :
    letI := exampleSha2
    ((fromLeaves [[1], [2], [3]] .sha256).rootHash =
        (fromLeaves [[1], [2], [3], [3]] .sha256).rootHash ↔
      HashTree.padded [[1], [2], [3]] = HashTree.padded [[(1 : UInt8)], [2], [3], [3]]) := by
  let := exampleSha2
  exact (rootHash_binds [[1], [2], [3]] [[1], [2], [3], [3]] .sha256 noCollision_repeated).1

/-- Repeating the last of three leaves does not change the root. -/
theorem rootHash_eq_of_repeated :
    letI := exampleSha2
    NoCollision [[1], [2], [3]] [[1], [2], [3], [3]] .sha256 ∧
      (fromLeaves [[1], [2], [3]] .sha256).rootHash =
        (fromLeaves [[1], [2], [3], [3]] .sha256).rootHash ∧
      ([[1], [2], [3]] : List Bytes) ≠ [[1], [2], [3], [3]] := by
  let := exampleSha2
  refine ⟨noCollision_repeated, ?_, by decide⟩
  rw [rootHash_fromLeaves, rootHash_fromLeaves, HashTree.rootOf, HashTree.rootOf, ofList_three,
    ofList_four]

end MerkleTree

end RosheraCad
