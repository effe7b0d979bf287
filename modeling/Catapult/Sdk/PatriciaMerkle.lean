import Catapult.Tree.Serializer

/-!
# Patricia merkle proofs of the sdks (`prove_patricia_merkle`, `provePatriciaMerkle`)

What the clients of the sdks run: deserializing the nodes of a state path and checking them against the
merkle roots of a state hash. The Python and the JavaScript sdk do the same steps; a proof that raises an
exception has no result. Hex strings are lists of nibbles.
-/

namespace Catapult.Sdk
open Catapult.Tree

/-- `PatriciaTreePath`, with all nibbles of the path in its bytes. -/
structure PatriciaTreePath where
  path : List UInt8
  size : Nat
  size_le : size ≤ 2 * path.length

def getNibbleAt (path : List UInt8) (index : Nat) : Nibble :=
  let byte := path.getD (index / 2) 0
  if index % 2 = 1 then ⟨byte.toNat % 16, by omega⟩ else ⟨byte.toNat / 16, by have := byte.toNat_lt; omega⟩

namespace PatriciaTreePath

def encodePath (path : PatriciaTreePath) (isLeaf : Bool) : List UInt8 :=
  let start := path.size % 2
  firstByte isLeaf (if path.size % 2 = 1 then some (getNibbleAt path.path 0) else none) ::
    (List.range (path.size / 2)).map fun k =>
      UInt8.ofNat (16 * getNibbleAt path.path (start + 2 * k) + getNibbleAt path.path (start + 2 * k + 1))

def hexPath (path : PatriciaTreePath) : List Nibble := (treeNodePath path.path).take path.size

end PatriciaTreePath

/-- `LeafNode` and `BranchNode`. -/
inductive Node where
  | leaf (path : PatriciaTreePath) (value : Hash256)
  | branch (path : PatriciaTreePath) (links : Nibble → Option Hash256)

namespace Node

def path : Node → PatriciaTreePath
  | leaf path _ => path
  | branch path _ => path

def hashInput : Node → List UInt8
  | leaf path value => path.encodePath true ++ value.bytes
  | branch path links =>
    path.encodePath false ++ (List.finRange 16).flatMap fun i => ((links i).getD Hash256.zero).bytes

def calculateHash (sha3 : List UInt8 → Hash256) (node : Node) : Hash256 := sha3 node.hashInput

end Node

/-- Reads a hash and returns the rest. A read past the end has no result: reading a hash raises an exception
there, and otherwise the reader never arrives at the end. -/
def readHash (buffer : List UInt8) : Option (Hash256 × List UInt8) :=
  if h : buffer.length < 32 then none
  else some (⟨buffer.take 32, by rw [List.length_take]; omega⟩, buffer.drop 32)

theorem le_length_take {buffer : List UInt8} {numNibbles : Nat} (h : ¬buffer.length < (numNibbles + 1) / 2) :
    numNibbles ≤ 2 * (buffer.take ((numNibbles + 1) / 2)).length := by
  rw [List.length_take]
  omega

def deserializePath : List UInt8 → Option (PatriciaTreePath × List UInt8)
  | [] => none
  | numNibbles :: buffer =>
    let numBytes := (numNibbles.toNat + 1) / 2
    if h : buffer.length < numBytes then none
    else some (⟨buffer.take numBytes, numNibbles.toNat, le_length_take h⟩, buffer.drop numBytes)

def deserializeLeaf (buffer : List UInt8) : Option (Node × List UInt8) :=
  (deserializePath buffer).bind fun (path, buffer) =>
    (readHash buffer).map fun (value, buffer) => (.leaf path value, buffer)

def readLink (linksMask : Nat) (state : (Nibble → Option Hash256) × List UInt8) (index : Nibble) :
    Option ((Nibble → Option Hash256) × List UInt8) :=
  if linksMask.testBit index then
    (readHash state.2).map fun (link, buffer) => (Function.update state.1 index (some link), buffer)
  else some state

def deserializeBranch (buffer : List UInt8) : Option (Node × List UInt8) :=
  (deserializePath buffer).bind fun (path, buffer) =>
    match buffer with
    | low :: high :: buffer =>
      ((List.finRange 16).foldlM (readLink (low.toNat + 256 * high.toNat)) (fun _ => none, buffer)).map
        fun (links, buffer) => (.branch path links, buffer)
    | _ => none

/-- One node; `none` when the marker is invalid. -/
def deserializeNode : List UInt8 → Option (Node × List UInt8)
  | [] => none
  | marker :: buffer =>
    if marker = 0xFF then deserializeLeaf buffer
    else if marker = 0x00 then deserializeBranch buffer
    else none

theorem length_readHash {buffer rest : List UInt8} {hash : Hash256} (h : readHash buffer = some (hash, rest)) :
    rest.length ≤ buffer.length := by
  rw [readHash] at h
  split at h
  · cases h
  · cases h
    rw [List.length_drop]
    omega

theorem length_deserializePath {buffer rest : List UInt8} {path : PatriciaTreePath}
    (h : deserializePath buffer = some (path, rest)) : rest.length ≤ buffer.length := by
  cases buffer with
  | nil => cases h
  | cons numNibbles buffer =>
    simp only [deserializePath] at h
    split at h
    · cases h
    · cases h
      rw [List.length_drop, List.length_cons]
      omega

theorem length_foldlM_readLink {mask : Nat} {indexes : List Nibble}
    {state state' : (Nibble → Option Hash256) × List UInt8}
    (h : indexes.foldlM (readLink mask) state = some state') : state'.2.length ≤ state.2.length := by
  induction indexes generalizing state with
  | nil =>
    cases h
    exact Nat.le_refl _
  | cons index indexes ih =>
    rw [List.foldlM_cons] at h
    obtain ⟨next, hnext, h⟩ := Option.bind_eq_some_iff.1 h
    refine (ih h).trans ?_
    rw [readLink] at hnext
    split at hnext
    · obtain ⟨⟨link, buffer⟩, hread, rfl⟩ := Option.map_eq_some_iff.1 hnext
      exact length_readHash hread
    · cases hnext
      exact Nat.le_refl _

theorem length_deserializeNode {buffer rest : List UInt8} {node : Node}
    (h : deserializeNode buffer = some (node, rest)) : rest.length < buffer.length := by
  cases buffer with
  | nil => cases h
  | cons marker buffer =>
    rw [List.length_cons, Nat.lt_succ_iff]
    rw [deserializeNode] at h
    split_ifs at h
    · obtain ⟨⟨path, buffer₁⟩, hpath, h⟩ := Option.bind_eq_some_iff.1 h
      obtain ⟨⟨value, buffer₂⟩, hvalue, h⟩ := Option.map_eq_some_iff.1 h
      cases h
      exact (length_readHash hvalue).trans (length_deserializePath hpath)
    · obtain ⟨⟨path, buffer₁⟩, hpath, h⟩ := Option.bind_eq_some_iff.1 h
      refine le_trans ?_ (length_deserializePath hpath)
      match buffer₁, h with
      | low :: high :: buffer₁, h =>
        obtain ⟨⟨links, buffer₂⟩, hlinks, h⟩ := Option.map_eq_some_iff.1 h
        cases h
        have hle := length_foldlM_readLink hlinks
        simp only [List.length_cons] at hle ⊢
        omega

def deserializePatriciaTreeNodes (buffer : List UInt8) : Option (List Node) :=
  if buffer.isEmpty then some []
  else
    match _h : deserializeNode buffer with
    | none => none
    | some (node, rest) => (deserializePatriciaTreeNodes rest).map (node :: ·)
termination_by buffer.length
decreasing_by exact length_deserializeNode _h

inductive PatriciaMerkleProofResult where
  | validPositive
  | validNegative
  | inconclusive
  | stateHashDoesNotMatchRoots
  | unanchoredPathTree
  | leafValueMismatch
  | unlinkedNode
  | pathMismatch
  deriving DecidableEq, Repr

def findLinkIndex (links : Nibble → Option Hash256) (hash : Hash256) : Option Nibble :=
  Fin.find? fun i => decide (links i = some hash)

section Prove
variable (sha3 : List UInt8 → Hash256)

/-- One step of the loop from the leaf to the root: the hash of the child and the actual path. A leaf has no
links, so that a leaf with a child raises an exception (`none`). -/
def proveStep (state : Option Hash256 × List Nibble) (node : Node) :
    Except (Option PatriciaMerkleProofResult) (Option Hash256 × List Nibble) :=
  match state.1 with
  | none => .ok (some (node.calculateHash sha3), node.path.hexPath ++ state.2)
  | some childHash =>
    match node with
    | .leaf _ _ => .error none
    | .branch path links =>
      match findLinkIndex links childHash with
      | none => .error (some .unlinkedNode)
      | some linkIndex => .ok (some (node.calculateHash sha3), linkIndex :: (path.hexPath ++ state.2))

def actualPath (merklePath : List Node) : Except (Option PatriciaMerkleProofResult) (Option Hash256 × List Nibble) :=
  merklePath.reverse.foldlM (proveStep sha3) (none, [])

def checkStateHash (stateHash : Hash256) (subcacheMerkleRoots : List Hash256) : Bool :=
  decide (stateHash = sha3 (subcacheMerkleRoots.flatMap Hash256.bytes))

def provePositive (encodedKey : Hash256) (merklePath : List Node) : Option PatriciaMerkleProofResult :=
  match actualPath sha3 merklePath with
  | .error result => result
  | .ok (_, actual) => if actual ≠ treeNodePath encodedKey.bytes then some .pathMismatch else some .validPositive

def proveNegative (encodedKey : Hash256) (merklePath : List Node) (links : Nibble → Option Hash256) :
    Option PatriciaMerkleProofResult :=
  match actualPath sha3 merklePath with
  | .error result => result
  | .ok (_, actual) =>
    if !actual.isPrefixOf (treeNodePath encodedKey.bytes) then some .pathMismatch
    else if actual.length < 2 * encodedKey.bytes.length then
      if (links (getNibbleAt encodedKey.bytes actual.length)).isSome then some .inconclusive else some .validNegative
    else none

/-- `prove_patricia_merkle`; `none` when an exception is raised. -/
def provePatriciaMerkle (encodedKey valueToTest : Hash256) (merklePath : List Node) (stateHash : Hash256)
    (subcacheMerkleRoots : List Hash256) : Option PatriciaMerkleProofResult :=
  if !checkStateHash sha3 stateHash subcacheMerkleRoots then some .stateHashDoesNotMatchRoots
  else
    match merklePath.head?, merklePath.getLast? with
    | some first, some last =>
      if first.calculateHash sha3 ∉ subcacheMerkleRoots then some .unanchoredPathTree
      else
        match last with
        | .leaf _ value =>
          if valueToTest ≠ value then some .leafValueMismatch else provePositive sha3 encodedKey merklePath
        | .branch _ links => proveNegative sha3 encodedKey merklePath links
    | _, _ => none

end Prove

end Catapult.Sdk
