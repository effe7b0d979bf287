import Catapult.Crypto.MerkleHashBuilder

/-!
# Merkle proofs of transactions (`MerkleHashBuilder` and `prove_merkle` of the sdk, `merkleAuditProof.js`)

The sdk builds the same roots as the node, with counters that have no width. The audit path of a leaf is read off the
layout of the node by position: the layers start at even positions, so the parity of a position in the layout is its
parity in the layer.
-/

namespace Catapult.Sdk
open Tree (Hash256)
open Crypto (nodeHash merkleRoot merkleTree)
open Crypto.MerkleHashBuilder (finalHash finalTree treeSize)

variable (sha3 : List UInt8 → Hash256)

namespace MerkleHashBuilder

def hashLevel : Nat → Nat → List Hash256 → Nat → Option (List Hash256 × Nat)
  | 0, _, _, _ => none
  | fuel + 1, i, hashes, numRemainingHashes =>
    if i < numRemainingHashes then do
      let hash ← hashes[i]?
      if i + 1 < numRemainingHashes then do
        let next ← hashes[i + 1]?
        hashLevel fuel (i + 2) (hashes.set (i / 2) (nodeHash sha3 hash next)) numRemainingHashes
      else
        -- if there is an odd number of hashes, duplicate the last one
        hashLevel fuel (i + 2) (hashes.set (i / 2) (nodeHash sha3 hash hash)) (numRemainingHashes + 1)
    else
      some (hashes, numRemainingHashes)

def hashLevels : Nat → List Hash256 → Nat → Option (List Hash256)
  | 0, _, _ => none
  | fuel + 1, hashes, numRemainingHashes =>
    if 1 < numRemainingHashes then do
      let (hashes, numRemainingHashes) ← hashLevel sha3 fuel 0 hashes numRemainingHashes
      hashLevels fuel hashes (numRemainingHashes / 2)
    else
      some hashes

def final (fuel : Nat) (hashes : List Hash256) : Option Hash256 :=
  if hashes.isEmpty then some Hash256.zero
  else do
    let hashes ← hashLevels sha3 fuel hashes hashes.length
    hashes[0]?

end MerkleHashBuilder

structure MerklePart where
  hash : Hash256
  isLeft : Bool
  deriving DecidableEq

def calculateNextHash (workingHash : Hash256) (merklePart : MerklePart) : Hash256 :=
  if merklePart.isLeft then sha3 (merklePart.hash.bytes ++ workingHash.bytes)
  else sha3 (workingHash.bytes ++ merklePart.hash.bytes)

def proveMerkle (leafHash : Hash256) (merklePath : List MerklePart) (rootHash : Hash256) : Bool :=
  decide (rootHash = merklePath.foldl (calculateNextHash sha3) leafHash)

inductive NodePosition where
  | left
  | right
  deriving DecidableEq

structure AuditPathNode where
  hash : Hash256
  position : NodePosition
  deriving DecidableEq

def AuditPathNode.part (node : AuditPathNode) : MerklePart := ⟨node.hash, node.position = NodePosition.left⟩

def evenify (number : Nat) : Nat := if number % 2 = 1 then number + 1 else number

def siblingOf (nodeIndex : Nat) : NodePosition × Nat :=
  if nodeIndex % 2 = 1 then (NodePosition.left, nodeIndex - 1) else (NodePosition.right, nodeIndex + 1)

/-- The loop of `buildAuditPath`. A node outside the tree has no result. -/
def auditPathFrom (nodes : List Hash256) : Nat → Nat → Nat → Nat → Option (List AuditPathNode)
  | 0, _, _, _ => none
  | fuel + 1, layerStart, currentLayerCount, layerSubindexOfHash =>
    if currentLayerCount = 1 then some []
    else do
      let sibling := siblingOf (layerStart + layerSubindexOfHash)
      let hash ← nodes[sibling.2]?
      let auditPath ← auditPathFrom nodes fuel (layerStart + evenify currentLayerCount) (evenify currentLayerCount / 2)
        (layerSubindexOfHash / 2)
      some (⟨hash, sibling.1⟩ :: auditPath)

/-- The audit path of the leaf at `index`. -/
def auditPathOf (fuel : Nat) (nodes : List Hash256) (count index : Nat) : Option (List MerklePart) :=
  (auditPathFrom nodes fuel 0 count index).map (List.map AuditPathNode.part)

section Builder
variable {sha3}
open MerkleHashBuilder

theorem MerkleHashBuilder.hashLevel_eq {rest hashes junk : List Hash256} {i fuel : Nat} (heven : i % 2 = 0)
    (hrest : hashes.drop i = rest ++ junk) (hfuel : (rest.length + 1) / 2 < fuel) :
    ∃ hashes', hashLevel sha3 fuel i hashes (i + rest.length) = some (hashes', i + rest.length + rest.length % 2) ∧
      hashes'.take ((i + rest.length + rest.length % 2) / 2) =
        hashes.take (i / 2) ++ Merkle.pairUp (nodeHash sha3) rest := by
  obtain ⟨fuel, rfl⟩ : ∃ n, fuel = n + 1 := ⟨fuel - 1, by omega⟩
  induction rest using Merkle.pairUp.induct generalizing i hashes fuel with
  | case1 =>
    refine ⟨hashes, by rw [hashLevel, if_neg (by rw [List.length_nil]; omega)]; rfl, ?_⟩
    rw [Merkle.pairUp, List.append_nil]
    rfl
  | case2 a =>
    rw [List.length_singleton] at hfuel ⊢
    obtain ⟨fuel, rfl⟩ : ∃ n, fuel = n + 1 := ⟨fuel - 1, by omega⟩
    have hlast : hashes[i]? = some a := by
      rw [← Nat.add_zero i, ← List.getElem?_drop, hrest]
      rfl
    have hbound : i / 2 < hashes.length := by
      have := (List.getElem?_eq_some_iff.1 hlast).1
      omega
    refine ⟨hashes.set (i / 2) (nodeHash sha3 a a), ?_, ?_⟩
    · rw [hashLevel, if_pos (Nat.lt_succ_self i), hlast]
      simp only [Option.bind_eq_bind, Option.bind_some]
      rw [if_neg (Nat.lt_irrefl _), hashLevel, if_neg (Nat.lt_irrefl _)]
    · have hhalf : (i + 1 + 1 % 2) / 2 = i / 2 + 1 := by omega
      rw [hhalf, Crypto.MerkleHashBuilder.take_set_half hbound, Merkle.pairUp]
  | case3 a b rest ih =>
    rw [List.length_cons, List.length_cons] at hfuel ⊢
    obtain ⟨fuel, rfl⟩ : ∃ n, fuel = n + 1 := ⟨fuel - 1, by omega⟩
    have hleft : hashes[i]? = some a := by
      rw [← Nat.add_zero i, ← List.getElem?_drop, hrest]
      rfl
    have hright : hashes[i + 1]? = some b := by
      rw [← List.getElem?_drop, hrest]
      rfl
    have hbound : i / 2 < hashes.length := by
      have := (List.getElem?_eq_some_iff.1 hleft).1
      omega
    have hdrop : (hashes.set (i / 2) (nodeHash sha3 a b)).drop (i + 2) = rest ++ junk := by
      rw [List.drop_set_of_lt (by omega), ← List.drop_drop, hrest]
      rfl
    obtain ⟨hashes', hok, htake⟩ := @ih _ (i + 2) (by omega) hdrop fuel (by omega)
    have hlength : i + 2 + rest.length = i + (rest.length + 1 + 1) := by omega
    have hparity : (rest.length + 1 + 1) % 2 = rest.length % 2 := Nat.add_mod_right rest.length 2
    rw [hlength] at hok htake
    rw [hparity]
    refine ⟨hashes', ?_, ?_⟩
    · rw [hashLevel, if_pos (by omega), hleft]
      simp only [Option.bind_eq_bind, Option.bind_some]
      rw [if_pos (by omega), hright]
      exact hok
    · have hhalf : (i + 2) / 2 = i / 2 + 1 := by omega
      rw [htake, hhalf, Crypto.MerkleHashBuilder.take_set_half hbound, Merkle.pairUp, List.append_assoc]
      rfl

theorem MerkleHashBuilder.hashLevels_eq {level hashes : List Hash256} {fuel : Nat} (hne : level ≠ [])
    (htake : hashes.take level.length = level) (hfuel : level.length < fuel) :
    ∃ hashes', hashLevels sha3 fuel hashes level.length = some hashes' ∧
      hashes'[0]? = some (merkleRoot sha3 level) := by
  induction fuel generalizing level hashes with
  | zero => exact absurd hfuel (Nat.not_lt_zero _)
  | succ fuel ih =>
    have hpos := List.length_pos_iff.2 hne
    rw [hashLevels]
    by_cases htwo : 1 < level.length
    · have hsplit : hashes.drop 0 = level ++ hashes.drop level.length := by
        have := List.take_append_drop level.length hashes
        rw [htake] at this
        exact this.symm
      obtain ⟨hashes₁, hok₁, htake₁⟩ := @hashLevel_eq sha3 level hashes _ 0 fuel rfl hsplit (by omega)
      rw [Nat.zero_add] at hok₁ htake₁
      have hhalf : (level.length + level.length % 2) / 2 = (Merkle.pairUp (nodeHash sha3) level).length := by
        rw [Merkle.length_pairUp]
        omega
      rw [hhalf] at htake₁
      obtain ⟨hashes', hok', hroot⟩ := @ih (Merkle.pairUp (nodeHash sha3) level) hashes₁
        (List.ne_nil_of_length_pos (by rw [Merkle.length_pairUp]; omega)) htake₁ (by rw [Merkle.length_pairUp]; omega)
      refine ⟨hashes', ?_, ?_⟩
      · rw [if_pos htwo, hok₁]
        simp only [Option.bind_eq_bind, Option.bind_some, hhalf]
        exact hok'
      · rw [hroot, merkleRoot, merkleRoot, Merkle.root_of_two_le _ _ htwo]
    · obtain ⟨hash, rfl⟩ := List.length_eq_one_iff.1 (by omega : level.length = 1)
      have hzero : 0 < [hash].length := hpos
      refine ⟨hashes, if_neg htwo, ?_⟩
      rw [merkleRoot, Merkle.root, ← List.getElem?_take_of_lt hzero, htake]
      rfl

theorem MerkleHashBuilder.final_eq {hashes : List Hash256} {fuel : Nat} (hfuel : hashes.length < fuel) :
    final sha3 fuel hashes = some (merkleRoot sha3 hashes) := by
  rw [final]
  by_cases hne : hashes = []
  · subst hne
    rw [if_pos List.isEmpty_nil, merkleRoot, Merkle.root]
  · obtain ⟨hashes', hok, hroot⟩ := @hashLevels_eq sha3 hashes hashes fuel hne List.take_length hfuel
    rw [if_neg (by rwa [List.isEmpty_iff]), hok]
    exact hroot

end Builder

theorem evenify_eq (number : Nat) : evenify number = number + number % 2 := by
  unfold evenify
  split <;> omega

theorem siblingOf_eq {layerStart : Nat} (heven : layerStart % 2 = 0) (i : Nat) :
    siblingOf (layerStart + i) =
      (if i % 2 = 1 then NodePosition.left else NodePosition.right, layerStart + Merkle.siblingIndex i) := by
  unfold siblingOf Merkle.siblingIndex
  rcases Nat.mod_two_eq_zero_or_one i with h | h
  · rw [if_neg (by omega), if_neg (by omega), if_neg (by omega)]
    rfl
  · rw [if_pos (by omega), if_pos h, if_pos h, Nat.add_sub_assoc (by omega)]

section AuditPath
variable {sha3}

theorem auditPathFrom_eq {level nodes : List Hash256} {fuel layerStart i : Nat} {hash : Hash256}
    (heven : layerStart % 2 = 0) (hlayout : nodes.drop layerStart = merkleTree sha3 level)
    (hhash : level[i]? = some hash) (hfuel : level.length < fuel) :
    ∃ auditPath, auditPathFrom nodes fuel layerStart level.length i = some auditPath ∧
      (auditPath.map AuditPathNode.part).foldl (calculateNextHash sha3) hash = merkleRoot sha3 level := by
  induction fuel generalizing level layerStart i hash with
  | zero => exact absurd hfuel (Nat.not_lt_zero _)
  | succ fuel ih =>
    have hi := (List.getElem?_eq_some_iff.1 hhash).1
    by_cases hone : level.length = 1
    · obtain ⟨last, rfl⟩ := List.length_eq_one_iff.1 hone
      obtain rfl : i = 0 := by omega
      cases hhash
      exact ⟨[], by rw [auditPathFrom, if_pos hone], by rw [merkleRoot, Merkle.root]; rfl⟩
    · have htwo : 2 ≤ level.length := by omega
      obtain ⟨sibling, hsibling, hparent⟩ := Merkle.exists_sibling (nodeHash sha3) hhash
      rw [merkleTree, Merkle.tree_of_two_le _ _ htwo] at hlayout
      have hnode : nodes[layerStart + Merkle.siblingIndex i]? = some sibling := by
        rw [← List.getElem?_drop, hlayout, List.getElem?_append_left (List.getElem?_eq_some_iff.1 hsibling).1]
        exact hsibling
      have hnext : nodes.drop (layerStart + evenify level.length) =
          merkleTree sha3 (Merkle.pairUp (nodeHash sha3) level) := by
        rw [← List.drop_drop, hlayout, evenify_eq, ← Merkle.length_padded, List.drop_left]
        rfl
      have hcount : evenify level.length / 2 = (Merkle.pairUp (nodeHash sha3) level).length := by
        rw [evenify_eq, Merkle.length_pairUp]
        omega
      obtain ⟨auditPath, hok, hfold⟩ := ih (by rw [evenify_eq]; omega) hnext hparent
        (by rw [Merkle.length_pairUp]; omega)
      refine ⟨⟨sibling, (siblingOf (layerStart + i)).1⟩ :: auditPath, ?_, ?_⟩
      · rw [auditPathFrom, if_neg hone]
        simp only [siblingOf_eq heven, hnode, hcount, hok, Option.bind_eq_bind, Option.bind_some]
      · rw [merkleRoot, Merkle.root_of_two_le _ _ htwo, ← merkleRoot, ← hfold, List.map_cons, List.foldl_cons,
          siblingOf_eq heven, Merkle.parent]
        rcases Nat.mod_two_eq_zero_or_one i with h | h
        · have hnot : ¬i % 2 = 1 := by omega
          rw [if_neg hnot, if_neg hnot]
          rfl
        · rw [if_pos h, if_pos h]
          rfl

theorem auditPathOf_accepted {hashes : List Hash256} {fuel i : Nat} {hash : Hash256} (hhash : hashes[i]? = some hash)
    (hfuel : hashes.length < fuel) :
    ∃ path, auditPathOf fuel (merkleTree sha3 hashes) hashes.length i = some path ∧
      proveMerkle sha3 hash path (merkleRoot sha3 hashes) = true := by
  obtain ⟨auditPath, hok, hfold⟩ :=
    @auditPathFrom_eq sha3 hashes (merkleTree sha3 hashes) fuel 0 i hash rfl rfl hhash hfuel
  refine ⟨auditPath.map AuditPathNode.part, ?_, ?_⟩
  · rw [auditPathOf, hok]
    rfl
  · rw [proveMerkle, hfold]
    exact decide_eq_true rfl

end AuditPath

/-- The builder ends on `hashes` with the root, the layout has the size that is reserved for it, and the audit paths
that are read off the layout are accepted. -/
def Builds (hashes : List Hash256) : Prop :=
  ∃ enough, ∀ fuel, enough ≤ fuel →
    finalHash sha3 fuel hashes = some (merkleRoot sha3 hashes) ∧
    ∃ tree, finalTree sha3 fuel hashes = some tree ∧ tree = merkleTree sha3 hashes ∧
      tree.length = treeSize hashes.length ∧
      ∀ i hash, hashes[i]? = some hash → ∃ path, auditPathOf fuel tree hashes.length i = some path ∧
        proveMerkle sha3 hash path (merkleRoot sha3 hashes) = true

/-- Short of `2 ^ 32 - 1` hashes only the size can be wrong, and it is unless no level above the lowest is odd. -/
theorem builds_iff (hashes : List Hash256) :
    (∀ fuel, hashes.length < fuel → MerkleHashBuilder.final sha3 fuel hashes = some (merkleRoot sha3 hashes)) ∧
    (hashes.length < 2 ^ 32 - 1 → ∀ fuel, hashes.length + 1 < fuel →
      finalHash sha3 fuel hashes = some (merkleRoot sha3 hashes) ∧
      finalTree sha3 fuel hashes = some (merkleTree sha3 hashes) ∧
      ∀ i hash, hashes[i]? = some hash →
        ∃ path, auditPathOf fuel (merkleTree sha3 hashes) hashes.length i = some path ∧
          proveMerkle sha3 hash path (merkleRoot sha3 hashes) = true) ∧
    (Builds sha3 hashes ↔
      hashes.length < 2 ^ 32 - 1 ∧ ∃ k, hashes.length = 2 ^ k ∨ hashes.length + 1 = 2 ^ k) := by
  have hright : hashes.length < 2 ^ 32 - 1 → ∀ fuel, hashes.length + 1 < fuel →
      finalHash sha3 fuel hashes = some (merkleRoot sha3 hashes) ∧
      finalTree sha3 fuel hashes = some (merkleTree sha3 hashes) ∧
      ∀ i hash, hashes[i]? = some hash →
        ∃ path, auditPathOf fuel (merkleTree sha3 hashes) hashes.length i = some path ∧
          proveMerkle sha3 hash path (merkleRoot sha3 hashes) = true := by
    intro hlt fuel hfuel
    exact ⟨Crypto.MerkleHashBuilder.finalHash_eq hlt (by omega), Crypto.MerkleHashBuilder.finalTree_eq hlt hfuel,
      fun i hash hhash => auditPathOf_accepted hhash (by omega)⟩
  have hlength : (merkleTree sha3 hashes).length = Merkle.treeLength hashes.length := Merkle.length_tree _ _ _
  refine ⟨fun fuel hfuel => MerkleHashBuilder.final_eq hfuel, hright, ?_, ?_⟩
  · rintro ⟨enough, hbuilds⟩
    obtain ⟨-, tree, hok, rfl, hsize, -⟩ := hbuilds enough (Nat.le_refl _)
    refine ⟨Nat.lt_of_not_le fun hle => ?_, ?_⟩
    · rw [Crypto.MerkleHashBuilder.finalTree_eq_none hle] at hok
      exact Option.some_ne_none _ hok.symm
    · rw [hlength] at hsize
      exact (Crypto.MerkleHashBuilder.treeSize_eq_iff _).1 hsize.symm
  · rintro ⟨hlt, hpow⟩
    refine ⟨hashes.length + 2, fun fuel hfuel => ?_⟩
    obtain ⟨hroot, htree, hpaths⟩ := hright hlt fuel hfuel
    refine ⟨hroot, _, htree, rfl, ?_, hpaths⟩
    rw [hlength]
    exact ((Crypto.MerkleHashBuilder.treeSize_eq_iff _).2 hpow).symm

/-- The second level over six hashes is odd; the size leaves its padding out. -/
theorem not_builds_six : ¬ Builds (fun _ => Hash256.zero) (List.replicate 6 Hash256.zero) := by
  rintro ⟨enough, hbuilds⟩
  obtain ⟨-, tree, -, rfl, hsize, -⟩ := hbuilds enough (Nat.le_refl _)
  rw [merkleTree, Merkle.length_tree, List.length_replicate] at hsize
  simp [Merkle.treeLength, treeSize, Crypto.MerkleHashBuilder.sumLevels] at hsize

end Catapult.Sdk
