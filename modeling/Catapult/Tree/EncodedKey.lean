import Catapult.Tree.DataSource
import Catapult.Tree.Serializer

/-!
# The encoded path of a node (`UpdateEncodedKey`)

The path of a node is passed to the hash builder through a buffer of eight bytes. What the builder is given is the
plain encoding: the loop adds one byte for two nibbles, and what was flushed together with what is in the buffer is
always the bytes so far (`KeyEncoder.bytes`).
-/

namespace Catapult.Tree

/-- What was given to the builder, the working buffer, and the number of bytes in it. -/
structure KeyEncoder where
  updates : List UInt8
  buffer : List UInt8
  counter : Nat

namespace KeyEncoder

/-- The buffer is flushed when it is full. -/
def push (encoder : KeyEncoder) (byte : UInt8) : KeyEncoder :=
  let buffer := encoder.buffer.set encoder.counter byte
  if buffer.length = encoder.counter + 1 then ⟨encoder.updates ++ buffer, buffer, 0⟩
  else ⟨encoder.updates, buffer, encoder.counter + 1⟩

def bytes (encoder : KeyEncoder) : List UInt8 := encoder.updates ++ encoder.buffer.take encoder.counter

end KeyEncoder

def nibbleAt (path : TreeNodePath) (index : UInt32) : Nat := (path.getD index.toNat 0).val

/-- The loop over pairs of nibbles, at most `fuel` of them. -/
def encodePairs (path : TreeNodePath) : (fuel : Nat) → UInt32 → KeyEncoder → Option KeyEncoder
  | 0, _, _ => none
  | fuel + 1, i, encoder =>
    if i.toNat < path.length then
      encodePairs path fuel (i + 2) (encoder.push (UInt8.ofNat (nibbleAt path i * 16 + nibbleAt path (i + 1))))
    else some encoder

/-- The buffer is not initialized, except for its first byte. -/
def KeyEncoder.first (buffer : Fin 8 → UInt8) (byte : UInt8) : KeyEncoder := ⟨[], (List.ofFn buffer).set 0 byte, 1⟩

/-- What the builder has been given after the path. -/
def updateEncodedKey (fuel : Nat) (buffer : Fin 8 → UInt8) (path : TreeNodePath) (isLeaf : Bool) :
    Option (List UInt8) :=
  let flag := if isLeaf then 0x20 else 0
  let isOdd := path.length % 2 = 1
  let first := if isOdd then UInt8.ofNat (flag ||| 0x10 ||| nibbleAt path 0) else UInt8.ofNat flag
  (encodePairs path fuel (if isOdd then 1 else 0) (.first buffer first)).map KeyEncoder.bytes

inductive HashedNode where
  | leaf (path : TreeNodePath) (value : Hash256)
  | branch (path : TreeNodePath) (links : Nibble → Hash256)

namespace HashedNode

def path : HashedNode → TreeNodePath
  | leaf path _ => path
  | branch path _ => path

/-- What the builder is given for a node. -/
def preimage (fuel : Nat) (buffer : Fin 8 → UInt8) : HashedNode → Option (List UInt8)
  | leaf path value => (updateEncodedKey fuel buffer path true).map (· ++ value.bytes)
  | branch path links =>
    (updateEncodedKey fuel buffer path false).map (· ++ (List.finRange 16).flatMap fun i => (links i).bytes)

end HashedNode

def TreeNode.hashed (hasher : NodeHasher Hash256) : TreeNode Hash256 → Option HashedNode
  | leaf path value => some (.leaf path value)
  | branch path links => some (.branch path fun i => (links i).hash hasher)
  | _ => none

namespace KeyEncoder
variable {encoder : KeyEncoder}

theorem length_push (byte : UInt8) : (encoder.push byte).buffer.length = encoder.buffer.length := by
  rw [push]
  split <;> exact List.length_set

theorem counter_push_lt (h : encoder.counter < encoder.buffer.length) (byte : UInt8) :
    (encoder.push byte).counter < (encoder.push byte).buffer.length := by
  rw [length_push, push]
  rw [List.length_set]
  split
  · exact Nat.lt_of_le_of_lt (Nat.zero_le _) h
  · rename_i hne
    change encoder.counter + 1 < _
    omega

theorem bytes_push (h : encoder.counter < encoder.buffer.length) (byte : UInt8) :
    (encoder.push byte).bytes = encoder.bytes ++ [byte] := by
  have hset : (encoder.buffer.set encoder.counter byte).take (encoder.counter + 1) =
      encoder.buffer.take encoder.counter ++ [byte] := by
    rw [List.take_add_one, List.getElem?_set_self h, List.take_set_of_le (Nat.le_refl _)]
    rfl
  rw [push, List.length_set]
  split
  · rename_i hfull
    have hall : encoder.buffer.set encoder.counter byte = encoder.buffer.take encoder.counter ++ [byte] := by
      rw [← hset, List.take_of_length_le (by rw [List.length_set]; omega)]
    rw [bytes, bytes, hall, List.take_zero, List.append_nil, List.append_assoc]
  · rw [bytes, bytes, hset, List.append_assoc]

end KeyEncoder

theorem nibbleAt_append {pre rest : TreeNodePath} {a : Nibble} {i : UInt32} (hi : i.toNat = pre.length) :
    nibbleAt (pre ++ a :: rest) i = a.val := by
  rw [nibbleAt, hi, List.getD_eq_getElem?_getD, List.getElem?_append_right (Nat.le_refl _), Nat.sub_self]
  rfl

theorem encodePairs_eq {path pre rest : TreeNodePath} {fuel : Nat} {i : UInt32} {encoder : KeyEncoder}
    (hpath : path = pre ++ rest) (hi : i.toNat = pre.length) (heven : rest.length % 2 = 0) (hlt : path.length < 2 ^ 32)
    (hfuel : rest.length < fuel) (hcounter : encoder.counter < encoder.buffer.length) :
    ∃ encoder', encodePairs path fuel i encoder = some encoder' ∧
      encoder'.bytes = encoder.bytes ++ packNibbles rest := by
  induction rest using packNibbles.induct generalizing pre fuel i encoder with
  | case1 =>
    obtain ⟨fuel, rfl⟩ : ∃ n, fuel = n + 1 := ⟨fuel - 1, by simp at hfuel; omega⟩
    have hnot : ¬i.toNat < path.length := by
      rw [hpath, List.append_nil, hi]
      exact Nat.lt_irrefl _
    rw [encodePairs, if_neg hnot]
    exact ⟨encoder, rfl, (List.append_nil _).symm⟩
  | case2 a => simp at heven
  | case3 a b rest ih =>
    obtain ⟨fuel, rfl⟩ : ∃ n, fuel = n + 1 := ⟨fuel - 1, by simp at hfuel; omega⟩
    have hlength : path.length = pre.length + (rest.length + 2) := by
      rw [hpath, List.length_append]
      rfl
    have hone : (i + 1).toNat = (pre ++ [a]).length := by
      rw [UInt32.toNat_add, UInt32.toNat_one, List.length_append, List.length_singleton]
      omega
    have htwo : (i + 2).toNat = (pre ++ [a, b]).length := by
      rw [UInt32.toNat_add, List.length_append]
      change (i.toNat + 2) % 2 ^ 32 = pre.length + 2
      omega
    have hfirst : nibbleAt path i = a.val := by rw [hpath, nibbleAt_append hi]
    have hsecond : nibbleAt path (i + 1) = b.val := by
      have hsplit : pre ++ a :: b :: rest = (pre ++ [a]) ++ b :: rest := by rw [List.append_assoc]; rfl
      rw [hpath, hsplit, nibbleAt_append hone]
    have hrest : path = (pre ++ [a, b]) ++ rest := by rw [hpath, List.append_assoc]; rfl
    obtain ⟨encoder', hok, hbytes⟩ := @ih (pre ++ [a, b]) fuel (i + 2)
      (encoder.push (UInt8.ofNat (nibbleAt path i * 16 + nibbleAt path (i + 1)))) hrest htwo
      (by rw [List.length_cons, List.length_cons] at heven; omega) (by simp at hfuel; omega)
      (KeyEncoder.counter_push_lt hcounter _)
    rw [encodePairs, if_pos (by omega)]
    refine ⟨encoder', hok, ?_⟩
    rw [hbytes, KeyEncoder.bytes_push hcounter, hfirst, hsecond, List.append_assoc, packNibbles, Nat.mul_comm]
    rfl

theorem firstByte_eq (isLeaf : Bool) (nibble : Nibble) :
    UInt8.ofNat ((if isLeaf then 0x20 else 0) ||| 0x10 ||| nibble.val) = firstByte isLeaf (some nibble) := by
  cases isLeaf <;> revert nibble <;> decide

theorem KeyEncoder.counter_first_lt (buffer : Fin 8 → UInt8) (byte : UInt8) :
    (first buffer byte).counter < (first buffer byte).buffer.length := by
  rw [first, List.length_set, List.length_ofFn]
  exact Nat.one_lt_succ_succ 6

theorem KeyEncoder.bytes_first (buffer : Fin 8 → UInt8) (byte : UInt8) : (first buffer byte).bytes = [byte] := by
  rw [bytes, first, List.ofFn_succ]
  rfl

theorem updateEncodedKey_eq {path : TreeNodePath} {fuel : Nat} (hlt : path.length < 2 ^ 32) (hfuel : path.length < fuel)
    (buffer : Fin 8 → UInt8) (isLeaf : Bool) :
    updateEncodedKey fuel buffer path isLeaf = some (encodedKey path isLeaf) := by
  rcases encodedKey_cases path isLeaf with ⟨heven, he⟩ | ⟨nibble, rest, hpath, heven, he⟩
  · have hnot : ¬path.length % 2 = 1 := by omega
    obtain ⟨encoder', hok, hencoder⟩ := @encodePairs_eq path [] path fuel 0 _ rfl rfl heven hlt hfuel
      (KeyEncoder.counter_first_lt buffer (UInt8.ofNat (if isLeaf then 0x20 else 0)))
    rw [updateEncodedKey]
    simp only [if_neg hnot]
    rw [hok, Option.map_some, hencoder, KeyEncoder.bytes_first, he]
    cases isLeaf <;> rfl
  · have hodd : path.length % 2 = 1 := by rw [hpath, List.length_cons]; omega
    have hzero : nibbleAt path 0 = nibble.val := by
      rw [hpath]
      exact @nibbleAt_append [] rest nibble 0 rfl
    have hrest : rest.length < fuel := by
      rw [hpath, List.length_cons] at hfuel
      omega
    obtain ⟨encoder', hok, hencoder⟩ := @encodePairs_eq path [nibble] rest fuel 1 _ hpath rfl heven hlt hrest
      (KeyEncoder.counter_first_lt buffer (UInt8.ofNat ((if isLeaf then 0x20 else 0) ||| 0x10 ||| nibbleAt path 0)))
    rw [updateEncodedKey]
    simp only [if_pos hodd]
    rw [hok, Option.map_some, hencoder, KeyEncoder.bytes_first, he, hzero, firstByte_eq]
    rfl

theorem encodePairs_eq_none {path : TreeNodePath} (hle : 2 ^ 32 ≤ path.length) (fuel : Nat) (i : UInt32)
    (encoder : KeyEncoder) : encodePairs path fuel i encoder = none := by
  induction fuel generalizing i encoder with
  | zero => rfl
  | succ fuel ih =>
    have hi := i.toNat_lt
    rw [encodePairs, if_pos (by omega)]
    exact ih _ _

theorem updateEncodedKey_eq_none {path : TreeNodePath} (hle : 2 ^ 32 ≤ path.length) (fuel : Nat)
    (buffer : Fin 8 → UInt8) (isLeaf : Bool) : updateEncodedKey fuel buffer path isLeaf = none := by
  rw [updateEncodedKey, encodePairs_eq_none hle]
  rfl

namespace HashedNode

def input : HashedNode → List UInt8
  | leaf path value => leafInput path value
  | branch path links => branchInput path links

theorem preimage_eq {node : HashedNode} {fuel : Nat} (hlt : node.path.length < 2 ^ 32) (hfuel : node.path.length < fuel)
    (buffer : Fin 8 → UInt8) : node.preimage fuel buffer = some node.input := by
  cases node with
  | leaf path value =>
    have hkey := @updateEncodedKey_eq path fuel hlt hfuel buffer true
    rw [preimage, hkey]
    rfl
  | branch path links =>
    have hkey := @updateEncodedKey_eq path fuel hlt hfuel buffer false
    rw [preimage, hkey]
    rfl

theorem input_injective : Function.Injective input := by
  intro node node' heq
  cases node with
  | leaf path value =>
    cases node' with
    | leaf path' value' =>
      obtain ⟨rfl, rfl⟩ := leafInput_inj heq
      rfl
    | branch path' links' => exact absurd heq (leafInput_ne_branchInput _ _ _ _)
  | branch path links =>
    cases node' with
    | leaf path' value' => exact absurd heq.symm (leafInput_ne_branchInput _ _ _ _)
    | branch path' links' =>
      obtain ⟨rfl, rfl⟩ := branchInput_inj heq
      rfl

end HashedNode

theorem TreeNode.Saved.eq_of_hashed {hasher : NodeHasher Hash256} {node node' : TreeNode Hash256}
    (h : node.Saved hasher)
    (h' : node'.Saved hasher) (heq : node.hashed hasher = node'.hashed hasher) : node = node' := by
  cases node with
  | empty => exact h.elim
  | reference hash => exact h.elim
  | leaf path value =>
    cases node' with
    | empty => exact h'.elim
    | reference hash => exact h'.elim
    | leaf path' value' =>
      cases heq
      rfl
    | branch path' links' => cases heq
  | branch path links =>
    cases node' with
    | empty => exact h'.elim
    | reference hash => exact h'.elim
    | leaf path' value' => cases heq
    | branch path' links' =>
      obtain ⟨rfl, hlinks⟩ := HashedNode.branch.inj (Option.some.inj heq)
      congr 1
      funext i
      have hi := congrFun hlinks i
      rcases h i with hnone | ⟨hash, hne, hsome⟩ <;> rcases h' i with hnone' | ⟨hash', hne', hsome'⟩
      · rw [hnone, hnone']
      · rw [hnone, hsome'] at hi
        exact absurd hi.symm hne'
      · rw [hsome, hnone'] at hi
        exact absurd hi hne
      · rw [hsome, hsome'] at hi ⊢
        exact congrArg _ hi

/-- The builder is given the plain encoding of every path that its counter can pass, and nodes with the same preimage
are equal. -/
theorem preimages_injective :
    (∀ (path : TreeNodePath) (isLeaf : Bool) (fuel : Nat) (buffer : Fin 8 → UInt8), path.length < 2 ^ 32 →
      path.length < fuel → updateEncodedKey fuel buffer path isLeaf = some (encodedKey path isLeaf)) ∧
    (∀ (node node' : HashedNode) (fuel : Nat) (buffer buffer' : Fin 8 → UInt8), node.path.length ≤ 63 →
      node'.path.length ≤ 63 → 63 < fuel → node.preimage fuel buffer = node'.preimage fuel buffer' → node = node') ∧
    ∀ (hasher : NodeHasher Hash256) (node node' : TreeNode Hash256), node.Saved hasher → node'.Saved hasher →
      node.hashed hasher = node'.hashed hasher → node = node' := by
  refine ⟨fun path isLeaf fuel buffer hlt hfuel => updateEncodedKey_eq hlt hfuel buffer isLeaf,
    fun node node' fuel buffer buffer' hle hle' hfuel heq => ?_, fun hasher node node' h h' heq =>
      h.eq_of_hashed h' heq⟩
  rw [HashedNode.preimage_eq (by omega) (by omega), HashedNode.preimage_eq (by omega) (by omega)] at heq
  exact HashedNode.input_injective (Option.some.inj heq)

def samplePath : TreeNodePath := [7, 1, 2, 3, 4, 5, 6, 7, 8, 9, 10, 11, 12, 13, 14, 15, 0, 1, 2]

theorem preimages_injective_sample :
    updateEncodedKey 20 (fun _ => 255) samplePath true =
      some [0x37, 0x12, 0x34, 0x56, 0x78, 0x9A, 0xBC, 0xDE, 0xF0, 0x12] ∧
    ∀ node : HashedNode, node.path.length ≤ 63 →
      node.preimage 64 (fun _ => 0) = (HashedNode.leaf samplePath .zero).preimage 64 (fun _ => 1) →
      node = .leaf samplePath .zero := by
  obtain ⟨hencode, hnode, -⟩ := preimages_injective
  refine ⟨?_, fun node hle heq => ?_⟩
  · rw [hencode samplePath true 20 _ (by decide) (by decide)]
    decide
  · exact hnode _ _ 64 _ _ hle (by decide) (by decide) heq

/-- The loop does not end for a path with as many nibbles as the counter has values. -/
theorem not_encodes_every_path : ¬ ∃ (fuel : Nat) (buffer : Fin 8 → UInt8),
    updateEncodedKey fuel buffer (List.replicate (2 ^ 32) 0) true =
      some (encodedKey (List.replicate (2 ^ 32) 0) true) := by
  rintro ⟨fuel, buffer, heq⟩
  rw [updateEncodedKey_eq_none (by rw [List.length_replicate])] at heq
  exact Option.some_ne_none _ heq.symm

end Catapult.Tree
