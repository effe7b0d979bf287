import Mathlib.Data.Nat.Bitwise
import Catapult.Tree.HistoryIndependence

/-!
# Hashing and serializing tree nodes (`TreeNode::hash`, `PatriciaTreeSerializer`)

The bytes that are hashed for a node determine the node. The hash itself is a parameter `sha3`.
-/

namespace Catapult.Tree

structure Hash256 where
  bytes : List UInt8
  size_bytes : bytes.length = 32
  deriving DecidableEq

theorem Hash256.size_zero : (List.replicate 32 (0 : UInt8)).length = 32 := List.length_replicate

def Hash256.zero : Hash256 := ⟨List.replicate 32 0, Hash256.size_zero⟩

theorem Hash256.bytes_injective : Function.Injective Hash256.bytes := by
  rintro ⟨b, h⟩ ⟨b', h'⟩ heq
  cases heq
  rfl

/-- Two nibbles a byte, high nibble first; the low nibble of a last byte may be filled with zero. -/
def packNibbles : TreeNodePath → List UInt8
  | [] => []
  | [a] => [UInt8.ofNat (16 * a)]
  | a :: b :: rest => UInt8.ofNat (16 * a + b) :: packNibbles rest

theorem length_packNibbles (path : TreeNodePath) : (packNibbles path).length = (path.length + 1) / 2 := by
  fun_induction packNibbles path with
  | case1 => rfl
  | case2 a => simp
  | case3 a b rest ih =>
    simp only [List.length_cons, ih]
    omega

theorem treeNodePath_cons (byte : UInt8) (bytes : List UInt8) :
    treeNodePath (byte :: bytes) =
      ⟨byte.toNat / 16, highNibble_lt byte⟩ :: ⟨byte.toNat % 16, lowNibble_lt byte⟩ :: treeNodePath bytes := by
  rw [treeNodePath, List.flatMap_cons]
  rfl

theorem take_treeNodePath_packNibbles (path : TreeNodePath) :
    (treeNodePath (packNibbles path)).take path.length = path := by
  fun_induction packNibbles path with
  | case1 => rfl
  | case2 a =>
    have ha := a.isLt
    rw [treeNodePath_cons]
    simp only [List.length_cons, List.length_nil, List.take_succ_cons, List.take_zero, UInt8.toNat_ofNat']
    congr 1
    apply Fin.ext
    show 16 * a.val % 2 ^ 8 / 16 = a.val
    omega
  | case3 a b rest ih =>
    have ha := a.isLt
    have hb := b.isLt
    rw [treeNodePath_cons]
    simp only [List.length_cons, List.take_succ_cons, ih, UInt8.toNat_ofNat']
    congr 1
    · apply Fin.ext
      show (16 * a.val + b.val) % 2 ^ 8 / 16 = a.val
      omega
    · congr 1
      apply Fin.ext
      show (16 * a.val + b.val) % 2 ^ 8 % 16 = b.val
      omega

theorem packNibbles_inj {p p' : TreeNodePath} (hlen : p.length = p'.length)
    (h : packNibbles p = packNibbles p') : p = p' := by
  rw [← take_treeNodePath_packNibbles p, ← take_treeNodePath_packNibbles p', h, hlen]

/-- The first byte of an encoded path: the leaf flag, and the odd flag with the first nibble of an odd path. -/
def firstByte (isLeaf : Bool) (first : Option Nibble) : UInt8 :=
  UInt8.ofNat ((if isLeaf then 0x20 else 0) +
    match first with
    | some nibble => 0x10 + nibble
    | none => 0)

/-- What `UpdateEncodedKey` passes to the hash builder. -/
def encodedKey (path : TreeNodePath) (isLeaf : Bool) : List UInt8 :=
  match path with
  | [] => [firstByte isLeaf none]
  | nibble :: rest =>
    if path.length % 2 = 1 then firstByte isLeaf (some nibble) :: packNibbles rest
    else firstByte isLeaf none :: packNibbles path

def leafInput (path : TreeNodePath) (value : Hash256) : List UInt8 := encodedKey path true ++ value.bytes

def branchInput (path : TreeNodePath) (links : Nibble → Hash256) : List UInt8 :=
  encodedKey path false ++ (List.finRange 16).flatMap fun i => (links i).bytes

def sha3Hasher (sha3 : List UInt8 → Hash256) : NodeHasher Hash256 where
  leaf path value := sha3 (leafInput path value)
  branch path links := sha3 (branchInput path links)
  zero := Hash256.zero

theorem firstByte_inj {isLeaf isLeaf' : Bool} {first first' : Option Nibble}
    (h : firstByte isLeaf first = firstByte isLeaf' first') : isLeaf = isLeaf' ∧ first = first' := by
  have hnat := congrArg UInt8.toNat h
  simp only [firstByte, UInt8.toNat_ofNat'] at hnat
  rcases first with _ | a <;> rcases first' with _ | b <;> cases isLeaf <;> cases isLeaf' <;>
    simp only [Bool.false_eq_true, if_true, if_false, reduceCtorEq, and_true, true_and, and_false,
      Option.some.injEq] at hnat ⊢ <;>
    first
      | omega
      | (apply Fin.ext; omega)

theorem encodedKey_cases (path : TreeNodePath) (isLeaf : Bool) :
    (path.length % 2 = 0 ∧ encodedKey path isLeaf = firstByte isLeaf none :: packNibbles path) ∨
      ∃ nibble rest, path = nibble :: rest ∧ rest.length % 2 = 0 ∧
        encodedKey path isLeaf = firstByte isLeaf (some nibble) :: packNibbles rest := by
  cases path with
  | nil => exact .inl ⟨rfl, rfl⟩
  | cons nibble rest =>
    by_cases hodd : (nibble :: rest).length % 2 = 1
    · refine .inr ⟨nibble, rest, rfl, ?_, by rw [encodedKey, if_pos hodd]⟩
      rw [List.length_cons] at hodd
      omega
    · exact .inl ⟨by omega, by rw [encodedKey, if_neg hodd]⟩

theorem encodedKey_inj {p p' : TreeNodePath} {isLeaf isLeaf' : Bool}
    (h : encodedKey p isLeaf = encodedKey p' isLeaf') : p = p' := by
  have hpack : ∀ {q q' : TreeNodePath}, q.length % 2 = 0 → q'.length % 2 = 0 →
      packNibbles q = packNibbles q' → q = q' := by
    intro q q' heven heven' heq
    refine packNibbles_inj ?_ heq
    have hlen := congrArg List.length heq
    rw [length_packNibbles, length_packNibbles] at hlen
    omega
  rcases encodedKey_cases p isLeaf with ⟨heven, he⟩ | ⟨a, q, rfl, heven, he⟩ <;>
    rcases encodedKey_cases p' isLeaf' with ⟨heven', he'⟩ | ⟨a', q', rfl, heven', he'⟩ <;>
    rw [he, he', List.cons.injEq] at h
  · exact hpack heven heven' h.2
  · cases (firstByte_inj h.1).2
  · cases (firstByte_inj h.1).2
  · obtain ⟨-, ha⟩ := firstByte_inj h.1
    cases ha
    rw [hpack heven heven' h.2]

theorem encodedKey_flag {p p' : TreeNodePath} {isLeaf isLeaf' : Bool} {s s' : List UInt8}
    (h : encodedKey p isLeaf ++ s = encodedKey p' isLeaf' ++ s') : isLeaf = isLeaf' := by
  rcases encodedKey_cases p isLeaf with ⟨-, he⟩ | ⟨a, q, rfl, -, he⟩ <;>
    rcases encodedKey_cases p' isLeaf' with ⟨-, he'⟩ | ⟨a', q', rfl, -, he'⟩ <;>
    rw [he, he', List.cons_append, List.cons_append, List.cons.injEq] at h <;> exact (firstByte_inj h.1).1

theorem leafInput_inj {p p' : TreeNodePath} {v v' : Hash256} (h : leafInput p v = leafInput p' v') :
    p = p' ∧ v = v' := by
  obtain ⟨hkey, hvalue⟩ := List.append_inj' h (v.size_bytes.trans v'.size_bytes.symm)
  exact ⟨encodedKey_inj hkey, Hash256.bytes_injective hvalue⟩

theorem branchInput_inj {p p' : TreeNodePath} {l l' : Nibble → Hash256} (h : branchInput p l = branchInput p' l') :
    p = p' ∧ l = l' := by
  have hlen : ∀ l : Nibble → Hash256, ((List.finRange 16).flatMap fun i => (l i).bytes).length = 512 := by
    intro l
    simp [List.length_flatMap, Hash256.size_bytes]
  obtain ⟨hkey, hlinks⟩ := List.append_inj' h ((hlen l).trans (hlen l').symm)
  refine ⟨encodedKey_inj hkey, funext fun i => ?_⟩
  have hmap : (List.finRange 16).map l = (List.finRange 16).map l' := by
    refine flatMap_inj_of_width (by omega : 0 < 32) Hash256.size_bytes (fun _ _ h => Hash256.bytes_injective h) ?_
    rw [List.flatMap_map, List.flatMap_map]
    exact hlinks
  exact List.map_eq_map_iff.1 hmap i (List.mem_finRange i)

theorem leafInput_ne_branchInput (p : TreeNodePath) (v : Hash256) (p' : TreeNodePath) (l : Nibble → Hash256) :
    leafInput p v ≠ branchInput p' l := by
  intro h
  cases encodedKey_flag h

def serializePath (path : TreeNodePath) : List UInt8 := UInt8.ofNat path.length :: packNibbles path

def serializeLeaf (path : TreeNodePath) (value : Hash256) : List UInt8 := 0xFF :: (serializePath path ++ value.bytes)

/-- Bit `i` is set when the branch has link `i`. -/
def linksMask (links : Nibble → TreeNode Hash256) : Nat := Nat.ofBits fun i => !(links i).isEmpty

def serializeBranch (hasher : NodeHasher Hash256) (path : TreeNodePath)
    (links : Nibble → TreeNode Hash256) : List UInt8 :=
  0x00 :: (serializePath path ++ (leBytes 2 (linksMask links) ++
    (List.finRange 16).flatMap fun i => if (links i).isEmpty then [] else ((links i).hash hasher).bytes))

/-- `SerializeValue`; `none` for a node that is neither a leaf nor a branch. -/
def serializeValue (hasher : NodeHasher Hash256) : TreeNode Hash256 → Option (List UInt8)
  | .leaf path value => some (serializeLeaf path value)
  | .branch path links => some (serializeBranch hasher path links)
  | _ => none

/-- The serialized path that the state path handler responds with. -/
def serializeStatePath (hasher : NodeHasher Hash256) (nodePath : List (TreeNode Hash256)) : Option (List UInt8) :=
  (nodePath.mapM (serializeValue hasher)).map List.flatten

end Catapult.Tree
