import Catapult.Lib.Reader
import Catapult.Tree.Serializer

/-!
# Reading tree nodes back (`PatriciaTreeSerializer::DeserializeValue`)

A serialized node is read back with the same path, the same value or links and the same hash. Conversely the bytes
that are taken for a node are the serialization of this node: the filler nibble and the link mask leave no choice.
-/

namespace Catapult.Tree
open Reader

inductive NodeDeserializeError where
  | eof
  | fillerNibble
  | invalidMarker (marker : Nat)
  deriving DecidableEq, Repr

abbrev NodeReader := Reader NodeDeserializeError

def TreeNode.isLeaf {Hash : Type*} : TreeNode Hash → Bool
  | leaf .. => true
  | _ => false

/-- `DeserializePath`. -/
def readPath : NodeReader TreeNodePath := do
  let numNibbles ← nat .eof 1
  if (numNibbles + 1) / 2 = 0 then return []
  else
    let alignedPath ← bytes .eof ((numNibbles + 1) / 2)
    let path := treeNodePath alignedPath.1
    -- require filler nibble to be 0
    if numNibbles % 2 = 1 ∧ path.getLast? ≠ some 0 then throw .fillerNibble
    else return path.take numNibbles

def readHash : NodeReader Hash256 := do
  let raw ← bytes .eof 32
  return ⟨raw.1, raw.2⟩

/-- `DeserializeLeaf`. -/
def readLeaf : NodeReader (TreeNode Hash256) := do
  let path ← readPath
  let value ← readHash
  return .leaf path value

def readLinks (mask : Nat) : List Nibble → (Nibble → TreeNode Hash256) → NodeReader (Nibble → TreeNode Hash256)
  | [], links => pure links
  | i :: indexes, links =>
    if mask.testBit i then do
      let link ← readHash
      readLinks mask indexes (setLink links (.reference link) i)
    else readLinks mask indexes links

/-- `DeserializeBranch`. -/
def readBranch : NodeReader (TreeNode Hash256) := do
  let path ← readPath
  let mask ← nat .eof 2
  let links ← readLinks mask (List.finRange 16) noLinks
  return .branch path links

def deserializeValue : NodeReader (TreeNode Hash256) := do
  let marker ← nat .eof 1
  if marker = 0xFF then readLeaf
  else if marker = 0x00 then readBranch
  else throw (.invalidMarker marker)

def SameNode (hasher : NodeHasher Hash256) : TreeNode Hash256 → TreeNode Hash256 → Prop
  | .leaf path value, .leaf path' value' => path' = path ∧ value' = value
  | .branch path links, .branch path' links' => path' = path ∧
    ∀ i, (links' i).isEmpty = (links i).isEmpty ∧ (links' i).hash hasher = (links i).hash hasher
  | _, _ => False

variable {hasher : NodeHasher Hash256}

theorem SameNode.hash_eq {node node' : TreeNode Hash256} (h : SameNode hasher node node') :
    node'.hash hasher = node.hash hasher := by
  cases node with
  | empty => exact h.elim
  | reference hash => exact h.elim
  | leaf path value =>
    cases node' with
    | leaf path' value' =>
      obtain ⟨rfl, rfl⟩ := h
      rfl
    | empty => exact h.elim
    | branch path' links' => exact h.elim
    | reference hash => exact h.elim
  | branch path links =>
    cases node' with
    | branch path' links' =>
      obtain ⟨rfl, hlinks⟩ := h
      rw [TreeNode.hash, TreeNode.hash]
      congr 1
      funext i
      exact (hlinks i).2
    | empty => exact h.elim
    | leaf path' value' => exact h.elim
    | reference hash => exact h.elim

/-! ### Reading what is written -/

theorem reads_readHash (hash : Hash256) : Reads readHash hash.bytes hash :=
  (Reads.bytes ⟨hash.bytes, hash.size_bytes⟩).bind_pure

theorem getLast?_treeNodePath_packNibbles {path : TreeNodePath} (h : path.length % 2 = 1) :
    (treeNodePath (packNibbles path)).getLast? = some 0 := by
  fun_induction packNibbles path with
  | case1 => cases h
  | case2 a =>
    have ha := a.isLt
    rw [treeNodePath_cons]
    simp only [UInt8.toNat_ofNat', treeNodePath, List.flatMap_nil, List.getLast?_cons_cons, List.getLast?_singleton,
      Option.some.injEq]
    apply Fin.ext
    show 16 * a.val % 2 ^ 8 % 16 = 0
    omega
  | case3 a b rest ih =>
    have hodd : rest.length % 2 = 1 := by
      simp only [List.length_cons] at h
      omega
    have hrest := ih hodd
    rw [treeNodePath_cons]
    cases hpath : treeNodePath (packNibbles rest) with
    | nil => rw [hpath] at hrest; cases hrest
    | cons c path => rw [List.getLast?_cons_cons, List.getLast?_cons_cons, ← hpath, hrest]

theorem reads_readPath {path : TreeNodePath} (h : path.length ≤ 255) : Reads readPath (serializePath path) path := by
  have hsize : (UInt8.ofNat path.length).toNat = path.length := by
    rw [UInt8.toNat_ofNat']
    omega
  refine Reads.cons (Reads.byte _) ?_
  rw [hsize]
  split
  · rename_i hzero
    have hnil : path = [] := List.length_eq_zero_iff.1 (by omega)
    rw [hnil]
    exact Reads.pure _
  · have hlen := length_packNibbles path
    have hread : Reads (bytes NodeDeserializeError.eof _) (packNibbles path) ⟨packNibbles path, hlen⟩ :=
      Reads.bytes ⟨packNibbles path, hlen⟩
    rw [← List.append_nil (packNibbles path)]
    refine hread.bind ?_
    simp only
    rw [if_neg, take_treeNodePath_packNibbles]
    · exact Reads.pure path
    · rintro ⟨hodd, hlast⟩
      exact hlast (getLast?_treeNodePath_packNibbles hodd)

def linkBytes (hasher : NodeHasher Hash256) (links : Nibble → TreeNode Hash256) (indexes : List Nibble) : List UInt8 :=
  indexes.flatMap fun i => if (links i).isEmpty then [] else ((links i).hash hasher).bytes

theorem linksMask_lt (links : Nibble → TreeNode Hash256) : linksMask links < 2 ^ 16 := Nat.ofBits_lt_two_pow _

theorem testBit_linksMask (links : Nibble → TreeNode Hash256) (i : Nibble) :
    (linksMask links).testBit i = !(links i).isEmpty := by
  rw [linksMask, Nat.testBit_ofBits_lt _ i.val i.isLt]

theorem reads_readLinks (links : Nibble → TreeNode Hash256) (indexes : List Nibble)
    (read : Nibble → TreeNode Hash256) :
    Reads (readLinks (linksMask links) indexes read) (linkBytes hasher links indexes) fun i =>
      if i ∈ indexes ∧ (links i).isEmpty = false then .reference ((links i).hash hasher) else read i := by
  induction indexes generalizing read with
  | nil =>
    simp only [List.not_mem_nil, false_and, if_false]
    exact Reads.pure read
  | cons j indexes ih =>
    rw [readLinks, testBit_linksMask, linkBytes, List.flatMap_cons]
    cases hj : (links j).isEmpty with
    | true =>
      simp only [Bool.not_true, Bool.false_eq_true, if_false, if_true, List.nil_append]
      have hread := ih read
      rw [linkBytes] at hread
      convert hread using 2
      rename_i i
      by_cases hij : i = j
      · subst hij
        simp [hj]
      · simp [hij]
    | false =>
      simp only [Bool.not_false, Bool.false_eq_true, if_false, if_true]
      refine (reads_readHash _).bind ?_
      have hread := ih (setLink read (.reference ((links j).hash hasher)) j)
      rw [linkBytes] at hread
      convert hread using 2
      rename_i i
      by_cases hij : i = j
      · subst hij
        simp [hj, setLink]
      · simp [hij, setLink]

theorem reads_serializeValue {node : TreeNode Hash256} {bytes : List UInt8}
    (h : serializeValue hasher node = some bytes) (hlen : node.path.length ≤ 255) :
    ∃ node', Reads deserializeValue bytes node' ∧ SameNode hasher node node' := by
  cases node with
  | empty => cases h
  | reference hash => cases h
  | leaf path value =>
    cases h
    refine ⟨.leaf path value, ?_, rfl, rfl⟩
    refine Reads.cons (Reads.byte _) ?_
    exact (reads_readPath hlen).bind (reads_readHash value).bind_pure
  | branch path links =>
    cases h
    refine ⟨.branch path fun i => if i ∈ List.finRange 16 ∧ (links i).isEmpty = false then
      .reference ((links i).hash hasher) else noLinks i, ?_, rfl, fun i => ?_⟩
    · refine Reads.cons (Reads.byte _) ?_
      refine (reads_readPath hlen).bind ?_
      refine (Reads.nat (linksMask_lt links)).bind ?_
      exact (reads_readLinks links _ noLinks).bind_pure
    · simp only [List.mem_finRange, true_and]
      cases hi : links i <;> simp [TreeNode.isEmpty, TreeNode.hash, noLinks]

/-! ### What is taken -/

theorem eq_of_readHash_eq_ok {input rest : List UInt8} {hash : Hash256} (h : readHash input = .ok hash rest) :
    input = hash.bytes ++ rest := by
  obtain ⟨raw, middle, hraw, hhash⟩ := exists_of_bind_eq_ok h
  obtain ⟨rfl, rfl⟩ := eq_of_pure_eq_ok hhash
  exact eq_of_bytes_eq_ok hraw

theorem packNibbles_take {bytes : List UInt8} {n : Nat} (hn : (n + 1) / 2 = bytes.length)
    (hfiller : n % 2 = 1 → (treeNodePath bytes).getLast? = some 0) :
    packNibbles ((treeNodePath bytes).take n) = bytes := by
  induction bytes generalizing n with
  | nil =>
    rw [show n = 0 by rw [List.length_nil] at hn; omega, List.take_zero]
    rfl
  | cons b bytes ih =>
    rw [List.length_cons] at hn
    have hb := b.toNat_lt
    rw [treeNodePath_cons] at hfiller ⊢
    obtain rfl | ⟨m, rfl⟩ : n = 1 ∨ ∃ m, n = m + 2 := by
      by_cases h1 : n = 1
      · exact .inl h1
      · exact .inr ⟨n - 2, by omega⟩
    · have hnil : bytes = [] := List.length_eq_zero_iff.1 (by omega)
      subst hnil
      have hlow := hfiller rfl
      simp only [treeNodePath, List.flatMap_nil, List.getLast?_cons_cons, List.getLast?_singleton,
        Option.some.injEq] at hlow
      have hlow' : b.toNat % 16 = 0 := congrArg Fin.val hlow
      rw [List.take_succ_cons, List.take_zero, packNibbles, List.cons.injEq, and_iff_left rfl]
      apply UInt8.toNat_inj.1
      rw [UInt8.toNat_ofNat']
      show 16 * (b.toNat / 16) % 2 ^ 8 = b.toNat
      omega
    · rw [List.take_succ_cons, List.take_succ_cons, packNibbles, ih (by omega) ?_, List.cons.injEq, and_iff_left rfl]
      · apply UInt8.toNat_inj.1
        rw [UInt8.toNat_ofNat']
        show (16 * (b.toNat / 16) + b.toNat % 16) % 2 ^ 8 = b.toNat
        omega
      · intro hodd
        have hlast := hfiller (by omega)
        cases hpath : treeNodePath bytes with
        | nil =>
          have hlen := length_treeNodePath bytes
          rw [hpath, List.length_nil] at hlen
          omega
        | cons c path => rwa [hpath, List.getLast?_cons_cons, List.getLast?_cons_cons] at hlast

theorem eq_of_readPath_eq_ok {input rest : List UInt8} {path : TreeNodePath} (h : readPath input = .ok path rest) :
    path.length ≤ 255 ∧ input = serializePath path ++ rest := by
  obtain ⟨n, middle, hn, hbody⟩ := exists_of_bind_eq_ok h
  obtain ⟨hlt, rfl⟩ := eq_of_nat_eq_ok hn
  split at hbody
  · obtain ⟨rfl, rfl⟩ := eq_of_pure_eq_ok hbody
    rename_i hzero
    rw [show n = 0 by omega]
    exact ⟨by simp, rfl⟩
  · obtain ⟨raw, middle', hraw, hpath⟩ := exists_of_bind_eq_ok hbody
    rw [eq_of_bytes_eq_ok hraw]
    simp only at hpath
    split at hpath
    · cases hpath
    · rename_i hfiller
      obtain ⟨rfl, rfl⟩ := eq_of_pure_eq_ok hpath
      have hlen : ((treeNodePath raw.1).take n).length = n := by
        rw [List.length_take, length_treeNodePath, raw.2]
        omega
      have hodd : n % 2 = 1 → (treeNodePath raw.1).getLast? = some 0 := by
        intro hodd
        by_contra hlast
        exact hfiller ⟨hodd, hlast⟩
      refine ⟨by rw [hlen]; omega, ?_⟩
      rw [serializePath, hlen, packNibbles_take raw.2.symm hodd]
      simp [leBytes]

theorem eq_of_readLinks_eq_ok (hasher : NodeHasher Hash256) {mask : Nat} {indexes : List Nibble}
    (hnodup : indexes.Nodup) {read links : Nibble → TreeNode Hash256} {input rest : List UInt8}
    (h : readLinks mask indexes read input = .ok links rest) :
    (∀ i : Nibble, i ∉ indexes ∨ mask.testBit i = false → links i = read i) ∧
    (∀ i ∈ indexes, mask.testBit i = true → ∃ hash, links i = .reference hash) ∧
    input = (indexes.flatMap fun i : Nibble =>
      if mask.testBit i then ((links i).hash hasher).bytes else []) ++ rest := by
  induction indexes generalizing read input with
  | nil =>
    obtain ⟨rfl, rfl⟩ := eq_of_pure_eq_ok h
    exact ⟨fun _ _ => rfl, fun i hi => absurd hi (by simp), rfl⟩
  | cons j indexes ih =>
    obtain ⟨hj, hnodup⟩ := List.nodup_cons.1 hnodup
    rw [readLinks] at h
    rw [List.flatMap_cons]
    cases hbit : mask.testBit j with
    | true =>
      rw [hbit, if_pos rfl] at h
      obtain ⟨hash, middle, hhash, htail⟩ := exists_of_bind_eq_ok h
      obtain ⟨hout, hin, hinput⟩ := ih hnodup htail
      have hlink : links j = .reference hash := by rw [hout j (.inl hj), setLink, Function.update_self]
      refine ⟨fun i hi => ?_, fun i hi hset => ?_, ?_⟩
      · have hij : i ≠ j := by
          rintro rfl
          rcases hi with hi | hi
          · exact hi List.mem_cons_self
          · rw [hbit] at hi
            cases hi
        rw [hout i (hi.imp_left fun hi hmem => hi (List.mem_cons_of_mem _ hmem)), setLink, Function.update_of_ne hij]
      · rcases List.mem_cons.1 hi with rfl | hi
        · exact ⟨hash, hlink⟩
        · exact hin i hi hset
      · rw [if_pos rfl, hlink, TreeNode.hash, List.append_assoc, ← hinput]
        exact eq_of_readHash_eq_ok hhash
    | false =>
      rw [hbit, if_neg (by simp)] at h
      obtain ⟨hout, hin, hinput⟩ := ih hnodup h
      refine ⟨fun i hi => ?_, fun i hi hset => ?_, ?_⟩
      · by_cases hij : i = j
        · rw [hij]
          exact hout j (.inl hj)
        · exact hout i (hi.imp_left fun hi hmem => hi (List.mem_cons_of_mem _ hmem))
      · rcases List.mem_cons.1 hi with rfl | hi
        · rw [hbit] at hset
          cases hset
        · exact hin i hi hset
      · rw [if_neg (by simp), List.nil_append]
        exact hinput

theorem serializeValue_of_deserializeValue (hasher : NodeHasher Hash256) {input rest : List UInt8}
    {node : TreeNode Hash256} (h : deserializeValue input = .ok node rest) :
    ∃ bytes, serializeValue hasher node = some bytes ∧ node.path.length ≤ 255 ∧ input = bytes ++ rest := by
  obtain ⟨marker, body, hmarker, hbody⟩ := exists_of_bind_eq_ok h
  obtain ⟨-, rfl⟩ := eq_of_nat_eq_ok hmarker
  split at hbody
  · rename_i hleaf
    obtain ⟨path, middle, hpath, hvalue⟩ := exists_of_bind_eq_ok hbody
    obtain ⟨value, middle', hhash, hnode⟩ := exists_of_bind_eq_ok hvalue
    obtain ⟨rfl, rfl⟩ := eq_of_pure_eq_ok hnode
    obtain ⟨hlen, rfl⟩ := eq_of_readPath_eq_ok hpath
    refine ⟨_, rfl, hlen, ?_⟩
    rw [hleaf, eq_of_readHash_eq_ok hhash, serializeLeaf]
    simp [leBytes]
  · split at hbody
    · rename_i hbranch
      obtain ⟨path, middle, hpath, hmaskLinks⟩ := exists_of_bind_eq_ok hbody
      obtain ⟨mask, middle', hmask, hlinks⟩ := exists_of_bind_eq_ok hmaskLinks
      obtain ⟨links, middle'', hread, hnode⟩ := exists_of_bind_eq_ok hlinks
      obtain ⟨rfl, rfl⟩ := eq_of_pure_eq_ok hnode
      obtain ⟨hlen, rfl⟩ := eq_of_readPath_eq_ok hpath
      obtain ⟨hlt, rfl⟩ := eq_of_nat_eq_ok hmask
      obtain ⟨hout, hin, rfl⟩ := eq_of_readLinks_eq_ok hasher (List.nodup_finRange 16) hread
      have hempty : ∀ i : Nibble, (links i).isEmpty = !mask.testBit i := by
        intro i
        cases hbit : mask.testBit i with
        | true =>
          obtain ⟨hash, hlink⟩ := hin i (List.mem_finRange i) hbit
          rw [hlink]
          rfl
        | false =>
          rw [hout i (.inr hbit)]
          rfl
      have hlinksMask : linksMask links = mask := by
        refine Nat.eq_of_testBit_eq fun i => ?_
        by_cases hi : i < 16
        · rw [testBit_linksMask links ⟨i, hi⟩, hempty, Bool.not_not]
        · have hpow : 2 ^ 16 ≤ 2 ^ i := Nat.pow_le_pow_right (by omega) (by omega)
          rw [Nat.testBit_lt_two_pow (Nat.lt_of_lt_of_le (linksMask_lt links) hpow),
            Nat.testBit_lt_two_pow (Nat.lt_of_lt_of_le hlt hpow)]
      have hbytes : (fun i : Nibble => if mask.testBit i then ((links i).hash hasher).bytes else []) =
          fun i => if (links i).isEmpty then [] else ((links i).hash hasher).bytes := by
        funext i
        rw [hempty]
        cases mask.testBit i <;> rfl
      refine ⟨_, rfl, hlen, ?_⟩
      rw [hbranch, serializeBranch, hlinksMask, hbytes]
      simp only [List.cons_append, List.append_assoc]
      rfl
    · cases hbody

/-- Every leaf or branch node with a path of at most 255 nibbles is read back from its serialization with the
same path, value or links and hash, and the bytes that are taken for a node are the serialization of the node. -/
theorem deserializeValue_canonical (hasher : NodeHasher Hash256) :
    (∀ node : TreeNode Hash256, node.isLeaf ∨ node.isBranch → node.path.length ≤ 255 →
      ∃ bytes node', serializeValue hasher node = some bytes ∧ deserializeValue bytes = .ok node' [] ∧
        SameNode hasher node node' ∧ node'.hash hasher = node.hash hasher) ∧
    (∀ (buffer rest : List UInt8) (node : TreeNode Hash256), deserializeValue buffer = .ok node rest →
      ∃ bytes, serializeValue hasher node = some bytes ∧ buffer = bytes ++ rest) := by
  refine ⟨fun node hnode hlen => ?_, fun buffer rest node h => ?_⟩
  · have hsome : ∃ bytes, serializeValue hasher node = some bytes := by
      cases node with
      | empty => simp [TreeNode.isLeaf, TreeNode.isBranch] at hnode
      | leaf path value => exact ⟨_, rfl⟩
      | branch path links => exact ⟨_, rfl⟩
      | reference hash => simp [TreeNode.isLeaf, TreeNode.isBranch] at hnode
    obtain ⟨bytes, hbytes⟩ := hsome
    obtain ⟨node', hread, hsame⟩ := reads_serializeValue hbytes hlen
    exact ⟨bytes, node', hbytes, hread.run, hsame, hsame.hash_eq⟩
  · obtain ⟨bytes, hbytes, -, hbuffer⟩ := serializeValue_of_deserializeValue hasher h
    exact ⟨bytes, hbytes, hbuffer⟩

def sampleBranch : TreeNode Hash256 :=
  .branch [1, 2, 3] (setLink (setLink noLinks (.leaf [4] Hash256.zero) 5) (.reference Hash256.zero) 6)

theorem deserializeValue_canonical_sample :
    ∃ bytes node', serializeValue (sha3Hasher fun _ => Hash256.zero) sampleBranch = some bytes ∧
      deserializeValue bytes = .ok node' [] ∧ SameNode (sha3Hasher fun _ => Hash256.zero) sampleBranch node' ∧
      serializeValue (sha3Hasher fun _ => Hash256.zero) node' = some bytes := by
  obtain ⟨hread, htaken⟩ := deserializeValue_canonical (sha3Hasher fun _ => Hash256.zero)
  obtain ⟨bytes, node', hbytes, hok, hsame, -⟩ := hread sampleBranch (.inr rfl) (by decide)
  obtain ⟨bytes', hbytes', heq⟩ := htaken bytes [] node' hok
  rw [List.append_nil] at heq
  exact ⟨bytes, node', hbytes, hok, hsame, by rw [heq, hbytes']⟩

end Catapult.Tree
