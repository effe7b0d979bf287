import Catapult.Sdk.PatriciaMerkle

/-!
# State paths of the client in the sdks

The sdks hash a node as the client does and read back the nodes that the client serializes.
-/

namespace Catapult.Sdk
open Catapult.Tree

theorem getElem?_treeNodePath {bytes : List UInt8} {i : Nat} (h : i < 2 * bytes.length) :
    (treeNodePath bytes)[i]? = some (getNibbleAt bytes i) := by
  induction bytes generalizing i with
  | nil => simp at h
  | cons byte bytes ih =>
    rw [treeNodePath_cons]
    match i with
    | 0 => rfl
    | 1 => rfl
    | i + 2 =>
      rw [List.length_cons] at h
      have hnibble : getNibbleAt (byte :: bytes) (i + 2) = getNibbleAt bytes i := by
        rw [getNibbleAt, getNibbleAt]
        simp only [Nat.add_mod_right, show (i + 2) / 2 = i / 2 + 1 by omega, List.getD_cons_succ]
      rw [hnibble, List.getElem?_cons_succ, List.getElem?_cons_succ]
      exact ih (by omega)

theorem packNibbles_eq (l : TreeNodePath) (h : l.length % 2 = 0) :
    packNibbles l = (List.range (l.length / 2)).map fun k =>
      UInt8.ofNat (16 * (l.getD (2 * k) 0) + l.getD (2 * k + 1) 0) := by
  fun_induction packNibbles l with
  | case1 => rfl
  | case2 a => simp at h
  | case3 a b rest ih =>
    simp only [List.length_cons] at h ⊢
    rw [show (rest.length + 1 + 1) / 2 = rest.length / 2 + 1 by omega, List.range_succ_eq_map,
      List.map_cons, List.map_map, ih (by omega)]
    rfl

namespace PatriciaTreePath

theorem length_hexPath (path : PatriciaTreePath) : path.hexPath.length = path.size := by
  have := path.size_le
  rw [hexPath, List.length_take, length_treeNodePath]
  omega

theorem getD_hexPath (path : PatriciaTreePath) {i : Nat} (h : i < path.size) :
    path.hexPath.getD i 0 = getNibbleAt path.path i := by
  have := path.size_le
  rw [hexPath, List.getD_eq_getElem?_getD, List.getElem?_take_of_lt h, getElem?_treeNodePath (by omega)]
  rfl

theorem encodePath_eq (path : PatriciaTreePath) (isLeaf : Bool) :
    path.encodePath isLeaf = encodedKey path.hexPath isLeaf := by
  have hlen := path.length_hexPath
  rcases encodedKey_cases path.hexPath isLeaf with ⟨heven, he⟩ | ⟨nibble, rest, hpath, heven, he⟩
  · rw [he, encodePath, packNibbles_eq _ heven, hlen]
    rw [hlen] at heven
    simp only [heven, Nat.zero_ne_one, if_false, Nat.zero_add, List.cons.injEq, true_and]
    refine List.map_congr_left fun k hk => ?_
    rw [List.mem_range] at hk
    rw [path.getD_hexPath (by omega), path.getD_hexPath (by omega)]
  · rw [hpath, List.length_cons] at hlen
    have hget : ∀ i, i < rest.length → rest.getD i 0 = getNibbleAt path.path (1 + i) := by
      intro i hi
      rw [← path.getD_hexPath (by omega), hpath, Nat.add_comm, List.getD_cons_succ]
    have hfirst : getNibbleAt path.path 0 = nibble := by
      rw [← path.getD_hexPath (by omega), hpath]
      rfl
    have hodd : path.size % 2 = 1 := by omega
    rw [he, encodePath, packNibbles_eq _ heven]
    simp only [hodd, if_true, hfirst, List.cons.injEq, true_and]
    rw [show path.size / 2 = rest.length / 2 by omega]
    refine List.map_congr_left fun k hk => ?_
    rw [List.mem_range] at hk
    rw [hget _ (by omega), hget _ (by omega), Nat.add_assoc]

end PatriciaTreePath

def sdkPath (path : TreeNodePath) : PatriciaTreePath where
  path := packNibbles path
  size := path.length
  size_le := by rw [length_packNibbles]; omega

theorem hexPath_sdkPath (path : TreeNodePath) : (sdkPath path).hexPath = path := take_treeNodePath_packNibbles path

def sdkLinks (hasher : NodeHasher Hash256) (links : Nibble → TreeNode Hash256) (i : Nibble) : Option Hash256 :=
  if (links i).isEmpty then none else some ((links i).hash hasher)

def sdkNode (hasher : NodeHasher Hash256) : TreeNode Hash256 → Option Node
  | .leaf path value => some (.leaf (sdkPath path) value)
  | .branch path links => some (.branch (sdkPath path) (sdkLinks hasher links))
  | _ => none

theorem readHash_append (hash : Hash256) (rest : List UInt8) : readHash (hash.bytes ++ rest) = some (hash, rest) := by
  have hlen := hash.size_bytes
  have hnot : ¬ (hash.bytes ++ rest).length < 32 := by
    rw [List.length_append]
    omega
  rw [readHash, dif_neg hnot]
  have htake : (hash.bytes ++ rest).take 32 = hash.bytes := by rw [← hlen, List.take_left]
  have hdrop : (hash.bytes ++ rest).drop 32 = rest := by rw [← hlen, List.drop_left]
  simp only [htake, hdrop]

theorem deserializePath_append {path : TreeNodePath} (h : path.length < 256) (rest : List UInt8) :
    deserializePath (serializePath path ++ rest) = some (sdkPath path, rest) := by
  have hsize : (UInt8.ofNat path.length).toNat = path.length := by
    rw [UInt8.toNat_ofNat']
    exact Nat.mod_eq_of_lt h
  have hlen := length_packNibbles path
  have hnot : ¬ (packNibbles path ++ rest).length < (path.length + 1) / 2 := by
    rw [List.length_append]
    omega
  rw [serializePath, List.cons_append, deserializePath]
  simp only [hsize, hnot, dif_neg, not_false_eq_true]
  have htake : (packNibbles path ++ rest).take ((path.length + 1) / 2) = packNibbles path := by
    rw [← hlen, List.take_left]
  have hdrop : (packNibbles path ++ rest).drop ((path.length + 1) / 2) = rest := by rw [← hlen, List.drop_left]
  simp only [htake, hdrop]
  rfl

theorem foldlM_readLink {present : Nibble → Bool} {hashes : Nibble → Hash256} {mask : Nat}
    (hmask : ∀ i : Nibble, mask.testBit i = present i)
    {indexes : List Nibble} (hnd : indexes.Nodup) (links : Nibble → Option Hash256) (rest : List UInt8) :
    indexes.foldlM (readLink mask) (links, (indexes.flatMap fun i =>
      if present i then (hashes i).bytes else []) ++ rest) =
      some (fun i => if i ∈ indexes ∧ present i then some (hashes i) else links i, rest) := by
  induction indexes generalizing links with
  | nil => simp
  | cons index indexes ih =>
    obtain ⟨hnot, hnd⟩ := List.nodup_cons.1 hnd
    rw [List.foldlM_cons, readLink, List.flatMap_cons, hmask]
    cases hpresent : present index with
    | false =>
      simp only [Bool.false_eq_true, if_false, List.nil_append, Option.bind_eq_bind, Option.bind_some, ih hnd]
      congr 2
      funext i
      by_cases hi : i = index
      · subst hi; simp [hpresent, hnot]
      · simp [hi]
    | true =>
      simp only [if_true, List.append_assoc, readHash_append, Option.map_some, Option.bind_eq_bind,
        Option.bind_some, ih hnd]
      congr 2
      funext i
      by_cases hi : i = index
      · subst hi; simp [hpresent, hnot]
      · simp [hi]

theorem deserializeNode_append {hasher : NodeHasher Hash256} {node : TreeNode Hash256} {bytes : List UInt8}
    (hbytes : serializeValue hasher node = some bytes) (h : node.path.length < 256) (rest : List UInt8) :
    ∃ sdk, sdkNode hasher node = some sdk ∧ deserializeNode (bytes ++ rest) = some (sdk, rest) := by
  cases node with
  | empty => cases hbytes
  | reference hash => cases hbytes
  | leaf path value =>
    cases hbytes
    refine ⟨_, rfl, ?_⟩
    have hpath : path.length < 256 := h
    rw [serializeLeaf, List.cons_append, deserializeNode, if_pos rfl, List.append_assoc, deserializeLeaf,
      deserializePath_append hpath]
    simp only [Option.bind_some, readHash_append, Option.map_some]
  | branch path links =>
    cases hbytes
    refine ⟨_, rfl, ?_⟩
    have hpath : path.length < 256 := h
    have hmask : ∀ i : Nibble, (linksMask links).testBit i = !(links i).isEmpty :=
      fun i => Nat.testBit_ofBits_lt _ _ i.isLt
    have hlt : linksMask links < 2 ^ 16 := Nat.ofBits_lt_two_pow _
    have hsplit : (UInt8.ofNat (linksMask links)).toNat + 256 *
        (UInt8.ofNat (linksMask links / 256)).toNat = linksMask links := by
      rw [UInt8.toNat_ofNat', UInt8.toNat_ofNat']
      omega
    have hflat : ((List.finRange 16).flatMap fun i => if (links i).isEmpty then [] else ((links i).hash hasher).bytes) =
        (List.finRange 16).flatMap fun i => if !(links i).isEmpty then ((links i).hash hasher).bytes else [] := by
      congr 1
      funext i
      cases (links i).isEmpty <;> rfl
    rw [serializeBranch, List.cons_append, deserializeNode, if_neg (by decide), if_pos rfl,
      List.append_assoc, deserializeBranch, deserializePath_append hpath]
    simp only [Option.bind_some, leBytes, List.cons_append, List.nil_append, hsplit, hflat]
    rw [foldlM_readLink hmask (List.nodup_finRange 16)]
    simp only [Option.map_some, List.mem_finRange, true_and, Option.some.injEq, Prod.mk.injEq, and_true,
      Node.branch.injEq]
    funext i
    rw [sdkLinks]
    cases (links i).isEmpty <;> rfl

theorem deserializePatriciaTreeNodes_of_node {buffer rest : List UInt8} {node : Node}
    (h : deserializeNode buffer = some (node, rest)) :
    deserializePatriciaTreeNodes buffer = (deserializePatriciaTreeNodes rest).map (node :: ·) := by
  have hne : ¬ buffer.isEmpty = true := by
    intro hempty
    rw [List.isEmpty_iff.1 hempty] at h
    cases h
  rw [deserializePatriciaTreeNodes, if_neg hne]
  split
  · rename_i hnone
    rw [h] at hnone
    cases hnone
  · rename_i node' rest' hsome
    rw [h] at hsome
    cases hsome
    rfl

theorem deserialize_serializeStatePath {hasher : NodeHasher Hash256} {nodePath : List (TreeNode Hash256)}
    {nodes : List Node} (hnodes : nodePath.mapM (sdkNode hasher) = some nodes)
    (h : ∀ node ∈ nodePath, node.path.length < 256) :
    ∃ bytes, serializeStatePath hasher nodePath = some bytes ∧ deserializePatriciaTreeNodes bytes = some nodes := by
  induction nodePath generalizing nodes with
  | nil =>
    cases hnodes
    exact ⟨[], rfl, by rw [deserializePatriciaTreeNodes]; rfl⟩
  | cons node nodePath ih =>
    rw [List.mapM_cons] at hnodes
    obtain ⟨sdk, hsdk, hnodes⟩ := Option.bind_eq_some_iff.1 hnodes
    obtain ⟨sdks, hsdks, hnodes⟩ := Option.bind_eq_some_iff.1 hnodes
    cases hnodes
    obtain ⟨bytes, hserialize, hdeserialize⟩ := ih hsdks fun node hnode => h node (by simp [hnode])
    obtain ⟨parts, hparts, rfl⟩ := Option.map_eq_some_iff.1 hserialize
    have hvalue : ∃ part, serializeValue hasher node = some part := by
      cases node with
      | empty => cases hsdk
      | reference hash => cases hsdk
      | leaf path value => exact ⟨_, rfl⟩
      | branch path links => exact ⟨_, rfl⟩
    obtain ⟨part, hpart⟩ := hvalue
    refine ⟨part ++ parts.flatten, ?_, ?_⟩
    · rw [serializeStatePath, List.mapM_cons, hpart, hparts]
      rfl
    · obtain ⟨sdk', hsdk', hread⟩ := deserializeNode_append hpart (h node (by simp)) parts.flatten
      rw [hsdk] at hsdk'
      cases hsdk'
      rw [deserializePatriciaTreeNodes_of_node hread, hdeserialize]
      rfl

end Catapult.Sdk
