import Mathlib.Algebra.Group.Nat.Defs
import Mathlib.Data.List.Basic
import Mathlib.Data.Nat.Log

/-!
# Merkle trees that duplicate the last hash of an odd level

A level is hashed in pairs until one hash is left (`root`). `tree` lays the levels out one after the other, each
padded to an even number of hashes. A hash and its sibling, which is next to it in the padded level, hash to their
parent in the level above.
-/

namespace Catapult.Merkle
variable {α : Type*}

section Levels
variable (node : α → α → α) (zero : α)

def pairUp : List α → List α
  | [] => []
  | [a] => [node a a]
  | a :: b :: rest => node a b :: pairUp rest

def padded : List α → List α
  | [] => []
  | [a] => [a, a]
  | a :: b :: rest => a :: b :: padded rest

@[simp] theorem length_pairUp (level : List α) : (pairUp node level).length = (level.length + 1) / 2 := by
  induction level using pairUp.induct with
  | case1 => simp [pairUp]
  | case2 a => simp [pairUp]
  | case3 a b rest ih =>
    rw [pairUp, List.length_cons, ih, List.length_cons, List.length_cons]
    omega

theorem length_padded (level : List α) : (padded level).length = level.length + level.length % 2 := by
  induction level using padded.induct with
  | case1 => rfl
  | case2 a => rfl
  | case3 a b rest ih =>
    rw [padded, List.length_cons, List.length_cons, ih, List.length_cons, List.length_cons]
    omega

theorem padded_of_even {level : List α} (h : level.length % 2 = 0) : padded level = level := by
  induction level using padded.induct with
  | case1 => rfl
  | case2 a => simp at h
  | case3 a b rest ih =>
    rw [padded, ih]
    rw [List.length_cons, List.length_cons] at h
    omega

theorem padded_of_odd {level : List α} (h : level.length % 2 = 1) :
    ∃ last, level[level.length - 1]? = some last ∧ padded level = level ++ [last] := by
  induction level using padded.induct with
  | case1 => simp at h
  | case2 a => exact ⟨a, rfl, rfl⟩
  | case3 a b rest ih =>
    rw [List.length_cons, List.length_cons] at h
    obtain ⟨last, hlast, heq⟩ := ih (by omega)
    have hpos : rest.length + 1 + 1 - 1 = rest.length - 1 + 2 := by omega
    refine ⟨last, ?_, by rw [padded, heq]; rfl⟩
    rw [List.length_cons, List.length_cons, hpos]
    exact hlast

theorem getElem?_padded {level : List α} {i : Nat} {a : α} (h : level[i]? = some a) : (padded level)[i]? = some a := by
  rcases Nat.mod_two_eq_zero_or_one level.length with heven | hodd
  · rw [padded_of_even heven]
    exact h
  · obtain ⟨last, -, heq⟩ := padded_of_odd hodd
    rw [heq, List.getElem?_append_left (List.getElem?_eq_some_iff.1 h).1]
    exact h

def root : List α → α
  | [] => zero
  | [a] => a
  | a :: b :: rest => root (node a b :: pairUp node rest)
termination_by level => level.length
decreasing_by
  rw [List.length_cons, length_pairUp, List.length_cons, List.length_cons]
  omega

def tree : List α → List α
  | [] => [zero]
  | [a] => [a]
  | a :: b :: rest => a :: b :: padded rest ++ tree (node a b :: pairUp node rest)
termination_by level => level.length
decreasing_by
  rw [List.length_cons, length_pairUp, List.length_cons, List.length_cons]
  omega

/-- The number of hashes of all levels over `count` hashes. -/
def treeLength (count : Nat) : Nat :=
  if count ≤ 1 then 1 else count + count % 2 + treeLength ((count + 1) / 2)
termination_by count

theorem root_of_two_le {level : List α} (h : 2 ≤ level.length) :
    root node zero level = root node zero (pairUp node level) := by
  rcases level with - | ⟨a, - | ⟨b, rest⟩⟩
  · simp at h
  · simp at h
  · rw [root, pairUp]

theorem tree_of_two_le {level : List α} (h : 2 ≤ level.length) :
    tree node zero level = padded level ++ tree node zero (pairUp node level) := by
  rcases level with - | ⟨a, - | ⟨b, rest⟩⟩
  · simp at h
  · simp at h
  · rw [tree, pairUp, padded]

theorem treeLength_of_two_le {count : Nat} (h : 2 ≤ count) :
    treeLength count = count + count % 2 + treeLength ((count + 1) / 2) := by
  rw [treeLength, if_neg (by omega)]

@[simp] theorem length_tree (level : List α) : (tree node zero level).length = treeLength level.length := by
  induction hlength : level.length using Nat.strongRecOn generalizing level with
  | ind count ih =>
    subst hlength
    rcases level with - | ⟨a, - | ⟨b, rest⟩⟩
    · rw [tree, treeLength]; rfl
    · rw [tree, treeLength]; rfl
    · have htwo : 2 ≤ (a :: b :: rest).length := Nat.le_add_left 2 rest.length
      rw [tree_of_two_le node zero htwo, List.length_append, length_padded, treeLength_of_two_le htwo,
        ih _ _ _ (length_pairUp node _)]
      rw [List.length_cons, List.length_cons]
      omega

theorem getElem?_tree {level : List α} {i : Nat} {a : α} (h : level[i]? = some a) :
    (tree node zero level)[i]? = some a := by
  rcases level with - | ⟨b, - | ⟨c, rest⟩⟩
  · simp at h
  · rw [tree]
    exact h
  · have hpadded := getElem?_padded h
    have htwo : 2 ≤ (b :: c :: rest).length := Nat.le_add_left 2 rest.length
    rw [tree_of_two_le node zero htwo,
      List.getElem?_append_left (List.getElem?_eq_some_iff.1 hpadded).1]
    exact hpadded

theorem exists_tree_eq_append (level : List α) : ∃ upper, tree node zero level = level ++ upper := by
  refine ⟨(tree node zero level).drop level.length, ?_⟩
  conv_lhs => rw [← List.take_append_drop level.length (tree node zero level)]
  rw [List.append_cancel_right_eq]
  refine List.ext_getElem? fun i => ?_
  rcases Nat.lt_or_ge i level.length with hi | hi
  · rw [List.getElem?_take_of_lt hi, List.getElem?_eq_getElem hi]
    exact getElem?_tree node zero (List.getElem?_eq_getElem hi)
  · rw [List.getElem?_take_eq_none hi, List.getElem?_eq_none hi]

end Levels

section Sibling
variable (node : α → α → α)

/-- The position next to `i` in its pair. -/
def siblingIndex (i : Nat) : Nat := if i % 2 = 1 then i - 1 else i + 1

/-- The hash above `a` at position `i` and its sibling. -/
def parent (i : Nat) (a sibling : α) : α := if i % 2 = 1 then node sibling a else node a sibling

theorem siblingIndex_add_two (i : Nat) : siblingIndex (i + 2) = siblingIndex i + 2 := by
  unfold siblingIndex
  rcases Nat.mod_two_eq_zero_or_one i with h | h
  · rw [if_neg (by omega), if_neg (by omega)]
  · rw [if_pos (by omega), if_pos h]
    omega

theorem exists_sibling {level : List α} {i : Nat} {a : α} (h : level[i]? = some a) :
    ∃ sibling, (padded level)[siblingIndex i]? = some sibling ∧
      (pairUp node level)[i / 2]? = some (parent node i a sibling) := by
  induction level using pairUp.induct generalizing i with
  | case1 => simp at h
  | case2 b =>
    rcases i with - | i
    · cases h
      exact ⟨a, rfl, rfl⟩
    · simp at h
  | case3 b c rest ih =>
    rcases i with - | - | i
    · cases h
      exact ⟨c, rfl, rfl⟩
    · cases h
      exact ⟨b, rfl, rfl⟩
    · obtain ⟨sibling, hsibling, hparent⟩ := ih h
      have hhalf : (i + 2) / 2 = i / 2 + 1 := by omega
      have hparity : (i + 2) % 2 = i % 2 := Nat.add_mod_right i 2
      refine ⟨sibling, ?_, ?_⟩
      · rw [siblingIndex_add_two]
        exact hsibling
      · rw [hhalf, parent, hparity]
        exact hparent

end Sibling

def levelSum (count : Nat) : Nat := if 1 < count then count + levelSum ((count + 1) / 2) else 0
termination_by count

theorem levelSum_lt_treeLength (count : Nat) : levelSum count < treeLength count := by
  induction count using Nat.strongRecOn with
  | ind count ih =>
    rw [levelSum, treeLength]
    split
    · have := ih ((count + 1) / 2) (by omega)
      rw [if_neg (by omega)]
      omega
    · rw [if_pos (by omega)]
      exact Nat.one_pos

theorem levelSum_add_one_eq_iff {count : Nat} (h : 0 < count) :
    levelSum count + 1 = treeLength count ↔ ∃ k, count = 2 ^ k := by
  induction count using Nat.strongRecOn with
  | ind count ih =>
    rw [levelSum, treeLength]
    by_cases htwo : 1 < count
    · rw [if_pos htwo, if_neg (by omega)]
      have hlt := levelSum_lt_treeLength ((count + 1) / 2)
      constructor
      · intro heq
        obtain ⟨k, hk⟩ := (ih ((count + 1) / 2) (by omega) (by omega)).1 (by omega)
        refine ⟨k + 1, ?_⟩
        rw [Nat.pow_succ, ← hk]
        omega
      · rintro ⟨k, hk⟩
        rcases k with - | k
        · rw [hk] at htwo
          exact absurd htwo (by decide)
        · have hhalf : (count + 1) / 2 = 2 ^ k := by
            rw [hk, Nat.pow_succ]
            omega
          have heq := (ih ((count + 1) / 2) (by omega) (by omega)).2 ⟨k, hhalf⟩
          have heven : count % 2 = 0 := by rw [hk, Nat.pow_succ, Nat.mul_mod_left]
          omega
    · have hone : count = 1 := by omega
      rw [if_neg htwo, if_pos (by omega)]
      exact ⟨fun _ => ⟨0, hone⟩, fun _ => rfl⟩

end Catapult.Merkle
