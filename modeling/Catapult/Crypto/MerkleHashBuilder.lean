import Catapult.Lib.MerkleTree
import Catapult.Tree.Serializer

/-!
# Merkle hashes (`crypto::MerkleHashBuilder`)

`Final` hashes the levels in place: the hashes of a level are written over the start of the level below. The loop at
counter `i` has written the first `i / 2` hashes of the vector and has still to read those from `i` on. The counter
has 32 bits, so a level of `2 ^ 32 - 1` hashes or more is never left; below that the builder returns the root and the
levels of the recursive definition.
-/

namespace Catapult.Crypto
open Tree (Hash256)

variable (sha3 : List UInt8 → Hash256)

def nodeHash (left right : Hash256) : Hash256 := sha3 (left.bytes ++ right.bytes)

def merkleRoot (hashes : List Hash256) : Hash256 := Merkle.root (nodeHash sha3) Hash256.zero hashes

def merkleTree (hashes : List Hash256) : List Hash256 := Merkle.tree (nodeHash sha3) Hash256.zero hashes

namespace MerkleHashBuilder

/-- The state of the loops of `Final`; `consumed` is what the hash consumer has made of the hashes so far. -/
structure Final (σ : Type) where
  hashes : List Hash256
  numRemainingHashes : Nat
  consumed : σ

section Loops
variable {σ : Type} (hashConsumer : σ → List Hash256 → Option σ)

/-- The loop over a level. A read outside the vector has no result, nor has a loop that does not end within `fuel`. -/
def hashLevel : Nat → UInt32 → Final σ → Option (Final σ)
  | 0, _, _ => none
  | fuel + 1, i, state =>
    if i.toNat < state.numRemainingHashes then
      if (i + 1).toNat < state.numRemainingHashes then do
        let left ← state.hashes[i.toNat]?
        let right ← state.hashes[i.toNat + 1]?
        let hash := nodeHash sha3 left right
        let consumed ← hashConsumer state.consumed [hash]
        hashLevel fuel (i + 2) { state with hashes := state.hashes.set (i / 2).toNat hash, consumed }
      else do
        -- if there is an odd number of hashes, duplicate the last one
        let last ← state.hashes[i.toNat]?
        let hash := nodeHash sha3 last last
        let consumed ← hashConsumer state.consumed [hash]
        hashLevel fuel (i + 2) ⟨state.hashes.set (i / 2).toNat hash, state.numRemainingHashes + 1, consumed⟩
    else
      some state

/-- The nodes of a level are consecutive in the tree, so the padding is consumed before the next level. -/
def consumePadding (state : Final σ) : Option σ :=
  if state.numRemainingHashes % 2 = 1 then do
    let last ← state.hashes[state.numRemainingHashes - 1]?
    hashConsumer state.consumed [last]
  else
    some state.consumed

def hashLevels : Nat → Final σ → Option (Final σ)
  | 0, _ => none
  | fuel + 1, state =>
    if 1 < state.numRemainingHashes then do
      let consumed ← consumePadding hashConsumer state
      let state ← hashLevel sha3 hashConsumer fuel 0 { state with consumed }
      hashLevels fuel { state with numRemainingHashes := state.numRemainingHashes / 2 }
    else
      some state

/-- `Final` with what the consumer starts from. -/
def final (fuel : Nat) (hashes : List Hash256) (consumed : σ) : Option (Hash256 × σ) :=
  if hashes.isEmpty then do
    let consumed ← hashConsumer consumed [Hash256.zero]
    some (Hash256.zero, consumed)
  else do
    let consumed ← hashConsumer consumed hashes
    let state ← hashLevels sha3 hashConsumer fuel ⟨hashes, hashes.length, consumed⟩
    let hash ← state.hashes[0]?
    some (hash, state.consumed)

end Loops

/-- The consumer of the tree pushes the hashes one by one; its counter has 32 bits too. -/
def pushHashes (hashes : List Hash256) : Nat → UInt32 → List Hash256 → Option (List Hash256)
  | 0, _, _ => none
  | fuel + 1, i, tree =>
    if i.toNat < hashes.length then do
      let hash ← hashes[i.toNat]?
      pushHashes hashes fuel (i + 1) (tree ++ [hash])
    else
      some tree

/-- `final` into a hash: the consumer does nothing. -/
def finalHash (fuel : Nat) (hashes : List Hash256) : Option Hash256 :=
  (final sha3 (fun consumed _ => some consumed) fuel hashes ()).map Prod.fst

def finalTree (fuel : Nat) (hashes : List Hash256) : Option (List Hash256) :=
  (final sha3 (fun tree hashes => pushHashes hashes fuel 0 tree) fuel hashes []).map Prod.snd

/-- The loop of `TreeSize`. -/
def sumLevels (i size : Nat) : Nat := if 1 < i then sumLevels ((i + 1) / 2) (size + i) else size
termination_by i

def treeSize (leafCount : Nat) : Nat :=
  let adjustedLeafCount :=
    if leafCount = 1 then 1 else if leafCount % 2 = 0 then leafCount else leafCount + 1
  let size := sumLevels adjustedLeafCount 0
  if 2 ≤ size then size + 1 else 1

section Level
variable {sha3} {σ : Type} {hashConsumer : σ → List Hash256 → Option σ} {push : σ → Hash256 → σ}

theorem toNat_add_two {i : UInt32} (h : i.toNat + 2 < 2 ^ 32) : (i + 2).toNat = i.toNat + 2 := by
  rw [UInt32.toNat_add]
  exact Nat.mod_eq_of_lt h

theorem toNat_half (i : UInt32) : (i / 2).toNat = i.toNat / 2 := UInt32.toNat_div i 2

theorem take_set_half {hashes : List Hash256} {n : Nat} (h : n < hashes.length) (hash : Hash256) :
    (hashes.set n hash).take (n + 1) = hashes.take n ++ [hash] := by
  rw [List.take_add_one, List.getElem?_set_self h, List.take_set_of_le (Nat.le_refl n)]
  rfl

theorem hashLevel_eq {rest : List Hash256} {i : UInt32} {state : Final σ} {junk : List Hash256} {fuel : Nat}
    (hpush : ∀ consumed hash, hashConsumer consumed [hash] = some (push consumed hash)) (heven : i.toNat % 2 = 0)
    (hrest : state.hashes.drop i.toNat = rest ++ junk) (hnum : state.numRemainingHashes = i.toNat + rest.length)
    (hlt : state.numRemainingHashes < 2 ^ 32 - 1) (hfuel : (rest.length + 1) / 2 < fuel) :
    ∃ state', hashLevel sha3 hashConsumer fuel i state = some state' ∧
      state'.numRemainingHashes = state.numRemainingHashes + rest.length % 2 ∧
      state'.hashes.take (state'.numRemainingHashes / 2) =
        state.hashes.take (i.toNat / 2) ++ Merkle.pairUp (nodeHash sha3) rest ∧
      state'.consumed = (Merkle.pairUp (nodeHash sha3) rest).foldl push state.consumed := by
  obtain ⟨fuel, rfl⟩ : ∃ n, fuel = n + 1 := ⟨fuel - 1, by omega⟩
  induction rest using Merkle.pairUp.induct generalizing i state fuel with
  | case1 =>
    rw [List.length_nil, Nat.add_zero] at hnum
    refine ⟨state, by rw [hashLevel, if_neg (by omega)], rfl, ?_, rfl⟩
    rw [hnum, Merkle.pairUp, List.append_nil]
  | case2 a =>
    rw [List.length_singleton] at hnum hfuel
    obtain ⟨fuel, rfl⟩ : ∃ n, fuel = n + 1 := ⟨fuel - 1, by omega⟩
    have hone : (i + 1).toNat = i.toNat + 1 := by
      rw [UInt32.toNat_add]
      exact Nat.mod_eq_of_lt (by rw [UInt32.toNat_one]; omega)
    have hlast : state.hashes[i.toNat]? = some a := by
      rw [← Nat.add_zero i.toNat, ← List.getElem?_drop, hrest]
      rfl
    have hbound : i.toNat / 2 < state.hashes.length := by
      have := (List.getElem?_eq_some_iff.1 hlast).1
      omega
    refine ⟨⟨state.hashes.set (i / 2).toNat (nodeHash sha3 a a), state.numRemainingHashes + 1,
      push state.consumed (nodeHash sha3 a a)⟩, ?_, rfl, ?_, rfl⟩
    · rw [hashLevel, if_pos (by omega), if_neg (by omega), hlast]
      simp only [Option.bind_eq_bind, Option.bind_some, hpush]
      rw [hashLevel, if_neg]
      rw [toNat_add_two (by omega)]
      exact Nat.not_lt.2 (by rw [hnum])
    · have hhalf : (state.numRemainingHashes + 1) / 2 = i.toNat / 2 + 1 := by omega
      rw [toNat_half, hhalf, take_set_half hbound, Merkle.pairUp]
  | case3 a b rest ih =>
    rw [List.length_cons, List.length_cons] at hnum hfuel
    obtain ⟨fuel, rfl⟩ : ∃ n, fuel = n + 1 := ⟨fuel - 1, by omega⟩
    have hone : (i + 1).toNat = i.toNat + 1 := by
      rw [UInt32.toNat_add]
      exact Nat.mod_eq_of_lt (by rw [UInt32.toNat_one]; omega)
    have htwo : (i + 2).toNat = i.toNat + 2 := toNat_add_two (by omega)
    have hleft : state.hashes[i.toNat]? = some a := by
      rw [← Nat.add_zero i.toNat, ← List.getElem?_drop, hrest]
      rfl
    have hright : state.hashes[i.toNat + 1]? = some b := by
      rw [← List.getElem?_drop, hrest]
      rfl
    have hbound : i.toNat / 2 < state.hashes.length := by
      have := (List.getElem?_eq_some_iff.1 hleft).1
      omega
    have hdrop : (state.hashes.set (i / 2).toNat (nodeHash sha3 a b)).drop (i + 2).toNat = rest ++ junk := by
      rw [List.drop_set_of_lt (by rw [toNat_half, htwo]; omega), htwo, ← List.drop_drop, hrest]
      rfl
    obtain ⟨state', hok, hnum', htake, hconsumed⟩ := @ih (i + 2)
      { state with
        hashes := state.hashes.set (i / 2).toNat (nodeHash sha3 a b)
        consumed := push state.consumed (nodeHash sha3 a b) }
      (by rw [htwo]; omega) hdrop (by rw [htwo]; simp only [hnum]; omega) hlt fuel (by omega)
    refine ⟨state', ?_, ?_, ?_, hconsumed⟩
    · rw [hashLevel, if_pos (by omega), if_pos (by omega), hleft, hright]
      simp only [Option.bind_eq_bind, Option.bind_some, hpush]
      exact hok
    · rw [hnum', List.length_cons, List.length_cons]
      exact congrArg (state.numRemainingHashes + ·) (Nat.add_mod_right rest.length 2).symm
    · have hhalf : (i.toNat + 2) / 2 = i.toNat / 2 + 1 := by omega
      rw [htake, htwo, hhalf, toNat_half, take_set_half hbound, Merkle.pairUp, List.append_assoc]
      rfl

theorem hashLevel_eq_none {fuel : Nat} {i : UInt32} {state : Final σ} (heven : i.toNat % 2 = 0)
    (hnum : 2 ^ 32 - 1 ≤ state.numRemainingHashes) : hashLevel sha3 hashConsumer fuel i state = none := by
  induction fuel generalizing i state with
  | zero => rfl
  | succ fuel ih =>
    have hlt := i.toNat_lt
    have htwo : (i + 2).toNat % 2 = 0 := by
      have hsum : (i + 2).toNat = (i.toNat + 2) % 2 ^ 32 := UInt32.toNat_add i 2
      omega
    rw [hashLevel, if_pos (by omega)]
    split
    · simp only [Option.bind_eq_bind, Option.bind_eq_none_iff]
      intro left _ right _ consumed _
      exact ih htwo hnum
    · simp only [Option.bind_eq_bind, Option.bind_eq_none_iff]
      intro last _ consumed _
      exact ih htwo (Nat.le_succ_of_le hnum)

end Level

section Levels
variable {sha3} {σ : Type} {hashConsumer : σ → List Hash256 → Option σ} {push : σ → Hash256 → σ}

theorem hashLevels_eq {level upper : List Hash256} {state : Final σ} {fuel : Nat}
    (hpush : ∀ consumed hash, hashConsumer consumed [hash] = some (push consumed hash)) (hne : level ≠ [])
    (htake : state.hashes.take state.numRemainingHashes = level) (hnum : state.numRemainingHashes = level.length)
    (hupper : merkleTree sha3 level = level ++ upper) (hlt : level.length < 2 ^ 32 - 1) (hfuel : level.length < fuel) :
    ∃ state', hashLevels sha3 hashConsumer fuel state = some state' ∧ state'.hashes[0]? = some (merkleRoot sha3 level) ∧
      state'.consumed = upper.foldl push state.consumed := by
  induction fuel generalizing level upper state with
  | zero => exact absurd hfuel (Nat.not_lt_zero _)
  | succ fuel ih =>
    have hpos := List.length_pos_iff.2 hne
    rw [hashLevels]
    by_cases htwo : 1 < state.numRemainingHashes
    · have htwo' : 2 ≤ level.length := by omega
      obtain ⟨upper', hupper'⟩ := Merkle.exists_tree_eq_append (nodeHash sha3) Hash256.zero
        (Merkle.pairUp (nodeHash sha3) level)
      rw [merkleTree, Merkle.tree_of_two_le _ _ htwo', hupper'] at hupper
      obtain ⟨consumed, hconsumed, hpadded⟩ : ∃ consumed, consumePadding hashConsumer state = some consumed ∧
          upper.foldl push state.consumed = (Merkle.pairUp (nodeHash sha3) level ++ upper').foldl push consumed := by
        rw [consumePadding, hnum]
        rcases Nat.mod_two_eq_zero_or_one level.length with heven | hodd
        · rw [Merkle.padded_of_even heven] at hupper
          exact ⟨state.consumed, by rw [if_neg (by omega)], by rw [List.append_cancel_left hupper]⟩
        · obtain ⟨last, hlast, hpad⟩ := Merkle.padded_of_odd hodd
          rw [hpad, List.append_assoc] at hupper
          refine ⟨push state.consumed last, ?_, by rw [← List.append_cancel_left hupper]; rfl⟩
          rw [← htake, List.getElem?_take_of_lt (by rw [htake]; omega), htake] at hlast
          rw [if_pos hodd, hlast]
          exact hpush _ _
      obtain ⟨state₁, hok₁, hnum₁, htake₁, hconsumed₁⟩ := @hashLevel_eq sha3 σ hashConsumer push level 0
        { state with consumed } (state.hashes.drop state.numRemainingHashes) fuel hpush rfl
        (by rw [← htake, List.take_append_drop]; rfl) (by rw [← Nat.zero_add level.length] at hnum; exact hnum)
        (by simp only [hnum]; exact hlt) (by omega)
      have hhalf : state₁.numRemainingHashes / 2 = (Merkle.pairUp (nodeHash sha3) level).length := by
        rw [hnum₁, Merkle.length_pairUp, hnum]
        omega
      obtain ⟨state', hok', hroot, hconsumed'⟩ := @ih (Merkle.pairUp (nodeHash sha3) level) upper'
        { state₁ with numRemainingHashes := state₁.numRemainingHashes / 2 }
        (List.ne_nil_of_length_pos (by rw [Merkle.length_pairUp]; omega)) htake₁ hhalf hupper'
        (by rw [Merkle.length_pairUp]; omega) (by rw [Merkle.length_pairUp]; omega)
      refine ⟨state', ?_, ?_, ?_⟩
      · rw [if_pos htwo, hconsumed]
        simp only [Option.bind_eq_bind, Option.bind_some, hok₁]
        exact hok'
      · rw [hroot, merkleRoot, merkleRoot, Merkle.root_of_two_le _ _ htwo']
      · rw [hconsumed', hconsumed₁, hpadded, List.foldl_append]
    · obtain ⟨hash, rfl⟩ := List.length_eq_one_iff.1 (by omega : level.length = 1)
      have hnil : upper = [] := by
        rw [merkleTree, Merkle.tree] at hupper
        exact (List.append_cancel_left (hupper.symm : [hash] ++ upper = [hash] ++ []))
      refine ⟨state, if_neg htwo, ?_, by rw [hnil]; rfl⟩
      have hzero : 0 < state.numRemainingHashes := by omega
      rw [merkleRoot, Merkle.root, ← List.getElem?_take_of_lt hzero, htake]
      rfl

theorem final_eq {hashes upper : List Hash256} {start consumed : σ} {fuel : Nat}
    (hpush : ∀ consumed hash, hashConsumer consumed [hash] = some (push consumed hash)) (hne : hashes ≠ [])
    (hconsumed : hashConsumer start hashes = some consumed) (hupper : merkleTree sha3 hashes = hashes ++ upper)
    (hlt : hashes.length < 2 ^ 32 - 1) (hfuel : hashes.length < fuel) :
    final sha3 hashConsumer fuel hashes start = some (merkleRoot sha3 hashes, upper.foldl push consumed) := by
  obtain ⟨state, hok, hroot, hstate⟩ := @hashLevels_eq sha3 σ hashConsumer push hashes upper
    ⟨hashes, hashes.length, consumed⟩ fuel hpush hne List.take_length rfl hupper hlt hfuel
  rw [final, if_neg (by rwa [List.isEmpty_iff]), hconsumed]
  simp only [Option.bind_eq_bind, Option.bind_some, hok, hroot, hstate]

theorem final_eq_none {hashes : List Hash256} {start : σ} {fuel : Nat} (hle : 2 ^ 32 - 1 ≤ hashes.length) :
    final sha3 hashConsumer fuel hashes start = none := by
  have hne : hashes ≠ [] := List.ne_nil_of_length_pos (by omega)
  rw [final, if_neg (by rwa [List.isEmpty_iff])]
  simp only [Option.bind_eq_bind, Option.bind_eq_none_iff]
  intro consumed _ state hstate
  rcases fuel with - | fuel
  · exact absurd hstate (Option.some_ne_none state).symm
  · rw [hashLevels, if_pos (by simp only; omega)] at hstate
    simp only [Option.bind_eq_bind, Option.bind_eq_some_iff] at hstate
    obtain ⟨consumed', -, state', hnone, -⟩ := hstate
    rw [hashLevel_eq_none rfl hle] at hnone
    exact absurd hnone (Option.some_ne_none state').symm

end Levels

section Tree
variable {sha3}

theorem pushHashes_eq {hashes tree : List Hash256} {fuel : Nat} {i : UInt32} (hlt : hashes.length < 2 ^ 32)
    (hle : i.toNat ≤ hashes.length) (hfuel : hashes.length < i.toNat + fuel) :
    pushHashes hashes fuel i tree = some (tree ++ hashes.drop i.toNat) := by
  induction fuel generalizing i tree with
  | zero => omega
  | succ fuel ih =>
    rw [pushHashes]
    split
    · rename_i hi
      have hone : (i + 1).toNat = i.toNat + 1 := by
        rw [UInt32.toNat_add, UInt32.toNat_one]
        exact Nat.mod_eq_of_lt (by omega)
      rw [List.getElem?_eq_getElem hi]
      simp only [Option.bind_eq_bind, Option.bind_some]
      rw [ih (by omega) (by omega), hone, List.append_assoc, List.singleton_append, ← List.drop_eq_getElem_cons hi]
    · rename_i hi
      rw [List.drop_of_length_le (Nat.not_lt.1 hi), List.append_nil]

theorem finalHash_eq {hashes : List Hash256} {fuel : Nat} (hlt : hashes.length < 2 ^ 32 - 1)
    (hfuel : hashes.length < fuel) : finalHash sha3 fuel hashes = some (merkleRoot sha3 hashes) := by
  by_cases hne : hashes = []
  · subst hne
    rw [finalHash, final, if_pos List.isEmpty_nil, merkleRoot, Merkle.root]
    rfl
  · obtain ⟨upper, hupper⟩ := Merkle.exists_tree_eq_append (nodeHash sha3) Hash256.zero hashes
    rw [finalHash, @final_eq sha3 Unit _ (fun consumed _ => consumed) hashes upper () () fuel
      (fun _ _ => rfl) hne rfl hupper hlt hfuel]
    rfl

theorem finalTree_eq {hashes : List Hash256} {fuel : Nat} (hlt : hashes.length < 2 ^ 32 - 1)
    (hfuel : hashes.length + 1 < fuel) : finalTree sha3 fuel hashes = some (merkleTree sha3 hashes) := by
  have hpush : ∀ tree hash, pushHashes [hash] fuel 0 tree = some (tree ++ [hash]) := by
    intro tree hash
    exact pushHashes_eq (by rw [List.length_singleton]; decide) (Nat.zero_le _) (by
      rw [List.length_singleton, UInt32.toNat_zero]
      omega)
  by_cases hne : hashes = []
  · subst hne
    rw [finalTree, final, if_pos List.isEmpty_nil, hpush, merkleTree, Merkle.tree]
    rfl
  · obtain ⟨upper, hupper⟩ := Merkle.exists_tree_eq_append (nodeHash sha3) Hash256.zero hashes
    have hall : pushHashes hashes fuel 0 [] = some hashes := by
      rw [pushHashes_eq (by omega) (Nat.zero_le _) (by rw [UInt32.toNat_zero]; omega)]
      rfl
    rw [finalTree, @final_eq sha3 _ _ (fun tree hash => tree ++ [hash]) hashes upper
      [] hashes fuel hpush hne hall hupper
      hlt (by omega), merkleTree, hupper]
    have hfold : ∀ (upper tree : List Hash256), upper.foldl (fun tree hash => tree ++ [hash]) tree = tree ++ upper := by
      intro upper
      induction upper with
      | nil => exact fun tree => (List.append_nil tree).symm
      | cons hash upper ih => exact fun tree => by rw [List.foldl_cons, ih, List.append_assoc]; rfl
    rw [Option.map_some, hfold]

theorem finalTree_eq_none {hashes : List Hash256} (hle : 2 ^ 32 - 1 ≤ hashes.length) (fuel : Nat) :
    finalTree sha3 fuel hashes = none := by
  rw [finalTree, final_eq_none hle]
  rfl

end Tree

theorem sumLevels_eq (i size : Nat) : sumLevels i size = size + Merkle.levelSum i := by
  induction i using Nat.strongRecOn generalizing size with
  | ind i ih =>
    rw [sumLevels, Merkle.levelSum]
    split
    · rw [ih _ (by omega), Nat.add_assoc]
    · rfl

theorem treeSize_eq_iff (count : Nat) :
    treeSize count = Merkle.treeLength count ↔ ∃ k, count = 2 ^ k ∨ count + 1 = 2 ^ k := by
  by_cases htwo : 2 ≤ count
  · have hadjusted : treeSize count = count + count % 2 + Merkle.levelSum ((count + 1) / 2) + 1 := by
      have hlevel : ∀ i, 2 ≤ i → Merkle.levelSum i = i + Merkle.levelSum ((i + 1) / 2) := by
        intro i hi
        rw [Merkle.levelSum, if_pos (by omega)]
      have hone : count ≠ 1 := by omega
      rcases Nat.mod_two_eq_zero_or_one count with heven | hodd
      · simp only [treeSize, if_neg hone, if_pos heven, sumLevels_eq, hlevel _ htwo]
        rw [if_pos (by omega)]
        omega
      · have hhalf : (count + 1 + 1) / 2 = (count + 1) / 2 := by omega
        have heven : ¬count % 2 = 0 := by omega
        simp only [treeSize, if_neg hone, if_neg heven, sumLevels_eq, hlevel (count + 1) (by omega), hhalf]
        rw [if_pos (by omega)]
        omega
    have hpow := Merkle.levelSum_add_one_eq_iff (by omega : 0 < (count + 1) / 2)
    rw [hadjusted, Merkle.treeLength_of_two_le htwo]
    constructor
    · intro heq
      obtain ⟨k, hk⟩ := hpow.1 (by omega)
      refine ⟨k + 1, ?_⟩
      rw [Nat.pow_succ]
      omega
    · rintro ⟨k, hk⟩
      obtain ⟨k, rfl⟩ : ∃ n, k = n + 1 := by
        rcases k with - | k
        · rw [Nat.pow_zero] at hk
          omega
        · exact ⟨k, rfl⟩
      rw [Nat.pow_succ] at hk
      have := hpow.2 ⟨k, by omega⟩
      omega
  · rcases (by omega : count = 0 ∨ count = 1) with rfl | rfl
    · rw [treeSize, Merkle.treeLength]
      exact ⟨fun _ => ⟨0, Or.inr rfl⟩, fun _ => by simp [sumLevels]⟩
    · rw [treeSize, Merkle.treeLength]
      exact ⟨fun _ => ⟨0, Or.inl rfl⟩, fun _ => by simp [sumLevels]⟩

end MerkleHashBuilder

end Catapult.Crypto
