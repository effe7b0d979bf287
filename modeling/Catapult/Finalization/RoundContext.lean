import Catapult.Finalization.HashTree
import Catapult.Lib.SortedMap
import Catapult.Lib.WeightSum
import Mathlib.Data.List.AList

/-!
# Vote counting in a finalization round (`RoundContext`)

A prevote adds its branch to the hash tree and its weight to every key of the branch; a precommit
adds its weight to all ancestors of its key. A precommit for a key that no prevote has named yet is
parked in `pendingPrecommitWeights` and counted by the first prevote whose branch contains the key.
Weights are 64-bit and wrap around.
-/

namespace Catapult.Finalization

/-- `RoundContext::Weights`. -/
structure Weights where
  prevote : UInt64 := 0
  precommit : UInt64 := 0
deriving DecidableEq, Repr

structure RoundContext where
  totalWeight : UInt64
  threshold : UInt64
  cumulativePrecommitWeight : UInt64 := 0
  tree : FinalizationHashTree := {}
  candidates : SortedMap HeightHashPair Weights := ∅
  pendingPrecommitWeights : AList (fun _ : HeightHashPair => UInt64) := ∅

namespace RoundContext

def tryFindLastMatch (ctx : RoundContext) (predicate : HeightHashPair → Weights → Bool) : Option HeightHashPair :=
  (ctx.candidates.findLast? predicate).map Prod.fst

/-- The candidate with the largest height that has at least threshold prevotes, if any. -/
def tryFindBestPrevote (ctx : RoundContext) : Option HeightHashPair :=
  ctx.tryFindLastMatch fun _ weights => decide (ctx.threshold ≤ weights.prevote)

/-- The candidate with the largest height that has at least threshold prevotes and precommits, if any. -/
def tryFindBestPrecommit (ctx : RoundContext) : Option HeightHashPair :=
  ctx.tryFindLastMatch fun _ weights =>
    decide (ctx.threshold ≤ weights.prevote) && decide (ctx.threshold ≤ weights.precommit)

def isDescendant (ctx : RoundContext) (parentKey childKey : HeightHashPair) : Bool :=
  ctx.tree.isDescendant parentKey childKey

def canReachPrecommitThreshold (ctx : RoundContext) (weights : Weights) : Bool :=
  decide (ctx.threshold ≤ weights.precommit + (ctx.totalWeight - ctx.cumulativePrecommitWeight))

/-- The private overload of `tryFindEstimate` that takes the best prevote. -/
def tryFindEstimateFor (ctx : RoundContext) (bestPrevote : HeightHashPair) : Option HeightHashPair :=
  ctx.tryFindLastMatch fun key weights =>
    ctx.tree.isDescendant key bestPrevote && ctx.canReachPrecommitThreshold weights

def tryFindEstimate (ctx : RoundContext) : Option HeightHashPair :=
  ctx.tryFindBestPrevote.bind ctx.tryFindEstimateFor

def isCompletable (ctx : RoundContext) : Bool :=
  match ctx.tryFindBestPrevote with
  | none => false
  | some bestPrevote =>
    -- an estimate below the best prevote is always completable
    if (ctx.tryFindEstimateFor bestPrevote).any (bestPrevote != ·) then true
    else if ctx.canReachPrecommitThreshold {} then false
    else ctx.candidates.entries.reverse.all fun e =>
      bestPrevote == e.1 || !(ctx.tree.isDescendant bestPrevote e.1 && ctx.canReachPrecommitThreshold e.2)

def weights (ctx : RoundContext) (key : HeightHashPair) : Weights :=
  (ctx.candidates.find? key).getD {}

/-- Adds a precommit of weight `weight` to all the (existing) candidates in `ancestorKeys`. -/
def addPrecommit (candidates : SortedMap HeightHashPair Weights) (ancestorKeys : List HeightHashPair)
    (weight : UInt64) : SortedMap HeightHashPair Weights :=
  ancestorKeys.foldl (fun c key => c.modify key fun w => { w with precommit := w.precommit + weight }) candidates

/-- The loop body of `acceptPrevote` for one key of the branch. -/
def acceptPrevoteKey (weight : UInt64) (ctx : RoundContext) (key : HeightHashPair) : RoundContext :=
  let candidates := (ctx.candidates.emplace key {}).modify key fun w => { w with prevote := w.prevote + weight }
  match ctx.pendingPrecommitWeights.lookup key with
  | none => { ctx with candidates := candidates }
  | some pendingWeight =>
    { ctx with
      candidates := addPrecommit candidates (ctx.tree.findAncestors key) pendingWeight
      cumulativePrecommitWeight := ctx.cumulativePrecommitWeight + pendingWeight
      pendingPrecommitWeights := ctx.pendingPrecommitWeights.erase key }

def acceptPrevote (ctx : RoundContext) (height : UInt64) (hashes : List Hash256) (weight : UInt64) : RoundContext :=
  (branchKeys height hashes).foldl (acceptPrevoteKey weight) { ctx with tree := ctx.tree.addBranch height hashes }

def acceptPrecommit (ctx : RoundContext) (height : UInt64) (hash : Hash256) (weight : UInt64) : RoundContext :=
  let key : HeightHashPair := ⟨height, hash⟩
  let ancestorKeys := ctx.tree.findAncestors key
  if ancestorKeys.isEmpty then
    let pendingWeight := (ctx.pendingPrecommitWeights.lookup key).getD 0
    { ctx with pendingPrecommitWeights := ctx.pendingPrecommitWeights.insert key (pendingWeight + weight) }
  else
    { ctx with
      candidates := addPrecommit ctx.candidates ancestorKeys weight
      cumulativePrecommitWeight := ctx.cumulativePrecommitWeight + weight }

end RoundContext

/-- A call of `acceptPrevote` or `acceptPrecommit`. The hashes of a prevote are counted in 32 bits. -/
inductive Vote where
  | prevote (height : UInt64) (hashes : List Hash256) (count_lt : hashes.length < 2 ^ 32) (weight : UInt64)
  | precommit (height : UInt64) (hash : Hash256) (weight : UInt64)
deriving DecidableEq

namespace Vote

def weight : Vote → UInt64
  | prevote _ _ _ weight => weight
  | precommit _ _ weight => weight

def prevoteKeys : Vote → List HeightHashPair
  | prevote height hashes _ _ => branchKeys height hashes
  | precommit .. => []

def precommitKey : Vote → Option HeightHashPair
  | prevote .. => none
  | precommit height hash _ => some ⟨height, hash⟩

end Vote

namespace RoundContext

def accept (ctx : RoundContext) : Vote → RoundContext
  | .prevote height hashes _ weight => ctx.acceptPrevote height hashes weight
  | .precommit height hash weight => ctx.acceptPrecommit height hash weight

/-- A new round context of total weight `weight` after accepting `votes` one after the other. -/
def run (weight threshold : UInt64) (votes : List Vote) : RoundContext :=
  votes.foldl accept { totalWeight := weight, threshold := threshold }

end RoundContext
/-!
## What a round context counts

`Counts tree active prevote votes ctx` relates a round context to the votes it has accepted: `active`
are the keys that are candidates already (inside the loop of `acceptPrevote` these are the keys known
before the call and the branch keys visited so far), every candidate carries its prevote weight and
the weight of the precommits for its active descendants, and the precommits for the other keys are
parked. One visited key moves the parked precommits of that key to its ancestors (`Counts.visit`).

`counts_run` is the outcome for a whole run: the candidates are the keys of the tree, and all weights
are sums over the accepted votes, in which the order of the votes shows only through the tree.
-/

theorem toNat_height_of_mem_branchKeys {height : UInt64} {hashes : List Hash256} {key : HeightHashPair}
    (h : key ∈ branchKeys height hashes) :
    ∃ i < hashes.length, key.height = height + UInt64.ofNat i := by
  induction hashes generalizing height with
  | nil => simp [branchKeys] at h
  | cons x hashes ih =>
    rcases List.mem_cons.1 h with rfl | h
    · exact ⟨0, by simp, by simp⟩
    · obtain ⟨i, hi, hk⟩ := ih h
      refine ⟨i + 1, by simpa using hi, ?_⟩
      rw [hk, UInt64.ofNat_add, UInt64.add_assoc, UInt64.add_comm 1]
      rfl

theorem branchKeys_nodup (height : UInt64) {hashes : List Hash256} (h : hashes.length < 2 ^ 32) :
    (branchKeys height hashes).Nodup := by
  induction hashes generalizing height with
  | nil => exact List.nodup_nil
  | cons x hashes ih =>
    simp only [List.length_cons] at h
    refine List.nodup_cons.2 ⟨fun hmem => ?_, ih _ (by omega)⟩
    obtain ⟨i, hi, hk⟩ := toNat_height_of_mem_branchKeys hmem
    have h1 := congrArg UInt64.toNat hk
    simp only [UInt64.toNat_add, UInt64.toNat_ofNat'] at h1
    have := height.toNat_lt
    simp at h1
    omega

namespace Vote

def isPrecommitFor (active : HeightHashPair → Bool) (v : Vote) : Bool := v.precommitKey.any active

/-- The weight of the prevotes that name `key`. -/
def prevoteWeight (votes : List Vote) (key : HeightHashPair) : UInt64 :=
  weightOf (fun v => decide (key ∈ v.prevoteKeys)) weight votes

/-- The weight of the precommits for keys that satisfy `p`. -/
def precommitWeight (votes : List Vote) (p : HeightHashPair → Bool) : UInt64 :=
  weightOf (isPrecommitFor p) weight votes

theorem precommitWeight_or {votes : List Vote} {p q : HeightHashPair → Bool}
    (h : ∀ key, p key → q key → False) :
    precommitWeight votes (fun key => p key || q key) = precommitWeight votes p + precommitWeight votes q := by
  have : isPrecommitFor (fun key => p key || q key) = fun v => isPrecommitFor p v || isPrecommitFor q v := by
    funext v; cases v <;> simp [isPrecommitFor, precommitKey]
  rw [precommitWeight, this, weightOf_or]
  · rfl
  · intro v _ hp hq
    cases v with
    | prevote => simp [isPrecommitFor, precommitKey] at hp
    | precommit height hash w =>
      simp only [isPrecommitFor, precommitKey, Option.any_some] at hp hq
      exact h _ hp hq

theorem precommitWeight_eq_zero {votes : List Vote} {p : HeightHashPair → Bool}
    (h : ∀ v ∈ votes, ∀ key ∈ v.precommitKey, p key = false) : precommitWeight votes p = 0 := by
  refine weightOf_eq_zero fun v hv => ?_
  cases hk : v.precommitKey with
  | none => simp [isPrecommitFor, hk]
  | some key => simpa [isPrecommitFor, hk] using h v hv key hk

theorem precommitWeight_concat_prevote (votes : List Vote) (p : HeightHashPair → Bool) {v : Vote}
    (h : v.precommitKey = none) : precommitWeight (votes ++ [v]) p = precommitWeight votes p := by
  simp [precommitWeight, weightOf_concat, isPrecommitFor, h]

end Vote

namespace RoundContext
open Vote
variable {tree : FinalizationHashTree} {active : HeightHashPair → Bool} {prevote : HeightHashPair → UInt64}
  {votes : List Vote} {ctx : RoundContext}

theorem find?_addPrecommit {keys : List HeightHashPair} (hnd : keys.Nodup)
    (candidates : SortedMap HeightHashPair Weights) (w : UInt64) (key : HeightHashPair) :
    (addPrecommit candidates keys w).find? key =
      if key ∈ keys then (candidates.find? key).map fun x => { x with precommit := x.precommit + w }
      else candidates.find? key :=
  SortedMap.find?_foldl_modify hnd ..

/-- The candidates are the `active` keys, with their weights; other precommits are parked. -/
structure Counts (tree : FinalizationHashTree) (active : HeightHashPair → Bool) (prevote : HeightHashPair → UInt64)
    (votes : List Vote) (ctx : RoundContext) : Prop where
  tree_eq : ctx.tree = tree
  closed : tree.Closed
  /-- Ancestors of active keys are active. -/
  active_ancestor : ∀ a key, active key → tree.isDescendant a key → active a
  prevote_inactive : ∀ key, active key = false → prevote key = 0
  find_candidate : ∀ key, ctx.candidates.find? key =
    if active key then some ⟨prevote key, precommitWeight votes fun k => active k && tree.isDescendant key k⟩ else none
  cumulative : ctx.cumulativePrecommitWeight = precommitWeight votes active
  lookup_pending : ∀ key, ctx.pendingPrecommitWeights.lookup key =
    if active key = false ∧ ∃ v ∈ votes, v.precommitKey = some key then some (precommitWeight votes (· == key))
    else none

namespace Counts

theorem precommit_inactive (h : Counts tree active prevote votes ctx) {key : HeightHashPair} (hk : active key = false) :
    precommitWeight votes (fun k => active k && tree.isDescendant key k) = 0 := by
  refine precommitWeight_eq_zero fun v _ k _ => ?_
  by_contra hne
  simp only [Bool.not_eq_false, Bool.and_eq_true] at hne
  have := h.active_ancestor key k hne.1 hne.2
  simp [hk] at this

theorem parked (h : Counts tree active prevote votes ctx) {key : HeightHashPair} (hk : active key = false) :
    (ctx.pendingPrecommitWeights.lookup key).getD 0 = precommitWeight votes (· == key) := by
  rw [h.lookup_pending]
  split
  · rfl
  · rename_i hno
    refine (precommitWeight_eq_zero fun v hv k hk' => ?_).symm
    by_contra hne
    simp only [Bool.not_eq_false, beq_iff_eq] at hne
    exact hno ⟨hk, v, hv, hne ▸ hk'⟩

theorem precommit_activate {key : HeightHashPair} (hk : active key = false) (a : HeightHashPair) :
    precommitWeight votes (fun k => (active k || k == key) && tree.isDescendant a k) =
      precommitWeight votes (fun k => active k && tree.isDescendant a k) +
        if tree.isDescendant a key then precommitWeight votes (· == key) else 0 := by
  have hsplit : (fun k => (active k || k == key) && tree.isDescendant a k) =
      fun k => (active k && tree.isDescendant a k) || (k == key && tree.isDescendant a key) := by
    funext k
    by_cases hkk : k = key
    · subst hkk; simp [hk]
    · rw [beq_false_of_ne hkk]; simp
  rw [hsplit, precommitWeight_or]
  · congr 1
    by_cases hd : tree.isDescendant a key
    · simp [hd]
    · simp [hd, precommitWeight_eq_zero fun _ _ _ _ => rfl]
  · intro k h1 h2
    simp only [Bool.and_eq_true, beq_iff_eq] at h1 h2
    obtain ⟨rfl, -⟩ := h2
    simp [hk] at h1

theorem cumulative_activate (votes : List Vote) {key : HeightHashPair} (hk : active key = false) :
    precommitWeight votes (fun k => active k || k == key) =
      precommitWeight votes active + precommitWeight votes (· == key) := by
  refine precommitWeight_or fun k h1 h2 => ?_
  rw [beq_iff_eq.1 h2, hk] at h1
  cases h1

theorem find?_candidates_prevote (h : Counts tree active prevote votes ctx) {key : HeightHashPair}
    (hk : active key = false) (w : UInt64) (k : HeightHashPair) :
    (((ctx.candidates.emplace key {}).modify key fun x => { x with prevote := x.prevote + w }).find? k) =
      if active k || k == key then some ⟨prevote k + if k = key then w else 0,
        precommitWeight votes fun k' => active k' && tree.isDescendant k k'⟩ else none := by
  simp only [SortedMap.find?_modify, SortedMap.find?_emplace, h.find_candidate]
  by_cases hkk : k = key
  · subst hkk
    simp [hk, h.precommit_inactive hk, h.prevote_inactive k hk]
  · simp [hkk]

theorem lookup_pending_erase (h : Counts tree active prevote votes ctx) (key k : HeightHashPair) :
    ((ctx.pendingPrecommitWeights.erase key).lookup k) =
      if (active k || k == key) = false ∧ ∃ v ∈ votes, v.precommitKey = some k
      then some (precommitWeight votes (· == k)) else none := by
  by_cases hkk : k = key
  · subst hkk
    simp
  · rw [AList.lookup_erase_ne hkk, h.lookup_pending]
    simp [hkk]

theorem visit_of_active (h : Counts tree active prevote votes ctx) {key : HeightHashPair} (w : UInt64)
    (hk : active key = true) :
    Counts tree active (fun k => prevote k + if k = key then w else 0) votes (acceptPrevoteKey w ctx key) := by
  have hnone : ctx.pendingPrecommitWeights.lookup key = none := by
    rw [h.lookup_pending]
    simp [hk]
  simp only [acceptPrevoteKey, hnone]
  refine ⟨h.tree_eq, h.closed, h.active_ancestor, fun k hk' => ?_, fun k => ?_, h.cumulative, h.lookup_pending⟩
  · have hne : k ≠ key := by
      rintro rfl
      rw [hk] at hk'
      cases hk'
    simp [hne, h.prevote_inactive k hk']
  · simp only [SortedMap.find?_modify, SortedMap.find?_emplace, h.find_candidate]
    by_cases hkk : k = key
    · simp [hkk, hk]
    · simp [hkk]

/-- One iteration of the loop of `acceptPrevote`: `key` becomes a candidate (its proper ancestors are
candidates already), gains the weight, and its parked precommits go to its ancestors. -/
theorem visit (h : Counts tree active prevote votes ctx) {key : HeightHashPair} (w : UInt64)
    (hanc : ∀ a, tree.isDescendant a key → a = key ∨ active a) :
    Counts tree (fun k => active k || k == key) (fun k => prevote k + if k = key then w else 0) votes
      (acceptPrevoteKey w ctx key) := by
  cases hk : active key with
  | true =>
    have hact : (fun k => active k || k == key) = active := by
      funext k
      by_cases hkk : k = key
      · simp [hkk, hk]
      · simp [hkk]
    rw [hact]
    exact h.visit_of_active w hk
  | false =>
    have hactive : ∀ a k, (active k || k == key) → tree.isDescendant a k → (active a || a == key) := by
      intro a k hk ha
      simp only [Bool.or_eq_true, beq_iff_eq] at hk ⊢
      rcases hk with hk | rfl
      · exact .inl (h.active_ancestor a k hk ha)
      · exact (hanc a ha).symm
    have hprev : ∀ k, (active k || k == key) = false → (prevote k + if k = key then w else 0) = 0 := by
      intro k hk
      simp only [Bool.or_eq_false_iff, beq_eq_false_iff_ne] at hk
      simp [hk.2, h.prevote_inactive k hk.1]
    have hpark := h.parked hk
    have hcum := cumulative_activate votes hk
    cases hl : ctx.pendingPrecommitWeights.lookup key with
    | none =>
      rw [hl, Option.getD_none] at hpark
      simp only [acceptPrevoteKey, hl]
      refine ⟨h.tree_eq, h.closed, hactive, hprev, fun k => ?_, ?_, fun k => ?_⟩
      · rw [h.find?_candidates_prevote hk]
        congr 3
        rw [precommit_activate hk, ← hpark]
        simp
      · simp [hcum, ← hpark, h.cumulative]
      · rw [← h.lookup_pending_erase key k]
        by_cases hkk : k = key
        · subst hkk
          simp [hl]
        · exact (AList.lookup_erase_ne hkk).symm
    | some pendingWeight =>
      rw [hl, Option.getD_some] at hpark
      simp only [acceptPrevoteKey, hl]
      refine ⟨h.tree_eq, h.closed, hactive, hprev, fun k => ?_, by rw [hcum, ← hpark, h.cumulative],
        h.lookup_pending_erase key⟩
      rw [find?_addPrecommit (h.tree_eq ▸ h.closed.findAncestors_nodup key), h.find?_candidates_prevote hk, h.tree_eq,
        precommit_activate hk, ← hpark]
      simp only [FinalizationHashTree.mem_findAncestors_iff]
      by_cases hd : tree.isDescendant k key
      · by_cases hak : (active k || k == key) <;> simp [hd, hak]
      · simp [hd]

theorem acceptPrecommit (h : Counts tree tree.contains prevote votes ctx) (height : UInt64) (hash : Hash256)
    (w : UInt64) :
    Counts tree tree.contains prevote (votes ++ [Vote.precommit height hash w])
      (ctx.acceptPrecommit height hash w) := by
  have hsum : ∀ p, precommitWeight (votes ++ [Vote.precommit height hash w]) p =
      precommitWeight votes p + if p ⟨height, hash⟩ then w else 0 := fun p => by
    simp only [precommitWeight, weightOf_concat, isPrecommitFor, precommitKey, Option.any_some]; rfl
  have hex : ∀ k, (∃ v ∈ votes ++ [Vote.precommit height hash w], v.precommitKey = some k) ↔
      (∃ v ∈ votes, v.precommitKey = some k) ∨ k = ⟨height, hash⟩ := by
    intro k
    simp only [List.mem_append, List.mem_singleton]
    constructor
    · rintro ⟨v, hv | rfl, hk⟩
      · exact .inl ⟨v, hv, hk⟩
      · exact .inr (by simpa [precommitKey] using hk.symm)
    · rintro (⟨v, hv, hk⟩ | rfl)
      · exact ⟨v, .inl hv, hk⟩
      · exact ⟨_, .inr rfl, rfl⟩
  have htree := h.tree_eq
  unfold RoundContext.acceptPrecommit
  subst htree
  simp only [List.isEmpty_iff, FinalizationHashTree.findAncestors_eq_nil_iff]
  by_cases hk : ctx.tree.contains ⟨height, hash⟩ = false
  · simp only [hk, if_true]
    refine ⟨h.tree_eq, h.closed, h.active_ancestor, h.prevote_inactive, fun k => ?_, ?_, fun k => ?_⟩
    · rw [h.find_candidate]; simp [hsum, hk]
    · simp [hsum, hk, h.cumulative]
    · rw [h.parked hk]
      by_cases hkk : k = ⟨height, hash⟩
      · subst hkk
        rw [AList.lookup_insert, if_pos ⟨hk, (hex _).2 (.inr rfl)⟩, hsum]; simp
      · rw [AList.lookup_insert_ne hkk, h.lookup_pending, hsum]
        simp only [hex, hkk, or_false]
        simp [Ne.symm hkk]
  · have hk' : ctx.tree.contains ⟨height, hash⟩ = true := by simpa using hk
    simp only [hk', Bool.true_eq_false, if_false]
    refine ⟨h.tree_eq, h.closed, h.active_ancestor, h.prevote_inactive, fun k => ?_, ?_, fun k => ?_⟩
    · rw [find?_addPrecommit (h.closed.findAncestors_nodup _), h.find_candidate, hsum]
      simp only [FinalizationHashTree.mem_findAncestors_iff, hk', Bool.true_and]
      by_cases hd : ctx.tree.isDescendant k ⟨height, hash⟩
      · simp [hd, h.closed.contains_ancestor hd]
      · simp [hd]
    · simp [hsum, hk', h.cumulative]
    · rw [h.lookup_pending, hsum]
      by_cases hkk : k = ⟨height, hash⟩
      · simp [hkk, hk']
      · simp only [hex, hkk, or_false]
        simp [Ne.symm hkk]

/-- The loop of `acceptPrevote`, when the ancestors of every key are candidates or visited before it. -/
theorem visitAll {keys : List HeightHashPair} (w : UInt64) (hnd : keys.Nodup)
    (h : Counts tree active prevote votes ctx)
    (hanc : ∀ pre key post, keys = pre ++ key :: post →
      ∀ a, tree.isDescendant a key → a = key ∨ active a ∨ a ∈ pre) :
    Counts tree (fun k => active k || decide (k ∈ keys)) (fun k => prevote k + if k ∈ keys then w else 0) votes
      (keys.foldl (acceptPrevoteKey w) ctx) := by
  induction keys generalizing active prevote ctx with
  | nil => simpa using h
  | cons key keys ih =>
    obtain ⟨hkey, hnd⟩ := List.nodup_cons.1 hnd
    have hv := h.visit w fun a ha => by simpa using hanc [] key keys rfl a ha
    have h' := ih hnd hv fun pre k post heq a ha => by
      rcases hanc (key :: pre) k post (by rw [heq]; rfl) a ha with rfl | hact | hmem
      · exact .inl rfl
      · exact .inr (.inl (by simp [hact]))
      · rcases List.mem_cons.1 hmem with rfl | hmem
        · exact .inr (.inl (by simp))
        · exact .inr (.inr hmem)
    have hact : (fun k => active k || decide (k ∈ key :: keys)) =
        fun k => active k || k == key || decide (k ∈ keys) := by
      funext k
      by_cases hk : k = key
      · simp [hk]
      · rw [beq_false_of_ne hk]; simp [hk]
    have hprev : (fun k => prevote k + if k ∈ key :: keys then w else 0) =
        fun k => (prevote k + if k = key then w else 0) + if k ∈ keys then w else 0 := by
      funext k
      by_cases hk : k = key
      · subst hk; simp [hkey]
      · simp [hk]
    rw [hact, hprev]
    exact h'

theorem addBranch (h : Counts tree tree.contains prevote votes ctx) (height : UInt64) (hashes : List Hash256) :
    Counts (tree.addBranch height hashes) tree.contains prevote votes
      { ctx with tree := ctx.tree.addBranch height hashes } := by
  have hdesc : ∀ a k, tree.contains k → (tree.addBranch height hashes).isDescendant a k = tree.isDescendant a k := by
    intro a k hk
    simp only [FinalizationHashTree.isDescendant, FinalizationHashTree.tryFindNode_addBranch_of_contains hk]
  have hsum : ∀ a, precommitWeight votes (fun k => tree.contains k && (tree.addBranch height hashes).isDescendant a k) =
      precommitWeight votes fun k => tree.contains k && tree.isDescendant a k := by
    intro a
    congr 1; funext k
    cases hk : tree.contains k
    · rfl
    · rw [hdesc a k hk]
  exact ⟨by rw [h.tree_eq], h.closed.addBranch .., fun a k hk ha => h.active_ancestor a k hk (hdesc a k hk ▸ ha),
    h.prevote_inactive, fun k => by rw [hsum, h.find_candidate], h.cumulative, h.lookup_pending⟩

end Counts

/-- The ancestors of a key of a new branch are the key, keys that the tree had before and earlier keys of
the branch. -/
theorem ancestor_addBranch (hclosed : tree.Closed) {height : UInt64} {hashes : List Hash256}
    {pre post : List HeightHashPair} {key a : HeightHashPair} (heq : branchKeys height hashes = pre ++ key :: post)
    (ha : (tree.addBranch height hashes).isDescendant a key) : a = key ∨ tree.contains a ∨ a ∈ pre := by
  -- the node of `key` is found already when the branch ends there, with all its ancestors
  have hclosed' : (tree.addKeys none (pre ++ [key])).Closed := hclosed.addKeys fun p hp => by simp at hp
  have hkey : (tree.addKeys none (pre ++ [key])).contains key = true :=
    (FinalizationHashTree.contains_addKeys ..).2 (.inr (by simp))
  obtain ⟨node, hnode⟩ := Option.isSome_iff_exists.1 hkey
  have hnode' : (tree.addBranch height hashes).tryFindNode key = some node := by
    unfold FinalizationHashTree.addBranch
    rw [heq, show pre ++ key :: post = (pre ++ [key]) ++ post by simp]
    exact FinalizationHashTree.tryFindNode_addKeys_append hnode
  obtain ⟨node', hn', hmem⟩ := FinalizationHashTree.isDescendant_iff.1 ha
  rw [hnode'] at hn'; cases hn'
  have ha' := hclosed'.contains_ancestor (FinalizationHashTree.isDescendant_iff.2 ⟨node, hnode, hmem⟩)
  rcases (FinalizationHashTree.contains_addKeys ..).1 ha' with ha' | ha'
  · exact .inr (.inl ha')
  · rcases List.mem_append.1 ha' with ha' | ha'
    · exact .inr (.inr ha')
    · exact .inl (List.mem_singleton.1 ha')

namespace Counts

theorem acceptPrevote (height : UInt64) {hashes : List Hash256} (hcount : hashes.length < 2 ^ 32) (w : UInt64)
    (h : Counts tree tree.contains prevote votes ctx) :
    Counts (tree.addBranch height hashes) (tree.addBranch height hashes).contains
      (fun k => prevote k + if k ∈ branchKeys height hashes then w else 0) votes
      (ctx.acceptPrevote height hashes w) := by
  have hcontains : (tree.addBranch height hashes).contains =
      fun k => tree.contains k || decide (k ∈ branchKeys height hashes) := by
    funext k
    rw [Bool.eq_iff_iff, FinalizationHashTree.contains_addBranch]; simp
  rw [hcontains]
  exact (h.addBranch height hashes).visitAll w (branchKeys_nodup height hcount)
    fun _ _ _ heq _ ha => ancestor_addBranch h.closed heq ha

end Counts

/-- The hash tree grown by the prevotes among `votes`. -/
def treeOf (votes : List Vote) : FinalizationHashTree :=
  votes.foldl (fun tree v => match v with
    | .prevote height hashes _ _ => tree.addBranch height hashes
    | .precommit .. => tree) {}

@[simp] theorem treeOf_concat_prevote (votes : List Vote) (height : UInt64) (hashes : List Hash256)
    (hcount : hashes.length < 2 ^ 32) (w : UInt64) :
    treeOf (votes ++ [Vote.prevote height hashes hcount w]) = (treeOf votes).addBranch height hashes := by
  simp [treeOf]

@[simp] theorem treeOf_concat_precommit (votes : List Vote) (height : UInt64) (hash : Hash256) (w : UInt64) :
    treeOf (votes ++ [Vote.precommit height hash w]) = treeOf votes := by
  simp [treeOf]

theorem counts_run (weight threshold : UInt64) (votes : List Vote) :
    Counts (treeOf votes) (treeOf votes).contains (prevoteWeight votes) votes (run weight threshold votes) := by
  induction votes using List.reverseRecOn with
  | nil =>
    exact ⟨rfl, FinalizationHashTree.closed_empty, fun _ _ h => by simp [treeOf, FinalizationHashTree.contains] at h,
      fun _ _ => rfl, fun _ => rfl, rfl, fun _ => by simp [run]⟩
  | append_singleton votes v ih =>
    have hrun : run weight threshold (votes ++ [v]) = (run weight threshold votes).accept v := by simp [run]
    rw [hrun]
    cases v with
    | prevote height hashes hcount w =>
      have h' := ih.acceptPrevote height hcount w
      have hprev : prevoteWeight (votes ++ [Vote.prevote height hashes hcount w]) =
          fun k => prevoteWeight votes k + if k ∈ branchKeys height hashes then w else 0 := by
        funext k
        simp only [prevoteWeight, weightOf_concat]
        congr 1
        by_cases hk : k ∈ branchKeys height hashes <;> simp [prevoteKeys, hk, Vote.weight]
      have hpre := precommitWeight_concat_prevote votes (v := .prevote height hashes hcount w)
      rw [treeOf_concat_prevote, hprev]
      refine ⟨h'.tree_eq, h'.closed, h'.active_ancestor, h'.prevote_inactive, fun k => ?_, ?_, fun k => ?_⟩
      · rw [hpre _ rfl]; exact h'.find_candidate k
      · rw [hpre _ rfl]; exact h'.cumulative
      · rw [hpre _ rfl]
        have hex : (∃ u ∈ votes ++ [Vote.prevote height hashes hcount w], u.precommitKey = some k) ↔
            ∃ u ∈ votes, u.precommitKey = some k := by
          constructor
          · rintro ⟨u, hu, hk⟩
            rcases List.mem_append.1 hu with hu | hu
            · exact ⟨u, hu, hk⟩
            · rw [List.mem_singleton.1 hu] at hk; cases hk
          · rintro ⟨u, hu, hk⟩
            exact ⟨u, List.mem_append_left _ hu, hk⟩
        simp only [hex]
        exact h'.lookup_pending k
    | precommit height hash w =>
      have hprev : prevoteWeight (votes ++ [Vote.precommit height hash w]) = prevoteWeight votes := by
        funext k
        simp [prevoteWeight, weightOf_concat, prevoteKeys]
      rw [treeOf_concat_precommit, hprev]
      exact ih.acceptPrecommit height hash w

end RoundContext
end Catapult.Finalization
