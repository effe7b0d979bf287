import Catapult.Finalization.Bookkeeping
import Catapult.Finalization.Agreement

/-!
# The estimate extends the best precommit

The three searches of a round context use different predicates over the same ordered candidates, so each of them may
stop at another branch. On prevotes from one block tree the weights do not grow along a branch, and two keys that both
reach a threshold of more than half the weight share a prevote and lie on one branch.
-/

namespace Catapult.Finalization
open Vote

namespace FinalizationHashTree
variable {tree : FinalizationHashTree} {parent : HeightHashPair → Option HeightHashPair}
  {prev : Option HeightHashPair} {keys : List HeightHashPair} {a b c : HeightHashPair}

theorem Closed.isDescendant_trans (h : tree.Closed) (hab : tree.isDescendant a b = true)
    (hbc : tree.isDescendant b c = true) : tree.isDescendant a c = true := by
  obtain ⟨node, hn, m, hm, rfl⟩ := isDescendant_iff.1 hbc
  obtain ⟨node', hn', n, hna, rfl⟩ := isDescendant_iff.1 hab
  rw [h hn m hm] at hn'; cases hn'
  exact isDescendant_iff.2 ⟨node, hn, n, TreeNode.mem_chain_trans hna hm, rfl⟩

theorem Follows.isDescendant_of_parent (hfollows : tree.Follows parent)
    (hkey : tree.contains b = true) (hparent : parent b = some a) : tree.isDescendant a b = true := by
  obtain ⟨node, hn⟩ := Option.isSome_iff_exists.1 hkey
  have hf := hfollows hn
  have hb := key_of_tryFindNode hn
  cases node with
  | root key =>
    have hnone : parent key = none := hf
    rw [show key = b from hb, hparent] at hnone
    cases hnone
  | child key p =>
    have hp : parent key = some p.key := hf.1
    rw [show key = b from hb, hparent] at hp
    exact isDescendant_iff.2 ⟨_, hn, p, List.mem_cons_of_mem _ p.self_mem_chain, (Option.some.inj hp).symm⟩

theorem Follows.isDescendant_of_steps {q : HeightHashPair} (hfollows : tree.Follows parent) (hclosed : tree.Closed)
    (hsteps : Steps parent (some q) keys) (hkeys : ∀ key ∈ keys, tree.contains key = true)
    (hq : tree.isDescendant a q = true) (hb : b ∈ keys) : tree.isDescendant a b = true := by
  induction keys generalizing q with
  | nil => simp at hb
  | cons k keys ih =>
    have hqk := hfollows.isDescendant_of_parent (hkeys k (List.mem_cons_self ..)) hsteps.1
    have hk := hclosed.isDescendant_trans hq hqk
    rcases List.mem_cons.1 hb with rfl | hb
    · exact hk
    · exact ih hsteps.2 (fun key h => hkeys key (List.mem_cons_of_mem _ h)) hk hb

theorem Follows.comparable_of_steps (hfollows : tree.Follows parent) (hclosed : tree.Closed)
    (hsteps : Steps parent prev keys) (hkeys : ∀ key ∈ keys, tree.contains key = true) (ha : a ∈ keys)
    (hb : b ∈ keys) : tree.isDescendant a b = true ∨ tree.isDescendant b a = true := by
  induction keys generalizing prev with
  | nil => simp at ha
  | cons k keys ih =>
    have hself : tree.isDescendant k k = true := by
      rw [isDescendant_self]
      exact hkeys k (List.mem_cons_self ..)
    have hkeys' : ∀ key ∈ keys, tree.contains key = true := fun key h => hkeys key (List.mem_cons_of_mem _ h)
    rcases List.mem_cons.1 ha with hak | ha'
    · rcases List.mem_cons.1 hb with hbk | hb'
      · rw [hak, hbk]
        exact .inl hself
      · rw [hak]
        exact .inl (hfollows.isDescendant_of_steps hclosed hsteps.2 hkeys' hself hb')
    · rcases List.mem_cons.1 hb with hbk | hb'
      · rw [hbk]
        exact .inr (hfollows.isDescendant_of_steps hclosed hsteps.2 hkeys' hself ha')
      · exact ih hsteps.2 hkeys' ha' hb'

end FinalizationHashTree

namespace RoundContext
variable {votes : List Vote} {weight threshold : UInt64} {a b : HeightHashPair}

theorem noInnerStart_of_startAt {height : UInt64} (h : StartAt height votes) : NoInnerStart votes := by
  intro u hu v hv key hhead htail
  have hkey := h v hv key hhead
  cases u with
  | precommit => simp [prevoteKeys] at htail
  | prevote start hashes hcount w =>
    cases hashes with
    | nil => simp [prevoteKeys, branchKeys] at htail
    | cons hash hashes =>
      have hstart : start = height := h _ hu ⟨start, hash⟩ rfl
      obtain ⟨i, hi, heq⟩ := @toNat_height_of_mem_branchKeys (start + 1) hashes _ htail
      rw [hkey, hstart] at heq
      have hnat := congrArg UInt64.toNat heq
      simp only [List.length_cons] at hcount
      rw [UInt64.toNat_add, UInt64.toNat_add, UInt64.toNat_ofNat', UInt64.toNat_one] at hnat
      have := height.toNat_lt
      omega

/-- The prevotes weigh at most `weight` together, and so do the precommits. -/
structure WithinTotal (weight : UInt64) (votes : List Vote) : Prop where
  prevotes_le : ((votes.filter fun v => v.precommitKey.isNone).map fun v => v.weight.toNat).sum ≤ weight.toNat
  precommits_le : ((votes.filter fun v => v.precommitKey.isSome).map fun v => v.weight.toNat).sum ≤ weight.toNat

namespace WithinTotal

theorem toNat_prevoteWeight (h : WithinTotal weight votes) (key : HeightHashPair) :
    (prevoteWeight votes key).toNat = weightOf (fun v => decide (key ∈ v.prevoteKeys)) (fun v => v.weight.toNat)
      (votes.filter fun v => v.precommitKey.isNone) := by
  have hfilter : prevoteWeight votes key = weightOf (fun v => decide (key ∈ v.prevoteKeys)) Vote.weight
      (votes.filter fun v => v.precommitKey.isNone) := by
    refine (weightOf_filter fun v _ hv => ?_).symm
    cases v with
    | prevote => rfl
    | precommit => simp [prevoteKeys] at hv
  rw [hfilter, toNat_weightOf (h.prevotes_le.trans_lt weight.toNat_lt)]

theorem toNat_precommitWeight (h : WithinTotal weight votes) (p : HeightHashPair → Bool) :
    (precommitWeight votes p).toNat = weightOf (isPrecommitFor p) (fun v => v.weight.toNat)
      (votes.filter fun v => v.precommitKey.isSome) := by
  have hfilter : precommitWeight votes p = weightOf (isPrecommitFor p) Vote.weight
      (votes.filter fun v => v.precommitKey.isSome) := by
    refine (weightOf_filter fun v _ hv => ?_).symm
    cases v with
    | prevote => simp [isPrecommitFor, precommitKey] at hv
    | precommit => rfl
  rw [hfilter, toNat_weightOf (h.precommits_le.trans_lt weight.toNat_lt)]

theorem precommitWeight_le (h : WithinTotal weight votes) (p : HeightHashPair → Bool) :
    (precommitWeight votes p).toNat ≤ weight.toNat := by
  rw [h.toNat_precommitWeight]
  exact (weightOf_le_sum ..).trans h.precommits_le

theorem precommitWeight_mono (h : WithinTotal weight votes) {p q : HeightHashPair → Bool}
    (hpq : ∀ key, p key → q key) : (precommitWeight votes p).toNat ≤ (precommitWeight votes q).toNat := by
  rw [h.toNat_precommitWeight, h.toNat_precommitWeight]
  refine weightOf_le_of_imp fun v _ hv => ?_
  cases v with
  | prevote => simp [isPrecommitFor, precommitKey] at hv
  | precommit height hash w =>
    simp only [isPrecommitFor, precommitKey, Option.any_some] at hv ⊢
    exact hpq _ hv

theorem prevote_le (h : WithinTotal weight votes) (hshared : SharedParents votes)
    (hab : (treeOf votes).isDescendant a b) : prevoteWeight votes b ≤ prevoteWeight votes a := by
  rw [UInt64.le_iff_toNat_le, h.toNat_prevoteWeight, h.toNat_prevoteWeight]
  refine weightOf_le_of_imp fun v hv hb => ?_
  exact decide_eq_true (mem_prevoteKeys_of_isDescendant hshared (List.mem_filter.1 hv).1 (of_decide_eq_true hb) hab)

theorem exists_common_prevote (h : WithinTotal weight votes) (hmajority : weight.toNat < 2 * threshold.toNat)
    (ha : threshold ≤ prevoteWeight votes a) (hb : threshold ≤ prevoteWeight votes b) :
    ∃ v ∈ votes, a ∈ v.prevoteKeys ∧ b ∈ v.prevoteKeys := by
  rw [UInt64.le_iff_toNat_le, h.toNat_prevoteWeight] at ha hb
  obtain ⟨v, hv, hva, hvb⟩ := exists_common_of_quorums ha hb (h.prevotes_le.trans_lt hmajority)
  exact ⟨v, (List.mem_filter.1 hv).1, of_decide_eq_true hva, of_decide_eq_true hvb⟩

end WithinTotal

theorem tryFindLastMatch_spec {ctx : RoundContext} {p : HeightHashPair → Weights → Bool}
    (h : ctx.tryFindLastMatch p = some a) :
    (∃ w, ctx.candidates.find? a = some w ∧ p a w = true) ∧
      ∀ {key w}, ctx.candidates.find? key = some w → p key w = true → key ≤ a := by
  obtain ⟨e, he, rfl⟩ := Option.map_eq_some_iff.1 h
  refine ⟨⟨e.2, SortedMap.findLast?_eq_some he⟩, fun {key w} hfind hp => ?_⟩
  obtain ⟨e', he', hle⟩ := SortedMap.exists_findLast?_ge hfind hp
  rw [he] at he'; cases he'
  exact hle

theorem tryFindLastMatch_isSome {ctx : RoundContext} {p : HeightHashPair → Weights → Bool} {w : Weights}
    (hfind : ctx.candidates.find? a = some w) (hp : p a w = true) : ∃ key, ctx.tryFindLastMatch p = some key := by
  obtain ⟨e, he, -⟩ := SortedMap.exists_findLast?_ge hfind hp
  exact ⟨e.1, by rw [tryFindLastMatch, he]; rfl⟩

theorem Counts.eq_of_find? {tree : FinalizationHashTree} {active : HeightHashPair → Bool}
    {prevote : HeightHashPair → UInt64} {ctx : RoundContext} (h : Counts tree active prevote votes ctx) {w : Weights}
    (hfind : ctx.candidates.find? a = some w) : active a = true ∧ w.prevote = prevote a ∧
      w.precommit = precommitWeight votes fun k => active k && tree.isDescendant a k := by
  rw [h.find_candidate] at hfind
  split at hfind
  · rename_i ha
    cases hfind
    exact ⟨ha, rfl, rfl⟩
  · cases hfind

theorem WithinTotal.exists_ancestor (h : WithinTotal weight votes) (hshared : SharedParents votes) {w : Weights}
    (hfind : (run weight threshold votes).candidates.find? b = some w) (hab : (treeOf votes).isDescendant a b) :
    ∃ w', (run weight threshold votes).candidates.find? a = some w' ∧ w.prevote ≤ w'.prevote ∧
      w.precommit ≤ w'.precommit := by
  have hcounts := counts_run weight threshold votes
  obtain ⟨-, hprevote, hprecommit⟩ := hcounts.eq_of_find? hfind
  have ha := hcounts.closed.contains_ancestor hab
  refine ⟨_, by rw [hcounts.find_candidate, if_pos ha], ?_, ?_⟩
  · rw [hprevote]
    exact h.prevote_le hshared hab
  · rw [hprecommit, UInt64.le_iff_toNat_le]
    refine h.precommitWeight_mono fun key hkey => ?_
    rw [Bool.and_eq_true] at hkey ⊢
    exact ⟨hkey.1, hcounts.closed.isDescendant_trans hab hkey.2⟩

theorem WithinTotal.canReach (h : WithinTotal weight votes) {w : Weights}
    (hfind : (run weight threshold votes).candidates.find? a = some w) (hw : threshold ≤ w.precommit) :
    (run weight threshold votes).canReachPrecommitThreshold w = true := by
  have hcounts := counts_run weight threshold votes
  obtain ⟨-, -, hprecommit⟩ := hcounts.eq_of_find? hfind
  have hle := h.precommitWeight_le (treeOf votes).contains
  have hmono : w.precommit.toNat ≤ (precommitWeight votes (treeOf votes).contains).toNat := by
    rw [hprecommit]
    exact h.precommitWeight_mono fun key hkey => (Bool.and_eq_true _ _ ▸ hkey).1
  refine decide_eq_true ?_
  rw [(run_totals ..).1, (run_totals ..).2, hcounts.cumulative, UInt64.le_iff_toNat_le, UInt64.toNat_add,
    UInt64.toNat_sub_of_le _ _ (UInt64.le_iff_toNat_le.2 hle)]
  rw [UInt64.le_iff_toNat_le] at hw
  have := weight.toNat_lt
  omega

theorem estimate_of_sharedParents (h : WithinTotal weight votes) (hshared : SharedParents votes)
    (hmajority : weight.toNat < 2 * threshold.toNat) {B : HeightHashPair}
    (hB : (run weight threshold votes).tryFindBestPrecommit = some B) :
    ∃ P E, (run weight threshold votes).tryFindBestPrevote = some P ∧
      (run weight threshold votes).tryFindEstimate = some E ∧
      (treeOf votes).isDescendant B E = true ∧ (treeOf votes).isDescendant E P = true := by
  have hcounts := counts_run weight threshold votes
  have hclosed := hcounts.closed
  have hthreshold := (run_totals weight threshold votes).2
  obtain ⟨⟨wB, hfindB, hpB⟩, hlastB⟩ := tryFindLastMatch_spec hB
  rw [Bool.and_eq_true, decide_eq_true_eq, decide_eq_true_eq, hthreshold] at hpB
  -- a candidate with both weights at the threshold is not after `B`
  have hbefore : ∀ {key w}, (run weight threshold votes).candidates.find? key = some w → threshold ≤ w.prevote →
      threshold ≤ w.precommit → key ≤ B := fun hfind h1 h2 => hlastB hfind (by simp [hthreshold, h1, h2])
  obtain ⟨P, hP⟩ : ∃ P, (run weight threshold votes).tryFindBestPrevote = some P :=
    tryFindLastMatch_isSome hfindB (by rw [hthreshold]; exact decide_eq_true hpB.1)
  obtain ⟨⟨wP, hfindP, hpP⟩, hlastP⟩ := tryFindLastMatch_spec hP
  rw [decide_eq_true_eq, hthreshold] at hpP
  have hBP : (treeOf votes).isDescendant B P = true := by
    obtain ⟨hactiveB, hprevoteB, -⟩ := hcounts.eq_of_find? hfindB
    obtain ⟨-, hprevoteP, -⟩ := hcounts.eq_of_find? hfindP
    obtain ⟨v, hv, hvB, hvP⟩ := h.exists_common_prevote hmajority (hprevoteB ▸ hpB.1) (hprevoteP ▸ hpP)
    obtain ⟨parent, hparent⟩ := id hshared
    rcases (treeOf_follows hparent).comparable_of_steps hclosed (hparent v hv)
      (fun key hkey => (contains_treeOf votes key).2 ⟨v, hv, hkey⟩) hvB hvP with hBP | hPB
    · exact hBP
    · -- then `P` has the weights of `B` too, and both are the last such candidate
      obtain ⟨w, hfind, h1, h2⟩ := h.exists_ancestor hshared hfindB hPB
      have hPle := hbefore hfind (UInt64.le_trans hpB.1 h1) (UInt64.le_trans hpB.2 h2)
      have hBle := hlastP hfindB (by rw [hthreshold]; exact decide_eq_true hpB.1)
      rw [le_antisymm hPle hBle, FinalizationHashTree.isDescendant_self]
      exact hactiveB
  have hmatchB : ((run weight threshold votes).tree.isDescendant B P &&
      (run weight threshold votes).canReachPrecommitThreshold wB) = true := by
    rw [hcounts.tree_eq, hBP, h.canReach hfindB hpB.2]
    rfl
  obtain ⟨E, hE⟩ : ∃ E, (run weight threshold votes).tryFindEstimateFor P = some E :=
    tryFindLastMatch_isSome hfindB hmatchB
  obtain ⟨⟨wE, hfindE, hpE⟩, hlastE⟩ := tryFindLastMatch_spec hE
  rw [Bool.and_eq_true, hcounts.tree_eq] at hpE
  refine ⟨P, E, hP, by rw [tryFindEstimate, hP]; exact hE, ?_, hpE.1⟩
  rcases hclosed.comparable hBP hpE.1 with hBE | hEB
  · exact hBE
  · obtain ⟨w, hfind, h1, h2⟩ := h.exists_ancestor hshared hfindB hEB
    have hEle := hbefore hfind (UInt64.le_trans hpB.1 h1) (UInt64.le_trans hpB.2 h2)
    rw [le_antisymm hEle (hlastE hfindB hmatchB), FinalizationHashTree.isDescendant_self]
    exact (hcounts.eq_of_find? hfindB).1

/-- For prevotes that are branches of one block tree from a common height, with accepted weights within the
total weight and a threshold of more than half of it. -/
theorem estimate_extends (weight threshold root : UInt64) (blocks : BlockTree) (votes : List Vote)
    (htree : ∀ v ∈ votes, v.InTree blocks) (hroot : StartAt root votes) (hbound : WithinTotal weight votes)
    (hmajority : weight.toNat < 2 * threshold.toNat) (B : HeightHashPair)
    (hB : (run weight threshold votes).tryFindBestPrecommit = some B) :
    ∃ P E, (run weight threshold votes).tryFindBestPrevote = some P ∧
      (run weight threshold votes).tryFindEstimate = some E ∧
      (run weight threshold votes).isDescendant B E = true ∧
      (run weight threshold votes).isDescendant E P = true := by
  have hshared := sharedParents_of_noInnerStart htree (noInnerStart_of_startAt hroot)
  obtain ⟨P, E, hP, hE, hBE, hEP⟩ := estimate_of_sharedParents hbound hshared hmajority hB
  refine ⟨P, E, hP, hE, ?_, ?_⟩
  · rw [isDescendant, (counts_run ..).tree_eq]
    exact hBE
  · rw [isDescendant, (counts_run ..).tree_eq]
    exact hEP

def unevenBlocks : BlockTree where
  heightOf hash := if hash = 1 then 7 else if hash = 4 then 9 else 8
  parentOf hash := if hash = 4 then 3 else 1

def unevenVotes : List Vote :=
  [.prevote 7 [1, 2] twoHashes_lt 1, .prevote 7 [1, 3, 4] (by decide) 1, .precommit 8 2 1]

theorem unevenVotes_inTree : ∀ v ∈ unevenVotes, v.InTree unevenBlocks := by
  simp [unevenVotes, Vote.InTree, prevoteKeys, branchKeys, unevenBlocks]

/-- With a threshold of a quarter of the weight the estimate is on the other branch. -/
theorem estimate_below_half : ¬ ∀ (weight threshold root : UInt64) (blocks : BlockTree) (votes : List Vote),
    (∀ v ∈ votes, v.InTree blocks) → StartAt root votes → WithinTotal weight votes → ∀ B,
      (run weight threshold votes).tryFindBestPrecommit = some B →
      ∃ P E, (run weight threshold votes).tryFindBestPrevote = some P ∧
        (run weight threshold votes).tryFindEstimate = some E ∧
        (run weight threshold votes).isDescendant B E = true ∧
        (run weight threshold votes).isDescendant E P = true := by
  intro h
  obtain ⟨P, E, -, hE, hBE, -⟩ := h 4 1 7 unevenBlocks unevenVotes unevenVotes_inTree (by decide)
    ⟨by decide, by decide⟩ ⟨8, 2⟩ (by decide +kernel)
  have hE' : (run 4 1 unevenVotes).tryFindEstimate = some ⟨9, 4⟩ := by decide +kernel
  rw [hE'] at hE; cases hE
  exact absurd hBE (by decide +kernel)

def settledVotes : List Vote :=
  [.prevote 7 [1, 3, 4] (by decide) 1, .prevote 7 [1, 2] twoHashes_lt 3, .precommit 8 2 3]

theorem estimate_extends_settled : (run 4 3 settledVotes).tryFindBestPrecommit = some ⟨8, 2⟩ ∧
    ∃ P E, (run 4 3 settledVotes).tryFindBestPrevote = some P ∧ (run 4 3 settledVotes).tryFindEstimate = some E ∧
      (run 4 3 settledVotes).isDescendant ⟨8, 2⟩ E = true ∧ (run 4 3 settledVotes).isDescendant E P = true := by
  have hB : (run 4 3 settledVotes).tryFindBestPrecommit = some ⟨8, 2⟩ := by decide +kernel
  have htree : ∀ v ∈ settledVotes, v.InTree unevenBlocks := by
    simp [settledVotes, Vote.InTree, prevoteKeys, branchKeys, unevenBlocks]
  exact ⟨hB, estimate_extends 4 3 7 unevenBlocks settledVotes htree (by decide) ⟨by decide, by decide⟩ (by decide)
    ⟨8, 2⟩ hB⟩

end RoundContext
end Catapult.Finalization
