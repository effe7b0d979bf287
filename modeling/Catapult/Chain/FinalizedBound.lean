import Catapult.Chain.StoredChain
import Mathlib.Data.List.Basic

/-!
# A comparison and the finalized height

A search that starts below the local height stays at or above the finalized height, whatever the remote answers and
however the local chain changes meanwhile: the bounds only move to heights that were requested before, and the step
back from the tip starts above the local height.

When the finalized block is the last local block, the step back from the tip goes below it.
-/

namespace Catapult.Chain
open Outcome Context

variable {Hash : Type} [DecidableEq Hash] {options : CompareChainsOptions}

/-- What holds when a comparison ends with `Remote_Is_Not_Synced`: the block is not below the finalized height
and not above the local height that was recorded last, the fork depth is their difference, both nodes
have reported the same hash for the block, and no request was made below the finalized height. -/
def StaysAboveFinalization (options : CompareChainsOptions) (apis : Nat → ChainApis Hash) : Prop :=
  ∀ n result, compare options apis n = finished result → result.code = .remoteIsNotSynced →
    (∃ m c c' localHashes remoteHashes hash, compare options apis m = running c ∧
      (apis m).localApi.hashesFrom c.startingHashesHeight options.hashesPerBatch = some localHashes ∧
      (apis m).remoteApi.hashesFrom c.startingHashesHeight options.hashesPerBatch = some remoteHashes ∧
      compareHashes options c localHashes remoteHashes = (c', some .remoteIsNotSynced) ∧
      result = ⟨.remoteIsNotSynced, c'.commonBlockHeight, sub64 c'.localHeight c'.commonBlockHeight⟩ ∧
      options.finalizedHeightSupplier 0 ≤ result.commonBlockHeight ∧
      result.commonBlockHeight ≤ c'.localHeight ∧
      result.forkDepth = c'.localHeight - result.commonBlockHeight ∧
      c.startingHashesHeight ≤ result.commonBlockHeight ∧
      localHashes[result.commonBlockHeight - c.startingHashesHeight]? = some hash ∧
      remoteHashes[result.commonBlockHeight - c.startingHashesHeight]? = some hash) ∧
    ∀ m c height, compare options apis m = running c → c.requestedHeight = some height →
      options.finalizedHeightSupplier 0 ≤ height

/-- The heights of a search that started at `finalizedHeight` with a higher local chain. -/
structure Context.Bounded (finalizedHeight localHeight : Nat) (c : Context) : Prop where
  lower : finalizedHeight ≤ c.lowerBoundHeight
  lower_lt : c.lowerBoundHeight < 2 ^ 63
  upper : finalizedHeight ≤ c.upperBoundHeight
  upper_lt : c.upperBoundHeight < 2 ^ 63
  starting : finalizedHeight ≤ c.startingHashesHeight
  localHeight_eq : c.localHeight = localHeight
  searching : c.stage ≠ .statistics

omit [DecidableEq Hash] in
theorem Context.SearchStep.bounded {finalizedHeight localHeight : Nat} {c c' : Context} {localHashes : List Hash}
    (hlt : finalizedHeight < localHeight) (h : c.Bounded finalizedHeight localHeight) (hsmall : c.Small localHashes)
    (hstep : SearchStep options c localHashes c') : c'.Bounded finalizedHeight localHeight := by
  obtain ⟨hlower, hlower', hupper, hupper', hstart, heq, -⟩ := h
  have hstart' := hsmall.starting_le
  cases hstep with
  | previous => exact ⟨hlower, hlower', hstart, hstart', by dsimp only; omega, heq, by simp⟩
  | next => exact ⟨hstart, hstart', hupper, hupper', by dsimp only; omega, heq, by simp⟩
  | tip n _ _ _ htip => exact ⟨hlower, hlower', hupper, hupper', by dsimp only; omega, heq, by simp⟩
  | score => exact ⟨hlower, hlower', hupper, hupper', hstart, heq, by simp⟩

theorem commonBlock_of_notSynced {chain : StoredChain Hash} {c c' : Context} {localHashes remoteHashes : List Hash}
    (hlower : c.lowerBoundHeight < 2 ^ 63) (hupper : c.upperBoundHeight < 2 ^ 63) (hlocal : c.localHeight < 2 ^ 63)
    (hl : chain.api.hashesFrom c.startingHashesHeight options.hashesPerBatch = some localHashes)
    (hcmp : compareHashes options c localHashes remoteHashes = (c', some .remoteIsNotSynced)) :
    c.startingHashesHeight ≤ c'.commonBlockHeight ∧ c'.commonBlockHeight ≤ c'.localHeight ∧
      sub64 c'.localHeight c'.commonBlockHeight = c'.localHeight - c'.commonBlockHeight ∧
      ∃ hash, localHashes[c'.commonBlockHeight - c.startingHashesHeight]? = some hash ∧
        remoteHashes[c'.commonBlockHeight - c.startingHashesHeight]? = some hash := by
  obtain ⟨hstart, hle, hmax, rfl⟩ := StoredChain.hashesFrom_eq_some hl
  have hsmall := chain.small hstart hle hmax hlower hupper
  obtain ⟨d, hpos, hd, hd', heq, hcommon, hheight⟩ := compareHashes_notSynced hsmall hcmp
  have hend := hsmall.starting_lt
  have hmax : c'.commonBlockHeight ≤ c'.localHeight ∧ c'.localHeight < 2 ^ 63 := by omega
  refine ⟨by omega, hmax.1, sub64_eq (by omega) hmax.1, ?_⟩
  rw [hcommon, show c.startingHashesHeight + d - 1 - c.startingHashesHeight = d - 1 by omega, ← heq]
  exact ⟨_, List.getElem?_eq_getElem (by omega), List.getElem?_eq_getElem (by omega)⟩

section Dynamic
variable {chains : Nat → StoredChain Hash} {remotes : Nat → ChainApi Hash} {n : Nat}

theorem bounded_of_running (hlt : options.finalizedHeightSupplier 0 < (chains 0).height) {c : Context}
    (h : compare options (apisOf chains remotes) n = running c) :
    (n = 0 ∧ c = {}) ∨ c.Bounded (options.finalizedHeightSupplier 0) (chains 0).height := by
  refine Machine.run_induct (P := fun n c => (n = 0 ∧ c = {}) ∨
    c.Bounded (options.finalizedHeightSupplier 0) (chains 0).height) (.inl ⟨rfl, rfl⟩) ?_ h
  intro i c c' hc hstep
  have hlocal := (chains 0).height_lt
  rcases startNextCompare_running hstep with ⟨hstage, stats, -, -, -, rfl⟩ | ⟨hreq, hstart, hle, hmax, R, -, hcmp⟩
  · rcases hc with ⟨rfl, rfl⟩ | hc
    · right
      exact ⟨Nat.le_refl _, Nat.lt_trans hlt hlocal, Nat.le_of_lt hlt, hlocal, Nat.le_refl _, rfl,
        by simp [afterStatistics]⟩
    · exact (hc.searching hstage).elim
  · rcases hc with ⟨rfl, rfl⟩ | hc
    · simp [requestedHeight] at hreq
    · right
      have hsmall := (chains i).small hstart hle hmax hc.lower_lt hc.upper_lt
      exact (compareHashes_cases hsmall hcmp).bounded hlt hc hsmall

theorem staysAboveFinalization_of_lt (hlt : options.finalizedHeightSupplier 0 < (chains 0).height) :
    StaysAboveFinalization options (apisOf chains remotes) := by
  intro n result hend hcode
  obtain ⟨m, c, hm, hstep⟩ := Machine.exists_last_step hend
  constructor
  · obtain ⟨c', localHashes, remoteHashes, hreq, hl, hr, hcmp, rfl⟩ := startNextCompare_notSynced hstep hcode
    rcases bounded_of_running hlt hm with ⟨-, rfl⟩ | hc
    · simp [requestedHeight] at hreq
    obtain ⟨hstart, hle, hdepth, hash, hash_l, hash_r⟩ := commonBlock_of_notSynced hc.lower_lt hc.upper_lt
      (hc.localHeight_eq ▸ (chains 0).height_lt) hl hcmp
    exact ⟨m, c, c', localHashes, remoteHashes, hash, hm, hl, hr, hcmp, rfl, Nat.le_trans hc.starting hstart,
      hle, hdepth, hstart, hash_l, hash_r⟩
  · intro m c height hm hreq
    rcases bounded_of_running hlt hm with ⟨-, rfl⟩ | hc
    · simp [requestedHeight] at hreq
    · exact starting_of_requested hreq ▸ hc.starting

end Dynamic

/-! ## A chain that does not change -/

section Static
variable {chain : StoredChain Hash} {remotes : Nat → ChainApi Hash} {finalizedHeight hashesPerBatch : Nat}
  {stats : ChainStatistics}

/-- The context after the step back from a tip that is the finalized block. -/
@[simps!]
def Context.steppedBack (finalizedHeight : Nat) (localStatistics remoteStatistics : ChainStatistics) : Context :=
  { Context.afterStatistics (.fixed 0 finalizedHeight) localStatistics remoteStatistics with
    startingHashesHeight := finalizedHeight - 1
    stage := .hashesNext }

/-- The contexts of a search with a finalized block that is not below the tip: it is over after two batches. -/
inductive TipContext (hashesPerBatch finalizedHeight : Nat) (chain : StoredChain Hash) (stats : ChainStatistics) :
    Nat → Context → Prop
  | start : TipContext hashesPerBatch finalizedHeight chain stats 0 {}
  | first (hlt : finalizedHeight < stats.height) (hscore : chain.score < stats.score) :
    TipContext hashesPerBatch finalizedHeight chain stats 1
      (.afterStatistics (.fixed hashesPerBatch finalizedHeight) chain.chainStatistics stats)
  | second (heq : finalizedHeight = chain.height) (hlt : finalizedHeight < stats.height)
    (hscore : chain.score < stats.score) :
    TipContext hashesPerBatch finalizedHeight chain stats 2 (.steppedBack finalizedHeight chain.chainStatistics stats)
  | score {n : Nat} {c : Context} (hn : 2 ≤ n) (hstage : c.stage = .scoreLocal) :
    TipContext hashesPerBatch finalizedHeight chain stats n c

theorem tipContext_of_running (hle : chain.height ≤ finalizedHeight)
    (hstats : (remotes 0).chainStatistics = some stats) {n : Nat} {c : Context}
    (h : compare (.fixed hashesPerBatch finalizedHeight) (apisOf (fun _ => chain) remotes) n = running c) :
    TipContext hashesPerBatch finalizedHeight chain stats n c := by
  refine Machine.run_induct (P := TipContext hashesPerBatch finalizedHeight chain stats) .start ?_ h
  intro i c c' hc hstep
  have hheight := chain.height_lt
  rcases startNextCompare_running hstep with ⟨hstage, stats', hstats', hlt, hscore, rfl⟩ |
    ⟨hreq, hstart, hle', hmax, R, -, hcmp⟩
  · cases hc with
    | start =>
      obtain rfl := Option.some.inj (hstats.symm.trans hstats')
      exact .first hlt hscore
    | first => cases hstage
    | second => cases hstage
    | score hn hstage' => cases hstage.symm.trans hstage'
  · cases hc with
    | start => cases hreq
    | first hlt hscore =>
      obtain rfl : finalizedHeight = chain.height := Nat.le_antisymm hle' hle
      have hlen := chain.length_loadHashesFrom hashesPerBatch hstart hle'
      have hsmall := chain.small hstart hle' hmax hheight hheight
      simp only [afterStatistics_startingHashesHeight, CompareChainsOptions.fixed_finalizedHeightSupplier] at hlen
      cases compareHashes_cases hsmall hcmp with
      | previous hne => simp at hne; omega
      | next n hpos hn => simp at hn; omega
      | tip n hpos hbatch hlocal =>
        simp at hlocal
        obtain rfl : n = 1 := by omega
        exact .second rfl hlt hscore
      | score => exact .score (by omega) rfl
    | second heq hlt hscore =>
      subst heq
      have hlen := chain.length_loadHashesFrom hashesPerBatch hstart hle'
      have hsmall := chain.small hstart hle' hmax hheight hheight
      simp only [steppedBack_startingHashesHeight] at hstart hlen
      -- from here on every continuation would ask for the same hashes again
      cases compareHashes_cases hsmall hcmp with
      | previous hne => simp at hne; omega
      | next n hpos hn hne => simp at hne; omega
      | tip n hpos hbatch hlocal htip hremote hne => simp at hlocal htip hne; omega
      | score => exact .score (by omega) rfl
    | score hn hstage => simp [requestedHeight, hstage] at hreq

theorem staysAboveFinalization_of_height_le (hle : chain.height ≤ finalizedHeight)
    (hstats : (remotes 0).chainStatistics = some stats)
    (hnot : ¬(finalizedHeight = chain.height ∧ 2 ≤ finalizedHeight ∧ 2 ≤ hashesPerBatch ∧
      finalizedHeight < stats.height ∧ chain.score < stats.score)) :
    StaysAboveFinalization (.fixed hashesPerBatch finalizedHeight) (apisOf (fun _ => chain) remotes) := by
  intro n result hend hcode
  have hheight := chain.height_lt
  obtain ⟨m, c, hm, hstep⟩ := Machine.exists_last_step hend
  obtain ⟨c', localHashes, remoteHashes, hreq, hl, hr, hcmp, rfl⟩ := startNextCompare_notSynced hstep hcode
  obtain ⟨hstart, hle', hmax, rfl⟩ := StoredChain.hashesFrom_eq_some hl
  cases tipContext_of_running hle hstats hm with
  | start => cases hreq
  | first hlt hscore =>
    obtain rfl : finalizedHeight = chain.height := Nat.le_antisymm hle' hle
    obtain ⟨hcommon, hlocal, hdepth, hash, hash_l, hash_r⟩ :=
      commonBlock_of_notSynced hheight hheight hheight hl hcmp
    refine ⟨⟨1, _, c', _, remoteHashes, hash, hm, hl, hr, hcmp, rfl, hcommon, hlocal, hdepth, hcommon, hash_l,
      hash_r⟩, ?_⟩
    intro k c height hk hreq
    cases tipContext_of_running hle hstats hk with
    | start => cases hreq
    | first => exact Nat.le_of_eq (Option.some.inj hreq)
    | second =>
      -- the comparison has ended already
      have hended := Machine.run_of_last_step hm hstep (Nat.lt_succ_self 1)
      cases hk.symm.trans hended
    | score hn hstage => simp [requestedHeight, hstage] at hreq
  | second heq hlt hscore =>
    refine (hnot ⟨heq, ?_, ?_, hlt, hscore⟩).elim
    · simp only [steppedBack_startingHashesHeight] at hstart
      omega
    · have hsmall := chain.small hstart hle' hmax (by simpa [← heq] using hheight) hheight
      obtain ⟨d, hpos, -, hd, -⟩ := compareHashes_notSynced hsmall hcmp
      have hbatch := (length_remoteHashes hcmp (by simp)).2
      simp only [CompareChainsOptions.fixed_hashesPerBatch] at hbatch
      omega
  | score hn hstage => simp [requestedHeight, hstage] at hreq

theorem below_finalized [Nontrivial Hash] (heq : finalizedHeight = chain.height) (hpos : 2 ≤ finalizedHeight)
    (hbatch : 2 ≤ hashesPerBatch) (hlt : finalizedHeight < stats.height) (hscore : chain.score < stats.score) :
    ∃ answers, compare (.fixed hashesPerBatch finalizedHeight) (apisOf (fun _ => chain) (answering stats answers)) 3 =
      finished ⟨.remoteIsNotSynced, finalizedHeight - 1, 1⟩ := by
  subst heq
  have hheight := chain.height_lt
  have hmax : 1 ≤ hashesPerBatch := by omega
  obtain ⟨tip, htip⟩ : ∃ tip, chain.loadHashesFrom chain.height hashesPerBatch = [tip] := by
    rw [← List.length_eq_one_iff, chain.length_loadHashesFrom _ (by omega) (Nat.le_refl _)]
    omega
  obtain ⟨parent, tip', hparent⟩ :
      ∃ parent tip', chain.loadHashesFrom (chain.height - 1) hashesPerBatch = [parent, tip'] := by
    rw [← List.length_eq_two, chain.length_loadHashesFrom _ (by omega) (by omega)]
    omega
  obtain ⟨other, hother⟩ := exists_ne tip'
  let answers : Nat → List Hash := fun i => if i = 1 then [tip] else [parent, other]
  refine ⟨answers, ?_⟩
  have hfirst : (afterStatistics (.fixed hashesPerBatch chain.height) chain.chainStatistics stats).Searching
      (.fixed hashesPerBatch chain.height) chain :=
    ⟨rfl, by simp; omega, by simp, hmax, hheight, hheight⟩
  have hsecond : (steppedBack chain.height chain.chainStatistics stats).Searching
      (.fixed hashesPerBatch chain.height) chain :=
    ⟨rfl, by simp; omega, by simp, hmax, hheight, hheight⟩
  have h₁ : compare (.fixed hashesPerBatch chain.height) (apisOf (fun _ => chain) (answering stats answers)) 1 = _ :=
    compare_one rfl hlt hscore
  have h₂ : compare (.fixed hashesPerBatch chain.height) (apisOf (fun _ => chain) (answering stats answers)) 2 =
      running (steppedBack chain.height chain.chainStatistics stats) := by
    refine (Machine.run_succ_of_running h₁).trans ?_
    have hremote : (answering stats answers 1).hashesFrom chain.height hashesPerBatch = some [tip] := rfl
    exact hfirst.step_tip hremote (by simp) hmax (by simp [Searching.batch, htip]) (by simp) (by simp; omega) (by simp)
  have hd : findFirstDifferenceIndex (Searching.batch (.fixed hashesPerBatch chain.height) chain
      (steppedBack chain.height chain.chainStatistics stats)) [parent, other] = 1 := by
    simp [Searching.batch, hparent, findFirstDifferenceIndex, hother.symm]
  have hremote : (answering stats answers 2).hashesFrom (chain.height - 1) hashesPerBatch = some [parent, other] := rfl
  refine (Machine.run_succ_of_running h₂).trans ((hsecond.step_notSynced rfl hremote hbatch (by omega) ?_).trans ?_)
  · rw [hd]
    simp
  · rw [hd]
    simp
    omega

theorem staysAboveFinalization_iff [Nontrivial Hash] :
    (∀ remotes : Nat → ChainApi Hash, (remotes 0).chainStatistics = some stats →
      StaysAboveFinalization (.fixed hashesPerBatch finalizedHeight) (apisOf (fun _ => chain) remotes)) ↔
    ¬(finalizedHeight = chain.height ∧ 2 ≤ finalizedHeight ∧ 2 ≤ hashesPerBatch ∧
      finalizedHeight < stats.height ∧ chain.score < stats.score) := by
  constructor
  · rintro h ⟨heq, hpos, hbatch, hlt, hscore⟩
    obtain ⟨answers, hend⟩ := below_finalized heq hpos hbatch hlt hscore
    obtain ⟨⟨-, -, -, -, -, -, -, -, -, -, -, hle, -⟩, -⟩ := h (answering stats answers) rfl 3 _ hend rfl
    simp only [CompareChainsOptions.fixed_finalizedHeightSupplier] at hle
    omega
  · intro hnot remotes hstats
    by_cases hlt : finalizedHeight < chain.height
    · exact staysAboveFinalization_of_lt hlt
    · exact staysAboveFinalization_of_height_le (by omega) hstats hnot

end Static

/-- With a finalized height below the local height, a comparison stays above the finalized height; for a chain
that does not change, it fails to do so exactly when the last block is finalized and there is a block below. -/
theorem notSynced_above_finalization [Nontrivial Hash] :
    (∀ (options : CompareChainsOptions) (chains : Nat → StoredChain Hash) (remotes : Nat → ChainApi Hash),
      options.finalizedHeightSupplier 0 < (chains 0).height →
        StaysAboveFinalization options (apisOf chains remotes)) ∧
    ∀ (hashesPerBatch finalizedHeight : Nat) (chain : StoredChain Hash) (stats : ChainStatistics),
      (∀ remotes : Nat → ChainApi Hash, (remotes 0).chainStatistics = some stats →
        StaysAboveFinalization (.fixed hashesPerBatch finalizedHeight) (apisOf (fun _ => chain) remotes)) ↔
      ¬(finalizedHeight = chain.height ∧ 2 ≤ finalizedHeight ∧ 2 ≤ hashesPerBatch ∧
        finalizedHeight < stats.height ∧ chain.score < stats.score) :=
  ⟨fun _ _ _ => staysAboveFinalization_of_lt, fun _ _ _ _ => staysAboveFinalization_iff⟩

def twoBlocks : StoredChain Nat := ⟨[1, 2], 5, by decide⟩

theorem notSynced_above_finalization_twoBlocks :
    StaysAboveFinalization (.fixed 3 1) (apisOf (fun _ => twoBlocks) (answering ⟨3, 6⟩ fun _ => [1, 2, 3])) :=
  notSynced_above_finalization.1 _ _ _ (by decide)

theorem twoBlocks_below_finalization :
    compare (.fixed 2 2) (apisOf (fun _ => twoBlocks) (answering ⟨3, 6⟩ fun i => if i = 1 then [2] else [1, 3])) 3 =
      finished ⟨.remoteIsNotSynced, 1, 1⟩ ∧
    ¬StaysAboveFinalization (.fixed 2 2)
      (apisOf (fun _ => twoBlocks) (answering ⟨3, 6⟩ fun i => if i = 1 then [2] else [1, 3])) := by
  have hend : compare (.fixed 2 2)
      (apisOf (fun _ => twoBlocks) (answering ⟨3, 6⟩ fun i => if i = 1 then [2] else [1, 3])) 3 =
      finished ⟨.remoteIsNotSynced, 1, 1⟩ := by decide
  refine ⟨hend, fun h => ?_⟩
  obtain ⟨⟨-, -, -, -, -, -, -, -, -, -, -, hle, -⟩, -⟩ := h 3 _ hend rfl
  exact absurd hle (by decide)

end Catapult.Chain
