import Catapult.Chain.StoredChain
import Mathlib.Tactic.Common

/-!
# Does a comparison end?

The peer is not trusted and may answer the same request in different ways. Without the step back from the tip
every step makes the interval between the two bounds smaller, or leaves its lower end (`Context.width`), and a
comparison ends. The step back leaves the bounds as they are, and so a peer that denies the block before the tip
and confirms three blocks up to the tip in turn keeps the comparison going (`Looping`).

`compare_ends_iff` is the exact condition for a comparison to end with a code for every sequence of answers.
-/

namespace Catapult.Chain
open Outcome Context

variable {Hash : Type} [DecidableEq Hash] {options : CompareChainsOptions} {chain : StoredChain Hash}
  {stats : ChainStatistics} {answers : Nat → List Hash} {c c' : Context}

def compareWith (options : CompareChainsOptions) (chain : StoredChain Hash) (stats : ChainStatistics)
    (answers : Nat → List Hash) : Nat → Outcome Context CompareChainsResult :=
  compare options (apisOf (fun _ => chain) (answering stats answers))

/-- The peer cannot make use of the step back from the tip. -/
structure Ending (options : CompareChainsOptions) (chain : StoredChain Hash) (stats : ChainStatistics) : Prop where
  finalized_pos : 1 ≤ options.finalizedHeightSupplier 0
  finalized_le : options.finalizedHeightSupplier 0 ≤ chain.height
  batch_pos : 1 ≤ options.hashesPerBatch
  tip : chain.height < stats.height → chain.height ≠ 1 ∧
    (chain.height ≤ options.finalizedHeightSupplier 0 + 1 ∨ options.hashesPerBatch ≤ 2)

/-- A state of a search: the starting height is between the bounds, or the tip is finalized. -/
structure Narrowing (options : CompareChainsOptions) (chain : StoredChain Hash) (stats : ChainStatistics)
    (c : Context) : Prop extends Searching options chain c where
  localHeight_eq : c.localHeight = chain.height
  remoteHeight_eq : c.remoteHeight = stats.height
  interval : (options.finalizedHeightSupplier 0 ≤ c.lowerBoundHeight ∧ c.lowerBoundHeight ≤ c.startingHashesHeight ∧
      c.startingHashesHeight < c.upperBoundHeight ∧ c.upperBoundHeight ≤ chain.height) ∨
    (options.finalizedHeightSupplier 0 = chain.height ∧ c.lowerBoundHeight = chain.height ∧
      c.upperBoundHeight = chain.height ∧ chain.height ≤ c.startingHashesHeight + 1)

def Context.width (c : Context) : Nat :=
  match c.stage with
  | .scoreLocal => 0
  | _ => 2 * (c.upperBoundHeight - c.lowerBoundHeight) +
    (if c.startingHashesHeight = c.lowerBoundHeight then 1 else 0) + 1

omit [DecidableEq Hash] in
theorem Narrowing.searchStep {localHashes : List Hash} (hend : Ending options chain stats)
    (h : Narrowing options chain stats c) (hlen : localHashes.length ≤ chain.height - c.startingHashesHeight + 1)
    (hstep : SearchStep options c localHashes c') :
    (c'.stage = .scoreLocal ∨ Narrowing options chain stats c') ∧ c'.width < c.width := by
  obtain ⟨⟨hreq, hpos, hle, hbatch, hlower, hupper⟩, hlocal, hremote, hinterval⟩ := h
  have hheight := chain.height_lt
  have hwidth : c.width = 2 * (c.upperBoundHeight - c.lowerBoundHeight) +
      (if c.startingHashesHeight = c.lowerBoundHeight then 1 else 0) + 1 := by
    unfold width
    unfold requestedHeight at hreq
    cases hc : c.stage <;> simp_all
  rw [hwidth]
  have hF := hend.finalized_pos
  cases hstep with
  | previous hne =>
    rcases hinterval with ⟨h₁, h₂, h₃, h₄⟩ | ⟨h₁, h₂, h₃, h₄⟩
    · refine ⟨.inr ⟨⟨rfl, ?_, ?_, hbatch, hlower, ?_⟩, hlocal, hremote, .inl ⟨h₁, ?_, ?_, ?_⟩⟩, ?_⟩
      all_goals simp only [width]
      all_goals try omega
      split_ifs <;> omega
    · omega
  | next n hn hnext hne =>
    rcases hinterval with ⟨h₁, h₂, h₃, h₄⟩ | ⟨h₁, h₂, h₃, h₄⟩
    · refine ⟨.inr ⟨⟨rfl, ?_, ?_, hbatch, ?_, hupper⟩, hlocal, hremote, .inl ⟨?_, ?_, ?_, h₄⟩⟩, ?_⟩
      all_goals simp only [width]
      all_goals try omega
      split_ifs <;> omega
    · omega
  | tip n hn hbatch' hlocal' htip hremote' hne =>
    have htip' := hend.tip (by omega)
    rcases hinterval with ⟨h₁, h₂, h₃, h₄⟩ | ⟨h₁, h₂, h₃, h₄⟩
    · omega
    · refine ⟨.inr ⟨⟨rfl, ?_, ?_, hbatch, hlower, hupper⟩, hlocal, hremote, .inr ⟨h₁, h₂, h₃, ?_⟩⟩, ?_⟩
      all_goals simp only [width]
      all_goals try omega
      split_ifs <;> omega
  | score => exact ⟨.inl rfl, by simp [width]⟩

omit [DecidableEq Hash] in
theorem Ending.afterStatistics (hend : Ending options chain stats) :
    Narrowing options chain stats (afterStatistics options chain.chainStatistics stats) := by
  obtain ⟨hpos, hle, hbatch, -⟩ := hend
  have hheight := chain.height_lt
  refine ⟨⟨rfl, hpos, hle, hbatch, Nat.lt_of_le_of_lt hle hheight, hheight⟩, rfl, rfl, ?_⟩
  rcases Nat.lt_or_eq_of_le hle with hlt | heq
  · exact .inl ⟨Nat.le_refl _, Nat.le_refl _, hlt, Nat.le_refl _⟩
  · exact .inr ⟨heq, heq, rfl, by simp [heq]⟩

theorem Narrowing.step (remote : ChainApi Hash) {answer : List Hash} (hend : Ending options chain stats)
    (h : Narrowing options chain stats c)
    (hremote : remote.hashesFrom c.startingHashesHeight options.hashesPerBatch = some answer) :
    (∃ result, c.startNextCompare options ⟨chain.api, remote⟩ = finished result) ∨
      ∃ c', c.startNextCompare options ⟨chain.api, remote⟩ = running c' ∧
        (c'.stage = .scoreLocal ∨ Narrowing options chain stats c') ∧ c'.width < c.width := by
  have hlen : (Searching.batch options chain c).length = _ :=
    chain.length_loadHashesFrom options.hashesPerBatch h.starting_pos h.starting_le
  rw [h.step_eq hremote]
  rcases complete_finished (p := compareHashes options c (Searching.batch options chain c) answer) with
    ⟨c', hstep⟩ | hresult
  · right
    exact ⟨c', by rw [hstep, complete_none], h.searchStep hend (by omega) (compareHashes_cases h.small hstep)⟩
  · exact .inl hresult

theorem startNextCompare_scoreLocal {remote : ChainApi Hash} (hstage : c.stage = .scoreLocal) :
    ∃ result, c.startNextCompare options ⟨chain.api, remote⟩ = finished result := by
  unfold startNextCompare
  rw [hstage]
  simp only [StoredChain.api]
  exact ⟨_, complete_some compareLocalScore_ne⟩

theorem Ending.ends (hend : Ending options chain stats) (hheight : options.finalizedHeightSupplier 1 < stats.height)
    (hscore : chain.score < stats.score) : ∃ n result, compareWith options chain stats answers n = finished result := by
  have h₁ : compareWith options chain stats answers 1 = _ := compare_one rfl hheight hscore
  have hstep : ∀ i c, c.stage = .scoreLocal ∨ Narrowing options chain stats c →
      (∃ result, c.startNextCompare options (apisOf (fun _ => chain) (answering stats answers) i) = finished result ∧
        True) ∨
      ∃ c', c.startNextCompare options (apisOf (fun _ => chain) (answering stats answers) i) = running c' ∧
        (c'.stage = .scoreLocal ∨ Narrowing options chain stats c') ∧ c'.width < c.width := by
    intro i c hc
    rcases hc with hstage | hc
    · obtain ⟨result, hresult⟩ : ∃ result,
          c.startNextCompare options ⟨chain.api, answering stats answers i⟩ = finished result :=
        startNextCompare_scoreLocal hstage
      exact .inl ⟨result, hresult, trivial⟩
    · rcases hc.step (answering stats answers i) hend rfl with ⟨result, hresult⟩ | hnext
      · exact .inl ⟨result, hresult, trivial⟩
      · exact .inr hnext
  obtain ⟨n, result, hn, -⟩ := Machine.exists_finished_of_measure width hstep h₁ (.inr hend.afterStatistics)
  exact ⟨n, result, hn⟩

/-- The contexts in which the peer has an answer that leads to such a context again. -/
inductive Looping (options : CompareChainsOptions) (chain : StoredChain Hash) (stats : ChainStatistics) :
    Context → Prop
  | start : Looping options chain stats {}
  /-- The search goes up, the peer confirms one block at a time. -/
  | climb {c : Context} (h : c.Searching options chain) (hlocal : c.localHeight = chain.height)
    (hremote : c.remoteHeight = stats.height) (hupper : c.upperBoundHeight = chain.height)
    (hle : c.startingHashesHeight + 2 ≤ chain.height) : Looping options chain stats c
  /-- The peer denies the block before the tip. -/
  | deny {c : Context} (h : c.Searching options chain) (hlocal : c.localHeight = chain.height)
    (hremote : c.remoteHeight = stats.height) (hstage : c.stage = .hashesNext)
    (hlower : c.lowerBoundHeight + 2 = chain.height) (hstart : c.startingHashesHeight + 1 = chain.height) :
    Looping options chain stats c
  /-- The peer confirms the last three blocks. -/
  | confirm {c : Context} (h : c.Searching options chain) (hlocal : c.localHeight = chain.height)
    (hremote : c.remoteHeight = stats.height)
    (hlower : c.lowerBoundHeight + 2 = chain.height) (hstart : c.startingHashesHeight + 2 = chain.height) :
    Looping options chain stats c

def answeringOnce (stats : ChainStatistics) (answer : List Hash) : ChainApi Hash := ⟨some stats, fun _ _ => some answer⟩

theorem Looping.step [Nontrivial Hash] (h : Looping options chain stats c)
    (hpos : 1 ≤ options.finalizedHeightSupplier 0) (hle : options.finalizedHeightSupplier 0 + 2 ≤ chain.height)
    (hbatch : 3 ≤ options.hashesPerBatch) (htip : chain.height < stats.height)
    (hheight : options.finalizedHeightSupplier 1 < stats.height) (hscore : chain.score < stats.score) :
    ∃ answer c', c.startNextCompare options ⟨chain.api, answeringOnce stats answer⟩ = running c' ∧
      Looping options chain stats c' := by
  have hlt := chain.height_lt
  cases h with
  | start =>
    refine ⟨[], _, startNextCompare_statistics rfl hheight hscore, .climb ?_ rfl rfl rfl hle⟩
    exact ⟨rfl, hpos, by simp; omega, by omega, by simp; omega, hlt⟩
  | climb h hlocal hremote hupper hle' =>
    obtain ⟨hash, rest, hcons⟩ := chain.exists_loadHashesFrom_eq_cons h.starting_pos h.starting_le h.batch_pos
    refine ⟨[hash], _, h.step_next rfl (by simp) (by simp; omega) ?_ (by simp; omega) (by omega), ?_⟩
    · simp [Searching.batch, hcons, findFirstDifferenceIndex]
    · have hs := h.starting_pos
      have hsearch : Searching options chain { c with
          lowerBoundHeight := c.startingHashesHeight
          startingHashesHeight := (c.startingHashesHeight + c.upperBoundHeight) / 2
          stage := .hashesNext } :=
        ⟨rfl, by simp only; omega, by simp only; omega, h.batch_pos, by simp only; omega, h.upper_lt⟩
      by_cases hup : (c.startingHashesHeight + c.upperBoundHeight) / 2 + 2 ≤ chain.height
      · exact .climb hsearch hlocal hremote hupper hup
      · exact .deny hsearch hlocal hremote rfl (by simp only; omega) (by simp only; omega)
  | deny h hlocal hremote hstage hlower hstart =>
    obtain ⟨hash, rest, hcons⟩ := chain.exists_loadHashesFrom_eq_cons h.starting_pos h.starting_le h.batch_pos
    obtain ⟨other, hother⟩ := exists_ne hash
    refine ⟨[other], _, h.step_previous hstage rfl (by simp) (by simp; omega) ?_ (by omega), ?_⟩
    · simp [Searching.batch, hcons, findFirstDifferenceIndex, hother.symm]
    · refine .confirm ⟨rfl, ?_, ?_, h.batch_pos, h.lower_lt, ?_⟩ hlocal hremote hlower ?_
      all_goals simp only
      all_goals omega
  | confirm h hlocal hremote hlower hstart =>
    have hlen : (Searching.batch options chain c).length = _ :=
      chain.length_loadHashesFrom options.hashesPerBatch h.starting_pos h.starting_le
    have hthree : (Searching.batch options chain c).length = 3 := by omega
    refine ⟨Searching.batch options chain c, _, h.step_tip rfl ?_ ?_ (by simp) ?_ ?_ ?_, ?_⟩
    · exact List.length_pos_iff.1 (by omega)
    all_goals try omega
    refine .deny ⟨rfl, ?_, ?_, h.batch_pos, h.lower_lt, h.upper_lt⟩ hlocal hremote rfl hlower ?_
    all_goals simp only
    all_goals omega

theorem exists_answers_forever [Nontrivial Hash] (hpos : 1 ≤ options.finalizedHeightSupplier 0)
    (hle : options.finalizedHeightSupplier 0 + 2 ≤ chain.height) (hbatch : 3 ≤ options.hashesPerBatch)
    (htip : chain.height < stats.height) (hheight : options.finalizedHeightSupplier 1 < stats.height)
    (hscore : chain.score < stats.score) :
    ∃ answers, ∀ n, ∃ c, compareWith options chain stats answers n = running c := by
  obtain ⟨answers, hanswers⟩ := Machine.exists_input_forever (.start : Looping options chain stats {})
    fun c hc => hc.step hpos hle hbatch htip hheight hscore
  refine ⟨answers, fun n => ?_⟩
  obtain ⟨c, hc, -⟩ := hanswers n
  refine ⟨c, ?_⟩
  rw [← hc]
  exact Machine.run_comp (fun answer : List Hash => ChainApis.mk chain.api (answeringOnce stats answer)) answers n

theorem compareWith_one_of_worse (h : stats.height ≤ options.finalizedHeightSupplier 1 ∨ stats.score ≤ chain.score) :
    ∃ result, compareWith options chain stats answers 1 = finished result := by
  have hstep : compareWith options chain stats answers 1 =
      complete (compareChainStatistics options { ({} : Context) with
        lowerBoundHeight := options.finalizedHeightSupplier 0
        startingHashesHeight := options.finalizedHeightSupplier 0 } chain.chainStatistics stats) := rfl
  rw [hstep]
  unfold compareChainStatistics
  split_ifs with h₁ h₂ h₃
  · exact ⟨_, rfl⟩
  · simp only [StoredChain.chainStatistics_score] at h₂
    omega
  · exact ⟨_, rfl⟩
  · exact ⟨_, rfl⟩

theorem compareWith_failed {n : Nat} (hn : compareWith options chain stats answers n = running c)
    (hreq : c.requestedHeight = some c.startingHashesHeight)
    (hnone : c.startingHashesHeight = 0 ∨ chain.height < c.startingHashesHeight ∨ options.hashesPerBatch = 0) :
    compareWith options chain stats answers (n + 1) = failed := by
  refine (Machine.run_succ_of_running hn).trans ?_
  rw [startNextCompare_of_requested hreq]
  exact requestHashes_failed (.inl (StoredChain.hashesFrom_eq_none.2 hnone))

theorem exists_answers_failed (hfinalized : options.finalizedHeightSupplier 0 = 1) (hone : chain.height = 1)
    (hbatch : 1 ≤ options.hashesPerBatch) (htip : chain.height < stats.height)
    (hheight : options.finalizedHeightSupplier 1 < stats.height) (hscore : chain.score < stats.score) :
    ∃ (answers : Nat → List Hash) (n : Nat), compareWith options chain stats answers n = failed := by
  have hlt := chain.height_lt
  obtain ⟨hash, hhash⟩ : ∃ hash, chain.loadHashesFrom 1 options.hashesPerBatch = [hash] := by
    rw [← List.length_eq_one_iff, chain.length_loadHashesFrom _ (Nat.le_refl _) (by omega)]
    omega
  have h₁ : compareWith options chain stats (fun _ => [hash]) 1 = _ := compare_one rfl hheight hscore
  have hsearch : Searching options chain (afterStatistics options chain.chainStatistics stats) := by
    refine ⟨rfl, ?_, ?_, hbatch, ?_, hlt⟩
    all_goals simp only [afterStatistics_startingHashesHeight, afterStatistics_lowerBoundHeight]
    all_goals omega
  have hremote : (answering stats (fun _ => [hash]) 1).hashesFrom (options.finalizedHeightSupplier 0)
      options.hashesPerBatch = some [hash] := rfl
  have h₂ := (Machine.run_succ_of_running h₁).trans (hsearch.step_tip hremote (by simp) (by simpa using hbatch)
    (by simp [Searching.batch, hfinalized, hhash]) (by simp; omega) (by simp; omega) (by simp))
  exact ⟨_, 3, compareWith_failed h₂ rfl (.inl (by simp [hfinalized]))⟩

theorem compare_ends_iff [Nontrivial Hash] :
    (∀ answers : Nat → List Hash, ∃ n result, compareWith options chain stats answers n = finished result) ↔
    stats.height ≤ options.finalizedHeightSupplier 1 ∨ stats.score ≤ chain.score ∨
      (1 ≤ options.finalizedHeightSupplier 0 ∧ options.finalizedHeightSupplier 0 ≤ chain.height ∧
        1 ≤ options.hashesPerBatch ∧
        (stats.height ≤ chain.height ∨
          (chain.height ≠ 1 ∧
            (chain.height ≤ options.finalizedHeightSupplier 0 + 1 ∨ options.hashesPerBatch ≤ 2)))) := by
  constructor
  · intro hall
    by_contra hnot
    have hheight : options.finalizedHeightSupplier 1 < stats.height := by omega
    have hscore : chain.score < stats.score := by omega
    have h₁ : ∀ answers : Nat → List Hash, compareWith options chain stats answers 1 = _ :=
      fun answers => compare_one rfl hheight hscore
    by_cases hrequest : options.finalizedHeightSupplier 0 = 0 ∨ chain.height < options.finalizedHeightSupplier 0 ∨
        options.hashesPerBatch = 0
    · obtain ⟨n, result, hn⟩ := hall fun _ => []
      exact Machine.not_finished_of_failed (compareWith_failed (h₁ _) rfl hrequest) n result hn
    by_cases hone : chain.height = 1
    · -- the step back from the only block
      obtain ⟨answers, n, hn⟩ := exists_answers_failed (by omega) hone (by omega) (by omega) hheight hscore
      obtain ⟨m, result, hm⟩ := hall answers
      exact Machine.not_finished_of_failed hn m result hm
    · obtain ⟨answers, hforever⟩ := exists_answers_forever (by omega) (by omega) (by omega) (by omega) hheight hscore
      obtain ⟨n, result, hn⟩ := hall answers
      obtain ⟨c, hc⟩ := hforever n
      cases hn.symm.trans hc
  · rintro (h | h | ⟨hpos, hle, hbatch, htip⟩) answers
    · exact ⟨1, compareWith_one_of_worse (.inl h)⟩
    · exact ⟨1, compareWith_one_of_worse (.inr h)⟩
    · by_cases hworse : stats.height ≤ options.finalizedHeightSupplier 1 ∨ stats.score ≤ chain.score
      · exact ⟨1, compareWith_one_of_worse hworse⟩
      · exact Ending.ends ⟨hpos, hle, hbatch, by omega⟩ (by omega) (by omega)

def threeBlocks : StoredChain Nat := ⟨[1, 2, 3], 5, by decide⟩

def alternating : Nat → List Nat
  | 0 => []
  | 1 => [1]
  | n + 2 => if n % 2 = 0 then [9] else [1, 2, 3]

theorem compare_ends_iff_threeBlocks :
    ∃ n result, compareWith (.fixed 2 1) threeBlocks ⟨4, 6⟩ alternating n = finished result :=
  compare_ends_iff.2 (by decide) alternating

theorem threeBlocks_running (n : Nat) :
    compareWith (.fixed 3 1) threeBlocks ⟨4, 6⟩ alternating (n + 3) = running
      { stage := .hashesNext, lowerBoundHeight := 1, upperBoundHeight := 2,
        startingHashesHeight := if n % 2 = 0 then 1 else 2,
        originalLocalScore := 5, localHeight := 3, remoteHeight := 4 } := by
  induction n with
  | zero => decide
  | succ n ih =>
    refine (Machine.run_succ_of_running ih).trans ?_
    simp only [apisOf, answering]
    rcases Nat.mod_two_eq_zero_or_one n with hn | hn
    · have hanswer : alternating (n + 3) = [1, 2, 3] := by simp [alternating, Nat.add_mod, hn]
      rw [hanswer, hn, show (n + 1) % 2 = 1 by omega]
      decide
    · have hanswer : alternating (n + 3) = [9] := by simp [alternating, Nat.add_mod, hn]
      rw [hanswer, hn, show (n + 1) % 2 = 0 by omega]
      decide

theorem threeBlocks_never_ends :
    ¬∃ n result, compareWith (.fixed 3 1) threeBlocks ⟨4, 6⟩ alternating n = finished result := by
  rintro ⟨n, result, hn⟩
  cases (threeBlocks_running n).symm.trans (Machine.run_add_of_finished hn 3)

end Catapult.Chain
