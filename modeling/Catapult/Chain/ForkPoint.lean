import Catapult.Chain.StoredChain
import Mathlib.Order.Bounds.Basic

/-!
# The fork point of two chains

Both chains are made of blocks that contain the hash of the block before, so chains with the same hash at some height
are the same up to there. A comparison with a peer that answers from its chain is then a binary search: the lower
bound is a common height, the upper bound is the local height or a height that is not common (`Aiming`).
-/

namespace Catapult.Chain
open Outcome Context

structure Block (Hash Payload : Type) where
  previousBlockHash : Hash
  payload : Payload

variable {Hash Payload : Type}

structure BlockChain (blockHash : Block Hash Payload → Hash) where
  blocks : List (Block Hash Payload)
  score : Nat
  length_lt : blocks.length < 2 ^ 63
  linked : ∀ i block next, blocks[i]? = some block → blocks[i + 1]? = some next →
    next.previousBlockHash = blockHash block

variable {blockHash : Block Hash Payload → Hash}

def BlockChain.stored (chain : BlockChain blockHash) : StoredChain Hash where
  hashes := chain.blocks.map blockHash
  score := chain.score
  length_lt := by simpa using chain.length_lt

/-- No two different blocks of the chains have the same hash. -/
def CollisionFree (chain other : BlockChain blockHash) : Prop :=
  ∀ block ∈ chain.blocks, ∀ block' ∈ other.blocks, blockHash block = blockHash block' → block = block'

namespace StoredChain
variable {chain other : StoredChain Hash} {height : Nat}

def Common (chain other : StoredChain Hash) (height : Nat) : Prop :=
  ∃ hash, chain.hashAt height = some hash ∧ other.hashAt height = some hash

theorem Common.bounds (h : Common chain other height) : 1 ≤ height ∧ height ≤ chain.height ∧ height ≤ other.height := by
  obtain ⟨hash, h₁, h₂⟩ := h
  have h₁' := hashAt_isSome.1 (Option.isSome_iff_exists.2 ⟨hash, h₁⟩)
  have h₂' := hashAt_isSome.1 (Option.isSome_iff_exists.2 ⟨hash, h₂⟩)
  omega

theorem common_iff (h : 1 ≤ height) (hle : height ≤ chain.height) :
    Common chain other height ↔ chain.hashAt height = other.hashAt height := by
  obtain ⟨hash, hhash⟩ := Option.isSome_iff_exists.1 (hashAt_isSome.2 ⟨h, hle⟩)
  unfold Common
  rw [hhash]
  constructor
  · rintro ⟨_, h₁, h₂⟩
    exact h₁.trans h₂.symm
  · intro h
    exact ⟨hash, rfl, h.symm⟩

end StoredChain

open StoredChain

section Linked
variable {chain other : BlockChain blockHash} {height : Nat}

theorem hashAt_stored (h : 1 ≤ height) : chain.stored.hashAt height = (chain.blocks[height - 1]?).map blockHash := by
  unfold StoredChain.hashAt BlockChain.stored
  rw [if_neg (by omega), List.getElem?_map]

theorem common_of_succ (hfree : CollisionFree chain other) (h : 1 ≤ height)
    (hcommon : Common chain.stored other.stored (height + 1)) : Common chain.stored other.stored height := by
  obtain ⟨hash, h₁, h₂⟩ := hcommon
  rw [hashAt_stored (by omega), Nat.add_sub_cancel, Option.map_eq_some_iff] at h₁ h₂
  obtain ⟨next, hnext, rfl⟩ := h₁
  obtain ⟨next', hnext', heq⟩ := h₂
  obtain rfl := hfree next (List.mem_of_getElem? hnext) next' (List.mem_of_getElem? hnext') heq.symm
  have hblock : ∀ {chain : BlockChain blockHash}, chain.blocks[height]? = some next →
      chain.stored.hashAt height = some next.previousBlockHash := by
    intro chain hnext
    have hlt := (List.getElem?_eq_some_iff.1 hnext).1
    have hget : chain.blocks[height - 1]? = some chain.blocks[height - 1] := List.getElem?_eq_getElem _
    rw [hashAt_stored h, hget, Option.map_some, chain.linked (height - 1) _ next hget]
    rwa [Nat.sub_add_cancel h]
  exact ⟨next.previousBlockHash, hblock hnext, hblock hnext'⟩

theorem common_of_le (hfree : CollisionFree chain other) {forkHeight : Nat} (h : 1 ≤ height) (hle : height ≤ forkHeight)
    (hcommon : Common chain.stored other.stored forkHeight) : Common chain.stored other.stored height := by
  obtain ⟨k, rfl⟩ := Nat.exists_eq_add_of_le hle
  induction k with
  | zero => exact hcommon
  | succ k ih => exact ih (by omega) (common_of_succ hfree (by omega) hcommon)

theorem isPrefix_of_common (hfree : CollisionFree chain other)
    (hcommon : Common chain.stored other.stored other.stored.height) : other.stored.hashes <+: chain.stored.hashes := by
  obtain ⟨-, hle, -⟩ := hcommon.bounds
  rw [List.prefix_iff_eq_take]
  apply List.ext_getElem?
  intro i
  by_cases hi : i < other.stored.height
  · obtain ⟨hash, h₁, h₂⟩ := common_of_le hfree (by omega : 1 ≤ i + 1) hi hcommon
    rw [List.getElem?_take_of_lt (by exact hi), ← hashAt_succ, ← hashAt_succ, h₁, h₂]
  · have hnone : i ≥ other.stored.hashes.length := Nat.le_of_not_lt hi
    rw [List.getElem?_eq_none hnone, List.getElem?_eq_none]
    exact Nat.le_trans (List.length_take_le _ _) hnone

end Linked

/-! ## Batches of an honest peer -/

section Batches
variable [DecidableEq Hash] {chain other : StoredChain Hash} {forkHeight start maxHashes : Nat}

/-- Two chains that are the same up to a height and differ from there on. -/
structure Forked (chain other : StoredChain Hash) (forkHeight : Nat) : Prop where
  common : ∀ height, 1 ≤ height → (Common chain other height ↔ height ≤ forkHeight)
  fork_pos : 1 ≤ forkHeight
  fork_lt : forkHeight < other.height

omit [DecidableEq Hash] in
theorem Forked.fork_le (h : Forked chain other forkHeight) : forkHeight ≤ chain.height :=
  ((h.common forkHeight h.fork_pos).2 (Nat.le_refl _)).bounds.2.1

theorem Forked.findFirstDifferenceIndex_common (h : Forked chain other forkHeight) (hpos : 1 ≤ start)
    (hle : start ≤ forkHeight) :
    findFirstDifferenceIndex (chain.loadHashesFrom start maxHashes) (other.loadHashesFrom start maxHashes) =
      min maxHashes (forkHeight - start + 1) := by
  have hfork := h.fork_le
  have hother := h.fork_lt
  have hlen := chain.length_loadHashesFrom maxHashes hpos (by omega)
  have hlen' := other.length_loadHashesFrom maxHashes hpos (by omega)
  apply findFirstDifferenceIndex_eq
  · omega
  · omega
  · intro i hi
    rw [getElem?_loadHashesFrom hpos (by omega), getElem?_loadHashesFrom hpos (by omega)]
    exact (common_iff (by omega) (by omega)).1 ((h.common _ (by omega)).2 (by omega))
  · intro hlt hlt'
    rw [getElem?_loadHashesFrom hpos (by omega), getElem?_loadHashesFrom hpos (by omega)]
    intro heq
    have := (h.common _ (by omega)).1 ((common_iff (by omega) (by omega)).2 heq)
    omega

theorem Forked.findFirstDifferenceIndex_zero (h : Forked chain other forkHeight) (hlt : forkHeight < start)
    (hle : start ≤ chain.height) (hmax : 1 ≤ maxHashes) :
    findFirstDifferenceIndex (chain.loadHashesFrom start maxHashes) (other.loadHashesFrom start maxHashes) = 0 := by
  apply findFirstDifferenceIndex_eq (Nat.zero_le _) (Nat.zero_le _)
  · intro i hi
    omega
  · intro _ _
    rw [getElem?_loadHashesFrom (by omega) hmax, getElem?_loadHashesFrom (by omega) hmax]
    intro heq
    have := (h.common _ (by omega)).1 ((common_iff (by omega) hle).2 heq)
    omega

end Batches

/-! ## The search -/

/-- The heights that are requested while whole batches are common. -/
def probe (finalizedHeight localHeight : Nat) : Nat → Nat
  | 0 => finalizedHeight
  | k + 1 => (probe finalizedHeight localHeight k + localHeight) / 2

theorem probe_le {finalizedHeight localHeight : Nat} (hle : finalizedHeight ≤ localHeight) (k : Nat) :
    probe finalizedHeight localHeight k ≤ localHeight := by
  induction k with
  | zero => exact hle
  | succ k ih => rw [probe]; omega

theorem probe_mono {finalizedHeight localHeight : Nat} (hle : finalizedHeight ≤ localHeight) {j k : Nat} (hjk : j ≤ k) :
    probe finalizedHeight localHeight j ≤ probe finalizedHeight localHeight k := by
  induction hjk with
  | refl => exact Nat.le_refl _
  | step hjk ih =>
    have := probe_le hle (by assumption)
    rw [probe]
    omega

section Search
variable [DecidableEq Hash] {chain other : StoredChain Hash} {forkHeight hashesPerBatch finalizedHeight : Nat}
  {c : Context}

def Context.InBatch (hashesPerBatch forkHeight : Nat) (c : Context) : Prop :=
  c.startingHashesHeight ≤ forkHeight ∧ forkHeight + 1 < c.startingHashesHeight + hashesPerBatch

instance : Decidable (c.InBatch hashesPerBatch forkHeight) := inferInstanceAs (Decidable (_ ∧ _))

/-- A search for the fork point. Until a block has been found that is not common, the starting height is a probe. -/
structure Aiming (hashesPerBatch finalizedHeight : Nat) (chain other : StoredChain Hash) (forkHeight : Nat)
    (c : Context) : Prop extends Searching (.fixed hashesPerBatch finalizedHeight) chain c where
  localHeight_eq : c.localHeight = chain.height
  remoteHeight_eq : c.remoteHeight = other.height
  lower_le_fork : c.lowerBoundHeight ≤ forkHeight
  lower_le : c.lowerBoundHeight ≤ c.startingHashesHeight
  upper_le : c.upperBoundHeight ≤ chain.height
  starting_lt : forkHeight < c.startingHashesHeight →
    c.stage = .hashesNext ∧ c.startingHashesHeight < c.upperBoundHeight
  starting_le_other : c.startingHashesHeight ≤ other.height
  upper : (c.upperBoundHeight = chain.height ∧ (c.InBatch hashesPerBatch forkHeight ∨
      ∃ k, c.startingHashesHeight = probe finalizedHeight chain.height k)) ∨
    (forkHeight < c.upperBoundHeight ∧ c.upperBoundHeight ≤ other.height)

def Context.aim (hashesPerBatch forkHeight : Nat) (c : Context) : Nat :=
  if c.InBatch hashesPerBatch forkHeight then 0
  else 2 * (c.upperBoundHeight - c.lowerBoundHeight) +
    (if c.startingHashesHeight = c.lowerBoundHeight then 1 else 0) + 1

theorem Context.aim_lt {c c' : Context} (hnot : ¬c.InBatch hashesPerBatch forkHeight)
    (hlt : 2 * (c'.upperBoundHeight - c'.lowerBoundHeight) +
        (if c'.startingHashesHeight = c'.lowerBoundHeight then 1 else 0) <
      2 * (c.upperBoundHeight - c.lowerBoundHeight) +
        (if c.startingHashesHeight = c.lowerBoundHeight then 1 else 0)) :
    c'.aim hashesPerBatch forkHeight < c.aim hashesPerBatch forkHeight := by
  unfold aim
  rw [if_neg hnot]
  by_cases hin : c'.InBatch hashesPerBatch forkHeight
  · rw [if_pos hin]
    omega
  · rw [if_neg hin]
    omega

/-- A step of the search with a peer that has the chain `other`. -/
def honestStep (hashesPerBatch finalizedHeight : Nat) (chain other : StoredChain Hash) (c : Context) :
    Outcome Context CompareChainsResult :=
  c.startNextCompare (.fixed hashesPerBatch finalizedHeight) ⟨chain.api, other.api⟩

abbrev Advances (hashesPerBatch finalizedHeight : Nat) (chain other : StoredChain Hash) (forkHeight : Nat)
    (c : Context) : Prop :=
  ∃ c', honestStep hashesPerBatch finalizedHeight chain other c = running c' ∧
    Aiming hashesPerBatch finalizedHeight chain other forkHeight c' ∧
    c'.aim hashesPerBatch forkHeight < c.aim hashesPerBatch forkHeight

theorem Aiming.step_inBatch (hfork : Forked chain other forkHeight)
    (h : Aiming hashesPerBatch finalizedHeight chain other forkHeight c) (hin : c.InBatch hashesPerBatch forkHeight) :
    honestStep hashesPerBatch finalizedHeight chain other c =
      finished ⟨.remoteIsNotSynced, forkHeight, chain.height - forkHeight⟩ := by
  obtain ⟨hle, hlt⟩ := hin
  have hother := hfork.fork_lt
  have hlen := other.length_loadHashesFrom hashesPerBatch h.starting_pos h.starting_le_other
  have hd : findFirstDifferenceIndex (Searching.batch (.fixed hashesPerBatch finalizedHeight) chain c)
      (other.loadHashesFrom c.startingHashesHeight hashesPerBatch) = forkHeight - c.startingHashesHeight + 1 := by
    refine (hfork.findFirstDifferenceIndex_common h.starting_pos hle).trans ?_
    simp only [CompareChainsOptions.fixed_hashesPerBatch]
    omega
  have hremote := other.hashesFrom_of_le h.starting_pos h.starting_le_other h.batch_pos
  refine (h.step_notSynced h.localHeight_eq hremote ?_ ?_ ?_).trans ?_
  all_goals simp only [CompareChainsOptions.fixed_hashesPerBatch, hlen, hd]
  all_goals try omega
  congr <;> omega

theorem Aiming.step_above (hfork : Forked chain other forkHeight)
    (h : Aiming hashesPerBatch finalizedHeight chain other forkHeight c) (hlt : forkHeight < c.startingHashesHeight) :
    Advances hashesPerBatch finalizedHeight chain other forkHeight c := by
  obtain ⟨hstage, hupper⟩ := h.starting_lt hlt
  have hpos := h.starting_pos
  have hle := h.starting_le
  have hle' := h.starting_le_other
  have hlower := h.lower_le_fork
  have hbatch := h.batch_pos
  have hfork_pos := hfork.fork_pos
  have hheight := chain.height_lt
  have hlen := other.length_loadHashesFrom hashesPerBatch h.starting_pos h.starting_le_other
  have hremote := other.hashesFrom_of_le h.starting_pos h.starting_le_other h.batch_pos
  simp only [CompareChainsOptions.fixed_hashesPerBatch] at hbatch
  refine ⟨_, h.step_previous hstage hremote (List.length_pos_iff.1 ?_) ?_
    (hfork.findFirstDifferenceIndex_zero hlt hle hbatch) (by omega), ?_, ?_⟩
  · simp only [CompareChainsOptions.fixed_hashesPerBatch, hlen]
    omega
  · simp only [CompareChainsOptions.fixed_hashesPerBatch, hlen]
    omega
  · refine ⟨⟨rfl, ?_, ?_, h.batch_pos, h.lower_lt, ?_⟩, h.localHeight_eq, h.remoteHeight_eq, hlower, ?_, hle,
      fun _ => ⟨rfl, ?_⟩, ?_, .inr ⟨hlt, hle'⟩⟩
    all_goals dsimp only
    all_goals omega
  · refine aim_lt (by unfold InBatch; omega) ?_
    dsimp only
    split_ifs <;> omega

theorem Aiming.whole_batch (hfork : Forked chain other forkHeight)
    (h : Aiming hashesPerBatch finalizedHeight chain other forkHeight c)
    (hwhole : c.startingHashesHeight + hashesPerBatch ≤ forkHeight + 1) :
    (other.loadHashesFrom c.startingHashesHeight hashesPerBatch).length = hashesPerBatch ∧
      findFirstDifferenceIndex (Searching.batch (.fixed hashesPerBatch finalizedHeight) chain c)
        (other.loadHashesFrom c.startingHashesHeight hashesPerBatch) = hashesPerBatch := by
  have hbatch := h.batch_pos
  have hfork_lt := hfork.fork_lt
  have hlen := other.length_loadHashesFrom hashesPerBatch h.starting_pos h.starting_le_other
  simp only [CompareChainsOptions.fixed_hashesPerBatch] at hbatch
  refine ⟨by omega, (hfork.findFirstDifferenceIndex_common h.starting_pos (by omega)).trans ?_⟩
  exact Nat.min_eq_left (by simp only [CompareChainsOptions.fixed_hashesPerBatch]; omega)

theorem Aiming.step_tip (hfork : Forked chain other forkHeight)
    (h : Aiming hashesPerBatch finalizedHeight chain other forkHeight c) (hbatch : 3 ≤ hashesPerBatch)
    (hwhole : c.startingHashesHeight + hashesPerBatch ≤ forkHeight + 1)
    (htip : chain.height < c.startingHashesHeight + hashesPerBatch) :
    Advances hashesPerBatch finalizedHeight chain other forkHeight c := by
  have hpos := h.starting_pos
  have hfork_le := hfork.fork_le
  have hfork_lt := hfork.fork_lt
  have hlower := h.lower_le
  have hupper := h.upper_le
  obtain ⟨hlen', hd⟩ := h.whole_batch hfork hwhole
  have hremote := other.hashesFrom_of_le h.starting_pos h.starting_le_other h.batch_pos
  simp only [CompareChainsOptions.fixed_hashesPerBatch] at hremote
  refine ⟨_, Searching.step_tip h.toSearching hremote (List.length_pos_iff.1 (by omega)) (by simp; omega)
    (by omega) ?_ ?_ (by omega), ?_, ?_⟩
  · rw [h.localHeight_eq]
    omega
  · rw [h.remoteHeight_eq]
    omega
  · have hin : forkHeight + 1 = c.startingHashesHeight + hashesPerBatch := by omega
    have hupper' : c.upperBoundHeight = chain.height := by
      rcases h.upper with ⟨hupper', -⟩ | ⟨hupper', -⟩ <;> omega
    refine ⟨⟨rfl, ?_, ?_, h.batch_pos, h.lower_lt, h.upper_lt⟩, h.localHeight_eq, h.remoteHeight_eq, h.lower_le_fork,
      ?_, hupper, fun _ => ⟨rfl, ?_⟩, ?_, .inl ⟨hupper', .inl ⟨?_, ?_⟩⟩⟩
    all_goals dsimp only at *
    all_goals omega
  · unfold aim
    rw [if_pos, if_neg]
    · omega
    · unfold InBatch
      omega
    · unfold InBatch
      dsimp only
      omega

theorem Aiming.step_next (hfork : Forked chain other forkHeight)
    (h : Aiming hashesPerBatch finalizedHeight chain other forkHeight c) (hbatch : 3 ≤ hashesPerBatch)
    (hprobe : ∀ k, probe finalizedHeight chain.height k + hashesPerBatch ≤ forkHeight + 1 →
      probe finalizedHeight chain.height (k + 1) ≤ other.height)
    (hwhole : c.startingHashesHeight + hashesPerBatch ≤ forkHeight + 1)
    (htip : c.startingHashesHeight + hashesPerBatch ≤ chain.height) :
    Advances hashesPerBatch finalizedHeight chain other forkHeight c := by
  have hpos := h.starting_pos
  have hfork_le := hfork.fork_le
  have hfork_lt := hfork.fork_lt
  have hlower := h.lower_le
  have hupper := h.upper_le
  have hheight := chain.height_lt
  obtain ⟨hlen', hd⟩ := h.whole_batch hfork hwhole
  have hremote := other.hashesFrom_of_le h.starting_pos h.starting_le_other h.batch_pos
  simp only [CompareChainsOptions.fixed_hashesPerBatch] at hremote
  -- the upper bound is far enough away, and the peer has a block in the middle
  have hgap : c.startingHashesHeight + 2 ≤ c.upperBoundHeight ∧
      (c.startingHashesHeight + c.upperBoundHeight) / 2 ≤ other.height ∧
      ((c.upperBoundHeight = chain.height ∧ ∃ k, (c.startingHashesHeight + c.upperBoundHeight) / 2 =
        probe finalizedHeight chain.height k) ∨
      (forkHeight < c.upperBoundHeight ∧ c.upperBoundHeight ≤ other.height)) := by
    rcases h.upper with ⟨hupper', hin | ⟨k, hk⟩⟩ | ⟨hupper', hother⟩
    · obtain ⟨-, hin⟩ := hin
      omega
    · have hnext := hprobe k (by omega)
      rw [probe, ← hk] at hnext
      refine ⟨by omega, by omega, .inl ⟨hupper', k + 1, ?_⟩⟩
      rw [probe, ← hk, hupper']
    · exact ⟨by omega, by omega, .inr ⟨hupper', hother⟩⟩
  obtain ⟨hgap, hother, hside⟩ := hgap
  have hnext : c.startingHashesHeight ≠ (c.startingHashesHeight + c.upperBoundHeight) / 2 ∧
      c.startingHashesHeight < (c.startingHashesHeight + c.upperBoundHeight) / 2 ∧
      (c.startingHashesHeight + c.upperBoundHeight) / 2 < c.upperBoundHeight := by
    clear hside
    omega
  refine ⟨_, Searching.step_next h.toSearching hremote (List.length_pos_iff.1 ?_) (Nat.le_of_eq hlen')
    ?_ ?_ hnext.1, ?_, ?_⟩
  · rw [hlen']
    exact Nat.lt_of_lt_of_le (by decide) hbatch
  · rw [hlen', hd]
  · rwa [hlen', h.localHeight_eq]
  · refine ⟨⟨rfl, ?_, ?_, h.batch_pos, ?_, h.upper_lt⟩, h.localHeight_eq, h.remoteHeight_eq, ?_, ?_, hupper,
      fun _ => ⟨rfl, ?_⟩, hother, hside.imp (fun hside => ⟨hside.1, .inr hside.2⟩) id⟩
    all_goals clear hside
    all_goals dsimp only
    all_goals omega
  · refine aim_lt (by unfold InBatch; omega) ?_
    dsimp only
    split_ifs <;> omega

theorem Aiming.step (hfork : Forked chain other forkHeight)
    (h : Aiming hashesPerBatch finalizedHeight chain other forkHeight c) (hbatch : 3 ≤ hashesPerBatch)
    (hprobe : ∀ k, probe finalizedHeight chain.height k + hashesPerBatch ≤ forkHeight + 1 →
      probe finalizedHeight chain.height (k + 1) ≤ other.height) :
    (∃ result, honestStep hashesPerBatch finalizedHeight chain other c = finished result ∧
      result = ⟨.remoteIsNotSynced, forkHeight, chain.height - forkHeight⟩) ∨
    Advances hashesPerBatch finalizedHeight chain other forkHeight c := by
  by_cases habove : forkHeight < c.startingHashesHeight
  · exact .inr (h.step_above hfork habove)
  by_cases hin : forkHeight + 1 < c.startingHashesHeight + hashesPerBatch
  · exact .inl ⟨_, h.step_inBatch hfork ⟨by omega, hin⟩, rfl⟩
  by_cases htip : chain.height < c.startingHashesHeight + hashesPerBatch
  · exact .inr (h.step_tip hfork hbatch (by omega) htip)
  · exact .inr (h.step_next hfork hbatch hprobe (by omega) (by omega))

omit [DecidableEq Hash] in
theorem Aiming.afterStatistics (hfork : Forked chain other forkHeight) (hbatch : 3 ≤ hashesPerBatch)
    (hpos : 1 ≤ finalizedHeight) (hle : finalizedHeight ≤ forkHeight) :
    Aiming hashesPerBatch finalizedHeight chain other forkHeight (afterStatistics
      (.fixed hashesPerBatch finalizedHeight) chain.chainStatistics other.chainStatistics) := by
  have hfork_le := hfork.fork_le
  have hfork_lt := hfork.fork_lt
  have hheight := chain.height_lt
  refine ⟨⟨rfl, hpos, ?_, ?_, ?_, hheight⟩, rfl, rfl, hle, Nat.le_refl _, Nat.le_refl _, fun hlt => ?_, ?_,
    .inl ⟨rfl, .inr ⟨0, rfl⟩⟩⟩
  all_goals simp only [afterStatistics_startingHashesHeight, afterStatistics_lowerBoundHeight,
    CompareChainsOptions.fixed_finalizedHeightSupplier, CompareChainsOptions.fixed_hashesPerBatch] at *
  all_goals omega

/-- A comparison with a peer that has the chain `other`. -/
def compareHonest (hashesPerBatch finalizedHeight : Nat) (chain other : StoredChain Hash) :
    Nat → Outcome Context CompareChainsResult :=
  compare (.fixed hashesPerBatch finalizedHeight) (apisOf (fun _ => chain) fun _ => other.api)

theorem Forked.compareHonest_one (hfork : Forked chain other forkHeight) (hle : finalizedHeight ≤ forkHeight)
    (hscore : chain.score < other.score) :
    compareHonest hashesPerBatch finalizedHeight chain other 1 = running (afterStatistics
      (.fixed hashesPerBatch finalizedHeight) chain.chainStatistics other.chainStatistics) :=
  compare_one rfl (Nat.lt_of_le_of_lt hle hfork.fork_lt) hscore

theorem Forked.finds_forkPoint (hfork : Forked chain other forkHeight) (hbatch : 3 ≤ hashesPerBatch)
    (hpos : 1 ≤ finalizedHeight) (hle : finalizedHeight ≤ forkHeight) (hscore : chain.score < other.score)
    (hprobe : ∀ k, probe finalizedHeight chain.height k + hashesPerBatch ≤ forkHeight + 1 →
      probe finalizedHeight chain.height (k + 1) ≤ other.height) :
    ∃ n, compareHonest hashesPerBatch finalizedHeight chain other n =
      finished ⟨.remoteIsNotSynced, forkHeight, chain.height - forkHeight⟩ := by
  obtain ⟨n, result, hn, rfl⟩ := Machine.exists_finished_of_measure (aim hashesPerBatch forkHeight)
    (fun _ _ h => h.step hfork hbatch hprobe) (hfork.compareHonest_one hle hscore)
    (Aiming.afterStatistics hfork hbatch hpos hle)
  exact ⟨n, hn⟩

theorem Forked.exists_probe (hfork : Forked chain other forkHeight) (hbatch : 3 ≤ hashesPerBatch)
    (hpos : 1 ≤ finalizedHeight) (hle : finalizedHeight ≤ forkHeight) (hscore : chain.score < other.score)
    (hlt : forkHeight < chain.height) {k : Nat}
    (hk : ∀ j < k, probe finalizedHeight chain.height j + hashesPerBatch ≤ forkHeight + 1) :
    ∃ c, compareHonest hashesPerBatch finalizedHeight chain other (k + 1) = running c ∧
      c.requestedHeight = some c.startingHashesHeight ∧ c.startingHashesHeight = probe finalizedHeight chain.height k ∧
      c.upperBoundHeight = chain.height ∧ c.localHeight = chain.height ∧ c.lowerBoundHeight < 2 ^ 63 := by
  have hheight := chain.height_lt
  induction k with
  | zero =>
    refine ⟨_, hfork.compareHonest_one hle hscore, rfl, rfl, rfl, rfl, ?_⟩
    simp only [afterStatistics_lowerBoundHeight, CompareChainsOptions.fixed_finalizedHeightSupplier]
    omega
  | succ k ih =>
    obtain ⟨c, hc, hreq, hstart, hupper, hlocal, hlower⟩ := ih fun j hj => hk j (by omega)
    have hwhole := hk k (Nat.lt_succ_self k)
    have hprobe := probe_mono (by omega : finalizedHeight ≤ chain.height) (Nat.zero_le k)
    rw [probe, ← hstart] at hprobe
    rw [← hstart] at hwhole
    have hfork_lt := hfork.fork_lt
    have hsearch : c.Searching (.fixed hashesPerBatch finalizedHeight) chain :=
      ⟨hreq, by omega, by omega, by simp; omega, hlower, by omega⟩
    have hlen := other.length_loadHashesFrom hashesPerBatch hsearch.starting_pos (by omega)
    have hremote := other.hashesFrom_of_le hsearch.starting_pos (by omega) hsearch.batch_pos
    have hd : findFirstDifferenceIndex (Searching.batch (.fixed hashesPerBatch finalizedHeight) chain c)
        (other.loadHashesFrom c.startingHashesHeight hashesPerBatch) = _ :=
      hfork.findFirstDifferenceIndex_common hsearch.starting_pos (by omega)
    simp only [CompareChainsOptions.fixed_hashesPerBatch] at hremote hd
    refine ⟨_, (Machine.run_succ_of_running hc).trans (hsearch.step_next hremote (List.length_pos_iff.1 (by omega))
      (by simp; omega) (by omega) (by omega) (by omega)), rfl, ?_, hupper, hlocal, ?_⟩
    · rw [probe, ← hstart, hupper]
    · dsimp only
      omega

theorem compareHonest_failed {n : Nat} (hn : compareHonest hashesPerBatch finalizedHeight chain other n = running c)
    (hreq : c.requestedHeight = some c.startingHashesHeight) (hlt : other.height < c.startingHashesHeight) :
    compareHonest hashesPerBatch finalizedHeight chain other (n + 1) = failed := by
  refine (Machine.run_succ_of_running hn).trans ?_
  rw [startNextCompare_of_requested hreq]
  exact requestHashes_failed (.inr (hashesFrom_eq_none.2 (.inr (.inl hlt))))

end Search

theorem forked_of_isGreatest {chain other : BlockChain blockHash} {forkHeight : Nat} (hfree : CollisionFree chain other)
    (hbeyond : ¬other.stored.hashes <+: chain.stored.hashes)
    (hfork : IsGreatest { height | Common chain.stored other.stored height } forkHeight) :
    Forked chain.stored other.stored forkHeight := by
  obtain ⟨hpos, -, hle⟩ := hfork.1.bounds
  refine ⟨fun height hheight => ⟨fun h => hfork.2 h, fun h => common_of_le hfree hheight h hfork.1⟩, hpos, ?_⟩
  apply Nat.lt_of_le_of_ne hle
  intro heq
  exact hbeyond (isPrefix_of_common hfree (heq ▸ hfork.1))

/-- With a peer that answers from its own chain, which is not a part of the local chain and has a better score, the
comparison ends with the fork point exactly when the peer has a block at every probe that follows a common batch. -/
theorem finds_forkPoint_iff [DecidableEq Hash] {chain other : BlockChain blockHash}
    {hashesPerBatch finalizedHeight forkHeight : Nat} (hfree : CollisionFree chain other)
    (hbatch : 3 ≤ hashesPerBatch) (hfinalized : Common chain.stored other.stored finalizedHeight)
    (hscore : chain.score < other.score) (hbeyond : ¬other.stored.hashes <+: chain.stored.hashes)
    (hgreatest : IsGreatest { height | Common chain.stored other.stored height } forkHeight) :
    (∃ n, compareHonest hashesPerBatch finalizedHeight chain.stored other.stored n =
      finished ⟨.remoteIsNotSynced, forkHeight, chain.stored.height - forkHeight⟩) ↔
    ∀ k, Common chain.stored other.stored (probe finalizedHeight chain.stored.height k + hashesPerBatch - 1) →
      probe finalizedHeight chain.stored.height (k + 1) ≤ other.stored.height := by
  have hfork := forked_of_isGreatest hfree hbeyond hgreatest
  obtain ⟨hpos, hle, -⟩ := hfinalized.bounds
  have hfinalized_le := hgreatest.2 hfinalized
  constructor
  · rintro ⟨n, hn⟩ k hk
    by_contra hlt
    have hprobe := probe_le hle (k + 1)
    have hother := hfork.fork_lt
    have hk' := hgreatest.2 hk
    obtain ⟨c, hc, hreq, hstart, -⟩ := hfork.exists_probe hbatch hpos hfinalized_le hscore (by omega) (k := k + 1)
      fun j hj => by have := probe_mono hle (Nat.le_of_lt_succ hj); omega
    exact Machine.not_finished_of_failed (compareHonest_failed hc hreq (by omega)) n _ hn
  · intro hprobe
    refine hfork.finds_forkPoint hbatch hpos hfinalized_le hscore fun k hk => hprobe k ?_
    exact (hfork.common _ (by omega)).2 (by omega)

/-! ## Chains of numbers -/

def payloadHash (block : Block (List Nat) Nat) : List Nat := block.payload :: block.previousBlockHash

def blocksFrom (previous : List Nat) : List Nat → List (Block (List Nat) Nat)
  | [] => []
  | payload :: payloads => ⟨previous, payload⟩ :: blocksFrom (payload :: previous) payloads

theorem length_blocksFrom (previous payloads : List Nat) : (blocksFrom previous payloads).length = payloads.length := by
  induction payloads generalizing previous with
  | nil => rfl
  | cons payload payloads ih => simp [blocksFrom, ih]

theorem linked_blocksFrom (previous payloads : List Nat) (i : Nat) (block next : Block (List Nat) Nat)
    (hblock : (blocksFrom previous payloads)[i]? = some block)
    (hnext : (blocksFrom previous payloads)[i + 1]? = some next) : next.previousBlockHash = payloadHash block := by
  induction payloads generalizing previous i with
  | nil => simp [blocksFrom] at hblock
  | cons payload payloads ih =>
    cases i with
    | succ i =>
      exact ih (payload :: previous) i (by simpa [blocksFrom] using hblock) (by simpa [blocksFrom] using hnext)
    | zero =>
      cases payloads with
      | nil => simp [blocksFrom] at hnext
      | cons payload' payloads =>
        simp only [blocksFrom, List.getElem?_cons_zero, List.getElem?_cons_succ, Option.some.injEq] at hblock hnext
        rw [← hblock, ← hnext]
        rfl

def chainOf (payloads : List Nat) (score : Nat) (h : payloads.length < 2 ^ 63) : BlockChain payloadHash :=
  ⟨blocksFrom [] payloads, score, by rwa [length_blocksFrom], linked_blocksFrom [] payloads⟩

theorem collisionFree_payloadHash {chain other : BlockChain payloadHash} : CollisionFree chain other := by
  rintro ⟨previous, payload⟩ - ⟨previous', payload'⟩ - heq
  obtain ⟨rfl, rfl⟩ := List.cons.inj heq
  rfl

def localNumbers : BlockChain payloadHash := chainOf [0, 1, 2, 3, 4, 5, 6, 7, 8] 10 (by decide)
def longerNumbers : BlockChain payloadHash := chainOf [0, 1, 2, 3, 4, 5, 6, 7, 9, 10] 11 (by decide)
def shorterNumbers : BlockChain payloadHash := chainOf [0, 1, 2, 9] 11 (by decide)

theorem longerNumbers_isGreatest :
    IsGreatest { height | Common localNumbers.stored longerNumbers.stored height } 8 := by
  refine ⟨⟨_, rfl, rfl⟩, ?_⟩
  intro height h
  obtain ⟨-, hle, -⟩ := h.bounds
  by_contra hlt
  obtain rfl : height = 9 := Nat.le_antisymm hle (by omega)
  exact absurd ((common_iff (by decide) (by decide)).1 h) (by decide)

theorem finds_forkPoint_iff_numbers :
    ∃ n, compareHonest 3 1 localNumbers.stored longerNumbers.stored n = finished ⟨.remoteIsNotSynced, 8, 1⟩ :=
  (finds_forkPoint_iff collisionFree_payloadHash (by decide) ⟨_, rfl, rfl⟩ (by decide) (by decide)
    longerNumbers_isGreatest).2 fun k _ => Nat.le_trans (probe_le (by decide) _) (by decide)

theorem shorterNumbers_not_found :
    CollisionFree localNumbers shorterNumbers ∧ Common localNumbers.stored shorterNumbers.stored 1 ∧
      localNumbers.score < shorterNumbers.score ∧ ¬shorterNumbers.stored.hashes <+: localNumbers.stored.hashes ∧
      IsGreatest { height | Common localNumbers.stored shorterNumbers.stored height } 3 ∧
      ∀ n result, compareHonest 3 1 localNumbers.stored shorterNumbers.stored n ≠ finished result := by
  refine ⟨collisionFree_payloadHash, ⟨_, rfl, rfl⟩, by decide, by decide, ⟨⟨_, rfl, rfl⟩, ?_⟩, ?_⟩
  · intro height h
    obtain ⟨-, -, hle⟩ := h.bounds
    by_contra hlt
    obtain rfl : height = 4 := Nat.le_antisymm hle (by omega)
    exact absurd ((common_iff (by decide) (by decide)).1 h) (by decide)
  · have hfailed : compareHonest 3 1 localNumbers.stored shorterNumbers.stored 3 = failed := by decide
    exact Machine.not_finished_of_failed hfailed

end Catapult.Chain
