import Catapult.Chain.CompareChains

/-!
# Hashes of a stored chain (`LocalChainApi`, `FileBlockStorage::loadHashesFrom`)

The local api answers from the block storage, and a peer that is honest answers in the same way from its own
storage: with the hashes from a height on, as many as were asked for and are available, and with an exception
when there are none (`DefaultRemoteChainApi` treats an empty answer as a failure).
-/

namespace Catapult.Chain
open Outcome

/-- The hashes of the blocks from height 1 on. A stored chain is shorter than `2 ^ 63`: its hash files take
32 bytes for every block. -/
structure StoredChain (Hash : Type) where
  hashes : List Hash
  score : Nat
  length_lt : hashes.length < 2 ^ 63

namespace StoredChain
variable {Hash : Type} {chain : StoredChain Hash} {start maxHashes i : Nat}

def height (chain : StoredChain Hash) : Nat := chain.hashes.length

def hashAt (chain : StoredChain Hash) (height : Nat) : Option Hash :=
  if height = 0 then none else chain.hashes[height - 1]?

def loadHashesFrom (chain : StoredChain Hash) (height maxHashes : Nat) : List Hash :=
  if height = 0 ∨ chain.height < height then []
  else
    let numAvailableHashes := chain.height - height + 1
    let numHashes := min maxHashes numAvailableHashes
    (chain.hashes.drop (height - 1)).take numHashes

@[simps]
def chainStatistics (chain : StoredChain Hash) : ChainStatistics := ⟨chain.height, chain.score⟩

def api (chain : StoredChain Hash) : ChainApi Hash where
  chainStatistics := some chain.chainStatistics
  hashesFrom height maxHashes :=
    let hashes := chain.loadHashesFrom height maxHashes
    if hashes.isEmpty then none else some hashes

theorem height_lt : chain.height < 2 ^ 63 := chain.length_lt

theorem hashAt_succ : chain.hashAt (start + 1) = chain.hashes[start]? := rfl

theorem hashAt_isSome : (chain.hashAt start).isSome ↔ 1 ≤ start ∧ start ≤ chain.height := by
  unfold hashAt StoredChain.height
  split
  · simp; omega
  · simp; omega

theorem length_loadHashesFrom (maxHashes : Nat) (h : 1 ≤ start) (hle : start ≤ chain.height) :
    (chain.loadHashesFrom start maxHashes).length = min maxHashes (chain.height - start + 1) := by
  unfold loadHashesFrom
  rw [if_neg (by omega)]
  simp only [List.length_take, List.length_drop]
  simp only [StoredChain.height] at hle ⊢
  omega

theorem getElem?_loadHashesFrom (h : 1 ≤ start) (hi : i < maxHashes) :
    (chain.loadHashesFrom start maxHashes)[i]? = chain.hashAt (start + i) := by
  unfold loadHashesFrom hashAt
  rw [if_neg (by omega : ¬start + i = 0), show start + i - 1 = start - 1 + i by omega]
  split
  · rw [List.getElem?_nil, eq_comm, List.getElem?_eq_none]
    simp only [StoredChain.height] at *
    omega
  · by_cases hlt : start + i ≤ chain.height
    · rw [List.getElem?_take_of_lt (by omega), List.getElem?_drop]
    · simp only [StoredChain.height] at *
      rw [List.getElem?_eq_none, List.getElem?_eq_none]
      · omega
      · rw [List.length_take, List.length_drop]
        omega

theorem hashesFrom_of_le (h : 1 ≤ start) (hle : start ≤ chain.height) (hmax : 1 ≤ maxHashes) :
    chain.api.hashesFrom start maxHashes = some (chain.loadHashesFrom start maxHashes) := by
  have hlen := chain.length_loadHashesFrom maxHashes h hle
  unfold api
  simp only [List.isEmpty_iff]
  rw [if_neg]
  intro hnil
  rw [hnil, List.length_nil] at hlen
  omega

theorem hashesFrom_eq_some {hashes : List Hash} (h : chain.api.hashesFrom start maxHashes = some hashes) :
    1 ≤ start ∧ start ≤ chain.height ∧ 1 ≤ maxHashes ∧ hashes = chain.loadHashesFrom start maxHashes := by
  unfold api at h
  simp only [List.isEmpty_iff, Option.ite_none_left_eq_some, Option.some.injEq] at h
  obtain ⟨hne, rfl⟩ := h
  have hin : 1 ≤ start ∧ start ≤ chain.height := by
    by_contra hout
    apply hne
    unfold loadHashesFrom
    rw [if_pos (by omega)]
  refine ⟨hin.1, hin.2, ?_, rfl⟩
  by_contra hmax
  have hlen := chain.length_loadHashesFrom maxHashes hin.1 hin.2
  exact hne (List.length_eq_zero_iff.1 (by omega))

theorem hashesFrom_eq_none : chain.api.hashesFrom start maxHashes = none ↔
    start = 0 ∨ chain.height < start ∨ maxHashes = 0 := by
  constructor
  · intro h
    by_contra hnot
    rw [hashesFrom_of_le (by omega) (by omega) (by omega)] at h
    cases h
  · intro h
    rw [Option.eq_none_iff_forall_ne_some]
    intro hashes hsome
    have := hashesFrom_eq_some hsome
    omega

theorem exists_loadHashesFrom_eq_cons (h : 1 ≤ start) (hle : start ≤ chain.height) (hmax : 1 ≤ maxHashes) :
    ∃ hash rest, chain.loadHashesFrom start maxHashes = hash :: rest := by
  apply List.exists_cons_of_length_pos
  rw [length_loadHashesFrom _ h hle]
  omega

theorem small {c : Context} (hstart : 1 ≤ c.startingHashesHeight) (hle : c.startingHashesHeight ≤ chain.height)
    (hmax : 1 ≤ maxHashes) (hlower : c.lowerBoundHeight < 2 ^ 63) (hupper : c.upperBoundHeight < 2 ^ 63) :
    c.Small (chain.loadHashesFrom c.startingHashesHeight maxHashes) := by
  have hlen := chain.length_loadHashesFrom maxHashes hstart hle
  have hlt := chain.height_lt
  exact ⟨List.length_pos_iff.1 (by omega), hstart, by omega, hlower, hupper⟩

end StoredChain

variable {Hash : Type} [DecidableEq Hash] {options : CompareChainsOptions} {chain : StoredChain Hash}
  {remote : ChainApi Hash} {c c' : Context}

def apisOf (chains : Nat → StoredChain Hash) (remotes : Nat → ChainApi Hash) (i : Nat) : ChainApis Hash :=
  ⟨(chains i).api, remotes i⟩

/-- Options with a finalized height that does not change. -/
@[simps]
def CompareChainsOptions.fixed (hashesPerBatch finalizedHeight : Nat) : CompareChainsOptions :=
  ⟨hashesPerBatch, fun _ => finalizedHeight⟩

def answering (stats : ChainStatistics) (answers : Nat → List Hash) (i : Nat) : ChainApi Hash :=
  ⟨some stats, fun _ _ => some (answers i)⟩

/-- The context after the statistics have been compared, when the remote chain is better. -/
@[simps]
def Context.afterStatistics (options : CompareChainsOptions) (localStatistics remoteStatistics : ChainStatistics) :
    Context where
  stage := .hashesFirst
  lowerBoundHeight := options.finalizedHeightSupplier 0
  upperBoundHeight := localStatistics.height
  startingHashesHeight := options.finalizedHeightSupplier 0
  originalLocalScore := localStatistics.score
  localHeight := localStatistics.height
  remoteHeight := remoteStatistics.height

theorem startNextCompare_statistics {stats : ChainStatistics} (hstats : remote.chainStatistics = some stats)
    (hheight : options.finalizedHeightSupplier 1 < stats.height) (hscore : chain.score < stats.score) :
    Context.startNextCompare options ⟨chain.api, remote⟩ {} =
      running (.afterStatistics options chain.chainStatistics stats) := by
  unfold Context.startNextCompare
  simp only [StoredChain.api, hstats, Context.compareChainStatistics]
  rw [if_neg (by omega), if_pos (by simpa using hscore)]
  rfl

theorem startNextCompare_hashes {remoteHashes : List Hash} (hstage : c.requestedHeight = some c.startingHashesHeight)
    (hstart : 1 ≤ c.startingHashesHeight) (hle : c.startingHashesHeight ≤ chain.height)
    (hmax : 1 ≤ options.hashesPerBatch)
    (hremote : remote.hashesFrom c.startingHashesHeight options.hashesPerBatch = some remoteHashes) :
    c.startNextCompare options ⟨chain.api, remote⟩ =
      Context.complete (c.compareHashes options (chain.loadHashesFrom c.startingHashesHeight options.hashesPerBatch)
        remoteHashes) := by
  rw [Context.startNextCompare_of_requested hstage]
  unfold Context.requestHashes
  rw [StoredChain.hashesFrom_of_le hstart hle hmax, hremote]

theorem compare_one {chains : Nat → StoredChain Hash} {remotes : Nat → ChainApi Hash} {stats : ChainStatistics}
    (hstats : (remotes 0).chainStatistics = some stats)
    (hheight : options.finalizedHeightSupplier 1 < stats.height) (hscore : (chains 0).score < stats.score) :
    compare options (apisOf chains remotes) 1 =
      running (.afterStatistics options (chains 0).chainStatistics stats) :=
  startNextCompare_statistics hstats hheight hscore

theorem startNextCompare_running (h : c.startNextCompare options ⟨chain.api, remote⟩ = running c') :
    (c.stage = .statistics ∧ ∃ stats, remote.chainStatistics = some stats ∧
      options.finalizedHeightSupplier 1 < stats.height ∧ chain.score < stats.score ∧
      c' = { Context.afterStatistics options chain.chainStatistics stats with
        commonBlockHeight := c.commonBlockHeight }) ∨
    (c.requestedHeight = some c.startingHashesHeight ∧ 1 ≤ c.startingHashesHeight ∧
      c.startingHashesHeight ≤ chain.height ∧ 1 ≤ options.hashesPerBatch ∧
      ∃ remoteHashes, remote.hashesFrom c.startingHashesHeight options.hashesPerBatch = some remoteHashes ∧
        c.compareHashes options (chain.loadHashesFrom c.startingHashesHeight options.hashesPerBatch) remoteHashes =
          (c', none)) := by
  rcases hreq : c.requestedHeight with _ | height
  · left
    unfold Context.startNextCompare at h
    unfold Context.requestedHeight at hreq
    cases hc : c.stage with
    | statistics =>
      simp only [hc] at h
      rcases hr : remote.chainStatistics with _ | stats
      · simp [StoredChain.api, hr] at h
      simp only [StoredChain.api, hr, Context.complete_eq_running, Context.compareChainStatistics] at h
      split_ifs at h with h₁ h₂ h₃
      · simp at h
      · obtain ⟨rfl, -⟩ := Prod.mk.inj h
        exact ⟨rfl, stats, rfl, by omega, h₂, rfl⟩
      · simp at h
      · simp at h
    | hashesFirst => simp [hc] at hreq
    | hashesNext => simp [hc] at hreq
    | scoreLocal =>
      simp only [hc, StoredChain.api, Context.complete_eq_running] at h
      simp at h
  · right
    rw [Context.startNextCompare_of_requested hreq] at h
    obtain ⟨localHashes, remoteHashes, hl, hr, hstep⟩ := Context.requestHashes_eq h (by simp)
    obtain ⟨h₁, h₂, h₃, rfl⟩ := StoredChain.hashesFrom_eq_some hl
    exact ⟨by rw [Context.starting_of_requested hreq], h₁, h₂, h₃, remoteHashes, hr,
      Context.complete_eq_running.1 hstep⟩

structure Context.Searching (options : CompareChainsOptions) (chain : StoredChain Hash) (c : Context) : Prop where
  requested : c.requestedHeight = some c.startingHashesHeight
  starting_pos : 1 ≤ c.startingHashesHeight
  starting_le : c.startingHashesHeight ≤ chain.height
  batch_pos : 1 ≤ options.hashesPerBatch
  lower_lt : c.lowerBoundHeight < 2 ^ 63
  upper_lt : c.upperBoundHeight < 2 ^ 63

namespace Context.Searching
variable {remoteHashes : List Hash}

def batch (options : CompareChainsOptions) (chain : StoredChain Hash) (c : Context) : List Hash :=
  chain.loadHashesFrom c.startingHashesHeight options.hashesPerBatch

theorem step_eq (h : c.Searching options chain)
    (hremote : remote.hashesFrom c.startingHashesHeight options.hashesPerBatch = some remoteHashes) :
    c.startNextCompare options ⟨chain.api, remote⟩ =
      complete (c.compareHashes options (batch options chain c) remoteHashes) :=
  startNextCompare_hashes h.requested h.starting_pos h.starting_le h.batch_pos hremote

omit [DecidableEq Hash] in
theorem small (h : c.Searching options chain) : c.Small (batch options chain c) :=
  chain.small h.starting_pos h.starting_le h.batch_pos h.lower_lt h.upper_lt

theorem step_previous (h : c.Searching options chain) (hstage : c.stage = .hashesNext)
    (hremote : remote.hashesFrom c.startingHashesHeight options.hashesPerBatch = some remoteHashes)
    (hne : remoteHashes ≠ []) (hlen : remoteHashes.length ≤ options.hashesPerBatch)
    (hd : findFirstDifferenceIndex (batch options chain c) remoteHashes = 0)
    (hnext : c.startingHashesHeight ≠ (c.lowerBoundHeight + c.startingHashesHeight) / 2) :
    c.startNextCompare options ⟨chain.api, remote⟩ = running { c with
      upperBoundHeight := c.startingHashesHeight
      startingHashesHeight := (c.lowerBoundHeight + c.startingHashesHeight) / 2
      stage := .hashesNext } := by
  rw [h.step_eq hremote, compareHashes_eq h.small hne hlen, if_neg (by simp [hstage]), if_pos hd]
  rw [complete_eq_running]
  exact tryContinue_eq_none.2 ⟨hnext, rfl⟩

theorem step_next (h : c.Searching options chain)
    (hremote : remote.hashesFrom c.startingHashesHeight options.hashesPerBatch = some remoteHashes)
    (hne : remoteHashes ≠ []) (hlen : remoteHashes.length ≤ options.hashesPerBatch)
    (hd : findFirstDifferenceIndex (batch options chain c) remoteHashes = remoteHashes.length)
    (hlocal : c.startingHashesHeight + remoteHashes.length ≤ c.localHeight)
    (hnext : c.startingHashesHeight ≠ (c.startingHashesHeight + c.upperBoundHeight) / 2) :
    c.startNextCompare options ⟨chain.api, remote⟩ = running { c with
      lowerBoundHeight := c.startingHashesHeight
      startingHashesHeight := (c.startingHashesHeight + c.upperBoundHeight) / 2
      stage := .hashesNext } := by
  have hpos := List.length_pos_iff.2 hne
  rw [h.step_eq hremote, compareHashes_eq h.small hne hlen, if_neg (by omega), if_neg (by omega), if_pos hd.symm,
    if_neg (by omega), complete_eq_running]
  exact tryContinue_eq_none.2 ⟨hnext, rfl⟩

theorem step_tip (h : c.Searching options chain)
    (hremote : remote.hashesFrom c.startingHashesHeight options.hashesPerBatch = some remoteHashes)
    (hne : remoteHashes ≠ []) (hlen : remoteHashes.length ≤ options.hashesPerBatch)
    (hd : findFirstDifferenceIndex (batch options chain c) remoteHashes = remoteHashes.length)
    (hlocal : c.localHeight < c.startingHashesHeight + remoteHashes.length)
    (hheight : c.startingHashesHeight + remoteHashes.length ≤ c.remoteHeight) (hnext : remoteHashes.length ≠ 2) :
    c.startNextCompare options ⟨chain.api, remote⟩ = running { c with
      startingHashesHeight := c.startingHashesHeight + remoteHashes.length - 2
      stage := .hashesNext } := by
  have hpos := List.length_pos_iff.2 hne
  have hstart := h.starting_pos
  rw [h.step_eq hremote, compareHashes_eq h.small hne hlen, if_neg (by omega), if_neg (by omega), if_pos hd.symm,
    if_pos (by omega), if_pos hheight, complete_eq_running]
  exact tryContinue_eq_none.2 ⟨by omega, rfl⟩

theorem step_notSynced (h : c.Searching options chain) (hlocal : c.localHeight = chain.height)
    (hremote : remote.hashesFrom c.startingHashesHeight options.hashesPerBatch = some remoteHashes)
    (hlen : remoteHashes.length ≤ options.hashesPerBatch)
    (hpos : 1 ≤ findFirstDifferenceIndex (batch options chain c) remoteHashes)
    (hd : findFirstDifferenceIndex (batch options chain c) remoteHashes < remoteHashes.length) :
    c.startNextCompare options ⟨chain.api, remote⟩ = finished ⟨.remoteIsNotSynced,
      c.startingHashesHeight + findFirstDifferenceIndex (batch options chain c) remoteHashes - 1,
      chain.height - (c.startingHashesHeight + findFirstDifferenceIndex (batch options chain c) remoteHashes - 1)⟩ := by
  have hne : remoteHashes ≠ [] := List.length_pos_iff.1 (by omega)
  have hle := (findFirstDifferenceIndex_le (batch options chain c) remoteHashes).1
  have hbatch : (batch options chain c).length = _ :=
    chain.length_loadHashesFrom options.hashesPerBatch h.starting_pos h.starting_le
  have hstart := h.starting_le
  have hheight := chain.height_lt
  rw [h.step_eq hremote, compareHashes_eq h.small hne hlen, if_neg (by omega), if_neg (by omega), if_neg (by omega)]
  simp only [complete, hlocal]
  rw [max_eq_left (by omega), sub64_eq (by omega) (by omega)]

end Context.Searching

end Catapult.Chain
