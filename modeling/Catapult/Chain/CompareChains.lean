import Catapult.Lib.Machine
import Mathlib.Algebra.Group.Nat.Defs

/-!
# Comparing the local chain with the chain of a peer (`CompareChainsContext`)

The comparison asks for the statistics of both chains and then searches the last common block with requests
for batches of hashes. A context is the state between two requests; `startNextCompare` is one request with
the processing of the answers and `compare` a number of them. The two apis may give other answers at every
step: `ChainApis` are the apis as they answer at one step, and `none` is an exceptional future.

Heights are 64 bit values. The operations that can wrap around are `add64` and `sub64`.
-/

namespace Catapult.Chain
open Outcome

def add64 (a b : Nat) : Nat := (a + b) % 2 ^ 64

def sub64 (a b : Nat) : Nat := (a + (2 ^ 64 - b)) % 2 ^ 64

theorem add64_eq {a b : Nat} (h : a + b < 2 ^ 64) : add64 a b = a + b := Nat.mod_eq_of_lt h

theorem sub64_eq {a b : Nat} (ha : a < 2 ^ 64) (h : b ≤ a) : sub64 a b = a - b := by
  unfold sub64
  omega

inductive ChainComparisonCode where
  | remoteReportedEqualChainScore
  | remoteReportedLowerChainScore
  | localScoreUpdated
  | remoteIsTooFarBehind
  | remoteIsNotSynced
  | remoteReturnedTooManyHashes
  | remoteIsForked
  | remoteLiedAboutChainScore
  deriving DecidableEq

structure ChainStatistics where
  height : Nat
  score : Nat

structure ChainApi (Hash : Type) where
  chainStatistics : Option ChainStatistics
  hashesFrom : Nat → Nat → Option (List Hash)

structure ChainApis (Hash : Type) where
  localApi : ChainApi Hash
  remoteApi : ChainApi Hash

/-- The supplier is given by the value of each of its calls. -/
structure CompareChainsOptions where
  hashesPerBatch : Nat
  finalizedHeightSupplier : Nat → Nat

structure CompareChainsResult where
  code : ChainComparisonCode
  commonBlockHeight : Nat
  forkDepth : Nat
  deriving DecidableEq

inductive Stage where
  | statistics
  | hashesFirst
  | hashesNext
  | scoreLocal
  deriving DecidableEq

/-- `CompareChainsContext`, with the members that change. -/
structure Context where
  stage : Stage := .statistics
  lowerBoundHeight : Nat := 0
  upperBoundHeight : Nat := 0
  startingHashesHeight : Nat := 0
  originalLocalScore : Nat := 0
  localHeight : Nat := 0
  remoteHeight : Nat := 0
  commonBlockHeight : Nat := 0
  deriving DecidableEq

variable {Hash : Type} [DecidableEq Hash]

/-- `FindFirstDifferenceIndex` of two ranges of hashes. -/
def findFirstDifferenceIndex : List Hash → List Hash → Nat
  | l :: ls, r :: rs => if l ≠ r then 0 else findFirstDifferenceIndex ls rs + 1
  | _, _ => 0

theorem findFirstDifferenceIndex_le (ls rs : List Hash) :
    findFirstDifferenceIndex ls rs ≤ ls.length ∧ findFirstDifferenceIndex ls rs ≤ rs.length := by
  fun_induction findFirstDifferenceIndex ls rs with
  | case1 l ls r rs hne => simp
  | case2 l ls r rs heq ih => simpa using ih
  | case3 => simp

theorem findFirstDifferenceIndex_getElem? {ls rs : List Hash} {i : Nat} (h : i < findFirstDifferenceIndex ls rs) :
    ls[i]? = rs[i]? := by
  fun_induction findFirstDifferenceIndex ls rs generalizing i with
  | case1 l ls r rs hne => simp at h
  | case2 l ls r rs heq ih =>
    cases i with
    | zero => simpa using heq
    | succ i => simpa using ih (by omega)
  | case3 => simp at h

theorem findFirstDifferenceIndex_ne {ls rs : List Hash} (hl : findFirstDifferenceIndex ls rs < ls.length)
    (hr : findFirstDifferenceIndex ls rs < rs.length) :
    ls[findFirstDifferenceIndex ls rs]? ≠ rs[findFirstDifferenceIndex ls rs]? := by
  fun_induction findFirstDifferenceIndex ls rs with
  | case1 l ls r rs hne => simpa using hne
  | case2 l ls r rs heq ih => simpa using ih (by simpa using hl) (by simpa using hr)
  | case3 ls rs hcons =>
    cases ls with
    | nil => simp at hl
    | cons l ls =>
      cases rs with
      | nil => simp at hr
      | cons r rs => exact (hcons l ls r rs rfl rfl).elim

theorem findFirstDifferenceIndex_eq {ls rs : List Hash} {d : Nat} (hl : d ≤ ls.length) (hr : d ≤ rs.length)
    (heq : ∀ i < d, ls[i]? = rs[i]?) (hne : d < ls.length → d < rs.length → ls[d]? ≠ rs[d]?) :
    findFirstDifferenceIndex ls rs = d := by
  obtain ⟨hl', hr'⟩ := findFirstDifferenceIndex_le ls rs
  rcases Nat.lt_trichotomy (findFirstDifferenceIndex ls rs) d with h | h | h
  · exact (findFirstDifferenceIndex_ne (by omega) (by omega) (heq _ h)).elim
  · exact h
  · exact (hne (by omega) (by omega) (findFirstDifferenceIndex_getElem? h)).elim

@[simp] theorem findFirstDifferenceIndex_nil_right (ls : List Hash) : findFirstDifferenceIndex ls [] = 0 := by
  cases ls <;> rfl

@[simp] theorem findFirstDifferenceIndex_self (ls : List Hash) : findFirstDifferenceIndex ls ls = ls.length := by
  induction ls with
  | nil => rfl
  | cons l ls ih => simp [findFirstDifferenceIndex, ih]

namespace Context
variable {options : CompareChainsOptions} {apis : ChainApis Hash} {c c' : Context}
  {code : ChainComparisonCode} {localHashes remoteHashes : List Hash}

/-- `none` is `Incomplete_Chain_Comparison_Code`. -/
def compareChainStatistics (options : CompareChainsOptions) (c : Context)
    (localChainStatistics remoteChainStatistics : ChainStatistics) : Context × Option ChainComparisonCode :=
  if remoteChainStatistics.height ≤ options.finalizedHeightSupplier 1 then (c, some .remoteIsTooFarBehind)
  else if localChainStatistics.score < remoteChainStatistics.score then
    ({ c with
      originalLocalScore := localChainStatistics.score
      localHeight := localChainStatistics.height
      remoteHeight := remoteChainStatistics.height
      upperBoundHeight := localChainStatistics.height
      stage := .hashesFirst }, none)
  else if localChainStatistics.score = remoteChainStatistics.score then (c, some .remoteReportedEqualChainScore)
  else (c, some .remoteReportedLowerChainScore)

def tryContinue (c : Context) (nextStartingHashesHeight : Nat) : Context × Option ChainComparisonCode :=
  if c.startingHashesHeight = nextStartingHashesHeight then (c, some .remoteLiedAboutChainScore)
  else ({ c with startingHashesHeight := nextStartingHashesHeight, stage := .hashesNext }, none)

def compareHashes (options : CompareChainsOptions) (c : Context) (localHashes remoteHashes : List Hash) :
    Context × Option ChainComparisonCode :=
  if options.hashesPerBatch < remoteHashes.length ∨ remoteHashes.length = 0 then
    (c, some .remoteReturnedTooManyHashes)
  else
    -- at least the first compared block should be the same; if not, the remote is a liar or on a fork
    let firstDifferenceIndex := findFirstDifferenceIndex localHashes remoteHashes
    if c.stage = .hashesFirst ∧ firstDifferenceIndex = 0 then (c, some .remoteIsForked)
    else
      let commonBlockHeight := add64 c.startingHashesHeight (sub64 firstDifferenceIndex 1)
      let localHeightDerivedFromHashes :=
        add64 c.startingHashesHeight (sub64 (min localHashes.length remoteHashes.length) 1)
      if firstDifferenceIndex = 0 then
        tryContinue { c with upperBoundHeight := c.startingHashesHeight }
          (add64 c.lowerBoundHeight c.startingHashesHeight / 2)
      else if remoteHashes.length = firstDifferenceIndex then
        if c.localHeight ≤ localHeightDerivedFromHashes then
          if localHeightDerivedFromHashes < c.remoteHeight then
            tryContinue c (sub64 localHeightDerivedFromHashes 1)
          else ({ c with stage := .scoreLocal }, none)
        else
          tryContinue { c with lowerBoundHeight := c.startingHashesHeight }
            (add64 c.startingHashesHeight c.upperBoundHeight / 2)
      else
        ({ c with
          commonBlockHeight := commonBlockHeight
          localHeight := max c.localHeight localHeightDerivedFromHashes }, some .remoteIsNotSynced)

/-- If the local score increased, the remote is not punished. -/
def compareLocalScore (c : Context) (localChainStatistics : ChainStatistics) : ChainComparisonCode :=
  if c.originalLocalScore < localChainStatistics.score then .localScoreUpdated else .remoteLiedAboutChainScore

/-- `isFutureChainComplete` of a future without exception. -/
def complete (p : Context × Option ChainComparisonCode) : Outcome Context CompareChainsResult :=
  match p.2 with
  | none => running p.1
  | some .remoteIsNotSynced => finished ⟨.remoteIsNotSynced, p.1.commonBlockHeight,
      sub64 p.1.localHeight p.1.commonBlockHeight⟩
  | some code => finished ⟨code, 2 ^ 64 - 1, 0⟩

/-- `compareHashes` with the requests to both apis. -/
def requestHashes (options : CompareChainsOptions) (apis : ChainApis Hash) (c : Context) :
    Outcome Context CompareChainsResult :=
  match apis.localApi.hashesFrom c.startingHashesHeight options.hashesPerBatch,
    apis.remoteApi.hashesFrom c.startingHashesHeight options.hashesPerBatch with
  | some localHashes, some remoteHashes => complete (compareHashes options c localHashes remoteHashes)
  | _, _ => failed

def startNextCompare (options : CompareChainsOptions) (apis : ChainApis Hash) (c : Context) :
    Outcome Context CompareChainsResult :=
  match c.stage with
  | .statistics =>
    let c := { c with
      lowerBoundHeight := options.finalizedHeightSupplier 0
      startingHashesHeight := options.finalizedHeightSupplier 0 }
    match apis.localApi.chainStatistics, apis.remoteApi.chainStatistics with
    | some localChainStatistics, some remoteChainStatistics =>
      complete (compareChainStatistics options c localChainStatistics remoteChainStatistics)
    | _, _ => failed
  | .hashesFirst | .hashesNext => requestHashes options apis c
  | .scoreLocal =>
    match apis.localApi.chainStatistics with
    | some localChainStatistics => complete (c, some (compareLocalScore c localChainStatistics))
    | none => failed

/-- The height that the next step passes to `hashesFrom`. -/
def requestedHeight (c : Context) : Option Nat :=
  match c.stage with
  | .hashesFirst | .hashesNext => some c.startingHashesHeight
  | _ => none

theorem starting_of_requested {height : Nat} (h : c.requestedHeight = some height) :
    c.startingHashesHeight = height := by
  unfold requestedHeight at h
  cases hc : c.stage <;> simp_all

theorem startNextCompare_of_requested {height : Nat} (h : c.requestedHeight = some height) :
    c.startNextCompare options apis = c.requestHashes options apis := by
  unfold requestedHeight at h
  unfold startNextCompare
  cases hc : c.stage <;> simp_all

theorem requestHashes_eq {o : Outcome Context CompareChainsResult} (h : c.requestHashes options apis = o)
    (ho : o ≠ failed) :
    ∃ localHashes remoteHashes,
      apis.localApi.hashesFrom c.startingHashesHeight options.hashesPerBatch = some localHashes ∧
      apis.remoteApi.hashesFrom c.startingHashesHeight options.hashesPerBatch = some remoteHashes ∧
      complete (compareHashes options c localHashes remoteHashes) = o := by
  unfold requestHashes at h
  split at h
  · exact ⟨_, _, ‹_›, ‹_›, h⟩
  · exact (ho h.symm).elim

theorem requestHashes_failed
    (h : apis.localApi.hashesFrom c.startingHashesHeight options.hashesPerBatch = none ∨
      apis.remoteApi.hashesFrom c.startingHashesHeight options.hashesPerBatch = none) :
    c.requestHashes options apis = failed := by
  by_contra hne
  obtain ⟨localHashes, remoteHashes, hl, hr, -⟩ := requestHashes_eq rfl hne
  rcases h with h | h
  · cases h.symm.trans hl
  · cases h.symm.trans hr

/-! ## Steps without wrap around -/

@[simp] theorem complete_none : complete (c, none) = running c := rfl

theorem complete_some (hcode : code ≠ .remoteIsNotSynced) :
    complete (c, some code) = finished ⟨code, 2 ^ 64 - 1, 0⟩ := by
  cases code <;> first | rfl | contradiction

theorem complete_eq_running {p : Context × Option ChainComparisonCode} :
    complete p = running c ↔ p = (c, none) := by
  rcases p with ⟨c', _ | code⟩
  · simp [complete]
  · cases code <;> simp [complete]

theorem complete_finished {p : Context × Option ChainComparisonCode} :
    (∃ c, p = (c, none)) ∨ ∃ result, complete p = finished result := by
  rcases p with ⟨c, _ | code⟩
  · exact .inl ⟨c, rfl⟩
  · cases code <;> exact .inr ⟨_, rfl⟩

theorem complete_notSynced {p : Context × Option ChainComparisonCode} {result : CompareChainsResult}
    (h : complete p = finished result) (hcode : result.code = .remoteIsNotSynced) :
    p.2 = some .remoteIsNotSynced ∧
      result = ⟨.remoteIsNotSynced, p.1.commonBlockHeight, sub64 p.1.localHeight p.1.commonBlockHeight⟩ := by
  rcases p with ⟨c, _ | code⟩
  · cases h
  · cases code <;> simp only [complete, finished.injEq] at h <;> subst h <;> simp_all

theorem compareChainStatistics_ne {localStatistics remoteStatistics : ChainStatistics} :
    (compareChainStatistics options c localStatistics remoteStatistics).2 ≠ some .remoteIsNotSynced := by
  unfold compareChainStatistics
  split_ifs <;> simp

theorem compareLocalScore_ne {localStatistics : ChainStatistics} :
    compareLocalScore c localStatistics ≠ .remoteIsNotSynced := by
  unfold compareLocalScore
  split_ifs <;> simp

theorem startNextCompare_notSynced {result : CompareChainsResult}
    (h : c.startNextCompare options apis = finished result) (hcode : result.code = .remoteIsNotSynced) :
    ∃ c' localHashes remoteHashes, c.requestedHeight = some c.startingHashesHeight ∧
      apis.localApi.hashesFrom c.startingHashesHeight options.hashesPerBatch = some localHashes ∧
      apis.remoteApi.hashesFrom c.startingHashesHeight options.hashesPerBatch = some remoteHashes ∧
      compareHashes options c localHashes remoteHashes = (c', some .remoteIsNotSynced) ∧
      result = ⟨.remoteIsNotSynced, c'.commonBlockHeight, sub64 c'.localHeight c'.commonBlockHeight⟩ := by
  have hrequest : c.requestedHeight = some c.startingHashesHeight := by
    unfold startNextCompare at h
    unfold requestedHeight
    cases hc : c.stage with
    | statistics =>
      simp only [hc] at h
      split at h
      · exact (compareChainStatistics_ne (complete_notSynced h hcode).1).elim
      · cases h
    | hashesFirst => rfl
    | hashesNext => rfl
    | scoreLocal =>
      simp only [hc] at h
      split at h
      · exact (compareLocalScore_ne (Option.some.inj (complete_notSynced h hcode).1)).elim
      · cases h
  rw [startNextCompare_of_requested hrequest] at h
  obtain ⟨localHashes, remoteHashes, hl, hr, hend⟩ := requestHashes_eq h (by simp)
  obtain ⟨hnot, hresult⟩ := complete_notSynced hend hcode
  exact ⟨_, localHashes, remoteHashes, hrequest, hl, hr, Prod.ext rfl hnot, hresult⟩

/-- The heights of a context, and of the local hashes that it is compared with, are far from the end of the
64 bit values. -/
structure Small (c : Context) (localHashes : List Hash) : Prop where
  nonempty : localHashes ≠ []
  starting_pos : 1 ≤ c.startingHashesHeight
  starting_lt : c.startingHashesHeight + localHashes.length ≤ 2 ^ 63
  lower_lt : c.lowerBoundHeight < 2 ^ 63
  upper_lt : c.upperBoundHeight < 2 ^ 63

omit [DecidableEq Hash] in
theorem Small.starting_le (h : c.Small localHashes) : c.startingHashesHeight < 2 ^ 63 := by
  have := List.length_pos_iff.2 h.nonempty
  have := h.starting_lt
  omega

theorem compareHashes_eq (h : c.Small localHashes) (hne : remoteHashes ≠ [])
    (hlen : remoteHashes.length ≤ options.hashesPerBatch) :
    compareHashes options c localHashes remoteHashes =
      if c.stage = .hashesFirst ∧ findFirstDifferenceIndex localHashes remoteHashes = 0 then (c, some .remoteIsForked)
      else if findFirstDifferenceIndex localHashes remoteHashes = 0 then
        tryContinue { c with upperBoundHeight := c.startingHashesHeight }
          ((c.lowerBoundHeight + c.startingHashesHeight) / 2)
      else if remoteHashes.length = findFirstDifferenceIndex localHashes remoteHashes then
        if c.localHeight < c.startingHashesHeight + remoteHashes.length then
          if c.startingHashesHeight + remoteHashes.length ≤ c.remoteHeight then
            tryContinue c (c.startingHashesHeight + remoteHashes.length - 2)
          else ({ c with stage := .scoreLocal }, none)
        else
          tryContinue { c with lowerBoundHeight := c.startingHashesHeight }
            ((c.startingHashesHeight + c.upperBoundHeight) / 2)
      else
        ({ c with
          commonBlockHeight := c.startingHashesHeight + findFirstDifferenceIndex localHashes remoteHashes - 1
          localHeight := max c.localHeight
            (c.startingHashesHeight + min localHashes.length remoteHashes.length - 1) },
          some .remoteIsNotSynced) := by
  have hl := List.length_pos_iff.2 h.nonempty
  have hr := List.length_pos_iff.2 hne
  have hs := h.starting_pos
  have hs' := h.starting_lt
  have hlower := h.lower_lt
  have hupper := h.upper_lt
  obtain ⟨hdl, hdr⟩ := findFirstDifferenceIndex_le localHashes remoteHashes
  have hderived : add64 c.startingHashesHeight (sub64 (min localHashes.length remoteHashes.length) 1) =
      c.startingHashesHeight + min localHashes.length remoteHashes.length - 1 := by
    rw [sub64_eq (by omega) (by omega), add64_eq (by omega)]
    omega
  unfold compareHashes
  rw [if_neg (by omega)]
  simp only [hderived]
  refine ite_congr rfl (fun _ => rfl) fun _ => ite_congr rfl (fun _ => ?_) fun hd =>
    ite_congr rfl (fun hdr' => ?_) fun _ => ?_
  · rw [add64_eq (by omega)]
  · -- all the remote hashes are local ones
    have hmin : min localHashes.length remoteHashes.length = remoteHashes.length := by omega
    rw [hmin, sub64_eq (by omega) (by omega), add64_eq (by omega), Nat.sub_sub]
    refine ite_congr (by simp only [eq_iff_iff]; omega) (fun _ => ite_congr (by simp only [eq_iff_iff]; omega)
      (fun _ => rfl) fun _ => rfl) fun _ => rfl
  · have hcommon : add64 c.startingHashesHeight (sub64 (findFirstDifferenceIndex localHashes remoteHashes) 1) =
        c.startingHashesHeight + findFirstDifferenceIndex localHashes remoteHashes - 1 := by
      rw [sub64_eq (by omega) (by omega), add64_eq (by omega)]
      omega
    rw [hcommon]

/-- How a search goes on after a comparison of hashes. In two of the cases `n` hashes were returned, and all
of them are local ones. -/
inductive SearchStep (options : CompareChainsOptions) (c : Context) (localHashes : List Hash) : Context → Prop
  | previous (hne : c.startingHashesHeight ≠ (c.lowerBoundHeight + c.startingHashesHeight) / 2) :
    SearchStep options c localHashes { c with
      upperBoundHeight := c.startingHashesHeight
      startingHashesHeight := (c.lowerBoundHeight + c.startingHashesHeight) / 2
      stage := .hashesNext }
  | next (n : Nat) (hpos : 1 ≤ n) (hle : c.startingHashesHeight + n ≤ c.localHeight)
    (hne : c.startingHashesHeight ≠ (c.startingHashesHeight + c.upperBoundHeight) / 2) :
    SearchStep options c localHashes { c with
      lowerBoundHeight := c.startingHashesHeight
      startingHashesHeight := (c.startingHashesHeight + c.upperBoundHeight) / 2
      stage := .hashesNext }
  | tip (n : Nat) (hpos : 1 ≤ n) (hbatch : n ≤ options.hashesPerBatch) (hlocal : n ≤ localHashes.length)
    (hlt : c.localHeight < c.startingHashesHeight + n) (hremote : c.startingHashesHeight + n ≤ c.remoteHeight)
    (hne : c.startingHashesHeight ≠ c.startingHashesHeight + n - 2) :
    SearchStep options c localHashes { c with
      startingHashesHeight := c.startingHashesHeight + n - 2
      stage := .hashesNext }
  | score : SearchStep options c localHashes { c with stage := .scoreLocal }

theorem tryContinue_eq_none {height : Nat} :
    tryContinue c height = (c', none) ↔ c.startingHashesHeight ≠ height ∧
      c' = { c with startingHashesHeight := height, stage := .hashesNext } := by
  unfold tryContinue
  split
  · simp_all
  · simp_all [eq_comm]

theorem length_remoteHashes {code : Option ChainComparisonCode}
    (h : compareHashes options c localHashes remoteHashes = (c', code))
    (hcode : code ≠ some .remoteReturnedTooManyHashes) :
    1 ≤ remoteHashes.length ∧ remoteHashes.length ≤ options.hashesPerBatch := by
  by_contra hwrong
  unfold compareHashes at h
  rw [if_pos (by omega)] at h
  exact hcode (Prod.mk.inj h).2.symm

theorem compareHashes_cases (h : c.Small localHashes)
    (hstep : compareHashes options c localHashes remoteHashes = (c', none)) :
    SearchStep options c localHashes c' := by
  obtain ⟨hpos, hbatch⟩ := length_remoteHashes hstep (by simp)
  have hne : remoteHashes ≠ [] := List.length_pos_iff.1 hpos
  have hd := (findFirstDifferenceIndex_le localHashes remoteHashes).1
  rw [compareHashes_eq h hne hbatch] at hstep
  split_ifs at hstep with h₁ h₂ h₃ h₄ h₅
  · simp at hstep
  · obtain ⟨hne, rfl⟩ := tryContinue_eq_none.1 hstep
    exact .previous hne
  · obtain ⟨hne, rfl⟩ := tryContinue_eq_none.1 hstep
    exact .tip remoteHashes.length hpos hbatch (by omega) h₄ h₅ hne
  · obtain rfl : _ = c' := (Prod.mk.inj hstep).1
    exact .score
  · obtain ⟨hne, rfl⟩ := tryContinue_eq_none.1 hstep
    exact .next remoteHashes.length hpos (by simpa using h₄) hne
  · simp at hstep

theorem compareHashes_notSynced (h : c.Small localHashes)
    (hend : compareHashes options c localHashes remoteHashes = (c', some .remoteIsNotSynced)) :
    ∃ d, 1 ≤ d ∧ d ≤ localHashes.length ∧ d < remoteHashes.length ∧ localHashes[d - 1]? = remoteHashes[d - 1]? ∧
      c'.commonBlockHeight = c.startingHashesHeight + d - 1 ∧
      c'.localHeight = max c.localHeight (c.startingHashesHeight + min localHashes.length remoteHashes.length - 1) := by
  obtain ⟨hpos, hbatch⟩ := length_remoteHashes hend (by simp)
  have hne : remoteHashes ≠ [] := List.length_pos_iff.1 hpos
  obtain ⟨hdl, hdr⟩ := findFirstDifferenceIndex_le localHashes remoteHashes
  rw [compareHashes_eq h hne hbatch] at hend
  have hcontinue : ∀ (c : Context) height, tryContinue c height ≠ (c', some .remoteIsNotSynced) := by
    intro c height heq
    unfold tryContinue at heq
    split at heq <;> simp at heq
  split_ifs at hend with h₁ h₂ h₃ h₄ h₅
  · simp at hend
  · exact (hcontinue _ _ hend).elim
  · exact (hcontinue _ _ hend).elim
  · simp at hend
  · exact (hcontinue _ _ hend).elim
  · obtain rfl : _ = c' := (Prod.mk.inj hend).1
    exact ⟨findFirstDifferenceIndex localHashes remoteHashes, by omega, hdl, by omega,
      findFirstDifferenceIndex_getElem? (by omega), rfl, rfl⟩

end Context

/-- `CompareChains` after a number of steps. -/
def compare (options : CompareChainsOptions) (apis : Nat → ChainApis Hash) :
    Nat → Outcome Context CompareChainsResult :=
  Machine.run (Context.startNextCompare options) apis {}

end Catapult.Chain
