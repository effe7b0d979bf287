import Catapult.Currency.BlockRollback

/-!
# Currency is conserved

Executing a block changes the sum of all currency balances by the inflation of its height, and rolling it back
restores every balance. Credits are not checked, so the sums must fit before the block (`Fits`). Along a chain from
the initial currency they do, because an admitted configuration has room for all inflation.
-/

namespace Catapult.Currency
open AccountStateCache
open Catapult.Chain (add64 sub64 add64_eq sub64_eq)

variable {Address MosaicId : Type} [DecidableEq Address] [DecidableEq MosaicId]

/-- The sums of the balances before a block fit, also with the inflation of its height. -/
structure Fits (config : Configuration Address MosaicId) (height : Nat)
    (cache : AccountStateCache Address MosaicId) : Prop where
  currency : cache.total config.currencyMosaicId + config.inflation.getSpotAmount height < 2 ^ 64
  totals : ∀ mosaicId, cache.total mosaicId < 2 ^ 64

/-- What is known of the state before a block that can be rolled back: its accounts are older, nothing waits for
removal, and there are statistics of earlier blocks, which the fee multiplier was calculated of. -/
structure Precedes (config : Configuration Address MosaicId) (height : Nat) (state : State Address MosaicId) :
    Prop where
  accounts : ∀ address ∈ state.cache.addresses, (state.cache.accounts address).addressHeight < height
  queuedByAddress : state.cache.queuedRemoveByAddress = []
  queuedByPublicKey : state.cache.queuedRemoveByPublicKey = []
  statistics : recalculate config state.statistics = some state.dynamicFeeMultiplier

def blockAmounts (config : Configuration Address MosaicId) (block : Block Address MosaicId) : HarvestAmounts :=
  harvestAmounts config block.signer block.beneficiary
    (add64 (totalFee block) (config.inflation.getSpotAmount block.height))

structure Conserved (config : Configuration Address MosaicId) (block : Block Address MosaicId)
    (state state' : State Address MosaicId) : Prop where
  sum : state'.cache.total config.currencyMosaicId =
    state.cache.total config.currencyMosaicId + config.inflation.getSpotAmount block.height
  fees : (block.transactions.map (transactionFee block)).sum = totalFee block
  shares : ((feeShares config block.height block.signer block.beneficiary (blockAmounts config block)).map
      Prod.snd).sum =
    totalFee block + config.inflation.getSpotAmount block.height
  remainder : (blockAmounts config block).network + (blockAmounts config block).beneficiary ≤
    totalFee block + config.inflation.getSpotAmount block.height

def ProductsFit (config : Configuration Address MosaicId) (block : Block Address MosaicId) : Prop :=
  (totalFee block + config.inflation.getSpotAmount block.height) * config.harvestNetworkPercentage < 2 ^ 64 ∧
    (totalFee block + config.inflation.getSpotAmount block.height) * config.harvestBeneficiaryPercentage < 2 ^ 64

def Restores (config : Configuration Address MosaicId) (block : Block Address MosaicId)
    (state state' : State Address MosaicId) : Prop :=
  ∃ restored, rollbackBlock config block state' = some restored ∧
    ∀ address mosaicId, restored.cache.balance address mosaicId = state.cache.balance address mosaicId

variable {config : Configuration Address MosaicId} {block : Block Address MosaicId} {height : Nat}
  {state state' : State Address MosaicId}

theorem executeBlock_eq_some (h : executeBlock config block state = some state') : ∃ before,
    (publishedBefore config block).foldlM (observe config block.height .commit) state = some before ∧
    observe config block.height .commit before
      (.block block.signer block.beneficiary block.feeMultiplier (totalFee block)) = some state' := by
  unfold executeBlock at h
  rw [publishAll_eq, List.foldlM_append, Option.bind_eq_bind] at h
  obtain ⟨before, hbefore, h⟩ := Option.bind_eq_some_iff.1 h
  refine ⟨before, hbefore, ?_⟩
  simpa only [List.foldlM_cons, List.foldlM_nil, Option.bind_eq_bind, Option.pure_def, Option.bind_fun_some] using h

theorem totals_executeBlock {before : State Address MosaicId} (hreserved : block.reserved1 = 0)
    (hfits : Fits config block.height state.cache)
    (hbefore : (publishedBefore config block).foldlM (observe config block.height .commit) state = some before) :
    before.cache.total config.currencyMosaicId + totalFee block = state.cache.total config.currencyMosaicId ∧
      (block.transactions.map (transactionFee block)).sum = totalFee block ∧
      ∀ mosaicId, before.cache.total mosaicId ≤ state.cache.total mosaicId := by
  have hsum := total_foldlM not_isBlock_of_mem_publishedBefore hbefore hfits.totals
  have hcurrency := hsum config.currencyMosaicId
  rw [sum_debited_publishedBefore] at hcurrency
  have hroom := hfits.currency
  have hfee := totalFee_eq hreserved (by omega)
  exact ⟨by omega, hfee.symm, fun mosaicId => Nat.le_of_add_right_le (hsum mosaicId).le⟩

theorem conserved_of_executeBlock
    (hpercentages : config.harvestBeneficiaryPercentage + config.harvestNetworkPercentage ≤ 100)
    (hreserved : block.reserved1 = 0) (hfits : Fits config block.height state.cache)
    (h : executeBlock config block state = some state') : Conserved config block state state' := by
  obtain ⟨before, hbefore, hblock⟩ := executeBlock_eq_some h
  obtain ⟨hmissing, hfees, -⟩ := totals_executeBlock hreserved hfits hbefore
  obtain ⟨cache', hfee, hstatistic⟩ := Option.bind_eq_some_iff.1 hblock
  obtain ⟨hcache, -⟩ := observeBlockStatistic_commit hstatistic
  have hroom := hfits.currency
  have hadd : add64 (totalFee block) (config.inflation.getSpotAmount block.height) =
      totalFee block + config.inflation.getSpotAmount block.height := add64_eq (by omega)
  obtain ⟨hle, hharvester⟩ := harvestAmounts_sum block.signer block.beneficiary hpercentages
    (show totalFee block + config.inflation.getSpotAmount block.height < 2 ^ 64 by omega)
  refine ⟨?_, hfees, ?_, ?_⟩
  · rw [hcache, (total_observeHarvestFee hpercentages hfee (by omega)).1]
    omega
  · rw [sum_feeShares, blockAmounts, hadd]
    omega
  · rw [blockAmounts, hadd]
    exact hle

/-- What a notification before the block notification leaves as it is. -/
structure SameStatistics (state' state : State Address MosaicId) : Prop where
  statistics : state'.statistics = state.statistics
  dynamicFeeMultiplier : state'.dynamicFeeMultiplier = state.dynamicFeeMultiplier
  queue : SameQueue state'.cache state.cache

theorem sameStatistics_observe {notification : Notification Address MosaicId} (hblock : ¬IsBlock notification)
    (h : observe config height .commit state notification = some state') : SameStatistics state' state := by
  cases notification with
  | custom notification =>
    cases notification with
    | accountAddress address =>
      cases h
      exact ⟨rfl, rfl, sameQueue_addAccount⟩
    | balanceTransfer =>
      obtain ⟨cache, htransfer, hstate⟩ := Option.bind_eq_some_iff.1 h
      cases hstate
      obtain ⟨debited, hdebit, hcredit⟩ := Option.bind_eq_some_iff.1 htransfer
      exact ⟨rfl, rfl, (sameQueue_credit hcredit).trans (sameQueue_debit hdebit)⟩
  | accountPublicKey address =>
    cases h
    exact ⟨rfl, rfl, sameQueue_addPublicKey⟩
  | balanceDebit =>
    obtain ⟨cache, hdebit, hstate⟩ := Option.bind_eq_some_iff.1 h
    cases hstate
    exact ⟨rfl, rfl, sameQueue_debit hdebit⟩
  | block => exact absurd trivial hblock

theorem sameStatistics_foldlM {l : List (Notification Address MosaicId)}
    (hblock : ∀ notification ∈ l, ¬IsBlock notification)
    (h : l.foldlM (observe config height .commit) state = some state') : SameStatistics state' state := by
  induction l generalizing state with
  | nil =>
    cases h
    exact ⟨rfl, rfl, rfl, rfl⟩
  | cons notification l ih =>
    rw [List.foldlM_cons, Option.bind_eq_bind] at h
    obtain ⟨state₁, hstep, htail⟩ := Option.bind_eq_some_iff.1 h
    have hfirst := sameStatistics_observe (hblock _ List.mem_cons_self) hstep
    have hrest := ih (fun n hn => hblock n (List.mem_cons_of_mem _ hn)) htail
    exact ⟨hrest.statistics.trans hfirst.statistics, hrest.dynamicFeeMultiplier.trans hfirst.dynamicFeeMultiplier,
      hrest.queue.trans hfirst.queue⟩

theorem sameQueue_applyFees {shares : List (Address × Nat)} {mosaicId : MosaicId}
    {cache cache' : AccountStateCache Address MosaicId}
    (h : shares.foldlM (applyFee mosaicId .commit) cache = some cache') : SameQueue cache' cache := by
  induction shares generalizing cache with
  | nil =>
    cases h
    exact ⟨rfl, rfl⟩
  | cons share shares ih =>
    rw [List.foldlM_cons, Option.bind_eq_bind] at h
    obtain ⟨cache₁, hstep, htail⟩ := Option.bind_eq_some_iff.1 h
    obtain ⟨target, -, hcredit⟩ := Option.bind_eq_some_iff.1 hstep
    exact (ih htail).trans (sameQueue_credit hcredit)

theorem restores_of_executeBlock
    (hpercentages : config.harvestBeneficiaryPercentage + config.harvestNetworkPercentage ≤ 100)
    (hreserved : block.reserved1 = 0) (hfits : Fits config block.height state.cache)
    (hprecedes : Precedes config block.height state) (h : executeBlock config block state = some state') :
    Restores config block state state' := by
  obtain ⟨before, hbefore, hblock⟩ := executeBlock_eq_some h
  obtain ⟨hmissing, -, -⟩ := totals_executeBlock hreserved hfits hbefore
  have hsame := sameStatistics_foldlM not_isBlock_of_mem_publishedBefore hbefore
  have hroom := hfits.currency
  -- nothing waits for removal when the rollback starts
  have hself : StateAgrees block.height state' state' := by
    obtain ⟨cache', hfee, hstatistic⟩ := Option.bind_eq_some_iff.1 hblock
    obtain ⟨hcache, -⟩ := observeBlockStatistic_commit hstatistic
    have hqueue := (sameQueue_applyFees hfee).trans hsame.queue
    refine ⟨⟨Extends.refl, fun _ _ => rfl, ?_⟩, rfl, rfl⟩
    rw [hcache]
    simp [hqueue.1, hqueue.2, hprecedes.queuedByAddress, hprecedes.queuedByPublicKey]
  obtain ⟨undone, hundone, hagrees⟩ := observeBlock_rollback hpercentages hblock (by omega)
    (by rw [hsame.statistics, hsame.dynamicFeeMultiplier]; exact hprecedes.statistics) hself
  have hundo : ∃ restored,
      (publishedBefore config block).reverse.foldlM (observe config block.height .rollback) undone = some restored ∧
       StateAgrees block.height restored state := by
    refine Undoes.foldlM_of_invariant (fun s => ∀ mosaicId, s.cache.total mosaicId < 2 ^ 64) ?_ ?_ hfits.totals hbefore
      hagrees
    · intro notification hmem s s' hs hstep mosaicId
      have hsum := total_observe (not_isBlock_of_mem_publishedBefore notification hmem) hstep hs mosaicId
      exact lt_of_le_of_lt (Nat.le_of_add_right_le hsum.le) (hs mosaicId)
    · intro notification hmem s s' hs hstep t' ht'
      exact observe_rollback (not_isBlock_of_mem_publishedBefore notification hmem) hstep hs ht'
  obtain ⟨restored, hrestored, hagrees⟩ := hundo
  have hremoved := hagrees.cache.commitRemovals fun a ha => (hprecedes.accounts a ha).ne
  refine ⟨{ restored with cache := restored.cache.commitRemovals }, ?_, hremoved.balance⟩
  unfold rollbackBlock
  rw [publishAll_eq, List.reverse_append, List.reverse_singleton, List.singleton_append, List.foldlM_cons, hundone]
  simp only [Option.bind_eq_bind, Option.bind_some, hrestored]
  rfl

/-- Currency is conserved by a block, and every balance is restored by its rollback. -/
theorem executeBlock_conserves (hconfig : validateConfiguration config = .ok ()) (hreserved : block.reserved1 = 0)
    (hfits : Fits config block.height state.cache) (h : executeBlock config block state = some state') :
    Conserved config block state state' ∧
      ((state.cache.total config.currencyMosaicId + config.inflation.getSpotAmount block.height) * 100 < 2 ^ 64 →
        ProductsFit config block) ∧
      (Precedes config block.height state → Restores config block state state') := by
  have hpercentages := percentages_of_valid hconfig
  refine ⟨conserved_of_executeBlock hpercentages hreserved hfits h, fun hroom => ?_,
    fun hprecedes => restores_of_executeBlock hpercentages hreserved hfits hprecedes h⟩
  obtain ⟨before, hbefore, -⟩ := executeBlock_eq_some h
  obtain ⟨hmissing, -, -⟩ := totals_executeBlock hreserved hfits hbefore
  have hproduct : ∀ percentage ≤ 100,
      (totalFee block + config.inflation.getSpotAmount block.height) * percentage < 2 ^ 64 := by
    intro percentage hle
    have hmul : (totalFee block + config.inflation.getSpotAmount block.height) * percentage ≤
        (state.cache.total config.currencyMosaicId + config.inflation.getSpotAmount block.height) * 100 :=
      Nat.mul_le_mul (by omega) hle
    omega
  exact ⟨hproduct _ (by omega), hproduct _ (by omega)⟩

def sampleState : State Nat Nat :=
  { cache :=
      { addresses := {0, 1}
        accounts := fun _ => { addressHeight := 1, balances := fun _ => 1000 } }
    statistics := [(1, 0)]
    dynamicFeeMultiplier := calculateDynamicFeeMultiplier [(1, 0)] 3 0 }

def sampleConfig : Configuration Nat Nat where
  currencyMosaicId := 0
  importanceGrouping := 10
  maxRollbackBlocks := 5
  votingSetGrouping := 20
  importanceActivityPercentage := 5
  harvestBeneficiaryPercentage := 25
  harvestNetworkPercentage := 5
  harvestNetworkFeeSinkAddress := { defaultAddress := 1, addresses := [] }
  initialCurrencyAtomicUnits := 2000
  maxMosaicAtomicUnits := 9000
  maxDifficultyBlocks := 3
  defaultDynamicFeeMultiplier := 0
  feeDebitAppliedLastForkHeight := 1
  inflation := ⟨[(2, 7), (4, 0)], by decide, by decide, by decide⟩

def sampleBlock : Block Nat Nat where
  signer := 0
  height := 2
  feeMultiplier := 2
  beneficiary := 1
  transactions := [{ signer := 0, size := 150, maxFee := 400, notifications := [.balanceTransfer 0 1 0 10 .static] }]

theorem executeBlock_conserves_sample : ∃ state', executeBlock sampleConfig sampleBlock sampleState = some state' ∧
    Conserved sampleConfig sampleBlock sampleState state' ∧ ProductsFit sampleConfig sampleBlock ∧
    Restores sampleConfig sampleBlock sampleState state' := by
  obtain ⟨state', h⟩ := Option.isSome_iff_exists.1
    (show (executeBlock sampleConfig sampleBlock sampleState).isSome by decide +kernel)
  have hfits : Fits sampleConfig sampleBlock.height sampleState.cache :=
    ⟨by decide +kernel, fun mosaicId => by
      rw [show sampleState.cache.total mosaicId = sampleState.cache.total 0 from rfl]
      decide +kernel⟩
  have hprecedes : Precedes sampleConfig sampleBlock.height sampleState :=
    ⟨fun address _ => by show 1 < 2; decide, rfl, rfl, rfl⟩
  obtain ⟨hconserved, hproducts, hrestores⟩ := executeBlock_conserves (by decide +kernel) rfl hfits h
  exact ⟨state', h, hconserved, hproducts (by decide +kernel), hrestores hprecedes⟩

def wideConfig : Configuration Nat Nat :=
  { sampleConfig with
    maxMosaicAtomicUnits := 2 ^ 64 - 1
    inflation := ⟨[(2, 2 ^ 62), (3, 0)], by decide, by decide, by decide⟩ }

def overfullState : State Nat Nat :=
  { sampleState with
    cache :=
      { addresses := {0, 1}
        accounts := fun address =>
          { addressHeight := 1, balances := fun _ => if address = 1 then 2 ^ 64 - 1 else 1000 } } }

def sameHeightState : State Nat Nat :=
  { sampleState with
    cache :=
      { addresses := {0, 1}
        accounts := fun _ => { addressHeight := 2, balances := fun _ => 1000 } } }

/-- In a configuration that is admitted, a percentage product wraps around, a credit does, and a rollback removes
accounts that it finds to be new. -/
theorem not_executeBlock_conserves :
    (validateConfiguration wideConfig = .ok () ∧ (executeBlock wideConfig sampleBlock sampleState).isSome ∧
      ¬ProductsFit wideConfig sampleBlock) ∧
    (validateConfiguration sampleConfig = .ok () ∧
      (∃ state', executeBlock sampleConfig sampleBlock overfullState = some state' ∧
        ¬Conserved sampleConfig sampleBlock overfullState state') ∧
      ∃ state', executeBlock sampleConfig sampleBlock sameHeightState = some state' ∧
        ¬Restores sampleConfig sampleBlock sameHeightState state') := by
  refine ⟨⟨by decide +kernel, by decide +kernel, fun hproducts => ?_⟩, by decide +kernel, ?_, ?_⟩
  · exact absurd hproducts.1 (by decide +kernel)
  · obtain ⟨state', h⟩ := Option.isSome_iff_exists.1
      (show (executeBlock sampleConfig sampleBlock overfullState).isSome by decide +kernel)
    refine ⟨state', h, fun hconserved => ?_⟩
    have hsum : (executeBlock sampleConfig sampleBlock overfullState).map (·.cache.total 0) ≠
        some (overfullState.cache.total 0 + sampleConfig.inflation.getSpotAmount 2) := by decide +kernel
    rw [h] at hsum
    exact hsum (congrArg some hconserved.sum)
  · obtain ⟨state', h⟩ := Option.isSome_iff_exists.1
      (show (executeBlock sampleConfig sampleBlock sameHeightState).isSome by decide +kernel)
    refine ⟨state', h, fun ⟨restored, hrestored, hbalance⟩ => ?_⟩
    have hlost : ((executeBlock sampleConfig sampleBlock sameHeightState).bind
        (rollbackBlock sampleConfig sampleBlock)).map (·.cache.balance 0 0) ≠
        some (sameHeightState.cache.balance 0 0) := by decide +kernel
    rw [h, Option.bind_some, hrestored] at hlost
    exact hlost (congrArg some (hbalance 0 0))

def executeChain (config : Configuration Address MosaicId) (blocks : List (Block Address MosaicId))
    (state : State Address MosaicId) : Option (State Address MosaicId) :=
  blocks.foldlM (fun state block => executeBlock config block state) state

theorem totals_le_of_executeBlock
    (hpercentages : config.harvestBeneficiaryPercentage + config.harvestNetworkPercentage ≤ 100)
    (hreserved : block.reserved1 = 0) (hfits : Fits config block.height state.cache)
    (h : executeBlock config block state = some state') {mosaicId : MosaicId}
    (hne : mosaicId ≠ config.currencyMosaicId) : state'.cache.total mosaicId ≤ state.cache.total mosaicId := by
  obtain ⟨before, hbefore, hblock⟩ := executeBlock_eq_some h
  obtain ⟨hmissing, -, hothers⟩ := totals_executeBlock hreserved hfits hbefore
  obtain ⟨cache', hfee, hstatistic⟩ := Option.bind_eq_some_iff.1 hblock
  obtain ⟨hcache, -⟩ := observeBlockStatistic_commit hstatistic
  have hroom := hfits.currency
  rw [hcache, (total_observeHarvestFee hpercentages hfee (by omega)).2 mosaicId hne]
  exact hothers mosaicId

/-- Whatever blocks of transfers and fees are executed one after another, the currency is the initial one together with
the inflation of their heights, and never exceeds the largest amount of a mosaic. -/
theorem total_executeChain {blocks : List (Block Address MosaicId)} (hconfig : validateConfiguration config = .ok ())
    (hreserved : ∀ block ∈ blocks, block.reserved1 = 0)
    (hheights : blocks.map Block.height = List.range' (height + 1) blocks.length)
    (htotals : ∀ mosaicId, state.cache.total mosaicId < 2 ^ 64)
    (hcurrency : state.cache.total config.currencyMosaicId =
      config.initialCurrencyAtomicUnits + config.inflation.upTo height)
    (h : executeChain config blocks state = some state') :
    state'.cache.total config.currencyMosaicId =
        config.initialCurrencyAtomicUnits + config.inflation.upTo (height + blocks.length) ∧
      state'.cache.total config.currencyMosaicId ≤ config.maxMosaicAtomicUnits := by
  have hpercentages := percentages_of_valid hconfig
  induction blocks generalizing height state with
  | nil =>
    cases h
    exact ⟨hcurrency, hcurrency ▸ (currency_of_valid hconfig height).2⟩
  | cons block blocks ih =>
    obtain ⟨state₁, hblock, htail⟩ := Option.bind_eq_some_iff.1 h
    rw [List.map_cons, List.length_cons, List.range'_succ] at hheights
    obtain ⟨hheight, hheights⟩ := List.cons.inj hheights
    have hnext : config.inflation.upTo height + config.inflation.getSpotAmount block.height =
        config.inflation.upTo (height + 1) := by
      rw [hheight]
      exact (Finset.sum_range_succ _ _).symm
    have hroom := currency_of_valid hconfig (height + 1)
    have hfits : Fits config block.height state.cache := ⟨by omega, htotals⟩
    have hsum := (conserved_of_executeBlock hpercentages (hreserved block List.mem_cons_self) hfits hblock).sum
    have hsum₁ : state₁.cache.total config.currencyMosaicId =
        config.initialCurrencyAtomicUnits + config.inflation.upTo (height + 1) := by omega
    have htotals₁ : ∀ mosaicId, state₁.cache.total mosaicId < 2 ^ 64 := by
      intro mosaicId
      by_cases hmosaic : mosaicId = config.currencyMosaicId
      · rw [hmosaic, hsum₁]
        exact hroom.1
      · exact lt_of_le_of_lt
          (totals_le_of_executeBlock hpercentages (hreserved block List.mem_cons_self) hfits hblock hmosaic)
          (htotals mosaicId)
    have hrest := ih (fun b hb => hreserved b (List.mem_cons_of_mem _ hb)) hheights htotals₁ hsum₁ htail
    rwa [Nat.add_assoc, Nat.add_comm 1, ← List.length_cons (a := block)] at hrest

theorem total_executeChain_sample : ∃ state', executeChain sampleConfig [sampleBlock] sampleState = some state' ∧
    state'.cache.total 0 = 2007 ∧ state'.cache.total 0 ≤ sampleConfig.maxMosaicAtomicUnits := by
  obtain ⟨state', h⟩ := Option.isSome_iff_exists.1
    (show (executeChain sampleConfig [sampleBlock] sampleState).isSome by decide +kernel)
  have htotals : ∀ mosaicId, sampleState.cache.total mosaicId < 2 ^ 64 := fun mosaicId => by
    rw [show sampleState.cache.total mosaicId = sampleState.cache.total 0 from rfl]
    decide +kernel
  have hreserved : ∀ block ∈ [sampleBlock], block.reserved1 = 0 :=
    fun _ hblock => by rw [List.mem_singleton.1 hblock]; rfl
  exact ⟨state', h, total_executeChain (by decide +kernel) hreserved rfl htotals (by decide +kernel) h⟩

end Catapult.Currency
