import Catapult.Currency.Totals

/-!
# Rolling a block back

Each observer is undone by itself in the other mode, where the sums of balances fit. The fees of a block notification
are taken back in the order in which they were given, so they are compared by what each account received.
-/

namespace Catapult.Currency
open AccountStateCache
open Catapult.Chain (add64 sub64 add64_eq sub64_eq)

variable {Address MosaicId : Type} [DecidableEq Address] [DecidableEq MosaicId]
  {config : Configuration Address MosaicId} {block : Block Address MosaicId} {height : Nat}
  {state state' restored : State Address MosaicId} {cache cache' undone : AccountStateCache Address MosaicId}
  {address other : Address} {mosaicId mosaic : MosaicId} {amount : Nat}

theorem agrees_setBalance (hmem : address ∈ cache.addresses)
    (h : Agrees height undone (cache.setBalance address mosaicId amount)) :
    Agrees height (undone.setBalance address mosaicId (cache.balance address mosaicId)) cache := by
  have hundone : address ∈ undone.addresses := h.addresses hmem
  refine ⟨extends_setBalance.1.trans (h.toExtends.trans extends_setBalance.1), fun a m => ?_, h.queued⟩
  rw [balance_setBalance hundone]
  split
  · rename_i hsame
    rw [hsame.1, hsame.2]
  · rename_i hother
    rw [h.balance, balance_setBalance hmem, if_neg hother]

theorem credit_of_debit (h : cache.debit address mosaicId amount = some cache')
    (hfits : cache.total mosaicId < 2 ^ 64) (hundone : Agrees height undone cache') :
    ∃ cache'', undone.credit address mosaicId amount = some cache'' ∧ Agrees height cache'' cache := by
  obtain ⟨hmem, hle, rfl⟩ := debit_eq_some.1 h
  refine ⟨_, credit_eq_some.2 ⟨hundone.addresses hmem, rfl⟩, ?_⟩
  have hbalance : cache.balance address mosaicId ≤ cache.total mosaicId := balance_le_total
  rw [hundone.balance, balance_setBalance hmem, if_pos ⟨rfl, rfl⟩, Nat.sub_add_cancel hle,
    Nat.mod_eq_of_lt (by omega)]
  exact agrees_setBalance hmem hundone

theorem debit_of_credit (h : cache.credit address mosaicId amount = some cache')
    (hfits : cache.total mosaicId + amount < 2 ^ 64) (hundone : Agrees height undone cache') :
    ∃ cache'', undone.debit address mosaicId amount = some cache'' ∧ Agrees height cache'' cache := by
  obtain ⟨hmem, rfl⟩ := credit_eq_some.1 h
  have hbalance : cache.balance address mosaicId ≤ cache.total mosaicId := balance_le_total
  have hundoneBalance : undone.balance address mosaicId = cache.balance address mosaicId + amount := by
    rw [hundone.balance, balance_setBalance hmem, if_pos ⟨rfl, rfl⟩, Nat.mod_eq_of_lt (by omega)]
  refine ⟨_, debit_eq_some.2 ⟨hundone.addresses hmem, by omega, rfl⟩, ?_⟩
  rw [hundoneBalance, Nat.add_sub_cancel]
  exact agrees_setBalance hmem hundone

theorem transfer_of_transfer (h : transfer cache address other mosaicId amount = some cache')
    (hfits : cache.total mosaicId < 2 ^ 64) (hundone : Agrees height undone cache') :
    ∃ cache'', transfer undone other address mosaicId amount = some cache'' ∧ Agrees height cache'' cache := by
  obtain ⟨debited, hdebit, hcredit⟩ := Option.bind_eq_some_iff.1 h
  have hsum := total_debit hdebit
  obtain ⟨undone₁, hundone₁, hagrees₁⟩ := debit_of_credit hcredit (by omega) hundone
  obtain ⟨undone₂, hundone₂, hagrees₂⟩ := credit_of_debit hdebit hfits hagrees₁
  exact ⟨undone₂, Option.bind_eq_some_iff.2 ⟨undone₁, hundone₁, hundone₂⟩, hagrees₂⟩

def received (cache : AccountStateCache Address MosaicId) (shares : List (Address × Nat)) (address : Address) : Nat :=
  ((shares.filter fun share => cache.forwarded share.1 = some address).map Prod.snd).sum

section
omit [DecidableEq MosaicId]

theorem received_cons {share : Address × Nat} {shares : List (Address × Nat)}
    (h : cache.forwarded share.1 = some other) :
    received cache (share :: shares) address =
      (if address = other then share.2 else 0) + received cache shares address := by
  unfold received
  by_cases haddress : address = other
  · subst haddress
    simp [h]
  · simp [h, haddress, Ne.symm haddress]

theorem forwarded_eq (h : Extends cache cache') (h' : Extends cache' cache) :
    cache.forwarded address = cache'.forwarded address :=
  Option.ext fun _ => ⟨forwarded_of_extends h', forwarded_of_extends h⟩

theorem received_eq {shares : List (Address × Nat)}
    (h : ∀ share ∈ shares, cache.forwarded share.1 = cache'.forwarded share.1) :
    received cache shares address = received cache' shares address := by
  unfold received
  rw [List.filter_congr fun share hmem => by rw [h share hmem]]

end

theorem balance_applyFees {shares : List (Address × Nat)}
    (h : shares.foldlM (applyFee mosaicId .commit) cache = some cache')
    (hfits : cache.total mosaicId + (shares.map Prod.snd).sum < 2 ^ 64) :
    (∀ share ∈ shares, ∃ target, cache.forwarded share.1 = some target) ∧ Extends cache' cache ∧
      ∀ address mosaic, cache'.balance address mosaic =
        cache.balance address mosaic + if mosaic = mosaicId then received cache shares address else 0 := by
  induction shares generalizing cache with
  | nil =>
    cases h
    exact ⟨fun share hmem => absurd hmem List.not_mem_nil, Extends.refl, fun address mosaic => by simp [received]⟩
  | cons share shares ih =>
    rw [List.foldlM_cons, Option.bind_eq_bind] at h
    obtain ⟨cache₁, hstep, htail⟩ := Option.bind_eq_some_iff.1 h
    obtain ⟨target, htarget, hcredit⟩ := Option.bind_eq_some_iff.1 hstep
    rw [List.map_cons, List.sum_cons] at hfits
    have hsum := total_credit hcredit (by omega)
    obtain ⟨hmem, rfl⟩ := credit_eq_some.1 hcredit
    have hle : cache.balance target mosaicId ≤ cache.total mosaicId := balance_le_total
    have hsame : ∀ a, (cache.setBalance target mosaicId
        ((cache.balance target mosaicId + share.2) % 2 ^ 64)).forwarded a = cache.forwarded a :=
      fun a => forwarded_eq extends_setBalance.1 extends_setBalance.2
    obtain ⟨hforwarded, hextends, hbalance⟩ := ih htail (by omega)
    refine ⟨fun s hs => ?_, hextends.trans extends_setBalance.1, fun a m => ?_⟩
    · rcases List.mem_cons.1 hs with rfl | hs
      · exact ⟨target, htarget⟩
      · exact hsame s.1 ▸ hforwarded s hs
    · rw [hbalance, received_eq fun s _ => hsame s.1, received_cons htarget, balance_setBalance hmem,
        Nat.mod_eq_of_lt (by omega)]
      by_cases hm : m = mosaicId <;> by_cases ha : a = target <;> simp [hm, ha, Nat.add_assoc]

theorem applyFees_rollback {shares : List (Address × Nat)}
    (hforwarded : ∀ share ∈ shares, ∃ target, cache.forwarded share.1 = some target)
    (hreceived : ∀ address, received cache shares address ≤ cache.balance address mosaicId) :
    ∃ cache', shares.foldlM (applyFee mosaicId .rollback) cache = some cache' ∧ Extends cache' cache ∧
      cache'.queuedRemoveByAddress = cache.queuedRemoveByAddress ∧
      cache'.queuedRemoveByPublicKey = cache.queuedRemoveByPublicKey ∧
      ∀ address mosaic, cache'.balance address mosaic +
        (if mosaic = mosaicId then received cache shares address else 0) = cache.balance address mosaic := by
  induction shares generalizing cache with
  | nil => exact ⟨cache, rfl, Extends.refl, rfl, rfl, fun address mosaic => by simp [received]⟩
  | cons share shares ih =>
    obtain ⟨target, htarget⟩ := hforwarded share List.mem_cons_self
    have hmem := mem_of_forwarded htarget
    have hroom := hreceived target
    rw [received_cons htarget, if_pos rfl] at hroom
    let debited := cache.setBalance target mosaicId (cache.balance target mosaicId - share.2)
    have hdebit : cache.debit target mosaicId share.2 = some debited := debit_eq_some.2 ⟨hmem, by omega, rfl⟩
    have hsame : ∀ a, debited.forwarded a = cache.forwarded a :=
      fun a => forwarded_eq extends_setBalance.1 extends_setBalance.2
    have hrest : ∀ a, received debited shares a = received cache shares a := fun a => received_eq fun s _ => hsame s.1
    have hdebited : ∀ a m, debited.balance a m = if a = target ∧ m = mosaicId then
        cache.balance target mosaicId - share.2 else cache.balance a m := fun a m => balance_setBalance hmem
    obtain ⟨cache', hfold, hextends, hqueue, hqueueKey, hbalance⟩ := ih
      (fun s hs => (hsame s.1).symm ▸ hforwarded s (List.mem_cons_of_mem _ hs)) (fun a => by
        have hroomAt := hreceived a
        rw [received_cons htarget] at hroomAt
        rw [hrest, hdebited]
        by_cases ha : a = target
        · subst ha
          rw [if_pos ⟨rfl, rfl⟩]
          omega
        · rw [if_neg fun hab => ha hab.1]
          omega)
    refine ⟨cache', ?_, hextends.trans extends_setBalance.1, hqueue, hqueueKey, fun a m => ?_⟩
    · rw [List.foldlM_cons, applyFee, htarget]
      simp only [Option.bind_eq_bind, Option.bind_some, hdebit, hfold]
    · have hat := hbalance a m
      rw [hrest, hdebited] at hat
      rw [received_cons htarget]
      by_cases hm : m = mosaicId
      · subst hm
        by_cases ha : a = target
        · subst ha
          simp only [and_self, if_true] at hat ⊢
          omega
        · simp only [ha, false_and, if_false, if_true] at hat ⊢
          omega
      · simp only [hm, and_false, if_false] at hat ⊢
        omega

theorem observeHarvestFee_rollback {harvester beneficiary : Address} {fee : Nat}
    (hpercentages : config.harvestBeneficiaryPercentage + config.harvestNetworkPercentage ≤ 100)
    (h : observeHarvestFee config height .commit cache harvester beneficiary fee = some cache')
    (hfits : cache.total config.currencyMosaicId + (fee + config.inflation.getSpotAmount height) < 2 ^ 64)
    (hundone : Agrees height undone cache') :
    ∃ cache'', observeHarvestFee config height .rollback undone harvester beneficiary fee = some cache'' ∧
      Agrees height cache'' cache := by
  have hadd : add64 fee (config.inflation.getSpotAmount height) = fee + config.inflation.getSpotAmount height :=
    add64_eq (by omega)
  dsimp only [observeHarvestFee] at h ⊢
  rw [hadd] at h ⊢
  generalize hshares : feeShares config height harvester beneficiary (harvestAmounts config harvester beneficiary
    (fee + config.inflation.getSpotAmount height)) = shares at h ⊢
  have hsum : (shares.map Prod.snd).sum = fee + config.inflation.getSpotAmount height := by
    obtain ⟨hle, hharvester⟩ := harvestAmounts_sum harvester beneficiary hpercentages
      (show fee + config.inflation.getSpotAmount height < 2 ^ 64 by omega)
    rw [← hshares, sum_feeShares]
    omega
  obtain ⟨hforwarded, hextends, hbalance⟩ := balance_applyFees h (by omega)
  -- the accounts are forwarded to the same ones as before
  have hlinks : ∀ share ∈ shares, undone.forwarded share.1 = cache.forwarded share.1 := by
    intro share hmem
    obtain ⟨target, htarget⟩ := hforwarded share hmem
    rw [htarget]
    exact forwarded_of_extends (hundone.toExtends.trans hextends) htarget
  have hreceived : ∀ a, received undone shares a = received cache shares a := fun a => received_eq hlinks
  obtain ⟨cache'', hfold, hextends'', hqueue, hqueueKey, hbalance''⟩ := applyFees_rollback
    (fun share hmem => hlinks share hmem ▸ hforwarded share hmem) (fun a => by
      rw [hreceived, hundone.balance, hbalance, if_pos rfl]
      exact Nat.le_add_left _ _)
  refine ⟨cache'', hfold, ⟨hextends''.trans (hundone.toExtends.trans hextends), fun a m => ?_, ?_⟩⟩
  · have hat := hbalance'' a m
    rw [hundone.balance, hbalance, hreceived] at hat
    exact Nat.add_right_cancel hat
  · rw [hqueue, hqueueKey]
    exact hundone.queued

/-- A state that is rolled back agrees with one of the execution. -/
structure StateAgrees (height : Nat) (restored state : State Address MosaicId) : Prop where
  cache : Agrees height restored.cache state.cache
  statistics : restored.statistics = state.statistics
  dynamicFeeMultiplier : restored.dynamicFeeMultiplier = state.dynamicFeeMultiplier

omit [DecidableEq MosaicId] in
theorem agrees_addAccount (h : Agrees height undone (cache.addAccount address height)) :
    Agrees height (undone.queueRemove address height) cache := by
  refine ⟨⟨extends_addAccount.addresses.trans h.addresses, ?_⟩, fun a m => (h.balance a m).trans balance_addAccount, ?_⟩
  · exact (h.toExtends.trans extends_addAccount).accounts
  · rintro queued hmem
    rcases List.mem_cons.1 hmem with rfl | hmem
    · rfl
    · exact h.queued queued hmem

omit [DecidableEq MosaicId] in
theorem agrees_addPublicKey (h : Agrees height undone (cache.addPublicKey address height)) :
    Agrees height (undone.queueRemovePublicKey address height) cache := by
  refine ⟨⟨extends_addPublicKey.addresses.trans h.addresses, ?_⟩,
    fun a m => (h.balance a m).trans balance_addPublicKey, ?_⟩
  · exact (h.toExtends.trans extends_addPublicKey).accounts
  · rintro queued hmem
    rcases List.mem_append.1 hmem with hmem | hmem
    · exact h.queued queued (List.mem_append_left _ hmem)
    · rcases List.mem_cons.1 hmem with rfl | hmem
      · rfl
      · exact h.queued queued (List.mem_append_right _ hmem)

theorem observe_rollback {notification : Notification Address MosaicId} (hblock : ¬IsBlock notification)
    (h : observe config height .commit state notification = some state')
    (hfits : ∀ mosaic, state.cache.total mosaic < 2 ^ 64) (hrestored : StateAgrees height restored state') :
    ∃ restored', observe config height .rollback restored notification = some restored' ∧
      StateAgrees height restored' state := by
  cases notification with
  | custom notification =>
    cases notification with
    | accountAddress address =>
      cases h
      exact ⟨_, rfl, agrees_addAccount hrestored.cache, hrestored.statistics, hrestored.dynamicFeeMultiplier⟩
    | balanceTransfer sender recipient mosaicId amount amountType =>
      obtain ⟨cache', htransfer, hstate⟩ := Option.bind_eq_some_iff.1 h
      cases hstate
      obtain ⟨cache'', hundo, hagrees⟩ := transfer_of_transfer htransfer (hfits mosaicId) hrestored.cache
      refine ⟨{ restored with cache := cache'' }, ?_, hagrees, hrestored.statistics, hrestored.dynamicFeeMultiplier⟩
      refine Option.bind_eq_some_iff.2 ⟨cache'', ?_, rfl⟩
      rw [hrestored.dynamicFeeMultiplier]
      exact hundo
  | accountPublicKey address =>
    cases h
    exact ⟨_, rfl, agrees_addPublicKey hrestored.cache, hrestored.statistics, hrestored.dynamicFeeMultiplier⟩
  | balanceDebit sender mosaicId amount =>
    obtain ⟨cache', hdebit, hstate⟩ := Option.bind_eq_some_iff.1 h
    cases hstate
    obtain ⟨cache'', hundo, hagrees⟩ := credit_of_debit hdebit (hfits mosaicId) hrestored.cache
    refine ⟨{ restored with cache := cache'' }, ?_, hagrees, hrestored.statistics, hrestored.dynamicFeeMultiplier⟩
    exact Option.bind_eq_some_iff.2 ⟨cache'', hundo, rfl⟩
  | block => exact absurd trivial hblock

omit [DecidableEq Address] [DecidableEq MosaicId] in
theorem observeBlockStatistic_commit {feeMultiplier : Nat}
    (h : observeBlockStatistic config height feeMultiplier .commit state = some state') :
    state'.cache = state.cache ∧ state'.statistics = (height, feeMultiplier) :: state.statistics ∧
      recalculate config state'.statistics = some state'.dynamicFeeMultiplier := by
  obtain ⟨statistics, hinsert, h⟩ := Option.bind_eq_some_iff.1 h
  obtain ⟨dynamicFeeMultiplier, hrecalculate, h⟩ := Option.bind_eq_some_iff.1 h
  cases h
  refine ⟨rfl, ?_, hrecalculate⟩
  unfold insertStatistic at hinsert
  split at hinsert
  · rename_i hempty
    cases hinsert
    rw [hempty]
  · split at hinsert
    · cases hinsert
      rfl
    · cases hinsert

theorem observeBlock_rollback {harvester beneficiary : Address} {feeMultiplier fee : Nat}
    (hpercentages : config.harvestBeneficiaryPercentage + config.harvestNetworkPercentage ≤ 100)
    (h : observe config height .commit state (.block harvester beneficiary feeMultiplier fee) = some state')
    (hfits : state.cache.total config.currencyMosaicId + (fee + config.inflation.getSpotAmount height) < 2 ^ 64)
    (hstatistics : recalculate config state.statistics = some state.dynamicFeeMultiplier)
    (hrestored : StateAgrees height restored state') :
    ∃ restored', observe config height .rollback restored (.block harvester beneficiary feeMultiplier fee) =
        some restored' ∧ StateAgrees height restored' state := by
  obtain ⟨cache', hfee, hstatistic⟩ := Option.bind_eq_some_iff.1 h
  obtain ⟨hcache, hinserted, -⟩ := observeBlockStatistic_commit hstatistic
  have hagrees : Agrees height restored.cache cache' := by
    have := hrestored.cache
    rwa [hcache] at this
  obtain ⟨cache'', hundo, hagrees''⟩ := observeHarvestFee_rollback hpercentages hfee hfits hagrees
  refine ⟨{ cache := cache'', statistics := state.statistics, dynamicFeeMultiplier := state.dynamicFeeMultiplier }, ?_,
    hagrees'', rfl, rfl⟩
  -- the statistic is removed first, and the multiplier is that of the statistics before
  have hremove : observeBlockStatistic config height feeMultiplier .rollback restored =
      some { restored with statistics := state.statistics, dynamicFeeMultiplier := state.dynamicFeeMultiplier } := by
    unfold observeBlockStatistic
    rw [hrestored.statistics, hinserted]
    simp only [removeStatistic, if_true, Option.bind_eq_bind, Option.bind_some]
    rw [hstatistics]
    rfl
  refine Option.bind_eq_some_iff.2 ⟨_, hremove, ?_⟩
  exact Option.bind_eq_some_iff.2 ⟨cache'', hundo, rfl⟩

end Catapult.Currency
