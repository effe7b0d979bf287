import Catapult.Currency.BlockObservers

/-!
# What a block does to the sums of balances

Transfers keep the sum of every mosaic, a fee is taken out of it, and the harvest fees are what was taken out and the
inflation. The sums bound every balance, so nothing wraps around as long as they fit.
-/

namespace Catapult.Currency
open AccountStateCache
open Catapult.Chain (add64 sub64 add64_eq sub64_eq)

variable {Address MosaicId : Type} [DecidableEq Address] [DecidableEq MosaicId]
  {config : Configuration Address MosaicId} {block : Block Address MosaicId} {height : Nat}
  {state state' : State Address MosaicId} {cache cache' : AccountStateCache Address MosaicId}
  {address other : Address} {mosaicId mosaic : MosaicId} {amount : Nat}

theorem total_transfer (h : transfer cache address other mosaicId amount = some cache')
    (hfits : ∀ mosaic, cache.total mosaic < 2 ^ 64) : cache'.total mosaic = cache.total mosaic := by
  obtain ⟨debited, hdebit, hcredit⟩ := Option.bind_eq_some_iff.1 h
  by_cases hmosaic : mosaic = mosaicId
  · subst hmosaic
    have hsum := total_debit hdebit
    rw [total_credit hcredit (by rw [hsum]; exact hfits mosaic), hsum]
  · rw [total_credit_of_ne hcredit hmosaic, total_debit_of_ne hdebit hmosaic]

def debited (mosaicId : MosaicId) : Notification Address MosaicId → Nat
  | .balanceDebit _ mosaic amount => if mosaic = mosaicId then amount else 0
  | _ => 0

def IsBlock : Notification Address MosaicId → Prop
  | .block .. => True
  | _ => False

omit [DecidableEq MosaicId] in
theorem total_observeAccountAddress :
    (observeAccountAddress height .commit cache address).total mosaic = cache.total mosaic :=
  total_eq_of_balance extends_addAccount.addresses fun _ => balance_addAccount

omit [DecidableEq MosaicId] in
theorem total_observeAccountPublicKey :
    (observeAccountPublicKey height .commit cache address).total mosaic = cache.total mosaic :=
  total_eq_of_balance extends_addPublicKey.addresses fun _ => balance_addPublicKey

theorem total_observe {notification : Notification Address MosaicId} (hblock : ¬IsBlock notification)
    (h : observe config height .commit state notification = some state')
    (hfits : ∀ mosaic, state.cache.total mosaic < 2 ^ 64) (mosaic : MosaicId) :
    state'.cache.total mosaic + debited mosaic notification = state.cache.total mosaic := by
  cases notification with
  | custom notification =>
    cases notification with
    | accountAddress address =>
      cases h
      exact total_observeAccountAddress
    | balanceTransfer sender recipient mosaicId amount amountType =>
      obtain ⟨cache, htransfer, hstate⟩ := Option.bind_eq_some_iff.1 h
      cases hstate
      exact total_transfer htransfer hfits
  | accountPublicKey address =>
    cases h
    exact total_observeAccountPublicKey
  | balanceDebit sender mosaicId amount =>
    obtain ⟨cache, hdebit, hstate⟩ := Option.bind_eq_some_iff.1 h
    cases hstate
    show cache.total mosaic + (if mosaicId = mosaic then amount else 0) = _
    split
    · rename_i hmosaic
      subst hmosaic
      exact total_debit hdebit
    · rename_i hmosaic
      exact total_debit_of_ne hdebit (Ne.symm hmosaic)
  | block => exact absurd trivial hblock

theorem total_foldlM {l : List (Notification Address MosaicId)} (hblock : ∀ notification ∈ l, ¬IsBlock notification)
    (h : l.foldlM (observe config height .commit) state = some state')
    (hfits : ∀ mosaic, state.cache.total mosaic < 2 ^ 64) (mosaic : MosaicId) :
    state'.cache.total mosaic + (l.map (debited mosaic)).sum = state.cache.total mosaic := by
  induction l generalizing state with
  | nil =>
    cases h
    rfl
  | cons notification l ih =>
    rw [List.foldlM_cons, Option.bind_eq_bind] at h
    obtain ⟨state₁, hstep, htail⟩ := Option.bind_eq_some_iff.1 h
    have hfirst : ∀ mosaic, state₁.cache.total mosaic + debited mosaic notification = state.cache.total mosaic :=
      total_observe (hblock _ List.mem_cons_self) hstep hfits
    have hrest := ih (fun n hn => hblock n (List.mem_cons_of_mem _ hn)) htail
      (fun mosaic => lt_of_le_of_lt (Nat.le_of_add_right_le (hfirst mosaic).le) (hfits mosaic))
    have hfirst := hfirst mosaic
    rw [List.map_cons, List.sum_cons]
    omega

omit [DecidableEq Address] [DecidableEq MosaicId] in
theorem not_isBlock_of_mem_publishTransaction {transaction : Transaction Address MosaicId} :
    ∀ notification ∈ publishTransaction config block transaction, ¬IsBlock notification := by
  have hcustom : ∀ l : List (CustomNotification Address MosaicId),
      ∀ notification ∈ l.map Notification.custom, ¬IsBlock notification := by
    intro l notification hmem hblock
    obtain ⟨custom, -, rfl⟩ := List.mem_map.1 hmem
    exact hblock
  intro notification hmem
  dsimp only [publishTransaction] at hmem
  rcases List.mem_cons.1 hmem with rfl | hmem
  · exact id
  · split at hmem
    · rcases List.mem_append.1 hmem with hmem | hmem
      · exact hcustom _ _ hmem
      · rw [List.mem_singleton.1 hmem]
        exact id
    · rcases List.mem_cons.1 hmem with rfl | hmem
      · exact id
      · exact hcustom _ _ hmem

omit [DecidableEq Address] in
theorem sum_debited_publishTransaction {transaction : Transaction Address MosaicId} :
    ((publishTransaction config block transaction).map (debited config.currencyMosaicId)).sum =
      transactionFee block transaction := by
  have hcustom : ∀ l : List (CustomNotification Address MosaicId),
      ((l.map Notification.custom).map (debited config.currencyMosaicId)).sum = 0 := by
    intro l
    induction l with
    | nil => rfl
    | cons custom l ih =>
      rw [List.map_cons, List.map_cons, List.sum_cons, ih]
      rfl
  dsimp only [publishTransaction]
  rw [List.map_cons, List.sum_cons]
  split
  · rw [List.map_append, List.sum_append, hcustom]
    simp [debited]
  · rw [List.map_cons, List.sum_cons, hcustom]
    simp [debited]

def publishedBefore (config : Configuration Address MosaicId) (block : Block Address MosaicId) :
    List (Notification Address MosaicId) :=
  block.transactions.flatMap (publishTransaction config block) ++
    .accountPublicKey block.signer ::
      if block.signer ≠ block.beneficiary then [.custom (.accountAddress block.beneficiary)] else []

omit [DecidableEq MosaicId] in
theorem publishAll_eq : publishAll config block = publishedBefore config block ++
    [.block block.signer block.beneficiary block.feeMultiplier (totalFee block)] := by
  unfold publishAll publishedBefore publishBlock
  rw [List.append_assoc, List.cons_append]

omit [DecidableEq MosaicId] in
theorem not_isBlock_of_mem_publishedBefore :
    ∀ notification ∈ publishedBefore config block, ¬IsBlock notification := by
  intro notification hmem
  rcases List.mem_append.1 hmem with hmem | hmem
  · obtain ⟨transaction, -, hmem⟩ := List.mem_flatMap.1 hmem
    exact not_isBlock_of_mem_publishTransaction notification hmem
  · rcases List.mem_cons.1 hmem with rfl | hmem
    · exact id
    · split at hmem
      · rw [List.mem_singleton.1 hmem]
        exact id
      · exact absurd hmem List.not_mem_nil

theorem sum_debited_publishedBefore :
    ((publishedBefore config block).map (debited config.currencyMosaicId)).sum =
      (block.transactions.map (transactionFee block)).sum := by
  have htransactions : ∀ transactions : List (Transaction Address MosaicId),
      ((transactions.flatMap (publishTransaction config block)).map (debited config.currencyMosaicId)).sum =
        (transactions.map (transactionFee block)).sum := by
    intro transactions
    induction transactions with
    | nil => rfl
    | cons transaction transactions ih =>
      rw [List.flatMap_cons, List.map_append, List.sum_append, ih, sum_debited_publishTransaction, List.map_cons,
        List.sum_cons]
  unfold publishedBefore
  rw [List.map_append, List.sum_append, htransactions]
  split <;> simp [debited]

omit [DecidableEq Address] [DecidableEq MosaicId] in
theorem totalFee_eq (hreserved : block.reserved1 = 0)
    (hfits : (block.transactions.map (transactionFee block)).sum < 2 ^ 64) :
    totalFee block = (block.transactions.map (transactionFee block)).sum := by
  have hfold : ∀ (transactions : List (Transaction Address MosaicId)) (fee : Nat),
      fee + (transactions.map (transactionFee block)).sum < 2 ^ 64 →
      transactions.foldl
          (fun fee transaction => add64 fee (calculateTransactionFee block.feeMultiplier transaction)) fee =
        fee + (transactions.map (transactionFee block)).sum := by
    intro transactions
    induction transactions with
    | nil => exact fun fee _ => rfl
    | cons transaction transactions ih =>
      intro fee hle
      have hfee : transactionFee block transaction = calculateTransactionFee block.feeMultiplier transaction :=
        if_pos hreserved
      rw [List.map_cons, List.sum_cons] at hle ⊢
      rw [List.foldl_cons, ← hfee, add64_eq (by omega), ih _ (by omega)]
      omega
  have hsum := hfold block.transactions 0 (by omega)
  rw [Nat.zero_add] at hsum
  exact hsum

theorem percentageOf_le {percentage : Nat} : percentageOf amount percentage ≤ amount * percentage / 100 :=
  Nat.div_le_div_right (Nat.mod_le _ _)

omit [DecidableEq MosaicId] in
theorem harvestAmounts_sum (harvester beneficiary : Address)
    (hpercentages : config.harvestBeneficiaryPercentage + config.harvestNetworkPercentage ≤ 100)
    (hfits : amount < 2 ^ 64) :
    (harvestAmounts config harvester beneficiary amount).network +
        (harvestAmounts config harvester beneficiary amount).beneficiary ≤ amount ∧
      (harvestAmounts config harvester beneficiary amount).harvester =
        amount - (harvestAmounts config harvester beneficiary amount).network -
          (harvestAmounts config harvester beneficiary amount).beneficiary := by
  have hnetwork : (harvestAmounts config harvester beneficiary amount).network ≤
      amount * config.harvestNetworkPercentage / 100 := percentageOf_le
  have hbeneficiary : (harvestAmounts config harvester beneficiary amount).beneficiary ≤
      amount * config.harvestBeneficiaryPercentage / 100 := by
    dsimp only [harvestAmounts]
    split
    · exact percentageOf_le
    · exact Nat.zero_le _
  have hparts : amount * config.harvestNetworkPercentage / 100 + amount * config.harvestBeneficiaryPercentage / 100 ≤
      amount := by
    have hmul : amount * config.harvestNetworkPercentage + amount * config.harvestBeneficiaryPercentage ≤
        amount * 100 := by
      rw [← Nat.mul_add]
      exact Nat.mul_le_mul_left _ (by omega)
    omega
  refine ⟨by omega, ?_⟩
  show sub64 (sub64 amount (harvestAmounts config harvester beneficiary amount).network)
    (harvestAmounts config harvester beneficiary amount).beneficiary = _
  rw [sub64_eq hfits (by omega), sub64_eq (by omega) (by omega)]

omit [DecidableEq Address] [DecidableEq MosaicId] in
theorem sum_feeShares {harvester beneficiary : Address} {amounts : HarvestAmounts} :
    ((feeShares config height harvester beneficiary amounts).map Prod.snd).sum =
      amounts.harvester + amounts.network + amounts.beneficiary := by
  unfold feeShares
  split <;> split <;> simp_all [Nat.add_assoc]

theorem total_applyFees {shares : List (Address × Nat)}
    (h : shares.foldlM (applyFee mosaicId .commit) cache = some cache')
    (hfits : cache.total mosaicId + (shares.map Prod.snd).sum < 2 ^ 64) :
    cache'.total mosaicId = cache.total mosaicId + (shares.map Prod.snd).sum ∧
      ∀ mosaic ≠ mosaicId, cache'.total mosaic = cache.total mosaic := by
  induction shares generalizing cache with
  | nil =>
    cases h
    exact ⟨rfl, fun _ _ => rfl⟩
  | cons share shares ih =>
    rw [List.foldlM_cons, Option.bind_eq_bind] at h
    obtain ⟨cache₁, hstep, htail⟩ := Option.bind_eq_some_iff.1 h
    obtain ⟨target, -, hcredit⟩ := Option.bind_eq_some_iff.1 hstep
    rw [List.map_cons, List.sum_cons] at hfits ⊢
    have hfirst := total_credit hcredit (by omega)
    obtain ⟨hsum, hothers⟩ := ih htail (by omega)
    refine ⟨by omega, fun mosaic hne => ?_⟩
    rw [hothers mosaic hne, total_credit_of_ne hcredit hne]

theorem total_observeHarvestFee {harvester beneficiary : Address} {fee : Nat}
    (hpercentages : config.harvestBeneficiaryPercentage + config.harvestNetworkPercentage ≤ 100)
    (h : observeHarvestFee config height .commit cache harvester beneficiary fee = some cache')
    (hfits : cache.total config.currencyMosaicId + (fee + config.inflation.getSpotAmount height) < 2 ^ 64) :
    cache'.total config.currencyMosaicId =
        cache.total config.currencyMosaicId + (fee + config.inflation.getSpotAmount height) ∧
      ∀ mosaic ≠ config.currencyMosaicId, cache'.total mosaic = cache.total mosaic := by
  dsimp only [observeHarvestFee] at h
  rw [add64_eq (by omega)] at h
  obtain ⟨hle, hharvester⟩ := harvestAmounts_sum harvester beneficiary hpercentages
    (show fee + config.inflation.getSpotAmount height < 2 ^ 64 by omega)
  have hshares : ((feeShares config height harvester beneficiary (harvestAmounts config harvester beneficiary
      (fee + config.inflation.getSpotAmount height))).map Prod.snd).sum =
      fee + config.inflation.getSpotAmount height := by
    rw [sum_feeShares]
    omega
  rw [← hshares] at hfits ⊢
  exact total_applyFees h hfits

end Catapult.Currency
