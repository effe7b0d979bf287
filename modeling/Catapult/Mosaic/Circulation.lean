import Catapult.Currency.Totals
import Catapult.Mosaic.MosaicDefinition

/-!
# Supply changes and transfers

The supply of a mosaic is in the mosaic cache, the balances are in the account state cache. A supply change moves both,
a definition replaces the entry with its supply, and a transfer moves balances only. Notifications have resolved
addresses and mosaics. A call that throws has no state, only what was thrown.
-/

namespace Catapult.Mosaic
open Observers (NotifyMode)
open Currency (AccountStateCache AmountType effectiveAmount)

variable {Address : Type} [DecidableEq Address]

inductive MosaicSupplyChangeAction where
  | decrease
  | increase
  deriving DecidableEq

structure MosaicSupplyChangeNotification (Address : Type) where
  owner : Address
  mosaicId : MosaicId
  action : MosaicSupplyChangeAction
  delta : Amount

structure BalanceTransferNotification (Address : Type) where
  sender : Address
  recipient : Address
  mosaicId : MosaicId
  amount : Amount
  transferAmountType : AmountType

inductive Notification (Address : Type) where
  | mosaicDefinition (notification : MosaicDefinitionNotification Address)
  | mosaicSupplyChange (notification : MosaicSupplyChangeNotification Address)
  | balanceTransfer (notification : BalanceTransferNotification Address)

structure State (Address : Type) where
  mosaics : MosaicCache Address
  accounts : AccountStateCache Address MosaicId
  dynamicFeeMultiplier : UInt32

/-- `none` when the mosaic or the account is missing. -/
def mosaicSupplyChangeAllowed (maxAtomicUnits : Amount) (state : State Address)
    (notification : MosaicSupplyChangeNotification Address) : Option ValidationResult := do
  let mosaicEntry ← state.mosaics.find notification.mosaicId
  let accountState ← state.accounts.find notification.owner
  let ownerAmount := accountState.balances notification.mosaicId
  if !mosaicEntry.definition.properties.hasFlag supplyMutable && ownerAmount ≠ mosaicEntry.supply.toNat then
    return .mosaicSupplyImmutable
  match notification.action with
  | .decrease => return if ownerAmount < notification.delta.toNat then .mosaicSupplyNegative else .success
  | .increase =>
    let initialSupply := mosaicEntry.supply
    let newSupply := mosaicEntry.supply + notification.delta
    return if newSupply < initialSupply || maxAtomicUnits < newSupply then .mosaicSupplyExceeded else .success

/-- `TryGetEffectiveAmount` and the test of the sender's balance. -/
def checkBalance (state : State Address) (notification : BalanceTransferNotification Address) : Bool :=
  match state.accounts.find notification.sender with
  | none => false
  | some accountState =>
    let fits := notification.transferAmountType = .static || state.dynamicFeeMultiplier = 0 ||
      notification.amount.toNat ≤ (2 ^ 64 - 1) / state.dynamicFeeMultiplier.toNat
    let amount := effectiveAmount state.dynamicFeeMultiplier.toNat notification.amount.toNat
      notification.transferAmountType
    fits && amount ≤ accountState.balances notification.mosaicId

/-- A definition of an available mosaic, an allowed supply change, or a transfer with a sufficient balance. -/
def accepts (maxAtomicUnits : Amount) (height : Height) (state : State Address) : Notification Address → Bool
  | .mosaicDefinition notification => mosaicAvailability state.mosaics height notification = .success
  | .mosaicSupplyChange notification => mosaicSupplyChangeAllowed maxAtomicUnits state notification = some .success
  | .balanceTransfer notification => checkBalance state notification

inductive Thrown where
  | accountNotFound
  | mosaicNotFound
  | mosaicNotUnique
  | debit
  | increaseSupply
  | decreaseSupply
  deriving DecidableEq

def orThrow {α : Type} (thrown : Thrown) : Option α → Except Thrown α
  | none => .error thrown
  | some a => .ok a

def shouldIncrease (mode : NotifyMode) (action : MosaicSupplyChangeAction) : Bool :=
  (mode = .commit && action = .increase) || (mode = .rollback && action = .decrease)

def observeMosaicSupplyChange (mode : NotifyMode) (state : State Address)
    (notification : MosaicSupplyChangeNotification Address) : Except Thrown (State Address) := do
  let _ ← orThrow .accountNotFound (state.accounts.find notification.owner)
  let mosaicEntry ← orThrow .mosaicNotFound (state.mosaics.find notification.mosaicId)
  if shouldIncrease mode notification.action then
    let accounts ← orThrow .accountNotFound
      (state.accounts.credit notification.owner notification.mosaicId notification.delta.toNat)
    let mosaicEntry ← orThrow .increaseSupply (mosaicEntry.increaseSupply notification.delta)
    return { state with accounts, mosaics := state.mosaics.set mosaicEntry }
  else
    let accounts ← orThrow .debit
      (state.accounts.debit notification.owner notification.mosaicId notification.delta.toNat)
    let mosaicEntry ← orThrow .decreaseSupply (mosaicEntry.decreaseSupply notification.delta)
    return { state with accounts, mosaics := state.mosaics.set mosaicEntry }

def transfer (accounts : AccountStateCache Address MosaicId) (debitAddress creditAddress : Address)
    (mosaicId : MosaicId) (amount : Nat) : Except Thrown (AccountStateCache Address MosaicId) := do
  let debited ← orThrow .debit (accounts.debit debitAddress mosaicId amount)
  orThrow .accountNotFound (debited.credit creditAddress mosaicId amount)

def observeBalanceTransfer (mode : NotifyMode) (state : State Address)
    (notification : BalanceTransferNotification Address) : Except Thrown (State Address) := do
  let _ ← orThrow .accountNotFound (state.accounts.find notification.sender)
  let _ ← orThrow .accountNotFound (state.accounts.find notification.recipient)
  let amount := effectiveAmount state.dynamicFeeMultiplier.toNat notification.amount.toNat
    notification.transferAmountType
  let accounts ←
    match mode with
    | .commit => transfer state.accounts notification.sender notification.recipient notification.mosaicId amount
    | .rollback => transfer state.accounts notification.recipient notification.sender notification.mosaicId amount
  return { state with accounts }

def observe (mode : NotifyMode) (height : Height) (state : State Address) :
    Notification Address → Except Thrown (State Address)
  | .mosaicDefinition notification => do
    let mosaics ← orThrow .mosaicNotUnique (observeMosaicDefinition mode height state.mosaics notification)
    return { state with mosaics }
  | .mosaicSupplyChange notification => observeMosaicSupplyChange mode state notification
  | .balanceTransfer notification => observeBalanceTransfer mode state notification

structure Run (Address : Type) where
  state : State Address
  committed : List (Height × Notification Address)

inductive Step (Address : Type) where
  | commit (height : Height) (notification : Notification Address)
  | rollback

/-- Rejected notifications are not observed, and without anything committed there is nothing to roll back. -/
def Run.step (maxAtomicUnits : Amount) (run : Run Address) : Step Address → Except Thrown (Run Address)
  | .commit height notification =>
    if accepts maxAtomicUnits height run.state notification then do
      let state ← observe .commit height run.state notification
      return ⟨state, (height, notification) :: run.committed⟩
    else return run
  | .rollback =>
    match run.committed with
    | [] => return run
    | (height, notification) :: committed => do
      let state ← observe .rollback height run.state notification
      return ⟨state, committed⟩

def Run.steps (maxAtomicUnits : Amount) (run : Run Address) (steps : List (Step Address)) :
    Except Thrown (Run Address) :=
  steps.foldlM (Run.step maxAtomicUnits) run

/-!
## Supply and circulation

The supply of a mosaic is the sum of its balances: a definition is accepted for a mosaic without supply only, a supply
change moves both by the same amount, and a transfer keeps the sum. A rollback restores the accounts of before, so the
balance that it debits is there, and the supply with it.
-/

open Currency.AccountStateCache

variable {maxAtomicUnits : Amount} {state state' : State Address}
  {accounts before after : AccountStateCache Address MosaicId} {address other : Address} {id mosaicId : MosaicId}
  {amount : Nat} {height : Height} {mode : NotifyMode}

theorem setBalance_setBalance :
    (accounts.setBalance address id amount).setBalance address id ((accounts.accounts address).balances id) =
      accounts := by
  cases accounts
  simp [setBalance, AccountStateCache.set]

theorem debit_of_credit (h : before.credit address id amount = some after) (hfits : before.total id + amount < 2 ^ 64) :
    after.debit address id amount = some before := by
  obtain ⟨hmem, rfl⟩ := credit_eq_some.mp h
  have hbalance : before.balance address id ≤ before.total id := balance_le_total
  have hcredited : (before.setBalance address id ((before.balance address id + amount) % 2 ^ 64)).balance address id =
      before.balance address id + amount := by
    rw [balance_setBalance hmem, if_pos ⟨rfl, rfl⟩, Nat.mod_eq_of_lt (by omega)]
  refine debit_eq_some.mpr ⟨hmem, by rw [hcredited]; exact Nat.le_add_left _ _, ?_⟩
  rw [hcredited, Nat.add_sub_cancel, balance_of_mem hmem]
  exact setBalance_setBalance

theorem credit_of_debit (h : before.debit address id amount = some after) (hfits : before.total id < 2 ^ 64) :
    after.credit address id amount = some before := by
  obtain ⟨hmem, hle, rfl⟩ := debit_eq_some.mp h
  have hbalance : before.balance address id ≤ before.total id := balance_le_total
  refine credit_eq_some.mpr ⟨hmem, ?_⟩
  rw [balance_setBalance hmem, if_pos ⟨rfl, rfl⟩, Nat.sub_add_cancel hle, Nat.mod_eq_of_lt (by omega),
    balance_of_mem hmem]
  exact setBalance_setBalance

theorem transfer_of_transfer (h : Currency.transfer before address other id amount = some after)
    (hfits : before.total id < 2 ^ 64) : Currency.transfer after other address id amount = some before := by
  obtain ⟨debited, hdebit, hcredit⟩ := Option.bind_eq_some_iff.mp h
  have hsum := total_debit hdebit
  exact Option.bind_eq_some_iff.mpr
    ⟨debited, debit_of_credit hcredit (by omega), credit_of_debit hdebit hfits⟩

theorem exists_transfer (haddress : address ∈ before.addresses) (hother : other ∈ before.addresses)
    (hle : amount ≤ before.balance address id) :
    ∃ after, Currency.transfer before address other id amount = some after := by
  have hdebit := debit_eq_some.mpr ⟨haddress, hle, rfl⟩
  have hcredit : ∀ debited, before.debit address id amount = some debited →
      ∃ after, debited.credit other id amount = some after := by
    intro debited h
    obtain ⟨-, -, rfl⟩ := debit_eq_some.mp h
    exact ⟨_, credit_eq_some.mpr ⟨hother, rfl⟩⟩
  obtain ⟨after, hafter⟩ := hcredit _ hdebit
  exact ⟨after, Option.bind_eq_some_iff.mpr ⟨_, hdebit, hafter⟩⟩

theorem transfer_eq (h : Currency.transfer before address other id amount = some after) :
    transfer before address other id amount = .ok after := by
  obtain ⟨debited, hdebit, hcredit⟩ := Option.bind_eq_some_iff.mp h
  rw [transfer, hdebit]
  exact congrArg (orThrow Thrown.accountNotFound) hcredit

/-- Every supply is the sum of the balances, which is bounded, and a mosaic without an entry has no balances. -/
structure Circulates (maxAtomicUnits : Amount) (state : State Address) : Prop where
  keyed : ∀ id entry, state.mosaics.find id = some entry → entry.mosaicId = id
  supply : ∀ id entry, state.mosaics.find id = some entry → entry.supply.toNat = state.accounts.total id
  missing : ∀ id, state.mosaics.find id = none → state.accounts.total id = 0
  bounded : ∀ id, state.accounts.total id ≤ maxAtomicUnits.toNat

theorem Circulates.total_lt (h : Circulates maxAtomicUnits state) (id : MosaicId) : state.accounts.total id < 2 ^ 64 :=
  lt_of_le_of_lt (h.bounded id) (UInt64.toNat_lt maxAtomicUnits)

/-- The accounts before a notification that was committed, and after it. -/
def Moves (maxAtomicUnits : Amount) (dynamicFeeMultiplier : UInt32) (before : AccountStateCache Address MosaicId)
    (after : AccountStateCache Address MosaicId) : Notification Address → Prop
  | .mosaicDefinition notification => after = before ∧ before.total notification.mosaicId = 0
  | .mosaicSupplyChange notification =>
    (∀ id, before.total id ≤ maxAtomicUnits.toNat) ∧
    match notification.action with
    | .increase =>
      before.credit notification.owner notification.mosaicId notification.delta.toNat = some after ∧
        before.total notification.mosaicId + notification.delta.toNat ≤ maxAtomicUnits.toNat
    | .decrease => before.debit notification.owner notification.mosaicId notification.delta.toNat = some after
  | .balanceTransfer notification =>
    (∀ id, before.total id ≤ maxAtomicUnits.toNat) ∧
    Currency.transfer before notification.sender notification.recipient notification.mosaicId
      (effectiveAmount dynamicFeeMultiplier.toNat notification.amount.toNat notification.transferAmountType) =
        some after

/-- The accounts can be followed back through everything that was committed. -/
def Retraces (maxAtomicUnits : Amount) (dynamicFeeMultiplier : UInt32) :
    AccountStateCache Address MosaicId → List (Height × Notification Address) → Prop
  | _, [] => True
  | accounts, (_, notification) :: committed =>
    ∃ before, Moves maxAtomicUnits dynamicFeeMultiplier before accounts notification ∧
      Retraces maxAtomicUnits dynamicFeeMultiplier before committed

theorem Circulates.observeDefinition (h : Circulates maxAtomicUnits state)
    (notification : MosaicDefinitionNotification Address)
    (hzero : state.accounts.total notification.mosaicId = 0) (mode : NotifyMode) (height : Height) :
    ∃ mosaics, observe mode height state (.mosaicDefinition notification) = .ok { state with mosaics } ∧
      Circulates maxAtomicUnits { state with mosaics } := by
  obtain ⟨mosaics, hobserve, hfind⟩ := observe_find mode height state.mosaics notification
  refine ⟨mosaics, by rw [observe, hobserve]; rfl, ?_⟩
  -- the new entry, if there is one, is that of the notification and without supply
  have hnew : ∀ entry, observedEntry mode height notification (state.mosaics.find notification.mosaicId) = some entry →
      entry.mosaicId = notification.mosaicId ∧ entry.supply = 0 := by
    intro entry hentry
    cases hfound : state.mosaics.find notification.mosaicId with
    | none =>
      rw [hfound] at hentry
      cases hentry
      exact ⟨rfl, rfl⟩
    | some found =>
      rw [hfound, observedEntry] at hentry
      split at hentry
      · cases hentry
      · cases hentry
        exact ⟨rfl, rfl⟩
  refine ⟨fun id entry hentry => ?_, fun id entry hentry => ?_, fun id hnone => ?_, h.bounded⟩
  · rw [hfind] at hentry
    split at hentry
    · rename_i hid
      rw [(hnew entry hentry).1, hid]
    · exact h.keyed id entry hentry
  · rw [hfind] at hentry
    split at hentry
    · rename_i hid
      rw [(hnew entry hentry).2, hid, hzero]
      rfl
    · exact h.supply id entry hentry
  · rw [hfind] at hnone
    split at hnone
    · rename_i hid
      rw [hid, hzero]
    · exact h.missing id hnone

theorem Circulates.total_eq_zero {notification : MosaicDefinitionNotification Address}
    (h : Circulates maxAtomicUnits state)
    (havailable : mosaicAvailability state.mosaics height notification = .success) :
    state.accounts.total notification.mosaicId = 0 := by
  cases hentry : state.mosaics.find notification.mosaicId with
  | none => exact h.missing _ hentry
  | some entry =>
    rw [← h.supply _ entry hentry, (of_mosaicAvailability havailable hentry).2]
    rfl

omit [DecidableEq Address] in
theorem find_set {cache : MosaicCache Address} {entry : MosaicEntry Address} :
    (cache.set entry).find id = if id = entry.mosaicId then some entry else cache.find id := by
  by_cases hid : id = entry.mosaicId
  · subst hid
    simp [MosaicCache.find, MosaicCache.set]
  · simp [MosaicCache.find, MosaicCache.set, hid]

theorem Circulates.set {entry : MosaicEntry Address} (h : Circulates maxAtomicUnits state)
    (hsupply : entry.supply.toNat = accounts.total entry.mosaicId)
    (hothers : ∀ id, id ≠ entry.mosaicId → accounts.total id = state.accounts.total id)
    (hbounded : accounts.total entry.mosaicId ≤ maxAtomicUnits.toNat) :
    Circulates maxAtomicUnits { state with accounts, mosaics := state.mosaics.set entry } := by
  refine ⟨fun id entry' hentry => ?_, fun id entry' hentry => ?_, fun id hnone => ?_, fun id => ?_⟩
  · rw [find_set] at hentry
    split at hentry
    · rename_i hid
      cases hentry
      exact hid.symm
    · exact h.keyed id entry' hentry
  · rw [find_set] at hentry
    split at hentry
    · rename_i hid
      cases hentry
      rw [hid]
      exact hsupply
    · rename_i hid
      rw [h.supply id entry' hentry]
      exact (hothers id hid).symm
  · rw [find_set] at hnone
    split at hnone
    · cases hnone
    · rename_i hid
      exact (hothers id hid).trans (h.missing id hnone)
  · by_cases hid : id = entry.mosaicId
    · rw [hid]
      exact hbounded
    · exact (hothers id hid).trans_le (h.bounded id)

theorem Circulates.increase {entry : MosaicEntry Address} {delta : Amount} (h : Circulates maxAtomicUnits state)
    (hentry : state.mosaics.find id = some entry)
    (hcredit : state.accounts.credit address id delta.toNat = some accounts)
    (hfits : state.accounts.total id + delta.toNat ≤ maxAtomicUnits.toNat) :
    ∃ increased, entry.increaseSupply delta = some increased ∧
      Circulates maxAtomicUnits { state with accounts, mosaics := state.mosaics.set increased } := by
  have hlt := UInt64.toNat_lt maxAtomicUnits
  obtain rfl := h.keyed id entry hentry
  have hsupply := h.supply _ entry hentry
  have htotal := total_credit hcredit (by omega)
  refine ⟨{ entry with supply := entry.supply + delta }, if_pos (by omega), h.set ?_ ?_ ?_⟩
  · rw [UInt64.toNat_add, hsupply, Nat.mod_eq_of_lt (by omega), htotal]
  · exact fun other hother => total_credit_of_ne hcredit hother
  · exact htotal.trans_le hfits

theorem Circulates.decrease {entry : MosaicEntry Address} {delta : Amount} (h : Circulates maxAtomicUnits state)
    (hentry : state.mosaics.find id = some entry)
    (hdebit : state.accounts.debit address id delta.toNat = some accounts) :
    ∃ decreased, entry.decreaseSupply delta = some decreased ∧
      Circulates maxAtomicUnits { state with accounts, mosaics := state.mosaics.set decreased } := by
  obtain rfl := h.keyed id entry hentry
  have hsupply := h.supply _ entry hentry
  have htotal := total_debit hdebit
  have hle : delta ≤ entry.supply := by
    rw [UInt64.le_iff_toNat_le]
    omega
  refine ⟨{ entry with supply := entry.supply - delta }, if_neg (UInt64.not_lt.mpr hle), h.set ?_ ?_ ?_⟩
  · simp only
    rw [UInt64.toNat_sub_of_le _ _ hle]
    omega
  · exact fun other hother => total_debit_of_ne hdebit hother
  · have := h.bounded entry.mosaicId
    simp only
    omega

theorem of_supplyChangeAllowed {notification : MosaicSupplyChangeNotification Address}
    (h : mosaicSupplyChangeAllowed maxAtomicUnits state notification = some .success) :
    ∃ entry, state.mosaics.find notification.mosaicId = some entry ∧ notification.owner ∈ state.accounts.addresses ∧
      match notification.action with
      | .increase => entry.supply.toNat + notification.delta.toNat ≤ maxAtomicUnits.toNat
      | .decrease =>
        notification.delta.toNat ≤ state.accounts.balance notification.owner notification.mosaicId := by
  obtain ⟨entry, hentry, h⟩ := Option.bind_eq_some_iff.mp h
  obtain ⟨account, haccount, h⟩ := Option.bind_eq_some_iff.mp h
  obtain ⟨hmem, rfl⟩ := find_eq_some.mp haccount
  refine ⟨entry, hentry, hmem, ?_⟩
  rw [balance_of_mem hmem]
  simp only at h
  split at h
  · cases h
  · cases haction : notification.action with
    | increase =>
      simp only [haction] at h ⊢
      split at h
      · cases h
      · rename_i hbounds
        simp only [Bool.or_eq_true, decide_eq_true_eq, not_or, UInt64.not_lt] at hbounds
        obtain ⟨hgrows, hmax⟩ := hbounds
        rw [UInt64.le_iff_toNat_le, UInt64.toNat_add] at hgrows hmax
        have hsupply := UInt64.toNat_lt entry.supply
        have hdelta := UInt64.toNat_lt notification.delta
        omega
    | decrease =>
      simp only [haction] at h ⊢
      split at h
      · cases h
      · rename_i hle
        exact not_lt.mp hle

theorem observe_increase {notification : MosaicSupplyChangeNotification Address} {entry increased : MosaicEntry Address}
    (hincrease : shouldIncrease mode notification.action = true)
    (hentry : state.mosaics.find notification.mosaicId = some entry)
    (hcredit : state.accounts.credit notification.owner notification.mosaicId notification.delta.toNat = some accounts)
    (hincreased : entry.increaseSupply notification.delta = some increased) :
    observe mode height state (.mosaicSupplyChange notification) =
      .ok { state with accounts, mosaics := state.mosaics.set increased } := by
  have haccount := find_eq_some.mpr ⟨(credit_eq_some.mp hcredit).1, rfl⟩
  simp only [observe, observeMosaicSupplyChange, haccount, hentry, hincrease, if_true, hcredit, orThrow, bind,
    Except.bind, hincreased]
  rfl

theorem observe_decrease {notification : MosaicSupplyChangeNotification Address} {entry decreased : MosaicEntry Address}
    (hdecrease : shouldIncrease mode notification.action = false)
    (hentry : state.mosaics.find notification.mosaicId = some entry)
    (hdebit : state.accounts.debit notification.owner notification.mosaicId notification.delta.toNat = some accounts)
    (hdecreased : entry.decreaseSupply notification.delta = some decreased) :
    observe mode height state (.mosaicSupplyChange notification) =
      .ok { state with accounts, mosaics := state.mosaics.set decreased } := by
  have haccount := find_eq_some.mpr ⟨(debit_eq_some.mp hdebit).1, rfl⟩
  simp only [observe, observeMosaicSupplyChange, haccount, hentry, hdecrease, Bool.false_eq_true, if_false, hdebit,
    orThrow, bind, Except.bind, hdecreased]
  rfl

theorem Circulates.transfer (h : Circulates maxAtomicUnits state)
    (htransfer : Currency.transfer state.accounts address other id amount = some accounts) :
    Circulates maxAtomicUnits { state with accounts } := by
  have htotal : ∀ id, accounts.total id = state.accounts.total id :=
    fun id => Currency.total_transfer htransfer h.total_lt
  refine ⟨h.keyed, fun id entry hentry => ?_, fun id hnone => ?_, fun id => ?_⟩
  · exact (h.supply id entry hentry).trans (htotal id).symm
  · exact (htotal id).trans (h.missing id hnone)
  · exact (htotal id).trans_le (h.bounded id)

theorem Circulates.commit {notification : Notification Address} (h : Circulates maxAtomicUnits state)
    (haccepts : accepts maxAtomicUnits height state notification = true) :
    (∃ state', observe .commit height state notification = .ok state' ∧ Circulates maxAtomicUnits state' ∧
      state'.dynamicFeeMultiplier = state.dynamicFeeMultiplier ∧
      Moves maxAtomicUnits state.dynamicFeeMultiplier state.accounts state'.accounts notification) ∨
    observe .commit height state notification = .error .accountNotFound := by
  cases notification with
  | mosaicDefinition notification =>
    left
    have hzero := h.total_eq_zero (of_decide_eq_true haccepts)
    obtain ⟨mosaics, hobserve, hnext⟩ := h.observeDefinition notification hzero .commit height
    exact ⟨_, hobserve, hnext, rfl, rfl, hzero⟩
  | mosaicSupplyChange notification =>
    left
    obtain ⟨entry, hentry, hmem, haction⟩ := of_supplyChangeAllowed (of_decide_eq_true haccepts)
    cases hkind : notification.action with
    | increase =>
      rw [hkind, h.supply _ entry hentry] at haction
      obtain ⟨credited, hcredit⟩ : ∃ credited, state.accounts.credit notification.owner notification.mosaicId
          notification.delta.toNat = some credited := ⟨_, credit_eq_some.mpr ⟨hmem, rfl⟩⟩
      obtain ⟨increased, hincreased, hnext⟩ := h.increase hentry hcredit haction
      refine ⟨_, observe_increase (by rw [hkind]; rfl) hentry hcredit hincreased, hnext, rfl, h.bounded, ?_⟩
      rw [hkind]
      exact ⟨hcredit, haction⟩
    | decrease =>
      rw [hkind] at haction
      obtain ⟨debited, hdebit⟩ : ∃ debited, state.accounts.debit notification.owner notification.mosaicId
          notification.delta.toNat = some debited := ⟨_, debit_eq_some.mpr ⟨hmem, haction, rfl⟩⟩
      obtain ⟨decreased, hdecreased, hnext⟩ := h.decrease hentry hdebit
      refine ⟨_, observe_decrease (by rw [hkind]; rfl) hentry hdebit hdecreased, hnext, rfl, h.bounded, ?_⟩
      rw [hkind]
      exact hdebit
  | balanceTransfer notification =>
    simp only [accepts, checkBalance] at haccepts
    cases hsender : state.accounts.find notification.sender with
    | none =>
      rw [hsender] at haccepts
      cases haccepts
    | some account =>
      rw [hsender] at haccepts
      obtain ⟨hmem, rfl⟩ := find_eq_some.mp hsender
      simp only [Bool.and_eq_true, decide_eq_true_eq] at haccepts
      cases hrecipient : state.accounts.find notification.recipient with
      | none =>
        right
        simp only [observe, observeBalanceTransfer, hsender, hrecipient]
        rfl
      | some recipient =>
        left
        obtain ⟨after, htransfer⟩ := exists_transfer hmem (find_eq_some.mp hrecipient).1
          (haccepts.2.trans_eq (balance_of_mem hmem).symm)
        refine ⟨{ state with accounts := after }, ?_, h.transfer htransfer, rfl, h.bounded, htransfer⟩
        simp only [observe, observeBalanceTransfer, hsender, hrecipient, transfer_eq htransfer]
        rfl

theorem Circulates.rollback {notification : Notification Address} (h : Circulates maxAtomicUnits state)
    (height : Height)
    (hmoves : Moves maxAtomicUnits state.dynamicFeeMultiplier before state.accounts notification) :
    (∃ state', observe .rollback height state notification = .ok state' ∧ Circulates maxAtomicUnits state' ∧
      state'.dynamicFeeMultiplier = state.dynamicFeeMultiplier ∧ state'.accounts = before) ∨
    observe .rollback height state notification = .error .mosaicNotFound := by
  cases notification with
  | mosaicDefinition notification =>
    left
    obtain ⟨haccounts, hzero⟩ := hmoves
    rw [← haccounts] at hzero
    obtain ⟨mosaics, hobserve, hnext⟩ := h.observeDefinition notification hzero .rollback height
    exact ⟨_, hobserve, hnext, rfl, haccounts⟩
  | mosaicSupplyChange notification =>
    obtain ⟨hbounded, hmoves⟩ := hmoves
    have hlt := UInt64.toNat_lt maxAtomicUnits
    have hbound := hbounded notification.mosaicId
    cases hkind : notification.action with
    | increase =>
      rw [hkind] at hmoves
      obtain ⟨hcredit, hfits⟩ := hmoves
      have hdebit := debit_of_credit hcredit (by omega)
      cases hentry : state.mosaics.find notification.mosaicId with
      | none =>
        right
        have haccount := find_eq_some.mpr ⟨(debit_eq_some.mp hdebit).1, rfl⟩
        simp only [observe, observeMosaicSupplyChange, haccount, hentry]
        rfl
      | some entry =>
        left
        obtain ⟨decreased, hdecreased, hnext⟩ := h.decrease hentry hdebit
        exact ⟨_, observe_decrease (by rw [hkind]; rfl) hentry hdebit hdecreased, hnext, rfl, rfl⟩
    | decrease =>
      rw [hkind] at hmoves
      have hcredit := credit_of_debit hmoves (by omega)
      cases hentry : state.mosaics.find notification.mosaicId with
      | none =>
        right
        have haccount := find_eq_some.mpr ⟨(credit_eq_some.mp hcredit).1, rfl⟩
        simp only [observe, observeMosaicSupplyChange, haccount, hentry]
        rfl
      | some entry =>
        left
        obtain ⟨increased, hincreased, hnext⟩ :=
          h.increase hentry hcredit (by have := total_debit hmoves; omega)
        exact ⟨_, observe_increase (by rw [hkind]; rfl) hentry hcredit hincreased, hnext, rfl, rfl⟩
  | balanceTransfer notification =>
    left
    obtain ⟨hbounded, htransfer⟩ := hmoves
    have hback := transfer_of_transfer htransfer
      (lt_of_le_of_lt (hbounded _) (UInt64.toNat_lt maxAtomicUnits))
    obtain ⟨debited, hdebit, hcredit⟩ := Option.bind_eq_some_iff.mp hback
    obtain ⟨hrecipient, -, rfl⟩ := debit_eq_some.mp hdebit
    have hsender : notification.sender ∈ state.accounts.addresses := (credit_eq_some.mp hcredit).1
    refine ⟨{ state with accounts := before }, ?_, h.transfer hback, rfl, rfl⟩
    simp only [observe, observeBalanceTransfer, find_eq_some.mpr ⟨hsender, rfl⟩, find_eq_some.mpr ⟨hrecipient, rfl⟩,
      transfer_eq hback]
    rfl

structure Sound (maxAtomicUnits : Amount) (run : Run Address) : Prop where
  circulates : Circulates maxAtomicUnits run.state
  retraces : Retraces maxAtomicUnits run.state.dynamicFeeMultiplier run.state.accounts run.committed

def Missing (thrown : Thrown) : Prop := thrown = .accountNotFound ∨ thrown = .mosaicNotFound

theorem Sound.step {run : Run Address} (h : Sound maxAtomicUnits run) (step : Step Address) :
    (∃ next, run.step maxAtomicUnits step = .ok next ∧ Sound maxAtomicUnits next) ∨
    ∃ thrown, run.step maxAtomicUnits step = .error thrown ∧ Missing thrown := by
  cases step with
  | commit height notification =>
    by_cases haccepts : accepts maxAtomicUnits height run.state notification = true
    · rcases h.circulates.commit haccepts with ⟨state', hobserve, hnext, hmultiplier, hmoves⟩ | hthrown
      · refine .inl ⟨⟨state', (height, notification) :: run.committed⟩, ?_, hnext, ?_⟩
        · rw [Run.step, if_pos haccepts, hobserve]
          rfl
        · exact ⟨run.state.accounts, hmultiplier ▸ hmoves, hmultiplier ▸ h.retraces⟩
      · refine .inr ⟨.accountNotFound, ?_, .inl rfl⟩
        rw [Run.step, if_pos haccepts, hthrown]
        rfl
    · exact .inl ⟨run, by rw [Run.step, if_neg haccepts]; rfl, h⟩
  | rollback =>
    rcases run with ⟨state, _ | ⟨⟨height, notification⟩, committed⟩⟩
    · exact .inl ⟨_, rfl, h⟩
    · obtain ⟨before, hmoves, hretraces⟩ := h.retraces
      rcases h.circulates.rollback height hmoves with ⟨state', hobserve, hnext, hmultiplier, rfl⟩ | hthrown
      · refine .inl ⟨⟨state', committed⟩, ?_, hnext, ?_⟩
        · simp only [Run.step]
          rw [hobserve]
          rfl
        · rw [hmultiplier]
          exact hretraces
      · refine .inr ⟨.mosaicNotFound, ?_, .inr rfl⟩
        simp only [Run.step]
        rw [hthrown]
        rfl

theorem Sound.steps {run : Run Address} (h : Sound maxAtomicUnits run) (steps : List (Step Address)) :
    (∃ next, run.steps maxAtomicUnits steps = .ok next ∧ Sound maxAtomicUnits next) ∨
    ∃ thrown, run.steps maxAtomicUnits steps = .error thrown ∧ Missing thrown := by
  induction steps generalizing run with
  | nil => exact .inl ⟨run, rfl, h⟩
  | cons step steps ih =>
    rw [Run.steps, List.foldlM_cons]
    rcases h.step step with ⟨next, hstep, hsound⟩ | ⟨thrown, hstep, hmissing⟩
    · rw [hstep]
      exact ih hsound
    · rw [hstep]
      exact .inr ⟨thrown, rfl, hmissing⟩

/-- After every run the supply of every mosaic is the sum of its balances and within the limit, and no run ends in a
debit or in a change of a supply. -/
theorem run_circulates (h : Circulates maxAtomicUnits state) (steps : List (Step Address)) :
    (∀ run, Run.steps maxAtomicUnits ⟨state, []⟩ steps = .ok run →
      ∀ id entry, run.state.mosaics.find id = some entry →
        entry.supply.toNat = run.state.accounts.total id ∧ entry.supply ≤ maxAtomicUnits) ∧
    (∀ thrown, Run.steps maxAtomicUnits ⟨state, []⟩ steps = .error thrown →
      thrown ≠ .debit ∧ thrown ≠ .increaseSupply ∧ thrown ≠ .decreaseSupply) := by
  have hsound : Sound maxAtomicUnits ⟨state, []⟩ := ⟨h, trivial⟩
  rcases hsound.steps steps with ⟨next, hsteps, hnext⟩ | ⟨thrown, hsteps, hmissing⟩
  · refine ⟨fun run hrun id entry hentry => ?_, fun thrown hthrown => ?_⟩
    · obtain rfl := Except.ok.inj (hsteps.symm.trans hrun)
      have hsupply := hnext.circulates.supply id entry hentry
      refine ⟨hsupply, ?_⟩
      rw [UInt64.le_iff_toNat_le, hsupply]
      exact hnext.circulates.bounded id
    · cases hsteps.symm.trans hthrown
  · refine ⟨fun run hrun => ?_, fun thrown' hthrown => ?_⟩
    · cases hsteps.symm.trans hrun
    · obtain rfl := Except.error.inj (hsteps.symm.trans hthrown)
      rcases hmissing with rfl | rfl <;> decide

def sampleState : State Nat := ⟨.empty, { addresses := {1, 2}, accounts := fun _ => { addressHeight := 1 } }, 0⟩

theorem circulates_sample : Circulates 1000 sampleState := by
  have htotal : ∀ id, sampleState.accounts.total id = 0 := by
    intro id
    refine Finset.sum_eq_zero fun address _ => ?_
    rw [balance]
    split <;> rfl
  exact ⟨by rintro _ _ ⟨⟩, by rintro _ _ ⟨⟩, fun id _ => htotal id, fun id => by simp [htotal]⟩

def sampleSteps : List (Step Nat) :=
  [.commit 5 (.mosaicDefinition ⟨1, 7, ⟨1, 0, 0⟩⟩), .commit 5 (.mosaicSupplyChange ⟨1, 7, .increase, 100⟩),
    .commit 6 (.balanceTransfer ⟨1, 2, 7, 40, .static⟩), .commit 6 (.balanceTransfer ⟨2, 2, 7, 40, .static⟩),
    .commit 6 (.mosaicSupplyChange ⟨1, 7, .decrease, 60⟩), .rollback, .rollback,
    .commit 7 (.mosaicSupplyChange ⟨1, 7, .decrease, 50⟩)]

theorem run_circulates_sample :
    ∃ run entry, Run.steps 1000 ⟨sampleState, []⟩ sampleSteps = .ok run ∧ run.state.mosaics.find 7 = some entry ∧
      entry.supply = 50 ∧ entry.supply.toNat = run.state.accounts.total 7 := by
  refine ⟨_, _, rfl, rfl, by decide, ?_⟩
  exact ((run_circulates circulates_sample sampleSteps).1 _ rfl 7 _ rfl).1

end Catapult.Mosaic
