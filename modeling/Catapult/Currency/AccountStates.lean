import Mathlib.Algebra.Order.BigOperators.Group.Finset

/-!
# Balances in the account state cache (`AccountBalances`, `AccountStateCacheUtils`)

The accounts of the cache with what the balance observers read and write of them. A debit throws when the balance is
too small; a credit does not check anything and wraps around.
-/

namespace Catapult.Currency

inductive AccountType where
  | unlinked
  | main
  | remote
  | remoteUnlinked
  deriving DecidableEq

/-- An account with the address that its linked public key stands for. A mosaic that it does not hold has amount 0. -/
structure AccountState (Address MosaicId : Type) where
  addressHeight : Nat
  publicKeyHeight : Nat := 0
  accountType : AccountType := .unlinked
  linked : Option Address := none
  balances : MosaicId → Nat := fun _ => 0

/-- The accounts by address, and the addresses and keys queued for removal with the height. A public key is modelled by
the address that is derived from it. -/
structure AccountStateCache (Address MosaicId : Type) where
  addresses : Finset Address
  accounts : Address → AccountState Address MosaicId
  queuedRemoveByAddress : List (Nat × Address) := []
  queuedRemoveByPublicKey : List (Nat × Address) := []

namespace AccountStateCache
variable {Address MosaicId : Type} [DecidableEq Address] [DecidableEq MosaicId]

def find (cache : AccountStateCache Address MosaicId) (address : Address) : Option (AccountState Address MosaicId) :=
  if address ∈ cache.addresses then some (cache.accounts address) else none

def set (cache : AccountStateCache Address MosaicId) (address : Address) (account : AccountState Address MosaicId) :
    AccountStateCache Address MosaicId :=
  { cache with accounts := Function.update cache.accounts address account }

def addAccount (cache : AccountStateCache Address MosaicId) (address : Address) (height : Nat) :
    AccountStateCache Address MosaicId :=
  if address ∈ cache.addresses then cache
  else { cache.set address { addressHeight := height } with addresses := insert address cache.addresses }

/-- `addAccount` for a public key, which is kept with the account from then on. -/
def addPublicKey (cache : AccountStateCache Address MosaicId) (address : Address) (height : Nat) :
    AccountStateCache Address MosaicId :=
  let added := cache.addAccount address height
  if (added.accounts address).publicKeyHeight ≠ 0 then added
  else added.set address { added.accounts address with publicKeyHeight := height }

def queueRemove (cache : AccountStateCache Address MosaicId) (address : Address) (height : Nat) :
    AccountStateCache Address MosaicId :=
  { cache with queuedRemoveByAddress := (height, address) :: cache.queuedRemoveByAddress }

def queueRemovePublicKey (cache : AccountStateCache Address MosaicId) (address : Address) (height : Nat) :
    AccountStateCache Address MosaicId :=
  { cache with queuedRemoveByPublicKey := (height, address) :: cache.queuedRemoveByPublicKey }

def remove (cache : AccountStateCache Address MosaicId) (queued : Nat × Address) :
    AccountStateCache Address MosaicId :=
  if queued.2 ∈ cache.addresses ∧ queued.1 = (cache.accounts queued.2).addressHeight then
    { cache with addresses := cache.addresses.erase queued.2 }
  else cache

def removePublicKey (cache : AccountStateCache Address MosaicId) (queued : Nat × Address) :
    AccountStateCache Address MosaicId :=
  let account := cache.accounts queued.2
  if ¬(queued.2 ∈ cache.addresses ∧ queued.1 = account.publicKeyHeight) then cache
  else if account.publicKeyHeight = account.addressHeight then
    { cache with addresses := cache.addresses.erase queued.2 }
  else cache.set queued.2 { account with publicKeyHeight := 0 }

def commitRemovals (cache : AccountStateCache Address MosaicId) : AccountStateCache Address MosaicId :=
  let removed := cache.queuedRemoveByPublicKey.foldl removePublicKey (cache.queuedRemoveByAddress.foldl remove cache)
  { removed with queuedRemoveByAddress := [], queuedRemoveByPublicKey := [] }

def setBalance (cache : AccountStateCache Address MosaicId) (address : Address) (mosaicId : MosaicId) (amount : Nat) :
    AccountStateCache Address MosaicId :=
  let account := cache.accounts address
  cache.set address { account with balances := Function.update account.balances mosaicId amount }

def credit (cache : AccountStateCache Address MosaicId) (address : Address) (mosaicId : MosaicId) (amount : Nat) :
    Option (AccountStateCache Address MosaicId) := do
  let account ← cache.find address
  return cache.setBalance address mosaicId ((account.balances mosaicId + amount) % 2 ^ 64)

def debit (cache : AccountStateCache Address MosaicId) (address : Address) (mosaicId : MosaicId) (amount : Nat) :
    Option (AccountStateCache Address MosaicId) := do
  let account ← cache.find address
  if account.balances mosaicId < amount then none
  else return cache.setBalance address mosaicId (account.balances mosaicId - amount)

/-- The account that `ProcessForwardedAccountState` acts on: the main account of a remote, which must be linked back. -/
def forwarded (cache : AccountStateCache Address MosaicId) (address : Address) : Option Address := do
  let account ← cache.find address
  if account.accountType ≠ .remote then return address
  else
    let linkedAddress ← account.linked
    let linkedAccount ← cache.find linkedAddress
    if linkedAccount.accountType = .main ∧ linkedAccount.linked = some address then return linkedAddress else none

def balance (cache : AccountStateCache Address MosaicId) (address : Address) (mosaicId : MosaicId) : Nat :=
  if address ∈ cache.addresses then (cache.accounts address).balances mosaicId else 0

def total (cache : AccountStateCache Address MosaicId) (mosaicId : MosaicId) : Nat :=
  ∑ address ∈ cache.addresses, cache.balance address mosaicId

variable {cache cache' : AccountStateCache Address MosaicId} {address other : Address} {mosaicId mosaic : MosaicId}
  {amount height : Nat}

omit [DecidableEq MosaicId] in
theorem balance_of_mem (h : address ∈ cache.addresses) :
    cache.balance address mosaicId = (cache.accounts address).balances mosaicId := if_pos h

theorem balance_setBalance (h : address ∈ cache.addresses) :
    (cache.setBalance address mosaicId amount).balance other mosaic =
      if other = address ∧ mosaic = mosaicId then amount else cache.balance other mosaic := by
  unfold balance setBalance set
  by_cases hother : other = address
  · subst hother
    by_cases hmosaic : mosaic = mosaicId
    · subst hmosaic
      simp [h]
    · simp [h, hmosaic]
  · simp [hother]

theorem total_setBalance (h : address ∈ cache.addresses) :
    (cache.setBalance address mosaicId amount).total mosaicId + cache.balance address mosaicId =
      cache.total mosaicId + amount := by
  have hsplit : ∀ f : Address → Nat,
      ∑ a ∈ cache.addresses, f a = f address + ∑ a ∈ cache.addresses.erase address, f a :=
    fun f => (Finset.add_sum_erase _ f h).symm
  unfold total
  rw [show (cache.setBalance address mosaicId amount).addresses = cache.addresses from rfl, hsplit, hsplit,
    balance_setBalance h, if_pos ⟨rfl, rfl⟩]
  have hrest : ∑ a ∈ cache.addresses.erase address, (cache.setBalance address mosaicId amount).balance a mosaicId =
      ∑ a ∈ cache.addresses.erase address, cache.balance a mosaicId := by
    refine Finset.sum_congr rfl fun a ha => ?_
    rw [balance_setBalance h, if_neg fun hab => (Finset.mem_erase.1 ha).1 hab.1]
  rw [hrest]
  omega

theorem total_setBalance_of_ne (h : address ∈ cache.addresses) (hne : mosaic ≠ mosaicId) :
    (cache.setBalance address mosaicId amount).total mosaic = cache.total mosaic := by
  unfold total
  refine Finset.sum_congr rfl fun a _ => ?_
  rw [balance_setBalance h, if_neg fun hab => hne hab.2]

omit [DecidableEq MosaicId] in
theorem balance_le_total : cache.balance address mosaicId ≤ cache.total mosaicId := by
  by_cases h : address ∈ cache.addresses
  · exact Finset.single_le_sum (f := fun a => cache.balance a mosaicId) (fun a _ => Nat.zero_le _) h
  · rw [balance, if_neg h]
    exact Nat.zero_le _

omit [DecidableEq MosaicId] in
theorem find_eq_some {account : AccountState Address MosaicId} :
    cache.find address = some account ↔ address ∈ cache.addresses ∧ cache.accounts address = account := by
  unfold find
  split <;> simp_all

theorem debit_eq_some : cache.debit address mosaicId amount = some cache' ↔
    address ∈ cache.addresses ∧ amount ≤ cache.balance address mosaicId ∧
      cache.setBalance address mosaicId (cache.balance address mosaicId - amount) = cache' := by
  unfold debit find balance
  by_cases h : address ∈ cache.addresses
  · simp only [h, if_true, Option.bind_eq_bind, Option.bind_some, true_and]
    split
    · rename_i hlt
      simp only [reduceCtorEq, false_iff]
      omega
    · rename_i hlt
      simp only [Option.pure_def, Option.some.injEq, not_lt.1 hlt, true_and]
  · simp [h]

theorem credit_eq_some : cache.credit address mosaicId amount = some cache' ↔
    address ∈ cache.addresses ∧
      cache.setBalance address mosaicId ((cache.balance address mosaicId + amount) % 2 ^ 64) = cache' := by
  unfold credit find balance
  by_cases h : address ∈ cache.addresses <;> simp [h]

theorem total_debit (h : cache.debit address mosaicId amount = some cache') :
    cache'.total mosaicId + amount = cache.total mosaicId := by
  obtain ⟨hmem, hle, rfl⟩ := debit_eq_some.1 h
  have hset : (cache.setBalance address mosaicId (cache.balance address mosaicId - amount)).total mosaicId +
      cache.balance address mosaicId = _ := total_setBalance hmem
  omega

theorem total_credit (h : cache.credit address mosaicId amount = some cache')
    (hfits : cache.total mosaicId + amount < 2 ^ 64) : cache'.total mosaicId = cache.total mosaicId + amount := by
  obtain ⟨hmem, rfl⟩ := credit_eq_some.1 h
  have hle : cache.balance address mosaicId ≤ cache.total mosaicId := balance_le_total
  rw [Nat.mod_eq_of_lt (by omega)]
  have hset : (cache.setBalance address mosaicId (cache.balance address mosaicId + amount)).total mosaicId +
      cache.balance address mosaicId = _ := total_setBalance hmem
  omega

theorem total_debit_of_ne (h : cache.debit address mosaicId amount = some cache') (hne : mosaic ≠ mosaicId) :
    cache'.total mosaic = cache.total mosaic := by
  obtain ⟨hmem, -, rfl⟩ := debit_eq_some.1 h
  exact total_setBalance_of_ne hmem hne

theorem total_credit_of_ne (h : cache.credit address mosaicId amount = some cache') (hne : mosaic ≠ mosaicId) :
    cache'.total mosaic = cache.total mosaic := by
  obtain ⟨hmem, rfl⟩ := credit_eq_some.1 h
  exact total_setBalance_of_ne hmem hne

def SameQueue (cache cache' : AccountStateCache Address MosaicId) : Prop :=
  cache.queuedRemoveByAddress = cache'.queuedRemoveByAddress ∧
    cache.queuedRemoveByPublicKey = cache'.queuedRemoveByPublicKey

omit [DecidableEq Address] [DecidableEq MosaicId] in
theorem SameQueue.trans {cache'' : AccountStateCache Address MosaicId} (h : SameQueue cache cache')
    (h' : SameQueue cache' cache'') : SameQueue cache cache'' := ⟨h.1.trans h'.1, h.2.trans h'.2⟩

theorem sameQueue_debit (h : cache.debit address mosaicId amount = some cache') : SameQueue cache' cache := by
  obtain ⟨-, -, rfl⟩ := debit_eq_some.1 h
  exact ⟨rfl, rfl⟩

theorem sameQueue_credit (h : cache.credit address mosaicId amount = some cache') : SameQueue cache' cache := by
  obtain ⟨-, rfl⟩ := credit_eq_some.1 h
  exact ⟨rfl, rfl⟩

omit [DecidableEq MosaicId] in
theorem sameQueue_addAccount : SameQueue (cache.addAccount address height) cache := by
  unfold addAccount
  split <;> exact ⟨rfl, rfl⟩

omit [DecidableEq MosaicId] in
theorem sameQueue_addPublicKey : SameQueue (cache.addPublicKey address height) cache := by
  dsimp only [addPublicKey]
  split
  · exact sameQueue_addAccount
  · exact ⟨sameQueue_addAccount.1, sameQueue_addAccount.2⟩

/-- What balance changes and added accounts leave of an account. -/
structure SameLinks (account account' : AccountState Address MosaicId) : Prop where
  addressHeight : account.addressHeight = account'.addressHeight
  accountType : account.accountType = account'.accountType
  linked : account.linked = account'.linked

/-- All accounts of `cache'` are in `cache`, with their links. -/
structure Extends (cache cache' : AccountStateCache Address MosaicId) : Prop where
  addresses : cache'.addresses ⊆ cache.addresses
  accounts : ∀ address ∈ cache'.addresses, SameLinks (cache.accounts address) (cache'.accounts address)

section
omit [DecidableEq Address] [DecidableEq MosaicId]

theorem Extends.refl : Extends cache cache := ⟨Finset.Subset.refl _, fun _ _ => ⟨rfl, rfl, rfl⟩⟩

theorem Extends.trans {cache'' : AccountStateCache Address MosaicId} (h : Extends cache cache')
    (h' : Extends cache' cache'') : Extends cache cache'' := by
  refine ⟨h'.addresses.trans h.addresses, fun address hmem => ?_⟩
  have hlinks := h.accounts address (h'.addresses hmem)
  have hlinks' := h'.accounts address hmem
  exact ⟨hlinks.addressHeight.trans hlinks'.addressHeight, hlinks.accountType.trans hlinks'.accountType,
    hlinks.linked.trans hlinks'.linked⟩

end

omit [DecidableEq MosaicId] in
theorem extends_set {account : AccountState Address MosaicId} (h : SameLinks account (cache.accounts address)) :
    Extends (cache.set address account) cache ∧ Extends cache (cache.set address account) := by
  have hlinks : ∀ other, SameLinks ((cache.set address account).accounts other) (cache.accounts other) := by
    intro other
    unfold set
    by_cases hother : other = address
    · subst hother
      simpa using h
    · simp only [Function.update_of_ne hother]
      exact ⟨rfl, rfl, rfl⟩
  refine ⟨⟨Finset.Subset.refl _, fun other _ => hlinks other⟩, ⟨Finset.Subset.refl _, fun other _ => ?_⟩⟩
  exact ⟨(hlinks other).addressHeight.symm, (hlinks other).accountType.symm, (hlinks other).linked.symm⟩

theorem extends_setBalance : Extends (cache.setBalance address mosaicId amount) cache ∧
    Extends cache (cache.setBalance address mosaicId amount) := extends_set ⟨rfl, rfl, rfl⟩

section
omit [DecidableEq MosaicId]

theorem extends_addAccount : Extends (cache.addAccount address height) cache := by
  unfold addAccount
  split
  · exact Extends.refl
  · rename_i hmem
    refine ⟨Finset.subset_insert _ _, fun other hother => ?_⟩
    have hne : other ≠ address := fun hab => hmem (hab ▸ hother)
    simp only [set, Function.update_of_ne hne]
    exact ⟨rfl, rfl, rfl⟩

theorem balance_addAccount : (cache.addAccount address height).balance other mosaic = cache.balance other mosaic := by
  unfold addAccount
  split
  · rfl
  · rename_i hmem
    unfold balance set
    by_cases hother : other = address
    · subst hother
      simp [hmem]
    · simp [hother]

theorem extends_addPublicKey : Extends (cache.addPublicKey address height) cache := by
  dsimp only [addPublicKey]
  split
  · exact extends_addAccount
  · refine (extends_set ?_).1.trans extends_addAccount
    exact ⟨rfl, rfl, rfl⟩

theorem balance_set {account : AccountState Address MosaicId}
    (h : account.balances = (cache.accounts address).balances) :
    (cache.set address account).balance other mosaic = cache.balance other mosaic := by
  unfold balance set
  by_cases hother : other = address
  · subst hother
    simp [h]
  · simp [hother]

theorem balance_addPublicKey :
    (cache.addPublicKey address height).balance other mosaic = cache.balance other mosaic := by
  dsimp only [addPublicKey]
  split
  · exact balance_addAccount
  · refine (balance_set ?_).trans balance_addAccount
    rfl

theorem total_eq_of_balance (hsub : cache'.addresses ⊆ cache.addresses)
    (h : ∀ other, cache.balance other mosaic = cache'.balance other mosaic) :
    cache.total mosaic = cache'.total mosaic := by
  unfold total
  rw [Finset.sum_congr rfl fun other _ => h other]
  refine (Finset.sum_subset hsub fun other _ hother => ?_).symm
  rw [balance, if_neg hother]

theorem forwarded_of_extends (h : Extends cache cache') (hforwarded : cache'.forwarded address = some other) :
    cache.forwarded address = some other := by
  have hfind : ∀ a account', cache'.find a = some account' →
      ∃ account, cache.find a = some account ∧ SameLinks account account' := by
    intro a account' hfound
    obtain ⟨hmem, rfl⟩ := find_eq_some.1 hfound
    exact ⟨_, find_eq_some.2 ⟨h.addresses hmem, rfl⟩, h.accounts a hmem⟩
  unfold forwarded at hforwarded ⊢
  obtain ⟨account', hfound, hrest⟩ := Option.bind_eq_some_iff.1 hforwarded
  obtain ⟨account, haccount, hlinks⟩ := hfind _ _ hfound
  rw [haccount]
  simp only [Option.bind_eq_bind, Option.bind_some, hlinks.accountType, hlinks.linked]
  split at hrest
  · rw [if_pos (by assumption)]
    exact hrest
  · obtain ⟨linkedAddress, hlinked, hrest⟩ := Option.bind_eq_some_iff.1 hrest
    obtain ⟨linkedAccount', hfound, hrest⟩ := Option.bind_eq_some_iff.1 hrest
    obtain ⟨linkedAccount, hlinkedAccount, hlinkedLinks⟩ := hfind _ _ hfound
    rw [if_neg (by assumption), hlinked]
    simp only [Option.bind_some, hlinkedAccount, hlinkedLinks.accountType, hlinkedLinks.linked]
    exact hrest

theorem mem_of_forwarded (h : cache.forwarded address = some other) : other ∈ cache.addresses := by
  unfold forwarded at h
  obtain ⟨account, hfound, h⟩ := Option.bind_eq_some_iff.1 h
  split at h
  · cases h
    exact (find_eq_some.1 hfound).1
  · obtain ⟨linkedAddress, -, h⟩ := Option.bind_eq_some_iff.1 h
    obtain ⟨linkedAccount, hfound, h⟩ := Option.bind_eq_some_iff.1 h
    split at h
    · cases h
      exact (find_eq_some.1 hfound).1
    · cases h

end

/-- `cache` has the accounts and balances of `cache'`, and possibly empty accounts that `height` has added. -/
structure Agrees (height : Nat) (cache cache' : AccountStateCache Address MosaicId) : Prop
    extends Extends cache cache' where
  balance : ∀ address mosaicId, cache.balance address mosaicId = cache'.balance address mosaicId
  queued : ∀ queued ∈ cache.queuedRemoveByAddress ++ cache.queuedRemoveByPublicKey, queued.1 = height

omit [DecidableEq MosaicId] in
theorem Extends.erase (h : Extends cache cache') (hbalance : ∀ a m, cache.balance a m = cache'.balance a m)
    (hnew : ∀ a ∈ cache'.addresses, (cache'.accounts a).addressHeight ≠ height)
    (hheight : height = (cache.accounts address).addressHeight) :
    Extends { cache with addresses := cache.addresses.erase address } cache' ∧
      ∀ a m, AccountStateCache.balance { cache with addresses := cache.addresses.erase address } a m =
        cache'.balance a m := by
  have hnot : address ∉ cache'.addresses := by
    intro hmem
    exact hnew address hmem ((h.accounts address hmem).addressHeight.symm.trans hheight.symm)
  refine ⟨⟨fun a ha => ?_, h.accounts⟩, fun a m => ?_⟩
  · exact Finset.mem_erase.2 ⟨fun hab => hnot (hab ▸ ha), h.addresses ha⟩
  · rw [← hbalance a m]
    unfold balance
    by_cases ha : a = address
    · subst ha
      have hzero : cache.balance a m = 0 := by rw [hbalance a m, balance, if_neg hnot]
      simpa [balance] using hzero.symm
    · simp [ha]

omit [DecidableEq MosaicId] in
theorem Agrees.commitRemovals (h : Agrees height cache cache')
    (hnew : ∀ a ∈ cache'.addresses, (cache'.accounts a).addressHeight ≠ height) :
    Agrees height cache.commitRemovals cache' := by
  let Kept (c : AccountStateCache Address MosaicId) := Extends c cache' ∧ ∀ a m, c.balance a m = cache'.balance a m
  have hremove : ∀ c queued, queued.1 = height → Kept c → Kept (c.remove queued) := by
    rintro c ⟨queuedHeight, a⟩ rfl ⟨hextends, hbalance⟩
    unfold remove
    split
    · rename_i hfound
      exact hextends.erase hbalance hnew hfound.2
    · exact ⟨hextends, hbalance⟩
  have hremoveKey : ∀ c queued, queued.1 = height → Kept c → Kept (c.removePublicKey queued) := by
    rintro c ⟨queuedHeight, a⟩ rfl ⟨hextends, hbalance⟩
    dsimp only [removePublicKey]
    split
    · exact ⟨hextends, hbalance⟩
    · rename_i hfound
      obtain ⟨-, hheight⟩ := not_not.1 hfound
      split
      · rename_i hsame
        exact hextends.erase hbalance hnew (hheight.trans hsame)
      · refine ⟨(extends_set ?_).1.trans hextends, fun b m => (balance_set ?_).trans (hbalance b m)⟩
        · exact ⟨rfl, rfl, rfl⟩
        · rfl
  have hfold : ∀ (step : AccountStateCache Address MosaicId → Nat × Address → AccountStateCache Address MosaicId),
      (∀ c queued, queued.1 = height → Kept c → Kept (step c queued)) →
      ∀ (l : List (Nat × Address)) c, (∀ queued ∈ l, queued.1 = height) → Kept c → Kept (l.foldl step c) := by
    intro step hstep l
    induction l with
    | nil => exact fun c _ hc => hc
    | cons queued l ih =>
      intro c hl hc
      exact ih _ (fun q hq => hl q (List.mem_cons_of_mem _ hq)) (hstep c queued (hl queued List.mem_cons_self) hc)
  have haddress := hfold _ hremove cache.queuedRemoveByAddress cache
    (fun q hq => h.queued q (List.mem_append_left _ hq)) ⟨h.toExtends, h.balance⟩
  obtain ⟨hextends, hbalance⟩ := hfold _ hremoveKey cache.queuedRemoveByPublicKey _
    (fun q hq => h.queued q (List.mem_append_right _ hq)) haddress
  exact ⟨⟨hextends.addresses, hextends.accounts⟩, hbalance, by simp [AccountStateCache.commitRemovals]⟩

end AccountStateCache

end Catapult.Currency
