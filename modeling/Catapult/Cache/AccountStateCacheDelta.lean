import Catapult.DeltaSet.Generations

/-!
# Account states and their public keys (`BasicAccountStateCacheDelta`)

The cache keeps account states by address in a set of mutable elements and the addresses of public keys in a set of
immutable ones. An immutable element that is removed and inserted again is the one that was seen first, so the lookup
map is a finite map only as long as a key always comes with the same address (`Holds`).
-/

namespace Catapult.Cache
open DeltaSet DeltaSet.BaseSetDelta

abbrev Height := UInt64

/-- What identifies an account. The public key is present if its height is not zero. -/
structure AccountIdentity (Address Key : Type*) where
  address : Address
  addressHeight : Height
  publicKey : Key
  publicKeyHeight : Height
  deriving DecidableEq

structure AccountState (Address Key Balances : Type*) extends AccountIdentity Address Key where
  balances : Balances

/-- Public key removals clear linked addresses, or they do not. -/
inductive CommitRemovalsMode where
  | linked
  | unlinked
  deriving DecidableEq

structure AccountStateCacheDelta (Primary PrimaryMemory Lookup LookupMemory Address Key : Type*) where
  stateByAddress : BaseSetDelta Primary PrimaryMemory Address
  keyToAddress : BaseSetDelta Lookup LookupMemory Key
  queuedRemoveByAddress : Finset (Height × Address)
  queuedRemoveByPublicKey : Finset (Height × Key)

variable {Primary PrimaryMemory Lookup LookupMemory Address Key Balances : Type*} [DecidableEq Address]
  [DecidableEq Key]
  [Container Primary Address (AccountState Address Key Balances)]
  [Container PrimaryMemory Address (AccountState Address Key Balances)]
  [Container Lookup Key Address] [Container LookupMemory Key Address]

namespace AccountStateCacheDelta

section Operations
variable [Inhabited Key] [Inhabited Balances] (optimize : Balances → Balances) (publicKeyToAddress : Key → Address)
  (cache : AccountStateCacheDelta Primary PrimaryMemory Lookup LookupMemory Address Key)

/-- What the mutable `find` does to an account state before it is returned. -/
def prepare (state : AccountState Address Key Balances) : AccountState Address Key Balances :=
  { state with balances := optimize state.balances }

def addAccountState (state : AccountState Address Key Balances) :
    AccountStateCacheDelta Primary PrimaryMemory Lookup LookupMemory Address Key :=
  if cache.stateByAddress.contains state.address then cache
  else
    { cache with
      keyToAddress :=
        if state.publicKeyHeight ≠ 0 then (cache.keyToAddress.insertImmutable state.publicKey state.address).1
        else cache.keyToAddress
      stateByAddress := (cache.stateByAddress.insert state.address state).1.modify state.address (prepare optimize) }

def addAccountAddress (address : Address) (height : Height) :
    AccountStateCacheDelta Primary PrimaryMemory Lookup LookupMemory Address Key :=
  if cache.stateByAddress.contains address then cache
  else cache.addAccountState optimize ⟨⟨address, height, default, 0⟩, default⟩

def getAddress (publicKey : Key) :
    AccountStateCacheDelta Primary PrimaryMemory Lookup LookupMemory Address Key × Address :=
  match cache.keyToAddress.findImmutable publicKey with
  | some address => (cache, address)
  | none =>
    let address := publicKeyToAddress publicKey
    ({ cache with keyToAddress := (cache.keyToAddress.insertImmutable publicKey address).1 }, address)

/-- `addAccount` of a public key; `none` when it throws. -/
def addAccountKey (publicKey : Key) (height : Height) :
    Option (AccountStateCacheDelta Primary PrimaryMemory Lookup LookupMemory Address Key) :=
  let (cache, address) := cache.getAddress publicKeyToAddress publicKey
  let cache := cache.addAccountAddress optimize address height
  match cache.stateByAddress.find address with
  | none => none
  | some state =>
    -- optimize common case where public key is already known by not marking account as dirty in that case
    if state.publicKeyHeight ≠ 0 then some cache
    else
      some { cache with
        stateByAddress := cache.stateByAddress.modify address fun state =>
          { prepare optimize state with publicKey, publicKeyHeight := height } }

def queueRemoveAddress (address : Address) (height : Height) :
    AccountStateCacheDelta Primary PrimaryMemory Lookup LookupMemory Address Key :=
  { cache with queuedRemoveByAddress := insert (height, address) cache.queuedRemoveByAddress }

def queueRemoveKey (publicKey : Key) (height : Height) :
    AccountStateCacheDelta Primary PrimaryMemory Lookup LookupMemory Address Key :=
  { cache with queuedRemoveByPublicKey := insert (height, publicKey) cache.queuedRemoveByPublicKey }

def clearRemoveAddress (address : Address) (height : Height) :
    AccountStateCacheDelta Primary PrimaryMemory Lookup LookupMemory Address Key :=
  { cache with queuedRemoveByAddress := cache.queuedRemoveByAddress.erase (height, address) }

def clearRemoveKey (publicKey : Key) (height : Height) :
    AccountStateCacheDelta Primary PrimaryMemory Lookup LookupMemory Address Key :=
  { cache with queuedRemoveByPublicKey := cache.queuedRemoveByPublicKey.erase (height, publicKey) }

def removeAddress (address : Address) (height : Height) :
    AccountStateCacheDelta Primary PrimaryMemory Lookup LookupMemory Address Key :=
  let cache := { cache with stateByAddress := cache.stateByAddress.modify address (prepare optimize) }
  match cache.stateByAddress.find address with
  | none => cache
  | some state =>
    if height ≠ state.addressHeight then cache
    else
      { cache with
        -- the entry can only be removed if the account state's public key is valid
        keyToAddress :=
          if state.publicKeyHeight ≠ 0 then (cache.keyToAddress.removeImmutable state.publicKey).1
          else cache.keyToAddress
        stateByAddress := (cache.stateByAddress.remove address).1 }

def removeKey (mode : CommitRemovalsMode) (publicKey : Key) (height : Height) :
    AccountStateCacheDelta Primary PrimaryMemory Lookup LookupMemory Address Key :=
  match cache.keyToAddress.findImmutable publicKey with
  | none => cache
  | some address =>
    let cache := { cache with stateByAddress := cache.stateByAddress.modify address (prepare optimize) }
    match cache.stateByAddress.find address with
    | none => cache
    | some state =>
      if height ≠ state.publicKeyHeight then cache
      else
        let cache := { cache with keyToAddress := (cache.keyToAddress.removeImmutable state.publicKey).1 }
        -- if same height, remove address entry too
        if mode = .linked ∧ state.publicKeyHeight = state.addressHeight then
          { cache with stateByAddress := (cache.stateByAddress.remove state.address).1 }
        else
          { cache with
            stateByAddress := cache.stateByAddress.modify address fun state =>
              { state with publicKey := default, publicKeyHeight := 0 } }

/-- `commitRemovals`, where the queued removals are visited in the given orders. -/
def commitRemovals (mode : CommitRemovalsMode) (addresses : List (Height × Address))
    (publicKeys : List (Height × Key)) :
    AccountStateCacheDelta Primary PrimaryMemory Lookup LookupMemory Address Key :=
  let cache := addresses.foldl (fun cache entry => cache.removeAddress optimize entry.2 entry.1) cache
  let cache := publicKeys.foldl (fun cache entry => cache.removeKey optimize mode entry.2 entry.1) cache
  { cache with queuedRemoveByAddress := ∅, queuedRemoveByPublicKey := ∅ }

end Operations

/-! ### What a cache shows -/

def account (cache : AccountStateCacheDelta Primary PrimaryMemory Lookup LookupMemory Address Key) (address : Address) :
    Option (AccountIdentity Address Key) :=
  (cache.stateByAddress.find address).map AccountState.toAccountIdentity

def addressOf (cache : AccountStateCacheDelta Primary PrimaryMemory Lookup LookupMemory Address Key) (publicKey : Key) :
    Option Address :=
  cache.keyToAddress.findImmutable publicKey

def publicKeyOf (account : Option (AccountIdentity Address Key)) : Option Key :=
  account.bind fun identity => if identity.publicKeyHeight ≠ 0 then some identity.publicKey else none

omit [DecidableEq Address] [DecidableEq Key] in
@[simp] theorem publicKeyOf_none : publicKeyOf (none : Option (AccountIdentity Address Key)) = none := rfl

/-- The lookup map has the public keys of the accounts and no others. Every key has its `owner`. -/
structure Coherent (owner : Key → Address) (keys : Set Key)
    (cache : AccountStateCacheDelta Primary PrimaryMemory Lookup LookupMemory Address Key) : Prop where
  primary : cache.stateByAddress.Invariant
  holds : Holds owner cache.keyToAddress
  address : ∀ address identity, cache.account address = some identity → identity.address = address
  owned : ∀ address publicKey, publicKeyOf (cache.account address) = some publicKey →
    publicKey ∈ keys ∧ owner publicKey = address
  lookup : ∀ publicKey address,
    cache.addressOf publicKey = some address ↔ publicKeyOf (cache.account address) = some publicKey

section Views
variable {owner : Key → Address} {keys : Set Key} (optimize : Balances → Balances)
  {cache cache' : AccountStateCacheDelta Primary PrimaryMemory Lookup LookupMemory Address Key}

theorem Coherent.replace (h : Coherent owner keys cache) {address : Address}
    {identity : Option (AccountIdentity Address Key)} (hprimary : cache'.stateByAddress.Invariant)
    (hholds : Holds owner cache'.keyToAddress)
    (haccount : cache'.account = Function.update cache.account address identity)
    (haddress : ∀ i, identity = some i → i.address = address)
    (howned : ∀ publicKey, publicKeyOf identity = some publicKey → publicKey ∈ keys ∧ owner publicKey = address)
    (hlookup : ∀ publicKey, cache'.addressOf publicKey =
      if publicKeyOf identity = some publicKey then some address
      else if publicKeyOf (cache.account address) = some publicKey then none else cache.addressOf publicKey) :
    Coherent owner keys cache' := by
  refine ⟨hprimary, hholds, ?_, ?_, ?_⟩
  · intro address' i hi
    rw [haccount, Function.update_apply] at hi
    split at hi
    · rename_i heq
      rw [heq]
      exact haddress i hi
    · exact h.address address' i hi
  · intro address' publicKey hkey
    rw [haccount, Function.update_apply] at hkey
    split at hkey
    · rename_i heq
      rw [heq]
      exact howned publicKey hkey
    · exact h.owned address' publicKey hkey
  · intro publicKey address'
    rw [hlookup, haccount, Function.update_apply]
    by_cases haddr : address' = address
    · subst haddr
      rw [if_pos rfl]
      split
      · rename_i hnew
        exact iff_of_true rfl hnew
      · rename_i hnew
        split
        · exact iff_of_false (Option.some_ne_none _).symm hnew
        · rename_i hold
          rw [h.lookup]
          exact iff_of_false hold hnew
    · rw [if_neg haddr]
      split
      · rename_i hnew
        refine iff_of_false (fun heq => haddr (Option.some.inj heq).symm) fun hkey => haddr ?_
        rw [← (h.owned address' publicKey hkey).2, (howned publicKey hnew).2]
      · split
        · rename_i hold
          refine iff_of_false (Option.some_ne_none _).symm fun hkey => haddr ?_
          rw [← (h.owned address' publicKey hkey).2, (h.owned address publicKey hold).2]
        · exact h.lookup publicKey address'

section
omit [DecidableEq Key] [Container Lookup Key Address] [Container LookupMemory Key Address]

theorem account_modify (hprimary : cache.stateByAddress.Invariant) (address : Address)
    (f : AccountState Address Key Balances → AccountState Address Key Balances)
    (g : AccountIdentity Address Key → AccountIdentity Address Key)
    (hfg : ∀ state, (f state).toAccountIdentity = g state.toAccountIdentity) :
    ({ cache with stateByAddress := cache.stateByAddress.modify address f } :
      AccountStateCacheDelta Primary PrimaryMemory Lookup LookupMemory Address Key).account =
      Function.update cache.account address ((cache.account address).map g) := by
  funext address'
  have hfind : (cache.stateByAddress.modify address f).find = Function.update cache.stateByAddress.find address
      ((cache.stateByAddress.find address).map f) := (hprimary.apply (.modify address f)).2
  rw [account, hfind, Function.update_apply, Function.update_apply, account]
  split
  · rw [Option.map_map, Option.map_map]
    exact congrArg (fun k => (cache.stateByAddress.find address).map k) (funext hfg)
  · rfl

theorem account_prepare (hprimary : cache.stateByAddress.Invariant) (address : Address) :
    ({ cache with stateByAddress := cache.stateByAddress.modify address (prepare optimize) } :
      AccountStateCacheDelta Primary PrimaryMemory Lookup LookupMemory Address Key).account = cache.account := by
  rw [account_modify hprimary address (prepare optimize) id fun state => rfl, Option.map_id, id_eq,
    Function.update_eq_self]

end

theorem Coherent.modify_prepare (h : Coherent owner keys cache) (address : Address) :
    Coherent owner keys ({ cache with stateByAddress := cache.stateByAddress.modify address (prepare optimize) } :
      AccountStateCacheDelta Primary PrimaryMemory Lookup LookupMemory Address Key) := by
  have haccount := account_prepare optimize h.primary address
  refine ⟨(h.primary.apply (.modify address (prepare optimize))).1, h.holds, ?_, ?_, ?_⟩
  · rw [haccount]
    exact h.address
  · rw [haccount]
    exact h.owned
  · rw [haccount]
    exact h.lookup

end Views

/-! ### Additions -/

section Additions
variable {owner : Key → Address} {keys : Set Key} (optimize : Balances → Balances)
  {cache : AccountStateCacheDelta Primary PrimaryMemory Lookup LookupMemory Address Key}

omit [DecidableEq Key] [Container Lookup Key Address] [Container LookupMemory Key Address] in
theorem contains_iff_account (hprimary : cache.stateByAddress.Invariant) {address : Address} :
    cache.stateByAddress.contains address = true ↔ cache.account address ≠ none := by
  rw [BaseSetDelta.contains_iff hprimary, account, ne_eq, ne_eq, Option.map_eq_none_iff]

theorem addAccountState_of_known (hprimary : cache.stateByAddress.Invariant) {state : AccountState Address Key Balances}
    (hknown : cache.account state.address ≠ none) : cache.addAccountState optimize state = cache := by
  rw [addAccountState, if_pos ((contains_iff_account hprimary).2 hknown)]

theorem account_addAccountState (hprimary : cache.stateByAddress.Invariant) {state : AccountState Address Key Balances}
    (hnew : cache.account state.address = none) :
    (cache.addAccountState optimize state).stateByAddress.Invariant ∧
      (cache.addAccountState optimize state).account =
        Function.update cache.account state.address (some state.toAccountIdentity) := by
  have hnot : ¬cache.stateByAddress.contains state.address = true := fun h => (contains_iff_account hprimary).1 h hnew
  obtain ⟨hinsert, hfind⟩ := hprimary.apply (.insert state.address state)
  obtain ⟨hmodify, hfind'⟩ := hinsert.apply (.modify state.address (prepare optimize))
  rw [addAccountState, if_neg hnot]
  refine ⟨hmodify, funext fun address => ?_⟩
  have heq : ((cache.stateByAddress.insert state.address state).1.modify state.address
    (prepare optimize)).find address =
      _ := congrFun hfind' address
  rw [account, heq, SetOperation.applyToMap, hfind, SetOperation.applyToMap, Function.update_self, Function.update_idem,
    Function.update_apply, Function.update_apply]
  split <;> rfl

theorem Coherent.addAccountState (h : Coherent owner keys cache) {state : AccountState Address Key Balances}
    (hstate : state.publicKeyHeight ≠ 0 → state.publicKey ∈ keys ∧ owner state.publicKey = state.address) :
    Coherent owner keys (cache.addAccountState optimize state) := by
  cases hknown : cache.account state.address with
  | some identity =>
    rw [addAccountState_of_known optimize h.primary (by rw [hknown]; exact Option.some_ne_none _)]
    exact h
  | none =>
    obtain ⟨hprimary, haccount⟩ := account_addAccountState optimize h.primary hknown
    have hnot : ¬cache.stateByAddress.contains state.address = true :=
      fun hc => (contains_iff_account h.primary).1 hc hknown
    have hkey : (cache.addAccountState optimize state).keyToAddress =
        if state.publicKeyHeight ≠ 0 then (cache.keyToAddress.insertImmutable state.publicKey state.address).1
        else cache.keyToAddress := by
      rw [AccountStateCacheDelta.addAccountState, if_neg hnot]
    have hpublic : publicKeyOf (some state.toAccountIdentity) =
        if state.publicKeyHeight ≠ 0 then some state.publicKey else none := rfl
    by_cases hheight : state.publicKeyHeight ≠ 0
    · obtain ⟨hmem, howner⟩ := hstate hheight
      rw [if_pos hheight, ← howner] at hkey
      rw [if_pos hheight] at hpublic
      obtain ⟨hholds, hfind⟩ := h.holds.insertImmutable state.publicKey
      refine h.replace hprimary (hkey ▸ hholds) haccount (fun i hi => by cases hi; rfl) ?_ ?_
      · intro publicKey hpk
        rw [hpublic] at hpk
        cases hpk
        exact ⟨hmem, howner⟩
      · intro publicKey
        rw [addressOf, hkey, hfind, Function.update_apply, hpublic, hknown, howner]
        by_cases hpk : publicKey = state.publicKey
        · rw [if_pos hpk, if_pos (by rw [hpk])]
        · rw [if_neg hpk, if_neg fun heq => hpk (Option.some.inj heq).symm, publicKeyOf_none,
            if_neg (Option.some_ne_none _).symm]
          rfl
    · rw [if_neg hheight] at hkey hpublic
      refine h.replace hprimary (hkey ▸ h.holds) haccount (fun i hi => by cases hi; rfl) ?_ ?_
      · intro publicKey hpk
        rw [hpublic] at hpk
        exact absurd hpk (Option.some_ne_none _).symm
      · intro publicKey
        rw [addressOf, hkey, hpublic, hknown, publicKeyOf_none, if_neg (Option.some_ne_none _).symm,
          if_neg (Option.some_ne_none _).symm]
        rfl

variable [Inhabited Key] [Inhabited Balances]

/-- The account that `addAccount` adds for an address, unless there is one. -/
def newIdentity (address : Address) (height : Height) : AccountIdentity Address Key := ⟨address, height, default, 0⟩

theorem addAccountAddress_spec (hprimary : cache.stateByAddress.Invariant) (address : Address) (height : Height) :
    (cache.addAccountAddress optimize address height).stateByAddress.Invariant ∧
      (cache.addAccountAddress optimize address height).account =
        Function.update cache.account address (some ((cache.account address).getD (newIdentity address height))) ∧
      (cache.addAccountAddress optimize address height).keyToAddress = cache.keyToAddress := by
  rw [addAccountAddress]
  cases hknown : cache.account address with
  | some identity =>
    rw [if_pos ((contains_iff_account hprimary).2 (by rw [hknown]; exact Option.some_ne_none _)), Option.getD_some,
      ← hknown, Function.update_eq_self]
    exact ⟨hprimary, rfl, rfl⟩
  | none =>
    have hnot : ¬cache.stateByAddress.contains address = true :=
      fun hc => (contains_iff_account hprimary).1 hc hknown
    obtain ⟨hinv, haccount⟩ := @account_addAccountState Primary PrimaryMemory Lookup LookupMemory Address
      Key Balances _ _ _ _ _ _ optimize cache hprimary ⟨⟨address, height, default, 0⟩, default⟩ hknown
    rw [if_neg hnot]
    refine ⟨hinv, haccount, ?_⟩
    rw [AccountStateCacheDelta.addAccountState, if_neg hnot]
    simp only [ne_eq, not_true_eq_false, if_false]

section
omit [Inhabited Key] [Inhabited Balances]

theorem Coherent.account_of_lookup (h : Coherent owner keys cache) {publicKey : Key} {address : Address}
    (hlookup : cache.addressOf publicKey = some address) :
    ∃ identity, cache.account address = some identity ∧ identity.publicKeyHeight ≠ 0 ∧
      identity.publicKey = publicKey := by
  have hkey := (h.lookup publicKey address).1 hlookup
  cases haccount : cache.account address with
  | none =>
    rw [haccount] at hkey
    exact absurd hkey (Option.some_ne_none _).symm
  | some identity =>
    rw [haccount, publicKeyOf, Option.bind_some] at hkey
    split at hkey
    · rename_i hheight
      exact ⟨identity, rfl, hheight, Option.some.inj hkey⟩
    · exact absurd hkey (Option.some_ne_none _).symm

theorem Coherent.publicKeyOf_owner (h : Coherent owner keys cache) (hinj : Set.InjOn owner keys) {publicKey : Key}
    (hmem : publicKey ∈ keys) (hlookup : cache.addressOf publicKey = none) :
    publicKeyOf (cache.account (owner publicKey)) = none := by
  refine Option.eq_none_iff_forall_ne_some.2 fun other hother => ?_
  obtain ⟨hmem', howner'⟩ := h.owned _ other hother
  have heq : other = publicKey := hinj hmem' hmem howner'
  rw [heq, ← h.lookup, hlookup] at hother
  exact Option.some_ne_none _ hother.symm

end

omit [Inhabited Balances] in
theorem Coherent.setPublicKey (h : Coherent owner keys cache) {publicKey : Key} {height : Height}
    (hmem : publicKey ∈ keys) (hheight : height ≠ 0) (hold : publicKeyOf (cache.account (owner publicKey)) = none)
    {cache' : AccountStateCacheDelta Primary PrimaryMemory Lookup LookupMemory Address Key}
    (hprimary : cache'.stateByAddress.Invariant)
    (haccount : cache'.account = Function.update cache.account (owner publicKey)
      (some ((cache.account (owner publicKey)).getD (newIdentity (owner publicKey) height))))
    (hkey : cache'.keyToAddress = (cache.keyToAddress.insertImmutable publicKey (owner publicKey)).1) :
    Coherent owner keys ({ cache' with
      stateByAddress := cache'.stateByAddress.modify (owner publicKey) fun state =>
        { prepare optimize state with publicKey, publicKeyHeight := height } } :
      AccountStateCacheDelta Primary PrimaryMemory Lookup LookupMemory Address Key) := by
  have hmodify := account_modify hprimary (owner publicKey)
    (fun state => { prepare optimize state with publicKey, publicKeyHeight := height })
    (fun identity => { identity with publicKey, publicKeyHeight := height }) fun state => rfl
  rw [haccount, Function.update_self, Option.map_some, Function.update_idem] at hmodify
  obtain ⟨hholds, hfind⟩ := h.holds.insertImmutable publicKey
  have hpublic : ∀ identity : AccountIdentity Address Key,
      publicKeyOf (some { identity with publicKey, publicKeyHeight := height }) = some publicKey :=
    fun identity => if_pos hheight
  refine h.replace (hprimary.apply (.modify _ _)).1 (hkey ▸ hholds) hmodify ?_ ?_ ?_
  · rintro i hi
    cases hi
    cases hknown : cache.account (owner publicKey) with
    | some identity => exact (h.address _ identity hknown : identity.address = owner publicKey)
    | none => rfl
  · intro publicKey' hpk
    rw [hpublic] at hpk
    cases hpk
    exact ⟨hmem, rfl⟩
  · intro publicKey'
    show cache'.keyToAddress.findImmutable publicKey' = _
    rw [hkey, hfind, Function.update_apply, hpublic, hold]
    by_cases hpk : publicKey' = publicKey
    · rw [if_pos hpk, if_pos (by rw [hpk])]
    · rw [if_neg hpk, if_neg fun heq => hpk (Option.some.inj heq).symm, if_neg (Option.some_ne_none _).symm]
      rfl

theorem Coherent.addAccountKey {publicKeyToAddress : Key → Address} (h : Coherent owner keys cache)
    (hinj : Set.InjOn owner keys) {publicKey : Key} {height : Height} (hmem : publicKey ∈ keys)
    (howner : publicKeyToAddress publicKey = owner publicKey) (hheight : height ≠ 0) :
    ∃ cache', cache.addAccountKey optimize publicKeyToAddress publicKey height = some cache' ∧
      Coherent owner keys cache' := by
  rw [AccountStateCacheDelta.addAccountKey, getAddress]
  cases hlookup : cache.keyToAddress.findImmutable publicKey with
  | some address =>
    obtain ⟨identity, hknown, hpresent, -⟩ := h.account_of_lookup hlookup
    have hsome : cache.account address ≠ none := by rw [hknown]; exact Option.some_ne_none _
    obtain ⟨state, hstate, rfl⟩ := Option.map_eq_some_iff.1 hknown
    refine ⟨cache, ?_, h⟩
    simp only [addAccountAddress, if_pos ((contains_iff_account h.primary).2 hsome), hstate, if_pos hpresent]
  | none =>
    simp only [howner]
    have hold := h.publicKeyOf_owner hinj hmem hlookup
    obtain ⟨hprimary, haccount, hkey⟩ := @addAccountAddress_spec Primary PrimaryMemory Lookup LookupMemory
      Address Key Balances _ _ _ _ _ _ optimize
      { cache with keyToAddress := (cache.keyToAddress.insertImmutable publicKey (owner publicKey)).1 } _ _
      h.primary (owner publicKey) height
    have hfound := congrFun haccount (owner publicKey)
    rw [Function.update_self] at hfound
    obtain ⟨state, hstate, hstate'⟩ := Option.map_eq_some_iff.1 hfound
    have hheight' : ¬state.publicKeyHeight ≠ 0 := by
      intro hne
      have hsome : publicKeyOf (some state.toAccountIdentity) = some state.publicKey := if_pos hne
      rw [hstate'] at hsome
      change publicKeyOf (some ((cache.account (owner publicKey)).getD _)) = _ at hsome
      cases hknown : cache.account (owner publicKey) with
      | some identity =>
        rw [hknown] at hsome hold
        rw [Option.getD_some, hold] at hsome
        exact Option.some_ne_none _ hsome.symm
      | none =>
        rw [hknown] at hsome
        exact Option.some_ne_none _ hsome.symm
    rw [hstate]
    simp only [if_neg hheight']
    exact ⟨_, rfl, h.setPublicKey optimize hmem hheight hold hprimary haccount hkey⟩

end Additions

end AccountStateCacheDelta

end Catapult.Cache
