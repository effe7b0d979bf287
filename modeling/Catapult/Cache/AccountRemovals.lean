import Catapult.Cache.AccountStateCacheDelta

/-!
# Removals of accounts and public keys (`BasicAccountStateCacheDelta::commitRemovals`)

A removal is queued with a height and takes effect when the account or its public key is of that height. Addresses
come first, then public keys; in the linked mode a public key that is as old as its account takes the account with it.
-/

namespace Catapult.Cache
open DeltaSet DeltaSet.BaseSetDelta

variable {Primary PrimaryMemory Lookup LookupMemory Address Key Balances : Type*} [DecidableEq Address]
  [DecidableEq Key]
  [Container Primary Address (AccountState Address Key Balances)]
  [Container PrimaryMemory Address (AccountState Address Key Balances)]
  [Container Lookup Key Address] [Container LookupMemory Key Address]

namespace AccountStateCacheDelta

/-! ### One removal -/

/-- What is left of an account when addresses are removed at the heights in `entries`. -/
def addressRemoved (entries : Finset (Height × Address)) (identity : AccountIdentity Address Key) :
    Option (AccountIdentity Address Key) :=
  if (identity.addressHeight, identity.address) ∈ entries then none else some identity

/-- What is left of an account when public keys are removed at the heights in `entries`. -/
def keyRemoved [Inhabited Key] (mode : CommitRemovalsMode) (entries : Finset (Height × Key))
    (identity : AccountIdentity Address Key) : Option (AccountIdentity Address Key) :=
  if identity.publicKeyHeight ≠ 0 ∧ (identity.publicKeyHeight, identity.publicKey) ∈ entries then
    if mode = .linked ∧ identity.publicKeyHeight = identity.addressHeight then none
    else some { identity with publicKey := default, publicKeyHeight := 0 }
  else some identity

section Removals
variable {owner : Key → Address} {keys : Set Key} (optimize : Balances → Balances)
  {cache : AccountStateCacheDelta Primary PrimaryMemory Lookup LookupMemory Address Key}

theorem Coherent.removeAccount (h : Coherent owner keys cache) {address : Address}
    {identity : AccountIdentity Address Key} (hknown : cache.account address = some identity) :
    let cache' : AccountStateCacheDelta Primary PrimaryMemory Lookup LookupMemory Address Key :=
      { cache with
        keyToAddress :=
          if identity.publicKeyHeight ≠ 0 then (cache.keyToAddress.removeImmutable identity.publicKey).1
          else cache.keyToAddress
        stateByAddress := (cache.stateByAddress.remove address).1 }
    Coherent owner keys cache' ∧ cache'.account = Function.update cache.account address none := by
  intro cache'
  obtain ⟨hprimary, hfind⟩ := h.primary.apply (.remove address)
  have haccount : cache'.account = Function.update cache.account address none := by
    funext address'
    have heq : (cache.stateByAddress.remove address).1.find address' = _ := congrFun hfind address'
    rw [account, heq, SetOperation.applyToMap, Function.update_apply, Function.update_apply]
    split <;> rfl
  have hpublic : publicKeyOf (cache.account address) =
      if identity.publicKeyHeight ≠ 0 then some identity.publicKey else none := by
    rw [hknown]
    rfl
  refine ⟨?_, haccount⟩
  by_cases hheight : identity.publicKeyHeight ≠ 0
  · rw [if_pos hheight] at hpublic
    have hkey : cache'.keyToAddress = (cache.keyToAddress.removeImmutable identity.publicKey).1 := if_pos hheight
    obtain ⟨hholds, hlookup⟩ := h.holds.removeImmutable identity.publicKey
    refine h.replace hprimary (hkey ▸ hholds) haccount (fun i hi => absurd hi (Option.some_ne_none _).symm)
      (fun publicKey hpk => absurd hpk (Option.some_ne_none _).symm) fun publicKey => ?_
    rw [addressOf, hkey, hlookup, Function.update_apply, hpublic, publicKeyOf_none, if_neg (Option.some_ne_none _).symm]
    by_cases hpk : publicKey = identity.publicKey
    · rw [if_pos hpk, if_pos (by rw [hpk])]
    · rw [if_neg hpk, if_neg fun heq => hpk (Option.some.inj heq).symm]
      rfl
  · rw [if_neg hheight] at hpublic
    have hkey : cache'.keyToAddress = cache.keyToAddress := if_neg hheight
    refine h.replace hprimary (hkey ▸ h.holds) haccount (fun i hi => absurd hi (Option.some_ne_none _).symm)
      (fun publicKey hpk => absurd hpk (Option.some_ne_none _).symm) fun publicKey => ?_
    rw [addressOf, hkey, hpublic, publicKeyOf_none, if_neg (Option.some_ne_none _).symm,
      if_neg (Option.some_ne_none _).symm]
    rfl

theorem Coherent.removeAddress (h : Coherent owner keys cache) (address : Address) (height : Height) :
    Coherent owner keys (cache.removeAddress optimize address height) ∧
      ∀ address', (cache.removeAddress optimize address height).account address' =
        (cache.account address').bind (addressRemoved {(height, address)}) := by
  have hprepared := h.modify_prepare optimize address
  have hsame := account_prepare optimize h.primary address
  -- an account at another address, or of another height, stays
  have hkeep : (∀ identity, cache.account address = some identity → identity.addressHeight ≠ height) → ∀ address',
      cache.account address' = (cache.account address').bind (addressRemoved {(height, address)}) := by
    intro hne address'
    cases hknown : cache.account address' with
    | none => rfl
    | some identity =>
      rw [Option.bind_some, addressRemoved, if_neg]
      rw [Finset.mem_singleton, Prod.mk.injEq, h.address _ _ hknown]
      rintro ⟨hheight, rfl⟩
      exact hne identity hknown hheight
  rw [AccountStateCacheDelta.removeAddress]
  cases hfind : (cache.stateByAddress.modify address (prepare optimize)).find address with
  | none =>
    simp only
    refine ⟨hprepared, fun address' => ?_⟩
    rw [hsame]
    refine hkeep (fun identity hknown => ?_) address'
    rw [← hsame, account, hfind] at hknown
    exact absurd hknown (Option.some_ne_none _).symm
  | some state =>
    have hknown : cache.account address = some state.toAccountIdentity := by
      rw [← hsame, account, hfind]
      rfl
    simp only
    split
    · rename_i hheight
      refine ⟨hprepared, fun address' => ?_⟩
      rw [hsame]
      refine hkeep (fun identity hidentity => ?_) address'
      rw [hknown] at hidentity
      cases hidentity
      exact Ne.symm hheight
    · rename_i hheight
      obtain ⟨hcoherent, haccount⟩ := hprepared.removeAccount (hsame ▸ hknown : account _ address = _)
      refine ⟨hcoherent, fun address' => (congrFun haccount address').trans ?_⟩
      rw [Function.update_apply, hsame]
      split
      · rename_i heq
        rw [heq, hknown, Option.bind_some, addressRemoved, if_pos]
        rw [Finset.mem_singleton, h.address _ _ hknown, ← not_not.1 hheight]
      · rename_i hne
        cases hother : cache.account address' with
        | none => rfl
        | some identity =>
          rw [Option.bind_some, addressRemoved, if_neg]
          rw [Finset.mem_singleton, Prod.mk.injEq, h.address _ _ hother]
          exact fun heq => hne heq.2

variable [Inhabited Key]

theorem Coherent.clearPublicKey (h : Coherent owner keys cache) {address : Address}
    {identity : AccountIdentity Address Key} (hknown : cache.account address = some identity)
    (hheight : identity.publicKeyHeight ≠ 0) :
    let cache' : AccountStateCacheDelta Primary PrimaryMemory Lookup LookupMemory Address Key :=
      { cache with
        keyToAddress := (cache.keyToAddress.removeImmutable identity.publicKey).1
        stateByAddress := cache.stateByAddress.modify address fun state =>
          { state with publicKey := default, publicKeyHeight := 0 } }
    Coherent owner keys cache' ∧ cache'.account =
      Function.update cache.account address (some { identity with publicKey := default, publicKeyHeight := 0 }) := by
  intro cache'
  have haccount := account_modify h.primary address
    (fun state => { state with publicKey := default, publicKeyHeight := 0 })
    (fun identity => { identity with publicKey := default, publicKeyHeight := 0 }) fun state => rfl
  rw [hknown, Option.map_some] at haccount
  obtain ⟨hholds, hlookup⟩ := h.holds.removeImmutable identity.publicKey
  have hpublic : publicKeyOf (cache.account address) = some identity.publicKey := by
    rw [hknown]
    exact if_pos hheight
  have hcleared : publicKeyOf (some ({ identity with publicKey := default, publicKeyHeight := 0 } :
      AccountIdentity Address Key)) = none := by
    simp [publicKeyOf]
  have hprimary : cache'.stateByAddress.Invariant := (h.primary.apply (.modify address _)).1
  refine ⟨h.replace hprimary hholds haccount ?_ ?_ fun publicKey => ?_, haccount⟩
  · intro i hi
    cases hi
    exact (h.address _ identity hknown : identity.address = address)
  · intro publicKey hpk
    rw [hcleared] at hpk
    exact absurd hpk (Option.some_ne_none _).symm
  · show (cache.keyToAddress.removeImmutable identity.publicKey).1.findImmutable publicKey = _
    rw [hlookup, Function.update_apply, hpublic, hcleared, if_neg (Option.some_ne_none _).symm]
    by_cases hpk : publicKey = identity.publicKey
    · rw [if_pos hpk, if_pos (by rw [hpk])]
    · rw [if_neg hpk, if_neg fun heq => hpk (Option.some.inj heq).symm]
      rfl

theorem Coherent.removeKey (h : Coherent owner keys cache) (mode : CommitRemovalsMode) (publicKey : Key)
    (height : Height) :
    Coherent owner keys (cache.removeKey optimize mode publicKey height) ∧
      ∀ address, (cache.removeKey optimize mode publicKey height).account address =
        (cache.account address).bind (keyRemoved mode {(height, publicKey)}) := by
  -- an account with another public key, or one of another height, stays
  have hkeep : (∀ address identity, cache.account address = some identity → identity.publicKeyHeight ≠ 0 →
      identity.publicKey = publicKey → identity.publicKeyHeight ≠ height) → ∀ address,
      cache.account address = (cache.account address).bind (keyRemoved mode {(height, publicKey)}) := by
    intro hne address
    cases hknown : cache.account address with
    | none => rfl
    | some identity =>
      rw [Option.bind_some, keyRemoved, if_neg]
      rw [Finset.mem_singleton, Prod.mk.injEq]
      rintro ⟨hpresent, hheight, hkey⟩
      exact hne address identity hknown hpresent hkey hheight
  rw [AccountStateCacheDelta.removeKey]
  cases hlookup : cache.keyToAddress.findImmutable publicKey with
  | none =>
    refine ⟨h, hkeep fun address identity hknown hpresent hkey => ?_⟩
    have hsome : publicKeyOf (cache.account address) = some publicKey := by
      rw [hknown, ← hkey]
      exact if_pos hpresent
    rw [← h.lookup, addressOf, hlookup] at hsome
    exact absurd hsome (Option.some_ne_none _).symm
  | some address =>
    obtain ⟨identity, hknown, hpresent, hkey⟩ := h.account_of_lookup hlookup
    have hprepared := h.modify_prepare optimize address
    have hsame := account_prepare optimize h.primary address
    have hfound := hknown
    rw [← hsame] at hfound
    obtain ⟨state, hfind, hstate⟩ := Option.map_eq_some_iff.1 hfound
    -- no other account has the public key
    have hother : ∀ address' identity', cache.account address' = some identity' → identity'.publicKeyHeight ≠ 0 →
        identity'.publicKey = publicKey → address' = address := by
      intro address' identity' hknown' hpresent' hkey'
      have hsome : publicKeyOf (cache.account address') = some publicKey := by
        rw [hknown', ← hkey']
        exact if_pos hpresent'
      rw [← h.lookup, addressOf, hlookup] at hsome
      exact (Option.some.inj hsome).symm
    have hupdate : ∀ left, keyRemoved mode {(height, publicKey)} identity = left → ∀ address',
        Function.update cache.account address left address' =
          (cache.account address').bind (keyRemoved mode {(height, publicKey)}) := by
      intro left hleft address'
      rw [Function.update_apply]
      split
      · rename_i heq
        rw [heq, hknown, Option.bind_some, hleft]
      · rename_i hne
        cases hknown' : cache.account address' with
        | none => rfl
        | some identity' =>
          rw [Option.bind_some, keyRemoved, if_neg]
          rw [Finset.mem_singleton, Prod.mk.injEq]
          exact fun hqueued => hne (hother address' identity' hknown' hqueued.1 hqueued.2.2)
    simp only [hfind]
    by_cases hheight : height ≠ state.publicKeyHeight
    · rw [if_pos hheight]
      refine ⟨hprepared, fun address' => ?_⟩
      rw [hsame]
      refine hkeep (fun address'' identity'' hknown'' hpresent'' hkey'' => ?_) address'
      rw [hother address'' identity'' hknown'' hpresent'' hkey'', hknown] at hknown''
      cases hknown''
      rw [← hstate]
      exact Ne.symm hheight
    · have hqueued : identity.publicKeyHeight ≠ 0 ∧
          (identity.publicKeyHeight, identity.publicKey) ∈ ({(height, publicKey)} : Finset (Height × Key)) := by
        rw [Finset.mem_singleton, hkey, not_not.1 hheight, ← hstate]
        exact ⟨hstate ▸ hpresent, rfl⟩
      rw [if_neg hheight]
      subst hstate
      by_cases hlinked : mode = .linked ∧ state.publicKeyHeight = state.addressHeight
      · obtain ⟨hcoherent, haccount⟩ := hprepared.removeAccount hfound
        rw [if_pos hpresent] at hcoherent haccount
        rw [if_pos hlinked, h.address _ _ hknown]
        refine ⟨hcoherent, fun address' => (congrFun haccount address').trans ?_⟩
        rw [hsame]
        refine hupdate none ?_ address'
        rw [keyRemoved, if_pos hqueued, if_pos hlinked]
      · obtain ⟨hcoherent, haccount⟩ := hprepared.clearPublicKey hfound hpresent
        rw [if_neg hlinked]
        refine ⟨hcoherent, fun address' => (congrFun haccount address').trans ?_⟩
        rw [hsame]
        refine hupdate _ ?_ address'
        rw [keyRemoved, if_pos hqueued, if_neg hlinked]

/-! ### All queued removals -/

omit [DecidableEq Key] [Inhabited Key] in
theorem addressRemoved_bind {entries : List (Height × Address)} {entry : Height × Address}
    (identity : AccountIdentity Address Key) :
    (addressRemoved {entry} identity).bind (addressRemoved entries.toFinset) =
      addressRemoved (entry :: entries).toFinset identity := by
  simp only [addressRemoved, List.toFinset_cons, Finset.mem_singleton, Finset.mem_insert]
  by_cases hentry : (identity.addressHeight, identity.address) = entry
  · rw [if_pos hentry, if_pos (.inl hentry)]
    rfl
  · rw [if_neg hentry, Option.bind_some, addressRemoved]
    simp only [hentry, false_or]

omit [DecidableEq Address] in
theorem keyRemoved_bind {mode : CommitRemovalsMode} {entries : List (Height × Key)} {entry : Height × Key}
    (identity : AccountIdentity Address Key) :
    (keyRemoved mode {entry} identity).bind (keyRemoved mode entries.toFinset) =
      keyRemoved mode (entry :: entries).toFinset identity := by
  simp only [keyRemoved, List.toFinset_cons, Finset.mem_singleton, Finset.mem_insert]
  by_cases hentry : identity.publicKeyHeight ≠ 0 ∧ (identity.publicKeyHeight, identity.publicKey) = entry
  · have hqueued : identity.publicKeyHeight ≠ 0 ∧ ((identity.publicKeyHeight, identity.publicKey) = entry ∨
        (identity.publicKeyHeight, identity.publicKey) ∈ entries.toFinset) := ⟨hentry.1, .inl hentry.2⟩
    rw [if_pos hentry, if_pos hqueued]
    split
    · rfl
    · rw [Option.bind_some, keyRemoved, if_neg fun h => h.1 rfl]
  · have hiff : (identity.publicKeyHeight ≠ 0 ∧ (identity.publicKeyHeight, identity.publicKey) ∈ entries.toFinset) ↔
        (identity.publicKeyHeight ≠ 0 ∧ ((identity.publicKeyHeight, identity.publicKey) = entry ∨
          (identity.publicKeyHeight, identity.publicKey) ∈ entries.toFinset)) := by
      tauto
    rw [if_neg hentry, Option.bind_some, keyRemoved, if_congr hiff rfl rfl]

omit [Inhabited Key] in
theorem Coherent.removeAddresses (h : Coherent owner keys cache) (entries : List (Height × Address)) :
    Coherent owner keys
        (entries.foldl (fun cache entry => cache.removeAddress optimize entry.2 entry.1) cache) ∧
      ∀ address, (entries.foldl (fun cache entry =>
        cache.removeAddress optimize entry.2 entry.1) cache).account address =
        (cache.account address).bind (addressRemoved entries.toFinset) := by
  induction entries generalizing cache with
  | nil =>
    refine ⟨h, fun address => ?_⟩
    cases hknown : cache.account address with
    | none => exact hknown
    | some identity =>
      rw [Option.bind_some, addressRemoved, if_neg (by simp)]
      exact hknown
  | cons entry entries ih =>
    obtain ⟨hcoherent, haccount⟩ := h.removeAddress optimize entry.2 entry.1
    obtain ⟨hcoherent', haccount'⟩ := ih hcoherent
    refine ⟨hcoherent', fun address => ?_⟩
    rw [List.foldl_cons, haccount', haccount, Option.bind_assoc]
    exact Option.bind_congr fun identity _ => addressRemoved_bind identity

theorem Coherent.removeKeys (h : Coherent owner keys cache) (mode : CommitRemovalsMode)
    (entries : List (Height × Key)) :
    Coherent owner keys (entries.foldl (fun cache entry => cache.removeKey optimize mode entry.2 entry.1) cache) ∧
      ∀ address, (entries.foldl (fun cache entry =>
        cache.removeKey optimize mode entry.2 entry.1) cache).account address =
        (cache.account address).bind (keyRemoved mode entries.toFinset) := by
  induction entries generalizing cache with
  | nil =>
    refine ⟨h, fun address => ?_⟩
    cases hknown : cache.account address with
    | none => exact hknown
    | some identity =>
      rw [Option.bind_some, keyRemoved, if_neg (by simp)]
      exact hknown
  | cons entry entries ih =>
    obtain ⟨hcoherent, haccount⟩ := h.removeKey optimize mode entry.2 entry.1
    obtain ⟨hcoherent', haccount'⟩ := ih hcoherent
    refine ⟨hcoherent', fun address => ?_⟩
    rw [List.foldl_cons, haccount', haccount, Option.bind_assoc]
    exact Option.bind_congr fun identity _ => keyRemoved_bind identity

end Removals

/-- What committing the queued removals of `cache` leaves in `cache'`. -/
structure CommitsRemovals [Inhabited Key] (mode : CommitRemovalsMode)
    (cache cache' : AccountStateCacheDelta Primary PrimaryMemory Lookup LookupMemory Address Key) : Prop where
  account : ∀ address, cache'.account address =
    ((cache.account address).bind (addressRemoved cache.queuedRemoveByAddress)).bind
      (keyRemoved mode cache.queuedRemoveByPublicKey)
  queuedRemoveByAddress : cache'.queuedRemoveByAddress = ∅
  queuedRemoveByPublicKey : cache'.queuedRemoveByPublicKey = ∅

theorem Coherent.commitRemovals [Inhabited Key] {owner : Key → Address} {keys : Set Key}
    (optimize : Balances → Balances)
    {cache : AccountStateCacheDelta Primary PrimaryMemory Lookup LookupMemory Address Key}
    (h : Coherent owner keys cache) (mode : CommitRemovalsMode)
    {addresses : List (Height × Address)} {publicKeys : List (Height × Key)}
    (haddresses : addresses.toFinset = cache.queuedRemoveByAddress)
    (hpublicKeys : publicKeys.toFinset = cache.queuedRemoveByPublicKey) :
    Coherent owner keys (cache.commitRemovals optimize mode addresses publicKeys) ∧
      CommitsRemovals mode cache (cache.commitRemovals optimize mode addresses publicKeys) := by
  obtain ⟨hcoherent, haccount⟩ := h.removeAddresses optimize addresses
  obtain ⟨hcoherent', haccount'⟩ := hcoherent.removeKeys optimize mode publicKeys
  refine ⟨⟨hcoherent'.primary, hcoherent'.holds, hcoherent'.address, hcoherent'.owned, hcoherent'.lookup⟩,
    fun address => ?_, rfl, rfl⟩
  rw [← haddresses, ← hpublicKeys, ← haccount]
  exact haccount' address

/-! ### Runs -/

inductive Operation (Address Key Balances : Type*) where
  | addAccountAddress (address : Address) (height : Height)
  | addAccountKey (publicKey : Key) (height : Height)
  | addAccountState (state : AccountState Address Key Balances)
  | queueRemoveAddress (address : Address) (height : Height)
  | queueRemoveKey (publicKey : Key) (height : Height)
  | clearRemoveAddress (address : Address) (height : Height)
  | clearRemoveKey (publicKey : Key) (height : Height)
  | commitRemovals (mode : CommitRemovalsMode)

section Runs
variable [Inhabited Key] [Inhabited Balances]

section Steps
variable (optimize : Balances → Balances) (publicKeyToAddress : Key → Address)

/-- One operation; the queues are visited in any order. -/
inductive Step : AccountStateCacheDelta Primary PrimaryMemory Lookup LookupMemory Address Key →
    Operation Address Key Balances →
    AccountStateCacheDelta Primary PrimaryMemory Lookup LookupMemory Address Key → Prop
  | addAccountAddress (cache address height) :
    Step cache (.addAccountAddress address height) (cache.addAccountAddress optimize address height)
  | addAccountKey (cache publicKey height cache') :
    cache.addAccountKey optimize publicKeyToAddress publicKey height = some cache' →
    Step cache (.addAccountKey publicKey height) cache'
  | addAccountState (cache state) : Step cache (.addAccountState state) (cache.addAccountState optimize state)
  | queueRemoveAddress (cache address height) :
    Step cache (.queueRemoveAddress address height) (cache.queueRemoveAddress address height)
  | queueRemoveKey (cache publicKey height) :
    Step cache (.queueRemoveKey publicKey height) (cache.queueRemoveKey publicKey height)
  | clearRemoveAddress (cache address height) :
    Step cache (.clearRemoveAddress address height) (cache.clearRemoveAddress address height)
  | clearRemoveKey (cache publicKey height) :
    Step cache (.clearRemoveKey publicKey height) (cache.clearRemoveKey publicKey height)
  | commitRemovals (cache mode addresses publicKeys) :
    addresses.toFinset = cache.queuedRemoveByAddress → publicKeys.toFinset = cache.queuedRemoveByPublicKey →
    Step cache (.commitRemovals mode) (cache.commitRemovals optimize mode addresses publicKeys)

inductive Run : AccountStateCacheDelta Primary PrimaryMemory Lookup LookupMemory Address Key →
    List (Operation Address Key Balances) →
    AccountStateCacheDelta Primary PrimaryMemory Lookup LookupMemory Address Key → Prop
  | nil (cache) : Run cache [] cache
  | cons {cache operation cache' operations cache''} :
    Step optimize publicKeyToAddress cache operation cache' →
    Run cache' operations cache'' → Run cache (operation :: operations) cache''

/-- A public key comes with its owner, and not at height 0. -/
def Operation.Owned (owner : Key → Address) (keys : Set Key) : Operation Address Key Balances → Prop
  | .addAccountKey publicKey height => publicKey ∈ keys ∧ publicKeyToAddress publicKey = owner publicKey ∧ height ≠ 0
  | .addAccountState state =>
    state.publicKeyHeight ≠ 0 → state.publicKey ∈ keys ∧ owner state.publicKey = state.address
  | _ => True

end Steps

variable {owner : Key → Address} {keys : Set Key} {optimize : Balances → Balances} {publicKeyToAddress : Key → Address}
  {cache cache' : AccountStateCacheDelta Primary PrimaryMemory Lookup LookupMemory Address Key}

theorem Coherent.step (h : Coherent owner keys cache) (hinj : Set.InjOn owner keys)
    {operation : Operation Address Key Balances} (howned : operation.Owned publicKeyToAddress owner keys)
    (hstep : Step optimize publicKeyToAddress cache operation cache') : Coherent owner keys cache' := by
  cases hstep with
  | addAccountAddress address height =>
    rw [AccountStateCacheDelta.addAccountAddress]
    split
    · exact h
    · exact h.addAccountState optimize fun hne => absurd rfl hne
  | addAccountKey publicKey height cache' hok =>
    obtain ⟨cache'', hok', hcoherent⟩ := h.addAccountKey optimize hinj howned.1 howned.2.1 howned.2.2
    rw [hok] at hok'
    cases hok'
    exact hcoherent
  | addAccountState state => exact h.addAccountState optimize howned
  | queueRemoveAddress | queueRemoveKey | clearRemoveAddress | clearRemoveKey =>
    exact ⟨h.primary, h.holds, h.address, h.owned, h.lookup⟩
  | commitRemovals mode addresses publicKeys haddresses hpublicKeys =>
    exact (h.commitRemovals optimize mode haddresses hpublicKeys).1

theorem Coherent.run (h : Coherent owner keys cache) (hinj : Set.InjOn owner keys)
    {operations : List (Operation Address Key Balances)}
    (howned : ∀ operation ∈ operations, operation.Owned publicKeyToAddress owner keys)
    (hrun : Run optimize publicKeyToAddress cache operations cache') : Coherent owner keys cache' := by
  induction hrun with
  | nil => exact h
  | cons hstep hrun ih =>
    exact ih (h.step hinj (howned _ (List.mem_cons_self ..)) hstep) fun operation hmem =>
      howned operation (List.mem_cons_of_mem _ hmem)

def create (primary : Primary) (lookup : Lookup) :
    AccountStateCacheDelta Primary PrimaryMemory Lookup LookupMemory Address Key :=
  ⟨.create primary, .create lookup, ∅, ∅⟩

/-- The lookup map has the public keys of the accounts and no others. -/
def LookupExact (cache : AccountStateCacheDelta Primary PrimaryMemory Lookup LookupMemory Address Key) : Prop :=
  ∀ publicKey address, cache.addressOf publicKey = some address ↔
    ∃ identity, cache.account address = some identity ∧ identity.publicKeyHeight ≠ 0 ∧ identity.publicKey = publicKey

/-- Elements of the two sets that belong together. -/
structure Base (owner : Key → Address) (keys : Set Key) (primary : Primary) (lookup : Lookup) : Prop where
  address : ∀ address state, Container.find primary address = some state → state.address = address
  owned : ∀ address state, Container.find primary address = some state → state.publicKeyHeight ≠ 0 →
    state.publicKey ∈ keys ∧ owner state.publicKey = address
  lookup : ∀ publicKey address, Container.find lookup publicKey = some address ↔
    ∃ state, Container.find primary address = some state ∧ state.publicKeyHeight ≠ 0 ∧ state.publicKey = publicKey

omit [DecidableEq Address] [DecidableEq Key] [Inhabited Key] [Inhabited Balances] in
theorem publicKeyOf_eq_some_iff {account : Option (AccountIdentity Address Key)} {publicKey : Key} :
    publicKeyOf account = some publicKey ↔
      ∃ identity, account = some identity ∧ identity.publicKeyHeight ≠ 0 ∧ identity.publicKey = publicKey := by
  cases account with
  | none => simp [publicKeyOf]
  | some identity =>
    rw [publicKeyOf, Option.bind_some]
    split
    · rename_i hheight
      constructor
      · intro hkey
        exact ⟨identity, rfl, hheight, Option.some.inj hkey⟩
      · rintro ⟨_, ⟨⟩, -, rfl⟩
        rfl
    · rename_i hheight
      constructor
      · intro hkey
        exact absurd hkey (Option.some_ne_none _).symm
      · rintro ⟨_, ⟨⟩, hpresent, -⟩
        exact absurd hpresent hheight

omit [Inhabited Key] [Inhabited Balances] in
theorem Base.coherent {primary : Primary} {lookup : Lookup} (h : Base owner keys primary lookup) :
    Coherent owner keys
      (create primary lookup : AccountStateCacheDelta Primary PrimaryMemory Lookup LookupMemory Address Key) := by
  have hfind : ∀ address,
      (create primary lookup : AccountStateCacheDelta Primary PrimaryMemory Lookup LookupMemory Address Key).account
        address =
        (Container.find primary address).map AccountState.toAccountIdentity := by
    intro address
    rw [account, create, find_create]
  have hpublic : ∀ address publicKey, publicKeyOf
      ((create primary lookup : AccountStateCacheDelta Primary PrimaryMemory Lookup LookupMemory Address Key).account
        address) =
        some publicKey ↔ ∃ state, Container.find primary address = some state ∧ state.publicKeyHeight ≠ 0 ∧
          state.publicKey = publicKey := by
    intro address publicKey
    rw [publicKeyOf_eq_some_iff, hfind]
    constructor
    · rintro ⟨identity, hidentity, hheight, hkey⟩
      obtain ⟨state, hstate, rfl⟩ := Option.map_eq_some_iff.1 hidentity
      exact ⟨state, hstate, hheight, hkey⟩
    · rintro ⟨state, hstate, hheight, hkey⟩
      exact ⟨_, by rw [hstate]; rfl, hheight, hkey⟩
  refine ⟨invariant_create primary, ⟨immutableValid_create lookup, fun publicKey => ?_, fun publicKey => ?_⟩, ?_, ?_,
    ?_⟩
  · show Container.find lookup publicKey = none ∨ Container.find lookup publicKey = some (owner publicKey)
    cases hlookup : Container.find lookup publicKey with
    | none => exact .inl rfl
    | some address =>
      obtain ⟨state, hstate, hheight, rfl⟩ := (h.lookup publicKey address).1 hlookup
      rw [(h.owned address state hstate hheight).2]
      exact .inr rfl
  · exact .inl (Container.find_empty publicKey)
  · intro address identity hidentity
    rw [hfind] at hidentity
    obtain ⟨state, hstate, rfl⟩ := Option.map_eq_some_iff.1 hidentity
    exact h.address address state hstate
  · intro address publicKey hkey
    obtain ⟨state, hstate, hheight, rfl⟩ := (hpublic address publicKey).1 hkey
    exact h.owned address state hstate hheight
  · intro publicKey address
    rw [hpublic, ← h.lookup, addressOf, findImmutable_eq_value, Slot.immutableValue, slot, create]
    simp [BaseSetDelta.create]

/-- In every run in which a public key has one owner and an owner one public key: the lookup map has the public keys of
the accounts, queued removals take what is of their height, and adding a public key does not throw. -/
theorem lookup_coherent (owner : Key → Address) (keys : Set Key) (optimize : Balances → Balances)
    (publicKeyToAddress : Key → Address) (primary : Primary) (lookup : Lookup)
    (operations : List (Operation Address Key Balances))
    (cache : AccountStateCacheDelta Primary PrimaryMemory Lookup LookupMemory Address Key)
    (hinj : Set.InjOn owner keys) (hbase : Base owner keys primary lookup)
    (howned : ∀ operation ∈ operations, operation.Owned publicKeyToAddress owner keys)
    (hrun : Run optimize publicKeyToAddress (create primary lookup) operations cache) :
    LookupExact cache ∧
    (∀ mode addresses publicKeys, addresses.toFinset = cache.queuedRemoveByAddress →
      publicKeys.toFinset = cache.queuedRemoveByPublicKey →
      CommitsRemovals mode cache (cache.commitRemovals optimize mode addresses publicKeys)) ∧
    ∀ publicKey height, publicKey ∈ keys → publicKeyToAddress publicKey = owner publicKey → height ≠ 0 →
      cache.addAccountKey optimize publicKeyToAddress publicKey height ≠ none := by
  have hcoherent := hbase.coherent.run hinj howned hrun
  refine ⟨fun publicKey address => ?_, fun mode addresses publicKeys haddresses hpublicKeys => ?_, ?_⟩
  · rw [hcoherent.lookup, publicKeyOf_eq_some_iff]
  · exact (hcoherent.commitRemovals optimize mode haddresses hpublicKeys).2
  · intro publicKey height hmem howner hheight
    obtain ⟨cache', hok, -⟩ := hcoherent.addAccountKey optimize hinj hmem howner hheight
    rw [hok]
    exact Option.some_ne_none cache'

end Runs

/-! ### Runs in which a public key has no height, an account has two, or an account is taken with its public key -/

abbrev SampleCache : Type :=
  AccountStateCacheDelta (KeyedList UInt8 (AccountState UInt8 UInt8 Unit))
    (KeyedList UInt8 (AccountState UInt8 UInt8 Unit))
    (KeyedList UInt8 UInt8) (KeyedList UInt8 UInt8) UInt8 UInt8

def emptyCache : SampleCache := create Container.empty Container.empty

def keyAdded (height : Height) : SampleCache := (emptyCache.addAccountKey id (· + 100) 1 height).getD emptyCache

theorem keyAdded_run (height : Height) :
    Run id (· + 100) emptyCache [.addAccountKey 1 height] (keyAdded height) := by
  refine .cons (.addAccountKey _ _ _ _ ?_) (.nil _)
  rfl

def stateAdded : SampleCache := emptyCache.addAccountState id ⟨⟨101, 1, 2, 1⟩, ()⟩

def bothAdded : SampleCache := (stateAdded.addAccountKey id (· + 100) 1 2).getD emptyCache

theorem bothAdded_run :
    Run id (· + 100) emptyCache [.addAccountState ⟨⟨101, 1, 2, 1⟩, ()⟩, .addAccountKey 1 2] bothAdded := by
  refine .cons (.addAccountState _ _) (.cons (.addAccountKey _ _ _ _ ?_) (.nil _))
  rfl

def keyQueued : SampleCache := (keyAdded 5).queueRemoveKey 1 5

theorem not_lookupExact_of_run :
    (Run id (· + 100) emptyCache [.addAccountKey 1 0] (keyAdded 0) ∧ ¬ LookupExact (keyAdded 0)) ∧
    (Run id (· + 100) emptyCache [.addAccountState ⟨⟨101, 1, 2, 1⟩, ()⟩, .addAccountKey 1 2] bothAdded ∧
      ¬ LookupExact bothAdded) ∧
    Run id (· + 100) emptyCache [.addAccountKey 1 5, .queueRemoveKey 1 5] keyQueued ∧
      keyQueued.queuedRemoveByAddress = ∅ ∧ keyQueued.account 101 = some ⟨101, 5, 1, 5⟩ ∧
      (keyQueued.commitRemovals id .linked [] [(5, 1)]).account 101 = none := by
  refine ⟨⟨keyAdded_run 0, fun hexact => ?_⟩, ⟨bothAdded_run, fun hexact => ?_⟩, ?_, rfl, rfl, rfl⟩
  · obtain ⟨identity, hidentity, hheight, -⟩ := (hexact 1 101).1 rfl
    cases hidentity
    exact hheight rfl
  · obtain ⟨identity, hidentity, -, hkey⟩ := (hexact 1 101).1 rfl
    cases hidentity
    exact absurd hkey (by decide)
  · refine .cons (.addAccountKey _ _ _ (keyAdded 5) ?_) (.cons (.queueRemoveKey _ _ _) (.nil _))
    rfl

/-- An account is added with its public key, which is removed in the unlinked mode. -/
theorem lookup_coherent_sample :
    LookupExact (keyQueued.commitRemovals id .unlinked [] [(5, 1)]) ∧
    (∀ mode addresses publicKeys,
      addresses.toFinset = (keyQueued.commitRemovals id .unlinked [] [(5, 1)]).queuedRemoveByAddress →
      publicKeys.toFinset = (keyQueued.commitRemovals id .unlinked [] [(5, 1)]).queuedRemoveByPublicKey →
      CommitsRemovals mode (keyQueued.commitRemovals id .unlinked [] [(5, 1)])
        ((keyQueued.commitRemovals id .unlinked [] [(5, 1)]).commitRemovals id mode addresses publicKeys)) ∧
    ∀ publicKey height, publicKey ∈ ({1} : Set UInt8) → publicKey + 100 = publicKey + 100 → height ≠ 0 →
      (keyQueued.commitRemovals id .unlinked [] [(5, 1)]).addAccountKey id (· + 100) publicKey height ≠ none := by
  refine lookup_coherent (· + 100) {1} id (· + 100) Container.empty Container.empty
    [.addAccountKey 1 5, .queueRemoveKey 1 5, .commitRemovals .unlinked] _ (fun _ h _ h' _ => h.trans h'.symm) ?_ ?_ ?_
  · constructor
    · intro address state hstate
      exact absurd hstate (by simp)
    · intro address state hstate
      exact absurd hstate (by simp)
    · intro publicKey address
      simp
  · intro operation hmem
    simp only [List.mem_cons, List.not_mem_nil, or_false] at hmem
    rcases hmem with rfl | rfl | rfl
    · exact ⟨rfl, rfl, by decide⟩
    · trivial
    · trivial
  · refine .cons (.addAccountKey _ _ _ (keyAdded 5) ?_)
      (.cons (.queueRemoveKey _ _ _) (.cons (.commitRemovals _ _ [] [(5, 1)] rfl rfl) (.nil _)))
    rfl

end AccountStateCacheDelta

end Catapult.Cache
