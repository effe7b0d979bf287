import Catapult.DeltaSet.BaseSetDelta
import Catapult.State.AccountState

/-!
# High value addresses (`HighValueAccountsUpdater`)

The addresses of the accounts with a high balance are not looked for in all accounts. An update visits the elements of
a delta: first the added ones, then the copied ones and last the removed ones, so that an account that was added and
removed again ends as a removed one.
-/

namespace Catapult.Cache
open DeltaSet DeltaSet.BaseSetDelta

structure HighValueAccounts (Address : Type*) where
  addresses : Finset Address
  removedAddresses : Finset Address

structure HighValueAccountDescriptor where
  isHighValue : Bool
  hasHistoricalInformation : Bool

structure HighValueOptions where
  harvestingMosaicId : State.MosaicId
  minHarvesterBalance : State.Amount

def effectiveBalanceRetriever (accountState : State.AccountState) (harvestingMosaicId : State.MosaicId)
    (minBalance : State.Amount) : State.Amount × Bool :=
  let balance := accountState.balances.get harvestingMosaicId
  (balance, decide (minBalance ≤ balance))

/-- `HasHistoricalInformation`: the snapshots or the buckets are not all without a height. -/
def hasHistoricalInformation (accountState : State.AccountState) : Bool :=
  !(accountState.importanceSnapshots.values.all fun snapshot => snapshot.height = 0) ||
    !(accountState.activityBuckets.values.all fun bucket => bucket.startHeight = 0)

def hasHighValue (options : HighValueOptions) (accountState : State.AccountState) : HighValueAccountDescriptor where
  isHighValue := (effectiveBalanceRetriever accountState options.harvestingMosaicId options.minHarvesterBalance).2
  hasHistoricalInformation := hasHistoricalInformation accountState

/-- `HighValueAccountsUpdater` without the histories of voting accounts. -/
structure HighValueAccountsUpdater (Address : Type*) where
  original : Finset Address
  current : Finset Address
  removed : Finset Address

variable {Primary PrimaryMemory Address : Type*} [DecidableEq Address]

namespace HighValueAccountsUpdater

def create (accounts : HighValueAccounts Address) : HighValueAccountsUpdater Address :=
  ⟨accounts.addresses, accounts.addresses, accounts.removedAddresses⟩

def updateOne (updater : HighValueAccountsUpdater Address) (address : Address)
    (descriptor : HighValueAccountDescriptor) :
    HighValueAccountsUpdater Address :=
  if descriptor.isHighValue then
    { updater with current := insert address updater.current, removed := updater.removed.erase address }
  else
    let updater := { updater with current := updater.current.erase address }
    -- historical information is checked in order for multiblock syncs to work
    if address ∈ updater.original ∨ descriptor.hasHistoricalInformation = true then
      { updater with removed := insert address updater.removed }
    else updater

/-- `HighValueAddressesUpdater::update`. An account state is stored under its address. -/
def updateAll (updater : HighValueAccountsUpdater Address) (source : List (Address × State.AccountState))
    (calculator : State.AccountState → HighValueAccountDescriptor) : HighValueAccountsUpdater Address :=
  source.foldl (fun updater pair => updater.updateOne pair.1 (calculator pair.2)) updater

variable [Container Primary Address State.AccountState] [Container PrimaryMemory Address State.AccountState]

/-- `updateHarvestingAccounts` with the elements of a delta. -/
def update (options : HighValueOptions) (updater : HighValueAccountsUpdater Address)
    (delta : BaseSetDelta Primary PrimaryMemory Address) : HighValueAccountsUpdater Address :=
  let updater := updater.updateAll (Container.elements delta.addedElements) (hasHighValue options)
  let updater := updater.updateAll (Container.elements delta.copiedElements) (hasHighValue options)
  updater.updateAll (Container.elements delta.removedElements) fun _ => ⟨false, false⟩

section Update
variable {updater : HighValueAccountsUpdater Address}

@[simp] theorem original_updateOne (address : Address) (descriptor : HighValueAccountDescriptor) :
    (updater.updateOne address descriptor).original = updater.original := by
  simp only [updateOne]
  split
  · rfl
  · split <;> rfl

/-- What an updater knows of an address: whether it is a current one, and whether a removed one. -/
structure Knows (updater : HighValueAccountsUpdater Address) (address : Address) (isHighValue : Bool) : Prop where
  current : address ∈ updater.current ↔ isHighValue = true
  removed : isHighValue = true → address ∉ updater.removed
  lost : isHighValue = false → address ∈ updater.original → address ∈ updater.removed

omit [DecidableEq Address] in
theorem knows_create {accounts : HighValueAccounts Address} {address : Address} {isHighValue : Bool}
    (hbase : address ∈ accounts.addresses ↔ isHighValue = true)
    (hdisjoint : Disjoint accounts.addresses accounts.removedAddresses) :
    (create accounts).Knows address isHighValue := by
  refine ⟨hbase, fun hhigh => ?_, fun hlow horiginal => ?_⟩
  · exact Finset.disjoint_left.1 hdisjoint (hbase.2 hhigh)
  · rw [hbase.1 horiginal] at hlow
    exact absurd hlow (by decide)

theorem knows_updateOne (address : Address) (descriptor : HighValueAccountDescriptor) :
    (updater.updateOne address descriptor).Knows address descriptor.isHighValue := by
  rw [updateOne]
  cases hhigh : descriptor.isHighValue with
  | true =>
    rw [if_pos rfl]
    exact ⟨iff_of_true (Finset.mem_insert_self ..) rfl, fun _ => Finset.notMem_erase _ _, fun h => absurd h (by decide)⟩
  | false =>
    rw [if_neg (by decide)]
    simp only
    split
    · exact ⟨iff_of_false (Finset.notMem_erase _ _) (by decide), fun h => absurd h (by decide),
        fun _ _ => Finset.mem_insert_self ..⟩
    · rename_i hnot
      exact ⟨iff_of_false (Finset.notMem_erase _ _) (by decide), fun h => absurd h (by decide),
        fun _ horiginal => absurd (.inl horiginal) hnot⟩

/-- Two updaters agree on an address. -/
structure Agrees (updater updater' : HighValueAccountsUpdater Address) (address : Address) : Prop where
  original : updater'.original = updater.original
  current : address ∈ updater'.current ↔ address ∈ updater.current
  removed : address ∈ updater'.removed ↔ address ∈ updater.removed

theorem agrees_updateOne {address address' : Address} (hne : address' ≠ address)
    (descriptor : HighValueAccountDescriptor) :
    Agrees updater (updater.updateOne address descriptor) address' := by
  refine ⟨original_updateOne address descriptor, ?_, ?_⟩
  · simp only [updateOne]
    split
    · exact Finset.mem_insert.trans (or_iff_right hne)
    · split <;> exact Finset.mem_erase.trans (and_iff_right hne)
  · simp only [updateOne]
    split
    · exact Finset.mem_erase.trans (and_iff_right hne)
    · split
      · exact Finset.mem_insert.trans (or_iff_right hne)
      · exact Iff.rfl

omit [DecidableEq Address] in
theorem Agrees.knows {updater' : HighValueAccountsUpdater Address} {address : Address} {isHighValue : Bool}
    (h : Agrees updater updater' address) (hknows : updater.Knows address isHighValue) :
    updater'.Knows address isHighValue := by
  refine ⟨h.current.trans hknows.current, fun hhigh => ?_, fun hlow => ?_⟩
  · rw [h.removed]
    exact hknows.removed hhigh
  · rw [h.removed, h.original]
    exact hknows.lost hlow

theorem agrees_updateAll {source : List (Address × State.AccountState)} {address : Address}
    (hnot : ∀ pair ∈ source, pair.1 ≠ address) (calculator : State.AccountState → HighValueAccountDescriptor) :
    Agrees updater (updater.updateAll source calculator) address := by
  induction source generalizing updater with
  | nil => exact ⟨rfl, Iff.rfl, Iff.rfl⟩
  | cons pair source ih =>
    have hfirst := @agrees_updateOne _ _ updater pair.1 address (Ne.symm (hnot pair (List.mem_cons_self ..)))
      (calculator pair.2)
    have hrest := @ih (updater.updateOne pair.1 (calculator pair.2)) fun pair' h =>
      hnot pair' (List.mem_cons_of_mem _ h)
    exact ⟨hrest.original.trans hfirst.original, hrest.current.trans hfirst.current, hrest.removed.trans hfirst.removed⟩

theorem knows_updateAll {source : List (Address × State.AccountState)} (hnodup : (source.map Prod.fst).Nodup)
    {address : Address} {accountState : State.AccountState} (hmem : (address, accountState) ∈ source)
    (calculator : State.AccountState → HighValueAccountDescriptor) :
    (updater.updateAll source calculator).Knows address (calculator accountState).isHighValue := by
  induction source generalizing updater with
  | nil => exact absurd hmem (List.not_mem_nil)
  | cons pair source ih =>
    obtain ⟨hnot, hnodup⟩ := List.nodup_cons.1 hnodup
    rcases List.mem_cons.1 hmem with rfl | hmem
    · have hother : ∀ pair' ∈ source, pair'.1 ≠ address := by
        rintro pair' hmem' rfl
        exact hnot (List.mem_map.2 ⟨pair', hmem', rfl⟩)
      exact (agrees_updateAll hother calculator).knows (knows_updateOne address (calculator accountState))
    · exact ih hnodup hmem

section Delta
variable {delta : BaseSetDelta Primary PrimaryMemory Address} {address : Address}

def isHigh (options : HighValueOptions) (accountState : Option State.AccountState) : Bool :=
  accountState.any fun accountState => (hasHighValue options accountState).isHighValue

omit [Container Primary Address State.AccountState] in
theorem not_mem_of_find_eq_none {elements : PrimaryMemory} (hnone : Container.find elements address = none) :
    ∀ pair ∈ Container.elements elements, pair.1 ≠ address := by
  rintro pair hmem rfl
  rw [Container.find_eq_some_iff.2 hmem] at hnone
  exact Option.some_ne_none _ hnone

theorem knows_update (options : HighValueOptions) (h : delta.Invariant) (hchanged : (delta.slot address).Changed) :
    (updater.update options delta).Knows address (isHigh options (delta.find address)) := by
  have hvalid := invariant_iff.1 h address
  have hvalue := delta.find_eq_value address
  have hnodup : ∀ elements : PrimaryMemory, ((Container.elements elements).map Prod.fst).Nodup := Container.nodup
  rw [update]
  cases hremoved : Container.find delta.removedElements address with
  | some accountState =>
    have hnone : delta.find address = none := by rw [hvalue, Slot.value, slot, hremoved]
    rw [hnone]
    exact knows_updateAll (hnodup _) (Container.find_eq_some_iff.1 hremoved) _
  | none =>
    refine (agrees_updateAll (not_mem_of_find_eq_none hremoved) _).knows ?_
    cases hcopied : Container.find delta.copiedElements address with
    | some accountState =>
      have hsome : delta.find address = some accountState := by
        rw [hvalue, Slot.value, slot, hremoved, hcopied]
        rfl
      rw [hsome]
      exact knows_updateAll (hnodup _) (Container.find_eq_some_iff.1 hcopied) _
    | none =>
      refine (agrees_updateAll (not_mem_of_find_eq_none hcopied) _).knows ?_
      cases hadded : Container.find delta.addedElements address with
      | some accountState =>
        have horiginal : Container.find delta.originalElements address = none :=
          hvalid.added_original (by rw [slot, hadded]; exact Option.some_ne_none _)
        have hsome : delta.find address = some accountState := by
          rw [hvalue, Slot.value, slot, hremoved, hcopied, horiginal, hadded]
          rfl
        rw [hsome]
        exact knows_updateAll (hnodup _) (Container.find_eq_some_iff.1 hadded) _
      | none =>
        simp only [Slot.Changed, slot, hremoved, hcopied, hadded] at hchanged
        simp at hchanged

omit [DecidableEq Address] [Container Primary Address State.AccountState]
  [Container PrimaryMemory Address State.AccountState] in
theorem Agrees.trans {updater' updater'' : HighValueAccountsUpdater Address} (h : Agrees updater updater' address)
    (h' : Agrees updater' updater'' address) : Agrees updater updater'' address :=
  ⟨h'.original.trans h.original, h'.current.trans h.current, h'.removed.trans h.removed⟩

theorem agrees_update (options : HighValueOptions) (hnot : ¬(delta.slot address).Changed) :
    Agrees updater (updater.update options delta) address := by
  simp only [Slot.Changed, slot, not_or, not_not] at hnot
  obtain ⟨hadded, hcopied, hremoved⟩ := hnot
  have hfirst := @agrees_updateAll _ _ updater _ address (not_mem_of_find_eq_none hadded) (hasHighValue options)
  have hsecond := hfirst.trans (agrees_updateAll (not_mem_of_find_eq_none hcopied) (hasHighValue options))
  rw [update]
  exact hsecond.trans (agrees_updateAll (not_mem_of_find_eq_none hremoved) _)

theorem original_updateAll (source : List (Address × State.AccountState))
    (calculator : State.AccountState → HighValueAccountDescriptor) :
    (updater.updateAll source calculator).original = updater.original := by
  induction source generalizing updater with
  | nil => rfl
  | cons pair source ih => exact ih.trans (original_updateOne _ _)

omit [Container Primary Address State.AccountState] in
theorem original_update (options : HighValueOptions) :
    (updater.update options delta).original = updater.original := by
  rw [update, original_updateAll, original_updateAll, original_updateAll]

end Delta

end Update

inductive Event (Address : Type*) where
  | change (change : Change Address State.AccountState)
  | incrementGenerationId
  | update

/-- A growing delta and the updater that is given it again and again. -/
structure Session (Primary PrimaryMemory Address : Type*) where
  delta : BaseSetDelta Primary PrimaryMemory Address
  updater : HighValueAccountsUpdater Address

namespace Session
variable {session : Session Primary PrimaryMemory Address} {options : HighValueOptions}
  {accounts : HighValueAccounts Address} {elements : Primary}

def create (elements : Primary) (accounts : HighValueAccounts Address) : Session Primary PrimaryMemory Address :=
  ⟨.create elements, .create accounts⟩

def step (options : HighValueOptions) (session : Session Primary PrimaryMemory Address) :
    Event Address → Session Primary PrimaryMemory Address
  | .change change => { session with delta := session.delta.apply change.operation }
  | .incrementGenerationId => { session with delta := session.delta.incrementGenerationId }
  | .update => { session with updater := session.updater.update options session.delta }

def run (options : HighValueOptions) (session : Session Primary PrimaryMemory Address) (events : List (Event Address)) :
    Session Primary PrimaryMemory Address :=
  events.foldl (step options) session

/-- What is not in the delta is as it was. -/
structure Follows (elements : Primary) (accounts : HighValueAccounts Address)
    (session : Session Primary PrimaryMemory Address) : Prop where
  invariant : session.delta.Invariant
  originalElements : session.delta.originalElements = elements
  original : session.updater.original = accounts.addresses
  agrees : ∀ address, ¬(session.delta.slot address).Changed →
    Agrees (HighValueAccountsUpdater.create accounts) session.updater address

theorem changed_change {delta : BaseSetDelta Primary PrimaryMemory Address}
    (change : Change Address State.AccountState) {address : Address} (h : (delta.slot address).Changed) :
    ((delta.apply change.operation).slot address).Changed := by
  by_cases hkey : address = change.key
  · subst hkey
    rcases apply_change delta change with ⟨-, heq⟩ | ⟨-, hchanged⟩
    · rwa [heq]
    · exact hchanged
  · rwa [slot_apply_of_ne delta change hkey]

theorem follows_create (elements : Primary) (accounts : HighValueAccounts Address) :
    Follows elements accounts (create elements accounts : Session Primary PrimaryMemory Address) :=
  ⟨invariant_create elements, rfl, rfl, fun _ _ => ⟨rfl, Iff.rfl, Iff.rfl⟩⟩

theorem Follows.step (h : Follows elements accounts session) (event : Event Address) :
    Follows elements accounts (session.step options event) := by
  cases event with
  | change change =>
    refine ⟨(h.invariant.apply change.operation).1, ?_, h.original, fun address hnot => ?_⟩
    · exact (originalElements_apply session.delta change.operation).trans h.originalElements
    · exact h.agrees address fun hchanged => hnot (changed_change change hchanged)
  | incrementGenerationId =>
    exact ⟨(h.invariant.apply .incrementGenerationId).1, h.originalElements, h.original, h.agrees⟩
  | update =>
    refine ⟨h.invariant, h.originalElements, ?_, fun address hnot => ?_⟩
    · exact (original_update options).trans h.original
    · exact (h.agrees address hnot).trans (agrees_update options hnot)

theorem Follows.run (h : Follows elements accounts session) (events : List (Event Address)) :
    Follows elements accounts (session.run options events) := by
  induction events generalizing session with
  | nil => exact h
  | cons event events ih => exact ih (h.step event)

theorem Follows.knows (h : Follows elements accounts session)
    (hbase : ∀ address, address ∈ accounts.addresses ↔ isHigh options (Container.find elements address) = true)
    (hdisjoint : Disjoint accounts.addresses accounts.removedAddresses) (address : Address) :
    (session.updater.update options session.delta).Knows address (isHigh options (session.delta.find address)) := by
  by_cases hchanged : (session.delta.slot address).Changed
  · exact knows_update options h.invariant hchanged
  · refine (agrees_update options hchanged).knows ((h.agrees address hchanged).knows ?_)
    have hfind : session.delta.find address = Container.find elements address := by
      simp only [Slot.Changed, slot, not_or, not_not] at hchanged
      obtain ⟨hadded, hcopied, hremoved⟩ := hchanged
      rw [find_eq_value, Slot.value, slot, hremoved, hcopied, hadded, ← h.originalElements]
      simp
    rw [hfind]
    exact knows_create (hbase address) hdisjoint

/-- Whenever an update comes last, the current addresses are those of the visible accounts with a high balance, no
removed address is among them, and every original address that is not is removed. The same holds before the first
change. -/
theorem updated_exact (options : HighValueOptions) (accounts : HighValueAccounts Address) (elements : Primary)
    (events : List (Event Address))
    (hbase : ∀ address, address ∈ accounts.addresses ↔ isHigh options (Container.find elements address) = true)
    (hdisjoint : Disjoint accounts.addresses accounts.removedAddresses)
    (hupdated : events = [] ∨ ∃ before, events = before ++ [.update])
    (session : Session Primary PrimaryMemory Address)
    (hsession : session = (create elements accounts).run options events) :
    (∀ address, address ∈ session.updater.current ↔ isHigh options (session.delta.find address) = true) ∧
      Disjoint session.updater.current session.updater.removed ∧
      ∀ address ∈ accounts.addresses, address ∉ session.updater.current → address ∈ session.updater.removed := by
  have hfollows : ∀ events, Follows elements accounts
      ((create elements accounts : Session Primary PrimaryMemory Address).run options events) :=
    (follows_create elements accounts).run
  have hknows : ∀ address, session.updater.Knows address (isHigh options (session.delta.find address)) := by
    intro address
    rcases hupdated with rfl | ⟨before, rfl⟩
    · rw [hsession]
      have hcreated := knows_create (hbase address) hdisjoint
      have hfind : (BaseSetDelta.create elements : BaseSetDelta Primary PrimaryMemory Address).find address =
          Container.find elements address := find_create elements address
      rw [← hfind] at hcreated
      exact hcreated
    · rw [hsession, run, List.foldl_append]
      exact (hfollows before).knows hbase hdisjoint address
  have horiginal : session.updater.original = accounts.addresses := by
    rw [hsession]
    exact (hfollows events).original
  refine ⟨fun address => (hknows address).current, ?_, fun address hmem hnot => ?_⟩
  · rw [Finset.disjoint_left]
    exact fun address hcurrent => (hknows address).removed ((hknows address).current.1 hcurrent)
  · refine (hknows address).lost ?_ (horiginal ▸ hmem)
    rw [← Bool.not_eq_true]
    exact fun hhigh => hnot ((hknows address).current.2 hhigh)

def sampleOptions : HighValueOptions := ⟨⟨1⟩, 50⟩

def richAccount : State.AccountState where
  address := State.sampleAddress
  addressHeight := 1
  balances := ((State.AccountBalances.credit {} ⟨1⟩ 100).toOption).getD {}

theorem isHigh_richAccount : isHigh sampleOptions (some richAccount) = true := by decide +kernel

def noAccounts : Session (KeyedList UInt8 State.AccountState) (KeyedList UInt8 State.AccountState) UInt8 :=
  create Container.empty ⟨∅, ∅⟩

def sampleEvents : List (Event UInt8) := [.change (.insert 7 richAccount), .update, .change (.remove 7)] ++ [.update]

theorem updated_exact_sample :
    (∀ address, address ∈ (noAccounts.run sampleOptions sampleEvents).updater.current ↔
      isHigh sampleOptions ((noAccounts.run sampleOptions sampleEvents).delta.find address) = true) ∧
    Disjoint (noAccounts.run sampleOptions sampleEvents).updater.current
      (noAccounts.run sampleOptions sampleEvents).updater.removed ∧
    ∀ address ∈ (∅ : Finset UInt8), address ∉ (noAccounts.run sampleOptions sampleEvents).updater.current →
      address ∈ (noAccounts.run sampleOptions sampleEvents).updater.removed := by
  refine updated_exact sampleOptions ⟨∅, ∅⟩ Container.empty sampleEvents (fun address => ?_)
    (Finset.disjoint_empty_left _) (.inr ⟨_, rfl⟩) _ rfl
  rw [Container.find_empty]
  exact iff_of_false (Finset.notMem_empty _) (by decide)

def oneAccount : KeyedList UInt8 State.AccountState := Container.insert Container.empty 7 richAccount

def overlapping : Session (KeyedList UInt8 State.AccountState) (KeyedList UInt8 State.AccountState) UInt8 :=
  create oneAccount ⟨{7}, {7}⟩

/-- An address that is both a current and a removed one stays both when its account is not changed. -/
theorem not_disjoint_of_overlap :
    (∀ address, address ∈ ({7} : Finset UInt8) ↔ isHigh sampleOptions (Container.find oneAccount address) = true) ∧
    ¬ Disjoint (overlapping.run sampleOptions [.update]).updater.current
      (overlapping.run sampleOptions [.update]).updater.removed := by
  constructor
  · intro address
    rw [oneAccount, Container.find_insert, Container.find_empty, Finset.mem_singleton]
    by_cases haddress : address = 7
    · rw [if_pos haddress]
      exact iff_of_true haddress isHigh_richAccount
    · rw [if_neg haddress, Container.find_empty]
      exact iff_of_false haddress (by decide)
  · rw [Finset.disjoint_left]
    exact fun hdisjoint => hdisjoint (Finset.mem_singleton_self 7) (Finset.mem_singleton_self 7)

end Session

end HighValueAccountsUpdater

end Catapult.Cache
