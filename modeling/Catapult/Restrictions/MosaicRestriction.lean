import Mathlib.Data.Finmap

/-!
# Mosaic restrictions

A mosaic has global rules and rules for single addresses, each under a key. The two kinds of restrictions are entries
of one cache, and their validators and observers are the same up to the facade through which they see a notification
and an entry. A transaction has two notifications: the one with the new rule is observed when the transaction is
committed, the one with the previous rule when it is rolled back.

`createKey` is the hash of a mosaic id and an address, `CreateMosaicRestrictionEntryKey`.
-/

namespace Catapult.MosaicRestrictions

/-- The byte of a transaction. The known types are the values from zero to six. -/
structure MosaicRestrictionType where
  value : UInt8
  deriving DecidableEq

def MosaicRestrictionType.none : MosaicRestrictionType := ⟨0⟩

/-- The pairs of keys and values. Nothing depends on their order. -/
abbrev RestrictionValueMap (Value : Type) := Finmap fun _ : UInt64 => Value

/-- A rule that removes is not stored. -/
structure Restriction (Target Rule : Type) (isRemoval : Rule → Bool) where
  target : Target
  rules : RestrictionValueMap Rule
  not_removal : ∀ key rule, rules.lookup key = some rule → isRemoval rule = false

namespace Restriction
variable {Target Rule : Type} {isRemoval : Rule → Bool}

def create (target : Target) : Restriction Target Rule isRemoval := ⟨target, ∅, by simp⟩

def size (restriction : Restriction Target Rule isRemoval) : Nat := restriction.rules.keys.card

def tryGet (restriction : Restriction Target Rule isRemoval) (key : UInt64) : Option Rule :=
  restriction.rules.lookup key

/-- What there is under a key that is set to the rule. -/
def stored (isRemoval : Rule → Bool) (rule : Rule) : Option Rule := if isRemoval rule then none else some rule

theorem lookup_set (rules : RestrictionValueMap Rule) (key : UInt64) (rule : Rule) (k : UInt64) :
    (if isRemoval rule then rules.erase key else rules.insert key rule).lookup k =
      if k = key then stored isRemoval rule else rules.lookup k := by
  rw [stored]
  by_cases hk : k = key
  · subst hk
    rw [if_pos rfl]
    split
    · exact Finmap.lookup_erase k rules
    · exact Finmap.lookup_insert rules
  · rw [if_neg hk]
    split
    · exact Finmap.lookup_erase_ne hk
    · exact Finmap.lookup_insert_of_ne rules hk

def set (restriction : Restriction Target Rule isRemoval) (key : UInt64) (rule : Rule) :
    Restriction Target Rule isRemoval where
  target := restriction.target
  rules := if isRemoval rule then restriction.rules.erase key else restriction.rules.insert key rule
  not_removal k r h := by
    rw [lookup_set, stored] at h
    split at h
    · split at h
      · cases h
      · case isFalse hremoval =>
        cases h
        exact Bool.eq_false_iff.2 hremoval
    · exact restriction.not_removal k r h

end Restriction

structure RestrictionRule where
  referenceMosaicId : UInt64
  restrictionValue : UInt64
  restrictionType : MosaicRestrictionType
  deriving DecidableEq

def RestrictionRule.isRemoval (rule : RestrictionRule) : Bool := rule.restrictionType = .none

abbrev MosaicGlobalRestriction := Restriction UInt64 RestrictionRule RestrictionRule.isRemoval

def sentinelRemovalValue : UInt64 := 0xFFFFFFFFFFFFFFFF

def isSentinel (value : UInt64) : Bool := value = sentinelRemovalValue

abbrev MosaicAddressRestriction (Address : Type) := Restriction (UInt64 × Address) UInt64 isSentinel

def MosaicAddressRestriction.get {Address : Type} (restriction : MosaicAddressRestriction Address) (key : UInt64) :
    UInt64 :=
  (restriction.tryGet key).getD sentinelRemovalValue

inductive MosaicRestrictionEntry (Address : Type) where
  | address (restriction : MosaicAddressRestriction Address)
  | global (restriction : MosaicGlobalRestriction)

inductive EntryError where
  | notAddressRestriction
  | notGlobalRestriction

namespace MosaicRestrictionEntry
variable {Address : Type}

def asAddressRestriction : MosaicRestrictionEntry Address → Except EntryError (MosaicAddressRestriction Address)
  | address restriction => .ok restriction
  | global _ => .error .notAddressRestriction

def asGlobalRestriction : MosaicRestrictionEntry Address → Except EntryError MosaicGlobalRestriction
  | address _ => .error .notGlobalRestriction
  | global restriction => .ok restriction

/-- `GetRestrictionCount`. -/
def count : MosaicRestrictionEntry Address → Nat
  | address restriction => restriction.size
  | global restriction => restriction.size

variable [Inhabited Address]

def target : MosaicRestrictionEntry Address → UInt64 × Address
  | address restriction => restriction.target
  | global restriction => (restriction.target, default)

def uniqueKey {Hash : Type} (createKey : UInt64 × Address → Hash) (entry : MosaicRestrictionEntry Address) : Hash :=
  createKey entry.target

end MosaicRestrictionEntry

abbrev Entries (Hash Address : Type) := Hash → Option (MosaicRestrictionEntry Address)

/-- How the facades of one kind see the entries of the cache. -/
structure EntryView (Address Target Rule : Type) [Inhabited Address] (isRemoval : Rule → Bool) where
  asRestriction : MosaicRestrictionEntry Address → Except EntryError (Restriction Target Rule isRemoval)
  toEntry : Restriction Target Rule isRemoval → MosaicRestrictionEntry Address
  tryGet : Restriction Target Rule isRemoval → UInt64 → Option Rule
  keyTarget : Target → UInt64 × Address
  asRestriction_eq_ok : ∀ entry restriction, asRestriction entry = .ok restriction ↔ entry = toEntry restriction
  tryGet_eq : ∀ restriction key, tryGet restriction key = restriction.tryGet key
  target_toEntry : ∀ restriction, (toEntry restriction).target = keyTarget restriction.target
  count_toEntry : ∀ restriction, (toEntry restriction).count = restriction.size
  keyTarget_injective : Function.Injective keyTarget

section Views
variable {Address : Type} [Inhabited Address]

def globalView : EntryView Address UInt64 RestrictionRule RestrictionRule.isRemoval where
  asRestriction := MosaicRestrictionEntry.asGlobalRestriction
  toEntry := .global
  tryGet restriction key := restriction.tryGet key
  keyTarget mosaicId := (mosaicId, default)
  asRestriction_eq_ok entry restriction := by
    cases entry with
    | address other => simp [MosaicRestrictionEntry.asGlobalRestriction]
    | global other => simp [MosaicRestrictionEntry.asGlobalRestriction]
  tryGet_eq _ _ := rfl
  target_toEntry _ := rfl
  count_toEntry _ := rfl
  keyTarget_injective _ _ h := (Prod.mk.inj h).1

/-- There is a rule unless the value that `get` returns is the one that removes. -/
def addressView : EntryView Address (UInt64 × Address) UInt64 isSentinel where
  asRestriction := MosaicRestrictionEntry.asAddressRestriction
  toEntry := .address
  tryGet restriction key :=
    let rule := MosaicAddressRestriction.get restriction key
    if sentinelRemovalValue ≠ rule then some rule else none
  keyTarget target := target
  asRestriction_eq_ok entry restriction := by
    cases entry with
    | address other => simp [MosaicRestrictionEntry.asAddressRestriction]
    | global other => simp [MosaicRestrictionEntry.asAddressRestriction]
  tryGet_eq restriction key := by
    cases hrule : restriction.tryGet key with
    | none => simp [MosaicAddressRestriction.get, hrule]
    | some rule =>
      have hne := restriction.not_removal key rule hrule
      rw [isSentinel, decide_eq_false_iff_not] at hne
      simp [MosaicAddressRestriction.get, hrule, Ne.symm hne]
  target_toEntry _ := rfl
  count_toEntry _ := rfl
  keyTarget_injective _ _ h := h

end Views

structure NotificationFacade {Address Target Rule : Type} [Inhabited Address] {isRemoval : Rule → Bool}
    (view : EntryView Address Target Rule isRemoval) where
  target : Target
  restrictionKey : UInt64
  toRule : Rule
  isUnset : Bool
  isRemoval_of_isUnset : isUnset = true → isRemoval toRule = true

namespace NotificationFacade
variable {Hash Address Target Rule : Type} [Inhabited Address] {isRemoval : Rule → Bool}
  {view : EntryView Address Target Rule isRemoval}

def uniqueKey (createKey : UInt64 × Address → Hash) (facade : NotificationFacade view) : Hash :=
  createKey (view.keyTarget facade.target)

def isDeleteAction (facade : NotificationFacade view) : Bool := isRemoval facade.toRule

def tryGet (facade : NotificationFacade view) (entry : MosaicRestrictionEntry Address) :
    Except EntryError (Option Rule) :=
  (view.asRestriction entry).map fun restriction => view.tryGet restriction facade.restrictionKey

/-- The entry with the rule of the notification, and the number of its rules. -/
def update (facade : NotificationFacade view) (entry : MosaicRestrictionEntry Address) :
    Except EntryError (MosaicRestrictionEntry Address × Nat) :=
  (view.asRestriction entry).map fun restriction =>
    let restriction := restriction.set facade.restrictionKey facade.toRule
    (view.toEntry restriction, restriction.size)

def isMatch [DecidableEq Rule] (facade : NotificationFacade view) (rule : Rule) : Bool := rule = facade.toRule

def toRestriction (facade : NotificationFacade view) : Restriction Target Rule isRemoval := .create facade.target

end NotificationFacade

inductive ValidationResult where
  | success
  | previousValueMismatch
  | previousValueMustBeZero
  | cannotDeleteNonexistentRestriction
  | maxRestrictionsExceeded
  deriving DecidableEq

section Validation
variable {Hash Address Target Rule : Type} [Inhabited Address] [DecidableEq Rule] {isRemoval : Rule → Bool}
  {view : EntryView Address Target Rule isRemoval}

def existingRule (createKey : UInt64 × Address → Hash) (facade : NotificationFacade view)
    (entries : Entries Hash Address) : Except EntryError (Option Rule) :=
  match entries (facade.uniqueKey createKey) with
  | none => .ok none
  | some entry => facade.tryGet entry

def validateModification (createKey : UInt64 × Address → Hash) (facade : NotificationFacade view)
    (entries : Entries Hash Address) : Except EntryError ValidationResult :=
  (existingRule createKey facade entries).map fun
    | some rule => if facade.isMatch rule then .success else .previousValueMismatch
    | none => if facade.isUnset then .success else .previousValueMustBeZero

/-- `MosaicRestrictionMaxValuesValidator`. The first rule of an entry is not counted. -/
def validateMaxValues (createKey : UInt64 × Address → Hash) (maxMosaicRestrictionValues : UInt8)
    (facade : NotificationFacade view) (entries : Entries Hash Address) : Except EntryError ValidationResult :=
  match entries (facade.uniqueKey createKey) with
  | none => .ok (if facade.isDeleteAction then .cannotDeleteNonexistentRestriction else .success)
  | some entry =>
    (facade.tryGet entry).map fun rule =>
      if facade.isDeleteAction && rule.isNone then .cannotDeleteNonexistentRestriction
      else if facade.isDeleteAction || rule.isSome || entry.count < maxMosaicRestrictionValues.toNat then .success
      else .maxRestrictionsExceeded

def accepts (createKey : UInt64 × Address → Hash) (maxMosaicRestrictionValues : UInt8)
    (previous new : NotificationFacade view) (entries : Entries Hash Address) : Bool :=
  match validateModification createKey previous entries,
    validateMaxValues createKey maxMosaicRestrictionValues new entries with
  | .ok .success, .ok .success => true
  | _, _ => false

end Validation

inductive NotifyMode where
  | commit
  | rollback
  deriving DecidableEq

section Observers
variable {Hash Address Target Rule : Type} [Inhabited Address] [DecidableEq Hash] {isRemoval : Rule → Bool}
  {view : EntryView Address Target Rule isRemoval}

def observeNotification (createKey : UInt64 × Address → Hash) (requiredMode mode : NotifyMode)
    (facade : NotificationFacade view) (entries : Entries Hash Address) : Except EntryError (Entries Hash Address) :=
  if requiredMode ≠ mode then .ok entries
  else
    match entries (facade.uniqueKey createKey) with
    | none =>
      (facade.update (view.toEntry facade.toRestriction)).map fun (entry, _) =>
        Function.update entries (entry.uniqueKey createKey) (some entry)
    | some entry =>
      (facade.update entry).map fun (entry, numRules) =>
        let entries := Function.update entries (facade.uniqueKey createKey) (some entry)
        if 0 = numRules then Function.update entries (entry.uniqueKey createKey) none else entries

def observe (createKey : UInt64 × Address → Hash) (mode : NotifyMode) (previous new : NotificationFacade view)
    (entries : Entries Hash Address) : Except EntryError (Entries Hash Address) := do
  let entries ← observeNotification createKey .rollback mode previous entries
  observeNotification createKey .commit mode new entries

end Observers

structure Resolvers (Address UnresolvedAddress : Type) where
  resolveMosaicId : UInt64 → UInt64
  resolveAddress : UnresolvedAddress → Address

structure MosaicGlobalRestrictionTransaction where
  mosaicId : UInt64
  referenceMosaicId : UInt64
  restrictionKey : UInt64
  previousRestrictionValue : UInt64
  newRestrictionValue : UInt64
  previousRestrictionType : MosaicRestrictionType
  newRestrictionType : MosaicRestrictionType

structure MosaicAddressRestrictionTransaction (UnresolvedAddress : Type) where
  mosaicId : UInt64
  restrictionKey : UInt64
  previousRestrictionValue : UInt64
  newRestrictionValue : UInt64
  targetAddress : UnresolvedAddress

structure MosaicGlobalRestrictionModificationNotification where
  mosaicId : UInt64
  referenceMosaicId : UInt64
  restrictionKey : UInt64
  restrictionValue : UInt64
  restrictionType : MosaicRestrictionType

structure MosaicAddressRestrictionModificationNotification (UnresolvedAddress : Type) where
  mosaicId : UInt64
  restrictionKey : UInt64
  targetAddress : UnresolvedAddress
  restrictionValue : UInt64

section Notifications
variable {Address UnresolvedAddress : Type} [Inhabited Address]

def globalFacade (resolvers : Resolvers Address UnresolvedAddress)
    (notification : MosaicGlobalRestrictionModificationNotification) : NotificationFacade (@globalView Address _) where
  target := resolvers.resolveMosaicId notification.mosaicId
  restrictionKey := notification.restrictionKey
  toRule := ⟨resolvers.resolveMosaicId notification.referenceMosaicId, notification.restrictionValue,
    notification.restrictionType⟩
  isUnset := 0 = notification.restrictionValue ∧ notification.restrictionType = .none
  isRemoval_of_isUnset h := decide_eq_true (of_decide_eq_true h).2

def addressFacade (resolvers : Resolvers Address UnresolvedAddress)
    (notification : MosaicAddressRestrictionModificationNotification UnresolvedAddress) :
    NotificationFacade (@addressView Address _) where
  target := (resolvers.resolveMosaicId notification.mosaicId, resolvers.resolveAddress notification.targetAddress)
  restrictionKey := notification.restrictionKey
  toRule := notification.restrictionValue
  isUnset := isSentinel notification.restrictionValue
  isRemoval_of_isUnset h := h

end Notifications

namespace MosaicGlobalRestrictionTransaction
variable (transaction : MosaicGlobalRestrictionTransaction)

def previousValueNotification : MosaicGlobalRestrictionModificationNotification :=
  ⟨transaction.mosaicId, transaction.referenceMosaicId, transaction.restrictionKey,
    transaction.previousRestrictionValue, transaction.previousRestrictionType⟩

def newValueNotification : MosaicGlobalRestrictionModificationNotification :=
  ⟨transaction.mosaicId, transaction.referenceMosaicId, transaction.restrictionKey,
    transaction.newRestrictionValue, transaction.newRestrictionType⟩

end MosaicGlobalRestrictionTransaction

namespace MosaicAddressRestrictionTransaction
variable {UnresolvedAddress : Type} (transaction : MosaicAddressRestrictionTransaction UnresolvedAddress)

def previousValueNotification : MosaicAddressRestrictionModificationNotification UnresolvedAddress :=
  ⟨transaction.mosaicId, transaction.restrictionKey, transaction.targetAddress,
    transaction.previousRestrictionValue⟩

def newValueNotification : MosaicAddressRestrictionModificationNotification UnresolvedAddress :=
  ⟨transaction.mosaicId, transaction.restrictionKey, transaction.targetAddress, transaction.newRestrictionValue⟩

end MosaicAddressRestrictionTransaction

inductive Transaction (UnresolvedAddress : Type) where
  | global (transaction : MosaicGlobalRestrictionTransaction)
  | address (transaction : MosaicAddressRestrictionTransaction UnresolvedAddress)

structure ResolvedTransaction (Address UnresolvedAddress : Type) where
  resolvers : Resolvers Address UnresolvedAddress
  transaction : Transaction UnresolvedAddress

namespace ResolvedTransaction
variable {Hash Address UnresolvedAddress : Type} [Inhabited Address]

def target : ResolvedTransaction Address UnresolvedAddress → UInt64 × Address
  | ⟨resolvers, .global transaction⟩ => (resolvers.resolveMosaicId transaction.mosaicId, default)
  | ⟨resolvers, .address transaction⟩ =>
    (resolvers.resolveMosaicId transaction.mosaicId, resolvers.resolveAddress transaction.targetAddress)

def accepts (createKey : UInt64 × Address → Hash) (maxMosaicRestrictionValues : UInt8)
    (entries : Entries Hash Address) : ResolvedTransaction Address UnresolvedAddress → Bool
  | ⟨resolvers, .global transaction⟩ =>
    MosaicRestrictions.accepts createKey maxMosaicRestrictionValues
      (globalFacade resolvers transaction.previousValueNotification)
      (globalFacade resolvers transaction.newValueNotification) entries
  | ⟨resolvers, .address transaction⟩ =>
    MosaicRestrictions.accepts createKey maxMosaicRestrictionValues
      (addressFacade resolvers transaction.previousValueNotification)
      (addressFacade resolvers transaction.newValueNotification) entries

def observe [DecidableEq Hash] (createKey : UInt64 × Address → Hash) (mode : NotifyMode)
    (entries : Entries Hash Address) :
    ResolvedTransaction Address UnresolvedAddress → Except EntryError (Entries Hash Address)
  | ⟨resolvers, .global transaction⟩ =>
    MosaicRestrictions.observe createKey mode (globalFacade resolvers transaction.previousValueNotification)
      (globalFacade resolvers transaction.newValueNotification) entries
  | ⟨resolvers, .address transaction⟩ =>
    MosaicRestrictions.observe createKey mode (addressFacade resolvers transaction.previousValueNotification)
      (addressFacade resolvers transaction.newValueNotification) entries

end ResolvedTransaction

section Runs
variable {Hash Address UnresolvedAddress : Type} [Inhabited Address] [DecidableEq Hash]

/-- The transactions that are not rolled back, the last one first. -/
structure Chain (Hash Address UnresolvedAddress : Type) where
  entries : Entries Hash Address
  committed : List (ResolvedTransaction Address UnresolvedAddress)

inductive Operation (Address UnresolvedAddress : Type) where
  | commit (resolved : ResolvedTransaction Address UnresolvedAddress)
  | rollback

def commit (createKey : UInt64 × Address → Hash) (maxMosaicRestrictionValues : UInt8) (entries : Entries Hash Address)
    (resolved : ResolvedTransaction Address UnresolvedAddress) : Option (Entries Hash Address) :=
  if resolved.accepts createKey maxMosaicRestrictionValues entries then
    (resolved.observe createKey .commit entries).toOption
  else none

def step (createKey : UInt64 × Address → Hash) (maxMosaicRestrictionValues : UInt8)
    (chain : Chain Hash Address UnresolvedAddress) :
    Operation Address UnresolvedAddress → Option (Chain Hash Address UnresolvedAddress)
  | .commit resolved =>
    (commit createKey maxMosaicRestrictionValues chain.entries resolved).map fun entries =>
      ⟨entries, resolved :: chain.committed⟩
  | .rollback =>
    match chain.committed with
    | [] => none
    | resolved :: committed =>
      (resolved.observe createKey .rollback chain.entries).toOption.map fun entries => ⟨entries, committed⟩

def run (createKey : UInt64 × Address → Hash) (maxMosaicRestrictionValues : UInt8)
    (chain : Chain Hash Address UnresolvedAddress) (operations : List (Operation Address UnresolvedAddress)) :
    Option (Chain Hash Address UnresolvedAddress) :=
  operations.foldlM (step createKey maxMosaicRestrictionValues) chain

end Runs
end Catapult.MosaicRestrictions
