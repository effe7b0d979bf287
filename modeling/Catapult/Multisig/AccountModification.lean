import Catapult.Lib.Paths

/-!
# Modifications of multisig accounts

An entry of the multisig cache has the cosignatories of an account and the accounts of which it is a cosignatory
itself. A modification adds and removes cosignatories of its signer and changes the numbers of cosignatures that are
required.

Addresses in a modification can be aliases; `resolve` is the resolver. The observers may throw, and are `EStateM`
computations on the cache.
-/

namespace Catapult.Multisig

structure MultisigEntry (Address : Type) where
  cosignatoryAddresses : Finset Address
  multisigAddresses : Finset Address
  minApproval : Nat
  minRemoval : Nat
  deriving DecidableEq

def MultisigEntry.initial {Address : Type} : MultisigEntry Address := ⟨∅, ∅, 0, 0⟩

abbrev MultisigCache (Address : Type) := Address → Option (MultisigEntry Address)

structure MultisigConfiguration where
  maxMultisigDepth : Nat
  maxCosignatoriesPerAccount : Nat
  maxCosignedAccountsPerAccount : Nat
  maxCosignatories_lt : maxCosignatoriesPerAccount < 2 ^ 32

/-- `MultisigAccountModificationTransaction`; the deltas are 8 bit values in the source. -/
structure AccountModification (Address UnresolvedAddress : Type) where
  signerAddress : Address
  minRemovalDelta : Int
  minApprovalDelta : Int
  addressAdditions : List UnresolvedAddress
  addressDeletions : List UnresolvedAddress
  additionsCount_lt : addressAdditions.length < 2 ^ 8
  deletionsCount_lt : addressDeletions.length < 2 ^ 8

inductive NotifyMode where
  | commit
  | rollback
  deriving DecidableEq

/-- The exceptions of a cache: a value is already there, or it is not there. -/
inductive CacheError (Address : Type) where
  | already (address : Address)
  | not (address : Address)

abbrev CacheM (Address : Type) := EStateM (CacheError Address) (MultisigCache Address)

section Observers
variable {Address UnresolvedAddress : Type} [DecidableEq Address]

def insert (address : Address) (entry : MultisigEntry Address) : CacheM Address Unit := do
  if ((← get) address).isSome then
    throw (.already address)
  modify fun cache => Function.update cache address (some entry)

def remove (address : Address) : CacheM Address Unit := do
  if ((← get) address).isNone then
    throw (.not address)
  modify fun cache => Function.update cache address none

/-- A change of an entry through a reference to it. -/
def updateEntry (address : Address) (f : MultisigEntry Address → MultisigEntry Address) : CacheM Address Unit :=
  modify fun cache => Function.update cache address ((cache address).map f)

def getMultisigEntry (address : Address) : CacheM Address Unit := do
  if ((← get) address).isNone then
    insert address .initial

def removeIfEmpty (address : Address) : CacheM Address Unit := do
  match (← get) address with
  | none => return
  | some entry =>
    if entry.cosignatoryAddresses = ∅ ∧ entry.multisigAddresses = ∅ then
      remove address

def addCosignatory (multisig cosignatory : Address) : CacheM Address Unit := do
  getMultisigEntry cosignatory
  updateEntry cosignatory fun entry => { entry with
    multisigAddresses := Insert.insert multisig entry.multisigAddresses }
  updateEntry multisig fun entry => { entry with
    cosignatoryAddresses := Insert.insert cosignatory entry.cosignatoryAddresses }

def removeCosignatory (multisig cosignatory : Address) : CacheM Address Unit := do
  updateEntry multisig fun entry => { entry with
    cosignatoryAddresses := entry.cosignatoryAddresses.erase cosignatory }
  -- `find(cosignatory).get()`
  if ((← get) cosignatory).isNone then
    throw (.not cosignatory)
  updateEntry cosignatory fun entry => { entry with multisigAddresses := entry.multisigAddresses.erase multisig }
  removeIfEmpty cosignatory

def addAll (multisig : Address) (shouldAdd : Bool) : List Address → CacheM Address Unit
  | [] => return
  | cosignatory :: addresses => do
    if shouldAdd then
      addCosignatory multisig cosignatory
    else
      removeCosignatory multisig cosignatory
    addAll multisig shouldAdd addresses

/-- `MultisigAccountFacade`: the destructor also runs when something is thrown. -/
def withMultisigAccount (multisig : Address) (body : CacheM Address Unit) : CacheM Address Unit := do
  getMultisigEntry multisig
  try body finally removeIfEmpty multisig

def observeCosignatories (resolve : UnresolvedAddress → Address) (mode : NotifyMode)
    (modification : AccountModification Address UnresolvedAddress) : CacheM Address Unit :=
  withMultisigAccount modification.signerAddress do
    addAll modification.signerAddress (mode = .commit) (modification.addressAdditions.map resolve)
    addAll modification.signerAddress (mode ≠ .commit) (modification.addressDeletions.map resolve)

/-- `AddDelta`, with 32 bit values. -/
def addDelta (value : Nat) (direction delta : Int) : Nat := ((value + direction * delta) % 2 ^ 32).toNat

def observeSettings (mode : NotifyMode) (modification : AccountModification Address UnresolvedAddress) :
    CacheM Address Unit := do
  let isNotContained := ((← get) modification.signerAddress).isNone
  if isNotContained && mode = .commit then
    return
  if isNotContained then
    insert modification.signerAddress .initial
  let direction := if mode = .commit then 1 else -1
  updateEntry modification.signerAddress fun entry => { entry with
    minApproval := addDelta entry.minApproval direction modification.minApprovalDelta
    minRemoval := addDelta entry.minRemoval direction modification.minRemovalDelta }

/-- The notification of changes of cosignatories is raised. -/
def AccountModification.hasCosignatories (modification : AccountModification Address UnresolvedAddress) : Bool :=
  decide (0 < modification.addressAdditions.length) || decide (0 < modification.addressDeletions.length)

def observeCosignatoriesIfAny (resolve : UnresolvedAddress → Address) (mode : NotifyMode)
    (modification : AccountModification Address UnresolvedAddress) : CacheM Address Unit := do
  if modification.hasCosignatories then
    observeCosignatories resolve mode modification

def observe (resolve : UnresolvedAddress → Address) :
    NotifyMode → AccountModification Address UnresolvedAddress → CacheM Address Unit
  | .commit, modification => do
    observeCosignatoriesIfAny resolve .commit modification
    observeSettings .commit modification
  | .rollback, modification => do
    observeSettings .rollback modification
    observeCosignatoriesIfAny resolve .rollback modification

end Observers

inductive ValidationResult where
  | success
  | failureMaxMultisigDepth
  | failureLoop
  | failureMaxCosignedAccounts
  | failureMaxCosignatories
  | failureMultipleDeletes
  | failureRedundantModification
  | failureAccountInBothSets
  | failureUnknownMultisigAccount
  | failureAlreadyACosignatory
  | failureNotACosignatory
  | failureMinSettingOutOfRange
  | failureMinSettingLargerThanNumCosignatories
  deriving DecidableEq

section Validators
variable {Address UnresolvedAddress : Type} [DecidableEq Address] [DecidableEq UnresolvedAddress]
  (config : MultisigConfiguration) (resolve : UnresolvedAddress → Address) (cache : MultisigCache Address)
  (modification : AccountModification Address UnresolvedAddress)

def cosignatories (address : Address) : Finset Address := (cache address).elim ∅ MultisigEntry.cosignatoryAddresses

def multisigs (address : Address) : Finset Address := (cache address).elim ∅ MultisigEntry.multisigAddresses

/-- `LoopAndLevelChecker::validate`; `none` when the search does not end with the fuel. -/
def validateLoopAndLevel (fuel : Nat) (top bottom : Address) : Option ValidationResult := do
  let (numTopLevels, ancestors) ← findAll (multisigs cache) fuel top
  let (numBottomLevels, descendants) ← findAll (cosignatories cache) fuel bottom
  if numTopLevels + numBottomLevels + 1 > config.maxMultisigDepth then
    return .failureMaxMultisigDepth
  if ∃ address ∈ Insert.insert top ancestors, address ∈ Insert.insert bottom descendants then
    return .failureLoop
  return .success

def validateMaxCosignedAccounts (cosignatory : Address) : ValidationResult :=
  match cache cosignatory with
  | none => .success
  | some entry =>
    if entry.multisigAddresses.card ≥ config.maxCosignedAccountsPerAccount then .failureMaxCosignedAccounts
    else .success

/-- `MultisigCosignatoriesValidator`, which is stateless and compares the unresolved addresses. -/
def validateCosignatories : ValidationResult :=
  if 1 < modification.addressDeletions.length then .failureMultipleDeletes
  else if modification.addressAdditions.length ≠ modification.addressAdditions.toFinset.card then
    .failureRedundantModification
  else if ∃ address ∈ modification.addressAdditions, address ∈ modification.addressDeletions then
    .failureAccountInBothSets
  else .success

/-- `MultisigMaxCosignatoriesValidator`, with 64 bit values. -/
def validateMaxCosignatories : ValidationResult :=
  let numCosignatories : Int := (((cosignatories cache modification.signerAddress).card : Int) +
    (modification.addressAdditions.length - modification.addressDeletions.length : Int)) % 2 ^ 64
  if numCosignatories > config.maxCosignatoriesPerAccount then .failureMaxCosignatories else .success

def validateInvalidCosignatories : ValidationResult :=
  match cache modification.signerAddress with
  | none => if modification.addressDeletions.length = 0 then .success else .failureUnknownMultisigAccount
  | some entry =>
    if ∃ address ∈ modification.addressAdditions, resolve address ∈ entry.cosignatoryAddresses then
      .failureAlreadyACosignatory
    else if ∃ address ∈ modification.addressDeletions, resolve address ∉ entry.cosignatoryAddresses then
      .failureNotACosignatory
    else .success

def validateInvalidSettings : ValidationResult :=
  match cache modification.signerAddress with
  | none =>
    if -1 ≠ modification.minRemovalDelta ∨ -1 ≠ modification.minApprovalDelta then .failureMinSettingOutOfRange
    else .success
  | some entry =>
    let newMinRemoval := (entry.minRemoval : Int) + modification.minRemovalDelta
    let newMinApproval := (entry.minApproval : Int) + modification.minApprovalDelta
    if 1 > newMinRemoval ∨ 1 > newMinApproval then .failureMinSettingOutOfRange
    else if newMinRemoval > entry.cosignatoryAddresses.card ∨ newMinApproval > entry.cosignatoryAddresses.card then
      .failureMinSettingLargerThanNumCosignatories
    else .success

/-- The notifications pass the validators: the ones of the new cosignatories and of the changes of the cosignatories
before anything is observed, the one of the settings after the changes of the cosignatories. -/
structure Passes : Prop where
  newCosignatories : ∀ address ∈ modification.addressAdditions,
    validateMaxCosignedAccounts config cache (resolve address) = .success ∧
    ∃ fuel, validateLoopAndLevel config cache fuel modification.signerAddress (resolve address) = some .success
  cosignatories : modification.hasCosignatories = true → validateCosignatories modification = .success ∧
    validateMaxCosignatories config cache modification = .success ∧
    validateInvalidCosignatories resolve cache modification = .success
  settings : ∀ cache', (observeCosignatoriesIfAny resolve .commit modification).run cache = .ok () cache' →
    validateInvalidSettings cache' modification = .success

end Validators
end Catapult.Multisig
