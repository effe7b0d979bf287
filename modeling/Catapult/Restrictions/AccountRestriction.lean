import Catapult.Lib.Bytes
import Catapult.Lib.SortedMap

/-!
# Account restrictions

The restrictions of an account are four sets of raw values, each with flags for what is restricted, the direction and
whether the values are allowed or blocked. A transaction adds values to one of them and then deletes values from it;
every value is published, validated and observed on its own. An entry of the cache is inserted with its first value and
removed with its last one.
-/

namespace Catapult.Restrictions

structure Address where
  bytes : BitVec 192
  deriving DecidableEq

instance : LinearOrder Address :=
  LinearOrder.lift' (fun a => a.bytes.toNat) fun ⟨a⟩ ⟨b⟩ h => by simpa using BitVec.eq_of_toNat_eq h

abbrev UnresolvedAddress := BitVec 192
abbrev UnresolvedMosaicId := UInt64
abbrev MosaicId := UInt64
abbrev EntityType := BitVec 16
abbrev RawValue := List UInt8

structure AccountRestrictionFlags where
  bits : BitVec 16
  deriving DecidableEq

namespace AccountRestrictionFlags

instance : LinearOrder AccountRestrictionFlags :=
  LinearOrder.lift' (fun f => f.bits.toNat) fun ⟨a⟩ ⟨b⟩ h => by simpa using BitVec.eq_of_toNat_eq h

def address : AccountRestrictionFlags := ⟨0x0001⟩
def mosaicId : AccountRestrictionFlags := ⟨0x0002⟩
def transactionType : AccountRestrictionFlags := ⟨0x0004⟩
def outgoing : AccountRestrictionFlags := ⟨0x4000⟩
def block : AccountRestrictionFlags := ⟨0x8000⟩

instance : OrOp AccountRestrictionFlags := ⟨fun lhs rhs => ⟨lhs.bits ||| rhs.bits⟩⟩

def hasFlag (testedFlag value : AccountRestrictionFlags) : Bool :=
  testedFlag.bits == testedFlag.bits &&& value.bits

def hasSingleFlag (value : AccountRestrictionFlags) : Bool :=
  value.bits != 0 && value.bits &&& (value.bits - 1) == 0

def stripFlag (lhs flag : AccountRestrictionFlags) : AccountRestrictionFlags := ⟨lhs.bits &&& ~~~flag.bits⟩

end AccountRestrictionFlags

inductive AccountRestrictionOperationType where
  | allow
  | block
  deriving DecidableEq

structure AccountRestrictionDescriptor where
  raw : AccountRestrictionFlags
  deriving DecidableEq

namespace AccountRestrictionDescriptor

def directionalRestrictionFlags (d : AccountRestrictionDescriptor) : AccountRestrictionFlags :=
  d.raw.stripFlag .block

def restrictionFlags (d : AccountRestrictionDescriptor) : AccountRestrictionFlags :=
  d.raw.stripFlag (.outgoing ||| .block)

def operationType (d : AccountRestrictionDescriptor) : AccountRestrictionOperationType :=
  if AccountRestrictionFlags.hasFlag .block d.raw then .block else .allow

end AccountRestrictionDescriptor

inductive AccountRestrictionModificationAction where
  | del
  | add
  deriving DecidableEq

structure AccountRestrictionModification where
  modificationAction : AccountRestrictionModificationAction
  value : RawValue
  deriving DecidableEq

structure AccountRestriction where
  descriptor : AccountRestrictionDescriptor
  valueSize : Nat
  values : Finset RawValue
  deriving DecidableEq

namespace AccountRestriction

def create (restrictionFlags : AccountRestrictionFlags) (restrictionValueSize : Nat) : AccountRestriction :=
  ⟨⟨restrictionFlags ||| .block⟩, restrictionValueSize, ∅⟩

def contains (r : AccountRestriction) (value : RawValue) : Bool := decide (value ∈ r.values)

def isOperationAllowed (r : AccountRestriction) (modification : AccountRestrictionModification)
    (operationType : AccountRestrictionOperationType) : Option Bool :=
  if r.valueSize ≠ modification.value.length then none
  else
    let validOperationType := decide (r.descriptor.operationType = operationType)
    let validContainment :=
      if modification.modificationAction = .add then !r.contains modification.value else r.contains modification.value
    some ((decide (r.values = ∅) || validOperationType) && validContainment)

def canAllow (r : AccountRestriction) (modification : AccountRestrictionModification) : Option Bool :=
  r.isOperationAllowed modification .allow

def canBlock (r : AccountRestriction) (modification : AccountRestrictionModification) : Option Bool :=
  r.isOperationAllowed modification .block

def update (r : AccountRestriction) (modification : AccountRestrictionModification) : Option AccountRestriction :=
  if r.valueSize ≠ modification.value.length then none
  else if modification.modificationAction = .add then some { r with values := insert modification.value r.values }
  else some { r with values := r.values.erase modification.value }

/-- A restriction without values is a blocking one. -/
def allow (r : AccountRestriction) (modification : AccountRestrictionModification) : Option AccountRestriction :=
  (r.update modification).map fun r =>
    let restrictionFlags := r.descriptor.directionalRestrictionFlags
    { r with descriptor := ⟨if r.values = ∅ then restrictionFlags ||| .block else restrictionFlags⟩ }

def block (r : AccountRestriction) (modification : AccountRestrictionModification) : Option AccountRestriction :=
  let blockRestrictionFlags := r.descriptor.directionalRestrictionFlags ||| .block
  { r with descriptor := ⟨blockRestrictionFlags⟩ }.update modification

end AccountRestriction

structure AccountRestrictions where
  address : Address
  restrictions : SortedMap AccountRestrictionFlags AccountRestriction

namespace AccountRestrictions

/-- The flags of the restrictions that an account has, with the sizes of their values. -/
def restrictionSizes : List (AccountRestrictionFlags × Nat) :=
  [(.address, 24), (.mosaicId, 8), (.address ||| .outgoing, 24), (.transactionType ||| .outgoing, 2)]

def addRestriction (restrictions : SortedMap AccountRestrictionFlags AccountRestriction)
    (restrictionFlags : AccountRestrictionFlags) (restrictionValueSize : Nat) :
    SortedMap AccountRestrictionFlags AccountRestriction :=
  restrictions.emplace restrictionFlags (.create restrictionFlags restrictionValueSize)

def create (address : Address) : AccountRestrictions :=
  ⟨address, restrictionSizes.foldl (fun restrictions e => addRestriction restrictions e.1 e.2) ∅⟩

def isEmpty (r : AccountRestrictions) : Bool := r.restrictions.entries.all fun e => decide (e.2.values = ∅)

/-- Unknown flags make it throw. -/
def restriction (r : AccountRestrictions) (restrictionFlags : AccountRestrictionFlags) : Option AccountRestriction :=
  r.restrictions.find? (AccountRestrictionDescriptor.directionalRestrictionFlags ⟨restrictionFlags⟩)

/-- The reference that `restriction` returns is changed. -/
def setRestriction (r : AccountRestrictions) (restrictionFlags : AccountRestrictionFlags)
    (restriction : AccountRestriction) : AccountRestrictions :=
  { r with restrictions :=
      r.restrictions.insert (AccountRestrictionDescriptor.directionalRestrictionFlags ⟨restrictionFlags⟩) restriction }

end AccountRestrictions

abbrev AccountRestrictionCache := SortedMap Address AccountRestrictions

inductive RestrictionKind where
  | address
  | mosaic
  | operation
  deriving DecidableEq

/-- The values in a transaction, some of which are aliases. -/
abbrev RestrictionKind.UnresolvedValue : RestrictionKind → Type
  | address => UnresolvedAddress
  | mosaic => UnresolvedMosaicId
  | operation => EntityType

instance (kind : RestrictionKind) : DecidableEq kind.UnresolvedValue :=
  match kind with
  | .address => inferInstanceAs (DecidableEq (BitVec 192))
  | .mosaic => inferInstanceAs (DecidableEq UInt64)
  | .operation => inferInstanceAs (DecidableEq (BitVec 16))

structure ResolverContext where
  resolveAddress : UnresolvedAddress → Address
  resolveMosaicId : UnresolvedMosaicId → MosaicId

/-- `ToVector` of the resolved value. -/
def ResolverContext.resolve (resolvers : ResolverContext) : (kind : RestrictionKind) → kind.UnresolvedValue → RawValue
  | .address, value => beBytes 24 (resolvers.resolveAddress value).bytes.toNat
  | .mosaic, value => leBytes 8 (resolvers.resolveMosaicId value).toNat
  | .operation, value => leBytes 2 (BitVec.toNat value)

structure AccountRestrictionTransaction (kind : RestrictionKind) where
  restrictionFlags : AccountRestrictionFlags
  restrictionAdditions : List kind.UnresolvedValue
  restrictionDeletions : List kind.UnresolvedValue
  additionsCount_lt : restrictionAdditions.length < 2 ^ 8
  deletionsCount_lt : restrictionDeletions.length < 2 ^ 8

structure ModifyAccountRestrictionValueNotification (kind : RestrictionKind) where
  address : Address
  accountRestrictionDescriptor : AccountRestrictionDescriptor
  restrictionValue : kind.UnresolvedValue
  action : AccountRestrictionModificationAction

inductive Notification (kind : RestrictionKind) where
  | modification (restrictionFlags : AccountRestrictionFlags)
  | modifications (address : Address) (descriptor : AccountRestrictionDescriptor)
    (additions deletions : List kind.UnresolvedValue)
  | value (notification : ModifyAccountRestrictionValueNotification kind)

def raiseValueNotifications {kind : RestrictionKind} (transaction : AccountRestrictionTransaction kind)
    (signerAddress : Address) (values : List kind.UnresolvedValue) (action : AccountRestrictionModificationAction) :
    List (ModifyAccountRestrictionValueNotification kind) :=
  values.map fun value => ⟨signerAddress, ⟨transaction.restrictionFlags⟩, value, action⟩

def valueNotifications {kind : RestrictionKind} (transaction : AccountRestrictionTransaction kind)
    (signerAddress : Address) : List (ModifyAccountRestrictionValueNotification kind) :=
  raiseValueNotifications transaction signerAddress transaction.restrictionAdditions .add ++
    raiseValueNotifications transaction signerAddress transaction.restrictionDeletions .del

def publish {kind : RestrictionKind} (transaction : AccountRestrictionTransaction kind) (signerAddress : Address) :
    List (Notification kind) :=
  [.modification transaction.restrictionFlags,
    .modifications signerAddress ⟨transaction.restrictionFlags⟩ transaction.restrictionAdditions
      transaction.restrictionDeletions] ++
  (valueNotifications transaction signerAddress).map .value

inductive ValidationResult where
  | success
  | failureInvalidRestrictionFlags
  | failureInvalidValue
  | failureRedundantModification
  | failureInvalidModification
  | failureModificationCountExceeded
  | failureValuesCountExceeded
  | failureInvalidModificationAddress
  deriving DecidableEq

namespace Validators
variable {kind : RestrictionKind}

def isValidAccountRestrictionFlags (restrictionFlags : AccountRestrictionFlags) : Bool :=
  let descriptor : AccountRestrictionDescriptor := ⟨restrictionFlags⟩
  if descriptor.restrictionFlags = .address then true
  else if descriptor.restrictionFlags = .mosaicId then descriptor.directionalRestrictionFlags.hasSingleFlag
  else if descriptor.restrictionFlags = .transactionType then
    AccountRestrictionFlags.hasFlag .outgoing descriptor.directionalRestrictionFlags
  else false

def validateAccountRestrictionFlags (restrictionFlags : AccountRestrictionFlags) : ValidationResult :=
  if isValidAccountRestrictionFlags restrictionFlags then .success else .failureInvalidRestrictionFlags

/-- The additions of an operation restriction must be types of transactions. -/
def validateModificationValues (additions : List kind.UnresolvedValue) : ValidationResult :=
  match kind, additions with
  | .operation, additions =>
    if additions.all fun (entityType : BitVec 16) => 0x4000 == entityType &&& 0xC000 then .success
    else .failureInvalidValue
  | _, _ => .success

def validateRedundantModification (cache : AccountRestrictionCache) (address : Address)
    (additions deletions : List kind.UnresolvedValue) : ValidationResult :=
  let hasRedundantModification := (additions ++ deletions).toFinset.card ≠ additions.length + deletions.length
  let hasDeleteModification := 0 ≠ deletions.length
  if hasRedundantModification then .failureRedundantModification
  else if hasDeleteModification ∧ cache.find? address = none then .failureInvalidModification
  else .success

/-- The number of values is computed in 64 bits, so that more deletions than values are too many values. -/
def validateMaxValues (maxAccountRestrictionValues : UInt16) (cache : AccountRestrictionCache) (address : Address)
    (descriptor : AccountRestrictionDescriptor) (additions deletions : List kind.UnresolvedValue) :
    Option ValidationResult :=
  if maxAccountRestrictionValues.toNat < additions.length + deletions.length then
    some .failureModificationCountExceeded
  else
    match cache.find? address with
    | none => some .success
    | some restrictions => do
      let restriction ← restrictions.restriction descriptor.directionalRestrictionFlags
      let numValues := UInt64.ofNat restriction.values.card + UInt64.ofNat additions.length -
        UInt64.ofNat deletions.length
      some (if maxAccountRestrictionValues.toNat < numValues.toNat then .failureValuesCountExceeded else .success)

/-- Every modification is fine for an account without restrictions. -/
def validateValueModification (resolvers : ResolverContext) (cache : AccountRestrictionCache)
    (notification : ModifyAccountRestrictionValueNotification kind) : Option ValidationResult :=
  match cache.find? notification.address with
  | none => some .success
  | some restrictions => do
    let restriction ←
      restrictions.restriction notification.accountRestrictionDescriptor.directionalRestrictionFlags
    let operationType := notification.accountRestrictionDescriptor.operationType
    let modification : AccountRestrictionModification :=
      ⟨notification.action, resolvers.resolve kind notification.restrictionValue⟩
    let canModify ← (if operationType = .allow then restriction.canAllow modification
      else restriction.canBlock modification)
    some (if canModify then .success else .failureInvalidModification)

def validateNoSelfModification (resolvers : ResolverContext)
    (notification : ModifyAccountRestrictionValueNotification kind) : ValidationResult :=
  match kind, notification with
  | .address, notification =>
    if notification.address ≠ resolvers.resolveAddress notification.restrictionValue then .success
    else .failureInvalidModificationAddress
  | _, _ => .success

/-- The type of the transactions that restrict operations. -/
def relevantEntityType : EntityType := 0x4350

/-- An account must be able to change its operation restrictions again. -/
def validateNoSelfBlocking (cache : AccountRestrictionCache)
    (notification : ModifyAccountRestrictionValueNotification kind) : Option ValidationResult :=
  match kind, notification with
  | .operation, notification =>
    let isRelevantEntityType := decide (relevantEntityType = notification.restrictionValue)
    let isAllow := decide (notification.accountRestrictionDescriptor.operationType = .allow)
    if notification.action = .del then
      some (if isAllow && isRelevantEntityType then .failureInvalidModification else .success)
    else do
      let numRestrictionValues ← match cache.find? notification.address with
        | none => some 0
        | some restrictions =>
          (restrictions.restriction (.transactionType ||| .outgoing)).map fun restriction => restriction.values.card
      let isAllowAndForbidden := isAllow && !isRelevantEntityType && numRestrictionValues == 0
      let isBlockAndForbidden := !isAllow && isRelevantEntityType
      some (if isAllowAndForbidden || isBlockAndForbidden then .failureInvalidModification else .success)
  | _, _ => some .success

end Validators

open Validators in
def accepts {kind : RestrictionKind} (maxAccountRestrictionValues : UInt16) (resolvers : ResolverContext)
    (cache : AccountRestrictionCache) : Notification kind → Bool
  | .modification restrictionFlags => validateAccountRestrictionFlags restrictionFlags = .success
  | .modifications address descriptor additions deletions =>
    validateModificationValues additions = .success &&
    validateRedundantModification cache address additions deletions = .success &&
    validateMaxValues maxAccountRestrictionValues cache address descriptor additions deletions = some .success
  | .value notification =>
    validateValueModification resolvers cache notification = some .success &&
    validateNoSelfModification resolvers notification = .success &&
    validateNoSelfBlocking cache notification = some .success

inductive NotifyMode where
  | commit
  | rollback
  deriving DecidableEq

def invertModificationAction : AccountRestrictionModificationAction → AccountRestrictionModificationAction
  | .add => .del
  | .del => .add

/-- The cache after an observer, or nothing when it throws. -/
def observeNotification {kind : RestrictionKind} (resolvers : ResolverContext) (mode : NotifyMode)
    (cache : AccountRestrictionCache) (notification : ModifyAccountRestrictionValueNotification kind) :
    Option AccountRestrictionCache := do
  let address := notification.address
  let restrictions := (cache.find? address).getD (.create address)
  let flags := notification.accountRestrictionDescriptor.directionalRestrictionFlags
  let restriction ← restrictions.restriction flags
  let modificationAction := if mode = .commit then notification.action else invertModificationAction notification.action
  let rawModification : AccountRestrictionModification :=
    ⟨modificationAction, resolvers.resolve kind notification.restrictionValue⟩
  let restriction ← (if notification.accountRestrictionDescriptor.operationType = .allow
    then restriction.allow rawModification else restriction.block rawModification)
  let restrictions := restrictions.setRestriction flags restriction
  some (if restrictions.isEmpty then cache.erase address else cache.insert address restrictions)

def process {kind : RestrictionKind} (maxAccountRestrictionValues : UInt16) (resolvers : ResolverContext)
    (cache : AccountRestrictionCache) (notification : Notification kind) : Option AccountRestrictionCache :=
  if accepts maxAccountRestrictionValues resolvers cache notification then
    match notification with
    | .value notification => observeNotification resolvers .commit cache notification
    | _ => some cache
  else none

def commitTransaction {kind : RestrictionKind} (maxAccountRestrictionValues : UInt16) (resolvers : ResolverContext)
    (transaction : AccountRestrictionTransaction kind) (signerAddress : Address) (cache : AccountRestrictionCache) :
    Option AccountRestrictionCache :=
  (publish transaction signerAddress).foldlM (process maxAccountRestrictionValues resolvers) cache

def rollbackTransaction {kind : RestrictionKind} (resolvers : ResolverContext)
    (transaction : AccountRestrictionTransaction kind) (signerAddress : Address) (cache : AccountRestrictionCache) :
    Option AccountRestrictionCache :=
  (valueNotifications transaction signerAddress).reverse.foldlM (observeNotification resolvers .rollback) cache

end Catapult.Restrictions
