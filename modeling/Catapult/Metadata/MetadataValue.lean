import Mathlib.Algebra.Group.Int.Defs
import Mathlib.Algebra.Group.Nat.Defs
import Mathlib.Data.List.TakeDrop

/-!
# Updates of metadata values

A transaction has the exclusive or of an old and a new value, and the difference of their sizes. The shorter one of
the values is padded with zeros. An entry is there as long as its value has bytes.

The unique key of an entry is the hash of its key, `uniqueKey`. The mode of the observer tells an update from the one
that undoes it.
-/

namespace Catapult.Metadata

inductive MetadataType where
  | account
  | mosaic
  | namespaceTarget
  deriving DecidableEq

structure PartialMetadataKey (Address TargetAddress : Type) where
  sourceAddress : Address
  targetAddress : TargetAddress
  scopedMetadataKey : UInt64
  deriving DecidableEq

structure MetadataTarget where
  type : MetadataType
  id : UInt64

structure MetadataKey (Address : Type) where
  partialKey : PartialMetadataKey Address Address
  targetId : UInt64
  metadataType : MetadataType
  deriving DecidableEq

/-- `ResolverContext`. -/
structure Resolvers (Address UnresolvedAddress : Type) where
  resolveAddress : UnresolvedAddress → Address
  resolveMosaicId : UInt64 → UInt64

structure MetadataEntry (Address : Type) where
  key : MetadataKey Address
  value : List UInt8

structure MetadataValueNotification (Address UnresolvedAddress : Type) where
  partialMetadataKey : PartialMetadataKey Address UnresolvedAddress
  metadataTarget : MetadataTarget
  valueSizeDelta : Int16
  value : List UInt8
  valueSize_lt : value.length < 2 ^ 16

inductive NotifyMode where
  | commit
  | rollback
  deriving DecidableEq

inductive ValidationResult where
  | success
  | valueTooSmall
  | valueSizeDeltaTooLarge
  | valueTooLarge
  | valueSizeDeltaMismatch
  | valueChangeIrreversible
  deriving DecidableEq

abbrev Entries (Hash Address : Type) := Hash → Option (MetadataEntry Address)

/-- The entries of a metadata cache are found by the hashes of their keys, and none has an empty value. -/
structure MetadataCache {Hash Address : Type} (uniqueKey : MetadataKey Address → Hash) where
  entries : Entries Hash Address
  uniqueKey_eq : ∀ hash entry, entries hash = some entry → uniqueKey entry.key = hash
  value_ne_nil : ∀ hash entry, entries hash = some entry → entry.value ≠ []

variable {Hash Address UnresolvedAddress : Type}

/-- `resize`. -/
def resize (value : List UInt8) (size : Nat) : List UInt8 := value.takeD size 0

def update (value buffer : List UInt8) : List UInt8 :=
  List.zipWith (fun old new => old ^^^ new) (resize value buffer.length) buffer

/-- The last `count` bytes are the same. -/
def canTrim (value buffer : List UInt8) (count : Nat) : Bool :=
  if value.length ≠ buffer.length ∨ value.length < count then false
  else (List.range' (buffer.length - count) count).all fun i => value[i]? = buffer[i]?

def resolveMetadataKey (resolvers : Resolvers Address UnresolvedAddress)
    (partialKey : PartialMetadataKey Address UnresolvedAddress) (target : MetadataTarget) : MetadataKey Address :=
  let resolvedKey := ⟨partialKey.sourceAddress, resolvers.resolveAddress partialKey.targetAddress,
    partialKey.scopedMetadataKey⟩
  match target.type with
  | .account => ⟨resolvedKey, 0, .account⟩
  | .mosaic => ⟨resolvedKey, resolvers.resolveMosaicId target.id, .mosaic⟩
  | .namespaceTarget => ⟨resolvedKey, target.id, .namespaceTarget⟩

namespace MetadataValueNotification

def metadataKey (resolvers : Resolvers Address UnresolvedAddress)
    (notification : MetadataValueNotification Address UnresolvedAddress) : MetadataKey Address :=
  resolveMetadataKey resolvers notification.partialMetadataKey notification.metadataTarget

end MetadataValueNotification

section Validation
variable (uniqueKey : MetadataKey Address → Hash) (resolvers : Resolvers Address UnresolvedAddress)
  (notification : MetadataValueNotification Address UnresolvedAddress)

def validateSizes (maxValueSize : UInt16) : ValidationResult :=
  if notification.value.length = 0 then .valueTooSmall
  else if notification.value.length < notification.valueSizeDelta.toInt.natAbs then .valueSizeDeltaTooLarge
  else if maxValueSize.toNat < notification.value.length then .valueTooLarge
  else .success

/-- The size that the value in the cache should have, as 16 bits. -/
def expectedCacheValueSize : Int :=
  if 0 < notification.valueSizeDelta.toInt then
    (notification.value.length - notification.valueSizeDelta.toInt) % 2 ^ 16
  else notification.value.length

def validateValue (entries : Entries Hash Address) : ValidationResult :=
  let delta := notification.valueSizeDelta.toInt
  match entries (uniqueKey (notification.metadataKey resolvers)) with
  | none => if delta = notification.value.length then .success else .valueSizeDeltaMismatch
  | some metadataEntry =>
    if expectedCacheValueSize notification ≠ metadataEntry.value.length then .valueSizeDeltaMismatch
    else if 0 ≤ delta then .success
    else if canTrim metadataEntry.value notification.value ((-delta) % 2 ^ 16).toNat then .success
    else .valueChangeIrreversible

section Observer
variable [DecidableEq Hash]

def updateCache (metadataKey : MetadataKey Address) (valueBuffer : List UInt8) (entries : Entries Hash Address) :
    Entries Hash Address :=
  Function.update entries (uniqueKey metadataKey) <|
    match entries (uniqueKey metadataKey) with
    | none => some ⟨metadataKey, update [] valueBuffer⟩
    | some metadataEntry =>
      if valueBuffer.length = 0 then none
      else some { metadataEntry with value := update metadataEntry.value valueBuffer }

/-- The size of the buffer, which starts at the beginning of the value; a negative one is cast. -/
def effectiveSize (mode : NotifyMode) : Nat :=
  let delta := notification.valueSizeDelta.toInt
  let valueSize : Int := notification.value.length
  let valueSize :=
    match mode with
    | .commit => if delta < 0 then valueSize + delta else valueSize
    | .rollback => if 0 < delta then valueSize - delta else valueSize
  (valueSize % 2 ^ 64).toNat

def observeMetadataValue (mode : NotifyMode) (entries : Entries Hash Address) : Entries Hash Address :=
  updateCache uniqueKey (notification.metadataKey resolvers)
    (notification.value.take (effectiveSize notification mode)) entries

end Observer
end Validation

section Update
variable {value buffer transaction : List UInt8} {size : Nat}

theorem getElem?_resize (value : List UInt8) (size i : Nat) :
    (resize value size)[i]? = if i < size then some (value[i]?.getD 0) else none := by
  rw [resize]
  induction size generalizing value i with
  | zero => simp
  | succ size ih =>
    cases i with
    | zero => cases value <;> simp
    | succ i => cases value <;> simp [ih, List.getElem?_replicate]

@[simp] theorem length_update : (update value buffer).length = buffer.length := by
  rw [update, List.length_zipWith, resize, List.takeD_length, Nat.min_self]

theorem getElem?_update (value buffer : List UInt8) (i : Nat) :
    (update value buffer)[i]? = buffer[i]?.map fun new => value[i]?.getD 0 ^^^ new := by
  rw [update, List.getElem?_zipWith, getElem?_resize]
  by_cases hi : i < buffer.length
  · simp [hi]
  · simp [hi]

theorem update_update (hle : value.length ≤ transaction.length)
    (htrim : ∀ i, size ≤ i → i < value.length → value[i]? = transaction[i]?) :
    update (update value (transaction.take size)) (transaction.take value.length) = value := by
  apply List.ext_getElem?
  intro i
  rw [getElem?_update, getElem?_update, List.getElem?_take, List.getElem?_take]
  by_cases hi : i < value.length
  · have hi' : i < transaction.length := Nat.lt_of_lt_of_le hi hle
    by_cases hsize : i < size
    · simp [hi, hi', hsize, UInt8.xor_assoc]
    · have heq := htrim i (Nat.not_lt.1 hsize) hi
      rw [← heq]
      simp [hi, hsize]
  · simp [hi]

end Update

section Accepted
variable {uniqueKey : MetadataKey Address → Hash} {resolvers : Resolvers Address UnresolvedAddress}
  {notification : MetadataValueNotification Address UnresolvedAddress} {maxValueSize : UInt16}
  {entries : Entries Hash Address}

/-- The value of an entry; there is none of size zero. -/
def oldValue (entries : Entries Hash Address) (hash : Hash) : List UInt8 :=
  (entries hash).elim [] MetadataEntry.value

structure Accepted (uniqueKey : MetadataKey Address → Hash) (resolvers : Resolvers Address UnresolvedAddress)
    (notification : MetadataValueNotification Address UnresolvedAddress) (entries : Entries Hash Address) : Prop where
  value_ne_nil : notification.value ≠ []
  natAbs_le : notification.valueSizeDelta.toInt.natAbs ≤ notification.value.length
  size_eq : ((oldValue entries (uniqueKey (notification.metadataKey resolvers))).length : Int) =
    if 0 < notification.valueSizeDelta.toInt then notification.value.length - notification.valueSizeDelta.toInt
    else notification.value.length
  trimmed : ∀ i : Nat, notification.value.length + notification.valueSizeDelta.toInt ≤ i →
    i < (oldValue entries (uniqueKey (notification.metadataKey resolvers))).length →
      (oldValue entries (uniqueKey (notification.metadataKey resolvers)))[i]? = notification.value[i]?

theorem of_canTrim {value buffer : List UInt8} {count i : Nat} (h : canTrim value buffer count = true)
    (hfirst : buffer.length - count ≤ i) (hi : i < value.length) : value[i]? = buffer[i]? := by
  rw [canTrim] at h
  split at h
  · cases h
  · case isFalse hsizes =>
    rw [List.all_eq_true] at h
    have hrange : i ∈ List.range' (buffer.length - count) count := by
      rw [List.mem_range'_1]
      omega
    simpa using h i hrange

theorem accepted_of_validate (hsizes : validateSizes notification maxValueSize = .success)
    (hvalue : validateValue uniqueKey resolvers notification entries = .success) :
    Accepted uniqueKey resolvers notification entries := by
  have hlength := notification.valueSize_lt
  obtain ⟨hne, hle⟩ : notification.value ≠ [] ∧
      notification.valueSizeDelta.toInt.natAbs ≤ notification.value.length := by
    rw [validateSizes] at hsizes
    split at hsizes
    · cases hsizes
    · case isFalse hzero =>
      split at hsizes
      · cases hsizes
      · case isFalse habs => exact ⟨fun hnil => hzero (by rw [hnil]; rfl), Nat.not_lt.1 habs⟩
  have hpos := List.length_pos_iff.2 hne
  rw [validateValue] at hvalue
  cases hentry : entries (uniqueKey (notification.metadataKey resolvers)) with
  | none =>
    simp only [hentry] at hvalue
    split at hvalue
    · case isTrue hdelta =>
      refine ⟨hne, hle, ?_, fun i hfirst hi => ?_⟩
      · rw [oldValue, hentry]
        rw [if_pos (by omega), hdelta]
        simp
      · rw [oldValue, hentry] at hi
        cases hi
    · cases hvalue
  | some metadataEntry =>
    have hold : oldValue entries (uniqueKey (notification.metadataKey resolvers)) = metadataEntry.value := by
      rw [oldValue, hentry]
      rfl
    simp only [hentry] at hvalue
    split at hvalue
    · cases hvalue
    · case isFalse hexpected =>
      rw [Decidable.not_not, expectedCacheValueSize] at hexpected
      have hsize : (metadataEntry.value.length : Int) =
          if 0 < notification.valueSizeDelta.toInt then notification.value.length - notification.valueSizeDelta.toInt
          else notification.value.length := by
        rw [← hexpected]
        split
        · omega
        · rfl
      refine ⟨hne, hle, hold ▸ hsize, fun i hfirst hi => ?_⟩
      rw [hold] at hi ⊢
      split at hvalue
      · split at hsize <;> omega
      · split at hvalue
        · case isTrue htrim => exact of_canTrim htrim (by omega) hi
        · cases hvalue

namespace Accepted
variable (h : Accepted uniqueKey resolvers notification entries)
include h

theorem effectiveSize_rollback :
    effectiveSize notification .rollback =
      (oldValue entries (uniqueKey (notification.metadataKey resolvers))).length := by
  have hlength := notification.valueSize_lt
  have hle := h.natAbs_le
  have hsize := h.size_eq
  rw [effectiveSize]
  split at hsize
  · case isTrue hpos => rw [if_pos hpos]; omega
  · case isFalse hpos => rw [if_neg hpos]; omega

theorem effectiveSize_commit : (effectiveSize notification .commit : Int) =
    (oldValue entries (uniqueKey (notification.metadataKey resolvers))).length + notification.valueSizeDelta.toInt := by
  have hlength := notification.valueSize_lt
  have hle := h.natAbs_le
  have hsize := h.size_eq
  rw [effectiveSize]
  split at hsize <;> split <;> omega

theorem oldValue_length_le :
    (oldValue entries (uniqueKey (notification.metadataKey resolvers))).length ≤ notification.value.length := by
  have hsize := h.size_eq
  split at hsize <;> omega

theorem effectiveSize_commit_le : effectiveSize notification .commit ≤ notification.value.length := by
  have hcommit := h.effectiveSize_commit
  have hsize := h.size_eq
  have hle := h.natAbs_le
  split at hsize <;> omega

theorem update_update :
    update (update (oldValue entries (uniqueKey (notification.metadataKey resolvers)))
        (notification.value.take (effectiveSize notification .commit)))
      (notification.value.take (effectiveSize notification .rollback)) =
        oldValue entries (uniqueKey (notification.metadataKey resolvers)) := by
  rw [h.effectiveSize_rollback]
  refine Metadata.update_update h.oldValue_length_le fun i hfirst hi => h.trimmed i ?_ hi
  have hcommit := h.effectiveSize_commit
  have hsize := h.size_eq
  split at hsize <;> omega

end Accepted

section Cache
variable [DecidableEq Hash] {metadataKey : MetadataKey Address} {buffer : List UInt8}

def entryOf (metadataKey : MetadataKey Address) (value : List UInt8) : Option (MetadataEntry Address) :=
  if value = [] then none else some ⟨metadataKey, value⟩

theorem updateCache_eq
    (hkey : ∀ entry, entries (uniqueKey metadataKey) = some entry → entry.key = metadataKey)
    (hbuffer : entries (uniqueKey metadataKey) = none → buffer ≠ []) :
    updateCache uniqueKey metadataKey buffer entries = Function.update entries (uniqueKey metadataKey)
      (entryOf metadataKey (update (oldValue entries (uniqueKey metadataKey)) buffer)) := by
  have hnil : ∀ value, update value buffer = [] ↔ buffer = [] := by
    intro value
    rw [← List.length_eq_zero_iff, length_update, List.length_eq_zero_iff]
  rw [updateCache, entryOf, oldValue]
  simp only [hnil]
  cases hentry : entries (uniqueKey metadataKey) with
  | none => rw [if_neg (hbuffer hentry)]; rfl
  | some entry =>
    obtain rfl := hkey entry hentry
    simp only [List.length_eq_zero_iff]
    rfl

end Cache

end Accepted

section Reversible
variable {uniqueKey : MetadataKey Address → Hash} {resolvers : Resolvers Address UnresolvedAddress}
  {notification : MetadataValueNotification Address UnresolvedAddress} {maxValueSize : UInt16}
  {metadataKey : MetadataKey Address} {value : List UInt8}

/-- The exclusive or of the padded or truncated old value and the bytes of the transaction. -/
def newValue (notification : MetadataValueNotification Address UnresolvedAddress) (old : List UInt8) : List UInt8 :=
  let newSize := (old.length + notification.valueSizeDelta.toInt).toNat
  List.zipWith (fun old new => old ^^^ new) (resize old newSize) (notification.value.take newSize)

theorem entryOf_eq_some {entry : MetadataEntry Address} (h : entryOf metadataKey value = some entry) :
    entry.key = metadataKey ∧ entry.value ≠ [] := by
  rw [entryOf] at h
  split at h
  · cases h
  · case isFalse hne =>
    cases h
    exact ⟨rfl, hne⟩

theorem oldValue_update [DecidableEq Hash] {entries : Entries Hash Address} {hash : Hash} :
    oldValue (Function.update entries hash (entryOf metadataKey value)) hash = value := by
  rw [oldValue, Function.update_self, entryOf]
  split
  · case isTrue hnil => exact hnil.symm
  · rfl

def MetadataCache.set [DecidableEq Hash] (cache : MetadataCache uniqueKey) (metadataKey : MetadataKey Address)
    (value : List UInt8) : MetadataCache uniqueKey where
  entries := Function.update cache.entries (uniqueKey metadataKey) (entryOf metadataKey value)
  uniqueKey_eq hash entry hentry := by
    by_cases hhash : hash = uniqueKey metadataKey
    · rw [hhash, Function.update_self] at hentry
      rw [(entryOf_eq_some hentry).1, hhash]
    · rw [Function.update_of_ne hhash] at hentry
      exact cache.uniqueKey_eq hash entry hentry
  value_ne_nil hash entry hentry := by
    by_cases hhash : hash = uniqueKey metadataKey
    · rw [hhash, Function.update_self] at hentry
      exact (entryOf_eq_some hentry).2
    · rw [Function.update_of_ne hhash] at hentry
      exact cache.value_ne_nil hash entry hentry

theorem Accepted.update_eq {entries : Entries Hash Address} (h : Accepted uniqueKey resolvers notification entries) :
    update (oldValue entries (uniqueKey (notification.metadataKey resolvers)))
        (notification.value.take (effectiveSize notification .commit)) =
      newValue notification (oldValue entries (uniqueKey (notification.metadataKey resolvers))) := by
  rw [update, newValue, List.length_take, Nat.min_eq_left h.effectiveSize_commit_le, ← h.effectiveSize_commit,
    Int.toNat_natCast]

theorem Accepted.length_newValue {entries : Entries Hash Address}
    (h : Accepted uniqueKey resolvers notification entries) :
    (newValue notification (oldValue entries (uniqueKey (notification.metadataKey resolvers)))).length =
      effectiveSize notification .commit := by
  rw [← h.update_eq, length_update, List.length_take, Nat.min_eq_left h.effectiveSize_commit_le]

theorem Accepted.effectiveSize_commit_pos {entries : Entries Hash Address}
    (h : Accepted uniqueKey resolvers notification entries)
    (hnil : oldValue entries (uniqueKey (notification.metadataKey resolvers)) = []) :
    0 < effectiveSize notification .commit := by
  have hpos := List.length_pos_iff.2 h.value_ne_nil
  have hcommit := h.effectiveSize_commit
  have hsize := h.size_eq
  rw [hnil] at hcommit hsize
  split at hsize <;> simp_all <;> omega

theorem entryOf_oldValue (cache : MetadataCache uniqueKey)
    (hkey : ∀ entry, cache.entries (uniqueKey metadataKey) = some entry → entry.key = metadataKey) :
    entryOf metadataKey (oldValue cache.entries (uniqueKey metadataKey)) = cache.entries (uniqueKey metadataKey) := by
  rw [oldValue]
  cases hentry : cache.entries (uniqueKey metadataKey) with
  | none => rfl
  | some entry =>
    obtain rfl := hkey entry hentry
    exact if_neg (cache.value_ne_nil _ entry hentry)

/-- An accepted update is undone by its rollback, unless the entry has the same hash but not the key of the
notification. -/
theorem observeMetadataValue_reversible [DecidableEq Hash] (cache : MetadataCache uniqueKey)
    (hsizes : validateSizes notification maxValueSize = .success)
    (hvalue : validateValue uniqueKey resolvers notification cache.entries = .success)
    (hkey : ∀ entry, cache.entries (uniqueKey (notification.metadataKey resolvers)) = some entry →
      entry.key = notification.metadataKey resolvers) :
    observeMetadataValue uniqueKey resolvers notification .rollback
      (observeMetadataValue uniqueKey resolvers notification .commit cache.entries) = cache.entries ∧
    observeMetadataValue uniqueKey resolvers notification .commit cache.entries =
      Function.update cache.entries (uniqueKey (notification.metadataKey resolvers))
        (entryOf (notification.metadataKey resolvers)
          (newValue notification (oldValue cache.entries (uniqueKey (notification.metadataKey resolvers))))) ∧
    (newValue notification (oldValue cache.entries (uniqueKey (notification.metadataKey resolvers)))).length =
      (oldValue cache.entries (uniqueKey (notification.metadataKey resolvers))).length +
        notification.valueSizeDelta.toInt ∧
    ∃ cache' : MetadataCache uniqueKey,
      cache'.entries = observeMetadataValue uniqueKey resolvers notification .commit cache.entries := by
  have h := accepted_of_validate hsizes hvalue
  have hcommit : observeMetadataValue uniqueKey resolvers notification .commit cache.entries =
      Function.update cache.entries (uniqueKey (notification.metadataKey resolvers))
        (entryOf (notification.metadataKey resolvers)
          (newValue notification (oldValue cache.entries (uniqueKey (notification.metadataKey resolvers))))) := by
    rw [observeMetadataValue, updateCache_eq hkey, h.update_eq]
    intro hnone hnil
    have hpos := h.effectiveSize_commit_pos (by rw [oldValue, hnone]; rfl)
    rw [← List.length_eq_zero_iff, List.length_take, Nat.min_eq_left h.effectiveSize_commit_le] at hnil
    omega
  refine ⟨?_, hcommit, by rw [h.length_newValue, h.effectiveSize_commit], cache.set _ _, hcommit.symm⟩
  rw [hcommit, observeMetadataValue, updateCache_eq]
  · rw [oldValue_update, ← h.update_eq, h.update_update, entryOf_oldValue cache hkey, Function.update_idem,
      Function.update_eq_self]
  · intro entry hentry
    rw [Function.update_self] at hentry
    exact (entryOf_eq_some hentry).1
  · -- what was removed had bytes
    intro hnone hnil
    rw [Function.update_self, entryOf, ite_eq_left_iff] at hnone
    have hzero := not_not.1 fun hne => Option.some_ne_none _ (hnone hne)
    rw [← List.length_eq_zero_iff, h.length_newValue] at hzero
    rw [← List.length_eq_zero_iff, List.length_take, h.effectiveSize_rollback,
      Nat.min_eq_left h.oldValue_length_le, List.length_eq_zero_iff] at hnil
    have hpos := h.effectiveSize_commit_pos hnil
    omega

end Reversible

def sampleKey : MetadataKey Nat := ⟨⟨1, 2, 3⟩, 0, .account⟩

def sampleCache : MetadataCache (id : MetadataKey Nat → MetadataKey Nat) where
  entries key := if key = sampleKey then some ⟨sampleKey, [1, 2, 3]⟩ else none
  uniqueKey_eq key entry hentry := by
    split at hentry
    · case isTrue hkey => cases hentry; exact hkey.symm
    · cases hentry
  value_ne_nil key entry hentry := by
    split at hentry
    · cases hentry; exact List.cons_ne_nil _ _
    · cases hentry

def sampleNotification : MetadataValueNotification Nat Nat :=
  ⟨⟨1, 2, 3⟩, ⟨.account, 0⟩, -2, [6, 2, 3], by decide⟩

theorem observeMetadataValue_sample :
    observeMetadataValue id ⟨id, id⟩ sampleNotification .rollback
      (observeMetadataValue id ⟨id, id⟩ sampleNotification .commit sampleCache.entries) = sampleCache.entries := by
  have hreversible := @observeMetadataValue_reversible _ _ _ id ⟨id, id⟩ sampleNotification 1024 _ sampleCache
  refine (hreversible (by decide) (by decide) fun entry hentry => ?_).1
  cases hentry
  rfl

end Catapult.Metadata
