import Catapult.Lib.Container

/-!
# Set deltas with mutable elements (`BaseSet`, `BaseSetDelta`)

A delta collects the changes to a set in three containers: added elements, removed elements, and copies of original
elements that may have been modified. `find` is the map that a delta stands for.
-/

namespace Catapult.DeltaSet
open Container

inductive InsertResult where
  | unremoved
  | updated
  | redundant
  | inserted
  deriving DecidableEq, Repr

inductive RemoveResult where
  | none
  | unmodifiedAndRemoved
  | uninserted
  | redundant
  | removed
  deriving DecidableEq, Repr

structure BaseSetDelta (Storage Memory Key : Type*) where
  originalElements : Storage
  addedElements : Memory
  removedElements : Memory
  copiedElements : Memory
  generationId : UInt32
  keyGenerationIdMap : Key → Option UInt32

/-- Where an iterator of the mutable `find` points to. -/
inductive FoundIn where
  | copied
  | added

variable {Storage Memory Key Value : Type*} [DecidableEq Key] [Container Storage Key Value] [Container Memory Key Value]

namespace BaseSetDelta

def create (originalElements : Storage) : BaseSetDelta Storage Memory Key where
  originalElements
  addedElements := empty
  removedElements := empty
  copiedElements := empty
  generationId := 1
  keyGenerationIdMap _ := none

/-- `size`, with the arithmetic of `size_t`. -/
def size (delta : BaseSetDelta Storage Memory Key) : UInt64 :=
  UInt64.ofNat (Container.size delta.originalElements) - UInt64.ofNat (Container.size delta.removedElements) +
    UInt64.ofNat (Container.size delta.addedElements)

/-- `find` of a const delta. -/
def find (delta : BaseSetDelta Storage Memory Key) (key : Key) : Option Value :=
  if contains delta.removedElements key then none
  else
    match Container.find delta.copiedElements key with
    | some value => some value
    | none =>
      match Container.find delta.originalElements key with
      | some value => some value
      | none => Container.find delta.addedElements key

def contains (delta : BaseSetDelta Storage Memory Key) (key : Key) : Bool :=
  !Container.contains delta.removedElements key &&
    (Container.contains delta.addedElements key || Container.contains delta.originalElements key)

def markKey (delta : BaseSetDelta Storage Memory Key) (key : Key) : BaseSetDelta Storage Memory Key :=
  { delta with keyGenerationIdMap := Function.update delta.keyGenerationIdMap key (some delta.generationId) }

/-- `find` of a delta that is not const: an original element is copied first, and what is found is marked. -/
def findMutable (delta : BaseSetDelta Storage Memory Key) (key : Key) :
    BaseSetDelta Storage Memory Key × Option (FoundIn × Value) :=
  if Container.contains delta.removedElements key then (delta, none)
  else
    match Container.find delta.copiedElements key with
    | some value => (delta.markKey key, some (.copied, value))
    | none =>
      match Container.find delta.originalElements key with
      | some value =>
        ({ delta with copiedElements := Container.insert delta.copiedElements key value }.markKey key,
          some (.copied, value))
      | none =>
        match Container.find delta.addedElements key with
        | some value => (delta.markKey key, some (.added, value))
        | none => (delta, none)

def modify (delta : BaseSetDelta Storage Memory Key) (key : Key) (f : Value → Value) :
    BaseSetDelta Storage Memory Key :=
  match delta.findMutable key with
  | (delta, some (.copied, value)) => { delta with copiedElements := assign delta.copiedElements key (f value) }
  | (delta, some (.added, value)) => { delta with addedElements := assign delta.addedElements key (f value) }
  | (delta, none) => delta

def replace (elements : Memory) (key : Key) (value : Value) : Memory :=
  Container.insert (erase elements key) key value

def insert (delta : BaseSetDelta Storage Memory Key) (key : Key) (value : Value) :
    BaseSetDelta Storage Memory Key × InsertResult :=
  let delta := delta.markKey key
  if Container.contains delta.removedElements key then
    let delta := { delta with removedElements := erase delta.removedElements key }
    if Container.contains delta.addedElements key then
      ({ delta with addedElements := replace delta.addedElements key value }, .unremoved)
    else ({ delta with copiedElements := replace delta.copiedElements key value }, .unremoved)
  else if Container.contains delta.originalElements key then
    ({ delta with copiedElements := replace delta.copiedElements key value }, .updated)
  else
    ({ delta with addedElements := replace delta.addedElements key value },
      if Container.contains delta.addedElements key then .updated else .inserted)

def remove (delta : BaseSetDelta Storage Memory Key) (key : Key) : BaseSetDelta Storage Memory Key × RemoveResult :=
  if Container.contains delta.removedElements key then (delta, .redundant)
  else
    match Container.find delta.copiedElements key with
    | some value =>
      ({ delta with
          removedElements := Container.insert delta.removedElements key value
          copiedElements := erase delta.copiedElements key }.markKey key, .unmodifiedAndRemoved)
    | none =>
      match Container.find delta.addedElements key with
      -- an added element that is removed stays added, so that its removal is seen by the next generation
      | some value =>
        ({ delta with removedElements := Container.insert delta.removedElements key value }.markKey key, .uninserted)
      | none =>
        match Container.find delta.originalElements key with
        | some value =>
          ({ delta with removedElements := Container.insert delta.removedElements key value }.markKey key, .removed)
        | none => (delta, .none)

def reset (delta : BaseSetDelta Storage Memory Key) : BaseSetDelta Storage Memory Key where
  originalElements := delta.originalElements
  addedElements := empty
  removedElements := empty
  copiedElements := empty
  generationId := 1
  keyGenerationIdMap _ := none

def incrementGenerationId (delta : BaseSetDelta Storage Memory Key) : BaseSetDelta Storage Memory Key :=
  { delta with generationId := delta.generationId + 1 }

def generationIdOf (delta : BaseSetDelta Storage Memory Key) (key : Key) : UInt32 :=
  (delta.keyGenerationIdMap key).getD 0

end BaseSetDelta

structure Slot (Value : Type*) where
  original : Option Value
  added : Option Value
  removed : Option Value
  copied : Option Value

namespace Slot

def value (slot : Slot Value) : Option Value :=
  match slot.removed with
  | some _ => none
  | none => (slot.copied.or slot.original).or slot.added

structure Valid (slot : Slot Value) : Prop where
  added_original : slot.added ≠ none → slot.original = none
  copied_original : slot.copied ≠ none → slot.original ≠ none
  copied_removed : slot.copied ≠ none → slot.removed = none
  removed_sub : slot.removed ≠ none → slot.original ≠ none ∨ slot.added ≠ none

/-- `BaseSetDelta.insert` at the key. -/
def insert (value : Value) : Slot Value → Slot Value
  | ⟨original, some _, some _, copied⟩ => ⟨original, some value, none, copied⟩
  | ⟨original, none, some _, _⟩ => ⟨original, none, none, some value⟩
  | ⟨some original, added, none, _⟩ => ⟨some original, added, none, some value⟩
  | ⟨none, _, none, copied⟩ => ⟨none, some value, none, copied⟩

/-- `BaseSetDelta.modify` at the key. -/
def modify (f : Value → Value) : Slot Value → Slot Value
  | ⟨original, added, none, some copied⟩ => ⟨original, added, none, some (f copied)⟩
  | ⟨some original, added, none, none⟩ => ⟨some original, added, none, some (f original)⟩
  | ⟨none, some added, none, none⟩ => ⟨none, some (f added), none, none⟩
  | slot => slot

/-- `BaseSetDelta.remove` at the key. -/
def remove : Slot Value → Slot Value
  | ⟨original, added, none, some copied⟩ => ⟨original, added, some copied, none⟩
  | ⟨original, some added, none, none⟩ => ⟨original, some added, some added, none⟩
  | ⟨some original, none, none, none⟩ => ⟨some original, none, some original, none⟩
  | slot => slot

theorem Valid.value_ne_none_iff {slot : Slot Value} (h : slot.Valid) :
    slot.value ≠ none ↔ (slot.original ≠ none ∨ slot.added ≠ none) ∧ slot.removed = none := by
  obtain ⟨_ | o, _ | a, _ | r, _ | c⟩ := slot <;> obtain ⟨h1, h2, h3, h4⟩ := h <;> simp_all [Slot.value]

theorem Valid.value_eq_some_iff {slot : Slot Value} (h : slot.Valid) {value : Value} :
    slot.value = some value ↔ slot.removed = none ∧
      ((∃ original, slot.original = some original ∧ slot.copied.getD original = value) ∨ slot.added = some value) := by
  obtain ⟨_ | o, _ | a, _ | r, _ | c⟩ := slot <;> obtain ⟨h1, h2, h3, h4⟩ := h <;> simp_all [Slot.value]

def Changed (slot : Slot Value) : Prop := slot.added ≠ none ∨ slot.copied ≠ none ∨ slot.removed ≠ none

theorem changed_insert (slot : Slot Value) (value : Value) : (slot.insert value).Changed := by
  obtain ⟨_ | o, _ | a, _ | r, _ | c⟩ := slot <;> simp [insert, Changed]

theorem changed_modify {slot : Slot Value} (h : slot.value ≠ none) (f : Value → Value) : (slot.modify f).Changed := by
  obtain ⟨_ | o, _ | a, _ | r, _ | c⟩ := slot <;> simp_all [value, modify, Changed]

theorem changed_remove {slot : Slot Value} (h : slot.value ≠ none) : slot.remove.Changed := by
  obtain ⟨_ | o, _ | a, _ | r, _ | c⟩ := slot <;> simp_all [value, remove, Changed]

theorem Valid.insert {slot : Slot Value} (h : slot.Valid) (value : Value) :
    (slot.insert value).Valid ∧ (slot.insert value).value = some value := by
  obtain ⟨_ | o, _ | a, _ | r, _ | c⟩ := slot <;> obtain ⟨h1, h2, h3, h4⟩ := h <;>
    simp_all [Slot.insert, Slot.value] <;> constructor <;> simp

theorem Valid.modify {slot : Slot Value} (h : slot.Valid) (f : Value → Value) :
    (slot.modify f).Valid ∧ (slot.modify f).value = slot.value.map f := by
  obtain ⟨_ | o, _ | a, _ | r, _ | c⟩ := slot <;> obtain ⟨h1, h2, h3, h4⟩ := h <;>
    simp_all [Slot.modify, Slot.value] <;> constructor <;> simp

theorem Valid.remove {slot : Slot Value} (h : slot.Valid) : slot.remove.Valid ∧ slot.remove.value = none := by
  obtain ⟨_ | o, _ | a, _ | r, _ | c⟩ := slot <;> obtain ⟨h1, h2, h3, h4⟩ := h <;>
    simp_all [Slot.remove, Slot.value] <;> constructor <;> simp

end Slot

namespace BaseSetDelta
variable (delta : BaseSetDelta Storage Memory Key) (key : Key)

def slot : Slot Value where
  original := Container.find delta.originalElements key
  added := Container.find delta.addedElements key
  removed := Container.find delta.removedElements key
  copied := Container.find delta.copiedElements key

theorem find_eq_value : delta.find key = (delta.slot key).value := by
  rw [find, Slot.value, slot, Container.contains]
  cases Container.find delta.removedElements key with
  | some _ => rfl
  | none =>
    cases Container.find delta.copiedElements key with
    | some _ => rfl
    | none => cases Container.find delta.originalElements key <;> simp

structure Invariant : Prop where
  added_original : ∀ key, key ∈ delta.addedElements → key ∉ delta.originalElements
  copied_original : ∀ key, key ∈ delta.copiedElements → key ∈ delta.originalElements
  copied_removed : ∀ key, key ∈ delta.copiedElements → key ∉ delta.removedElements
  removed_sub : ∀ key, key ∈ delta.removedElements → key ∈ delta.originalElements ∨ key ∈ delta.addedElements

variable {delta}

theorem invariant_iff : delta.Invariant ↔ ∀ key, (delta.slot key).Valid := by
  constructor
  · rintro ⟨h1, h2, h3, h4⟩ key
    simp only [mem_iff, not_not] at h1 h2 h3 h4
    exact ⟨h1 key, h2 key, h3 key, h4 key⟩
  · intro h
    constructor <;> intro key <;> simp only [mem_iff, not_not]
    exacts [(h key).added_original, (h key).copied_original, (h key).copied_removed, (h key).removed_sub]

theorem slot_insert (delta : BaseSetDelta Storage Memory Key) (key key' : Key) (value : Value) :
    (delta.insert key value).1.slot key' = if key' = key then (delta.slot key).insert value else delta.slot key' := by
  by_cases hkey : key' = key
  · subst hkey
    cases hr : Container.find delta.removedElements key' <;> cases ha : Container.find delta.addedElements key' <;>
      cases ho : Container.find delta.originalElements key' <;>
      simp [insert, slot, Slot.insert, markKey, replace, Container.contains, hr, ha, ho]
  · cases hr : Container.find delta.removedElements key <;> cases ha : Container.find delta.addedElements key <;>
      cases ho : Container.find delta.originalElements key <;>
      simp [insert, slot, markKey, replace, Container.contains, hr, ha, ho, hkey]

theorem slot_modify (delta : BaseSetDelta Storage Memory Key) (key key' : Key) (f : Value → Value) :
    (delta.modify key f).slot key' = if key' = key then (delta.slot key).modify f else delta.slot key' := by
  by_cases hkey : key' = key
  · subst hkey
    cases hr : Container.find delta.removedElements key' <;> cases hc : Container.find delta.copiedElements key' <;>
      cases ho : Container.find delta.originalElements key' <;> cases ha : Container.find delta.addedElements key' <;>
      simp [modify, findMutable, slot, Slot.modify, markKey, Container.contains, hr, ha, ho, hc]
  · cases hr : Container.find delta.removedElements key <;> cases hc : Container.find delta.copiedElements key <;>
      cases ho : Container.find delta.originalElements key <;> cases ha : Container.find delta.addedElements key <;>
      simp [modify, findMutable, slot, markKey, Container.contains, hr, ha, ho, hc, hkey]

theorem slot_remove (delta : BaseSetDelta Storage Memory Key) (key key' : Key) :
    (delta.remove key).1.slot key' = if key' = key then (delta.slot key).remove else delta.slot key' := by
  by_cases hkey : key' = key
  · subst hkey
    cases hr : Container.find delta.removedElements key' <;> cases hc : Container.find delta.copiedElements key' <;>
      cases ha : Container.find delta.addedElements key' <;> cases ho : Container.find delta.originalElements key' <;>
      simp [remove, slot, Slot.remove, markKey, Container.contains, hr, ha, ho, hc]
  · cases hr : Container.find delta.removedElements key <;> cases hc : Container.find delta.copiedElements key <;>
      cases ha : Container.find delta.addedElements key <;> cases ho : Container.find delta.originalElements key <;>
      simp [remove, slot, markKey, Container.contains, hr, ha, ho, hc, hkey]

end BaseSetDelta

inductive SetOperation (Key Value : Type*) where
  | insert (key : Key) (value : Value)
  | modify (key : Key) (f : Value → Value)
  | remove (key : Key)
  | reset
  | incrementGenerationId

inductive Change (Key Value : Type*) where
  | insert (key : Key) (value : Value)
  | modify (key : Key) (f : Value → Value)
  | remove (key : Key)

namespace Change

def key : Change Key Value → Key
  | insert key _ => key
  | modify key _ => key
  | remove key => key

def operation : Change Key Value → SetOperation Key Value
  | insert key value => .insert key value
  | modify key f => .modify key f
  | remove key => .remove key

end Change

/-- What a call does to the finite map of the delta, over the map of the original elements. -/
def SetOperation.applyToMap (original map : Key → Option Value) : SetOperation Key Value → Key → Option Value
  | .insert key value => Function.update map key (some value)
  | .modify key f => Function.update map key ((map key).map f)
  | .remove key => Function.update map key none
  | .reset => original
  | .incrementGenerationId => map

namespace BaseSetDelta

def apply (delta : BaseSetDelta Storage Memory Key) : SetOperation Key Value → BaseSetDelta Storage Memory Key
  | .insert key value => (delta.insert key value).1
  | .modify key f => delta.modify key f
  | .remove key => (delta.remove key).1
  | .reset => delta.reset
  | .incrementGenerationId => delta.incrementGenerationId

def run (delta : BaseSetDelta Storage Memory Key) (operations : List (SetOperation Key Value)) :
    BaseSetDelta Storage Memory Key :=
  operations.foldl apply delta

theorem originalElements_apply (delta : BaseSetDelta Storage Memory Key) (operation : SetOperation Key Value) :
    (delta.apply operation).originalElements = delta.originalElements := by
  cases operation with
  | insert key value => simp only [apply, insert]; split_ifs <;> rfl
  | modify key f =>
    simp only [apply, modify, findMutable]
    split_ifs
    · rfl
    · cases Container.find delta.copiedElements key <;> cases Container.find delta.originalElements key <;>
        cases Container.find delta.addedElements key <;> rfl
  | remove key =>
    simp only [apply, remove]
    split_ifs
    · rfl
    · cases Container.find delta.copiedElements key <;> cases Container.find delta.originalElements key <;>
        cases Container.find delta.addedElements key <;> rfl
  | reset => rfl
  | incrementGenerationId => rfl

theorem invariant_create (originalElements : Storage) :
    (create originalElements : BaseSetDelta Storage Memory Key).Invariant := by
  rw [invariant_iff]
  intro key
  constructor <;> simp [slot, create]

theorem find_create (originalElements : Storage) (key : Key) :
    (create originalElements : BaseSetDelta Storage Memory Key).find key = Container.find originalElements key := by
  rw [find_eq_value]
  simp [slot, create, Slot.value]

theorem Invariant.at_key {delta delta' : BaseSetDelta Storage Memory Key} (h : delta.Invariant) {key : Key}
    {value : Option Value} {slot : Slot Value}
    (heq : ∀ key', delta'.slot key' = if key' = key then slot else delta.slot key')
    (hslot : slot.Valid ∧ slot.value = value) :
    delta'.Invariant ∧ delta'.find = Function.update delta.find key value := by
  rw [invariant_iff] at h ⊢
  constructor
  · intro key'
    rw [heq]
    split
    · exact hslot.1
    · exact h key'
  · funext key'
    rw [find_eq_value, heq, Function.update_apply, find_eq_value]
    split
    · exact hslot.2
    · rfl

theorem Invariant.apply {delta : BaseSetDelta Storage Memory Key} (h : delta.Invariant)
    (operation : SetOperation Key Value) :
    (delta.apply operation).Invariant ∧
      (delta.apply operation).find = operation.applyToMap (Container.find delta.originalElements) delta.find := by
  cases operation with
  | insert key value => exact h.at_key (delta.slot_insert key · value) ((invariant_iff.1 h key).insert value)
  | modify key f =>
    refine h.at_key (delta.slot_modify key · f) ?_
    rw [find_eq_value]
    exact (invariant_iff.1 h key).modify f
  | remove key => exact h.at_key (delta.slot_remove key) (invariant_iff.1 h key).remove
  | reset => exact ⟨invariant_create _, funext (find_create _)⟩
  | incrementGenerationId => exact ⟨⟨h.1, h.2, h.3, h.4⟩, rfl⟩

theorem Invariant.run {delta : BaseSetDelta Storage Memory Key} (h : delta.Invariant)
    (operations : List (SetOperation Key Value)) :
    (delta.run operations).Invariant ∧ (delta.run operations).originalElements = delta.originalElements ∧
      (delta.run operations).find =
        operations.foldl (SetOperation.applyToMap (Container.find delta.originalElements)) delta.find := by
  induction operations generalizing delta with
  | nil => exact ⟨h, rfl, rfl⟩
  | cons operation operations ih =>
    obtain ⟨happly, hfind⟩ := h.apply operation
    obtain ⟨hinv, horiginal, hrun⟩ := ih happly
    rw [originalElements_apply] at horiginal hrun
    refine ⟨hinv, horiginal, ?_⟩
    rw [List.foldl_cons, ← hfind]
    exact hrun

theorem modify_of_find_eq_none {delta : BaseSetDelta Storage Memory Key} {key : Key}
    (h : delta.find key = none) (f : Value → Value) :
    delta.modify key f = delta := by
  rw [find] at h
  rw [modify, findMutable]
  split_ifs at h ⊢
  · rfl
  · cases hc : Container.find delta.copiedElements key <;> cases ho : Container.find delta.originalElements key <;>
      simp_all

theorem remove_of_find_eq_none {delta : BaseSetDelta Storage Memory Key} {key : Key} (h : delta.find key = none) :
    (delta.remove key).1 = delta := by
  rw [find] at h
  rw [remove]
  split_ifs at h ⊢
  · rfl
  · cases hc : Container.find delta.copiedElements key <;> cases ho : Container.find delta.originalElements key <;>
      simp_all

theorem generation_modify {delta : BaseSetDelta Storage Memory Key} {key : Key} (h : delta.find key ≠ none)
    (f : Value → Value) :
    (delta.modify key f).keyGenerationIdMap = Function.update delta.keyGenerationIdMap key (some delta.generationId) ∧
      (delta.modify key f).generationId = delta.generationId := by
  rw [find] at h
  rw [modify, findMutable]
  split_ifs at h ⊢
  · exact absurd rfl h
  · cases hc : Container.find delta.copiedElements key <;> cases ho : Container.find delta.originalElements key <;>
      cases ha : Container.find delta.addedElements key <;> simp_all [markKey]

theorem generation_remove {delta : BaseSetDelta Storage Memory Key} {key : Key} (h : delta.find key ≠ none) :
    (delta.remove key).1.keyGenerationIdMap = Function.update delta.keyGenerationIdMap key (some delta.generationId) ∧
      (delta.remove key).1.generationId = delta.generationId := by
  rw [find] at h
  rw [remove]
  split_ifs at h ⊢
  · exact absurd rfl h
  · cases hc : Container.find delta.copiedElements key <;> cases ho : Container.find delta.originalElements key <;>
      cases ha : Container.find delta.addedElements key <;> simp_all [markKey]

theorem apply_change (delta : BaseSetDelta Storage Memory Key) (change : Change Key Value) :
    (delta.find change.key = none ∧ delta.apply change.operation = delta) ∨
      (((delta.apply change.operation).keyGenerationIdMap =
          Function.update delta.keyGenerationIdMap change.key (some delta.generationId) ∧
        (delta.apply change.operation).generationId = delta.generationId) ∧
        ((delta.apply change.operation).slot change.key).Changed) := by
  cases change with
  | insert key value =>
    refine .inr ⟨?_, ?_⟩
    · simp only [apply, Change.operation, insert]
      split_ifs <;> exact ⟨rfl, rfl⟩
    · show ((delta.insert key value).1.slot key).Changed
      rw [slot_insert, if_pos rfl]
      exact Slot.changed_insert _ _
  | modify key f =>
    by_cases hfind : delta.find key = none
    · exact .inl ⟨hfind, modify_of_find_eq_none hfind f⟩
    · refine .inr ⟨generation_modify hfind f, ?_⟩
      show ((delta.modify key f).slot key).Changed
      rw [slot_modify, if_pos rfl]
      exact Slot.changed_modify (by rwa [← find_eq_value]) f
  | remove key =>
    by_cases hfind : delta.find key = none
    · exact .inl ⟨hfind, remove_of_find_eq_none hfind⟩
    · refine .inr ⟨generation_remove hfind, ?_⟩
      show ((delta.remove key).1.slot key).Changed
      rw [slot_remove, if_pos rfl]
      exact Slot.changed_remove (by rwa [← find_eq_value])

theorem slot_apply_of_ne (delta : BaseSetDelta Storage Memory Key) (change : Change Key Value) {key : Key}
    (h : key ≠ change.key) :
    (delta.apply change.operation).slot key = delta.slot key := by
  cases change with
  | insert key' value => exact (slot_insert _ _ _ _).trans (if_neg h)
  | modify key' f => exact (slot_modify _ _ _ _).trans (if_neg h)
  | remove key' => exact (slot_remove _ _ _).trans (if_neg h)

def visibleKeys (delta : BaseSetDelta Storage Memory Key) : Finset Key :=
  (keys delta.originalElements ∪ keys delta.addedElements) \ keys delta.removedElements

theorem mem_visibleKeys {delta : BaseSetDelta Storage Memory Key} (h : delta.Invariant) {key : Key} :
    key ∈ delta.visibleKeys ↔ delta.find key ≠ none := by
  rw [visibleKeys, Finset.mem_sdiff, Finset.mem_union, mem_keys, mem_keys, mem_keys, mem_iff, mem_iff, mem_iff, not_not,
    find_eq_value]
  exact (invariant_iff.1 h key).value_ne_none_iff.symm

theorem contains_iff {delta : BaseSetDelta Storage Memory Key} (h : delta.Invariant) {key : Key} :
    delta.contains key = true ↔ delta.find key ≠ none := by
  rw [← mem_visibleKeys h, visibleKeys, Finset.mem_sdiff, Finset.mem_union, mem_keys, mem_keys, mem_keys, contains,
    Bool.and_eq_true, Bool.not_eq_true', ← Bool.not_eq_true, Bool.or_eq_true, Container.contains_iff,
    Container.contains_iff, Container.contains_iff]
  tauto

theorem card_visibleKeys {delta : BaseSetDelta Storage Memory Key} (h : delta.Invariant) :
    delta.visibleKeys.card + Container.size delta.removedElements =
      Container.size delta.originalElements + Container.size delta.addedElements := by
  have hdisj : Disjoint (keys delta.originalElements) (keys delta.addedElements) := by
    rw [Finset.disjoint_left]
    intro key ho ha
    exact h.added_original key (mem_keys.1 ha) (mem_keys.1 ho)
  have hsub : keys delta.removedElements ⊆ keys delta.originalElements ∪ keys delta.addedElements := by
    intro key hr
    rw [Finset.mem_union, mem_keys, mem_keys]
    exact h.removed_sub key (mem_keys.1 hr)
  rw [← card_keys, ← card_keys, ← card_keys, ← Finset.card_union_of_disjoint hdisj, visibleKeys]
  exact Finset.card_sdiff_add_card_eq_card hsub

theorem size_eq {delta : BaseSetDelta Storage Memory Key} (h : delta.Invariant) :
    delta.size = UInt64.ofNat delta.visibleKeys.card := by
  have hcard := congrArg UInt64.ofNat (card_visibleKeys h)
  rw [UInt64.ofNat_add, UInt64.ofNat_add] at hcard
  rw [size]
  grind

end BaseSetDelta

end Catapult.DeltaSet
