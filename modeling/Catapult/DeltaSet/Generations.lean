import Catapult.DeltaSet.BaseSetDelta

/-!
# Generations of set deltas (`BaseSetDelta::generationId`)

A change marks its key with the current generation id. There is one short cut: an immutable element of the original
set that is removed and inserted again reverts to the original element, and its mark is cleared.
-/

namespace Catapult.DeltaSet
open Container

/-- `MutableTypeTag` and `ImmutableTypeTag`. -/
inductive MutabilityTag where
  | mutable
  | immutable
  deriving DecidableEq

variable {Storage Memory Key Value : Type*} [DecidableEq Key] [Container Storage Key Value] [Container Memory Key Value]

namespace BaseSetDelta

/-- `find` of immutable elements, which have no copies. -/
def findImmutable (delta : BaseSetDelta Storage Memory Key) (key : Key) : Option Value :=
  if Container.contains delta.removedElements key then none
  else
    match Container.find delta.originalElements key with
    | some value => some value
    | none => Container.find delta.addedElements key

def clearKey (delta : BaseSetDelta Storage Memory Key) (key : Key) : BaseSetDelta Storage Memory Key :=
  { delta with keyGenerationIdMap := Function.update delta.keyGenerationIdMap key none }

def insertImmutable (delta : BaseSetDelta Storage Memory Key) (key : Key) (value : Value) :
    BaseSetDelta Storage Memory Key × InsertResult :=
  if Container.contains delta.removedElements key then
    -- since element is immutable, always preserve the first seen element
    let delta := if Container.contains delta.addedElements key then delta.markKey key else delta.clearKey key
    ({ delta with removedElements := erase delta.removedElements key }, .unremoved)
  else if Container.contains delta.originalElements key || Container.contains delta.addedElements key then
    (delta, .redundant)
  else
    let delta := delta.markKey key
    ({ delta with addedElements := Container.insert delta.addedElements key value }, .inserted)

def removeImmutable (delta : BaseSetDelta Storage Memory Key) (key : Key) :
    BaseSetDelta Storage Memory Key × RemoveResult :=
  if Container.contains delta.removedElements key then (delta, .redundant)
  else
    match Container.find delta.addedElements key with
    | some value =>
      ({ delta with removedElements := Container.insert delta.removedElements key value }.markKey key, .uninserted)
    | none =>
      match Container.find delta.originalElements key with
      | some value =>
        ({ delta with removedElements := Container.insert delta.removedElements key value }.markKey key, .removed)
      | none => (delta, .none)

end BaseSetDelta

namespace Slot

/-- `BaseSetDelta.findImmutable` at the key. -/
def immutableValue (slot : Slot Value) : Option Value :=
  match slot.removed with
  | some _ => none
  | none => slot.original.or slot.added

/-- `BaseSetDelta.insertImmutable` at the key. -/
def insertImmutable (value : Value) : Slot Value → Slot Value
  | ⟨original, added, some _, copied⟩ => ⟨original, added, none, copied⟩
  | ⟨none, none, none, copied⟩ => ⟨none, some value, none, copied⟩
  | slot => slot

/-- `BaseSetDelta.removeImmutable` at the key. -/
def removeImmutable : Slot Value → Slot Value
  | ⟨original, some added, none, copied⟩ => ⟨original, some added, some added, copied⟩
  | ⟨some original, none, none, copied⟩ => ⟨some original, none, some original, copied⟩
  | slot => slot

/-- A removed immutable element is original or added, and none is copied. -/
structure ImmutableValid (slot : Slot Value) : Prop where
  copied : slot.copied = none
  removed_sub : slot.removed ≠ none → slot.original ≠ none ∨ slot.added ≠ none

theorem ImmutableValid.insert {slot : Slot Value} (h : slot.ImmutableValid) (value : Value) :
    (slot.insertImmutable value).ImmutableValid := by
  obtain ⟨_ | o, _ | a, _ | r, _ | c⟩ := slot <;> obtain ⟨h1, h2⟩ := h <;>
    simp_all [Slot.insertImmutable] <;> constructor <;> simp

theorem ImmutableValid.remove {slot : Slot Value} (h : slot.ImmutableValid) : slot.removeImmutable.ImmutableValid := by
  obtain ⟨_ | o, _ | a, _ | r, _ | c⟩ := slot <;> obtain ⟨h1, h2⟩ := h <;>
    simp_all [Slot.removeImmutable] <;> constructor <;> simp

theorem ImmutableValid.insert_eq {slot : Slot Value} (h : slot.ImmutableValid) {value : Value}
    (horiginal : slot.original = none ∨ slot.original = some value)
    (hadded : slot.added = none ∨ slot.added = some value) :
    ((slot.insertImmutable value).original = none ∨ (slot.insertImmutable value).original = some value) ∧
      ((slot.insertImmutable value).added = none ∨ (slot.insertImmutable value).added = some value) ∧
      (slot.insertImmutable value).immutableValue = some value := by
  obtain ⟨_ | o, _ | a, _ | r, _ | c⟩ := slot <;> obtain ⟨h1, h2⟩ := h <;>
    simp_all [Slot.insertImmutable, Slot.immutableValue]

theorem remove_eq (slot : Slot Value) : slot.removeImmutable.original = slot.original ∧
    slot.removeImmutable.added = slot.added ∧ slot.removeImmutable.immutableValue = none := by
  obtain ⟨_ | o, _ | a, _ | r, _ | c⟩ := slot <;> simp [Slot.removeImmutable, Slot.immutableValue]

end Slot

namespace BaseSetDelta

theorem findImmutable_eq_value (delta : BaseSetDelta Storage Memory Key) (key : Key) :
    delta.findImmutable key = (delta.slot key).immutableValue := by
  rw [findImmutable, Slot.immutableValue, slot, Container.contains]
  cases Container.find delta.removedElements key with
  | some _ => rfl
  | none => cases Container.find delta.originalElements key <;> simp

theorem slot_insertImmutable (delta : BaseSetDelta Storage Memory Key) (key key' : Key) (value : Value) :
    (delta.insertImmutable key value).1.slot key' =
      if key' = key then (delta.slot key).insertImmutable value else delta.slot key' := by
  by_cases hkey : key' = key
  · subst hkey
    cases hr : Container.find delta.removedElements key' <;> cases ha : Container.find delta.addedElements key' <;>
      cases ho : Container.find delta.originalElements key' <;>
      simp [insertImmutable, slot, Slot.insertImmutable, markKey, clearKey, Container.contains, hr, ha, ho]
  · cases hr : Container.find delta.removedElements key <;> cases ha : Container.find delta.addedElements key <;>
      cases ho : Container.find delta.originalElements key <;>
      simp [insertImmutable, slot, markKey, clearKey, Container.contains, hr, ha, ho, hkey]

theorem slot_removeImmutable (delta : BaseSetDelta Storage Memory Key) (key key' : Key) :
    (delta.removeImmutable key).1.slot key' =
      if key' = key then (delta.slot key).removeImmutable else delta.slot key' := by
  by_cases hkey : key' = key
  · subst hkey
    cases hr : Container.find delta.removedElements key' <;> cases ha : Container.find delta.addedElements key' <;>
      cases ho : Container.find delta.originalElements key' <;>
      simp [removeImmutable, slot, Slot.removeImmutable, markKey, Container.contains, hr, ha, ho]
  · cases hr : Container.find delta.removedElements key <;> cases ha : Container.find delta.addedElements key <;>
      cases ho : Container.find delta.originalElements key <;>
      simp [removeImmutable, slot, markKey, Container.contains, hr, ha, ho, hkey]

/-- The elements of a delta with immutable elements are those of `value`. -/
structure Holds (value : Key → Value) (delta : BaseSetDelta Storage Memory Key) : Prop where
  valid : ∀ key, (delta.slot key).ImmutableValid
  original : ∀ key, (delta.slot key).original = none ∨ (delta.slot key).original = some (value key)
  added : ∀ key, (delta.slot key).added = none ∨ (delta.slot key).added = some (value key)

theorem Holds.at_key {value : Key → Value} {delta delta' : BaseSetDelta Storage Memory Key} (h : Holds value delta)
    {key : Key} {slot : Slot Value} {seen : Option Value}
    (heq : ∀ key', delta'.slot key' = if key' = key then slot else delta.slot key') (hvalid : slot.ImmutableValid)
    (horiginal : slot.original = none ∨ slot.original = some (value key))
    (hadded : slot.added = none ∨ slot.added = some (value key)) (hseen : slot.immutableValue = seen) :
    Holds value delta' ∧ delta'.findImmutable = Function.update delta.findImmutable key seen := by
  refine ⟨⟨fun key' => ?_, fun key' => ?_, fun key' => ?_⟩, funext fun key' => ?_⟩
  · rw [heq]
    split
    · exact hvalid
    · exact h.valid key'
  · rw [heq]
    split
    · rename_i hkey
      rw [hkey]
      exact horiginal
    · exact h.original key'
  · rw [heq]
    split
    · rename_i hkey
      rw [hkey]
      exact hadded
    · exact h.added key'
  · rw [findImmutable_eq_value, heq, Function.update_apply, findImmutable_eq_value]
    split
    · exact hseen
    · rfl

theorem Holds.insertImmutable {value : Key → Value} {delta : BaseSetDelta Storage Memory Key} (h : Holds value delta)
    (key : Key) : Holds value (delta.insertImmutable key (value key)).1 ∧
      (delta.insertImmutable key (value key)).1.findImmutable =
        Function.update delta.findImmutable key (some (value key)) := by
  obtain ⟨horiginal, hadded, hseen⟩ := (h.valid key).insert_eq (h.original key) (h.added key)
  exact h.at_key (delta.slot_insertImmutable key · (value key)) ((h.valid key).insert _) horiginal hadded hseen

theorem Holds.removeImmutable {value : Key → Value} {delta : BaseSetDelta Storage Memory Key} (h : Holds value delta)
    (key : Key) : Holds value (delta.removeImmutable key).1 ∧
      (delta.removeImmutable key).1.findImmutable = Function.update delta.findImmutable key none := by
  obtain ⟨horiginal, hadded, hseen⟩ := (delta.slot key).remove_eq
  exact h.at_key (delta.slot_removeImmutable key) (h.valid key).remove (horiginal ▸ h.original key)
    (hadded ▸ h.added key) hseen

/-- `delta'` differs from `delta` at one key, which it marks with `mark`. -/
structure Touches (delta delta' : BaseSetDelta Storage Memory Key) (key : Key) (mark : Option UInt32) : Prop where
  generationId : delta'.generationId = delta.generationId
  marks : delta'.keyGenerationIdMap = Function.update delta.keyGenerationIdMap key mark
  slot_of_ne : ∀ key', key' ≠ key → delta'.slot key' = delta.slot key'

/-- An immutable original element that no change of it is left of. -/
structure Reverted (delta : BaseSetDelta Storage Memory Key) (key : Key) : Prop where
  generationIdOf : delta.generationIdOf key = 0
  original : key ∈ delta.originalElements
  added : key ∉ delta.addedElements
  removed : key ∉ delta.removedElements
  copied : key ∉ delta.copiedElements

theorem Reverted.findImmutable {delta : BaseSetDelta Storage Memory Key} {key : Key} (h : delta.Reverted key) :
    delta.findImmutable key = Container.find delta.originalElements key := by
  have hremoved := h.removed
  have hadded := h.added
  rw [mem_iff, not_not] at hremoved hadded
  rw [findImmutable_eq_value, Slot.immutableValue, slot, hremoved, hadded, Option.or_none]

theorem touches_insertImmutable (delta : BaseSetDelta Storage Memory Key) (key : Key) (value : Value)
    (hvalid : (delta.slot key).ImmutableValid) :
    (delta.insertImmutable key value).1 = delta ∨
      Touches delta (delta.insertImmutable key value).1 key (some delta.generationId) ∨
      Touches delta (delta.insertImmutable key value).1 key none ∧
        (delta.insertImmutable key value).1.Reverted key := by
  have hne : ∀ key', key' ≠ key → (delta.insertImmutable key value).1.slot key' = delta.slot key' :=
    fun key' h => (delta.slot_insertImmutable key key' value).trans (if_neg h)
  obtain ⟨hcopied, hsub⟩ := hvalid
  simp only [slot] at hcopied hsub
  cases hr : Container.find delta.removedElements key with
  | some removed =>
    cases ha : Container.find delta.addedElements key with
    | some added =>
      refine .inr (.inl ⟨?_, ?_, hne⟩)
      · simp [insertImmutable, Container.contains, hr, ha, markKey]
      · simp [insertImmutable, Container.contains, hr, ha, markKey]
    | none =>
      have horiginal : Container.find delta.originalElements key ≠ none := by
        have := hsub (by rw [hr]; exact Option.some_ne_none _)
        rw [ha] at this
        exact this.resolve_right fun h => h rfl
      refine .inr (.inr ⟨⟨?_, ?_, hne⟩, ?_⟩)
      · simp [insertImmutable, Container.contains, hr, ha, clearKey]
      · simp [insertImmutable, Container.contains, hr, ha, clearKey]
      · constructor
        · simp [insertImmutable, Container.contains, hr, ha, clearKey, BaseSetDelta.generationIdOf]
        · rw [mem_iff]
          simpa [insertImmutable, Container.contains, hr, ha, clearKey] using horiginal
        · simp [insertImmutable, Container.contains, hr, ha, clearKey, mem_iff]
        · simp [insertImmutable, Container.contains, hr, ha, clearKey, mem_iff]
        · simp [insertImmutable, Container.contains, hr, ha, clearKey, mem_iff, hcopied]
  | none =>
    by_cases hknown :
        (Container.contains delta.originalElements key || Container.contains delta.addedElements key) = true
    · refine .inl ?_
      rw [insertImmutable, if_neg (by simp [Container.contains, hr]), if_pos hknown]
    · refine .inr (.inl ⟨?_, ?_, hne⟩)
      · rw [insertImmutable, if_neg (by simp [Container.contains, hr]), if_neg hknown]
        rfl
      · rw [insertImmutable, if_neg (by simp [Container.contains, hr]), if_neg hknown]
        rfl

theorem touches_removeImmutable (delta : BaseSetDelta Storage Memory Key) (key : Key) :
    (delta.removeImmutable key).1 = delta ∨
      Touches delta (delta.removeImmutable key).1 key (some delta.generationId) := by
  have hne : ∀ key', key' ≠ key → (delta.removeImmutable key).1.slot key' = delta.slot key' :=
    fun key' h => (delta.slot_removeImmutable key key').trans (if_neg h)
  rw [removeImmutable] at hne ⊢
  split_ifs at hne ⊢
  · exact .inl rfl
  · cases ha : Container.find delta.addedElements key with
    | some added => exact .inr ⟨rfl, rfl, by simpa [ha] using hne⟩
    | none =>
      cases ho : Container.find delta.originalElements key with
      | some original => exact .inr ⟨rfl, rfl, by simpa [ha, ho] using hne⟩
      | none => exact .inl rfl

end BaseSetDelta

inductive Call (Key Value : Type*) where
  | change (change : Change Key Value)
  | incrementGenerationId

namespace BaseSetDelta

/-- Searching for an immutable element never modifies it. -/
def changeImmutable (delta : BaseSetDelta Storage Memory Key) : Change Key Value → BaseSetDelta Storage Memory Key
  | .insert key value => (delta.insertImmutable key value).1
  | .modify _ _ => delta
  | .remove key => (delta.removeImmutable key).1

def call (tag : MutabilityTag) (delta : BaseSetDelta Storage Memory Key) :
    Call Key Value → BaseSetDelta Storage Memory Key
  | .change change =>
    match tag with
    | .mutable => delta.apply change.operation
    | .immutable => delta.changeImmutable change
  | .incrementGenerationId => delta.incrementGenerationId

def calls (tag : MutabilityTag) (delta : BaseSetDelta Storage Memory Key) (calls : List (Call Key Value)) :
    BaseSetDelta Storage Memory Key :=
  calls.foldl (call tag) delta

def visible (tag : MutabilityTag) (delta : BaseSetDelta Storage Memory Key) (key : Key) : Option Value :=
  match tag with
  | .mutable => delta.find key
  | .immutable => delta.findImmutable key

theorem visible_congr {tag : MutabilityTag} {delta delta' : BaseSetDelta Storage Memory Key} {key : Key}
    (h : delta'.slot key = delta.slot key) : delta'.visible tag key = delta.visible tag key := by
  cases tag with
  | mutable => rw [visible, visible, find_eq_value, find_eq_value, h]
  | immutable => rw [visible, visible, findImmutable_eq_value, findImmutable_eq_value, h]

theorem touches_call {tag : MutabilityTag} {delta : BaseSetDelta Storage Memory Key} (change : Change Key Value)
    (hvalid : tag = .immutable → ∀ key, (delta.slot key).ImmutableValid) :
    delta.call tag (.change change) = delta ∨
      Touches delta (delta.call tag (.change change)) change.key (some delta.generationId) ∨
      tag = .immutable ∧ Touches delta (delta.call tag (.change change)) change.key none ∧
        (delta.call tag (.change change)).Reverted change.key := by
  cases tag with
  | mutable =>
    rcases apply_change delta change with ⟨-, heq⟩ | ⟨⟨hmarks, hgeneration⟩, -⟩
    · exact .inl heq
    · exact .inr (.inl ⟨hgeneration, hmarks, fun key' h => slot_apply_of_ne delta change h⟩)
  | immutable =>
    cases change with
    | insert key value =>
      rcases touches_insertImmutable delta key value (hvalid rfl key) with h | h | h
      · exact .inl h
      · exact .inr (.inl h)
      · exact .inr (.inr ⟨rfl, h⟩)
    | modify key f => exact .inl rfl
    | remove key =>
      rcases touches_removeImmutable delta key with h | h
      · exact .inl h
      · exact .inr (.inl h)

theorem immutableValid_call {delta : BaseSetDelta Storage Memory Key} (call : Call Key Value)
    (hvalid : ∀ key, (delta.slot key).ImmutableValid) (key : Key) :
    ((delta.call .immutable call).slot key).ImmutableValid := by
  cases call with
  | incrementGenerationId => exact hvalid key
  | change change =>
    cases change with
    | insert key' value =>
      show ((delta.insertImmutable key' value).1.slot key).ImmutableValid
      rw [slot_insertImmutable]
      split
      · exact (hvalid key').insert value
      · exact hvalid key
    | modify key' f => exact hvalid key
    | remove key' =>
      show ((delta.removeImmutable key').1.slot key).ImmutableValid
      rw [slot_removeImmutable]
      split
      · exact (hvalid key').remove
      · exact hvalid key

/-- Where a delta is that had generation id `generation` when it showed `seen`. -/
structure Tracks (tag : MutabilityTag) (generation : UInt32) (seen : Key → Option Value)
    (delta : BaseSetDelta Storage Memory Key) : Prop where
  valid : tag = .immutable → ∀ key, (delta.slot key).ImmutableValid
  generation_le : generation ≤ delta.generationId
  tracked : ∀ key, delta.visible tag key = seen key ∨ generation ≤ delta.generationIdOf key ∨
    tag = .immutable ∧ delta.Reverted key

theorem Reverted.congr {delta delta' : BaseSetDelta Storage Memory Key} {key : Key} (h : delta.Reverted key)
    (hslot : delta'.slot key = delta.slot key) (hmark : delta'.keyGenerationIdMap key = delta.keyGenerationIdMap key) :
    delta'.Reverted key := by
  simp only [slot, Slot.mk.injEq] at hslot
  obtain ⟨horiginal, hadded, hremoved, hcopied⟩ := hslot
  constructor
  · rw [BaseSetDelta.generationIdOf, hmark]
    exact h.generationIdOf
  · rw [mem_iff, horiginal, ← mem_iff]
    exact h.original
  · rw [mem_iff, hadded, ← mem_iff]
    exact h.added
  · rw [mem_iff, hremoved, ← mem_iff]
    exact h.removed
  · rw [mem_iff, hcopied, ← mem_iff]
    exact h.copied

theorem Tracks.change {tag : MutabilityTag} {generation : UInt32} {seen : Key → Option Value}
    {delta : BaseSetDelta Storage Memory Key} (h : Tracks tag generation seen delta) (change : Change Key Value) :
    Tracks tag generation seen (delta.call tag (.change change)) := by
  have hvalid : tag = .immutable → ∀ key, ((delta.call tag (.change change)).slot key).ImmutableValid := by
    rintro rfl
    exact immutableValid_call _ (h.valid rfl)
  have hother : ∀ {mark}, Touches delta (delta.call tag (.change change)) change.key mark → ∀ key, key ≠ change.key →
      (delta.call tag (.change change)).visible tag key = seen key ∨
        generation ≤ (delta.call tag (.change change)).generationIdOf key ∨
        tag = .immutable ∧ (delta.call tag (.change change)).Reverted key := by
    intro mark htouches key hne
    have hmark : (delta.call tag (.change change)).keyGenerationIdMap key = delta.keyGenerationIdMap key := by
      rw [htouches.marks, Function.update_of_ne hne]
    rw [visible_congr (htouches.slot_of_ne key hne), generationIdOf, hmark]
    exact (h.tracked key).imp_right (Or.imp_right fun hr => ⟨hr.1, hr.2.congr (htouches.slot_of_ne key hne) hmark⟩)
  rcases touches_call change h.valid with heq | htouches | ⟨htag, htouches, hreverted⟩
  · rw [heq]
    exact h
  · refine ⟨hvalid, by rw [htouches.generationId]; exact h.generation_le, fun key => ?_⟩
    by_cases hkey : key = change.key
    · subst hkey
      refine .inr (.inl ?_)
      rw [generationIdOf, htouches.marks, Function.update_self]
      exact h.generation_le
    · exact hother htouches key hkey
  · refine ⟨hvalid, by rw [htouches.generationId]; exact h.generation_le, fun key => ?_⟩
    by_cases hkey : key = change.key
    · subst hkey
      exact .inr (.inr ⟨htag, hreverted⟩)
    · exact hother htouches key hkey

def increments : List (Call Key Value) → Nat
  | [] => 0
  | .change _ :: calls => increments calls
  | .incrementGenerationId :: calls => increments calls + 1

theorem Tracks.incrementGenerationId {tag : MutabilityTag} {generation : UInt32} {seen : Key → Option Value}
    {delta : BaseSetDelta Storage Memory Key} (h : Tracks tag generation seen delta)
    (hwrap : delta.generationId.toNat + 1 < 2 ^ 32) :
    Tracks tag generation seen (delta.call tag .incrementGenerationId) := by
  refine ⟨h.valid, ?_, fun key => ?_⟩
  · have hle := h.generation_le
    have hnext : (delta.generationId + 1).toNat = delta.generationId.toNat + 1 := by
      rw [UInt32.toNat_add, UInt32.toNat_one]
      exact Nat.mod_eq_of_lt hwrap
    rw [UInt32.le_iff_toNat_le] at hle ⊢
    exact Nat.le_trans hle (by rw [call, BaseSetDelta.incrementGenerationId, hnext]; exact Nat.le_succ _)
  · refine Or.imp_left (fun heq => (visible_congr rfl).trans heq) ?_
    exact (h.tracked key).imp_right (Or.imp_right fun hr => ⟨hr.1, hr.2.congr rfl rfl⟩)

theorem generationId_change (tag : MutabilityTag) {delta : BaseSetDelta Storage Memory Key} (change : Change Key Value)
    (hvalid : tag = .immutable → ∀ key, (delta.slot key).ImmutableValid) :
    (delta.call tag (.change change)).generationId = delta.generationId := by
  rcases touches_call change hvalid with heq | htouches | ⟨-, htouches, -⟩
  · rw [heq]
  · exact htouches.generationId
  · exact htouches.generationId

theorem Tracks.calls {tag : MutabilityTag} {generation : UInt32} {seen : Key → Option Value}
    {delta : BaseSetDelta Storage Memory Key} (h : Tracks tag generation seen delta) (calls : List (Call Key Value))
    (hwrap : delta.generationId.toNat + increments calls < 2 ^ 32) :
    Tracks tag generation seen (delta.calls tag calls) := by
  induction calls generalizing delta with
  | nil => exact h
  | cons call calls ih =>
    cases call with
    | change change =>
      refine ih (h.change change) ?_
      rw [generationId_change tag change h.valid]
      exact hwrap
    | incrementGenerationId =>
      rw [increments] at hwrap
      have hnext : (delta.generationId + 1).toNat = delta.generationId.toNat + 1 := by
        rw [UInt32.toNat_add, UInt32.toNat_one]
        exact Nat.mod_eq_of_lt (by omega)
      refine ih (h.incrementGenerationId (by omega)) ?_
      show (delta.generationId + 1).toNat + increments calls < 2 ^ 32
      omega

theorem originalElements_call (tag : MutabilityTag) (delta : BaseSetDelta Storage Memory Key) (call : Call Key Value) :
    (delta.call tag call).originalElements = delta.originalElements := by
  cases call with
  | incrementGenerationId => rfl
  | change change =>
    cases tag with
    | mutable => exact originalElements_apply delta change.operation
    | immutable =>
      cases change with
      | insert key value =>
        simp only [BaseSetDelta.call, changeImmutable, insertImmutable]
        split_ifs <;> rfl
      | modify key f => rfl
      | remove key =>
        simp only [BaseSetDelta.call, changeImmutable, removeImmutable]
        split_ifs
        · rfl
        · cases Container.find delta.addedElements key <;> cases Container.find delta.originalElements key <;> rfl

theorem originalElements_calls (tag : MutabilityTag) (delta : BaseSetDelta Storage Memory Key)
    (calls : List (Call Key Value)) : (delta.calls tag calls).originalElements = delta.originalElements := by
  induction calls generalizing delta with
  | nil => rfl
  | cons call calls ih => exact (ih _).trans (originalElements_call tag delta call)

theorem immutableValid_calls {delta : BaseSetDelta Storage Memory Key} (calls : List (Call Key Value))
    (hvalid : ∀ key, (delta.slot key).ImmutableValid) (key : Key) :
    ((delta.calls .immutable calls).slot key).ImmutableValid := by
  induction calls generalizing delta with
  | nil => exact hvalid key
  | cons call calls ih => exact ih (immutableValid_call call hvalid)

theorem immutableValid_create (originalElements : Storage) (key : Key) :
    ((create originalElements : BaseSetDelta Storage Memory Key).slot key).ImmutableValid := by
  constructor <;> simp [slot, create]

/-- Between two moments of a run of calls: a key that looks different at the later one is marked with the generation of
the earlier one or a later generation, or an immutable original element is back and has lost its mark. -/
theorem generation_tracks (tag : MutabilityTag) (originalElements : Storage) (before after : List (Call Key Value))
    (key : Key)
    (hwrap : ((create originalElements : BaseSetDelta Storage Memory Key).calls tag before).generationId.toNat +
      increments after < 2 ^ 32)
    (hne : ((create originalElements : BaseSetDelta Storage Memory Key).calls tag (before ++ after)).visible tag key ≠
      ((create originalElements : BaseSetDelta Storage Memory Key).calls tag before).visible tag key) :
    ((create originalElements : BaseSetDelta Storage Memory Key).calls tag before).generationId ≤
        ((create originalElements : BaseSetDelta Storage Memory Key).calls tag (before ++ after)).generationIdOf key ∨
      tag = .immutable ∧
        ((create originalElements : BaseSetDelta Storage Memory Key).calls tag (before ++ after)).Reverted key ∧
        ((create originalElements : BaseSetDelta Storage Memory Key).calls tag (before ++ after)).visible tag key =
          Container.find originalElements key := by
  have hsplit : (create originalElements : BaseSetDelta Storage Memory Key).calls tag (before ++ after) =
      ((create originalElements : BaseSetDelta Storage Memory Key).calls tag before).calls tag after :=
    List.foldl_append
  have hvalid : tag = .immutable → ∀ key,
      (((create originalElements : BaseSetDelta Storage Memory Key).calls tag before).slot key).ImmutableValid := by
    rintro rfl
    exact immutableValid_calls before (immutableValid_create originalElements)
  have hstart : Tracks tag _ _ ((create originalElements : BaseSetDelta Storage Memory Key).calls tag before) :=
    ⟨hvalid, UInt32.le_refl _, fun key => .inl rfl⟩
  have hlast := hstart.calls after hwrap
  rw [hsplit] at hne ⊢
  rcases hlast.tracked key with heq | hmarked | ⟨rfl, hreverted⟩
  · exact absurd heq hne
  · exact .inl hmarked
  · refine .inr ⟨rfl, hreverted, ?_⟩
    rw [visible, hreverted.findImmutable, originalElements_calls, originalElements_calls]
    rfl

/-- Every change of what is visible since some generation is marked with it or a later one. -/
def EveryChangeMarked (tag : MutabilityTag) (delta : BaseSetDelta Storage Memory Key) : Prop :=
  ∀ (before after : List (Call Key Value)) (key : Key),
    (delta.calls tag (before ++ after)).visible tag key ≠ (delta.calls tag before).visible tag key →
    (delta.calls tag before).generationId ≤ (delta.calls tag (before ++ after)).generationIdOf key

theorem calls_replicate (tag : MutabilityTag) (delta : BaseSetDelta Storage Memory Key) (n : Nat) :
    delta.calls tag (List.replicate n .incrementGenerationId) =
      { delta with generationId := delta.generationId + UInt32.ofNat n } := by
  induction n generalizing delta with
  | zero => simp [calls]
  | succ n ih =>
    rw [List.replicate_succ]
    refine (ih _).trans ?_
    rw [call, BaseSetDelta.incrementGenerationId, UInt32.add_assoc, UInt32.ofNat_add, UInt32.add_comm 1]
    rfl

def oneElement : BaseSetDelta (KeyedList UInt8 Nat) (KeyedList UInt8 Nat) UInt8 :=
  .create (Container.insert empty 7 5)

/-- A removed element that comes back is in no generation. A change after the last generation id is marked with 0. -/
theorem not_everyChangeMarked :
    ¬ EveryChangeMarked .immutable oneElement ∧ ¬ EveryChangeMarked .mutable oneElement := by
  constructor
  · intro hall
    have hle := hall [.change (.remove 7), .incrementGenerationId] [.change (.insert 7 5)] 7 (by decide)
    exact absurd hle (by decide)
  · intro hall
    have hbefore : oneElement.calls .mutable (List.replicate (2 ^ 32 - 2) .incrementGenerationId) =
        ({ oneElement with generationId := 2 ^ 32 - 1 } : BaseSetDelta _ _ _) :=
      calls_replicate .mutable oneElement _
    have hall₉ := hall (List.replicate (2 ^ 32 - 2) .incrementGenerationId)
      [.incrementGenerationId, .change (.insert 9 1)] 9
    rw [calls, List.foldl_append, ← calls, ← calls, hbefore] at hall₉
    exact absurd (hall₉ (by decide)) (by decide)

/-- A removed element that comes back in the same generation looks as before, one that is added is marked. -/
theorem generation_tracks_sample :
    (oneElement.calls .immutable [.incrementGenerationId]).generationId ≤
        (oneElement.calls .immutable ([.incrementGenerationId] ++
          [.change (.remove 7), .change (.insert 9 1), .incrementGenerationId])).generationIdOf 9 ∨
      MutabilityTag.immutable = .immutable ∧
        (oneElement.calls .immutable ([.incrementGenerationId] ++
          [.change (.remove 7), .change (.insert 9 1), .incrementGenerationId])).Reverted 9 ∧
        (oneElement.calls .immutable ([.incrementGenerationId] ++
          [.change (.remove 7), .change (.insert 9 1), .incrementGenerationId])).visible .immutable 9 =
          Container.find oneElement.originalElements 9 :=
  generation_tracks .immutable oneElement.originalElements [.incrementGenerationId]
    [.change (.remove 7), .change (.insert 9 1), .incrementGenerationId] 9 (by decide) (by decide)

end BaseSetDelta

end Catapult.DeltaSet
