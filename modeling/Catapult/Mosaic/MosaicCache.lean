import Catapult.Cache.IdentifierGroup
import Mathlib.Algebra.Group.Nat.Defs

/-!
# Mosaics and their expiry index (`MosaicEntry`, `BasicMosaicCacheDelta`)

A mosaic that is not eternal is listed under the height at which it expires. In an indexed cache the groups are those of
the entries, so the entries determine them.
-/

namespace Catapult.Mosaic
open Cache

abbrev MosaicId := UInt64
abbrev Amount := UInt64
abbrev Height := UInt64
abbrev BlockDuration := UInt64
abbrev MosaicFlags := UInt8

structure MosaicProperties where
  flags : MosaicFlags
  divisibility : UInt8
  duration : BlockDuration
  deriving DecidableEq

def supplyMutable : MosaicFlags := 1

/-- `is`. -/
def MosaicProperties.hasFlag (properties : MosaicProperties) (testedFlag : MosaicFlags) : Bool :=
  testedFlag = testedFlag &&& properties.flags

structure MosaicDefinition (Address : Type) where
  startHeight : Height
  ownerAddress : Address
  revision : UInt32
  properties : MosaicProperties
  deriving DecidableEq

namespace MosaicDefinition
variable {Address : Type} (definition : MosaicDefinition Address)

def isEternal : Bool := definition.properties.duration = 0

def isActive (height : Height) : Bool :=
  definition.isEternal ||
    (height < definition.startHeight + definition.properties.duration && definition.startHeight ≤ height)

def expiryHeight : Height := definition.startHeight + definition.properties.duration

end MosaicDefinition

structure MosaicEntry (Address : Type) where
  mosaicId : MosaicId
  definition : MosaicDefinition Address
  supply : Amount := 0
  deriving DecidableEq

namespace MosaicEntry
variable {Address : Type} (entry : MosaicEntry Address)

/-- `CheckedAdd`; `none` when the supply would exceed its type. -/
def increaseSupply (delta : Amount) : Option (MosaicEntry Address) :=
  if entry.supply.toNat + delta.toNat < 2 ^ 64 then some { entry with supply := entry.supply + delta } else none

def decreaseSupply (delta : Amount) : Option (MosaicEntry Address) :=
  if entry.supply < delta then none else some { entry with supply := entry.supply - delta }

end MosaicEntry

structure MosaicCache (Address : Type) where
  entryById : MosaicId → Option (MosaicEntry Address)
  mosaicIdsByExpiryHeight : GroupedSet Height MosaicId

namespace MosaicCache
variable {Address : Type} {cache cache' : MosaicCache Address} {entry : MosaicEntry Address} {id : MosaicId}
  {height : Height}

def empty : MosaicCache Address := ⟨fun _ => none, .empty⟩

def find (cache : MosaicCache Address) (id : MosaicId) : Option (MosaicEntry Address) := cache.entryById id

def updateExpiryMap (groups : GroupedSet Height MosaicId) (entry : MosaicEntry Address) : GroupedSet Height MosaicId :=
  if entry.definition.isEternal then groups
  else groups.addIdentifierWithGroup entry.definition.expiryHeight entry.mosaicId

/-- `none` when there is an entry already. -/
def insert (cache : MosaicCache Address) (entry : MosaicEntry Address) : Option (MosaicCache Address) :=
  if (cache.find entry.mosaicId).isSome then none
  else some {
    entryById := Function.update cache.entryById entry.mosaicId (some entry)
    mosaicIdsByExpiryHeight := updateExpiryMap cache.mosaicIdsByExpiryHeight entry }

/-- `none` when there is no entry. -/
def remove (cache : MosaicCache Address) (id : MosaicId) : Option (MosaicCache Address) :=
  match cache.find id with
  | none => none
  | some entry => some {
    entryById := Function.update cache.entryById id none
    mosaicIdsByExpiryHeight :=
      if entry.definition.isEternal then cache.mosaicIdsByExpiryHeight
      else cache.mosaicIdsByExpiryHeight.removeIdentifierWithGroup entry.definition.expiryHeight id }

/-- The change of an entry that is found in the cache, when the change keeps the definition. -/
def set (cache : MosaicCache Address) (entry : MosaicEntry Address) : MosaicCache Address :=
  { cache with entryById := Function.update cache.entryById entry.mosaicId (some entry) }

/-- An entry is found under its identifier, and the groups list exactly the entries that are not eternal, each under
its expiry height. -/
structure Indexed (cache : MosaicCache Address) : Prop where
  keyed : ∀ id entry, cache.find id = some entry → entry.mosaicId = id
  noEmptyGroup : cache.mosaicIdsByExpiryHeight.NoEmptyGroup
  listed : ∀ height id, id ∈ cache.mosaicIdsByExpiryHeight.identifiers height ↔
    ∃ entry, cache.find id = some entry ∧ entry.definition.isEternal = false ∧ entry.definition.expiryHeight = height

theorem indexed_empty : (empty : MosaicCache Address).Indexed where
  keyed _ _ h := nomatch h
  noEmptyGroup := .empty
  listed _ _ := by simp [empty, find]

theorem group_eq {groups groups' : GroupedSet Height MosaicId} (h : groups.NoEmptyGroup) (h' : groups'.NoEmptyGroup)
    (heq : ∀ height id, id ∈ groups.identifiers height ↔ id ∈ groups'.identifiers height) : groups = groups' := by
  funext height
  have hidentifiers : groups.identifiers height = groups'.identifiers height := Finset.ext (heq height)
  have hne := h height
  have hne' := h' height
  unfold GroupedSet.identifiers at hidentifiers
  cases hgroup : groups height with
  | none =>
    cases hgroup' : groups' height with
    | none => rfl
    | some ids =>
      rw [hgroup, hgroup'] at hidentifiers
      exact absurd (hgroup'.trans (congrArg some hidentifiers.symm)) hne'
  | some ids =>
    cases hgroup' : groups' height with
    | none =>
      rw [hgroup, hgroup'] at hidentifiers
      exact absurd (hgroup.trans (congrArg some hidentifiers)) hne
    | some ids' =>
      rw [hgroup, hgroup'] at hidentifiers
      exact congrArg some hidentifiers

theorem Indexed.eq_of_find_eq (h : cache.Indexed) (h' : cache'.Indexed) (heq : ∀ id, cache.find id = cache'.find id) :
    cache = cache' := by
  have hentries : cache.entryById = cache'.entryById := funext heq
  have hgroups : cache.mosaicIdsByExpiryHeight = cache'.mosaicIdsByExpiryHeight := by
    refine group_eq h.noEmptyGroup h'.noEmptyGroup fun height id => ?_
    rw [h.listed, h'.listed, heq]
  cases cache
  cases cache'
  simp_all

theorem insert_eq_some (h : cache.insert entry = some cache') :
    cache.find entry.mosaicId = none ∧
      ∀ id, cache'.find id = if id = entry.mosaicId then some entry else cache.find id := by
  unfold insert at h
  split at h
  · cases h
  · rename_i hnew
    cases h
    refine ⟨by simpa using hnew, fun id => ?_⟩
    by_cases hid : id = entry.mosaicId
    · subst hid
      simp [find]
    · simp [find, hid]

theorem exists_insert (cache : MosaicCache Address) (entry : MosaicEntry Address)
    (h : cache.find entry.mosaicId = none) : ∃ cache', cache.insert entry = some cache' := by
  rw [insert, h]
  exact ⟨_, rfl⟩

theorem remove_eq_some (h : cache.remove id = some cache') :
    (cache.find id).isSome = true ∧ ∀ id', cache'.find id' = if id' = id then none else cache.find id' := by
  unfold remove at h
  cases hentry : cache.find id with
  | none =>
    rw [hentry] at h
    cases h
  | some entry =>
    rw [hentry] at h
    cases h
    refine ⟨rfl, fun id' => ?_⟩
    by_cases hid : id' = id
    · subst hid
      simp [find]
    · simp [find, hid]

theorem exists_remove (h : cache.find id = some entry) : ∃ cache', cache.remove id = some cache' := by
  rw [remove, h]
  exact ⟨_, rfl⟩

theorem Indexed.insert (h : cache.Indexed) (hinsert : cache.insert entry = some cache') : cache'.Indexed := by
  obtain ⟨hnew, hfind⟩ := insert_eq_some hinsert
  have hindex : cache'.mosaicIdsByExpiryHeight = updateExpiryMap cache.mosaicIdsByExpiryHeight entry := by
    unfold MosaicCache.insert at hinsert
    rw [hnew] at hinsert
    cases hinsert
    rfl
  refine ⟨fun id entry' hfound => ?_, ?_, fun height id => ?_⟩
  · rw [hfind] at hfound
    split at hfound
    · rename_i hid
      cases hfound
      exact hid.symm
    · exact h.keyed id entry' hfound
  · rw [hindex, updateExpiryMap]
    split
    · exact h.noEmptyGroup
    · exact h.noEmptyGroup.add
  · have hlisted : id ∈ cache'.mosaicIdsByExpiryHeight.identifiers height ↔
        (entry.definition.isEternal = false ∧ entry.definition.expiryHeight = height ∧ id = entry.mosaicId) ∨
          id ∈ cache.mosaicIdsByExpiryHeight.identifiers height := by
      rw [hindex, updateExpiryMap]
      by_cases heternal : entry.definition.isEternal = true
      · simp [heternal]
      · simp [heternal, eq_comm]
    rw [hlisted, h.listed, hfind]
    by_cases hid : id = entry.mosaicId
    · subst hid
      simp [hnew]
    · simp [hid]

theorem Indexed.remove (h : cache.Indexed) (hremove : cache.remove id = some cache') : cache'.Indexed := by
  obtain ⟨hsome, hfind⟩ := remove_eq_some hremove
  obtain ⟨entry, hentry⟩ := Option.isSome_iff_exists.mp hsome
  have hindex : cache'.mosaicIdsByExpiryHeight =
      if entry.definition.isEternal then cache.mosaicIdsByExpiryHeight
      else cache.mosaicIdsByExpiryHeight.removeIdentifierWithGroup entry.definition.expiryHeight id := by
    unfold MosaicCache.remove at hremove
    rw [hentry] at hremove
    cases hremove
    rfl
  refine ⟨fun id' entry' hfound => ?_, ?_, fun height id' => ?_⟩
  · rw [hfind] at hfound
    split at hfound
    · cases hfound
    · exact h.keyed id' entry' hfound
  · rw [hindex]
    split
    · exact h.noEmptyGroup
    · exact h.noEmptyGroup.removeIdentifier
  · have hlisted : id' ∈ cache'.mosaicIdsByExpiryHeight.identifiers height ↔
        ¬(entry.definition.isEternal = false ∧ height = entry.definition.expiryHeight ∧ id' = id) ∧
          id' ∈ cache.mosaicIdsByExpiryHeight.identifiers height := by
      rw [hindex]
      by_cases heternal : entry.definition.isEternal = true
      · simp [heternal]
      · simp [heternal]
    rw [hlisted, h.listed, hfind]
    by_cases hid : id' = id
    · subst hid
      simp only [hentry, if_true, Option.some.injEq, exists_eq_left', and_true, reduceCtorEq, false_and, exists_false,
        iff_false, not_and]
      rintro hnot heternal rfl
      exact hnot heternal rfl
    · simp [hid]

end MosaicCache
end Catapult.Mosaic
