import Mathlib.Data.Finset.Basic

/-!
# Identifiers grouped by a key (`IdentifierGroup`, `IdentifierGroupCacheUtils`)

Caches with elements that expire have a second set, with a group of identifiers for every height at which
something expires. A group is added with its first identifier and removed with its last one.
-/

namespace Catapult.Cache

/-- The groups of a grouped set; there is none for most of the keys. -/
abbrev GroupedSet (Key Id : Type) : Type := Key → Option (Finset Id)

namespace GroupedSet
variable {Key Id : Type} [DecidableEq Key] [DecidableEq Id] {groups : GroupedSet Key Id} {key key' : Key} {id id' : Id}

def empty : GroupedSet Key Id := fun _ => none

/-- The identifiers over which `ForEachIdentifierWithGroup` iterates. -/
def identifiers (groups : GroupedSet Key Id) (key : Key) : Finset Id := (groups key).getD ∅

def addIdentifierWithGroup (groups : GroupedSet Key Id) (key : Key) (id : Id) : GroupedSet Key Id :=
  Function.update groups key (some (insert id (groups.identifiers key)))

def removeIdentifierWithGroup (groups : GroupedSet Key Id) (key : Key) (id : Id) : GroupedSet Key Id :=
  match groups key with
  | none => groups
  | some group => Function.update groups key (if group.erase id = ∅ then none else some (group.erase id))

def remove (groups : GroupedSet Key Id) (key : Key) : GroupedSet Key Id := Function.update groups key none

def NoEmptyGroup (groups : GroupedSet Key Id) : Prop := ∀ key, groups key ≠ some ∅

section
omit [DecidableEq Key] [DecidableEq Id]

@[simp] theorem identifiers_empty : (empty : GroupedSet Key Id).identifiers key = ∅ := rfl

theorem NoEmptyGroup.empty : (empty : GroupedSet Key Id).NoEmptyGroup := fun _ h => by cases h

end

@[simp] theorem mem_identifiers_add :
    id' ∈ (groups.addIdentifierWithGroup key id).identifiers key' ↔
      (key' = key ∧ id' = id) ∨ id' ∈ groups.identifiers key' := by
  by_cases hkey : key' = key
  · subst hkey
    simp [addIdentifierWithGroup, identifiers]
  · simp [addIdentifierWithGroup, identifiers, hkey]

@[simp] theorem mem_identifiers_remove :
    id' ∈ (groups.removeIdentifierWithGroup key id).identifiers key' ↔
      ¬(key' = key ∧ id' = id) ∧ id' ∈ groups.identifiers key' := by
  unfold removeIdentifierWithGroup
  by_cases hkey : key' = key
  · subst hkey
    rcases hgroup : groups key' with _ | group
    · simp [identifiers, hgroup]
    · by_cases hempty : group.erase id = ∅
      · simp only [identifiers, Function.update_self, hempty, if_true, Option.getD_none, hgroup, Option.getD_some,
          true_and]
        rw [← hempty, Finset.mem_erase]
      · simp [identifiers, hempty, hgroup, Finset.mem_erase]
  · rcases hgroup : groups key with _ | group
    · simp [hkey]
    · simp [identifiers, hkey]

omit [DecidableEq Id] in
@[simp] theorem mem_identifiers_removeGroup :
    id' ∈ (groups.remove key).identifiers key' ↔ key' ≠ key ∧ id' ∈ groups.identifiers key' := by
  by_cases hkey : key' = key
  · subst hkey
    simp [remove, identifiers]
  · simp [remove, identifiers, hkey]

theorem NoEmptyGroup.add (h : groups.NoEmptyGroup) : (groups.addIdentifierWithGroup key id).NoEmptyGroup := by
  intro key' heq
  by_cases hkey : key' = key
  · subst hkey
    simp [addIdentifierWithGroup] at heq
  · simp only [addIdentifierWithGroup, Function.update_of_ne hkey] at heq
    exact h key' heq

theorem NoEmptyGroup.removeIdentifier (h : groups.NoEmptyGroup) :
    (groups.removeIdentifierWithGroup key id).NoEmptyGroup := by
  intro key' heq
  unfold removeIdentifierWithGroup at heq
  rcases hgroup : groups key with _ | group
  · simp only [hgroup] at heq
    exact h key' heq
  · simp only [hgroup] at heq
    by_cases hkey : key' = key
    · subst hkey
      rw [Function.update_self] at heq
      split_ifs at heq with hempty
      exact hempty (Option.some.inj heq)
    · rw [Function.update_of_ne hkey] at heq
      exact h key' heq

omit [DecidableEq Id] in
theorem NoEmptyGroup.remove (h : groups.NoEmptyGroup) : (groups.remove key).NoEmptyGroup := by
  intro key' heq
  by_cases hkey : key' = key
  · subst hkey
    simp [GroupedSet.remove] at heq
  · simp only [GroupedSet.remove, Function.update_of_ne hkey] at heq
    exact h key' heq

theorem remove_add_eq_iff (h : groups.NoEmptyGroup) :
    (groups.addIdentifierWithGroup key id).removeIdentifierWithGroup key id = groups ↔ id ∉ groups.identifiers key := by
  constructor
  · intro heq hmem
    rw [← heq] at hmem
    simp at hmem
  · intro hnot
    have hgroup : groups.addIdentifierWithGroup key id key = some (insert id (groups.identifiers key)) := by
      simp [addIdentifierWithGroup]
    unfold removeIdentifierWithGroup
    rw [hgroup]
    simp only [Finset.erase_insert hnot, addIdentifierWithGroup, Function.update_idem]
    rw [Function.update_eq_self_iff]
    rcases hkey : groups key with _ | group
    · simp [identifiers, hkey]
    · have hne : group ≠ ∅ := fun hempty => h key (hkey.trans (congrArg some hempty))
      simp [identifiers, hkey, hne]

end GroupedSet
end Catapult.Cache
