import Catapult.Cache.IdentifierGroup
import Mathlib.Data.List.TakeWhile

/-!
# Lock infos and their expiry index (`LockInfoHistory`, `BasicLockInfoCacheDelta`)

The locks with the same identifier are kept in one history, and the identifier is listed in the group of the end
height of every lock. The group does not count how often an identifier was added, so removing a lock takes the
identifier out of the group even when another lock of the history has the same end height.

`Reachable` are the caches after operations that do not do this: there the groups are exact (`Reachable.wellFormed`),
and removing a lock undoes its insertion exactly when its identifier was not in the group before.
-/

namespace Catapult.Lock
open Cache

inductive LockStatus where
  | unused
  | used
  deriving DecidableEq

/-- What the cache reads of a lock info. -/
class LockInfoType (LockInfo : Type) (Id : outParam Type) where
  getLockIdentifier : LockInfo → Id
  endHeight : LockInfo → Nat
  status : LockInfo → LockStatus

open LockInfoType

variable {LockInfo Id : Type} [LockInfoType LockInfo Id] [DecidableEq Id]

/-- `LockInfo::isActive`. -/
def isActive (lockInfo : LockInfo) (height : Nat) : Bool :=
  decide (height < endHeight lockInfo) && decide (status lockInfo = .unused)

/-- `LockInfoHistory::isActive`, which looks at the most recent lock info. -/
def isHistoryActive (history : List LockInfo) (height : Nat) : Bool :=
  match history.getLast? with
  | none => false
  | some back => isActive back height

/-- `LockInfoHistory::prune`. -/
def pruneHistory (history : List LockInfo) (height : Nat) : List LockInfo :=
  history.dropWhile fun lockInfo => decide (endHeight lockInfo ≤ height)

structure LockInfoCache (LockInfo Id : Type) where
  histories : Id → Option (List LockInfo)
  heightGrouping : GroupedSet Nat Id

namespace LockInfoCache
variable {cache cache' : LockInfoCache LockInfo Id} {id id' : Id} {lockInfo : LockInfo} {height : Nat}

def empty : LockInfoCache LockInfo Id := ⟨fun _ => none, .empty⟩

def history (cache : LockInfoCache LockInfo Id) (id : Id) : List LockInfo := (cache.histories id).getD []

def insert (cache : LockInfoCache LockInfo Id) (lockInfo : LockInfo) : LockInfoCache LockInfo Id where
  histories := Function.update cache.histories (getLockIdentifier lockInfo)
    (some (cache.history (getLockIdentifier lockInfo) ++ [lockInfo]))
  heightGrouping := cache.heightGrouping.addIdentifierWithGroup (endHeight lockInfo) (getLockIdentifier lockInfo)

/-- `remove`; `none` when it throws. -/
def remove (cache : LockInfoCache LockInfo Id) (id : Id) : Option (LockInfoCache LockInfo Id) := do
  let history ← cache.histories id
  let back ← history.getLast?
  return {
    histories := Function.update cache.histories id (if history.dropLast = [] then none else some history.dropLast)
    heightGrouping := cache.heightGrouping.removeIdentifierWithGroup (endHeight back) id }

def prune (cache : LockInfoCache LockInfo Id) (height : Nat) : LockInfoCache LockInfo Id where
  histories id :=
    if id ∈ cache.heightGrouping.identifiers height then
      (cache.histories id).bind fun history =>
        if pruneHistory history height = [] then none else some (pruneHistory history height)
    else cache.histories id
  heightGrouping := cache.heightGrouping.remove height

structure WellFormed (cache : LockInfoCache LockInfo Id) : Prop where
  nonempty : ∀ id, cache.histories id ≠ some []
  noEmptyGroup : cache.heightGrouping.NoEmptyGroup

/-- From the height `first` on, the groups list the identifiers with a lock info that ends at the height. -/
def Indexed (cache : LockInfoCache LockInfo Id) (first : Nat) : Prop :=
  ∀ height, first ≤ height → ∀ id,
    id ∈ cache.heightGrouping.identifiers height ↔ ∃ lockInfo ∈ cache.history id, endHeight lockInfo = height

@[simp] theorem history_insert : (cache.insert lockInfo).history id =
    cache.history id ++ if id = getLockIdentifier lockInfo then [lockInfo] else [] := by
  by_cases hid : id = getLockIdentifier lockInfo
  · subst hid
    simp [history, insert]
  · simp [history, insert, hid]

theorem remove_eq_some (h : cache.remove id = some cache') :
    ∃ front back, cache.histories id = some (front ++ [back]) ∧
      (∀ id', cache'.history id' = if id' = id then front else cache.history id') ∧
      cache'.heightGrouping = cache.heightGrouping.removeIdentifierWithGroup (endHeight back) id ∧
      cache'.histories = Function.update cache.histories id (if front = [] then none else some front) := by
  unfold remove at h
  rcases hid : cache.histories id with _ | history'
  · simp [hid] at h
  rcases hlast : history'.getLast? with _ | back
  · simp [hid, hlast] at h
  obtain ⟨front, rfl⟩ := List.getLast?_eq_some_iff.1 hlast
  simp only [hid, hlast, Option.bind_eq_bind, Option.bind_some, List.dropLast_concat, Option.pure_def,
    Option.some.injEq] at h
  subst h
  refine ⟨front, back, rfl, fun id' => ?_, rfl, rfl⟩
  by_cases hid' : id' = id
  · subst hid'
    by_cases hfront : front = [] <;> simp [history, hfront]
  · simp [history, hid']

theorem history_prune : (cache.prune height).history id =
    if id ∈ cache.heightGrouping.identifiers height then pruneHistory (cache.history id) height
    else cache.history id := by
  simp only [prune, history]
  split_ifs with hmem
  · rcases hid : cache.histories id with _ | history'
    · rfl
    · by_cases hnil : pruneHistory history' height = [] <;> simp [hnil]
  · rfl

omit [LockInfoType LockInfo Id] [DecidableEq Id] in
theorem WellFormed.empty : (empty : LockInfoCache LockInfo Id).WellFormed :=
  ⟨fun _ h => (nomatch h), .empty⟩

theorem WellFormed.insert (h : cache.WellFormed) : (cache.insert lockInfo).WellFormed := by
  refine ⟨fun id => ?_, h.noEmptyGroup.add⟩
  by_cases hid : id = getLockIdentifier lockInfo
  · subst hid
    simp [LockInfoCache.insert]
  · simpa [LockInfoCache.insert, hid] using h.nonempty id

theorem WellFormed.remove (h : cache.WellFormed) (hremove : cache.remove id = some cache') : cache'.WellFormed := by
  obtain ⟨front, back, hid, -, hgroups, hhistories⟩ := remove_eq_some hremove
  refine ⟨fun id' => ?_, hgroups ▸ h.noEmptyGroup.removeIdentifier⟩
  rw [hhistories]
  by_cases hid' : id' = id
  · subst hid'
    by_cases hfront : front = [] <;> simp [hfront]
  · simpa [hid'] using h.nonempty id'

theorem WellFormed.prune (h : cache.WellFormed) : (cache.prune height).WellFormed := by
  refine ⟨fun id heq => ?_, h.noEmptyGroup.remove⟩
  simp only [LockInfoCache.prune] at heq
  split_ifs at heq with hmem
  · obtain ⟨history', -, heq⟩ := Option.bind_eq_some_iff.1 heq
    split_ifs at heq with hnil
    exact hnil (Option.some.inj heq)
  · exact h.nonempty id heq

theorem Indexed.insert {first : Nat} (h : cache.Indexed first) : (cache.insert lockInfo).Indexed first := by
  intro height hheight id
  rw [history_insert]
  have hgroup : id ∈ (cache.insert lockInfo).heightGrouping.identifiers height ↔
      (height = endHeight lockInfo ∧ id = getLockIdentifier lockInfo) ∨ id ∈ cache.heightGrouping.identifiers height :=
    GroupedSet.mem_identifiers_add
  rw [hgroup, h height hheight id]
  by_cases hid : id = getLockIdentifier lockInfo
  · simp [hid, or_and_right, exists_or, eq_comm, or_comm]
  · simp [hid]

theorem Indexed.remove {first : Nat} (h : cache.Indexed first) (hremove : cache.remove id = some cache')
    (hdistinct : ∀ front back, cache.histories id = some (front ++ [back]) → first ≤ endHeight back →
      ∀ lockInfo ∈ front, endHeight lockInfo ≠ endHeight back) : cache'.Indexed first := by
  obtain ⟨front, back, hid, hhistory, hgroups, -⟩ := remove_eq_some hremove
  have hhistory_id : cache.history id = front ++ [back] := by simp [history, hid]
  intro height hheight id'
  rw [hgroups, GroupedSet.mem_identifiers_remove, h height hheight id', hhistory id']
  by_cases hid' : id' = id
  · subst hid'
    rw [if_pos rfl, hhistory_id]
    constructor
    · rintro ⟨hne, lockInfo, hmem, hend⟩
      rcases List.mem_append.1 hmem with hmem | hmem
      · exact ⟨lockInfo, hmem, hend⟩
      · obtain rfl := List.mem_singleton.1 hmem
        exact (hne ⟨hend.symm, rfl⟩).elim
    · rintro ⟨lockInfo, hmem, hend⟩
      refine ⟨?_, lockInfo, List.mem_append_left _ hmem, hend⟩
      rintro ⟨hback, -⟩
      exact hdistinct front back hid (hback ▸ hheight) lockInfo hmem (hend.trans hback)
  · simp [hid']

omit [DecidableEq Id] in
theorem mem_pruneHistory {history : List LockInfo} (hlt : height < endHeight lockInfo) :
    lockInfo ∈ pruneHistory history height ↔ lockInfo ∈ history := by
  unfold pruneHistory
  constructor
  · exact fun h => (List.dropWhile_suffix _).subset h
  · intro h
    rw [← List.takeWhile_append_dropWhile (p := fun lockInfo => decide (endHeight lockInfo ≤ height))
      (l := history)] at h
    rcases List.mem_append.1 h with h | h
    · have hle := List.mem_takeWhile_imp h
      simp only [decide_eq_true_eq] at hle
      omega
    · exact h

theorem Indexed.prune {first : Nat} (h : cache.Indexed first) :
    (cache.prune height).Indexed (max first (height + 1)) := by
  intro height' hheight id
  have hgroup : id ∈ (cache.prune height).heightGrouping.identifiers height' ↔
      height' ≠ height ∧ id ∈ cache.heightGrouping.identifiers height' := GroupedSet.mem_identifiers_removeGroup
  rw [hgroup, h height' (by omega) id, history_prune]
  have hne : height' ≠ height := by omega
  simp only [hne, ne_eq, not_false_eq_true, true_and]
  split_ifs
  · constructor
    · rintro ⟨lockInfo, hmem, hend⟩
      exact ⟨lockInfo, (mem_pruneHistory (by omega)).2 hmem, hend⟩
    · rintro ⟨lockInfo, hmem, hend⟩
      exact ⟨lockInfo, (mem_pruneHistory (by omega)).1 hmem, hend⟩
  · rfl

/-- Caches after any operations of which every removal takes away the only lock info of the history with its end
height. The second argument is the first height that is above all the pruned ones; a removal of a lock info that
ends below it is not restricted. -/
inductive Reachable : LockInfoCache LockInfo Id → Nat → Prop
  | empty : Reachable empty 0
  | insert {cache : LockInfoCache LockInfo Id} {first : Nat} (lockInfo : LockInfo) (h : Reachable cache first) :
    Reachable (cache.insert lockInfo) first
  | remove {cache cache' : LockInfoCache LockInfo Id} {first : Nat} {id : Id} (h : Reachable cache first)
    (hdistinct : ∀ front back, cache.histories id = some (front ++ [back]) → first ≤ endHeight back →
      ∀ lockInfo ∈ front, endHeight lockInfo ≠ endHeight back)
    (hremove : cache.remove id = some cache') : Reachable cache' first
  | prune {cache : LockInfoCache LockInfo Id} {first : Nat} (height : Nat) (h : Reachable cache first) :
    Reachable (cache.prune height) (max first (height + 1))

theorem Reachable.wellFormed {first : Nat} (h : Reachable cache first) : cache.WellFormed ∧ cache.Indexed first := by
  induction h with
  | empty => exact ⟨.empty, fun height _ id => by simp [LockInfoCache.empty, history]⟩
  | insert lockInfo _ ih => exact ⟨ih.1.insert, ih.2.insert⟩
  | remove _ hdistinct hremove ih => exact ⟨ih.1.remove hremove, ih.2.remove hremove hdistinct⟩
  | prune height _ ih => exact ⟨ih.1.prune, ih.2.prune⟩

theorem remove_insert_eq (h : cache.WellFormed) (lockInfo : LockInfo) :
    (cache.insert lockInfo).remove (getLockIdentifier lockInfo) = some ⟨cache.histories,
      (cache.heightGrouping.addIdentifierWithGroup (endHeight lockInfo)
        (getLockIdentifier lockInfo)).removeIdentifierWithGroup
        (endHeight lockInfo) (getLockIdentifier lockInfo)⟩ := by
  have hhistories : Function.update cache.histories (getLockIdentifier lockInfo)
      (if cache.history (getLockIdentifier lockInfo) = [] then none
      else some (cache.history (getLockIdentifier lockInfo))) = cache.histories := by
    rw [Function.update_eq_self_iff]
    have hne := h.nonempty (getLockIdentifier lockInfo)
    unfold history
    rcases hid : cache.histories (getLockIdentifier lockInfo) with _ | history'
    · rfl
    · rw [hid] at hne
      simp_all
  simp [remove, insert, hhistories]

theorem remove_insert_eq_iff (h : cache.WellFormed) (lockInfo : LockInfo) :
    (cache.insert lockInfo).remove (getLockIdentifier lockInfo) = some cache ↔
      getLockIdentifier lockInfo ∉ cache.heightGrouping.identifiers (endHeight lockInfo) := by
  rw [remove_insert_eq h, ← GroupedSet.remove_add_eq_iff h.noEmptyGroup]
  constructor
  · intro heq
    exact congrArg heightGrouping (Option.some.inj heq)
  · intro heq
    rw [heq]

/-- After operations that keep different end heights apart, a group above the pruned heights lists the identifiers
with a lock info of its height, and removing a lock info undoes its insertion unless the identifier was listed. -/
theorem index_of_reachable {first : Nat} (h : Reachable cache first) :
    (∀ height, first ≤ height → ∀ id, id ∈ cache.heightGrouping.identifiers height ↔
      ∃ lockInfo ∈ cache.history id, endHeight lockInfo = height) ∧
    ∀ lockInfo : LockInfo, (cache.insert lockInfo).remove (getLockIdentifier lockInfo) = some cache ↔
      getLockIdentifier lockInfo ∉ cache.heightGrouping.identifiers (endHeight lockInfo) :=
  ⟨h.wellFormed.2, remove_insert_eq_iff h.wellFormed.1⟩

/-- Lock infos that are an identifier and an end height. -/
instance : LockInfoType (Nat × Nat) Nat := ⟨Prod.fst, Prod.snd, fun _ => .unused⟩

def twoLocks : LockInfoCache (Nat × Nat) Nat := (empty.insert (7, 5)).insert (7, 6)

theorem index_of_reachable_twoLocks :
    7 ∈ twoLocks.heightGrouping.identifiers 5 ∧ (twoLocks.insert (7, 8)).remove 7 = some twoLocks := by
  have h : Reachable twoLocks 0 := .insert (7, 6) (.insert (7, 5) .empty)
  exact ⟨((index_of_reachable h).1 5 (by decide) 7).2 ⟨(7, 5), by decide, rfl⟩,
    ((index_of_reachable h).2 (7, 8)).2 (by decide)⟩

/-- Two locks with the same end height, of which the second one is removed: the first one stays in the history, but
not in the index. -/
theorem remove_drops_shared_identifier :
    ∃ cache', ((empty.insert (7, 5) : LockInfoCache (Nat × Nat) Nat).insert (7, 5)).remove 7 = some cache' ∧
      7 ∉ cache'.heightGrouping.identifiers 5 ∧ (7, 5) ∈ cache'.history 7 ∧ cache' ≠ empty.insert (7, 5) := by
  refine ⟨_, rfl, by decide, by decide, fun heq => ?_⟩
  have hgroup := congrArg (fun cache => 7 ∈ cache.heightGrouping.identifiers 5) heq
  exact absurd hgroup (by decide)

end LockInfoCache
end Catapult.Lock
