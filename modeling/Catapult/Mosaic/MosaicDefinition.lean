import Catapult.Mosaic.MosaicCache
import Catapult.Observers.UndoOrder

/-!
# Mosaic definitions

A definition starts a mosaic or modifies one: flags and divisibility by an exclusive or, the duration by a sum. The
entry is removed and inserted again, in both directions. A rollback deletes an entry of revision one, and it restores
every other one exactly, so what matters is whether the revision before the definition was zero.
-/

namespace Catapult.Mosaic
open Observers (NotifyMode)

variable {Address : Type}

structure MosaicDefinitionNotification (Address : Type) where
  owner : Address
  mosaicId : MosaicId
  properties : MosaicProperties
  deriving DecidableEq

inductive ValidationResult where
  | success
  | mosaicExpired
  | mosaicOwnerConflict
  | mosaicModificationNoChanges
  | mosaicModificationDisallowed
  | mosaicInvalidDuration
  | mosaicSupplyImmutable
  | mosaicSupplyNegative
  | mosaicSupplyExceeded
  deriving DecidableEq

section
variable [DecidableEq Address]

/-- `ActiveMosaicView::tryGet`, with the entry that was found. -/
def tryGetActive (cache : MosaicCache Address) (id : MosaicId) (height : Height) (owner : Address) :
    ValidationResult × Option (MosaicEntry Address) :=
  match cache.find id with
  | none => (.mosaicExpired, none)
  | some entry =>
    if !entry.definition.isActive height then (.mosaicExpired, some entry)
    else if entry.definition.ownerAddress ≠ owner then (.mosaicOwnerConflict, some entry)
    else (.success, some entry)

def containsAnyPropertyChange (definition : MosaicDefinition Address) (properties : MosaicProperties) : Bool :=
  if properties.flags ≠ 0 || properties.divisibility ≠ 0 then true
  else !definition.isEternal && properties.duration ≠ 0

def mosaicAvailability (cache : MosaicCache Address) (height : Height)
    (notification : MosaicDefinitionNotification Address) : ValidationResult :=
  match tryGetActive cache notification.mosaicId height notification.owner with
  | (result, none) => if result = .success then result else .success
  | (result, some entry) =>
    if result ≠ .success then result
    else if !containsAnyPropertyChange entry.definition notification.properties then .mosaicModificationNoChanges
    else if entry.supply ≠ 0 then .mosaicModificationDisallowed
    else .success

omit [DecidableEq Address] in
def mosaicDuration (maxMosaicDuration : BlockDuration) (cache : MosaicCache Address)
    (notification : MosaicDefinitionNotification Address) : ValidationResult :=
  if notification.properties.duration = 0 then .success
  else if maxMosaicDuration < notification.properties.duration then .mosaicInvalidDuration
  else
    match cache.find notification.mosaicId with
    | none => .success
    | some entry =>
      let currentDuration := entry.definition.properties.duration
      if currentDuration = 0 then .mosaicInvalidDuration
      else
        let resultingDuration := currentDuration + notification.properties.duration
        if maxMosaicDuration < resultingDuration || resultingDuration < currentDuration then .mosaicInvalidDuration
        else .success

end

def mergeProperties (currentProperties notificationProperties : MosaicProperties) (mode : NotifyMode) :
    MosaicProperties where
  flags := currentProperties.flags ^^^ notificationProperties.flags
  divisibility := currentProperties.divisibility ^^^ notificationProperties.divisibility
  duration :=
    match mode with
    | .commit => currentProperties.duration + notificationProperties.duration
    | .rollback => currentProperties.duration - notificationProperties.duration

def applyNotification (currentMosaicEntry : MosaicEntry Address) (notification : MosaicDefinitionNotification Address)
    (mode : NotifyMode) : MosaicEntry Address :=
  let currentDefinition := currentMosaicEntry.definition
  let newProperties := mergeProperties currentDefinition.properties notification.properties mode
  let revision :=
    match mode with
    | .commit => currentDefinition.revision + 1
    | .rollback => currentDefinition.revision - 1
  { mosaicId := notification.mosaicId
    definition := ⟨currentDefinition.startHeight, notification.owner, revision, newProperties⟩ }

def observeMosaicDefinition (mode : NotifyMode) (height : Height) (cache : MosaicCache Address)
    (notification : MosaicDefinitionNotification Address) : Option (MosaicCache Address) :=
  match cache.find notification.mosaicId with
  | some entry => do
    let removed ← cache.remove notification.mosaicId
    if mode = .rollback ∧ 1 = entry.definition.revision then return removed
    else removed.insert (applyNotification entry notification mode)
  | none =>
    cache.insert
      { mosaicId := notification.mosaicId, definition := ⟨height, notification.owner, 1, notification.properties⟩ }

section
variable {mode : NotifyMode} {height : Height} {cache cache' : MosaicCache Address} {entry : MosaicEntry Address}
  {notification : MosaicDefinitionNotification Address}

def observedEntry (mode : NotifyMode) (height : Height) (notification : MosaicDefinitionNotification Address) :
    Option (MosaicEntry Address) → Option (MosaicEntry Address)
  | some entry =>
    if mode = .rollback ∧ 1 = entry.definition.revision then none else some (applyNotification entry notification mode)
  | none =>
    some { mosaicId := notification.mosaicId, definition := ⟨height, notification.owner, 1, notification.properties⟩ }

theorem observe_find (mode : NotifyMode) (height : Height) (cache : MosaicCache Address)
    (notification : MosaicDefinitionNotification Address) :
    ∃ cache', observeMosaicDefinition mode height cache notification = some cache' ∧
      ∀ id, cache'.find id =
        if id = notification.mosaicId then observedEntry mode height notification (cache.find notification.mosaicId)
        else cache.find id := by
  unfold observeMosaicDefinition
  cases hentry : cache.find notification.mosaicId with
  | none =>
    obtain ⟨cache', hinsert⟩ := MosaicCache.exists_insert cache
      ⟨notification.mosaicId, ⟨height, notification.owner, 1, notification.properties⟩, 0⟩ hentry
    exact ⟨cache', hinsert, (MosaicCache.insert_eq_some hinsert).2⟩
  | some entry =>
    obtain ⟨removed, hremove⟩ := MosaicCache.exists_remove hentry
    have hfind := (MosaicCache.remove_eq_some hremove).2
    simp only [hremove, Option.bind_eq_bind, Option.bind_some, observedEntry]
    split
    · exact ⟨removed, rfl, hfind⟩
    · obtain ⟨cache', hinsert⟩ := MosaicCache.exists_insert removed (applyNotification entry notification mode)
        (by rw [hfind]; exact if_pos rfl)
      refine ⟨cache', hinsert, fun id => ?_⟩
      have hkey : (applyNotification entry notification mode).mosaicId = notification.mosaicId := rfl
      rw [(MosaicCache.insert_eq_some hinsert).2 id, hkey]
      by_cases hid : id = notification.mosaicId
      · rw [if_pos hid, if_pos hid]
      · rw [if_neg hid, if_neg hid, hfind, if_neg hid]

theorem observe_indexed (h : cache.Indexed)
    (hobserve : observeMosaicDefinition mode height cache notification = some cache') : cache'.Indexed := by
  unfold observeMosaicDefinition at hobserve
  split at hobserve
  · obtain ⟨removed, hremove, hrest⟩ := Option.bind_eq_some_iff.mp hobserve
    have hremoved := h.remove hremove
    split at hrest
    · cases hrest
      exact hremoved
    · exact hremoved.insert hrest
  · exact h.insert hobserve

theorem merge_merge (properties difference : MosaicProperties) :
    mergeProperties (mergeProperties properties difference .commit) difference .rollback = properties := by
  cases properties
  simp [mergeProperties, UInt8.xor_assoc]

theorem observedEntry_rollback_iff (hid : entry.mosaicId = notification.mosaicId)
    (howner : entry.definition.ownerAddress = notification.owner) (hsupply : entry.supply = 0) :
    observedEntry .rollback height notification (observedEntry .commit height notification (some entry)) = some entry ↔
      entry.definition.revision ≠ 0 := by
  have hrevision : 1 = entry.definition.revision + 1 ↔ entry.definition.revision = 0 := by
    constructor
    · intro heq
      have hsub := congrArg (· - 1) heq
      simpa [eq_comm] using hsub
    · intro heq
      rw [heq]
      rfl
  simp only [observedEntry, reduceCtorEq, false_and, if_false, applyNotification, true_and, hrevision]
  by_cases hzero : entry.definition.revision = 0
  · simp [hzero]
  · rw [if_neg hzero]
    simp only [ne_eq, hzero, not_false_eq_true, iff_true, Option.some.injEq, merge_merge]
    rcases entry with ⟨id, ⟨startHeight, owner, revision, properties⟩, supply⟩
    simp only at hid howner hsupply
    simp [hid, howner, hsupply]

def Reverts (cache : MosaicCache Address) (height : Height) (notification : MosaicDefinitionNotification Address) :
    Prop :=
  ∃ committed, observeMosaicDefinition .commit height cache notification = some committed ∧
    observeMosaicDefinition .rollback height committed notification = some cache

theorem reverts_iff_observedEntry (h : cache.Indexed) :
    Reverts cache height notification ↔
      observedEntry .rollback height notification
        (observedEntry .commit height notification (cache.find notification.mosaicId)) =
          cache.find notification.mosaicId := by
  obtain ⟨committed, hcommit, hfind⟩ := observe_find .commit height cache notification
  obtain ⟨restored, hrollback, hfind'⟩ := observe_find .rollback height committed notification
  have hrestored : restored.find notification.mosaicId = observedEntry .rollback height notification
      (observedEntry .commit height notification (cache.find notification.mosaicId)) := by
    rw [hfind', if_pos rfl, hfind, if_pos rfl]
  rw [← hrestored]
  constructor
  · rintro ⟨committed', hcommit', hrollback'⟩
    obtain rfl := Option.some.inj (hcommit.symm.trans hcommit')
    obtain rfl := Option.some.inj (hrollback.symm.trans hrollback')
    rfl
  · intro heq
    refine ⟨committed, hcommit, ?_⟩
    rw [hrollback, ← h.eq_of_find_eq (observe_indexed (observe_indexed h hcommit) hrollback)]
    intro id
    by_cases hid : id = notification.mosaicId
    · rw [hid, heq]
    · rw [hfind', if_neg hid, hfind, if_neg hid]

end

section
variable [DecidableEq Address] {height : Height} {cache cache' : MosaicCache Address} {entry : MosaicEntry Address}
  {notification : MosaicDefinitionNotification Address} {maxMosaicDuration : BlockDuration}

theorem of_mosaicAvailability (h : mosaicAvailability cache height notification = .success)
    (hentry : cache.find notification.mosaicId = some entry) :
    entry.definition.ownerAddress = notification.owner ∧ entry.supply = 0 := by
  simp only [mosaicAvailability, tryGetActive, hentry] at h
  by_cases hactive : entry.definition.isActive height = true
  · by_cases howner : entry.definition.ownerAddress = notification.owner
    · simp only [hactive, howner, Bool.not_true, Bool.false_eq_true, if_false, ne_eq, not_true] at h
      split at h
      · cases h
      · split at h
        · cases h
        · rename_i hsupply
          exact ⟨howner, not_not.mp hsupply⟩
    · simp [hactive, howner] at h
  · simp [hactive] at h

theorem reverts_iff (hindexed : cache.Indexed) (havailable : mosaicAvailability cache height notification = .success) :
    Reverts cache height notification ↔
      ∀ entry, cache.find notification.mosaicId = some entry → entry.definition.revision ≠ 0 := by
  rw [reverts_iff_observedEntry hindexed]
  cases hentry : cache.find notification.mosaicId with
  | none => simp [observedEntry]
  | some entry =>
    obtain ⟨howner, hsupply⟩ := of_mosaicAvailability havailable hentry
    rw [observedEntry_rollback_iff (hindexed.keyed _ _ hentry) howner hsupply]
    simp

def commitAll (maxMosaicDuration : BlockDuration) (cache : MosaicCache Address)
    (definitions : List (Height × MosaicDefinitionNotification Address)) : Option (MosaicCache Address) :=
  definitions.foldlM (fun cache definition =>
    if mosaicAvailability cache definition.1 definition.2 = .success ∧
        mosaicDuration maxMosaicDuration cache definition.2 = .success then
      observeMosaicDefinition .commit definition.1 cache definition.2
    else some cache) cache

theorem commitAll_indexed (maxMosaicDuration : BlockDuration) (h : cache.Indexed)
    (definitions : List (Height × MosaicDefinitionNotification Address)) :
    ∃ cache', commitAll maxMosaicDuration cache definitions = some cache' ∧ cache'.Indexed := by
  induction definitions generalizing cache with
  | nil => exact ⟨cache, rfl, h⟩
  | cons definition definitions ih =>
    rw [commitAll, List.foldlM_cons]
    split
    · obtain ⟨next, hobserve, -⟩ := observe_find .commit definition.1 cache definition.2
      rw [hobserve]
      exact ih (observe_indexed h hobserve)
    · exact ih h

omit [DecidableEq Address] in
/-- A mosaic that is not eternal is listed under the sum of its start height and duration only, and an eternal one
under no height. -/
def ExpiryListed (cache : MosaicCache Address) : Prop :=
  ∀ id entry, cache.find id = some entry → ∀ height, id ∈ cache.mosaicIdsByExpiryHeight.identifiers height ↔
    entry.definition.properties.duration ≠ 0 ∧
      height = entry.definition.startHeight + entry.definition.properties.duration

omit [DecidableEq Address] in
theorem MosaicCache.Indexed.expiryListed (h : cache.Indexed) : ExpiryListed cache := by
  intro id entry hentry height
  rw [h.listed]
  simp [hentry, MosaicDefinition.isEternal, MosaicDefinition.expiryHeight, eq_comm]

/-- An accepted definition is restored by a rollback exactly when it does not modify a mosaic of revision zero; the
index is right after every run of definitions. -/
theorem definition_reverts_iff (maxMosaicDuration : BlockDuration) (hindexed : cache.Indexed) (height : Height)
    (havailable : mosaicAvailability cache height notification = .success)
    (_hduration : mosaicDuration maxMosaicDuration cache notification = .success) :
    (Reverts cache height notification ∧
      ∀ definitions, ∃ cache', commitAll maxMosaicDuration cache definitions = some cache' ∧ ExpiryListed cache') ↔
    ∀ entry, cache.find notification.mosaicId = some entry → entry.definition.revision ≠ 0 := by
  rw [reverts_iff hindexed havailable]
  refine and_iff_left fun definitions => ?_
  obtain ⟨cache', hrun, hindexed'⟩ := commitAll_indexed maxMosaicDuration hindexed definitions
  exact ⟨cache', hrun, hindexed'.expiryListed⟩

end

def sampleToggle : MosaicDefinitionNotification Nat := ⟨1, 7, ⟨0, 1, 0⟩⟩

structure Toggled (revision : UInt32) (cache : MosaicCache Nat) : Prop where
  found : ∃ entry, cache.find 7 = some entry ∧ entry.definition.ownerAddress = 1 ∧
    entry.definition.properties.duration = 0 ∧ entry.supply = 0 ∧ entry.definition.revision = revision

theorem Toggled.accepted {revision : UInt32} {cache : MosaicCache Nat} (h : Toggled revision cache) :
    mosaicAvailability cache 1 sampleToggle = .success ∧ mosaicDuration 100 cache sampleToggle = .success := by
  obtain ⟨entry, hentry, howner, hduration, hsupply, -⟩ := h.found
  have hfound : cache.find sampleToggle.mosaicId = some entry := hentry
  refine ⟨?_, rfl⟩
  have howner' : entry.definition.ownerAddress = sampleToggle.owner := howner
  have hactive : entry.definition.isActive 1 = true := by
    simp [MosaicDefinition.isActive, MosaicDefinition.isEternal, hduration]
  have hchange : containsAnyPropertyChange entry.definition sampleToggle.properties = true := by
    simp [containsAnyPropertyChange, sampleToggle]
  simp [mosaicAvailability, tryGetActive, hfound, hactive, howner', hchange, hsupply]

theorem Toggled.observe {revision : UInt32} {cache : MosaicCache Nat} (h : Toggled revision cache) :
    ∃ cache', observeMosaicDefinition .commit 1 cache sampleToggle = some cache' ∧ Toggled (revision + 1) cache' := by
  obtain ⟨cache', hobserve, hfind⟩ := observe_find .commit 1 cache sampleToggle
  obtain ⟨entry, hentry, howner, hduration, hsupply, rfl⟩ := h.found
  have hfound : cache.find sampleToggle.mosaicId = some entry := hentry
  refine ⟨cache', hobserve, applyNotification entry sampleToggle .commit, ?_, rfl, ?_, rfl, rfl⟩
  · rw [hfind, hfound]
    rfl
  · simp [applyNotification, mergeProperties, hduration, sampleToggle]

theorem commitAll_toggled (n : Nat) :
    ∃ cache, commitAll 100 .empty (List.replicate (n + 1) (1, sampleToggle)) = some cache ∧
      cache.Indexed ∧ Toggled (UInt32.ofNat (n + 1)) cache := by
  induction n with
  | zero =>
    obtain ⟨cache, hobserve, hfind⟩ := observe_find .commit 1 (.empty : MosaicCache Nat) sampleToggle
    refine ⟨cache, ?_, observe_indexed MosaicCache.indexed_empty hobserve,
      ⟨⟨7, ⟨1, 1, 1, ⟨0, 1, 0⟩⟩, 0⟩, ?_, rfl, rfl, rfl, rfl⟩⟩
    · rw [List.replicate_succ, List.replicate_zero, commitAll, List.foldlM_cons, if_pos ⟨rfl, rfl⟩, hobserve]
      rfl
    · rw [hfind]
      rfl
  | succ n ih =>
    obtain ⟨cache, hrun, hindexed, htoggled⟩ := ih
    obtain ⟨next, hobserve, hnext⟩ := htoggled.observe
    refine ⟨next, ?_, observe_indexed hindexed hobserve, ?_⟩
    · rw [commitAll] at hrun
      rw [List.replicate_succ', commitAll, List.foldlM_append, hrun]
      simp only [Option.bind_eq_bind, Option.bind_some, List.foldlM_cons, List.foldlM_nil, if_pos htoggled.accepted,
        hobserve]
      rfl
    · rw [UInt32.ofNat_add]
      exact hnext

/-- After 2 ^ 32 definitions of one mosaic its revision is zero, and a rollback of the next one deletes it. -/
theorem not_reverts_sample :
    ∃ cache : MosaicCache Nat, commitAll 100 .empty (List.replicate (2 ^ 32) (1, sampleToggle)) = some cache ∧
      mosaicAvailability cache 1 sampleToggle = .success ∧ mosaicDuration 100 cache sampleToggle = .success ∧
      ¬Reverts cache 1 sampleToggle := by
  obtain ⟨cache, hrun, hindexed, htoggled⟩ := commitAll_toggled (2 ^ 32 - 1)
  obtain ⟨havailable, hduration⟩ := htoggled.accepted
  refine ⟨cache, hrun, havailable, hduration, ?_⟩
  rw [reverts_iff hindexed havailable]
  obtain ⟨entry, hentry, -, -, -, hrevision⟩ := htoggled.found
  exact fun hnonzero => hnonzero entry hentry (hrevision.trans rfl)

/-- The first definition of a mosaic, and a modification of it. -/
theorem definition_reverts_sample :
    Reverts (.empty : MosaicCache Nat) 1 sampleToggle ∧
      ∃ cache : MosaicCache Nat, commitAll 100 .empty [(1, sampleToggle)] = some cache ∧ Reverts cache 1 sampleToggle ∧
        ∃ cache', commitAll 100 cache [(1, sampleToggle), (2, sampleToggle)] = some cache' ∧ ExpiryListed cache' := by
  obtain ⟨cache, hrun, hindexed, htoggled⟩ := commitAll_toggled 0
  obtain ⟨havailable, hduration⟩ := htoggled.accepted
  obtain ⟨entry, hentry, -, -, -, hrevision⟩ := htoggled.found
  have hmodified := (definition_reverts_iff 100 hindexed 1 havailable hduration).mpr fun entry' hentry' => by
    cases hentry.symm.trans hentry'
    rw [hrevision]
    decide
  refine ⟨((definition_reverts_iff 100 MosaicCache.indexed_empty 1 (by decide) (by decide)).mpr ?_).1,
    cache, hrun, hmodified.1, hmodified.2 _⟩
  intro entry' hentry'
  cases hentry'

end Catapult.Mosaic
