import Catapult.Lib.Bytes
import Catapult.Namespaces.Rollback

/-!
# Registrations of namespaces (`RootNamespaceObserver`, `ChildNamespaceObserver`)

A root that is renewed while it is active ends later by the duration of the renewal, and every other root ends after
the height at which it is registered. An id is generated from the id of the parent and a name.

`Registered` are the caches after runs of registrations, where the ids that are generated in the run do not collide.
They are reached by the observers in the sense of `ReachableAbove`.
-/

namespace Catapult.Namespaces
open Cache

def maxHeight : Nat := 2 ^ 64 - 1

def eternalArtifactDuration : Nat := 0

def addDuration (height duration : Nat) : Nat := (height + duration) % 2 ^ 64

namespace NamespaceLifetime

def addGracePeriod (endHeight gracePeriodDuration : Nat) : Nat :=
  if endHeight ≠ maxHeight then addDuration endHeight gracePeriodDuration else endHeight

/-- The constructor with a grace period; `none` when it throws. -/
def create (startHeight endHeight gracePeriodDuration : Nat) : Option NamespaceLifetime :=
  if hlt : startHeight < endHeight then
    if hle : endHeight ≤ addGracePeriod endHeight gracePeriodDuration then
      some ⟨startHeight, addGracePeriod endHeight gracePeriodDuration, Nat.lt_of_lt_of_le hlt hle⟩
    else none
  else none

/-- `none` when the grace period is longer than the lifetime. -/
def isActiveExcludingGracePeriod (lifetime : NamespaceLifetime) (height gracePeriodDuration : Nat) : Option Bool :=
  if gracePeriodDuration ≥ lifetime.endHeight - lifetime.startHeight then none
  else some (decide (lifetime.startHeight ≤ height) && decide (height < lifetime.endHeight - gracePeriodDuration))

theorem of_create {startHeight endHeight gracePeriodDuration : Nat} {lifetime : NamespaceLifetime}
    (hcreate : create startHeight endHeight gracePeriodDuration = some lifetime) :
    lifetime.startHeight = startHeight ∧ endHeight ≤ lifetime.endHeight := by
  rw [create] at hcreate
  split at hcreate
  · split at hcreate
    · rename_i hle
      cases hcreate
      exact ⟨rfl, hle⟩
    · cases hcreate
  · cases hcreate

end NamespaceLifetime

structure NamespaceConfiguration where
  maxNameSize : Nat
  minDuration : Nat
  maxDuration : Nat
  gracePeriodDuration : Nat
  maxNamespaceDepth : Nat
  maxChildNamespaces : Nat

/-- `NamespaceLifetimeConstraints`: the greatest duration together with the grace period. -/
def NamespaceConfiguration.maxNamespaceDuration (config : NamespaceConfiguration) : Nat :=
  addDuration config.maxDuration config.gracePeriodDuration

structure NamespaceNameNotification where
  namespaceId : NamespaceId
  parentId : NamespaceId
  name : List UInt8

structure RootNamespaceNotification (Address : Type) where
  owner : Address
  namespaceId : NamespaceId
  duration : Nat
  duration_lt : duration < 2 ^ 64

structure ChildNamespaceNotification (Address : Type) where
  owner : Address
  namespaceId : NamespaceId
  parentId : NamespaceId

/-- `NamespaceEntry`, with the children of the root. -/
structure NamespaceEntry (Address : Type) where
  ns : Namespace
  root : RootNamespace Address
  children : Children Address

inductive RegistrationResult where
  | success
  | failureInvalidName
  | failureNameIdMismatch
  | failureInvalidDuration
  | failureEternalAfterNemesisBlock
  | failureOwnerConflict
  | failureAlreadyExists
  | failureUnknownParent
  | failureTooDeep
  | failureExpired
  | failureMaxChildrenExceeded
  deriving DecidableEq

def isAlphaNumeric (ch : UInt8) : Bool :=
  (decide (97 ≤ ch) && decide (ch ≤ 122)) || (decide (48 ≤ ch) && decide (ch ≤ 57))

def isValidChar (ch : UInt8) : Bool := isAlphaNumeric ch || decide (ch = 45) || decide (ch = 95)

def isValidName : List UInt8 → Bool
  | [] => false
  | ch :: name => isAlphaNumeric ch && name.all isValidChar

def namespaceFlag : UInt64 := (1 : UInt64) <<< 63

/-- The id of a name below a parent; `sha3` gives the first eight bytes of the hash. -/
def generateNamespaceId (sha3 : List UInt8 → UInt64) (parentId : NamespaceId) (name : List UInt8) : NamespaceId :=
  (sha3 (leBytes 8 parentId ++ name) ||| namespaceFlag).toNat

section Model
variable {Address : Type} [DecidableEq Address] (config : NamespaceConfiguration) (sha3 : List UInt8 → UInt64)
  (cache : NamespaceCacheDelta Address) (height : Nat)

def NamespaceCacheDelta.find (id : NamespaceId) : Option (NamespaceEntry Address) := do
  let ns ← cache.namespaceById.find? id
  let h ← cache.historyById.find? ns.rootId
  return ⟨ns, h.back, h.activeChildren⟩

def validateNamespaceName (notification : NamespaceNameNotification) : RegistrationResult :=
  if config.maxNameSize < notification.name.length ∨ !isValidName notification.name then .failureInvalidName
  else if notification.namespaceId ≠ generateNamespaceId sha3 notification.parentId notification.name then
    .failureNameIdMismatch
  else .success

def validateRootNamespace (notification : RootNamespaceNotification Address) : RegistrationResult :=
  if eternalArtifactDuration ≠ notification.duration ∧
      ¬(config.minDuration ≤ notification.duration ∧ notification.duration ≤ config.maxDuration) then
    .failureInvalidDuration
  else .success

def validateRootNamespaceAvailability (notification : RootNamespaceNotification Address) : RegistrationResult :=
  if 1 ≠ height ∧ eternalArtifactDuration = notification.duration then .failureEternalAfterNemesisBlock
  else
    match cache.find notification.namespaceId with
    | none => .success
    | some entry =>
      if maxHeight = entry.root.lifetime.endHeight ∨ eternalArtifactDuration = notification.duration then
        .failureInvalidDuration
      else if !entry.root.lifetime.isActive height then .success
      else if entry.root.ownerAddress = notification.owner then .success
      else .failureOwnerConflict

def addOverflows (height duration : Nat) : Bool := decide (addDuration height duration < height)

def calculateMaxLifetimeEnd (height duration : Nat) : Nat :=
  if addOverflows height duration then maxHeight else addDuration height duration

def validateNamespaceDurationOverflow (notification : RootNamespaceNotification Address) : RegistrationResult :=
  if addOverflows height notification.duration then .failureInvalidDuration
  else
    match cache.find notification.namespaceId with
    | none => .success
    | some entry =>
      if !entry.root.lifetime.isActive height then .success
      else if addOverflows entry.root.lifetime.endHeight notification.duration then .failureInvalidDuration
      else if addDuration entry.root.lifetime.endHeight notification.duration >
          calculateMaxLifetimeEnd height config.maxNamespaceDuration then
        .failureInvalidDuration
      else .success

/-- `ChildNamespaceAvailabilityValidator`; `none` when it throws. -/
def validateChildNamespaceAvailability (notification : ChildNamespaceNotification Address) :
    Option RegistrationResult :=
  if (cache.namespaceById.find? notification.namespaceId).isSome then some .failureAlreadyExists
  else
    match cache.find notification.parentId with
    | none => some .failureUnknownParent
    | some parentEntry =>
      if config.maxNamespaceDepth = parentEntry.ns.path.length then some .failureTooDeep
      else
        (parentEntry.root.lifetime.isActiveExcludingGracePeriod height config.gracePeriodDuration).map fun isActive =>
          if !isActive then .failureExpired
          else if parentEntry.root.ownerAddress ≠ notification.owner then .failureOwnerConflict
          else .success

/-- `RootNamespaceMaxChildrenValidator`; `none` when the parent is unknown. -/
def validateRootNamespaceMaxChildren (notification : ChildNamespaceNotification Address) : Option RegistrationResult :=
  (cache.find notification.parentId).map fun parentEntry =>
    if config.maxChildNamespaces ≤ parentEntry.children.size then .failureMaxChildrenExceeded else .success

def isRenewal (root : RootNamespace Address) (notification : RootNamespaceNotification Address) : Bool :=
  root.lifetime.isActive height && decide (root.ownerAddress = notification.owner)

def calculateNewLifetime (notification : RootNamespaceNotification Address) : Option NamespaceLifetime :=
  NamespaceLifetime.create height
    (if eternalArtifactDuration = notification.duration then maxHeight else addDuration height notification.duration)
    config.gracePeriodDuration

/-- The lifetime of a root; `none` when a constructor throws. -/
def calculateLifetime (notification : RootNamespaceNotification Address) : Option NamespaceLifetime := do
  let newLifetime ← calculateNewLifetime config height notification
  match cache.find notification.namespaceId with
  | none => return newLifetime
  | some entry =>
    if !isRenewal height entry.root notification then return newLifetime
    else
      NamespaceLifetime.create entry.root.lifetime.startHeight
        (addDuration entry.root.lifetime.endHeight notification.duration) 0

def registeredRoot (notification : RootNamespaceNotification Address) : Option (RootNamespace Address) :=
  (calculateLifetime config cache height notification).map fun lifetime =>
    ⟨notification.namespaceId, notification.owner, lifetime, .none⟩

def registeredChild (notification : ChildNamespaceNotification Address) : Option Namespace :=
  (cache.find notification.parentId).map fun parentEntry => parentEntry.ns.createChild notification.namespaceId

structure ValidRoot (notification : RootNamespaceNotification Address) (name : List UInt8) : Prop where
  name : validateNamespaceName config sha3 ⟨notification.namespaceId, namespaceBaseId, name⟩ = .success
  duration : validateRootNamespace config notification = .success
  available : validateRootNamespaceAvailability cache height notification = .success
  overflow : validateNamespaceDurationOverflow config cache height notification = .success

structure ValidChild (notification : ChildNamespaceNotification Address) (name : List UInt8) : Prop where
  name : validateNamespaceName config sha3 ⟨notification.namespaceId, notification.parentId, name⟩ = .success
  available : validateChildNamespaceAvailability config cache height notification = some .success
  maxChildren : validateRootNamespaceMaxChildren config cache notification = some .success

end Model

section Generated
variable (sha3 : List UInt8 → UInt64) (used : NamespaceId → List UInt8 → Prop)

/-- No two of the parents and names that are used give the same id, but for names below one parent. -/
def CollisionFree : Prop :=
  ∀ parentId name parentId' name', used parentId name → used parentId' name' →
    generateNamespaceId sha3 parentId name = generateNamespaceId sha3 parentId' name' → parentId = parentId'

inductive Generated : Namespace → Prop
  | root (name : List UInt8) (hused : used namespaceBaseId name) :
    Generated (.ofId (generateNamespaceId sha3 namespaceBaseId name))
  | child {parent : Namespace} (h : Generated parent) (name : List UInt8) (hused : used parent.id name) :
    Generated (parent.createChild (generateNamespaceId sha3 parent.id name))

variable {sha3 used} {ns ns' : Namespace}

theorem generateNamespaceId_ne_base (parentId : NamespaceId) (name : List UInt8) :
    generateNamespaceId sha3 parentId name ≠ namespaceBaseId := by
  intro heq
  have hor : sha3 (leBytes 8 parentId ++ name) ||| namespaceFlag = 0 := UInt64.toNat_inj.1 heq
  have hflag : namespaceFlag = 0 := (UInt64.or_eq_zero_iff.1 hor).2
  cases hflag

theorem Generated.id_ne_base (h : Generated sha3 used ns) : ns.id ≠ namespaceBaseId := by
  cases h with
  | root name => exact generateNamespaceId_ne_base _ _
  | child h name =>
    rw [NamespaceCacheDelta.id_createChild]
    exact generateNamespaceId_ne_base _ _

theorem Generated.eq_of_id (hfree : CollisionFree sha3 used) (h : Generated sha3 used ns) (h' : Generated sha3 used ns')
    (hid : ns.id = ns'.id) : ns = ns' := by
  induction h generalizing ns' with
  | root name hused =>
    cases h' with
    | root name' => exact congrArg _ hid
    | child hparent name' hused' =>
      rw [NamespaceCacheDelta.id_createChild] at hid
      exact absurd (hfree _ _ _ _ hused hused' hid).symm hparent.id_ne_base
  | child hparent name hused ih =>
    rw [NamespaceCacheDelta.id_createChild] at hid
    cases h' with
    | root name' hused' => exact absurd (hfree _ _ _ _ hused hused' hid) hparent.id_ne_base
    | child hparent' name' hused' =>
      rw [NamespaceCacheDelta.id_createChild] at hid
      obtain rfl := ih hparent' (hfree _ _ _ _ hused hused' hid)
      rw [hid]

end Generated

namespace NamespaceCacheDelta
variable {Address : Type} [DecidableEq Address] {config : NamespaceConfiguration} {sha3 : List UInt8 → UInt64}
  {used : NamespaceId → List UInt8 → Prop} {cache cache' : NamespaceCacheDelta Address}
  {h h' : RootNamespaceHistory Address} {o : Option (RootNamespaceHistory Address)} {id rootId : NamespaceId}
  {height pruned : Nat} {P : NamespaceLifetime → Prop}

def AllLifetimes (P : NamespaceLifetime → Prop) (cache : NamespaceCacheDelta Address) : Prop :=
  ∀ id h, cache.historyById.find? id = some h → ∀ root ∈ h.roots, P root.lifetime

theorem AllLifetimes.insertRoot (hall : AllLifetimes P cache) (hc : cache.Coherent) {ns : RootNamespace Address}
    (hlifetime : P ns.lifetime) : AllLifetimes P (Operation.apply cache (.insertRoot ns)) := by
  refine forall_history_insertRoot hall hc ns (fun root hroot => ?_) fun h hh root hroot => ?_
  · rw [List.mem_singleton.1 hroot]
    exact hlifetime
  · obtain ⟨new, hnew, hroots⟩ := RootNamespaceHistory.exists_roots_pushBack h ns.ownerAddress ns.lifetime
    rw [hroots] at hroot
    rcases List.mem_cons.1 hroot with rfl | hroot
    · rwa [hnew]
    · exact hh root hroot

theorem AllLifetimes.insertChild (hall : AllLifetimes P cache) (hc : cache.Coherent) {ns : Namespace}
    (hadmissible : cache.Admissible (.insertChild ns)) :
    AllLifetimes P (Operation.apply cache (.insertChild ns)) :=
  forall_history_insertChild hall hc hadmissible fun _ hh => hh

theorem AllLifetimes.setAlias (hall : AllLifetimes P cache) (hc : cache.Coherent) (id : NamespaceId)
    (namespaceAlias : NamespaceAlias Address) :
    AllLifetimes P (Operation.apply cache (.setAlias id namespaceAlias)) := by
  refine forall_history_setAlias hall hc id namespaceAlias fun _ h last hsame hh root hroot => ?_
  rcases List.mem_cons.1 hroot with rfl | hroot
  · show P last.back.lifetime
    rw [hsame.lifetime]
    exact hh h.last.back List.mem_cons_self
  · refine hh root (List.mem_cons_of_mem _ ?_)
    change root ∈ last.previous ++ _ at hroot
    rwa [hsame.previous] at hroot

theorem AllLifetimes.prune (hall : AllLifetimes P cache) (hc : cache.Coherent) (finalizedHeight : Nat)
    (ids : List NamespaceId) : AllLifetimes P (Operation.apply cache (.prune finalizedHeight ids)) := by
  refine forall_history_prune hall hc finalizedHeight ids fun _ h h' hends hprune hh root hroot => ?_
  rw [(RootNamespaceHistory.kept_of_prune hends hprune).roots_eq] at hroot
  exact hh root (List.mem_filter.1 hroot).1

structure HistoryRegistered (sha3 : List UInt8 → UInt64) (used : NamespaceId → List UInt8 → Prop) (id : NamespaceId)
    (h : RootNamespaceHistory Address) : Prop where
  generated : Generated sha3 used (.ofId id)
  children : ∀ s ∈ h.groups, ∀ childId child, s.children.find? childId = some child → Generated sha3 used child.ns

def HistoriesRegistered (sha3 : List UInt8 → UInt64) (used : NamespaceId → List UInt8 → Prop)
    (cache : NamespaceCacheDelta Address) : Prop :=
  ∀ id h, cache.historyById.find? id = some h → HistoryRegistered sha3 used id h

section
omit [DecidableEq Address]

theorem HistoryRegistered.of_childrenFrom (hh : HistoryRegistered sha3 used id h) (hfrom : h'.ChildrenFrom h) :
    HistoryRegistered sha3 used id h' := by
  refine ⟨hh.generated, fun s hs childId child hchild => ?_⟩
  obtain ⟨t, ht, child', hchild', hns⟩ := hfrom s hs childId child hchild
  rw [← hns]
  exact hh.children t ht childId child' hchild'

theorem HistoryRegistered.insertChild {ns : Namespace} (hh : HistoryRegistered sha3 used id h)
    (hns : Generated sha3 used ns) :
    HistoryRegistered sha3 used id (withChildren h (h.activeChildren.insert ns.id { ns := ns })) := by
  refine ⟨hh.generated, fun s hs childId child hchild => ?_⟩
  rcases List.mem_cons.1 hs with rfl | hs
  · change (h.activeChildren.insert ns.id { ns := ns }).find? childId = some child at hchild
    rw [SortedMap.find?_insert] at hchild
    split at hchild
    · cases hchild
      exact hns
    · exact hh.children h.last List.mem_cons_self childId child hchild
  · exact hh.children s (List.mem_cons_of_mem _ hs) childId child hchild

end

section Validated
variable {notification : RootNamespaceNotification Address} {childNotification : ChildNamespaceNotification Address}
  {name : List UInt8}

theorem namespaceId_of_success {n : NamespaceNameNotification} (h : validateNamespaceName config sha3 n = .success) :
    n.namespaceId = generateNamespaceId sha3 n.parentId n.name := by
  rw [validateNamespaceName] at h
  split at h
  · cases h
  · split at h
    · cases h
    · rename_i heq
      exact not_ne_iff.1 heq

theorem Coherent.rootId_eq_of_hasChild (hc : cache.Coherent) (hall : HistoriesRegistered sha3 used cache)
    (hfree : CollisionFree sha3 used) {ns : Namespace} (hns : Generated sha3 used ns)
    (hfind : cache.historyById.find? rootId = some h) (hhas : h.HasChild ns.id) : rootId = ns.rootId := by
  obtain ⟨s, hs, hmem⟩ := RootNamespaceHistory.hasChild_iff.1 hhas
  obtain ⟨child, hchild⟩ := SortedMap.mem_keys_iff.1 hmem
  obtain ⟨hid, hroot⟩ := (hc.valid _ _ hfind).children s hs _ child hchild
  obtain rfl := Generated.eq_of_id hfree ((hall _ _ hfind).children s hs _ child hchild) hns hid
  rw [hroot, hc.id_eq _ _ hfind]

theorem Coherent.not_hasChild_of_generated (hc : cache.Coherent) (hall : HistoriesRegistered sha3 used cache)
    (hfree : CollisionFree sha3 used) (hid : Generated sha3 used (.ofId id))
    (hfind : cache.historyById.find? rootId = some h) : ¬h.HasChild id := by
  intro hhas
  have heq : rootId = id := hc.rootId_eq_of_hasChild hall hfree hid hfind hhas
  subst heq
  exact hc.not_hasChild_root hfind hfind hhas

theorem Coherent.generated_of_find (hc : cache.Coherent) (hall : HistoriesRegistered sha3 used cache)
    {ns : Namespace} (hns : cache.namespaceById.find? id = some ns) : Generated sha3 used ns ∧ ns.id = id := by
  obtain ⟨rootId, h, hfind, hnamespaces⟩ := (hc.namespaces _ _).1 hns
  rw [RootNamespaceHistory.find?_namespaces, hc.id_eq _ _ hfind] at hnamespaces
  split at hnamespaces
  · rename_i heq
    cases hnamespaces
    exact ⟨(hall _ _ hfind).generated, heq.symm⟩
  · obtain ⟨child, hchild, rfl⟩ := Option.map_eq_some_iff.1 hnamespaces
    exact ⟨(hall _ _ hfind).children h.last List.mem_cons_self id child hchild,
      ((hc.valid _ _ hfind).children h.last List.mem_cons_self id child hchild).1⟩

theorem Coherent.find_of_history (hc : cache.Coherent) (hfind : cache.historyById.find? id = some h) :
    cache.find id = some ⟨.ofId id, h.back, h.activeChildren⟩ := by
  simp [find, hc.find_root hfind, hfind]

theorem Coherent.find_of_none (hc : cache.Coherent) (hall : HistoriesRegistered sha3 used cache)
    (hfree : CollisionFree sha3 used) (hid : Generated sha3 used (.ofId id))
    (hfind : cache.historyById.find? id = none) : cache.find id = none := by
  cases hns : cache.namespaceById.find? id with
  | none => simp [find, hns]
  | some ns =>
    obtain ⟨hgenerated, heq⟩ := hc.generated_of_find hall hns
    obtain rfl := hgenerated.eq_of_id hfree hid heq
    simp [find, hns, hfind]

theorem startHeight_of_calculateLifetime {lifetime : NamespaceLifetime}
    (hlifetime : calculateLifetime config cache height notification = some lifetime) :
    (lifetime.startHeight = height ∧ height < lifetime.endHeight ∧
      ∀ entry, cache.find notification.namespaceId = some entry → isRenewal height entry.root notification = false) ∨
    ∃ entry, cache.find notification.namespaceId = some entry ∧ isRenewal height entry.root notification = true ∧
      lifetime.startHeight = entry.root.lifetime.startHeight ∧
      addDuration entry.root.lifetime.endHeight notification.duration ≤ lifetime.endHeight := by
  rw [calculateLifetime, Option.bind_eq_bind, Option.bind_eq_some_iff] at hlifetime
  obtain ⟨newLifetime, hnew, hlifetime⟩ := hlifetime
  have hstart := (NamespaceLifetime.of_create hnew).1
  have hend : height < newLifetime.endHeight := hstart ▸ newLifetime.start_lt_end
  cases hentry : cache.find notification.namespaceId with
  | none =>
    rw [hentry] at hlifetime
    cases hlifetime
    exact .inl ⟨hstart, hend, nofun⟩
  | some entry =>
    rw [hentry] at hlifetime
    dsimp only at hlifetime
    split at hlifetime
    · rename_i hrenewal
      cases hlifetime
      refine .inl ⟨hstart, hend, ?_⟩
      rintro _ ⟨rfl⟩
      simpa using hrenewal
    · rename_i hrenewal
      rcases NamespaceLifetime.of_create hlifetime with ⟨hstart, hend⟩
      exact .inr ⟨entry, rfl, by simpa using hrenewal, hstart, hend⟩

theorem of_available {entry : NamespaceEntry Address} (hentry : cache.find notification.namespaceId = some entry)
    (havailable : validateRootNamespaceAvailability cache height notification = .success) :
    notification.duration ≠ eternalArtifactDuration ∧
    (entry.root.lifetime.isActive height = true → entry.root.ownerAddress = notification.owner) := by
  rw [validateRootNamespaceAvailability] at havailable
  split at havailable
  · cases havailable
  rw [hentry] at havailable
  dsimp only at havailable
  split at havailable
  · cases havailable
  rename_i hduration
  refine ⟨fun heq => hduration (.inr heq.symm), fun hactive => ?_⟩
  rw [hactive] at havailable
  simp only [Bool.not_true, Bool.false_eq_true, if_false] at havailable
  split at havailable
  · assumption
  · cases havailable

omit [DecidableEq Address] in
theorem not_addOverflows_of_success {entry : NamespaceEntry Address}
    (hentry : cache.find notification.namespaceId = some entry) (hactive : entry.root.lifetime.isActive height = true)
    (hoverflow : validateNamespaceDurationOverflow config cache height notification = .success) :
    addOverflows entry.root.lifetime.endHeight notification.duration = false := by
  rw [validateNamespaceDurationOverflow] at hoverflow
  split at hoverflow
  · cases hoverflow
  rw [hentry] at hoverflow
  simp only [hactive, Bool.not_true, Bool.false_eq_true, if_false] at hoverflow
  split at hoverflow
  · cases hoverflow
  · rename_i hnot
    exact eq_false_of_ne_true hnot

theorem lt_addDuration {last duration : Nat} (hlt : duration < 2 ^ 64) (hpos : duration ≠ eternalArtifactDuration)
    (hnot : addOverflows last duration = false) : last < addDuration last duration := by
  rw [addOverflows, decide_eq_false_iff_not] at hnot
  rw [addDuration] at hnot ⊢
  rw [eternalArtifactDuration] at hpos
  omega

theorem Coherent.ends_after_of_valid (hc : cache.Coherent) (hall : HistoriesRegistered sha3 used cache)
    (hstarted : AllLifetimes (·.startHeight ≤ height) cache)
    (hfree : CollisionFree sha3 used) (hid : Generated sha3 used (.ofId notification.namespaceId))
    (hvalid : ValidRoot config sha3 cache height notification name) {lifetime : NamespaceLifetime}
    (hlifetime : calculateLifetime config cache height notification = some lifetime) :
    lifetime.startHeight ≤ height ∧ height < lifetime.endHeight ∧
    ∀ h, cache.historyById.find? notification.namespaceId = some h →
      h.back.lifetime.endHeight < lifetime.endHeight := by
  rcases startHeight_of_calculateLifetime hlifetime with ⟨hstart, hend, hnot⟩ | ⟨entry, hentry, hrenewal, hstart, hend⟩
  · refine ⟨Nat.le_of_eq hstart, hend, fun h hfind => ?_⟩
    have hentry := hc.find_of_history hfind
    have hstarted := hstarted _ _ hfind h.back List.mem_cons_self
    -- the root is not active: its owner would have renewed it
    have hrenewal := hnot _ hentry
    have howner := (of_available hentry hvalid.available).2
    rw [isRenewal, Bool.and_eq_false_iff] at hrenewal
    have hactive : h.back.lifetime.isActive height = false := by
      by_contra hactive
      rw [Bool.not_eq_false] at hactive
      rcases hrenewal with hrenewal | hrenewal
      · simp [hactive] at hrenewal
      · exact (decide_eq_false_iff_not.1 hrenewal) (howner hactive)
    simp only [NamespaceLifetime.isActive, hstarted, decide_true, Bool.true_and, decide_eq_false_iff_not] at hactive
    omega
  · cases hfind : cache.historyById.find? notification.namespaceId with
    | none =>
      rw [hc.find_of_none hall hfree hid hfind] at hentry
      cases hentry
    | some h =>
      obtain rfl := Option.some.inj ((hc.find_of_history hfind).symm.trans hentry)
      have hstarted := hstarted _ _ hfind h.back List.mem_cons_self
      rw [isRenewal, Bool.and_eq_true] at hrenewal
      have hlt := lt_addDuration notification.duration_lt (of_available hentry hvalid.available).1
        (not_addOverflows_of_success hentry hrenewal.1 hvalid.overflow)
      have hactive := hrenewal.1
      simp only [NamespaceLifetime.isActive, Bool.and_eq_true, decide_eq_true_eq] at hactive
      simp only at hstart hend hlt hactive
      refine ⟨by omega, by omega, ?_⟩
      rintro _ ⟨rfl⟩
      omega

theorem Sound.admissible_root (hs : cache.Sound pruned) (hall : HistoriesRegistered sha3 used cache)
    (hstarted : AllLifetimes (·.startHeight ≤ height) cache)
    (hfree : CollisionFree sha3 used) (hused : used namespaceBaseId name)
    (hvalid : ValidRoot config sha3 cache height notification name) (hle : pruned ≤ height)
    {ns : RootNamespace Address} (hns : registeredRoot config cache height notification = some ns) :
    ns.id = notification.namespaceId ∧ Generated sha3 used (.ofId ns.id) ∧ ns.lifetime.startHeight ≤ height ∧
    cache.Admissible (.insertRoot ns) ∧ cache.Registers pruned (.insertRoot ns) := by
  obtain ⟨lifetime, hlifetime, rfl⟩ := Option.map_eq_some_iff.1 hns
  have hid : Generated sha3 used (.ofId notification.namespaceId) := by
    rw [show notification.namespaceId = _ from namespaceId_of_success hvalid.name]
    exact .root name hused
  obtain ⟨hstart, hend, hhistory⟩ := hs.coherent.ends_after_of_valid hall hstarted hfree hid hvalid hlifetime
  refine ⟨rfl, hid, hstart, ⟨hhistory, fun rootId h hfind => ?_⟩, Nat.lt_of_le_of_lt hle hend⟩
  exact hs.coherent.not_hasChild_of_generated hall hfree hid hfind

theorem Sound.admissible_child (hs : cache.Sound pruned) (hall : HistoriesRegistered sha3 used cache)
    (hfree : CollisionFree sha3 used) (hused : used childNotification.parentId name)
    (hvalid : ValidChild config sha3 cache height childNotification name)
    {ns : Namespace} (hns : registeredChild cache childNotification = some ns) :
    ns.id = childNotification.namespaceId ∧ Generated sha3 used ns ∧
    cache.Admissible (.insertChild ns) ∧ cache.Registers pruned (.insertChild ns) ∧
    cache.namespaceById.find? ns.id = none ∧ ∃ h, cache.historyById.find? ns.rootId = some h := by
  obtain ⟨entry, hentry, rfl⟩ := Option.map_eq_some_iff.1 hns
  rw [find, Option.bind_eq_bind, Option.bind_eq_some_iff] at hentry
  obtain ⟨parent, hparent, hentry⟩ := hentry
  rw [Option.bind_eq_bind, Option.bind_eq_some_iff] at hentry
  obtain ⟨h, hfind, hentry⟩ := hentry
  cases hentry
  obtain ⟨hgenerated, hparentId⟩ := hs.coherent.generated_of_find hall hparent
  have hid := namespaceId_of_success hvalid.name
  simp only at hid
  have hns : Generated sha3 used (parent.createChild childNotification.namespaceId) := by
    rw [hid, ← hparentId]
    exact hgenerated.child name (hparentId ▸ hused)
  have hnew : cache.namespaceById.find? childNotification.namespaceId = none := by
    have havailable := hvalid.available
    rw [validateChildNamespaceAvailability] at havailable
    split at havailable
    · cases havailable
    · rename_i hnot
      exact Option.not_isSome_iff_eq_none.1 hnot
  have hroot : cache.historyById.find? childNotification.namespaceId = none := by
    by_contra hroot
    obtain ⟨h, hroot⟩ := Option.ne_none_iff_exists'.1 hroot
    rw [hs.coherent.find_root hroot] at hnew
    cases hnew
  have hown : cache.Admissible (.insertChild (parent.createChild childNotification.namespaceId)) := by
    refine ⟨by rwa [id_createChild], fun rootId h hfind hhas => ?_⟩
    exact hs.coherent.rootId_eq_of_hasChild hall hfree hns hfind hhas
  refine ⟨id_createChild _ _, hns, hown, ⟨_, parent, hparent, by rw [id_createChild]⟩, by rwa [id_createChild], h, ?_⟩
  rwa [rootId_createChild]

end Validated

/-- The caches after registrations that pass all validators, with the height and the greatest height that was pruned.
Only heights of the chain are pruned, and the nemesis block has the first height. -/
inductive Registered (config : NamespaceConfiguration) (sha3 : List UInt8 → UInt64)
    (used : NamespaceId → List UInt8 → Prop) : Nat → Nat → NamespaceCacheDelta Address → Prop
  | nemesis : Registered config sha3 used 1 0 empty
  | nextBlock {height pruned : Nat} {cache : NamespaceCacheDelta Address}
    (h : Registered config sha3 used height pruned cache) : Registered config sha3 used (height + 1) pruned cache
  | root {height pruned : Nat} {cache : NamespaceCacheDelta Address}
    (h : Registered config sha3 used height pruned cache) (notification : RootNamespaceNotification Address)
    (name : List UInt8) (hused : used namespaceBaseId name)
    (hvalid : ValidRoot config sha3 cache height notification name) (ns : RootNamespace Address)
    (hns : registeredRoot config cache height notification = some ns) :
    Registered config sha3 used height pruned (Operation.apply cache (.insertRoot ns))
  | child {height pruned : Nat} {cache : NamespaceCacheDelta Address}
    (h : Registered config sha3 used height pruned cache) (notification : ChildNamespaceNotification Address)
    (name : List UInt8) (hused : used notification.parentId name)
    (hvalid : ValidChild config sha3 cache height notification name) (ns : Namespace)
    (hns : registeredChild cache notification = some ns) :
    Registered config sha3 used height pruned (Operation.apply cache (.insertChild ns))
  | setAlias {height pruned : Nat} {cache : NamespaceCacheDelta Address}
    (h : Registered config sha3 used height pruned cache) (id : NamespaceId) (namespaceAlias : NamespaceAlias Address) :
    Registered config sha3 used height pruned (Operation.apply cache (.setAlias id namespaceAlias))
  | prune {height pruned : Nat} {cache : NamespaceCacheDelta Address}
    (h : Registered config sha3 used height pruned cache) (finalizedHeight : Nat) (ids : List NamespaceId)
    (hle : finalizedHeight ≤ height) (hids : cache.Admissible (.prune finalizedHeight ids)) :
    Registered config sha3 used height (max pruned finalizedHeight) (Operation.apply cache (.prune finalizedHeight ids))
  | copy {height pruned : Nat} {cache : NamespaceCacheDelta Address}
    (h : Registered config sha3 used height pruned cache) (id : NamespaceId) :
    Registered config sha3 used height pruned (Operation.apply cache (.copy id))

theorem HistoriesRegistered.insertRoot (hall : HistoriesRegistered sha3 used cache) (hc : cache.Coherent)
    {ns : RootNamespace Address} (hid : Generated sha3 used (.ofId ns.id)) :
    HistoriesRegistered sha3 used (Operation.apply cache (.insertRoot ns)) := by
  refine forall_history_insertRoot hall hc ns ⟨hid, fun s hs childId child hchild => ?_⟩ fun h hh =>
    hh.of_childrenFrom (h.childrenFrom_pushBack _ _)
  rw [List.mem_singleton.1 hs] at hchild
  cases hchild

theorem HistoriesRegistered.insertChild (hall : HistoriesRegistered sha3 used cache) (hc : cache.Coherent)
    {ns : Namespace} (hns : Generated sha3 used ns) (hadmissible : cache.Admissible (.insertChild ns)) :
    HistoriesRegistered sha3 used (Operation.apply cache (.insertChild ns)) :=
  forall_history_insertChild hall hc hadmissible fun _ hh => hh.insertChild hns

theorem HistoriesRegistered.setAlias (hall : HistoriesRegistered sha3 used cache) (hc : cache.Coherent)
    (id : NamespaceId) (namespaceAlias : NamespaceAlias Address) :
    HistoriesRegistered sha3 used (Operation.apply cache (.setAlias id namespaceAlias)) :=
  forall_history_setAlias hall hc id namespaceAlias fun _ _ _ hsame hh =>
    hh.of_childrenFrom (RootNamespaceHistory.childrenFrom_withLast hsame)

theorem HistoriesRegistered.prune (hall : HistoriesRegistered sha3 used cache) (hc : cache.Coherent)
    (finalizedHeight : Nat) (ids : List NamespaceId) :
    HistoriesRegistered sha3 used (Operation.apply cache (.prune finalizedHeight ids)) :=
  forall_history_prune hall hc finalizedHeight ids fun _ _ _ hends hprune hh =>
    hh.of_childrenFrom (.of_groups (RootNamespaceHistory.kept_of_prune hends hprune).children_mem)

theorem Registered.reachableAbove (hfree : CollisionFree sha3 used)
    (hr : Registered config sha3 used height pruned cache) :
    ReachableAbove pruned cache ∧ HistoriesRegistered sha3 used cache ∧
      AllLifetimes (·.startHeight ≤ height) cache ∧ pruned ≤ height := by
  induction hr with
  | nemesis => exact ⟨.empty, fun _ _ hfind => (nomatch hfind), fun _ _ hfind => (nomatch hfind), Nat.zero_le _⟩
  | nextBlock _ ih =>
    obtain ⟨hreachable, hall, hstarted, hle⟩ := ih
    exact ⟨hreachable, hall, fun id h hfind root hroot => Nat.le_succ_of_le (hstarted id h hfind root hroot),
      Nat.le_succ_of_le hle⟩
  | root _ notification name hused hvalid ns hns ih =>
    obtain ⟨hreachable, hall, hstarted, hle⟩ := ih
    have hc := hreachable.sound.coherent
    obtain ⟨-, hid, hstart, hadmissible, hregisters⟩ :=
      hreachable.sound.admissible_root hall hstarted hfree hused hvalid hle hns
    exact ⟨hreachable.step _ hadmissible hregisters, hall.insertRoot hc hid, hstarted.insertRoot hc hstart, hle⟩
  | child _ notification name hused hvalid ns hns ih =>
    obtain ⟨hreachable, hall, hstarted, hle⟩ := ih
    have hc := hreachable.sound.coherent
    obtain ⟨-, hgenerated, hadmissible, hregisters, -⟩ := hreachable.sound.admissible_child hall hfree hused hvalid hns
    exact ⟨hreachable.step _ hadmissible hregisters, hall.insertChild hc hgenerated hadmissible,
      hstarted.insertChild hc hadmissible, hle⟩
  | setAlias _ id namespaceAlias ih =>
    obtain ⟨hreachable, hall, hstarted, hle⟩ := ih
    have hc := hreachable.sound.coherent
    exact ⟨hreachable.step (.setAlias id namespaceAlias) trivial trivial, hall.setAlias hc id namespaceAlias,
      hstarted.setAlias hc id namespaceAlias, hle⟩
  | prune _ finalizedHeight ids hfinalized hids ih =>
    obtain ⟨hreachable, hall, hstarted, hle⟩ := ih
    have hc := hreachable.sound.coherent
    exact ⟨hreachable.step _ hids trivial, hall.prune hc finalizedHeight ids, hstarted.prune hc finalizedHeight ids,
      Nat.max_le.2 ⟨hle, hfinalized⟩⟩
  | copy _ id ih =>
    obtain ⟨hreachable, hall, hstarted, hle⟩ := ih
    rw [Operation.apply, copyHistory_eq hreachable.sound.coherent]
    exact ⟨copyHistory_eq hreachable.sound.coherent id ▸ hreachable.step (.copy id) trivial trivial, hall, hstarted,
      hle⟩

end NamespaceCacheDelta
end Catapult.Namespaces
