import Catapult.Namespaces.Registration

/-!
# Lifetimes of registered namespaces

The validators of a root add its duration to the height, or to the end of the root that it renews, and reject it when
the sum overflows. The observer adds the grace period to the end of a new root as well, which no validator does.
Where that fits into a height (`FitsLifetime`), no constructor throws and every root outlasts the grace period.
-/

namespace Catapult.Namespaces
open Cache

def lifetimeEnd (height duration : Nat) : Nat :=
  if eternalArtifactDuration = duration then maxHeight else height + duration

/-- The grace period fits behind the end. At the greatest height there is none, but the lifetime is to be longer. -/
def FitsLifetime (gracePeriodDuration height duration : Nat) : Prop :=
  if lifetimeEnd height duration = maxHeight then gracePeriodDuration < maxHeight - height
  else lifetimeEnd height duration + gracePeriodDuration ≤ maxHeight

/-- The height at which `CacheBlockTouchObserver` touches the namespaces whose grace period starts. -/
def touchHeight (config : NamespaceConfiguration) (height : Nat) : Nat := addDuration height config.gracePeriodDuration

theorem addDuration_eq {height duration : Nat} (hheight : height ≤ maxHeight) (hduration : duration < 2 ^ 64)
    (hnot : addOverflows height duration = false) : addDuration height duration = height + duration := by
  rw [addOverflows, decide_eq_false_iff_not] at hnot
  rw [addDuration] at hnot ⊢
  rw [maxHeight] at hheight
  omega

theorem addDuration_of_le {height duration : Nat} (hle : height + duration ≤ maxHeight) :
    addDuration height duration = height + duration :=
  Nat.mod_eq_of_lt (by rw [maxHeight] at hle; omega)

namespace NamespaceLifetime
variable {gracePeriodDuration : Nat} {lifetime : NamespaceLifetime}

/-- A lifetime of 64 bit heights that is longer than the grace period. -/
structure Outlasts (gracePeriodDuration : Nat) (lifetime : NamespaceLifetime) : Prop where
  lt : gracePeriodDuration < lifetime.endHeight - lifetime.startHeight
  end_le : lifetime.endHeight ≤ maxHeight

theorem Outlasts.isActiveExcludingGracePeriod_eq (h : lifetime.Outlasts gracePeriodDuration) (height : Nat) :
    lifetime.isActiveExcludingGracePeriod height gracePeriodDuration =
      some (decide (lifetime.startHeight ≤ height) && decide (height + gracePeriodDuration < lifetime.endHeight)) := by
  have hlt := h.lt
  rw [isActiveExcludingGracePeriod, if_neg (Nat.not_le.2 hlt)]
  congr 3
  exact propext ⟨fun h => by omega, fun h => by omega⟩

theorem create_eq_some {startHeight endHeight finalHeight : Nat} (hlt : startHeight < endHeight)
    (hgrace : addGracePeriod endHeight gracePeriodDuration = finalHeight) (hle : endHeight ≤ finalHeight) :
    ∃ lifetime, create startHeight endHeight gracePeriodDuration = some lifetime ∧
      lifetime.startHeight = startHeight ∧ lifetime.endHeight = finalHeight := by
  subst hgrace
  exact ⟨_, by rw [create, dif_pos hlt, dif_pos hle], rfl, rfl⟩

theorem lt_lifetimeEnd_of_fits {height duration : Nat} (hfits : FitsLifetime gracePeriodDuration height duration) :
    height < lifetimeEnd height duration := by
  rw [FitsLifetime] at hfits
  split at hfits
  · case isTrue hmax => omega
  · case isFalse hnot =>
    have hduration : eternalArtifactDuration ≠ duration := fun heq => hnot (if_pos heq)
    rw [lifetimeEnd, if_neg hduration]
    rw [eternalArtifactDuration] at hduration
    omega

theorem create_of_fits {height duration : Nat} (hfits : FitsLifetime gracePeriodDuration height duration) :
    ∃ lifetime, create height (lifetimeEnd height duration) gracePeriodDuration = some lifetime ∧
      lifetime.Outlasts gracePeriodDuration := by
  have hlt := lt_lifetimeEnd_of_fits hfits
  rw [FitsLifetime] at hfits
  split at hfits
  · case isTrue hmax =>
    have hgrace : addGracePeriod (lifetimeEnd height duration) gracePeriodDuration = maxHeight :=
      (if_neg (not_not_intro hmax)).trans hmax
    obtain ⟨lifetime, hcreate, hstart, hend⟩ := create_eq_some hlt hgrace (Nat.le_of_eq hmax)
    exact ⟨lifetime, hcreate, by rwa [hstart, hend], Nat.le_of_eq hend⟩
  · case isFalse hnot =>
    have hgrace : addGracePeriod (lifetimeEnd height duration) gracePeriodDuration = _ :=
      (if_pos hnot).trans (addDuration_of_le hfits)
    obtain ⟨lifetime, hcreate, hstart, hend⟩ := create_eq_some hlt hgrace (Nat.le_add_right _ _)
    exact ⟨lifetime, hcreate, by omega, hend.trans_le hfits⟩

theorem Outlasts.create_of_renewal (h : lifetime.Outlasts gracePeriodDuration) {duration : Nat}
    (hle : lifetime.endHeight + duration ≤ maxHeight) : ∃ renewed,
      create lifetime.startHeight (addDuration lifetime.endHeight duration) 0 = some renewed ∧
        renewed.Outlasts gracePeriodDuration := by
  have hlt := lifetime.start_lt_end
  have hlonger := h.lt
  rw [addDuration_of_le hle]
  have hgrace : addGracePeriod (lifetime.endHeight + duration) 0 = lifetime.endHeight + duration := by
    rw [addGracePeriod, addDuration_of_le (by rwa [Nat.add_zero]), Nat.add_zero, ite_self]
  obtain ⟨renewed, hcreate, hstart, hend⟩ := create_eq_some
    (show lifetime.startHeight < lifetime.endHeight + duration by omega) hgrace (Nat.le_refl _)
  exact ⟨renewed, hcreate, by omega, hend.trans_le hle⟩

end NamespaceLifetime

namespace NamespaceCacheDelta
variable {Address : Type} [DecidableEq Address] {config : NamespaceConfiguration} {sha3 : List UInt8 → UInt64}
  {used : NamespaceId → List UInt8 → Prop} {cache cache' : NamespaceCacheDelta Address}
  {h h' : RootNamespaceHistory Address} {o : Option (RootNamespaceHistory Address)} {id rootId : NamespaceId}
  {height pruned : Nat} {P : NamespaceLifetime → Prop} {notification : RootNamespaceNotification Address}
  {name : List UInt8}

omit [DecidableEq Address] in
theorem AllLifetimes.of_find (hall : AllLifetimes P cache) {entry : NamespaceEntry Address}
    (hentry : cache.find id = some entry) : P entry.root.lifetime := by
  rw [find, Option.bind_eq_bind, Option.bind_eq_some_iff] at hentry
  obtain ⟨ns, -, hentry⟩ := hentry
  rw [Option.bind_eq_bind, Option.bind_eq_some_iff] at hentry
  obtain ⟨h, hfind, hentry⟩ := hentry
  cases hentry
  exact hall _ _ hfind h.back List.mem_cons_self

omit [DecidableEq Address] in
theorem not_addOverflows_height
    (hoverflow : validateNamespaceDurationOverflow config cache height notification = .success) :
    addOverflows height notification.duration = false := by
  rw [validateNamespaceDurationOverflow] at hoverflow
  split at hoverflow
  · cases hoverflow
  · case isFalse hnot => exact eq_false_of_ne_true hnot

theorem calculateLifetime_spec (hheight : height ≤ maxHeight)
    (hall : AllLifetimes (·.Outlasts config.gracePeriodDuration) cache)
    (hoverflow : validateNamespaceDurationOverflow config cache height notification = .success)
    (hfits : FitsLifetime config.gracePeriodDuration height notification.duration) :
    ∃ lifetime, calculateLifetime config cache height notification = some lifetime ∧
      lifetime.Outlasts config.gracePeriodDuration := by
  obtain ⟨newLifetime, hcreate, hnew⟩ := NamespaceLifetime.create_of_fits hfits
  have hend : (if eternalArtifactDuration = notification.duration then maxHeight
      else addDuration height notification.duration) = lifetimeEnd height notification.duration := by
    rw [lifetimeEnd, addDuration_eq hheight notification.duration_lt (not_addOverflows_height hoverflow)]
  rw [calculateLifetime, calculateNewLifetime, hend, hcreate]
  cases hentry : cache.find notification.namespaceId with
  | none => exact ⟨newLifetime, rfl, hnew⟩
  | some entry =>
    cases hrenewal : isRenewal height entry.root notification with
    | false => exact ⟨newLifetime, by simp [hrenewal], hnew⟩
    | true =>
      have hactive : entry.root.lifetime.isActive height = true := (Bool.and_eq_true_iff.1 hrenewal).1
      have hlonger := hall.of_find hentry
      have hsum := addDuration_eq hlonger.end_le notification.duration_lt
        (not_addOverflows_of_success hentry hactive hoverflow)
      have hle : entry.root.lifetime.endHeight + notification.duration ≤ maxHeight := by
        rw [← hsum]
        exact Nat.le_of_lt_succ (Nat.mod_lt _ (by decide))
      obtain ⟨renewed, hrenewed, hrenewedLonger⟩ := hlonger.create_of_renewal hle
      exact ⟨renewed, by simp [hrenewal, hrenewed], hrenewedLonger⟩

theorem fits_of_calculateLifetime (hheight : height ≤ maxHeight) (hgrace : config.gracePeriodDuration < 2 ^ 64)
    (havailable : validateRootNamespaceAvailability cache height notification = .success)
    (hoverflow : validateNamespaceDurationOverflow config cache height notification = .success)
    {lifetime : NamespaceLifetime} (hlifetime : calculateLifetime config cache height notification = some lifetime)
    (hlonger : lifetime.Outlasts config.gracePeriodDuration) :
    FitsLifetime config.gracePeriodDuration height notification.duration := by
  have hsum := addDuration_eq hheight notification.duration_lt (not_addOverflows_height hoverflow)
  rw [FitsLifetime]
  split
  · case isTrue hmax =>
    rcases startHeight_of_calculateLifetime hlifetime with ⟨hstart, -⟩ | ⟨entry, hentry, hrenewal, -⟩
    · rw [← hstart]
      exact Nat.lt_of_lt_of_le hlonger.lt (Nat.sub_le_sub_right hlonger.end_le _)
    · -- the end that is renewed is behind the height, so that the duration overflows it
      have hactive : entry.root.lifetime.isActive height = true := (Bool.and_eq_true_iff.1 hrenewal).1
      have hnot := not_addOverflows_of_success hentry hactive hoverflow
      rw [lifetimeEnd, if_neg (of_available hentry havailable).1.symm, maxHeight] at hmax
      rw [addOverflows, decide_eq_false_iff_not, addDuration] at hnot
      simp only [NamespaceLifetime.isActive, Bool.and_eq_true, decide_eq_true_eq] at hactive
      have hlt := notification.duration_lt
      omega
  · case isFalse hnot =>
    rw [calculateLifetime, calculateNewLifetime, hsum, ← lifetimeEnd, Option.bind_eq_bind,
      Option.bind_eq_some_iff] at hlifetime
    obtain ⟨newLifetime, hnew, -⟩ := hlifetime
    rw [NamespaceLifetime.create] at hnew
    split at hnew
    · split at hnew
      · case isTrue hle =>
        rw [NamespaceLifetime.addGracePeriod, if_pos hnot, addDuration] at hle
        rw [maxHeight]
        omega
      · cases hnew
    · cases hnew

/-- The runs of `Registered` in which every new root fits, and so does the grace period behind every height. -/
inductive FittingRun (config : NamespaceConfiguration) (sha3 : List UInt8 → UInt64)
    (used : NamespaceId → List UInt8 → Prop) : Nat → Nat → NamespaceCacheDelta Address → Prop
  | nemesis (hfits : 1 + config.gracePeriodDuration ≤ maxHeight) : FittingRun config sha3 used 1 0 empty
  | nextBlock {height pruned : Nat} {cache : NamespaceCacheDelta Address}
    (h : FittingRun config sha3 used height pruned cache)
    (hfits : height + 1 + config.gracePeriodDuration ≤ maxHeight) :
    FittingRun config sha3 used (height + 1) pruned cache
  | root {height pruned : Nat} {cache : NamespaceCacheDelta Address}
    (h : FittingRun config sha3 used height pruned cache) (notification : RootNamespaceNotification Address)
    (name : List UInt8) (hused : used namespaceBaseId name)
    (hvalid : ValidRoot config sha3 cache height notification name)
    (hfits : FitsLifetime config.gracePeriodDuration height notification.duration) (ns : RootNamespace Address)
    (hns : registeredRoot config cache height notification = some ns) :
    FittingRun config sha3 used height pruned (Operation.apply cache (.insertRoot ns))
  | child {height pruned : Nat} {cache : NamespaceCacheDelta Address}
    (h : FittingRun config sha3 used height pruned cache) (notification : ChildNamespaceNotification Address)
    (name : List UInt8) (hused : used notification.parentId name)
    (hvalid : ValidChild config sha3 cache height notification name) (ns : Namespace)
    (hns : registeredChild cache notification = some ns) :
    FittingRun config sha3 used height pruned (Operation.apply cache (.insertChild ns))
  | setAlias {height pruned : Nat} {cache : NamespaceCacheDelta Address}
    (h : FittingRun config sha3 used height pruned cache) (id : NamespaceId)
    (namespaceAlias : NamespaceAlias Address) :
    FittingRun config sha3 used height pruned (Operation.apply cache (.setAlias id namespaceAlias))
  | prune {height pruned : Nat} {cache : NamespaceCacheDelta Address}
    (h : FittingRun config sha3 used height pruned cache) (finalizedHeight : Nat) (ids : List NamespaceId)
    (hle : finalizedHeight ≤ height) (hids : cache.Admissible (.prune finalizedHeight ids)) :
    FittingRun config sha3 used height (max pruned finalizedHeight) (Operation.apply cache (.prune finalizedHeight ids))
  | copy {height pruned : Nat} {cache : NamespaceCacheDelta Address}
    (h : FittingRun config sha3 used height pruned cache) (id : NamespaceId) :
    FittingRun config sha3 used height pruned (Operation.apply cache (.copy id))

theorem FittingRun.registered (hrun : FittingRun config sha3 used height pruned cache) :
    Registered config sha3 used height pruned cache := by
  induction hrun with
  | nemesis => exact .nemesis
  | nextBlock _ _ ih => exact .nextBlock ih
  | root _ notification name hused hvalid _ ns hns ih => exact .root ih notification name hused hvalid ns hns
  | child _ notification name hused hvalid ns hns ih => exact .child ih notification name hused hvalid ns hns
  | setAlias _ id namespaceAlias ih => exact .setAlias ih id namespaceAlias
  | prune _ finalizedHeight ids hle hids ih => exact .prune ih finalizedHeight ids hle hids
  | copy _ id ih => exact .copy ih id

theorem FittingRun.height_le (hrun : FittingRun config sha3 used height pruned cache) :
    height + config.gracePeriodDuration ≤ maxHeight := by
  induction hrun with
  | nemesis hfits => exact hfits
  | nextBlock _ hfits => exact hfits
  | root _ _ _ _ _ _ _ _ ih => exact ih
  | child _ _ _ _ _ _ _ ih => exact ih
  | setAlias _ _ _ ih => exact ih
  | prune _ _ _ _ _ ih => exact ih
  | copy _ _ ih => exact ih

theorem FittingRun.outlasts (hfree : CollisionFree sha3 used)
    (hrun : FittingRun config sha3 used height pruned cache) :
    AllLifetimes (·.Outlasts config.gracePeriodDuration) cache := by
  induction hrun with
  | nemesis => exact fun _ _ hfind => (nomatch hfind)
  | nextBlock _ _ ih => exact ih
  | root hrun notification name hused hvalid hfits ns hns ih =>
    have hc := (hrun.registered.reachableAbove hfree).1.sound.coherent
    have hheight := Nat.le_of_add_right_le hrun.height_le
    obtain ⟨lifetime, hlifetime, hlonger⟩ := calculateLifetime_spec hheight ih hvalid.overflow hfits
    rw [registeredRoot, hlifetime] at hns
    cases hns
    exact ih.insertRoot hc hlonger
  | child hrun notification name hused hvalid ns hns ih =>
    have hsound := (hrun.registered.reachableAbove hfree).1.sound
    have hall := (hrun.registered.reachableAbove hfree).2.1
    exact ih.insertChild hsound.coherent (hsound.admissible_child hall hfree hused hvalid hns).2.2.1
  | setAlias hrun id namespaceAlias ih =>
    exact ih.setAlias (hrun.registered.reachableAbove hfree).1.sound.coherent id namespaceAlias
  | prune hrun finalizedHeight ids _ _ ih =>
    exact ih.prune (hrun.registered.reachableAbove hfree).1.sound.coherent finalizedHeight ids
  | copy hrun id ih =>
    rw [Operation.apply, copyHistory_eq (hrun.registered.reachableAbove hfree).1.sound.coherent]
    exact ih

/-- What is to hold of the lifetimes of a cache at a height. A root that passes the validators is given a lifetime
just when it fits. -/
structure LifetimesOrdered (config : NamespaceConfiguration) (sha3 : List UInt8 → UInt64)
    (used : NamespaceId → List UInt8 → Prop) (height : Nat) (cache : NamespaceCacheDelta Address) : Prop where
  ends : ∀ id h, cache.historyById.find? id = some h → EndsIncrease h.roots
  starts : AllLifetimes (fun lifetime => lifetime.startHeight ≤ lifetime.endHeight) cache
  constructs : ∀ notification name, used namespaceBaseId name → ValidRoot config sha3 cache height notification name →
    (FitsLifetime config.gracePeriodDuration height notification.duration ↔
      ∃ lifetime, calculateLifetime config cache height notification = some lifetime ∧
        lifetime.Outlasts config.gracePeriodDuration)
  gracePeriods : AllLifetimes (fun lifetime => ∀ activeHeight,
    lifetime.isActiveExcludingGracePeriod activeHeight config.gracePeriodDuration =
      some (decide (lifetime.startHeight ≤ activeHeight) &&
        decide (activeHeight + config.gracePeriodDuration < lifetime.endHeight))) cache
  touched : touchHeight config height = height + config.gracePeriodDuration

/-- In runs that fit, the lifetimes of every history end one after the other, and no constructor throws. -/
theorem FittingRun.lifetimesOrdered (hfree : CollisionFree sha3 used)
    (hrun : FittingRun config sha3 used height pruned cache) : LifetimesOrdered config sha3 used height cache := by
  have hall := hrun.outlasts hfree
  have hheight := hrun.height_le
  refine ⟨fun id h hfind => ?_, fun _ _ _ root _ => Nat.le_of_lt root.lifetime.start_lt_end, ?_, ?_,
    addDuration_of_le hheight⟩
  · exact ((hrun.registered.reachableAbove hfree).1.sound.coherent.valid _ _ hfind).ends
  · intro notification name _ hvalid
    refine ⟨calculateLifetime_spec (Nat.le_of_add_right_le hheight) hall hvalid.overflow, ?_⟩
    rintro ⟨lifetime, hlifetime, hlonger⟩
    have hgrace : config.gracePeriodDuration ≤ maxHeight := Nat.le_trans (Nat.le_add_left _ _) hheight
    exact fits_of_calculateLifetime (Nat.le_of_add_right_le hheight) (Nat.lt_of_le_of_lt hgrace (by decide))
      hvalid.available hvalid.overflow hlifetime hlonger
  · intro id h hfind root hroot activeHeight
    exact (hall id h hfind root hroot).isActiveExcludingGracePeriod_eq activeHeight

def longConfiguration : NamespaceConfiguration where
  maxNameSize := 64
  minDuration := 60000
  maxDuration := 60000 * 307445734561825
  gracePeriodDuration := 86400000
  maxNamespaceDepth := 3
  maxChildNamespaces := 100

def nameHash (name : List UInt8) : UInt64 := name.foldl (fun hash byte => 257 * hash + byte.toUInt64) 0

/-- A root and a name below it. -/
def usedNames (parentId : NamespaceId) (name : List UInt8) : Prop :=
  (parentId = namespaceBaseId ∧ name = [97]) ∨ (parentId = 2 ^ 63 + 97 ∧ name = [98])

theorem collisionFree_usedNames : CollisionFree nameHash usedNames := by
  rintro parentId name parentId' name' (⟨rfl, rfl⟩ | ⟨rfl, rfl⟩) (⟨rfl, rfl⟩ | ⟨rfl, rfl⟩) heq
  · rfl
  · exact absurd heq (by decide)
  · exact absurd heq (by decide)
  · rfl

def registrationFor (duration : UInt64) : RootNamespaceNotification Unit :=
  ⟨(), 2 ^ 63 + 97, duration.toNat, duration.toNat_lt⟩

/-- A registration for a day. -/
theorem lifetimesOrdered_sample : LifetimesOrdered longConfiguration nameHash usedNames 1
    (Operation.apply empty (.insertRoot ⟨2 ^ 63 + 97, (), ⟨1, 1 + 86400000 + 86400000, by decide⟩, .none⟩)) :=
  FittingRun.lifetimesOrdered collisionFree_usedNames
    (.root (.nemesis (by decide)) (registrationFor 86400000) [97] (.inl ⟨rfl, rfl⟩)
      ⟨by decide, by decide, by decide, by decide⟩ (by rw [FitsLifetime, if_neg (by decide)]; decide) _ rfl)

/-- The registration for the maximum duration passes all validators, but its grace period does not fit. -/
theorem not_lifetimesOrdered_sample : ¬∀ (config : NamespaceConfiguration) (height pruned : Nat)
    (cache : NamespaceCacheDelta Unit), Registered config nameHash usedNames height pruned cache →
      ∀ notification name, usedNames namespaceBaseId name →
        ValidRoot config nameHash cache height notification name →
          (calculateLifetime config cache height notification).isSome := by
  intro h
  have hvalid : ValidRoot longConfiguration nameHash empty 1 (registrationFor 18446744073709500000) [97] :=
    ⟨by decide, by decide, by decide, by decide⟩
  exact absurd (h longConfiguration 1 0 empty .nemesis _ [97] (.inl ⟨rfl, rfl⟩) hvalid) (by decide)

end NamespaceCacheDelta
end Catapult.Namespaces
