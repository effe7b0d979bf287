import Catapult.DeltaSet.BaseSetDelta
import Catapult.Tree.BaseTree

/-!
# Merkle roots of caches (`ApplyDeltasToTree`, `PatriciaTreeDeltaMixin`)

A cache has a set delta and a tree delta. `updateMerkleRoot` applies the keys that were marked in the
current generation to the tree and starts a new generation. Elements whose deactivation is destructive
are taken out of the tree when they are not active at the height of the update.

`Tracks` is what holds between the updates: a key is either up to date in the tree, or marked and in one
of the containers of the set delta, so that the next update sees it.
-/

namespace Catapult.Cache
open Container DeltaSet Catapult.Tree

variable {Storage Memory Key Value Hash Source : Type*} [DecidableEq Key] [Container Storage Key Value]
  [Container Memory Key Value]

/-- What a value type with `isActive` declares. -/
structure ActivityTraits (Value : Type*) where
  isDeactivationDestructive : Bool
  isActive : Value → UInt64 → Bool

/-- `IsActiveAdapter::IsActive`; a value type without `isActive` has no traits. -/
def isActive (traits : Option (ActivityTraits Value)) (value : Value) (height : UInt64) : Bool :=
  match traits with
  | none => true
  | some traits => !traits.isDeactivationDestructive || traits.isActive value height

section ApplyDeltasToTree
variable (traits : Option (ActivityTraits Value)) (set : BaseSetDelta Storage Memory Key)
  (minGenerationId : UInt32) (height : UInt64)

def needsApplication (key : Key) : Bool :=
  decide (minGenerationId ≤ set.generationIdOf key) && decide (set.generationIdOf key ≤ set.generationId)

def handleModification (pair : Key × Value) : Operation Key Value :=
  if isActive traits pair.2 height then .set pair.1 pair.2 else .unset pair.1

/-- The calls on the tree that one container leads to. -/
def containerOperations (elements : Memory) (handle : Key × Value → Operation Key Value) : List (Operation Key Value) :=
  ((Container.elements elements).filter fun pair => needsApplication set minGenerationId pair.1).map handle

/-- The calls on the tree: added elements, then copied ones, then removed ones. -/
def deltaOperations : List (Operation Key Value) :=
  containerOperations set minGenerationId set.addedElements (handleModification traits height) ++
    containerOperations set minGenerationId set.copiedElements (handleModification traits height) ++
    containerOperations set minGenerationId set.removedElements fun pair => .unset pair.1

end ApplyDeltasToTree

/-- The set and the tree of a cache delta, with `m_nextGenerationId`. -/
structure CacheDelta (Storage Memory Key : Type*) (hasher : NodeHasher Hash) where
  set : BaseSetDelta Storage Memory Key
  tree : BasePatriciaTreeDelta hasher
  nextGenerationId : UInt32

inductive CacheOperation (Key Value : Type*) where
  | change (change : Change Key Value)
  | updateMerkleRoot (height : UInt64)

namespace CacheDelta
variable {hasher : NodeHasher Hash} [DecidableEq Hash] (api : DataSource hasher Source)
  (encoder : Encoder Key Value Hash) (source : Source) (traits : Option (ActivityTraits Value))

def create (set : BaseSetDelta Storage Memory Key) (tree : BasePatriciaTreeDelta hasher) :
    CacheDelta Storage Memory Key hasher :=
  ⟨set, tree, set.generationId⟩

def applyDeltasToTree (cache : CacheDelta Storage Memory Key hasher) (height : UInt64) :
    Option (BasePatriciaTreeDelta hasher) :=
  (deltaOperations traits cache.set cache.nextGenerationId height).foldlM
    (fun tree operation => tree.apply api encoder source operation) cache.tree

def updateMerkleRoot (cache : CacheDelta Storage Memory Key hasher) (height : UInt64) :
    Option (CacheDelta Storage Memory Key hasher) :=
  (cache.applyDeltasToTree api encoder source traits height).map fun tree =>
    let set := cache.set.incrementGenerationId
    ⟨set, tree.setCheckpoint, set.generationId⟩

def apply (cache : CacheDelta Storage Memory Key hasher) :
    CacheOperation Key Value → Option (CacheDelta Storage Memory Key hasher)
  | .change change => some { cache with set := cache.set.apply change.operation }
  | .updateMerkleRoot height => cache.updateMerkleRoot api encoder source traits height

def run (cache : CacheDelta Storage Memory Key hasher) (operations : List (CacheOperation Key Value)) :
    Option (CacheDelta Storage Memory Key hasher) :=
  operations.foldlM (apply api encoder source traits) cache

end CacheDelta

/-! ### One update -/

omit [DecidableEq Key] [Container Storage Key Value] [Container Memory Key Value] in
theorem needsApplication_iff (set : BaseSetDelta Storage Memory Key) (key : Key) :
    needsApplication set set.generationId key = true ↔ set.generationIdOf key = set.generationId := by
  rw [needsApplication, Bool.and_eq_true, decide_eq_true_eq, decide_eq_true_eq]
  constructor
  · rintro ⟨hle, hge⟩
    exact UInt32.le_antisymm hge hle
  · intro heq
    rw [heq]
    exact ⟨UInt32.le_refl _, UInt32.le_refl _⟩

def operationKey : Operation Key Value → Key
  | .set key _ => key
  | .unset key => key

def operationValue : Operation Key Value → Option Value
  | .set _ value => some value
  | .unset _ => none

omit [Container Storage Key Value] [Container Memory Key Value] in
theorem applyToMap_eq (operation : Operation Key Value) (map : Key → Option Value) :
    operation.applyToMap map = Function.update map (operationKey operation) (operationValue operation) := by
  cases operation <;> rfl

section Update
variable {map : Key → Option Value} {key : Key}

theorem foldl_map_of_notMem {l : List (Key × Value)} {handle : Key × Value → Operation Key Value}
    (hkey : ∀ e, operationKey (handle e) = e.1) (h : key ∉ l.map Prod.fst) :
    (l.map handle).foldl Operation.applyToMap map key = map key := by
  induction l generalizing map with
  | nil => rfl
  | cons e l ih =>
    rw [List.map_cons, List.mem_cons, not_or] at h
    rw [List.map_cons, List.foldl_cons, ih h.2, applyToMap_eq, hkey, Function.update_of_ne h.1]

theorem foldl_map_of_mem {l : List (Key × Value)} {handle : Key × Value → Operation Key Value}
    (hkey : ∀ e, operationKey (handle e) = e.1) (hnd : (l.map Prod.fst).Nodup) {value : Value} (h : (key, value) ∈ l) :
    (l.map handle).foldl Operation.applyToMap map key = operationValue (handle (key, value)) := by
  induction l generalizing map with
  | nil => simp at h
  | cons e l ih =>
    obtain ⟨he, hnd⟩ := List.nodup_cons.1 hnd
    rw [List.map_cons, List.foldl_cons]
    rcases List.mem_cons.1 h with rfl | h
    · rw [foldl_map_of_notMem hkey he, applyToMap_eq, hkey, Function.update_self]
    · exact ih hnd h

omit [Container Storage Key Value] in
theorem foldl_containerOperations (set : BaseSetDelta Storage Memory Key) (minGenerationId : UInt32) (elements : Memory)
    {handle : Key × Value → Operation Key Value} (hkey : ∀ e, operationKey (handle e) = e.1)
    (map : Key → Option Value) (key : Key) :
    (containerOperations set minGenerationId elements handle).foldl Operation.applyToMap map key =
      match find elements key with
      | some value => if needsApplication set minGenerationId key then operationValue (handle (key, value)) else map key
      | none => map key := by
  have hnot : (∀ value, find elements key = some value → needsApplication set minGenerationId key = false) →
      (containerOperations set minGenerationId elements handle).foldl Operation.applyToMap map key = map key := by
    intro h
    refine foldl_map_of_notMem hkey fun hmem => ?_
    obtain ⟨⟨key', value⟩, he, rfl⟩ := List.mem_map.1 hmem
    obtain ⟨he, hneeds⟩ := List.mem_filter.1 he
    rw [h value (find_eq_some_iff.2 he)] at hneeds
    cases hneeds
  cases hfind : find elements key with
  | none => exact hnot fun value hvalue => by rw [hfind] at hvalue; cases hvalue
  | some value =>
    cases hneeds : needsApplication set minGenerationId key with
    | false => exact hnot fun _ _ => hneeds
    | true =>
      refine foldl_map_of_mem hkey ?_ (List.mem_filter.2 ⟨find_eq_some_iff.1 hfind, hneeds⟩)
      exact (nodup elements).sublist (List.Sublist.map _ List.filter_sublist)

def activeValue (traits : Option (ActivityTraits Value)) (height : UInt64) (value : Option Value) : Option Value :=
  value.filter fun value => isActive traits value height

theorem foldl_deltaOperations {set : BaseSetDelta Storage Memory Key} (h : set.Invariant)
    (traits : Option (ActivityTraits Value)) (minGenerationId : UInt32) (height : UInt64)
    (map : Key → Option Value) (key : Key) :
    ((needsApplication set minGenerationId key = true ∧ (set.slot key).Changed) ∧
        (deltaOperations traits set minGenerationId height).foldl Operation.applyToMap map key =
          activeValue traits height (set.find key)) ∨
      (¬ (needsApplication set minGenerationId key = true ∧ (set.slot key).Changed) ∧
        (deltaOperations traits set minGenerationId height).foldl Operation.applyToMap map key = map key) := by
  have hmodify : ∀ e : Key × Value, operationKey (handleModification traits height e) = e.1 := by
    intro e
    rw [handleModification]
    split <;> rfl
  have hvalue : ∀ value, operationValue (handleModification traits height (key, value)) =
      activeValue traits height (some value) := by
    intro value
    simp only [handleModification, activeValue, Option.filter_some]
    split <;> rfl
  have hunset : ∀ e : Key × Value, operationKey (Operation.unset e.1 : Operation Key Value) = e.1 := fun _ => rfl
  rw [deltaOperations, List.foldl_append, List.foldl_append, foldl_containerOperations _ _ _ hunset,
    foldl_containerOperations _ _ _ hmodify, foldl_containerOperations _ _ _ hmodify, BaseSetDelta.find_eq_value]
  have hvalid := BaseSetDelta.invariant_iff.1 h key
  cases hneeds : needsApplication set minGenerationId key with
  | false =>
    refine .inr ⟨fun hmarked => Bool.false_ne_true hmarked.1, ?_⟩
    cases find set.removedElements key <;> cases find set.copiedElements key <;>
      cases find set.addedElements key <;> rfl
  | true =>
    -- the last call wins: removed, then copied, then added
    cases hr : find set.removedElements key with
    | some removed =>
      refine .inl ⟨⟨rfl, .inr (.inr (by simp [BaseSetDelta.slot, hr]))⟩, ?_⟩
      simp only [Slot.value, BaseSetDelta.slot, hr]
      rfl
    | none =>
      cases hc : find set.copiedElements key with
      | some copied =>
        refine .inl ⟨⟨rfl, .inr (.inl (by simp [BaseSetDelta.slot, hc]))⟩, ?_⟩
        simp only [Slot.value, BaseSetDelta.slot, hr, hc]
        exact hvalue copied
      | none =>
        cases ha : find set.addedElements key with
        | some added =>
          have horiginal : find set.originalElements key = none :=
            hvalid.added_original (by simp [BaseSetDelta.slot, ha])
          refine .inl ⟨⟨rfl, .inl (by simp [BaseSetDelta.slot, ha])⟩, ?_⟩
          simp only [Slot.value, BaseSetDelta.slot, hr, hc, ha, horiginal]
          exact hvalue added
        | none =>
          refine .inr ⟨?_, rfl⟩
          simp [BaseSetDelta.slot, Slot.Changed, hr, hc, ha]

end Update

/-! ### Runs -/

/-- Whether the key was changed since the last update, and the height of the update that applied its last change. -/
def logStep (key : Key) (log : Bool × Option UInt64) : CacheOperation Key Value → Bool × Option UInt64
  | .change change => if change.key = key then (true, log.2) else log
  | .updateMerkleRoot height => if log.1 then (false, some height) else log

omit [Container Storage Key Value] [Container Memory Key Value] in
theorem logStep_update (key : Key) (log : Bool × Option UInt64) (height : UInt64) :
    (logStep key log (.updateMerkleRoot height : CacheOperation Key Value)).1 = false := by
  rw [logStep]
  split
  · rfl
  · rename_i hfalse
    exact Bool.not_eq_true _ ▸ hfalse

/-- The height of the first update after the last change of the key. -/
def appliedHeight (operations : List (CacheOperation Key Value)) (key : Key) : Option UInt64 :=
  (operations.foldl (logStep key) (false, none)).2

def treeValue (traits : Option (ActivityTraits Value)) (applied : Option UInt64) (value : Option Value) :
    Option Value :=
  match applied with
  | none => value
  | some height => activeValue traits height value

def AlwaysActive (traits : Option (ActivityTraits Value)) : Prop := ∀ value height, isActive traits value height = true

omit [DecidableEq Key] [Container Storage Key Value] [Container Memory Key Value] in
theorem AlwaysActive.treeValue {traits : Option (ActivityTraits Value)} (h : AlwaysActive traits)
    (applied : Option UInt64) (value : Option Value) : treeValue traits applied value = value := by
  cases applied with
  | none => rfl
  | some height => cases value <;> simp [Cache.treeValue, activeValue, h _ _]

/-- The next update applies the key. -/
structure Pending (set : BaseSetDelta Storage Memory Key) (key : Key) : Prop where
  marked : set.generationIdOf key = set.generationId
  changed : (set.slot key).Changed

section Run
variable {hasher : NodeHasher Hash} [DecidableEq Hash] {api : DataSource hasher Source} {nodes : Set (TreeNode Hash)}
  {encoder : Encoder Key Value Hash} {source : Source} {traits : Option (ActivityTraits Value)}
  {cache : CacheDelta Storage Memory Key hasher} {treeMap : Key → Option Value} {log : Key → Bool × Option UInt64}

structure Tracks (api : DataSource hasher Source) (nodes : Set (TreeNode Hash)) (encoder : Encoder Key Value Hash)
    (source : Source) (traits : Option (ActivityTraits Value)) (cache : CacheDelta Storage Memory Key hasher)
    (treeMap : Key → Option Value) (log : Key → Bool × Option UInt64) : Prop where
  invariant : cache.set.Invariant
  refines : DeltaRefines api nodes encoder source treeMap cache.tree
  next : cache.nextGenerationId = cache.set.generationId
  /-- A changed key is pending, or is not visible and not in the tree. -/
  changed : ∀ key, (log key).1 = true → Pending cache.set key ∨ (cache.set.find key = none ∧ treeMap key = none)
  /-- All other keys are up to date. -/
  applied : ∀ key, (log key).1 = false → treeMap key = treeValue traits (log key).2 (cache.set.find key)

/-- No key has the mark of the current generation from an earlier one. -/
def NoStaleMarks (cache : CacheDelta Storage Memory Key hasher) (log : Key → Bool × Option UInt64) : Prop :=
  ∀ key, cache.set.generationIdOf key ≤ cache.set.generationId ∧
    (cache.set.generationIdOf key = cache.set.generationId → (log key).1 = true)

theorem generationIdOf_apply_of_ne (set : BaseSetDelta Storage Memory Key) (change : Change Key Value) {key : Key}
    (h : key ≠ change.key) : (set.apply change.operation).generationIdOf key = set.generationIdOf key := by
  rcases set.apply_change change with ⟨-, heq⟩ | ⟨⟨hmap, -⟩, -⟩
  · rw [heq]
  · rw [BaseSetDelta.generationIdOf, hmap, Function.update_of_ne h, BaseSetDelta.generationIdOf]

theorem generationId_apply (set : BaseSetDelta Storage Memory Key) (change : Change Key Value) :
    (set.apply change.operation).generationId = set.generationId := by
  rcases set.apply_change change with ⟨-, heq⟩ | ⟨⟨-, hgeneration⟩, -⟩
  · rw [heq]
  · exact hgeneration

theorem Tracks.change (h : Tracks api nodes encoder source traits cache treeMap log) (change : Change Key Value) :
    Tracks api nodes encoder source traits { cache with set := cache.set.apply change.operation } treeMap
      fun key => logStep key (log key) (.change change) := by
  have hfind : ∀ {key}, key ≠ change.key → (cache.set.apply change.operation).find key = cache.set.find key := by
    intro key hkey
    rw [BaseSetDelta.find_eq_value, BaseSetDelta.find_eq_value, BaseSetDelta.slot_apply_of_ne _ _ hkey]
  refine ⟨(h.invariant.apply change.operation).1, h.refines, h.next.trans (generationId_apply _ _).symm,
    fun key hlog => ?_, fun key hlog => ?_⟩
  · by_cases hkey : change.key = key
    · subst hkey
      rcases cache.set.apply_change change with ⟨hnone, heq⟩ | ⟨⟨hmap, hgeneration⟩, hchanged⟩
      · -- nothing to change: the key is not visible
        show Pending (cache.set.apply change.operation) _ ∨ (cache.set.apply change.operation).find _ = none ∧ _
        rw [heq]
        cases hold : (log change.key).1 with
        | true => exact h.changed _ hold
        | false =>
          have happlied := h.applied _ hold
          rw [hnone] at happlied
          exact .inr ⟨hnone, happlied.trans (by cases (log change.key).2 <;> rfl)⟩
      · refine .inl ⟨?_, hchanged⟩
        show (cache.set.apply change.operation).generationIdOf _ = (cache.set.apply change.operation).generationId
        rw [BaseSetDelta.generationIdOf, hmap, Function.update_self, hgeneration]
        rfl
    · have hne : key ≠ change.key := fun he => hkey he.symm
      simp only [logStep, if_neg hkey] at hlog
      rcases h.changed key hlog with hpending | ⟨hnone, hmap⟩
      · refine .inl ⟨?_, ?_⟩
        · show (cache.set.apply change.operation).generationIdOf _ = (cache.set.apply change.operation).generationId
          rw [generationIdOf_apply_of_ne _ _ hne, generationId_apply]
          exact hpending.marked
        · show ((cache.set.apply change.operation).slot key).Changed
          rw [BaseSetDelta.slot_apply_of_ne _ _ hne]
          exact hpending.changed
      · exact .inr ⟨(hfind hne).trans hnone, hmap⟩
  · by_cases hkey : change.key = key
    · simp [logStep, hkey] at hlog
    · simp only [logStep, if_neg hkey] at hlog ⊢
      rw [h.applied key hlog]
      exact congrArg _ (hfind fun he => hkey he.symm).symm

omit [DecidableEq Hash] in
theorem NoStaleMarks.change (h : NoStaleMarks cache log) (change : Change Key Value) :
    NoStaleMarks { cache with set := cache.set.apply change.operation } fun key =>
      logStep key (log key) (.change change) := by
  intro key
  show (cache.set.apply change.operation).generationIdOf key ≤ (cache.set.apply change.operation).generationId ∧ _
  by_cases hkey : change.key = key
  · subst hkey
    refine ⟨?_, fun _ => by simp [logStep]⟩
    rcases cache.set.apply_change change with ⟨-, heq⟩ | ⟨⟨hmap, hgeneration⟩, -⟩
    · rw [heq]
      exact (h _).1
    · rw [BaseSetDelta.generationIdOf, hmap, Function.update_self, hgeneration]
      exact UInt32.le_refl _
  · rw [generationId_apply, generationIdOf_apply_of_ne _ _ fun he => hkey he.symm]
    simp only [logStep, if_neg hkey]
    exact h key

theorem Tracks.update (hfree : CollisionFree hasher nodes)
    (h : Tracks api nodes encoder source traits cache treeMap log)
    (hmarks : AlwaysActive traits ∨ NoStaleMarks cache log)
    (height : UInt64) (hnodes : ∀ tree, cache.applyDeltasToTree api encoder source traits height = some tree →
      tree.SavesIn api nodes source) :
    ∃ cache' treeMap', cache.updateMerkleRoot api encoder source traits height = some cache' ∧
      cache'.set = cache.set.incrementGenerationId ∧
      Tracks api nodes encoder source traits cache' treeMap'
        (fun key => logStep key (log key) (.updateMerkleRoot height : CacheOperation Key Value)) ∧
      ∃ t, TrieOf encoder treeMap' t ∧ NodesIn hasher nodes t ∧ cache'.tree.root.hash hasher = trieHash hasher t := by
  obtain ⟨tree, hrun, htree⟩ := h.refines.run hfree (deltaOperations traits cache.set cache.nextGenerationId height)
  obtain ⟨hcheckpoint, hroot, -, t, ht, -, hin, hhash⟩ := htree.setCheckpoint hfree (hnodes tree hrun)
  refine ⟨_, _, by rw [CacheDelta.updateMerkleRoot, CacheDelta.applyDeltasToTree, hrun]; rfl, rfl,
    ⟨?_, hcheckpoint, rfl, fun key htrue => ?_, fun key _ => ?_⟩, t, ht, hin, (congrArg _ hroot).trans hhash⟩
  · exact ⟨h.invariant.1, h.invariant.2, h.invariant.3, h.invariant.4⟩
  · rw [logStep_update] at htrue
    cases htrue
  · show _ = treeValue traits _ (cache.set.find key)
    rw [logStep]
    rcases foldl_deltaOperations h.invariant traits cache.nextGenerationId height treeMap key with
      ⟨⟨hneeds, hchanged⟩, heq⟩ | ⟨hnot, heq⟩
    · rw [heq]
      split
      · rfl
      · -- a stale mark is applied again, which does nothing as long as the value is active
        rename_i hfalse
        rw [h.next, needsApplication_iff] at hneeds
        rcases hmarks with hactive | hmarks
        · rw [hactive.treeValue]
          exact hactive.treeValue (some height) _
        · exact absurd ((hmarks key).2 hneeds) hfalse
    · rw [heq]
      split
      · rename_i htrue
        rcases h.changed key htrue with hpending | ⟨hnone, hmap⟩
        · refine absurd ⟨?_, hpending.changed⟩ hnot
          rw [h.next, needsApplication_iff]
          exact hpending.marked
        · rw [hmap, hnone]
          rfl
      · rename_i hfalse
        exact h.applied key (Bool.not_eq_true _ ▸ hfalse)

omit [DecidableEq Hash] [DecidableEq Key] [Container Storage Key Value] [Container Memory Key Value] in
theorem NoStaleMarks.update {cache' : CacheDelta Storage Memory Key hasher} {log' : Key → Bool × Option UInt64}
    (h : NoStaleMarks cache log) (hset : cache'.set = cache.set.incrementGenerationId)
    (hgeneration : cache.set.generationId.toNat + 1 < 2 ^ 32) : NoStaleMarks cache' log' := by
  have hnext : (cache.set.generationId + 1).toNat = cache.set.generationId.toNat + 1 := by
    rw [UInt32.toNat_add, UInt32.toNat_one]
    omega
  intro key
  have hle := UInt32.le_iff_toNat_le.1 (h key).1
  rw [hset]
  show cache.set.generationIdOf key ≤ cache.set.generationId + 1 ∧
    (cache.set.generationIdOf key = cache.set.generationId + 1 → _)
  refine ⟨UInt32.le_iff_toNat_le.2 (by omega), fun heq => ?_⟩
  rw [heq] at hle
  omega

def updateCount : List (CacheOperation Key Value) → Nat
  | [] => 0
  | .change _ :: operations => updateCount operations
  | .updateMerkleRoot _ :: operations => updateCount operations + 1

/-- The nodes that the updates of the run save are among `nodes`. -/
def CacheDelta.SavesIn (api : DataSource hasher Source) (nodes : Set (TreeNode Hash)) (encoder : Encoder Key Value Hash)
    (source : Source) (traits : Option (ActivityTraits Value)) (cache : CacheDelta Storage Memory Key hasher)
    (operations : List (CacheOperation Key Value)) : Prop :=
  ∀ before height after cache' tree, operations = before ++ .updateMerkleRoot height :: after →
    cache.run api encoder source traits before = some cache' →
    cache'.applyDeltasToTree api encoder source traits height = some tree → tree.SavesIn api nodes source

theorem CacheDelta.SavesIn.tail {cache' : CacheDelta Storage Memory Key hasher} {operation : CacheOperation Key Value}
    {operations : List (CacheOperation Key Value)}
    (h : cache.SavesIn api nodes encoder source traits (operation :: operations))
    (happly : cache.apply api encoder source traits operation = some cache') :
    cache'.SavesIn api nodes encoder source traits operations := by
  intro before height after last tree heq hrun
  refine h (operation :: before) height after last tree (congrArg (operation :: ·) heq) ?_
  rw [CacheDelta.run, List.foldlM_cons, happly]
  exact hrun

theorem Tracks.run (hfree : CollisionFree hasher nodes) (h : Tracks api nodes encoder source traits cache treeMap log)
    (operations : List (CacheOperation Key Value)) (hnodes : cache.SavesIn api nodes encoder source traits operations)
    (hmarks : AlwaysActive traits ∨
      (NoStaleMarks cache log ∧ cache.set.generationId.toNat + updateCount operations < 2 ^ 32)) :
    ∃ cache' treeMap', cache.run api encoder source traits operations = some cache' ∧
      Tracks api nodes encoder source traits cache' treeMap' fun key => operations.foldl (logStep key) (log key) := by
  induction operations generalizing cache treeMap log with
  | nil => exact ⟨cache, treeMap, rfl, h⟩
  | cons operation operations ih =>
    cases operation with
    | change change =>
      have hmarks' : AlwaysActive traits ∨
          (NoStaleMarks { cache with set := cache.set.apply change.operation }
            (fun key => logStep key (log key) (.change change)) ∧
            (cache.set.apply change.operation).generationId.toNat + updateCount operations < 2 ^ 32) := by
        refine hmarks.imp_right fun hstale => ⟨hstale.1.change change, ?_⟩
        rw [generationId_apply]
        exact hstale.2
      obtain ⟨cache', treeMap', hrun, htracks⟩ := ih (h.change change) (hnodes.tail rfl) hmarks'
      exact ⟨cache', treeMap', hrun, htracks⟩
    | updateMerkleRoot height =>
      obtain ⟨next, nextMap, hupdate, hset, hnext, -⟩ := h.update hfree (hmarks.imp_right And.left) height
        fun tree => hnodes [] height operations cache tree rfl rfl
      have hmarks' : AlwaysActive traits ∨ (NoStaleMarks next (fun key => logStep key (log key)
          (.updateMerkleRoot height : CacheOperation Key Value)) ∧
            next.set.generationId.toNat + updateCount operations < 2 ^ 32) := by
        refine hmarks.imp_right fun hstale => ?_
        have hcount := hstale.2
        rw [updateCount] at hcount
        refine ⟨hstale.1.update hset (by omega), ?_⟩
        rw [hset]
        show (cache.set.generationId + 1).toNat + _ < _
        rw [UInt32.toNat_add, UInt32.toNat_one]
        omega
      obtain ⟨cache', treeMap', hrun, htracks⟩ := ih hnext (hnodes.tail hupdate) hmarks'
      refine ⟨cache', treeMap', ?_, htracks⟩
      rw [CacheDelta.run, List.foldlM_cons, CacheDelta.apply, hupdate]
      exact hrun

/-- Right after each update the tree maps exactly the visible keys whose value was active when the last change of
the key was applied, to their current values. Generation ids do not wrap around, unless deactivation is
not destructive: then all visible keys are mapped in any case. The hash tells the nodes apart that are there and that
the updates save. -/
theorem updateMerkleRoot_tracks {nodes : Set (TreeNode Hash)} (hfree : CollisionFree hasher nodes)
    (api : DataSource hasher Source) (encoder : Encoder Key Value Hash) (source : Source)
    (traits : Option (ActivityTraits Value)) (set : BaseSetDelta Storage Memory Key)
    (tree : BasePatriciaTreeDelta hasher) (hset : set.Invariant)
    (htree : DeltaRefines api nodes encoder source set.find tree)
    (operations : List (CacheOperation Key Value)) (height : UInt64)
    (hnodes : (CacheDelta.create set tree).SavesIn api nodes encoder source traits
      (operations ++ [.updateMerkleRoot height]))
    (hgeneration : AlwaysActive traits ∨ ((∀ key, set.generationIdOf key < set.generationId) ∧
      set.generationId.toNat + updateCount (operations ++ [CacheOperation.updateMerkleRoot height]) < 2 ^ 32)) :
    ∃ cache', (CacheDelta.create set tree).run api encoder source traits
      (operations ++ [CacheOperation.updateMerkleRoot height]) = some cache' ∧
      DeltaRefines api nodes encoder source
        (fun key => treeValue traits (appliedHeight (operations ++ [CacheOperation.updateMerkleRoot height]) key)
          (cache'.set.find key)) cache'.tree ∧
      (∀ key, ∃ nodePath, cache'.tree.lookup api encoder source key = some ((treeValue traits
        (appliedHeight (operations ++ [CacheOperation.updateMerkleRoot height]) key)
          (cache'.set.find key)).map encoder.encodeValue, nodePath)) ∧
      (AlwaysActive traits → DeltaRefines api nodes encoder source cache'.set.find cache'.tree) := by
  have hinit : Tracks api nodes encoder source traits (CacheDelta.create set tree) set.find fun _ => (false, none) :=
    ⟨hset, htree, rfl, fun _ h => (Bool.false_ne_true h).elim, fun _ _ => rfl⟩
  have hmarks : AlwaysActive traits ∨ (NoStaleMarks (CacheDelta.create set tree) (fun _ => (false, none)) ∧
      (CacheDelta.create set tree).set.generationId.toNat +
        updateCount (operations ++ [CacheOperation.updateMerkleRoot height]) < 2 ^ 32) := by
    refine hgeneration.imp_right fun h => ⟨fun key => ⟨UInt32.le_of_lt (h.1 key), fun heq => ?_⟩, h.2⟩
    exact absurd heq (UInt32.ne_of_lt (h.1 key))
  obtain ⟨cache', treeMap', hrun, htracks⟩ := hinit.run hfree _ hnodes hmarks
  have hmap : treeMap' = fun key =>
      treeValue traits (appliedHeight (operations ++ [CacheOperation.updateMerkleRoot height]) key)
        (cache'.set.find key) :=
    funext fun key => htracks.applied key (by
      rw [List.foldl_append, List.foldl_cons, List.foldl_nil, logStep_update])
  have hrefines := htracks.refines
  rw [hmap] at hrefines
  refine ⟨cache', hrun, hrefines, fun key => ?_, fun hactive => ?_⟩
  · exact hrefines.represents.lookup (Sound.readable hfree hrefines.sound) key
  · have heq : (fun key => treeValue traits
        (appliedHeight (operations ++ [CacheOperation.updateMerkleRoot height]) key) (cache'.set.find key)) =
        cache'.set.find := funext fun key => hactive.treeValue _ _
    rwa [heq] at hrefines

end Run

/-! ### Values that are deactivated -/

def expiringTraits : Option (ActivityTraits Nat) := some ⟨true, fun _ height => height < 100⟩

def emptySet : BaseSetDelta (KeyedList UInt8 Nat) (KeyedList UInt8 Nat) UInt8 := .create empty

def emptyTree : BasePatriciaTreeDelta codeHasher := .create MemoryDataSource.api .empty 0

theorem deltaRefines_empty :
    DeltaRefines MemoryDataSource.api codeNodes byteEncoder MemoryDataSource.empty emptySet.find emptyTree := by
  have hfind : emptySet.find = fun _ => none := funext fun key => by
    rw [emptySet, BaseSetDelta.find_create, find_empty]
  rw [hfind]
  exact DeltaRefines.create collisionFree_codeHasher (isTree_create byteEncoder fun _ => .inl rfl)

/-- A value is added, and modified in the next generation, in which another one is added. -/
theorem updateMerkleRoot_tracks_sample :
    ∃ cache', (CacheDelta.create emptySet emptyTree).run MemoryDataSource.api byteEncoder
      MemoryDataSource.empty expiringTraits
        ([CacheOperation.change (.insert 0x11 5), .updateMerkleRoot 10, .change (.modify 0x11 (· + 1)),
          .change (.insert 0x12 7)] ++ [CacheOperation.updateMerkleRoot 100]) = some cache' ∧
      ∃ nodePath, cache'.tree.lookup MemoryDataSource.api byteEncoder MemoryDataSource.empty 0x11 =
        some ((treeValue expiringTraits (some 100) (cache'.set.find 0x11)).map byteEncoder.encodeValue, nodePath) := by
  obtain ⟨cache', hrun, -, hlookup, -⟩ := updateMerkleRoot_tracks collisionFree_codeHasher
    MemoryDataSource.api byteEncoder MemoryDataSource.empty expiringTraits emptySet emptyTree
    (BaseSetDelta.invariant_create _) deltaRefines_empty
    [.change (.insert 0x11 5), .updateMerkleRoot 10, .change (.modify 0x11 (· + 1)), .change (.insert 0x12 7)] 100
    (fun _ _ _ _ _ _ _ _ t _ => nodesIn_codeNodes t)
    (.inr ⟨fun _ => (by decide : (0 : UInt32) < 1), by decide⟩)
  exact ⟨cache', hrun, hlookup 0x11⟩

/-- A key that is visible but not in the tree: its value is not active at the height of the update. -/
theorem inactive_not_in_tree :
    DeltaRefines MemoryDataSource.api codeNodes byteEncoder MemoryDataSource.empty emptySet.find emptyTree ∧
      ∃ cache', (CacheDelta.create emptySet emptyTree).run MemoryDataSource.api byteEncoder
        MemoryDataSource.empty expiringTraits
          [.change (.insert 0x11 5), .updateMerkleRoot 100] = some cache' ∧
        cache'.set.find 0x11 = some 5 ∧
        cache'.tree.lookup MemoryDataSource.api byteEncoder MemoryDataSource.empty 0x11 = some (none, []) := by
  refine ⟨deltaRefines_empty, ⟨(emptySet.apply (.insert 0x11 5)).incrementGenerationId, emptyTree, 2⟩, ?_, rfl, ?_⟩
  · have hoperations : deltaOperations expiringTraits (emptySet.apply (.insert 0x11 5)) 1 100 = [.unset 0x11] := rfl
    have hunset : (emptyTree.apply MemoryDataSource.api byteEncoder MemoryDataSource.empty (.unset 0x11)) =
        some emptyTree := by
      rw [BasePatriciaTreeDelta.apply, Operation.applyToRoot]
      rw [show emptyTree.root = .empty from rfl, PatriciaTree.unset_empty]
      rfl
    show (CacheDelta.updateMerkleRoot MemoryDataSource.api byteEncoder MemoryDataSource.empty expiringTraits
      ⟨emptySet.apply (.insert 0x11 5), emptyTree, 1⟩ 100).bind some = _
    rw [CacheDelta.updateMerkleRoot, CacheDelta.applyDeltasToTree, hoperations, List.foldlM_cons, hunset]
    rfl
  · exact PatriciaTree.lookup_empty_node _

end Catapult.Cache
