import Catapult.Restrictions.AccountRestriction

/-!
# Rolling back account restrictions

An observed modification is undone by the inverse one when the value was added to a restriction that did not have it,
or deleted from one that had it, and when the restriction is of the same type or has no values. The validators check
that for accounts with restrictions only.
-/

namespace Catapult.Restrictions
open AccountRestrictionDescriptor AccountRestrictions

theorem known_flags : ∀ e ∈ restrictionSizes,
    directionalRestrictionFlags ⟨e.1⟩ = e.1 ∧ directionalRestrictionFlags ⟨e.1 ||| .block⟩ = e.1 ∧
    operationType ⟨e.1⟩ = .allow ∧ operationType ⟨e.1 ||| .block⟩ = .block := by
  decide

/-- The modification that is observed on rollback. -/
def AccountRestrictionModification.inverted (m : AccountRestrictionModification) : AccountRestrictionModification :=
  ⟨invertModificationAction m.modificationAction, m.value⟩

namespace AccountRestriction
variable {r r' : AccountRestriction} {e : AccountRestrictionFlags × Nat} {m : AccountRestrictionModification}
  {type : AccountRestrictionOperationType}

/-- A restriction with the flags and the value size `e`, which blocks when it has no values. -/
structure WellFormed (e : AccountRestrictionFlags × Nat) (r : AccountRestriction) : Prop where
  known : e ∈ restrictionSizes
  raw : r.descriptor.raw = e.1 ∨ r.descriptor.raw = e.1 ||| .block
  valueSize : r.valueSize = e.2
  blocks : r.values = ∅ → r.descriptor.raw = e.1 ||| .block

/-- `allow` or `block`. -/
def modify (type : AccountRestrictionOperationType) (r : AccountRestriction) (m : AccountRestrictionModification) :
    Option AccountRestriction :=
  if type = .allow then r.allow m else r.block m

def modifiedValues (values : Finset RawValue) (m : AccountRestrictionModification) : Finset RawValue :=
  if m.modificationAction = .add then insert m.value values else values.erase m.value

/-- The restriction with the flags and the value size `e` and the values. -/
def withValues (e : AccountRestrictionFlags × Nat) (type : AccountRestrictionOperationType) (values : Finset RawValue) :
    AccountRestriction :=
  ⟨⟨if type = .allow ∧ values ≠ ∅ then e.1 else e.1 ||| .block⟩, e.2, values⟩

theorem WellFormed.directional (h : r.WellFormed e) : r.descriptor.directionalRestrictionFlags = e.1 := by
  obtain ⟨hplain, hblock, -, -⟩ := known_flags e h.known
  rcases h.raw with hraw | hraw
  · exact (congrArg (fun raw => directionalRestrictionFlags ⟨raw⟩) hraw).trans hplain
  · exact (congrArg (fun raw => directionalRestrictionFlags ⟨raw⟩) hraw).trans hblock

theorem wellFormed_withValues (h : e ∈ restrictionSizes) (type : AccountRestrictionOperationType)
    (values : Finset RawValue) : (withValues e type values).WellFormed e := by
  refine ⟨h, ?_, rfl, fun hempty => ?_⟩
  · by_cases hallow : type = .allow ∧ values ≠ ∅
    · exact .inl (if_pos hallow)
    · exact .inr (if_neg hallow)
  · exact if_neg fun hallow => hallow.2 hempty

theorem WellFormed.modify_eq (h : r.WellFormed e) (m : AccountRestrictionModification) :
    r.modify type m =
      if e.2 ≠ m.value.length then none else some (withValues e type (modifiedValues r.values m)) := by
  have hdirectional := h.directional
  have hupdate : ∀ r' : AccountRestriction, r'.valueSize = e.2 → r'.update m =
      if e.2 ≠ m.value.length then none else some { r' with values := modifiedValues r'.values m } := by
    intro r' hsize
    rw [update, hsize, modifiedValues]
    split
    · rfl
    · split <;> rfl
  cases type with
  | allow =>
    rw [modify, if_pos rfl, allow, hupdate r h.valueSize]
    split
    · rfl
    · simp only [Option.map_some, hdirectional, withValues, true_and, h.valueSize]
      by_cases hempty : modifiedValues r.values m = ∅
      · simp [hempty]
      · simp [hempty]
  | block =>
    rw [modify, if_neg (by decide), block, hdirectional,
      hupdate ⟨⟨e.1 ||| .block⟩, r.valueSize, r.values⟩ h.valueSize]
    simp [withValues, h.valueSize]

/-- What `canAllow` and `canBlock` say. -/
structure Fits (type : AccountRestrictionOperationType) (r : AccountRestriction) (m : AccountRestrictionModification) :
    Prop where
  type_eq : r.values = ∅ ∨ r.descriptor.operationType = type
  contained : m.value ∈ r.values ↔ m.modificationAction = .del

theorem fits_of_isOperationAllowed (h : r.isOperationAllowed m type = some true) : r.Fits type m := by
  rw [isOperationAllowed] at h
  split at h
  · cases h
  · simp only [Option.some.injEq, Bool.and_eq_true, Bool.or_eq_true, decide_eq_true_eq] at h
    refine ⟨h.1, ?_⟩
    cases haction : m.modificationAction with
    | add => simpa [haction, contains] using h.2
    | del => simpa [haction, contains] using h.2

theorem modifiedValues_inverted {values : Finset RawValue} (h : m.value ∈ values ↔ m.modificationAction = .del) :
    modifiedValues (modifiedValues values m) m.inverted = values := by
  obtain ⟨action, value⟩ := m
  cases action with
  | add =>
    have hnot : value ∉ values := fun hmem => by simpa using h.1 hmem
    simpa [modifiedValues, AccountRestrictionModification.inverted, invertModificationAction] using
      Finset.erase_insert hnot
  | del =>
    have hmem : value ∈ values := h.2 rfl
    simpa [modifiedValues, AccountRestrictionModification.inverted, invertModificationAction] using
      Finset.insert_erase hmem

theorem WellFormed.eq_withValues (h : r.WellFormed e) (htype : r.values = ∅ ∨ r.descriptor.operationType = type) :
    withValues e type r.values = r := by
  obtain ⟨⟨raw⟩, size, values⟩ := r
  obtain ⟨-, -, hallow, hblock⟩ := known_flags e h.known
  obtain rfl : size = e.2 := h.valueSize
  rw [withValues]
  congr 2
  by_cases hempty : values = ∅
  · rw [if_neg fun hallow => hallow.2 hempty]
    exact (h.blocks hempty).symm
  · have htype : operationType ⟨raw⟩ = type := htype.resolve_left hempty
    rcases h.raw with hraw | hraw
    · obtain rfl : raw = e.1 := hraw
      rw [if_pos ⟨htype.symm.trans hallow, hempty⟩]
    · obtain rfl : raw = e.1 ||| .block := hraw
      rw [if_neg fun hand => ?_]
      rw [hblock, hand.1] at htype
      cases htype

theorem WellFormed.modify_inverted (h : r.WellFormed e) (hfits : r.Fits type m) (hmodify : r.modify type m = some r') :
    r'.modify type m.inverted = some r := by
  rw [h.modify_eq] at hmodify
  split at hmodify
  · cases hmodify
  · rename_i hsize
    cases hmodify
    rw [(wellFormed_withValues h.known type _).modify_eq, if_neg (by exact hsize)]
    have hvalues : (withValues e type (modifiedValues r.values m)).values = modifiedValues r.values m := rfl
    rw [hvalues, modifiedValues_inverted hfits.contained, h.eq_withValues hfits.type_eq]

theorem WellFormed.modify (h : r.WellFormed e) (hmodify : r.modify type m = some r') :
    r'.WellFormed e ∧ r'.values = modifiedValues r.values m := by
  rw [h.modify_eq] at hmodify
  split at hmodify
  · cases hmodify
  · cases hmodify
    exact ⟨wellFormed_withValues h.known type _, rfl⟩

end AccountRestriction

namespace AccountRestrictions
variable {R : AccountRestrictions} {address : Address} {flags : AccountRestrictionFlags} {r : AccountRestriction}

/-- The account has the restrictions of `restrictionSizes` and no others. -/
structure WellFormed (address : Address) (R : AccountRestrictions) : Prop where
  address_eq : R.address = address
  restrictions : ∀ flags r, R.restrictions.find? flags = some r → ∃ e, e.1 = flags ∧ r.WellFormed e
  present : ∀ e ∈ restrictionSizes, ∃ r, R.restrictions.find? e.1 = some r

theorem entries_create (address : Address) :
    (create address).restrictions.entries = restrictionSizes.map fun e => (e.1, .create e.1 e.2) := rfl

theorem find?_create {e : AccountRestrictionFlags × Nat} (h : e ∈ restrictionSizes) (address : Address) :
    (create address).restrictions.find? e.1 = some (.create e.1 e.2) := by
  refine SortedMap.mem_entries_iff (e := (e.1, AccountRestriction.create e.1 e.2)).1 ?_
  rw [entries_create]
  exact List.mem_map.2 ⟨e, h, rfl⟩

theorem wellFormed_create (address : Address) : (create address).WellFormed address := by
  refine ⟨rfl, fun flags r hfind => ?_, fun e he => ⟨_, find?_create he address⟩⟩
  have hmem := SortedMap.mem_entries_iff (e := (flags, r)).2 hfind
  rw [entries_create] at hmem
  obtain ⟨e, he, heq⟩ := List.mem_map.1 hmem
  cases heq
  exact ⟨e, rfl, he, .inr rfl, rfl, fun _ => rfl⟩

theorem isEmpty_create (address : Address) : (create address).isEmpty = true := rfl

theorem values_of_isEmpty (h : R.isEmpty = true) (hfind : R.restrictions.find? flags = some r) : r.values = ∅ := by
  have hmem := SortedMap.mem_entries_iff (e := (flags, r)).2 hfind
  simpa using List.all_eq_true.1 h _ hmem

theorem WellFormed.eq_create (h : R.WellFormed address) (hempty : R.isEmpty = true) : R = create address := by
  obtain ⟨address', restrictions⟩ := R
  obtain rfl : address' = address := h.address_eq
  rw [create, AccountRestrictions.mk.injEq]
  refine ⟨rfl, SortedMap.ext_find? fun flags => ?_⟩
  change restrictions.find? flags = (create address').restrictions.find? flags
  cases hfind : restrictions.find? flags with
  | none =>
    cases hcreate : (create address').restrictions.find? flags with
    | none => rfl
    | some r =>
      obtain ⟨e, rfl, hr⟩ := (wellFormed_create address').restrictions flags r hcreate
      obtain ⟨r', hr'⟩ := h.present e hr.known
      rw [hfind] at hr'
      cases hr'
  | some r =>
    obtain ⟨e, rfl, hr⟩ := h.restrictions flags r hfind
    have hvalues : r.values = ∅ := values_of_isEmpty hempty hfind
    have hnew : AccountRestriction.withValues e .block r.values = r := hr.eq_withValues (.inl hvalues)
    rw [find?_create hr.known, ← hnew, hvalues]
    rfl

theorem WellFormed.restriction {R : AccountRestrictions} (h : R.WellFormed address)
    (hfind : R.restriction flags = some r) : ∃ e, e.1 = directionalRestrictionFlags ⟨flags⟩ ∧ r.WellFormed e :=
  h.restrictions _ r hfind

theorem WellFormed.setRestriction (h : R.WellFormed address) {e : AccountRestrictionFlags × Nat}
    (he : e.1 = directionalRestrictionFlags ⟨flags⟩) (hr : r.WellFormed e) :
    (R.setRestriction flags r).WellFormed address := by
  refine ⟨h.address_eq, fun flags' r' hfind => ?_, fun e' he' => ?_⟩
  · rw [AccountRestrictions.setRestriction, SortedMap.find?_insert] at hfind
    split at hfind
    · rename_i heq
      cases hfind
      exact ⟨e, he.trans heq.symm, hr⟩
    · exact h.restrictions flags' r' hfind
  · rw [AccountRestrictions.setRestriction, SortedMap.find?_insert]
    split
    · exact ⟨r, rfl⟩
    · exact h.present e' he'

theorem restriction_setRestriction : (R.setRestriction flags r).restriction flags = some r := by
  simp [restriction, setRestriction]

theorem setRestriction_setRestriction {r' : AccountRestriction} (h : R.restriction flags = some r) :
    (R.setRestriction flags r').setRestriction flags r = R := by
  obtain ⟨address, restrictions⟩ := R
  rw [setRestriction, setRestriction, AccountRestrictions.mk.injEq]
  refine ⟨rfl, SortedMap.ext_find? fun flags' => ?_⟩
  simp only [SortedMap.find?_insert]
  split
  · rename_i heq
    rw [heq]
    exact h.symm
  · rfl

end AccountRestrictions

def entry (cache : AccountRestrictionCache) (address : Address) : AccountRestrictions :=
  (cache.find? address).getD (.create address)

def store (cache : AccountRestrictionCache) (address : Address) (R : AccountRestrictions) : AccountRestrictionCache :=
  if R.isEmpty then cache.erase address else cache.insert address R

def CacheInv (cache : AccountRestrictionCache) : Prop :=
  ∀ address R, cache.find? address = some R → R.WellFormed address ∧ R.isEmpty = false

section
variable {cache cache' : AccountRestrictionCache} {address : Address} {R : AccountRestrictions}

theorem find?_store (cache : AccountRestrictionCache) (address : Address) (R : AccountRestrictions)
    (other : Address) :
    (store cache address R).find? other =
      if other = address then (if R.isEmpty then none else some R) else cache.find? other := by
  rw [store]
  by_cases hempty : R.isEmpty = true
  · simp [hempty]
  · simp [hempty]

theorem CacheInv.entry (h : CacheInv cache) (address : Address) : (entry cache address).WellFormed address := by
  rw [Restrictions.entry]
  cases hfind : cache.find? address with
  | none => exact wellFormed_create address
  | some R => exact (h address R hfind).1

theorem CacheInv.store (h : CacheInv cache) (hR : R.WellFormed address) :
    CacheInv (Restrictions.store cache address R) := by
  intro other R' hfind
  rw [find?_store] at hfind
  split at hfind
  · rename_i heq
    split at hfind
    · cases hfind
    · rename_i hempty
      cases hfind
      rw [heq]
      exact ⟨hR, by simpa using hempty⟩
  · exact h other R' hfind

theorem entry_store (hR : R.WellFormed address) : entry (store cache address R) address = R := by
  rw [entry, find?_store, if_pos rfl]
  split
  · rename_i hempty
    exact (hR.eq_create hempty).symm
  · rfl

theorem CacheInv.store_store (h : CacheInv cache) (R : AccountRestrictions) :
    Restrictions.store (Restrictions.store cache address R) address (Restrictions.entry cache address) = cache := by
  refine SortedMap.ext_find? fun other => ?_
  rw [find?_store, find?_store]
  split
  · rename_i heq
    rw [heq, Restrictions.entry]
    cases hfind : cache.find? address with
    | none => exact if_pos (isEmpty_create address)
    | some R' =>
      rw [Option.getD_some, if_neg]
      simp [(h address R' hfind).2]
  · rfl

end

section
variable {kind : RestrictionKind} {resolvers : ResolverContext} {mode : NotifyMode}
  {cache cache' : AccountRestrictionCache} {n : ModifyAccountRestrictionValueNotification kind}

/-- The modification that a notification makes. -/
def rawModification (resolvers : ResolverContext) (n : ModifyAccountRestrictionValueNotification kind) :
    AccountRestrictionModification :=
  ⟨n.action, resolvers.resolve kind n.restrictionValue⟩

def modificationOf (resolvers : ResolverContext) (mode : NotifyMode)
    (n : ModifyAccountRestrictionValueNotification kind) : AccountRestrictionModification :=
  if mode = .commit then rawModification resolvers n else (rawModification resolvers n).inverted

theorem observeNotification_cases (h : observeNotification resolvers mode cache n = some cache') :
    ∃ r r', (entry cache n.address).restriction n.accountRestrictionDescriptor.directionalRestrictionFlags = some r ∧
      r.modify n.accountRestrictionDescriptor.operationType (modificationOf resolvers mode n) = some r' ∧
      cache' = store cache n.address ((entry cache n.address).setRestriction
        n.accountRestrictionDescriptor.directionalRestrictionFlags r') := by
  obtain ⟨r, hr, h⟩ := Option.bind_eq_some_iff.1 h
  obtain ⟨r', hr', h⟩ := Option.bind_eq_some_iff.1 h
  refine ⟨r, r', hr, ?_, (Option.some.inj h).symm⟩
  rw [AccountRestriction.modify, ← hr', modificationOf]
  cases mode <;> rfl

theorem observeNotification_eq {r r' : AccountRestriction}
    (hr : (entry cache n.address).restriction n.accountRestrictionDescriptor.directionalRestrictionFlags = some r)
    (hr' : r.modify n.accountRestrictionDescriptor.operationType (modificationOf resolvers mode n) = some r') :
    observeNotification resolvers mode cache n = some (store cache n.address ((entry cache n.address).setRestriction
      n.accountRestrictionDescriptor.directionalRestrictionFlags r')) := by
  have hmodify : (if n.accountRestrictionDescriptor.operationType = .allow
      then r.allow ⟨if mode = .commit then n.action else invertModificationAction n.action,
        resolvers.resolve kind n.restrictionValue⟩
      else r.block ⟨if mode = .commit then n.action else invertModificationAction n.action,
        resolvers.resolve kind n.restrictionValue⟩) = some r' := by
    rw [← hr', AccountRestriction.modify, modificationOf]
    cases mode <;> rfl
  exact Option.bind_eq_some_iff.2 ⟨r, hr, Option.bind_eq_some_iff.2 ⟨r', hmodify, rfl⟩⟩

theorem CacheInv.observe (h : CacheInv cache) (hobserve : observeNotification resolvers mode cache n = some cache') :
    CacheInv cache' := by
  obtain ⟨r, r', hr, hr', rfl⟩ := observeNotification_cases hobserve
  obtain ⟨e, he, hwf⟩ := (h.entry n.address).restriction hr
  exact h.store ((h.entry n.address).setRestriction he (hwf.modify hr').1)

inductive Reachable : AccountRestrictionCache → Prop
  | empty : Reachable ∅
  | observe {kind : RestrictionKind} {cache cache' : AccountRestrictionCache} (resolvers : ResolverContext)
    (mode : NotifyMode) (n : ModifyAccountRestrictionValueNotification kind) (h : Reachable cache)
    (hobserve : observeNotification resolvers mode cache n = some cache') : Reachable cache'

theorem Reachable.cacheInv (h : Reachable cache) : CacheInv cache := by
  induction h with
  | empty =>
    intro address R hfind
    cases hfind
  | observe resolvers mode n _ hobserve ih => exact ih.observe hobserve

def numValues (cache : AccountRestrictionCache) (address : Address) (flags : AccountRestrictionFlags) : Nat :=
  (((entry cache address).restriction flags).map fun r => r.values.card).getD 0

theorem numValues_of_none {address : Address} (h : cache.find? address = none) (flags : AccountRestrictionFlags) :
    numValues cache address flags = 0 := by
  rw [numValues, entry, h, Option.getD_none]
  cases hr : (create address).restriction flags with
  | none => rfl
  | some r => simp [values_of_isEmpty (isEmpty_create address) hr]

theorem fits_of_validate {r : AccountRestriction}
    (hr : (entry cache n.address).restriction n.accountRestrictionDescriptor.directionalRestrictionFlags = some r)
    (hvalid : Validators.validateValueModification resolvers cache n = some .success)
    (hpresent : n.action = .del → cache.find? n.address ≠ none) :
    r.Fits n.accountRestrictionDescriptor.operationType (rawModification resolvers n) := by
  cases hfind : cache.find? n.address with
  | none =>
    rw [entry, hfind, Option.getD_none] at hr
    have hempty : r.values = ∅ := values_of_isEmpty (isEmpty_create n.address) hr
    have hadd : n.action ≠ .del := fun hdel => hpresent hdel hfind
    exact ⟨.inl hempty, by simp [hempty, rawModification, hadd]⟩
  | some R =>
    rw [entry, hfind, Option.getD_some] at hr
    simp only [Validators.validateValueModification, hfind] at hvalid
    obtain ⟨r₁, hr₁, hvalid⟩ := Option.bind_eq_some_iff.1 hvalid
    obtain ⟨allowed, hallowed, hresult⟩ := Option.bind_eq_some_iff.1 hvalid
    obtain rfl : r₁ = r := Option.some.inj (hr₁.symm.trans hr)
    have htrue : allowed = true := by
      cases allowed with
      | true => rfl
      | false => simp at hresult
    rw [htrue] at hallowed
    refine AccountRestriction.fits_of_isOperationAllowed ?_
    cases htype : n.accountRestrictionDescriptor.operationType with
    | allow =>
      simp only [htype, if_true] at hallowed
      exact hallowed
    | block =>
      simp only [htype, reduceCtorEq, if_false] at hallowed
      exact hallowed

theorem CacheInv.rollback_observe (h : CacheInv cache)
    (hvalid : Validators.validateValueModification resolvers cache n = some .success)
    (hpresent : n.action = .del → cache.find? n.address ≠ none)
    (hobserve : observeNotification resolvers .commit cache n = some cache') :
    observeNotification resolvers .rollback cache' n = some cache ∧
    (n.action = .add → numValues cache' n.address n.accountRestrictionDescriptor.directionalRestrictionFlags =
      numValues cache n.address n.accountRestrictionDescriptor.directionalRestrictionFlags + 1) ∧
    (n.action = .del → numValues cache' n.address n.accountRestrictionDescriptor.directionalRestrictionFlags + 1 =
      numValues cache n.address n.accountRestrictionDescriptor.directionalRestrictionFlags) := by
  obtain ⟨r, r', hr, hr', rfl⟩ := observeNotification_cases hobserve
  obtain ⟨e, he, hwf⟩ := (h.entry n.address).restriction hr
  have hfits := fits_of_validate hr hvalid hpresent
  obtain ⟨hwf', hvalues⟩ := hwf.modify hr'
  have hentry : Restrictions.entry (Restrictions.store cache n.address _) n.address = _ :=
    entry_store ((h.entry n.address).setRestriction he hwf')
  refine ⟨?_, ?_, ?_⟩
  · have hback : observeNotification resolvers .rollback _ n = _ :=
      observeNotification_eq (hentry ▸ restriction_setRestriction) (hwf.modify_inverted hfits hr')
    rw [hback, hentry, setRestriction_setRestriction hr, h.store_store]
  · intro hadd
    have hnot : resolvers.resolve kind n.restrictionValue ∉ r.values := fun hmem => by
      simpa [rawModification, hadd] using hfits.contained.1 hmem
    rw [numValues, numValues, hentry, restriction_setRestriction, hr]
    simp [hvalues, AccountRestriction.modifiedValues, modificationOf, rawModification, hadd, hnot]
  · intro hdel
    have hmem : resolvers.resolve kind n.restrictionValue ∈ r.values := hfits.contained.2 hdel
    rw [numValues, numValues, hentry, restriction_setRestriction, hr]
    simpa [hvalues, AccountRestriction.modifiedValues, modificationOf, rawModification, hdel] using
      Finset.card_erase_add_one hmem

/-- There are values for all deletions, when there are `count` of them before the modifications. -/
def Covered : Nat → List AccountRestrictionModificationAction → Prop
  | _, [] => True
  | count, .add :: actions => Covered (count + 1) actions
  | 0, .del :: _ => False
  | count + 1, .del :: actions => Covered count actions

theorem covered_deletions {count deletions : Nat} (h : deletions ≤ count) :
    Covered count (List.replicate deletions .del) := by
  induction deletions generalizing count with
  | zero => trivial
  | succ deletions ih =>
    cases count with
    | zero => omega
    | succ count => exact ih (by omega)

theorem covered_additions_deletions {count additions deletions : Nat} (h : deletions ≤ count + additions) :
    Covered count (List.replicate additions .add ++ List.replicate deletions .del) := by
  induction additions generalizing count with
  | zero => exact covered_deletions h
  | succ additions ih => exact ih (by omega)

variable {maxAccountRestrictionValues : UInt16}

theorem validate_of_process (h : process maxAccountRestrictionValues resolvers cache (.value n) = some cache') :
    Validators.validateValueModification resolvers cache n = some .success ∧
    observeNotification resolvers .commit cache n = some cache' := by
  rw [process] at h
  split at h
  · rename_i haccepts
    simp only [accepts, Bool.and_eq_true, decide_eq_true_eq] at haccepts
    exact ⟨haccepts.1.1, h⟩
  · cases h

theorem CacheInv.rollback_values {address : Address} {descriptor : AccountRestrictionDescriptor}
    {ns : List (ModifyAccountRestrictionValueNotification kind)} (h : CacheInv cache)
    (hsame : ∀ n ∈ ns, n.address = address ∧ n.accountRestrictionDescriptor = descriptor)
    (hcovered : Covered (numValues cache address descriptor.directionalRestrictionFlags)
      (ns.map ModifyAccountRestrictionValueNotification.action))
    (hprocess : (ns.map Notification.value).foldlM (process maxAccountRestrictionValues resolvers) cache =
      some cache') :
    ns.reverse.foldlM (observeNotification resolvers .rollback) cache' = some cache := by
  induction ns generalizing cache with
  | nil => exact hprocess.symm
  | cons n ns ih =>
    obtain ⟨rfl, rfl⟩ := hsame n List.mem_cons_self
    rw [List.map_cons, List.foldlM_cons] at hprocess
    obtain ⟨cache₁, hfirst, hrest⟩ := Option.bind_eq_some_iff.1 hprocess
    obtain ⟨hvalid, hobserve⟩ := validate_of_process hfirst
    have hpresent : n.action = .del → cache.find? n.address ≠ none := by
      intro hdel hnone
      rw [numValues_of_none hnone, List.map_cons, hdel] at hcovered
      exact hcovered
    obtain ⟨hback, hadd, hdel⟩ := h.rollback_observe hvalid hpresent hobserve
    have hcovered' : Covered (numValues cache₁ n.address n.accountRestrictionDescriptor.directionalRestrictionFlags)
        (ns.map ModifyAccountRestrictionValueNotification.action) := by
      rw [List.map_cons] at hcovered
      cases haction : n.action with
      | add =>
        rw [haction] at hcovered
        rw [hadd haction]
        exact hcovered
      | del =>
        rw [haction, ← hdel haction] at hcovered
        exact hcovered
    have htail := ih (h.observe hobserve) (fun n' hn' => hsame n' (List.mem_cons_of_mem _ hn')) hcovered' hrest
    rw [List.reverse_cons, List.foldlM_append, htail]
    simpa using hback

theorem deletions_le {address : Address} {descriptor : AccountRestrictionDescriptor}
    {additions deletions : List kind.UnresolvedValue} (hdeletions : deletions.length < 2 ^ 8)
    (h : accepts maxAccountRestrictionValues resolvers cache (.modifications address descriptor additions deletions) =
      true) :
    deletions.length ≤ numValues cache address descriptor.directionalRestrictionFlags + additions.length := by
  simp only [accepts, Bool.and_eq_true, decide_eq_true_eq] at h
  obtain ⟨⟨-, hredundant⟩, hmax⟩ := h
  by_contra hlt
  rw [Nat.not_le] at hlt
  cases hfind : cache.find? address with
  | none =>
    have hzero : 0 ≠ deletions.length := by omega
    rw [Validators.validateRedundantModification] at hredundant
    simp only [hfind, hzero, ne_eq, not_false_eq_true, true_and, if_true] at hredundant
    split at hredundant <;> cases hredundant
  | some R =>
    simp only [Validators.validateMaxValues, hfind] at hmax
    split at hmax
    · cases hmax
    · obtain ⟨r, hr, hresult⟩ := Option.bind_eq_some_iff.1 hmax
      have hnum : numValues cache address descriptor.directionalRestrictionFlags = r.values.card := by
        rw [numValues, entry, hfind, Option.getD_some, hr]
        rfl
      rw [hnum] at hlt
      -- the difference is negative, and far above the limit in 64 bits
      have hwrap : maxAccountRestrictionValues.toNat < (UInt64.ofNat r.values.card + UInt64.ofNat additions.length -
          UInt64.ofNat deletions.length).toNat := by
        have hlimit := maxAccountRestrictionValues.toNat_lt
        rw [UInt64.toNat_sub, UInt64.toNat_add, UInt64.toNat_ofNat', UInt64.toNat_ofNat', UInt64.toNat_ofNat']
        omega
      simp [hwrap] at hresult

theorem checks_of_process {flags : AccountRestrictionFlags} {address : Address}
    {descriptor : AccountRestrictionDescriptor} {additions deletions : List kind.UnresolvedValue}
    (h : [Notification.modification flags, .modifications address descriptor additions deletions].foldlM
      (process maxAccountRestrictionValues resolvers) cache = some cache') :
    cache = cache' ∧ accepts maxAccountRestrictionValues resolvers cache
      (.modifications address descriptor additions deletions) = true := by
  rw [List.foldlM_cons] at h
  obtain ⟨cache₁, hfirst, hrest⟩ := Option.bind_eq_some_iff.1 h
  obtain ⟨cache₂, hsecond, hend⟩ := Option.bind_eq_some_iff.1 hrest
  simp only [process, Option.ite_none_right_eq_some, Option.some.injEq] at hfirst hsecond
  obtain ⟨-, rfl⟩ := hfirst
  obtain ⟨haccepts, rfl⟩ := hsecond
  exact ⟨Option.some.inj hend, haccepts⟩

/-- In every reachable cache, rolling back the values of a transaction whose notifications were all accepted leads back
to the cache before it. -/
theorem rollbackTransaction_commitTransaction (h : Reachable cache) (transaction : AccountRestrictionTransaction kind)
    (signerAddress : Address)
    (hcommit : commitTransaction maxAccountRestrictionValues resolvers transaction signerAddress cache =
      some cache') :
    rollbackTransaction resolvers transaction signerAddress cache' = some cache := by
  rw [commitTransaction, publish, List.foldlM_append] at hcommit
  obtain ⟨cache₁, hchecks, hvalues⟩ := Option.bind_eq_some_iff.1 hcommit
  obtain ⟨rfl, haccepts⟩ := checks_of_process hchecks
  have hsame : ∀ n ∈ valueNotifications transaction signerAddress,
      n.address = signerAddress ∧ n.accountRestrictionDescriptor = ⟨transaction.restrictionFlags⟩ := by
    intro n hn
    rcases List.mem_append.1 hn with hn | hn <;>
    · obtain ⟨value, -, rfl⟩ := List.mem_map.1 hn
      exact ⟨rfl, rfl⟩
  have hactions : (valueNotifications transaction signerAddress).map
      ModifyAccountRestrictionValueNotification.action =
      List.replicate transaction.restrictionAdditions.length .add ++
        List.replicate transaction.restrictionDeletions.length .del := by
    simp [valueNotifications, raiseValueNotifications, Function.comp_def]
  refine h.cacheInv.rollback_values hsame ?_ hvalues
  rw [hactions]
  exact covered_additions_deletions (deletions_le transaction.deletionsCount_lt haccepts)

def sampleResolvers : ResolverContext :=
  ⟨fun address => ⟨address⟩, fun mosaicId => if mosaicId = 9 then 8 else mosaicId⟩

def oneMosaic : AccountRestrictionCache :=
  (@observeNotification .mosaic sampleResolvers .commit ∅ ⟨⟨1⟩, ⟨.mosaicId⟩, (7 : UInt64), .add⟩).getD ∅

def exchangeMosaics : AccountRestrictionTransaction .mosaic :=
  ⟨.mosaicId, [(8 : UInt64)], [(7 : UInt64), (9 : UInt64)], by decide, by decide⟩

/-- The entry of an account vanishes with its only value, and is there again after the rollback. -/
theorem rollbackTransaction_last_value : ∃ cache : AccountRestrictionCache, cache.size = 0 ∧ oneMosaic.size = 1 ∧
    rollbackTransaction sampleResolvers exchangeMosaics ⟨1⟩ cache = some oneMosaic := by
  have hreachable : Reachable oneMosaic := by
    obtain ⟨cache, hcache⟩ := Option.isSome_iff_exists.1 (show (@observeNotification .mosaic sampleResolvers .commit ∅
      ⟨⟨1⟩, ⟨.mosaicId⟩, (7 : UInt64), .add⟩).isSome = true by decide +kernel)
    rw [oneMosaic, hcache]
    exact .observe sampleResolvers .commit _ .empty hcache
  have hcommit : (commitTransaction 512 sampleResolvers exchangeMosaics ⟨1⟩ oneMosaic).map SortedMap.size = some 0 := by
    decide +kernel
  obtain ⟨cache, hcache, hsize⟩ := Option.map_eq_some_iff.1 hcommit
  exact ⟨cache, hsize, by decide +kernel, rollbackTransaction_commitTransaction hreachable _ _ hcache⟩

end
end Catapult.Restrictions
