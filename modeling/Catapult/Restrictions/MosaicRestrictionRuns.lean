import Catapult.Restrictions.MosaicRestriction

/-!
# Commits and rollbacks of mosaic restrictions

An accepted transaction states the rule that it replaces, so the notification with the previous rule puts it back. An
entry loses its last rule together with itself, and is made again with the target of the notification. The number of
the rules of an entry stays within the maximum, unless the maximum is zero: the first rule of an entry is not counted.
-/

namespace Catapult.MosaicRestrictions

/-! ## Restrictions that may be missing -/

namespace Restriction
variable {Target Rule : Type} {isRemoval : Rule → Bool} {restriction restriction' : Restriction Target Rule isRemoval}
  {current current' : Option (Restriction Target Rule isRemoval)} {target : Target} {key : UInt64} {rule : Rule}

theorem ext_tryGet (htarget : restriction.target = restriction'.target)
    (h : ∀ key, restriction.tryGet key = restriction'.tryGet key) : restriction = restriction' := by
  obtain ⟨target, rules, _⟩ := restriction
  obtain ⟨target', rules', _⟩ := restriction'
  obtain rfl : target = target' := htarget
  obtain rfl : rules = rules' := Finmap.ext_lookup h
  rfl

theorem tryGet_set (restriction : Restriction Target Rule isRemoval) (key : UInt64) (rule : Rule) (k : UInt64) :
    (restriction.set key rule).tryGet k = if k = key then stored isRemoval rule else restriction.tryGet k :=
  lookup_set restriction.rules key rule k

theorem mem_keys_iff {k : UInt64} : k ∈ restriction.rules.keys ↔ (restriction.tryGet k).isSome = true := by
  rw [Finmap.mem_keys, tryGet, Finmap.lookup_isSome]

theorem size_ne_zero_iff : restriction.size ≠ 0 ↔ ∃ key, (restriction.tryGet key).isSome = true := by
  rw [size, Finset.card_ne_zero]
  exact exists_congr fun _ => mem_keys_iff

theorem keys_set_subset : (restriction.set key rule).rules.keys ⊆ insert key restriction.rules.keys := by
  intro k hk
  rw [mem_keys_iff, tryGet_set] at hk
  rw [Finset.mem_insert, mem_keys_iff]
  split at hk
  · case isTrue heq => exact .inl heq
  · exact .inr hk

theorem size_set_le (restriction : Restriction Target Rule isRemoval) (key : UInt64) (rule : Rule) :
    (restriction.set key rule).size ≤ restriction.size + 1 :=
  (Finset.card_le_card keys_set_subset).trans (Finset.card_insert_le key _)

theorem size_set_le_of_isSome (h : isRemoval rule = true ∨ (restriction.tryGet key).isSome = true) :
    (restriction.set key rule).size ≤ restriction.size := by
  refine Finset.card_le_card fun k hk => ?_
  rw [mem_keys_iff, tryGet_set] at hk
  rw [mem_keys_iff]
  split at hk
  · case isTrue heq =>
    rcases h with hremoval | hsome
    · rw [stored, if_pos hremoval] at hk
      cases hk
    · rw [heq]
      exact hsome
  · exact hk

def ruleOf (current : Option (Restriction Target Rule isRemoval)) (key : UInt64) : Option Rule :=
  current.bind fun restriction => restriction.tryGet key

@[simp] theorem ruleOf_some : ruleOf (some restriction) key = restriction.tryGet key := rfl

/-- What an observer makes of a restriction. A new one is not counted. -/
def setIn (target : Target) (current : Option (Restriction Target Rule isRemoval)) (key : UInt64) (rule : Rule) :
    Option (Restriction Target Rule isRemoval) :=
  match current with
  | none => some ((create target).set key rule)
  | some restriction => if 0 = (restriction.set key rule).size then none else some (restriction.set key rule)

/-- A restriction of the target that has rules, or none. -/
def IsFor (target : Target) (current : Option (Restriction Target Rule isRemoval)) : Prop :=
  ∀ restriction, current = some restriction → restriction.target = target ∧ restriction.size ≠ 0

theorem ruleOf_setIn (target : Target) (current : Option (Restriction Target Rule isRemoval)) (key : UInt64)
    (rule : Rule) (k : UInt64) :
    ruleOf (setIn target current key rule) k = if k = key then stored isRemoval rule else ruleOf current k := by
  cases current with
  | none => exact tryGet_set _ key rule k
  | some restriction =>
    rw [setIn]
    split
    · case isTrue hsize =>
      -- no key has a rule
      have hnone : (restriction.set key rule).tryGet k = none := by
        by_contra hne
        exact size_ne_zero_iff.2 ⟨k, Option.isSome_iff_ne_none.2 hne⟩ hsize.symm
      rw [tryGet_set] at hnone
      exact hnone.symm
    · exact tryGet_set _ key rule k

theorem eq_of_ruleOf (h : IsFor target current) (h' : IsFor target current')
    (hrule : ∀ key, ruleOf current key = ruleOf current' key) : current = current' := by
  cases current with
  | none =>
    cases current' with
    | none => rfl
    | some restriction' =>
      obtain ⟨key, hkey⟩ := size_ne_zero_iff.1 (h' restriction' rfl).2
      have hnone : restriction'.tryGet key = none := (hrule key).symm
      rw [hnone] at hkey
      cases hkey
  | some restriction =>
    cases current' with
    | none =>
      obtain ⟨key, hkey⟩ := size_ne_zero_iff.1 (h restriction rfl).2
      have hnone : restriction.tryGet key = none := hrule key
      rw [hnone] at hkey
      cases hkey
    | some restriction' =>
      rw [ext_tryGet ((h restriction rfl).1.trans (h' restriction' rfl).1.symm) hrule]

theorem isFor_setIn (key : UInt64) (h : IsFor target current) (hrule : current = none → isRemoval rule = false) :
    IsFor target (setIn target current key rule) := by
  intro restriction hset
  cases current with
  | none =>
    cases hset
    refine ⟨rfl, size_ne_zero_iff.2 ⟨key, ?_⟩⟩
    rw [tryGet_set, if_pos rfl, stored, hrule rfl]
    rfl
  | some old =>
    rw [setIn] at hset
    split at hset
    · cases hset
    · case isFalse hsize =>
      cases hset
      exact ⟨(h old rfl).1, Ne.symm hsize⟩

theorem setIn_setIn {previousRule : Rule} (h : IsFor target current)
    (hrule : current = none → isRemoval rule = false) (hprevious : stored isRemoval previousRule = ruleOf current key) :
    setIn target (setIn target current key rule) key previousRule = current := by
  have hset := isFor_setIn key h hrule
  refine eq_of_ruleOf (isFor_setIn key hset fun hnone => ?_) h fun k => ?_
  · -- if nothing is left and there was no rule under the key, then there was nothing before
    rw [← Bool.not_eq_true]
    intro hremoval
    have hall : ∀ k, ruleOf current k = none := by
      intro k
      by_cases hk : k = key
      · rw [hk, ← hprevious, stored, if_pos hremoval]
      · have hk' := ruleOf_setIn target current key rule k
        rw [hnone, if_neg hk] at hk'
        exact hk'.symm
    obtain rfl : current = none := eq_of_ruleOf h (fun _ hsome => nomatch hsome) hall
    cases hnone
  · rw [ruleOf_setIn, ruleOf_setIn, hprevious]
    split
    · case isTrue hk => rw [hk]
    · rfl

theorem size_setIn_le {max : Nat} (hset : setIn target current key rule = some restriction')
    (hnone : current = none → 1 ≤ max)
    (hsome : ∀ restriction, current = some restriction → restriction.size ≤ max ∧
      (isRemoval rule = true ∨ (ruleOf current key).isSome = true ∨ restriction.size < max)) :
    restriction'.size ≤ max := by
  cases current with
  | none =>
    cases hset
    exact (size_set_le (create target) key rule).trans (hnone rfl)
  | some restriction =>
    obtain ⟨hle, hcase⟩ := hsome restriction rfl
    rw [setIn] at hset
    split at hset
    · cases hset
    cases hset
    rcases hcase with hremoval | hrule | hlt
    · exact (size_set_le_of_isSome (.inl hremoval)).trans hle
    · exact (size_set_le_of_isSome (.inr hrule)).trans hle
    · exact (size_set_le restriction key rule).trans hlt

end Restriction

/-! ## Entries -/

section Entries
variable {Hash Address Target Rule : Type} [Inhabited Address] {isRemoval : Rule → Bool}
  {view : EntryView Address Target Rule isRemoval} {createKey : UInt64 × Address → Hash}
  {targets : Set (UInt64 × Address)} {entries : Entries Hash Address} {facade : NotificationFacade view}
  {current : Option (Restriction Target Rule isRemoval)}

def NonEmpty (entries : Entries Hash Address) : Prop := ∀ hash entry, entries hash = some entry → entry.count ≠ 0

def Within (max : UInt8) (entries : Entries Hash Address) : Prop :=
  ∀ hash entry, entries hash = some entry → entry.count ≤ max.toNat

def Keyed (createKey : UInt64 × Address → Hash) (targets : Set (UInt64 × Address)) (entries : Entries Hash Address) :
    Prop :=
  ∀ hash entry, entries hash = some entry → entry.target ∈ targets ∧ entry.uniqueKey createKey = hash

structure Sees (createKey : UInt64 × Address → Hash) (facade : NotificationFacade view) (entries : Entries Hash Address)
    (current : Option (Restriction Target Rule isRemoval)) : Prop where
  entry_eq : entries (facade.uniqueKey createKey) = current.map view.toEntry
  target_eq : ∀ restriction, current = some restriction → restriction.target = facade.target

theorem exists_sees (hinj : Set.InjOn createKey targets) (hkeyed : Keyed createKey targets entries)
    (htarget : view.keyTarget facade.target ∈ targets) {rule : Option Rule}
    (hrule : existingRule createKey facade entries = .ok rule) : ∃ current, Sees createKey facade entries current := by
  rw [existingRule] at hrule
  cases hentry : entries (facade.uniqueKey createKey) with
  | none => exact ⟨none, hentry, fun _ hsome => nomatch hsome⟩
  | some entry =>
    simp only [hentry, NotificationFacade.tryGet] at hrule
    cases hrestriction : view.asRestriction entry with
    | error error =>
      rw [hrestriction] at hrule
      cases hrule
    | ok restriction =>
      have heq := (view.asRestriction_eq_ok entry restriction).1 hrestriction
      refine ⟨some restriction, hentry.trans (congrArg some heq), fun _ hsome => ?_⟩
      cases hsome
      obtain ⟨hmem, hkey⟩ := hkeyed _ entry hentry
      have hkeyTarget := hinj hmem htarget hkey
      rw [heq, view.target_toEntry] at hkeyTarget
      exact view.keyTarget_injective hkeyTarget

theorem tryGet_toEntry (restriction : Restriction Target Rule isRemoval) :
    facade.tryGet (view.toEntry restriction) = .ok (restriction.tryGet facade.restrictionKey) := by
  have hok := (view.asRestriction_eq_ok (view.toEntry restriction) restriction).2 rfl
  rw [NotificationFacade.tryGet, hok]
  exact congrArg Except.ok (view.tryGet_eq restriction facade.restrictionKey)

namespace Sees
variable (h : Sees createKey facade entries current)
include h

theorem isFor (hne : NonEmpty entries) : Restriction.IsFor facade.target current := by
  intro restriction hsome
  refine ⟨h.target_eq restriction hsome, ?_⟩
  have hentry := h.entry_eq
  rw [hsome] at hentry
  rw [← view.count_toEntry]
  exact hne _ _ hentry

theorem existingRule_eq :
    existingRule createKey facade entries = .ok (Restriction.ruleOf current facade.restrictionKey) := by
  rw [existingRule, h.entry_eq]
  cases current with
  | none => rfl
  | some restriction => exact tryGet_toEntry restriction

theorem observe_eq [DecidableEq Hash] (mode : NotifyMode) :
    observeNotification createKey mode mode facade entries =
      .ok (Function.update entries (facade.uniqueKey createKey)
        ((Restriction.setIn facade.target current facade.restrictionKey facade.toRule).map view.toEntry)) := by
  have hok := fun restriction => (view.asRestriction_eq_ok (view.toEntry restriction) restriction).2 rfl
  have hkey : ∀ restriction, restriction.target = facade.target →
      (view.toEntry restriction).uniqueKey createKey = facade.uniqueKey createKey := by
    intro restriction htarget
    rw [MosaicRestrictionEntry.uniqueKey, view.target_toEntry, htarget, NotificationFacade.uniqueKey]
  rw [observeNotification, if_neg (not_not.2 rfl), h.entry_eq]
  cases current with
  | none =>
    rw [Option.map_none]
    simp only [NotificationFacade.update, hok, Except.map]
    rw [hkey _ rfl]
    rfl
  | some restriction =>
    rw [Option.map_some]
    simp only [NotificationFacade.update, hok, Except.map]
    rw [hkey (restriction.set facade.restrictionKey facade.toRule) (h.target_eq restriction rfl), Restriction.setIn]
    split
    · rw [Function.update_idem]
      rfl
    · rfl

end Sees

structure SameRule (previous new : NotificationFacade view) : Prop where
  target_eq : previous.target = new.target
  restrictionKey_eq : previous.restrictionKey = new.restrictionKey

theorem Sees.of_sameRule {new : NotificationFacade view} (hsame : SameRule facade new)
    (h : Sees createKey facade entries current) : Sees createKey new entries current := by
  refine ⟨?_, fun restriction hsome => (h.target_eq restriction hsome).trans hsame.target_eq⟩
  rw [← h.entry_eq, NotificationFacade.uniqueKey, NotificationFacade.uniqueKey, hsame.target_eq]

variable [DecidableEq Hash]

theorem sees_update (facade : NotificationFacade view) (entries : Entries Hash Address)
    (h : ∀ restriction, current = some restriction → restriction.target = facade.target) :
    Sees createKey facade (Function.update entries (facade.uniqueKey createKey) (current.map view.toEntry)) current :=
  ⟨Function.update_self .., h⟩

theorem forall_update {P : Hash → MosaicRestrictionEntry Address → Prop} {key : Hash}
    (h : ∀ hash entry, entries hash = some entry → P hash entry)
    (hcurrent : ∀ restriction, current = some restriction → P key (view.toEntry restriction)) :
    ∀ hash entry, Function.update entries key (current.map view.toEntry) hash = some entry → P hash entry := by
  intro hash entry hentry
  by_cases hhash : hash = key
  · rw [hhash, Function.update_self] at hentry
    obtain ⟨restriction, hsome, rfl⟩ := Option.map_eq_some_iff.1 hentry
    rw [hhash]
    exact hcurrent restriction hsome
  · rw [Function.update_of_ne hhash] at hentry
    exact h hash entry hentry

end Entries

/-! ## Modifications -/

section Modifications
variable {Hash Address Target Rule : Type} [Inhabited Address] [DecidableEq Rule] {isRemoval : Rule → Bool}
  {view : EntryView Address Target Rule isRemoval} {createKey : UInt64 × Address → Hash}
  {targets : Set (UInt64 × Address)} {max : UInt8} {previous new : NotificationFacade view}
  {entries : Entries Hash Address}
  {current : Option (Restriction Target Rule isRemoval)}

theorem accepts_iff : accepts createKey max previous new entries = true ↔
    validateModification createKey previous entries = .ok .success ∧
      validateMaxValues createKey max new entries = .ok .success := by
  rw [accepts]
  split
  · case h_1 hprevious hnew => simp [hprevious, hnew]
  · case h_2 hnot =>
    constructor
    · intro h
      cases h
    · rintro ⟨hprevious, hnew⟩
      exact (hnot hprevious hnew).elim

structure Accepted (max : UInt8) (previous new : NotificationFacade view)
    (current : Option (Restriction Target Rule isRemoval)) : Prop where
  previous_eq : Restriction.stored isRemoval previous.toRule = Restriction.ruleOf current previous.restrictionKey
  not_removal : current = none → isRemoval new.toRule = false
  count_lt : ∀ restriction, current = some restriction → isRemoval new.toRule = true ∨
    (Restriction.ruleOf current new.restrictionKey).isSome = true ∨ restriction.size < max.toNat

theorem previous_eq_of_validate (h : Sees createKey previous entries current)
    (hvalidate : validateModification createKey previous entries = .ok .success) :
    Restriction.stored isRemoval previous.toRule = Restriction.ruleOf current previous.restrictionKey := by
  rw [validateModification, h.existingRule_eq] at hvalidate
  simp only [Except.map, Except.ok.injEq] at hvalidate
  rw [Restriction.stored]
  cases hrule : Restriction.ruleOf current previous.restrictionKey with
  | none =>
    simp only [hrule] at hvalidate
    split at hvalidate
    · case isTrue hunset => exact if_pos (previous.isRemoval_of_isUnset hunset)
    · cases hvalidate
  | some rule =>
    simp only [hrule] at hvalidate
    split at hvalidate
    · case isTrue hmatch =>
      -- a rule of an entry is not one that removes
      obtain rfl : rule = previous.toRule := of_decide_eq_true hmatch
      obtain ⟨restriction, -, htryGet⟩ := Option.bind_eq_some_iff.1 hrule
      rw [if_neg (by rw [restriction.not_removal _ _ htryGet]; exact Bool.false_ne_true)]
    · cases hvalidate

theorem accepted_of_accepts (hprevious : Sees createKey previous entries current)
    (hnew : Sees createKey new entries current) (haccepts : accepts createKey max previous new entries = true) :
    Accepted max previous new current := by
  obtain ⟨hmodification, hmaxValues⟩ := accepts_iff.1 haccepts
  rw [validateMaxValues, hnew.entry_eq] at hmaxValues
  refine ⟨previous_eq_of_validate hprevious hmodification, fun hnone => ?_, fun restriction hsome => ?_⟩
  · rw [hnone] at hmaxValues
    cases hremoval : isRemoval new.toRule with
    | false => rfl
    | true => simp [NotificationFacade.isDeleteAction, hremoval] at hmaxValues
  · rw [hsome] at hmaxValues ⊢
    simp only [Option.map_some, tryGet_toEntry, Except.map, Except.ok.injEq, NotificationFacade.isDeleteAction,
      view.count_toEntry] at hmaxValues
    split at hmaxValues
    · cases hmaxValues
    · split at hmaxValues
      · case isTrue hcase => simpa [or_assoc] using hcase
      · cases hmaxValues

variable [DecidableEq Hash]

structure Committed (createKey : UInt64 × Address → Hash) (targets : Set (UInt64 × Address)) (max : UInt8)
    (rollback : Entries Hash Address → Except EntryError (Entries Hash Address))
    (entries entries' : Entries Hash Address) : Prop where
  rollback_eq : rollback entries' = .ok entries
  nonEmpty : NonEmpty entries'
  keyed : Keyed createKey targets entries'
  within : max ≠ 0 → Within max entries → Within max entries'
  exists_entry : (∀ hash, entries hash = none) → ∃ hash, (entries' hash).isSome = true

theorem committed_of_accepts (hsame : SameRule previous new) (hinj : Set.InjOn createKey targets)
    (htarget : view.keyTarget previous.target ∈ targets) (hkeyed : Keyed createKey targets entries)
    (hne : NonEmpty entries) (haccepts : accepts createKey max previous new entries = true) :
    ∃ entries', observe createKey .commit previous new entries = .ok entries' ∧
      Committed createKey targets max (observe createKey .rollback previous new) entries entries' := by
  obtain ⟨current, hprevious⟩ : ∃ current, Sees createKey previous entries current := by
    have hmodification := (accepts_iff.1 haccepts).1
    cases hrule : existingRule createKey previous entries with
    | error error =>
      rw [validateModification, hrule] at hmodification
      cases hmodification
    | ok rule => exact exists_sees hinj hkeyed htarget hrule
  have hnew := hprevious.of_sameRule hsame
  have haccepted := accepted_of_accepts hprevious hnew haccepts
  have hfor := hnew.isFor hne
  have hfor' := Restriction.isFor_setIn new.restrictionKey hfor haccepted.not_removal
  have hkeyEq : previous.uniqueKey createKey = new.uniqueKey createKey := by
    rw [NotificationFacade.uniqueKey, NotificationFacade.uniqueKey, hsame.target_eq]
  refine ⟨_, hnew.observe_eq .commit, ?_, ?_, ?_, ?_, ?_⟩
  · have hsees : Sees createKey previous _ _ :=
      sees_update previous entries fun restriction hsome => (hfor' restriction hsome).1.trans hsame.target_eq.symm
    have hback := Restriction.setIn_setIn hfor haccepted.not_removal
      (haccepted.previous_eq.trans (congrArg _ hsame.restrictionKey_eq))
    rw [← hkeyEq, observe, hsees.observe_eq .rollback, hsame.restrictionKey_eq, hsame.target_eq, hback,
      Function.update_idem, ← hprevious.entry_eq, Function.update_eq_self]
    rfl
  · exact forall_update hne fun restriction hsome => by
      rw [view.count_toEntry]
      exact (hfor' restriction hsome).2
  · refine forall_update hkeyed fun restriction hsome => ?_
    rw [MosaicRestrictionEntry.uniqueKey, view.target_toEntry, (hfor' restriction hsome).1]
    exact ⟨hsame.target_eq ▸ htarget, rfl⟩
  · intro hmax hwithin
    refine forall_update hwithin fun restriction hsome => ?_
    rw [view.count_toEntry]
    refine Restriction.size_setIn_le hsome (fun _ => ?_) fun old hold => ⟨?_, haccepted.count_lt old hold⟩
    · rw [Nat.one_le_iff_ne_zero]
      exact fun hzero => hmax (UInt8.toNat_inj.1 hzero)
    · have hentry := hnew.entry_eq
      rw [hold] at hentry
      rw [← view.count_toEntry]
      exact hwithin _ _ hentry
  · intro hnone
    have hentry := hnew.entry_eq
    rw [hnone] at hentry
    obtain rfl : current = none := Option.map_eq_none_iff.1 hentry.symm
    exact ⟨new.uniqueKey createKey, by rw [Function.update_self]; rfl⟩

end Modifications

/-! ## Runs -/

section Runs
variable {Hash Address UnresolvedAddress : Type} [Inhabited Address] [DecidableEq Hash]
  {createKey : UInt64 × Address → Hash} {targets : Set (UInt64 × Address)} {max : UInt8}
  {entries entries' : Entries Hash Address} {chain chain' : Chain Hash Address UnresolvedAddress}
  {resolved : ResolvedTransaction Address UnresolvedAddress} {operation : Operation Address UnresolvedAddress}

theorem committed_of_commit (hinj : Set.InjOn createKey targets) (htarget : resolved.target ∈ targets)
    (hkeyed : Keyed createKey targets entries) (hne : NonEmpty entries)
    (haccepts : resolved.accepts createKey max entries = true) :
    ∃ entries', resolved.observe createKey .commit entries = .ok entries' ∧
      Committed createKey targets max (resolved.observe createKey .rollback) entries entries' := by
  obtain ⟨resolvers, transaction⟩ := resolved
  cases transaction with
  | global transaction => exact committed_of_accepts ⟨rfl, rfl⟩ hinj htarget hkeyed hne haccepts
  | address transaction => exact committed_of_accepts ⟨rfl, rfl⟩ hinj htarget hkeyed hne haccepts

theorem of_commit (hinj : Set.InjOn createKey targets) (htarget : resolved.target ∈ targets)
    (hkeyed : Keyed createKey targets entries) (hne : NonEmpty entries)
    (h : commit createKey max entries resolved = some entries') :
    Committed createKey targets max (resolved.observe createKey .rollback) entries entries' := by
  rw [commit] at h
  split at h
  · case isTrue haccepts =>
    obtain ⟨entries'', hobserve, hcommitted⟩ := committed_of_commit hinj htarget hkeyed hne haccepts
    rw [hobserve] at h
    cases h
    exact hcommitted
  · cases h

/-- What transactions leave that are committed one after another. -/
structure Good (createKey : UInt64 × Address → Hash) (targets : Set (UInt64 × Address)) (max : UInt8)
    (entries₀ entries : Entries Hash Address) : Prop where
  nonEmpty : NonEmpty entries
  keyed : Keyed createKey targets entries
  within : max ≠ 0 → Within max entries₀ → Within max entries

theorem good_of_commits (hinj : Set.InjOn createKey targets)
    (l : List (ResolvedTransaction Address UnresolvedAddress)) (hl : ∀ resolved ∈ l, resolved.target ∈ targets)
    (hne : NonEmpty entries) (hkeyed : Keyed createKey targets entries)
    (h : l.foldlM (commit createKey max) entries = some entries') : Good createKey targets max entries entries' := by
  induction l generalizing entries with
  | nil =>
    cases h
    exact ⟨hne, hkeyed, fun _ hwithin => hwithin⟩
  | cons resolved l ih =>
    rw [List.foldlM_cons, Option.bind_eq_bind] at h
    obtain ⟨next, hnext, hrest⟩ := Option.bind_eq_some_iff.1 h
    obtain ⟨hresolved, hl⟩ := List.forall_mem_cons.1 hl
    have hcommitted := of_commit hinj hresolved hkeyed hne hnext
    have hgood := ih hl hcommitted.nonEmpty hcommitted.keyed hrest
    exact ⟨hgood.nonEmpty, hgood.keyed, fun hmax hwithin => hgood.within hmax (hcommitted.within hmax hwithin)⟩

/-- What the transactions leave that are not rolled back. -/
structure ChainInv (createKey : UInt64 × Address → Hash) (targets : Set (UInt64 × Address)) (max : UInt8)
    (entries₀ : Entries Hash Address) (chain : Chain Hash Address UnresolvedAddress) : Prop where
  replays : chain.committed.reverse.foldlM (commit createKey max) entries₀ = some chain.entries
  target_mem : ∀ resolved ∈ chain.committed, resolved.target ∈ targets

section Invariant
variable (hinj : Set.InjOn createKey targets) (hkeyed : Keyed createKey targets entries) (hne : NonEmpty entries)
include hinj hkeyed hne

theorem ChainInv.good (h : ChainInv createKey targets max entries chain) :
    Good createKey targets max entries chain.entries :=
  good_of_commits hinj chain.committed.reverse (fun resolved hmem => h.target_mem resolved (List.mem_reverse.1 hmem))
    hne hkeyed h.replays

theorem ChainInv.rollback_eq {committed : List (ResolvedTransaction Address UnresolvedAddress)}
    (h : ChainInv createKey targets max entries chain) (hcommitted : chain.committed = resolved :: committed) :
    ∃ previous, resolved.observe createKey .rollback chain.entries = .ok previous ∧
      ChainInv createKey targets max entries ⟨previous, committed⟩ := by
  have hreplays := h.replays
  have htargets := h.target_mem
  rw [hcommitted] at hreplays htargets
  obtain ⟨htarget, htargets⟩ := List.forall_mem_cons.1 htargets
  rw [List.reverse_cons, List.foldlM_append, Option.bind_eq_bind] at hreplays
  obtain ⟨previous, hprevious, hlast⟩ := Option.bind_eq_some_iff.1 hreplays
  have hcommit : commit createKey max previous resolved = some chain.entries := by
    simpa only [List.foldlM_cons, List.foldlM_nil, Option.bind_eq_bind, Option.pure_def,
      Option.bind_fun_some] using hlast
  have hinv : ChainInv createKey targets max entries ⟨previous, committed⟩ := ⟨hprevious, htargets⟩
  have hgood := hinv.good hinj hkeyed hne
  exact ⟨previous, (of_commit hinj htarget hgood.keyed hgood.nonEmpty hcommit).rollback_eq, hinv⟩

theorem ChainInv.of_step (hoperation : ∀ resolved, operation = .commit resolved → resolved.target ∈ targets)
    (h : ChainInv createKey targets max entries chain)
    (hstep : step createKey max chain operation = some chain') :
    ChainInv createKey targets max entries chain' := by
  cases operation with
  | commit resolved =>
    obtain ⟨next, hnext, rfl⟩ := Option.map_eq_some_iff.1 hstep
    refine ⟨?_, List.forall_mem_cons.2 ⟨hoperation resolved rfl, h.target_mem⟩⟩
    rw [List.reverse_cons, List.foldlM_append, h.replays]
    simp only [Option.bind_eq_bind, Option.bind_some, List.foldlM_cons, hnext, List.foldlM_nil, Option.pure_def]
  | rollback =>
    rw [step] at hstep
    split at hstep
    · cases hstep
    · case h_2 resolved committed hcommitted =>
      obtain ⟨previous, hprevious, hinv⟩ := h.rollback_eq hinj hkeyed hne hcommitted
      rw [hprevious] at hstep
      cases hstep
      exact hinv

theorem ChainInv.of_run {operations : List (Operation Address UnresolvedAddress)}
    (htargets : ∀ resolved, .commit resolved ∈ operations → resolved.target ∈ targets)
    (h : ChainInv createKey targets max entries chain)
    (hrun : run createKey max chain operations = some chain') :
    ChainInv createKey targets max entries chain' := by
  induction operations generalizing chain with
  | nil =>
    cases hrun
    exact h
  | cons operation operations ih =>
    rw [run, List.foldlM_cons, Option.bind_eq_bind] at hrun
    obtain ⟨next, hnext, hrest⟩ := Option.bind_eq_some_iff.1 hrun
    refine ih (fun resolved hmem => htargets resolved (List.mem_cons_of_mem _ hmem)) ?_ hrest
    exact h.of_step hinj hkeyed hne (fun resolved heq => htargets resolved (heq ▸ List.mem_cons_self)) hnext

end Invariant

/-- The properties of a state. What can be committed is undone by a rollback, and so is what was committed. -/
structure Sound (createKey : UInt64 × Address → Hash) (targets : Set (UInt64 × Address)) (max : UInt8)
    (entries₀ : Entries Hash Address) (chain : Chain Hash Address UnresolvedAddress) : Prop where
  nonEmpty : NonEmpty chain.entries
  within : Within max chain.entries
  reversible : ∀ resolved : ResolvedTransaction Address UnresolvedAddress, resolved.target ∈ targets →
    resolved.accepts createKey max chain.entries = true →
      ∃ chain', step createKey max chain (.commit resolved) = some chain' ∧
        step createKey max chain' .rollback = some chain
  replays : chain.committed.reverse.foldlM (commit createKey max) entries₀ = some chain.entries
  canRollback : chain.committed ≠ [] → (step createKey max chain .rollback).isSome = true

theorem ChainInv.sound (hinj : Set.InjOn createKey targets) (hkeyed : Keyed createKey targets entries)
    (hne : NonEmpty entries) (h : ChainInv createKey targets max entries chain) (hwithin : Within max chain.entries) :
    Sound createKey targets max entries chain := by
  have hgood := h.good hinj hkeyed hne
  refine ⟨hgood.nonEmpty, hwithin, fun resolved htarget haccepts => ?_, h.replays, fun hcommitted => ?_⟩
  · obtain ⟨next, hnext, hcommitted⟩ := committed_of_commit hinj htarget hgood.keyed hgood.nonEmpty haccepts
    refine ⟨⟨next, resolved :: chain.committed⟩, ?_, ?_⟩
    · rw [step, commit, if_pos haccepts, hnext]
      rfl
    · simp only [step, hcommitted.rollback_eq]
      rfl
  · obtain ⟨resolved, committed, heq⟩ := List.exists_cons_of_ne_nil hcommitted
    obtain ⟨previous, hprevious, -⟩ := h.rollback_eq hinj hkeyed hne heq
    rw [step, heq]
    simp only [hprevious]
    rfl

theorem not_within_zero (hinj : Set.InjOn createKey targets) (hkeyed : Keyed createKey targets entries)
    (hne : NonEmpty entries) (hwithin : Within 0 entries)
    (htarget : ∀ resolved, operation = .commit resolved → resolved.target ∈ targets)
    (hstep : step createKey max ⟨entries, []⟩ operation = some chain) (hne' : NonEmpty chain.entries) :
    ¬Within 0 chain.entries := by
  intro hwithin'
  have hempty : ∀ hash, entries hash = none := by
    intro hash
    by_contra hsome
    obtain ⟨entry, hentry⟩ := Option.ne_none_iff_exists'.1 hsome
    exact hne hash entry hentry (Nat.le_zero.1 (hwithin hash entry hentry))
  cases operation with
  | rollback => cases hstep
  | commit resolved =>
    obtain ⟨next, hnext, rfl⟩ := Option.map_eq_some_iff.1 hstep
    have hcommitted := of_commit hinj (htarget resolved rfl) hkeyed hne hnext
    obtain ⟨hash, hsome⟩ := hcommitted.exists_entry hempty
    obtain ⟨entry, hentry⟩ := Option.isSome_iff_exists.1 hsome
    exact hne' hash entry hentry (Nat.le_zero.1 (hwithin' hash entry hentry))

/-- With a maximum of zero the cache is empty until the first commit, which is accepted. -/
theorem runs_sound_iff {operations : List (Operation Address UnresolvedAddress)} (hinj : Set.InjOn createKey targets)
    (hkeyed : Keyed createKey targets entries) (hne : NonEmpty entries) (hwithin : Within max entries)
    (htargets : ∀ resolved, .commit resolved ∈ operations → resolved.target ∈ targets)
    (hrun : (run createKey max ⟨entries, []⟩ operations).isSome = true) :
    (∀ before, before <+: operations → ∀ chain, run createKey max ⟨entries, []⟩ before = some chain →
      Sound createKey targets max entries chain) ↔ max ≠ 0 ∨ operations = [] := by
  have hinit : ChainInv createKey targets max entries (⟨entries, []⟩ : Chain Hash Address UnresolvedAddress) :=
    ⟨rfl, fun _ hmem => nomatch hmem⟩
  constructor
  · intro hsound
    cases operations with
    | nil => exact .inr rfl
    | cons operation operations =>
      refine .inl fun hzero => ?_
      obtain ⟨final, hrun⟩ := Option.isSome_iff_exists.1 hrun
      rw [run, List.foldlM_cons, Option.bind_eq_bind] at hrun
      obtain ⟨chain, hchain, -⟩ := Option.bind_eq_some_iff.1 hrun
      have hone := hsound [operation] ⟨operations, rfl⟩ chain (by
        rw [run, List.foldlM_cons, hchain]
        rfl)
      rw [hzero] at hwithin
      refine not_within_zero hinj hkeyed hne hwithin (fun resolved heq => ?_) hchain hone.nonEmpty (hzero ▸ hone.within)
      exact htargets resolved (heq ▸ List.mem_cons_self)
  · rintro hmax before hbefore chain hchain
    have hinv := hinit.of_run hinj hkeyed hne (fun resolved hmem => htargets resolved (hbefore.subset hmem)) hchain
    refine hinv.sound hinj hkeyed hne ?_
    rcases hmax with hmax | rfl
    · exact (hinv.good hinj hkeyed hne).within hmax hwithin
    · obtain rfl := List.prefix_nil.1 hbefore
      cases hchain
      exact hwithin

end Runs

def sampleResolvers : Resolvers Nat Nat := ⟨id, id⟩

def sampleGlobal : ResolvedTransaction Nat Nat := ⟨sampleResolvers, .global ⟨1, 0, 2, 0, 5, ⟨0⟩, ⟨1⟩⟩⟩

def sampleChange : ResolvedTransaction Nat Nat := ⟨sampleResolvers, .global ⟨1, 0, 2, 5, 7, ⟨1⟩, ⟨3⟩⟩⟩

def sampleAddress : ResolvedTransaction Nat Nat := ⟨sampleResolvers, .address ⟨1, 2, sentinelRemovalValue, 5, 3⟩⟩

theorem forall_empty {P : UInt64 × Nat → MosaicRestrictionEntry Nat → Prop} (hash : UInt64 × Nat)
    (entry : MosaicRestrictionEntry Nat) (h : (fun _ => none : Entries (UInt64 × Nat) Nat) hash = some entry) :
    P hash entry := by
  cases h

/-- The first rule is accepted by a node that allows none. -/
theorem not_within_sample : ∃ entries', commit (id : UInt64 × Nat → UInt64 × Nat) 0 (fun _ => none) sampleGlobal =
    some entries' ∧ ¬Within 0 entries' := by
  have haccepts : sampleGlobal.accepts (id : UInt64 × Nat → UInt64 × Nat) 0 (fun _ => none) = true := by decide +kernel
  have hinj : Set.InjOn (id : UInt64 × Nat → UInt64 × Nat) Set.univ := Function.injective_id.injOn
  obtain ⟨entries', hobserve, hcommitted⟩ :=
    committed_of_commit hinj (Set.mem_univ _) forall_empty forall_empty haccepts
  have hcommit : commit id 0 (fun _ => none) sampleGlobal = some entries' := by
    rw [commit, if_pos haccepts, hobserve]
    rfl
  have hstep : step id 0 ⟨fun _ => none, []⟩ (.commit sampleGlobal) = some ⟨entries', [sampleGlobal]⟩ := by
    rw [step, hcommit]
    rfl
  exact ⟨entries', hcommit, not_within_zero hinj forall_empty forall_empty forall_empty (fun _ _ => Set.mem_univ _)
    hstep hcommitted.nonEmpty⟩

def sampleOperations : List (Operation Nat Nat) :=
  [.commit sampleGlobal, .commit sampleAddress, .rollback, .commit sampleChange]

theorem runs_sound_sample : ∃ chain, run (id : UInt64 × Nat → UInt64 × Nat) 10 ⟨fun _ => none, []⟩ sampleOperations =
    some chain ∧ Sound id Set.univ 10 (fun _ => none) chain := by
  have hrun : (run (id : UInt64 × Nat → UInt64 × Nat) 10 ⟨fun _ => none, []⟩ sampleOperations).isSome = true := by
    decide +kernel
  obtain ⟨chain, hchain⟩ := Option.isSome_iff_exists.1 hrun
  have hsound := (runs_sound_iff Function.injective_id.injOn forall_empty forall_empty forall_empty
    (fun _ _ => Set.mem_univ _) hrun).2 (.inl (by decide))
  exact ⟨chain, hchain, hsound sampleOperations List.prefix_rfl chain hchain⟩

end Catapult.MosaicRestrictions
