import Catapult.Multisig.Facade

/-!
# Well-formed caches

New cosignatories are validated one by one against the cache before any of them is linked. This is enough: they are
all linked to the same account, and none of them is above it, so no path uses two of the new links.
-/

namespace Catapult.Multisig

variable {Address UnresolvedAddress : Type} [DecidableEq Address]

def MultisigEntry.SettingsInRange (entry : MultisigEntry Address) : Prop :=
  if entry.cosignatoryAddresses = ∅ then entry.minApproval = 0 ∧ entry.minRemoval = 0
  else (1 ≤ entry.minApproval ∧ entry.minApproval ≤ entry.cosignatoryAddresses.card) ∧
    (1 ≤ entry.minRemoval ∧ entry.minRemoval ≤ entry.cosignatoryAddresses.card)

def Cosigned (cache : MultisigCache Address) (multisig cosignatory : Address) : Prop :=
  cosignatory ∈ cosignatories cache multisig

structure WellFormed (config : MultisigConfiguration) (cache : MultisigCache Address) : Prop where
  linked : ∀ multisig cosignatory,
    cosignatory ∈ cosignatories cache multisig ↔ multisig ∈ multisigs cache cosignatory
  depth : DepthAtMost (Cosigned cache) config.maxMultisigDepth
  not_isEmpty : ∀ address entry, cache address = some entry → ¬entry.IsEmpty
  settings : ∀ address entry, cache address = some entry → entry.SettingsInRange
  card_le : ∀ address, (cosignatories cache address).card ≤ config.maxCosignatoriesPerAccount

variable {config : MultisigConfiguration} {cache : MultisigCache Address} {entries : Entries Address}
  {multisig cosignatory address : Address} {added deleted : Finset Address}

@[simp] theorem cosignatories_stored :
    cosignatories (stored entries) address = (entries address).cosignatoryAddresses := by
  unfold cosignatories stored
  split
  · exact ‹(entries address).IsEmpty›.1.symm
  · rfl

@[simp] theorem multisigs_stored : multisigs (stored entries) address = (entries address).multisigAddresses := by
  unfold multisigs stored
  split
  · exact ‹(entries address).IsEmpty›.2.symm
  · rfl

theorem stored_eq_some {entry : MultisigEntry Address} :
    stored entries address = some entry ↔ ¬(entries address).IsEmpty ∧ entries address = entry := by
  unfold stored
  split <;> simp_all

theorem stored_eq_none : stored entries address = none ↔ (entries address).IsEmpty := by
  unfold stored
  split <;> simp_all

theorem stored_entriesOf (h : ∀ address entry, cache address = some entry → ¬entry.IsEmpty) :
    stored (entriesOf cache) = cache := by
  funext address
  cases hentry : cache address with
  | none => simp [stored, entriesOf, hentry, MultisigEntry.IsEmpty, MultisigEntry.initial]
  | some entry => simp [stored, entriesOf, hentry, h address entry hentry]

structure WellFormedEntries (config : MultisigConfiguration) (entries : Entries Address) : Prop where
  linked : ∀ multisig cosignatory, cosignatory ∈ (entries multisig).cosignatoryAddresses ↔
    multisig ∈ (entries cosignatory).multisigAddresses
  depth : DepthAtMost (fun multisig cosignatory => cosignatory ∈ (entries multisig).cosignatoryAddresses)
    config.maxMultisigDepth
  settings : ∀ address, (entries address).SettingsInRange
  card_le : ∀ address, (entries address).cosignatoryAddresses.card ≤ config.maxCosignatoriesPerAccount

theorem WellFormedEntries.stored (h : WellFormedEntries config entries) : WellFormed config (stored entries) where
  linked multisig cosignatory := by simpa using h.linked multisig cosignatory
  depth := h.depth.mono fun _ _ hmem => by simpa [Cosigned] using hmem
  not_isEmpty address entry hentry := by
    obtain ⟨hnot, rfl⟩ := stored_eq_some.1 hentry
    exact hnot
  settings address entry hentry := by
    obtain ⟨-, rfl⟩ := stored_eq_some.1 hentry
    exact h.settings address
  card_le address := by simpa using h.card_le address

theorem WellFormed.exists_entries (h : WellFormed config cache) :
    ∃ entries, WellFormedEntries config entries ∧ Multisig.stored entries = cache := by
  have hstored := stored_entriesOf h.not_isEmpty
  refine ⟨entriesOf cache, ⟨?_, ?_, ?_, ?_⟩, hstored⟩
  · intro multisig cosignatory
    rw [← cosignatories_stored, ← multisigs_stored, hstored]
    exact h.linked multisig cosignatory
  · refine h.depth.mono fun multisig cosignatory hmem => ?_
    rwa [Cosigned, ← hstored, cosignatories_stored]
  · intro address
    cases hentry : cache address with
    | none => simp [entriesOf, hentry, MultisigEntry.SettingsInRange, MultisigEntry.initial]
    | some entry => simpa [entriesOf, hentry] using h.settings address entry hentry
  · intro address
    rw [← cosignatories_stored, hstored]
    exact h.card_le address

namespace WellFormedEntries

theorem plain (h : WellFormedEntries config entries) : Plain multisig entries := by
  intro address _ hempty
  have hsettings := h.settings address
  rwa [MultisigEntry.SettingsInRange, if_pos hempty] at hsettings

theorem notMem_self (h : WellFormedEntries config entries) : address ∉ (entries address).cosignatoryAddresses :=
  fun hmem => h.depth.not_transGen address (.single hmem)

theorem eq_initial (h : WellFormedEntries config entries) (hempty : (entries address).IsEmpty) :
    entries address = .initial := by
  have hsettings := h.settings address
  rw [MultisigEntry.SettingsInRange, if_pos hempty.1] at hsettings
  obtain ⟨hcosignatories, hmultisigs⟩ := hempty
  rcases hentry : entries address with ⟨_, _, _, _⟩
  simp_all [MultisigEntry.initial]

end WellFormedEntries

def relink (multisig : Address) (entries : Entries Address) (added deleted : Finset Address) : Entries Address :=
  unlink multisig (link multisig entries added) deleted

theorem relink_multisig : relink multisig entries added deleted multisig = { entries multisig with
    cosignatoryAddresses := ((entries multisig).cosignatoryAddresses ∪ added) \ deleted } := by
  simp [relink, unlink_multisig, link_multisig]

theorem relink_of_ne (hne : address ≠ multisig) : relink multisig entries added deleted address =
    { entries address with
      multisigAddresses := (relink multisig entries added deleted address).multisigAddresses } := by
  simp only [relink, unlink, link, if_neg hne]
  split_ifs <;> rfl

theorem mem_cosignatories_relink : cosignatory ∈ (relink multisig entries added deleted address).cosignatoryAddresses ↔
    if address = multisig then
      (cosignatory ∈ (entries multisig).cosignatoryAddresses ∨ cosignatory ∈ added) ∧ cosignatory ∉ deleted
    else cosignatory ∈ (entries address).cosignatoryAddresses := by
  split
  · subst address
    simp [relink_multisig]
  · rw [relink_of_ne ‹_›]

theorem mem_multisigs_relink : address ∈ (relink multisig entries added deleted cosignatory).multisigAddresses ↔
    if address = multisig ∧ cosignatory ≠ multisig then
      (multisig ∈ (entries cosignatory).multisigAddresses ∨ cosignatory ∈ added) ∧ cosignatory ∉ deleted
    else address ∈ (entries cosignatory).multisigAddresses := by
  by_cases hcosignatory : cosignatory = multisig
  · simp [hcosignatory, relink_multisig]
  by_cases haddress : address = multisig
  · subst haddress
    by_cases hadded : cosignatory ∈ added <;> by_cases hdeleted : cosignatory ∈ deleted <;>
      simp [relink, unlink, link, hcosignatory, hadded, hdeleted]
  · by_cases hadded : cosignatory ∈ added <;> by_cases hdeleted : cosignatory ∈ deleted <;>
      simp [relink, unlink, link, hcosignatory, hadded, hdeleted, haddress]

structure Admissible (config : MultisigConfiguration) (entries : Entries Address) (multisig : Address)
    (added deleted : Finset Address) : Prop where
  not_above : ∀ cosignatory ∈ added, ¬Relation.ReflTransGen
    (fun multisig cosignatory => cosignatory ∈ (entries multisig).cosignatoryAddresses) cosignatory multisig
  levels_le : ∀ cosignatory ∈ added, ∀ top bottom x y,
    Path (fun multisig cosignatory => cosignatory ∈ (entries multisig).cosignatoryAddresses) top x multisig →
    Path (fun multisig cosignatory => cosignatory ∈ (entries multisig).cosignatoryAddresses) bottom cosignatory y →
    top + bottom + 1 ≤ config.maxMultisigDepth
  notMem : ∀ cosignatory ∈ added, cosignatory ∉ (entries multisig).cosignatoryAddresses
  mem : ∀ cosignatory ∈ deleted, cosignatory ∈ (entries multisig).cosignatoryAddresses
  card_le : (entries multisig).cosignatoryAddresses.card + added.card ≤
    config.maxCosignatoriesPerAccount + deleted.card

namespace Admissible

variable (hadmissible : Admissible config entries multisig added deleted)
include hadmissible

omit [DecidableEq Address] in
theorem ne_of_mem_added (hmem : cosignatory ∈ added) : cosignatory ≠ multisig := by
  rintro rfl
  exact hadmissible.not_above _ hmem .refl

theorem ne_of_mem_deleted (h : WellFormedEntries config entries) (hmem : cosignatory ∈ deleted) :
    cosignatory ≠ multisig := by
  rintro rfl
  exact h.notMem_self (hadmissible.mem _ hmem)

theorem depth_relink (h : WellFormedEntries config entries) : DepthAtMost (fun multisig' cosignatory =>
    cosignatory ∈ (relink multisig entries added deleted multisig').cosignatoryAddresses) config.maxMultisigDepth := by
  apply (h.depth.add_edges (s := added) hadmissible.not_above hadmissible.levels_le).mono
  intro multisig' cosignatory hmem
  rw [mem_cosignatories_relink] at hmem
  split at hmem
  · subst multisig'
    exact hmem.1.imp_right fun hadded => ⟨rfl, hadded⟩
  · exact .inl hmem

theorem linked_relink (h : WellFormedEntries config entries) (multisig' cosignatory : Address) :
    cosignatory ∈ (relink multisig entries added deleted multisig').cosignatoryAddresses ↔
      multisig' ∈ (relink multisig entries added deleted cosignatory).multisigAddresses := by
  rw [mem_cosignatories_relink, mem_multisigs_relink]
  by_cases hmultisig : multisig' = multisig
  · subst hmultisig
    by_cases hcosignatory : cosignatory = multisig'
    · subst hcosignatory
      have hnotAdded : cosignatory ∉ added := fun hmem => hadmissible.ne_of_mem_added hmem rfl
      have hnotMem : cosignatory ∉ (entries cosignatory).cosignatoryAddresses := h.notMem_self
      have hlinked := h.linked cosignatory cosignatory
      simp [hnotAdded, hnotMem, ← hlinked]
    · simp [hcosignatory, h.linked]
  · simp [hmultisig, h.linked]

theorem card_relink_le (h : WellFormedEntries config entries) (address : Address) :
    (relink multisig entries added deleted address).cosignatoryAddresses.card ≤ config.maxCosignatoriesPerAccount := by
  by_cases hmultisig : address = multisig
  · subst hmultisig
    have hsub : deleted ⊆ (entries address).cosignatoryAddresses ∪ added :=
      fun cosignatory hmem => Finset.mem_union_left _ (hadmissible.mem cosignatory hmem)
    have hunion := Finset.card_union_le (entries address).cosignatoryAddresses added
    have hle := hadmissible.card_le
    rw [relink_multisig, Finset.card_sdiff_of_subset hsub]
    omega
  · rw [relink_of_ne hmultisig]
    exact h.card_le address

end Admissible
end Catapult.Multisig
