import Catapult.Multisig.Commit

/-!
# Rollback of modifications

The rollback of the settings finds no entry when the modification has removed the last cosignatory of an account that
is no cosignatory itself; it creates one with the settings before the removal, which the rollback of the links then
finds.

The rollback of the links unlinks every addition. The entry of an addition that had none before is removed with the
first one, so a second addition of the same address throws.
-/

namespace Catapult.Multisig

variable {Address UnresolvedAddress : Type} [DecidableEq Address]
  {config : MultisigConfiguration} {entries : Entries Address} {multisig address : Address}
  {added deleted : Finset Address} {modification : AccountModification Address UnresolvedAddress}

theorem multisig_notMem (h : WellFormedEntries config entries)
    (hadmissible : Admissible config entries multisig added deleted)
    (hmem : address ∈ added) : multisig ∉ (entries address).multisigAddresses := by
  rw [← h.linked]
  exact hadmissible.notMem address hmem

omit [DecidableEq Address] in
theorem notMem_deleted (hadmissible : Admissible config entries multisig added deleted) (hmem : address ∈ added) :
    address ∉ deleted :=
  fun hdeleted => hadmissible.notMem address hmem (hadmissible.mem address hdeleted)

theorem relink_of_mem_added (hadmissible : Admissible config entries multisig added deleted) (hmem : address ∈ added) :
    relink multisig entries added deleted address =
      { entries address with multisigAddresses := Insert.insert multisig (entries address).multisigAddresses } := by
  have hne := hadmissible.ne_of_mem_added hmem
  rw [relink, unlink_of_notMem hne (notMem_deleted hadmissible hmem), link_of_mem hne hmem]

theorem unlink_relink_of_mem_added (h : WellFormedEntries config entries)
    (hadmissible : Admissible config entries multisig added deleted) (hmem : address ∈ added) :
    unlink multisig (relink multisig entries added deleted) {address} address = entries address := by
  rw [unlink_of_mem (hadmissible.ne_of_mem_added hmem) (Finset.mem_singleton_self address),
    relink_of_mem_added hadmissible hmem]
  simp [Finset.erase_insert (multisig_notMem h hadmissible hmem)]

theorem unlink_relink (h : WellFormedEntries config entries)
    (hadmissible : Admissible config entries multisig added deleted) :
    unlink multisig (relink multisig entries added deleted) added = unlink multisig entries deleted := by
  funext address
  by_cases hmultisig : address = multisig
  · subst hmultisig
    have hcosignatories : (((entries address).cosignatoryAddresses ∪ added) \ deleted) \ added =
        (entries address).cosignatoryAddresses \ deleted := by
      ext cosignatory
      have hnotMem := hadmissible.notMem cosignatory
      simp only [Finset.mem_sdiff, Finset.mem_union]
      tauto
    rw [unlink_multisig, unlink_multisig, relink_multisig, hcosignatories]
  by_cases hadded : address ∈ added
  · rw [unlink_of_mem hmultisig hadded, relink_of_mem_added hadmissible hadded,
      unlink_of_notMem hmultisig (notMem_deleted hadmissible hadded)]
    simp [Finset.erase_insert (multisig_notMem h hadmissible hadded)]
  · rw [unlink_of_notMem hmultisig hadded, relink]
    by_cases hdeleted : address ∈ deleted
    · rw [unlink_of_mem hmultisig hdeleted, unlink_of_mem hmultisig hdeleted, link_of_notMem hmultisig hadded]
    · rw [unlink_of_notMem hmultisig hdeleted, unlink_of_notMem hmultisig hdeleted, link_of_notMem hmultisig hadded]

theorem link_unlink (h : WellFormedEntries config entries)
    (hadmissible : Admissible config entries multisig added deleted) :
    link multisig (unlink multisig entries deleted) deleted = entries := by
  funext address
  by_cases hmultisig : address = multisig
  · subst hmultisig
    rw [link_multisig, unlink_multisig, Finset.sdiff_union_of_subset fun _ hmem => hadmissible.mem _ hmem]
  by_cases hdeleted : address ∈ deleted
  · have hmem := (h.linked _ _).1 (hadmissible.mem address hdeleted)
    rw [link_of_mem hmultisig hdeleted, unlink_of_mem hmultisig hdeleted]
    simp [Finset.insert_erase hmem]
  · rw [link_of_notMem hmultisig hdeleted, unlink_of_notMem hmultisig hdeleted]

theorem addDelta_addDelta {value : Nat} {delta : Int} (hlt : value < 2 ^ 32) :
    addDelta (addDelta value 1 delta) (-1) delta = value := by
  unfold addDelta
  omega

theorem run_observeSettings_rollback_of_not_isEmpty (hnot : ¬(entries modification.signerAddress).IsEmpty)
    (happroval : (entries modification.signerAddress).minApproval < 2 ^ 32)
    (hremoval : (entries modification.signerAddress).minRemoval < 2 ^ 32) :
    (observeSettings .rollback modification).run (stored (settle modification entries)) =
      .ok () (held modification.signerAddress entries) := by
  have hnot' : ¬(modification.changeSettings 1 (entries modification.signerAddress)).IsEmpty := hnot
  have hstored : stored (settle modification entries) = Function.update (stored entries) modification.signerAddress
      (some (modification.changeSettings 1 (entries modification.signerAddress))) := by
    rw [settle, if_neg hnot, stored_update, if_neg hnot']
  have hback : modification.changeSettings (-1)
      (modification.changeSettings 1 (entries modification.signerAddress)) = entries modification.signerAddress := by
    simp only [AccountModification.changeSettings, addDelta_addDelta happroval, addDelta_addDelta hremoval]
  rw [hstored, run_observeSettings (Function.update_self ..), Function.update_idem, held]
  simp [hback]

theorem run_observeSettings_rollback_of_isEmpty (hempty : (entries modification.signerAddress).IsEmpty)
    (hremoval : modification.minRemovalDelta = -1) (happroval : modification.minApprovalDelta = -1) :
    (observeSettings .rollback modification).run (stored (settle modification entries)) =
      .ok () (Function.update (stored entries) modification.signerAddress (some ⟨∅, ∅, 1, 1⟩)) := by
  have hinitial : (MultisigEntry.initial : MultisigEntry Address).IsEmpty := ⟨rfl, rfl⟩
  have hnone := stored_eq_none.2 hempty
  have hstored : stored (settle modification entries) = stored entries := by
    rw [settle, if_pos hempty, stored_update, if_pos hinitial, ← hnone, Function.update_eq_self]
  rw [hstored]
  simp [observeSettings, insert, run_updateEntry, hnone, hremoval, happroval, addDelta, MultisigEntry.initial]

theorem WellFormedEntries.settings_le (h : WellFormedEntries config entries) (address : Address) :
    (entries address).minApproval ≤ (entries address).cosignatoryAddresses.card ∧
      (entries address).minRemoval ≤ (entries address).cosignatoryAddresses.card := by
  have hsettings := h.settings address
  unfold MultisigEntry.SettingsInRange at hsettings
  split at hsettings
  · omega
  · exact ⟨hsettings.1.2, hsettings.2.2⟩

theorem relink_eq_of_isEmpty (h : WellFormedEntries config entries)
    (hadmissible : Admissible config entries multisig added deleted) (hcard : deleted.card ≤ 1)
    (hany : added ≠ ∅ ∨ deleted ≠ ∅) (hempty : (relink multisig entries added deleted multisig).IsEmpty) :
    relink multisig entries added deleted multisig = ⟨∅, ∅, 1, 1⟩ := by
  have hsettings := h.settings multisig
  have hrelink := hempty
  rw [relink_multisig] at hrelink ⊢
  obtain ⟨hcosignatories, hmultisigs⟩ := hrelink
  simp only at hcosignatories hmultisigs
  have hsub := Finset.sdiff_eq_empty_iff_subset.1 hcosignatories
  have hadded : added = ∅ := by
    apply Finset.eq_empty_of_forall_notMem
    intro cosignatory hmem
    exact notMem_deleted hadmissible hmem (hsub (Finset.mem_union_right _ hmem))
  have hle := (Finset.card_le_card (Finset.subset_union_left.trans hsub)).trans hcard
  have hne : (entries multisig).cosignatoryAddresses ≠ ∅ := by
    intro hnone
    obtain ⟨cosignatory, hmem⟩ := Finset.nonempty_iff_ne_empty.2 (hany.resolve_left fun hne => hne hadded)
    have hmem' := hadmissible.mem cosignatory hmem
    rw [hnone] at hmem'
    exact Finset.notMem_empty _ hmem'
  rw [MultisigEntry.SettingsInRange, if_neg hne] at hsettings
  have happroval : (entries multisig).minApproval = 1 := by omega
  have hremoval : (entries multisig).minRemoval = 1 := by omega
  simp only [hcosignatories, hmultisigs, happroval, hremoval]

variable [DecidableEq UnresolvedAddress] {resolve : UnresolvedAddress → Address} {cache : MultisigCache Address}

theorem run_observeSettings_rollback (h : WellFormedEntries config entries)
    (hpasses : Passes config resolve (stored entries) modification)
    (hany : modification.hasCosignatories = true ∨ ¬(entries modification.signerAddress).IsEmpty) :
    (observeSettings .rollback modification).run (stored (committed resolve modification entries)) =
      .ok () (held modification.signerAddress (relink modification.signerAddress entries
        (modification.added resolve) (modification.deleted resolve))) := by
  have hadmissible := hpasses.admissible h
  have hvalid := hpasses.settings _ (run_observeCosignatoriesIfAny_commit h hpasses)
  rcases validateInvalidSettings_eq_success hvalid with ⟨hempty, hremoval, happroval⟩ | ⟨hnot, -, -⟩
  · have hchanged : modification.hasCosignatories = true := by
      by_contra hnot
      rw [relink_of_not_hasCosignatories hnot] at hempty
      exact hany.elim hnot fun hne => hne hempty
    rw [committed, run_observeSettings_rollback_of_isEmpty hempty hremoval happroval, held,
      relink_eq_of_isEmpty h hadmissible
        ((deleted_card hpasses.deletions_length_le).trans_le hpasses.deletions_length_le)
        ((hasCosignatories_iff resolve).1 hchanged) hempty]
  · have hle := h.settings_le modification.signerAddress
    have hcard := h.card_le modification.signerAddress
    have hmax := config.maxCosignatories_lt
    apply run_observeSettings_rollback_of_not_isEmpty hnot
    · rw [relink_multisig]
      simp only
      omega
    · rw [relink_multisig]
      simp only
      omega

theorem not_isEmpty_of_mem_added (hadmissible : Admissible config entries multisig added deleted)
    (hmem : address ∈ added) : ¬(relink multisig entries added deleted address).IsEmpty := by
  rw [relink_of_mem_added hadmissible hmem]
  rintro ⟨-, hmultisigs⟩
  exact Finset.insert_ne_empty _ _ hmultisigs

theorem update_held : Function.update (held multisig entries) multisig
    (some ((held multisig entries multisig).getD .initial)) = held multisig entries := by
  rw [held_self, Option.getD_some, held, Function.update_idem]

theorem run_observeCosignatories_rollback (h : WellFormedEntries config entries)
    (hpasses : Passes config resolve (stored entries) modification)
    (hagain : ∀ address, 2 ≤ (modification.addressAdditions.map resolve).count address →
      ¬(entries address).IsEmpty) :
    (observeCosignatories resolve .rollback modification).run (held modification.signerAddress
      (relink modification.signerAddress entries (modification.added resolve) (modification.deleted resolve))) =
      .ok () (stored entries) := by
  have hadmissible := hpasses.admissible h
  have hadded : ∀ address ∈ modification.addressAdditions.map resolve, address ≠ modification.signerAddress :=
    fun address hmem => hadmissible.ne_of_mem_added (List.mem_toFinset.2 hmem)
  have hdeleted : ∀ address ∈ modification.addressDeletions.map resolve, address ≠ modification.signerAddress :=
    fun address hmem => hadmissible.ne_of_mem_deleted h (List.mem_toFinset.2 hmem)
  have hnot : ∀ address ∈ modification.addressAdditions.map resolve, ¬(relink modification.signerAddress entries
      (modification.added resolve) (modification.deleted resolve) address).IsEmpty :=
    fun address hmem => not_isEmpty_of_mem_added hadmissible (List.mem_toFinset.2 hmem)
  have hremove := run_addAll_remove hadded hnot fun address hcount => by
    have hmem : address ∈ modification.added resolve := List.mem_toFinset.2 (List.count_pos_iff.1 (by omega))
    rw [unlink_relink_of_mem_added h hadmissible hmem]
    exact hagain address hcount
  have hplain : Plain modification.signerAddress
    (unlink modification.signerAddress entries (modification.deleted resolve)) := h.plain.unlink
  have hadd := run_addAll_add hplain hdeleted
  rw [← AccountModification.added, unlink_relink h hadmissible] at hremove
  rw [← AccountModification.deleted, link_unlink h hadmissible] at hadd
  apply run_withMultisigAccount update_held
  simp only [EStateM.run_bind, reduceCtorEq, decide_false, ne_eq, not_false_eq_true, decide_true, hremove]
  exact hadd

theorem run_observeCosignatories_rollback_error (h : WellFormedEntries config entries)
    (hpasses : Passes config resolve (stored entries) modification)
    (hcount : 2 ≤ (modification.addressAdditions.map resolve).count address) (hempty : (entries address).IsEmpty) :
    ∃ error cache', (observeCosignatories resolve .rollback modification).run (held modification.signerAddress
      (relink modification.signerAddress entries (modification.added resolve) (modification.deleted resolve))) =
      .error error cache' := by
  have hadmissible := hpasses.admissible h
  have hmem : address ∈ modification.added resolve := List.mem_toFinset.2 (List.count_pos_iff.1 (by omega))
  rw [← unlink_relink_of_mem_added h hadmissible hmem] at hempty
  obtain ⟨error, cache', hremove⟩ := run_addAll_remove_of_again
    (fun address hmem => hadmissible.ne_of_mem_added (List.mem_toFinset.2 hmem)) hcount hempty
  apply run_withMultisigAccount_error update_held
  simp only [EStateM.run_bind, reduceCtorEq, decide_false, hremove]
  rfl

theorem held_of_not_isEmpty (hnot : ¬(entries multisig).IsEmpty) : held multisig entries = stored entries := by
  rw [held, ← stored_eq_some.2 ⟨hnot, rfl⟩, Function.update_eq_self]

theorem run_observe_rollback_of_unchanged (h : WellFormedEntries config entries)
    (hpasses : Passes config resolve (stored entries) modification) (hnot : ¬modification.hasCosignatories = true)
    (hempty : (entries modification.signerAddress).IsEmpty) :
    (observe resolve .rollback modification).run (stored (committed resolve modification entries)) =
      .ok () (Function.update (stored entries) modification.signerAddress (some ⟨∅, ∅, 1, 1⟩)) := by
  have hvalid := hpasses.settings _ (run_observeCosignatoriesIfAny_commit h hpasses)
  rw [relink_of_not_hasCosignatories hnot] at hvalid
  rcases validateInvalidSettings_eq_success hvalid with ⟨-, hremoval, happroval⟩ | ⟨hne, -, -⟩
  · simp only [observe, EStateM.run_bind, committed, relink_of_not_hasCosignatories hnot,
      run_observeSettings_rollback_of_isEmpty hempty hremoval happroval, observeCosignatoriesIfAny, if_neg hnot]
    rfl
  · exact absurd hempty hne

/-- A modification is rolled back exactly unless it leaves an account without entry as it is, or adds an account
without entry under two names. -/
theorem rollback_restores_iff (hcache : Reachable UnresolvedAddress config cache)
    (hpasses : Passes config resolve cache modification) :
    (∃ cache', (observe resolve .commit modification).run cache = .ok () cache' ∧
      (observe resolve .rollback modification).run cache' = .ok () cache) ↔
    (modification.hasCosignatories = true ∨ cache modification.signerAddress ≠ none) ∧
      ∀ address, 2 ≤ (modification.addressAdditions.map resolve).count address → cache address ≠ none := by
  obtain ⟨entries, h, rfl⟩ := (reachable_wellFormed hcache).exists_entries
  simp only [run_observe_commit h hpasses, ne_eq, stored_eq_none]
  constructor
  · rintro ⟨cache', hcommit, hrollback⟩
    cases hcommit
    have hany : modification.hasCosignatories = true ∨ ¬(entries modification.signerAddress).IsEmpty := by
      by_contra hnone
      obtain ⟨hnot, hempty⟩ := not_or.1 hnone
      rw [not_not] at hempty
      rw [run_observe_rollback_of_unchanged h hpasses hnot hempty, EStateM.Result.ok.injEq] at hrollback
      have hentry := congrFun hrollback.2 modification.signerAddress
      rw [Function.update_self, stored_eq_none.2 hempty] at hentry
      cases hentry
    refine ⟨hany, fun address hcount hempty => ?_⟩
    obtain ⟨error, cache', herror⟩ := run_observeCosignatories_rollback_error h hpasses hcount hempty
    have hchanged : modification.hasCosignatories = true := by
      have hmem : address ∈ modification.added resolve := List.mem_toFinset.2 (List.count_pos_iff.1 (by omega))
      exact (hasCosignatories_iff resolve).2 (.inl (Finset.ne_empty_of_mem hmem))
    simp only [observe, EStateM.run_bind, run_observeSettings_rollback h hpasses hany, observeCosignatoriesIfAny,
      if_pos hchanged, herror] at hrollback
    cases hrollback
  · rintro ⟨hany, hagain⟩
    refine ⟨_, rfl, ?_⟩
    simp only [observe, EStateM.run_bind, run_observeSettings_rollback h hpasses hany]
    by_cases hchanged : modification.hasCosignatories = true
    · simp only [observeCosignatoriesIfAny, if_pos hchanged]
      exact run_observeCosignatories_rollback h hpasses hagain
    · rw [relink_of_not_hasCosignatories hchanged, held_of_not_isEmpty (hany.resolve_left hchanged)]
      simp only [observeCosignatoriesIfAny, if_neg hchanged]
      rfl

/-! An account without entry can change nothing with both deltas `-1`. -/

def changeNothing : AccountModification Nat Nat := ⟨0, -1, -1, [], [], noAddresses_lt, noAddresses_lt⟩

theorem passes_changeNothing : Passes exampleConfiguration id (fun _ => none) changeNothing where
  newCosignatories address hmem := by cases hmem
  cosignatories hany := by cases hany
  settings := by
    intro cache' hrun
    cases hrun
    decide

theorem rollback_restores_iff_first : ∃ cache' : MultisigCache Nat,
    (observe id .commit addFirstCosignatory).run (fun _ => none) = .ok () cache' ∧
    (observe id .rollback addFirstCosignatory).run cache' = .ok () fun _ => none := by
  refine (rollback_restores_iff .empty passes_addFirstCosignatory).2 ⟨.inl rfl, fun address hcount => ?_⟩
  have hle := ([1] : List Nat).count_le_length (a := address)
  simp only [addFirstCosignatory, List.map_id] at hcount
  simp only [List.length_singleton] at hle
  omega

theorem rollback_creates_entry : Reachable Nat exampleConfiguration (fun _ : Nat => none) ∧
    Passes exampleConfiguration id (fun _ => none) changeNothing ∧
    ∃ cache' : MultisigCache Nat, (observe id .commit changeNothing).run (fun _ => none) = .ok () (fun _ => none) ∧
      (observe id .rollback changeNothing).run (fun _ => none) = .ok () cache' ∧
      cache' 0 = some ⟨∅, ∅, 1, 1⟩ ∧ cache' ≠ fun _ => none := by
  refine ⟨.empty, passes_changeNothing, _, rfl, rfl, by decide, fun heq => ?_⟩
  have hentry := congrFun heq 0
  revert hentry
  decide

end Catapult.Multisig
