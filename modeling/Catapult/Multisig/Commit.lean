import Catapult.Multisig.WellFormed

/-!
# Runs of modifications

What the validators say about a modification, and what the observers then do with it in commit mode: the links are
changed (`relink`), and the settings are changed or, when the last link is gone, dropped (`settle`). Both keep the
cache well-formed, and so it is after every run.
-/

namespace Catapult.Multisig

variable {Address UnresolvedAddress : Type} [DecidableEq Address]

namespace AccountModification

def added (resolve : UnresolvedAddress → Address) (modification : AccountModification Address UnresolvedAddress) :
    Finset Address :=
  (modification.addressAdditions.map resolve).toFinset

def deleted (resolve : UnresolvedAddress → Address) (modification : AccountModification Address UnresolvedAddress) :
    Finset Address :=
  (modification.addressDeletions.map resolve).toFinset

def changeSettings (modification : AccountModification Address UnresolvedAddress) (direction : Int)
    (entry : MultisigEntry Address) : MultisigEntry Address :=
  { entry with
    minApproval := addDelta entry.minApproval direction modification.minApprovalDelta
    minRemoval := addDelta entry.minRemoval direction modification.minRemovalDelta }

end AccountModification

def settle (modification : AccountModification Address UnresolvedAddress) (entries : Entries Address) :
    Entries Address :=
  Function.update entries modification.signerAddress
    (if (entries modification.signerAddress).IsEmpty then .initial
    else modification.changeSettings 1 (entries modification.signerAddress))

/-- The caches after runs of modifications; addresses may resolve to other ones at every one of them. -/
inductive Reachable (UnresolvedAddress : Type) [DecidableEq UnresolvedAddress] (config : MultisigConfiguration) :
    MultisigCache Address → Prop
  | empty : Reachable UnresolvedAddress config fun _ => none
  | modify {cache cache' : MultisigCache Address} (resolve : UnresolvedAddress → Address)
      (modification : AccountModification Address UnresolvedAddress) (hcache : Reachable UnresolvedAddress config cache)
      (hpasses : Passes config resolve cache modification)
      (hrun : (observe resolve .commit modification).run cache = .ok () cache') :
      Reachable UnresolvedAddress config cache'

variable {config : MultisigConfiguration} {resolve : UnresolvedAddress → Address} {cache : MultisigCache Address}
  {entries : Entries Address} {modification : AccountModification Address UnresolvedAddress}

/-! ## Settings -/

theorem validateInvalidSettings_eq_success
    (h : validateInvalidSettings (stored entries) modification = .success) :
    ((entries modification.signerAddress).IsEmpty ∧ modification.minRemovalDelta = -1 ∧
        modification.minApprovalDelta = -1) ∨
      (¬(entries modification.signerAddress).IsEmpty ∧
        (1 ≤ (entries modification.signerAddress).minRemoval + modification.minRemovalDelta ∧
          (entries modification.signerAddress).minRemoval + modification.minRemovalDelta ≤
            (entries modification.signerAddress).cosignatoryAddresses.card) ∧
        (1 ≤ (entries modification.signerAddress).minApproval + modification.minApprovalDelta ∧
          (entries modification.signerAddress).minApproval + modification.minApprovalDelta ≤
            (entries modification.signerAddress).cosignatoryAddresses.card)) := by
  unfold validateInvalidSettings at h
  cases hentry : stored entries modification.signerAddress with
  | none =>
    simp only [hentry] at h
    split at h
    · cases h
    · exact .inl ⟨stored_eq_none.1 hentry, by omega, by omega⟩
  | some entry =>
    obtain ⟨hnot, rfl⟩ := stored_eq_some.1 hentry
    simp only [hentry] at h
    split at h
    · cases h
    split at h
    · cases h
    · exact .inr ⟨hnot, by omega, by omega⟩

theorem stored_update {address : Address} {entry : MultisigEntry Address} :
    stored (Function.update entries address entry) =
      Function.update (stored entries) address (if entry.IsEmpty then none else some entry) := by
  funext other
  by_cases hother : other = address
  · subst hother
    simp [stored]
  · simp [stored, hother]

theorem run_observeSettings {entry : MultisigEntry Address} {mode : NotifyMode}
    (hentry : cache modification.signerAddress = some entry) : (observeSettings mode modification).run cache =
      .ok () (Function.update cache modification.signerAddress
        (some (modification.changeSettings (if mode = .commit then 1 else -1) entry))) := by
  simp only [observeSettings, EStateM.run_bind, EStateM.run_get, hentry]
  simp [run_updateEntry, hentry, AccountModification.changeSettings]

theorem run_observeSettings_commit : (observeSettings .commit modification).run (stored entries) =
    .ok () (stored (settle modification entries)) := by
  cases hentry : stored entries modification.signerAddress with
  | none =>
    have hempty := stored_eq_none.1 hentry
    have hinitial : (MultisigEntry.initial : MultisigEntry Address).IsEmpty := ⟨rfl, rfl⟩
    rw [settle, if_pos hempty, stored_update, if_pos hinitial, ← hentry, Function.update_eq_self]
    simp only [observeSettings, EStateM.run_bind, EStateM.run_get, hentry]
    rfl
  | some entry =>
    obtain ⟨hnot, rfl⟩ := stored_eq_some.1 hentry
    have hnot' : ¬(modification.changeSettings 1 (entries modification.signerAddress)).IsEmpty := hnot
    rw [run_observeSettings hentry, settle, if_neg hnot, stored_update, if_neg hnot']
    rfl

theorem settle_of_ne {address : Address} (hne : address ≠ modification.signerAddress) :
    settle modification entries address = entries address := Function.update_of_ne hne ..

theorem settle_links (modification : AccountModification Address UnresolvedAddress) (entries : Entries Address)
    (address : Address) :
    (settle modification entries address).cosignatoryAddresses = (entries address).cosignatoryAddresses ∧
      (settle modification entries address).multisigAddresses = (entries address).multisigAddresses := by
  by_cases haddress : address = modification.signerAddress
  · subst haddress
    rw [settle, Function.update_self]
    split
    · rename_i hempty
      exact ⟨hempty.1.symm, hempty.2.symm⟩
    · exact ⟨rfl, rfl⟩
  · rw [settle_of_ne haddress]
    exact ⟨rfl, rfl⟩

theorem addDelta_eq {value bound : Nat} {delta : Int} (hpos : 1 ≤ value + delta) (hle : value + delta ≤ bound)
    (hbound : bound < 2 ^ 32) : (addDelta value 1 delta : Int) = value + delta := by
  unfold addDelta
  omega

theorem settingsInRange_settle (hvalid : validateInvalidSettings (stored entries) modification = .success)
    (hcard : (entries modification.signerAddress).cosignatoryAddresses.card < 2 ^ 32) :
    (settle modification entries modification.signerAddress).SettingsInRange := by
  rw [settle, Function.update_self]
  rcases validateInvalidSettings_eq_success hvalid with ⟨hempty, -, -⟩ | ⟨hnot, hremoval, happroval⟩
  · rw [if_pos hempty]
    simp [MultisigEntry.SettingsInRange, MultisigEntry.initial]
  · have hpos : (entries modification.signerAddress).cosignatoryAddresses ≠ ∅ := by
      intro hcosignatories
      rw [hcosignatories, Finset.card_empty] at hremoval
      omega
    have hremoval' := addDelta_eq hremoval.1 hremoval.2 hcard
    have happroval' := addDelta_eq happroval.1 happroval.2 hcard
    rw [if_neg hnot, MultisigEntry.SettingsInRange, AccountModification.changeSettings, if_neg hpos]
    simp only
    omega

/-! ## Validators of cosignatories -/

theorem findAll_of_validateLoopAndLevel {fuel : Nat} {top bottom : Address}
    (h : validateLoopAndLevel config cache fuel top bottom = some .success) :
    ∃ numTopLevels ancestors numBottomLevels descendants,
      findAll (multisigs cache) fuel top = some (numTopLevels, ancestors) ∧
      findAll (cosignatories cache) fuel bottom = some (numBottomLevels, descendants) ∧
      numTopLevels + numBottomLevels + 1 ≤ config.maxMultisigDepth ∧ top ∉ Insert.insert bottom descendants := by
  unfold validateLoopAndLevel at h
  simp only [Option.bind_eq_bind, Option.bind_eq_some_iff] at h
  obtain ⟨⟨numTopLevels, ancestors⟩, htop, ⟨numBottomLevels, descendants⟩, hbottom, h⟩ := h
  refine ⟨numTopLevels, ancestors, numBottomLevels, descendants, htop, hbottom, ?_⟩
  simp only at h
  split at h
  · cases h
  rename_i hlevels
  split at h
  · cases h
  · rename_i hloop
    refine ⟨by omega, fun hmem => hloop ⟨top, Finset.mem_insert_self _ _, hmem⟩⟩

omit [DecidableEq Address] in
theorem validateMaxCosignatories_le {numAdditions numDeletions : Nat}
    (hadditions : modification.addressAdditions.length = numAdditions)
    (hdeletions : modification.addressDeletions.length = numDeletions)
    (h : validateMaxCosignatories config cache modification = .success)
    (hcard : (cosignatories cache modification.signerAddress).card ≤ config.maxCosignatoriesPerAccount) :
    (cosignatories cache modification.signerAddress).card + numAdditions ≤
      config.maxCosignatoriesPerAccount + numDeletions := by
  have hadditions_lt := modification.additionsCount_lt
  have hmax := config.maxCosignatories_lt
  unfold validateMaxCosignatories at h
  simp only [hadditions, hdeletions] at h hadditions_lt
  split at h
  · cases h
  · omega

theorem hasCosignatories_iff (resolve : UnresolvedAddress → Address) : modification.hasCosignatories = true ↔
    modification.added resolve ≠ ∅ ∨ modification.deleted resolve ≠ ∅ := by
  simp only [AccountModification.hasCosignatories, AccountModification.added, AccountModification.deleted,
    Bool.or_eq_true, decide_eq_true_eq, ne_eq, List.toFinset_eq_empty_iff, List.map_eq_nil_iff, List.length_pos_iff]

theorem relink_of_not_hasCosignatories (hany : ¬modification.hasCosignatories = true) :
    relink modification.signerAddress entries (modification.added resolve) (modification.deleted resolve) =
      entries := by
  rw [hasCosignatories_iff resolve, not_or, not_not, not_not] at hany
  rw [hany.1, hany.2, relink, link_empty, unlink_empty]

theorem deleted_card (hle : modification.addressDeletions.length ≤ 1) :
    (modification.deleted resolve).card = modification.addressDeletions.length := by
  unfold AccountModification.deleted
  rw [List.toFinset_card_of_nodup, List.length_map]
  rcases hdeletions : modification.addressDeletions with _ | ⟨unresolved, _ | ⟨_, _⟩⟩
  · simp
  · simp
  · simp [hdeletions] at hle

variable [DecidableEq UnresolvedAddress]

theorem Passes.deletions_length_le (hpasses : Passes config resolve cache modification) :
    modification.addressDeletions.length ≤ 1 := by
  by_contra hlt
  have hany : modification.hasCosignatories = true := by
    simp only [AccountModification.hasCosignatories, Bool.or_eq_true, decide_eq_true_eq]
    omega
  have hvalid := (hpasses.cosignatories hany).1
  rw [validateCosignatories, if_pos (by omega)] at hvalid
  cases hvalid

theorem Passes.notMem_cosignatories (hpasses : Passes config resolve cache modification) {address : Address}
    (hmem : address ∈ modification.added resolve) :
    address ∉ Multisig.cosignatories cache modification.signerAddress := by
  obtain ⟨unresolved, hunresolved, rfl⟩ := List.mem_map.1 (List.mem_toFinset.1 hmem)
  have hany : modification.hasCosignatories = true := by
    have hlength := List.length_pos_of_mem hunresolved
    simp [AccountModification.hasCosignatories, hlength]
  have hvalid := (hpasses.cosignatories hany).2.2
  unfold validateInvalidCosignatories at hvalid
  cases hentry : cache modification.signerAddress with
  | none => simp [Multisig.cosignatories, hentry]
  | some entry =>
    intro hcosignatory
    simp only [Multisig.cosignatories, hentry, Option.elim_some] at hcosignatory hvalid
    rw [if_pos ⟨unresolved, hunresolved, hcosignatory⟩] at hvalid
    cases hvalid

theorem Passes.mem_cosignatories (hpasses : Passes config resolve cache modification) {address : Address}
    (hmem : address ∈ modification.deleted resolve) :
    address ∈ Multisig.cosignatories cache modification.signerAddress := by
  obtain ⟨unresolved, hunresolved, rfl⟩ := List.mem_map.1 (List.mem_toFinset.1 hmem)
  have hlength := List.length_pos_of_mem hunresolved
  have hany : modification.hasCosignatories = true := by simp [AccountModification.hasCosignatories, hlength]
  have hvalid := (hpasses.cosignatories hany).2.2
  unfold validateInvalidCosignatories at hvalid
  cases hentry : cache modification.signerAddress with
  | none =>
    simp only [hentry] at hvalid
    rw [if_neg (by omega)] at hvalid
    cases hvalid
  | some entry =>
    by_contra hnot
    simp only [Multisig.cosignatories, hentry, Option.elim_some] at hnot hvalid
    split at hvalid
    · cases hvalid
    · rw [if_pos ⟨unresolved, hunresolved, hnot⟩] at hvalid
      cases hvalid

theorem Passes.admissible (h : WellFormedEntries config entries)
    (hpasses : Passes config resolve (stored entries) modification) :
    Admissible config entries modification.signerAddress (modification.added resolve)
      (modification.deleted resolve) where
  not_above := by
    intro cosignatory hmem hpath
    obtain ⟨unresolved, hunresolved, rfl⟩ := List.mem_map.1 (List.mem_toFinset.1 hmem)
    obtain ⟨fuel, hvalid⟩ := (hpasses.newCosignatories unresolved hunresolved).2
    obtain ⟨_, _, _, descendants, -, hbottom, -, hnot⟩ := findAll_of_validateLoopAndLevel hvalid
    apply hnot
    rcases Relation.reflTransGen_iff_eq_or_transGen.1 hpath with heq | hpath
    · rw [heq]
      exact Finset.mem_insert_self _ _
    · apply Finset.mem_insert_of_mem
      exact mem_of_findAll hbottom (by simpa using hpath)
  levels_le := by
    intro cosignatory hmem top bottom x y ptop pbottom
    obtain ⟨unresolved, hunresolved, rfl⟩ := List.mem_map.1 (List.mem_toFinset.1 hmem)
    obtain ⟨fuel, hvalid⟩ := (hpasses.newCosignatories unresolved hunresolved).2
    obtain ⟨_, _, _, _, htop, hbottom, hlevels, -⟩ := findAll_of_validateLoopAndLevel hvalid
    -- the ancestors are found in the entries of the cosignatories
    have hle := le_of_findAll htop (ptop.reverse.mono fun a b hlink => by simpa using (h.linked b a).1 hlink)
    have hle' := le_of_findAll hbottom (pbottom.mono fun a b hlink => by simpa using hlink)
    omega
  notMem cosignatory hmem := by simpa using hpasses.notMem_cosignatories hmem
  mem cosignatory hmem := by simpa using hpasses.mem_cosignatories hmem
  card_le := by
    have hdeleted : (modification.deleted resolve).card = _ := deleted_card hpasses.deletions_length_le
    have hadded : (modification.added resolve).card ≤ modification.addressAdditions.length := by
      simpa [AccountModification.added] using List.toFinset_card_le (modification.addressAdditions.map resolve)
    by_cases hany : modification.hasCosignatories = true
    · have hle := validateMaxCosignatories_le rfl rfl (hpasses.cosignatories hany).2.1
        (by simpa using h.card_le modification.signerAddress)
      simp only [cosignatories_stored] at hle
      omega
    · simp only [AccountModification.hasCosignatories, Bool.or_eq_true, decide_eq_true_eq] at hany
      have hle := h.card_le modification.signerAddress
      omega

/-! ## Runs -/

theorem update_stored_getD (h : WellFormedEntries config entries) (multisig : Address) :
    Function.update (stored entries) multisig (some ((stored entries multisig).getD .initial)) =
      held multisig entries := by
  have hentry : (stored entries multisig).getD .initial = entries multisig := by
    unfold stored
    split
    · exact (h.eq_initial ‹_›).symm
    · rfl
  rw [hentry, held]

theorem run_observeCosignatoriesIfAny_commit (h : WellFormedEntries config entries)
    (hpasses : Passes config resolve (stored entries) modification) :
    (observeCosignatoriesIfAny resolve .commit modification).run (stored entries) =
      .ok () (stored (relink modification.signerAddress entries (modification.added resolve)
        (modification.deleted resolve))) := by
  have hadmissible := hpasses.admissible h
  by_cases hany : modification.hasCosignatories = true
  · have hadded : ∀ address ∈ modification.addressAdditions.map resolve, address ≠ modification.signerAddress :=
      fun address hmem => hadmissible.ne_of_mem_added (List.mem_toFinset.2 hmem)
    have hdeleted : ∀ address ∈ modification.addressDeletions.map resolve, address ≠ modification.signerAddress :=
      fun address hmem => hadmissible.ne_of_mem_deleted h (List.mem_toFinset.2 hmem)
    rw [observeCosignatoriesIfAny, if_pos hany]
    apply run_withMultisigAccount (update_stored_getD h _)
    have hnot : ∀ address ∈ modification.addressDeletions.map resolve,
        ¬(link modification.signerAddress entries (modification.added resolve) address).IsEmpty := by
      -- an account has an entry when it is a cosignatory
      intro address hmem hempty
      have hcosignatory := hadmissible.mem address (List.mem_toFinset.2 hmem)
      have hnotAdded : address ∉ modification.added resolve := fun hadd => hadmissible.notMem _ hadd hcosignatory
      have hmultisig := (h.linked _ _).1 hcosignatory
      rw [link_of_notMem (hdeleted address hmem) hnotAdded] at hempty
      rw [hempty.2] at hmultisig
      exact Finset.notMem_empty _ hmultisig
    have hcount : ∀ address, ¬2 ≤ (modification.addressDeletions.map resolve).count address := by
      intro address
      have hle := hpasses.deletions_length_le
      have hcount_le := (modification.addressDeletions.map resolve).count_le_length (a := address)
      rw [List.length_map] at hcount_le
      omega
    have hadd := run_addAll_add h.plain hadded
    have hremove := run_addAll_remove hdeleted hnot fun address h2 => absurd h2 (hcount address)
    simp only [EStateM.run_bind, decide_true, ne_eq, not_true_eq_false, decide_false, hadd]
    exact hremove
  · rw [observeCosignatoriesIfAny, if_neg hany, relink_of_not_hasCosignatories hany]
    rfl

def committed (resolve : UnresolvedAddress → Address) (modification : AccountModification Address UnresolvedAddress)
    (entries : Entries Address) : Entries Address :=
  settle modification (relink modification.signerAddress entries (modification.added resolve)
    (modification.deleted resolve))

theorem run_observe_commit (h : WellFormedEntries config entries)
    (hpasses : Passes config resolve (stored entries) modification) :
    (observe resolve .commit modification).run (stored entries) =
      .ok () (stored (committed resolve modification entries)) := by
  simp only [observe, EStateM.run_bind, run_observeCosignatoriesIfAny_commit h hpasses]
  exact run_observeSettings_commit

theorem wellFormedEntries_committed (h : WellFormedEntries config entries)
    (hpasses : Passes config resolve (stored entries) modification) :
    WellFormedEntries config (committed resolve modification entries) := by
  have hadmissible := hpasses.admissible h
  have hlinks := settle_links modification (relink modification.signerAddress entries (modification.added resolve)
    (modification.deleted resolve))
  refine ⟨?_, ?_, ?_, ?_⟩
  · intro multisig cosignatory
    rw [committed, (hlinks multisig).1, (hlinks cosignatory).2]
    exact hadmissible.linked_relink h multisig cosignatory
  · apply (hadmissible.depth_relink h).mono
    intro multisig cosignatory hmem
    rwa [committed, (hlinks multisig).1] at hmem
  · intro address
    by_cases haddress : address = modification.signerAddress
    · subst haddress
      have hcard := hadmissible.card_relink_le h modification.signerAddress
      exact settingsInRange_settle (hpasses.settings _ (run_observeCosignatoriesIfAny_commit h hpasses))
        (hcard.trans_lt config.maxCosignatories_lt)
    · rw [committed, settle_of_ne haddress, relink_of_ne haddress]
      exact h.settings address
  · intro address
    rw [committed, (hlinks address).1]
    exact hadmissible.card_relink_le h address

theorem reachable_wellFormed {cache : MultisigCache Address} (h : Reachable UnresolvedAddress config cache) :
    WellFormed config cache := by
  induction h with
  | empty =>
    refine ⟨?_, ?_, ?_, ?_, ?_⟩
    · simp [cosignatories, multisigs]
    · intro n a b path
      cases path with
      | nil => exact Nat.zero_le _
      | cons edge _ => simp [Cosigned, cosignatories] at edge
    · simp
    · simp
    · simp [cosignatories]
  | modify resolve modification _ hpasses hrun ih =>
    obtain ⟨entries, hentries, rfl⟩ := ih.exists_entries
    rw [run_observe_commit hentries hpasses] at hrun
    cases hrun
    exact (wellFormedEntries_committed hentries hpasses).stored

omit [DecidableEq UnresolvedAddress] in
theorem WellFormed.exists_validateLoopAndLevel (h : WellFormed config cache) (top bottom : Address) :
    ∃ result, validateLoopAndLevel config cache (config.maxMultisigDepth + 1) top bottom = some result := by
  have htop : ∃ result, findAll (multisigs cache) (config.maxMultisigDepth + 1) top = some result := by
    apply exists_findAll
    intro n b path
    exact h.depth n b top (path.reverse.mono fun a b hlink => (h.linked a b).2 hlink)
  have hbottom : ∃ result, findAll (cosignatories cache) (config.maxMultisigDepth + 1) bottom = some result := by
    apply exists_findAll
    intro n b path
    exact h.depth n bottom b path
  obtain ⟨⟨numTopLevels, ancestors⟩, htop⟩ := htop
  obtain ⟨⟨numBottomLevels, descendants⟩, hbottom⟩ := hbottom
  unfold validateLoopAndLevel
  simp only [htop, hbottom, Option.bind_eq_bind, Option.bind_some]
  split
  · exact ⟨_, rfl⟩
  split
  · exact ⟨_, rfl⟩
  · exact ⟨_, rfl⟩

/-- After every run the links agree, the cosignatories have no cycle and no path that is too long, and the entries
are those that are needed, with settings that can be met. The validators end on such a cache, and what passes them
is applied. -/
theorem multisig_graph_wellFormed (hcache : Reachable UnresolvedAddress config cache) :
    (∀ multisig cosignatory, cosignatory ∈ cosignatories cache multisig ↔ multisig ∈ multisigs cache cosignatory) ∧
    (∀ address, ¬Relation.TransGen (fun multisig cosignatory => cosignatory ∈ cosignatories cache multisig)
      address address) ∧
    (∀ length multisig cosignatory,
      Path (fun multisig cosignatory => cosignatory ∈ cosignatories cache multisig) length multisig cosignatory →
      length ≤ config.maxMultisigDepth) ∧
    (∀ address entry, cache address = some entry →
      ¬(entry.cosignatoryAddresses = ∅ ∧ entry.multisigAddresses = ∅) ∧
      (entry.cosignatoryAddresses ≠ ∅ →
        (1 ≤ entry.minApproval ∧ entry.minApproval ≤ entry.cosignatoryAddresses.card) ∧
        (1 ≤ entry.minRemoval ∧ entry.minRemoval ≤ entry.cosignatoryAddresses.card)) ∧
      (entry.cosignatoryAddresses = ∅ → entry.minApproval = 0 ∧ entry.minRemoval = 0)) ∧
    (∀ top bottom, ∃ fuel result, validateLoopAndLevel config cache fuel top bottom = some result) ∧
    ∀ (resolve : UnresolvedAddress → Address) modification, Passes config resolve cache modification →
      ∃ cache', (observe resolve .commit modification).run cache = .ok () cache' := by
  have h := reachable_wellFormed hcache
  refine ⟨h.linked, fun address => h.depth.not_transGen address, h.depth, ?_, ?_, ?_⟩
  · intro address entry hentry
    have hsettings := h.settings address entry hentry
    unfold MultisigEntry.SettingsInRange at hsettings
    refine ⟨h.not_isEmpty address entry hentry, fun hne => ?_, fun hempty => ?_⟩
    · rwa [if_neg hne] at hsettings
    · rwa [if_pos hempty] at hsettings
  · intro top bottom
    exact ⟨_, h.exists_validateLoopAndLevel top bottom⟩
  · intro resolve modification hpasses
    obtain ⟨entries, hentries, rfl⟩ := h.exists_entries
    exact ⟨_, run_observe_commit hentries hpasses⟩

/-! The first modification makes `0` a multisig account with one cosignatory. -/

def exampleConfiguration : MultisigConfiguration := ⟨3, 25, 25, by decide⟩

theorem noAddresses_lt : ([] : List Nat).length < 2 ^ 8 := by decide

def addFirstCosignatory : AccountModification Nat Nat := ⟨0, 1, 1, [1], [], by decide, noAddresses_lt⟩

theorem passes_addFirstCosignatory : Passes exampleConfiguration id (fun _ => none) addFirstCosignatory where
  newCosignatories := by
    intro address hmem
    rw [addFirstCosignatory] at hmem
    obtain rfl := List.mem_singleton.1 hmem
    exact ⟨by decide, 1, by decide⟩
  cosignatories _ := by decide
  settings := by
    intro cache' hrun
    cases hrun
    decide

theorem multisig_graph_wellFormed_first : ∃ cache : MultisigCache Nat,
    (observe id .commit addFirstCosignatory).run (fun _ => none) = .ok () cache ∧
    cache 0 = some ⟨{1}, ∅, 1, 1⟩ ∧ cache 1 = some ⟨∅, {0}, 0, 0⟩ ∧
    ∀ address, ¬Relation.TransGen (fun multisig cosignatory => cosignatory ∈ cosignatories cache multisig)
      address address := by
  have hreachable : Reachable Nat exampleConfiguration _ :=
    .modify id addFirstCosignatory .empty passes_addFirstCosignatory rfl
  exact ⟨_, rfl, by decide, by decide, (multisig_graph_wellFormed hreachable).2.1⟩

end Catapult.Multisig
