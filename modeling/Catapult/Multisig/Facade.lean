import Catapult.Multisig.AccountModification

/-!
# What the observer of cosignatories does

A cache without empty entries is given by an entry for every account (`stored`). As long as the facade of an account
lives, its entry is in the cache, also when it is empty (`held`). The facade links and unlinks accounts in the
entries; it throws only when it unlinks an account without an entry.
-/

namespace Catapult.Multisig

variable {Address UnresolvedAddress : Type} [DecidableEq Address]

def MultisigEntry.IsEmpty (entry : MultisigEntry Address) : Prop :=
  entry.cosignatoryAddresses = ∅ ∧ entry.multisigAddresses = ∅

instance (entry : MultisigEntry Address) : Decidable entry.IsEmpty := inferInstanceAs (Decidable (_ ∧ _))

abbrev Entries (Address : Type) := Address → MultisigEntry Address

def stored (entries : Entries Address) : MultisigCache Address :=
  fun address => if (entries address).IsEmpty then none else some (entries address)

def entriesOf (cache : MultisigCache Address) : Entries Address := fun address => (cache address).getD .initial

def held (multisig : Address) (entries : Entries Address) : MultisigCache Address :=
  Function.update (stored entries) multisig (some (entries multisig))

def link (multisig : Address) (entries : Entries Address) (cosignatories : Finset Address) : Entries Address :=
  fun address =>
    if address = multisig then { entries address with
      cosignatoryAddresses := (entries address).cosignatoryAddresses ∪ cosignatories }
    else if address ∈ cosignatories then { entries address with
      multisigAddresses := Insert.insert multisig (entries address).multisigAddresses }
    else entries address

def unlink (multisig : Address) (entries : Entries Address) (cosignatories : Finset Address) : Entries Address :=
  fun address =>
    if address = multisig then { entries address with
      cosignatoryAddresses := (entries address).cosignatoryAddresses \ cosignatories }
    else if address ∈ cosignatories then { entries address with
      multisigAddresses := (entries address).multisigAddresses.erase multisig }
    else entries address

/-- Accounts without cosignatories have no settings, but for the one of the facade. -/
def Plain (multisig : Address) (entries : Entries Address) : Prop :=
  ∀ address, address ≠ multisig → (entries address).cosignatoryAddresses = ∅ →
    (entries address).minApproval = 0 ∧ (entries address).minRemoval = 0

variable {cache : MultisigCache Address} {entries : Entries Address} {multisig cosignatory address : Address}
  {cosignatories : Finset Address}

omit [DecidableEq Address] in
theorem Plain.eq_initial (hplain : Plain multisig entries) (hne : address ≠ multisig)
    (hempty : (entries address).IsEmpty) : entries address = .initial := by
  obtain ⟨happroval, hremoval⟩ := hplain address hne hempty.1
  have hcosignatories := hempty.1
  have hmultisigs := hempty.2
  rcases hentry : entries address with ⟨_, _, _, _⟩
  rw [hentry] at happroval hremoval hcosignatories hmultisigs
  simp only at happroval hremoval hcosignatories hmultisigs
  rw [happroval, hremoval, hcosignatories, hmultisigs]
  rfl

@[simp] theorem held_self : held multisig entries multisig = some (entries multisig) := by simp [held]

theorem held_of_ne (hne : address ≠ multisig) : held multisig entries address = stored entries address := by
  simp [held, hne]

theorem link_multisig : link multisig entries cosignatories multisig = { entries multisig with
    cosignatoryAddresses := (entries multisig).cosignatoryAddresses ∪ cosignatories } := by
  simp [link]

theorem link_of_mem (hne : address ≠ multisig) (hmem : address ∈ cosignatories) :
    link multisig entries cosignatories address =
      { entries address with multisigAddresses := Insert.insert multisig (entries address).multisigAddresses } := by
  simp [link, hne, hmem]

theorem link_of_notMem (hne : address ≠ multisig) (hmem : address ∉ cosignatories) :
    link multisig entries cosignatories address = entries address := by
  simp [link, hne, hmem]

theorem unlink_multisig : unlink multisig entries cosignatories multisig = { entries multisig with
    cosignatoryAddresses := (entries multisig).cosignatoryAddresses \ cosignatories } := by
  simp [unlink]

theorem unlink_of_mem (hne : address ≠ multisig) (hmem : address ∈ cosignatories) :
    unlink multisig entries cosignatories address =
      { entries address with multisigAddresses := (entries address).multisigAddresses.erase multisig } := by
  simp [unlink, hne, hmem]

theorem unlink_of_notMem (hne : address ≠ multisig) (hmem : address ∉ cosignatories) :
    unlink multisig entries cosignatories address = entries address := by
  simp [unlink, hne, hmem]

@[simp] theorem link_empty : link multisig entries ∅ = entries := by
  funext address
  simp [link]

@[simp] theorem unlink_empty : unlink multisig entries ∅ = entries := by
  funext address
  simp [unlink]

theorem link_link : link multisig (link multisig entries {cosignatory}) cosignatories =
    link multisig entries (Insert.insert cosignatory cosignatories) := by
  funext address
  by_cases hmultisig : address = multisig
  · subst hmultisig
    simp [link_multisig]
  · simp only [link, if_neg hmultisig, Finset.mem_singleton, Finset.mem_insert]
    by_cases hcosignatory : address = cosignatory <;> by_cases hmem : address ∈ cosignatories <;> simp_all

theorem unlink_unlink : unlink multisig (unlink multisig entries {cosignatory}) cosignatories =
    unlink multisig entries (Insert.insert cosignatory cosignatories) := by
  funext address
  by_cases hmultisig : address = multisig
  · subst hmultisig
    rw [unlink_multisig, unlink_multisig, unlink_multisig, Finset.insert_eq, Finset.sdiff_union_distrib,
      Finset.sdiff_sdiff_left']
  · simp only [unlink, if_neg hmultisig, Finset.mem_singleton, Finset.mem_insert]
    by_cases hcosignatory : address = cosignatory <;> by_cases hmem : address ∈ cosignatories <;> simp_all

theorem Plain.link (hplain : Plain multisig entries) : Plain multisig (link multisig entries cosignatories) := by
  intro address hne hempty
  by_cases hmem : address ∈ cosignatories
  · rw [link_of_mem hne hmem] at hempty ⊢
    exact hplain address hne hempty
  · rw [link_of_notMem hne hmem] at hempty ⊢
    exact hplain address hne hempty

theorem Plain.unlink (hplain : Plain multisig entries) : Plain multisig (unlink multisig entries cosignatories) := by
  intro address hne hempty
  by_cases hmem : address ∈ cosignatories
  · rw [unlink_of_mem hne hmem] at hempty ⊢
    exact hplain address hne hempty
  · rw [unlink_of_notMem hne hmem] at hempty ⊢
    exact hplain address hne hempty

theorem run_getMultisigEntry : (getMultisigEntry address).run cache =
    .ok () (Function.update cache address (some ((cache address).getD .initial))) := by
  cases hentry : cache address with
  | none => simp [getMultisigEntry, insert, hentry]
  | some entry =>
    rw [Option.getD_some, ← hentry, Function.update_eq_self]
    simp only [getMultisigEntry, EStateM.run_bind, EStateM.run_get, hentry]
    rfl

theorem run_updateEntry {f : MultisigEntry Address → MultisigEntry Address} : (updateEntry address f).run cache =
    .ok () (Function.update cache address ((cache address).map f)) := rfl

theorem run_removeIfEmpty {entry : MultisigEntry Address} (hentry : cache address = some entry) :
    (removeIfEmpty address).run cache =
      .ok () (Function.update cache address (if entry.IsEmpty then none else some entry)) := by
  by_cases hempty : entry.IsEmpty
  · rw [if_pos hempty]
    obtain ⟨hcosignatories, hmultisigs⟩ := hempty
    simp [removeIfEmpty, remove, hentry, hcosignatories, hmultisigs]
  · have hnot : ¬(entry.cosignatoryAddresses = ∅ ∧ entry.multisigAddresses = ∅) := hempty
    rw [if_neg hempty, ← hentry, Function.update_eq_self]
    simp only [removeIfEmpty, EStateM.run_bind, EStateM.run_get, hentry, if_neg hnot]
    rfl

theorem run_addCosignatory (hplain : Plain multisig entries) (hne : cosignatory ≠ multisig) :
    (addCosignatory multisig cosignatory).run (held multisig entries) =
      .ok () (held multisig (link multisig entries {cosignatory})) := by
  have hentry : (held multisig entries cosignatory).getD .initial = entries cosignatory := by
    rw [held_of_ne hne, stored]
    split
    · exact (hplain.eq_initial hne ‹_›).symm
    · rfl
  simp only [addCosignatory, EStateM.run_bind, run_getMultisigEntry, run_updateEntry, hentry]
  congr 1
  funext address
  by_cases hmultisig : address = multisig
  · subst hmultisig
    simp [hne.symm, link_multisig]
  by_cases hcosignatory : address = cosignatory
  · subst hcosignatory
    have hlink : link multisig entries {address} address = _ := link_of_mem hne (Finset.mem_singleton_self address)
    have hnot : ¬(link multisig entries {address} address).IsEmpty := by
      rw [hlink]
      simp [MultisigEntry.IsEmpty]
    rw [held_of_ne hne, stored, if_neg hnot, hlink]
    simp [hmultisig]
  · have hlink : link multisig entries {cosignatory} address = _ :=
      link_of_notMem hmultisig (Finset.notMem_singleton.2 hcosignatory)
    rw [held_of_ne hmultisig, stored, hlink]
    simp [hmultisig, hcosignatory, held_of_ne hmultisig, stored]

theorem run_removeCosignatory_of_isEmpty (hne : cosignatory ≠ multisig) (hempty : (entries cosignatory).IsEmpty) :
    ∃ cache', (removeCosignatory multisig cosignatory).run (held multisig entries) =
      .error (.not cosignatory) cache' := by
  have hnone : held multisig entries cosignatory = none := by rw [held_of_ne hne, stored, if_pos hempty]
  simp [removeCosignatory, run_updateEntry, hne, hnone]

theorem run_removeCosignatory (hne : cosignatory ≠ multisig) (hnot : ¬(entries cosignatory).IsEmpty) :
    (removeCosignatory multisig cosignatory).run (held multisig entries) =
      .ok () (held multisig (unlink multisig entries {cosignatory})) := by
  have hsome : held multisig entries cosignatory = some (entries cosignatory) := by
    rw [held_of_ne hne, stored, if_neg hnot]
  have hentry : unlink multisig entries {cosignatory} cosignatory = _ :=
    unlink_of_mem hne (Finset.mem_singleton_self cosignatory)
  have hstep : (removeCosignatory multisig cosignatory).run (held multisig entries) = (removeIfEmpty cosignatory).run
      (Function.update (Function.update (held multisig entries) multisig
        (some (unlink multisig entries {cosignatory} multisig))) cosignatory
        (some (unlink multisig entries {cosignatory} cosignatory))) := by
    simp [removeCosignatory, run_updateEntry, hne, hsome, hentry, unlink_multisig, Finset.erase_eq]
  rw [hstep, run_removeIfEmpty (Function.update_self ..)]
  congr 1
  funext address
  by_cases hmultisig : address = multisig
  · subst hmultisig
    simp [hne.symm]
  by_cases hcosignatory : address = cosignatory
  · subst hcosignatory
    simp [held_of_ne hne, stored]
  · have hunlink : unlink multisig entries {cosignatory} address = _ :=
      unlink_of_notMem hmultisig (Finset.notMem_singleton.2 hcosignatory)
    simp [hmultisig, hcosignatory, held_of_ne hmultisig, stored, hunlink]

variable {addresses : List Address}

theorem run_addAll_add (hplain : Plain multisig entries) (hne : ∀ address ∈ addresses, address ≠ multisig) :
    (addAll multisig true addresses).run (held multisig entries) =
      .ok () (held multisig (link multisig entries addresses.toFinset)) := by
  induction addresses generalizing entries with
  | nil =>
    rw [List.toFinset_nil, link_empty]
    rfl
  | cons cosignatory addresses ih =>
    have hhead := run_addCosignatory hplain (hne cosignatory List.mem_cons_self)
    have hplain' : Plain multisig (link multisig entries {cosignatory}) := hplain.link
    have htail := ih hplain' fun address hmem => hne address (.tail _ hmem)
    simp only [addAll, if_pos, EStateM.run_bind, hhead, htail, link_link, List.toFinset_cons]

theorem run_addAll_remove (hne : ∀ address ∈ addresses, address ≠ multisig)
    (hnot : ∀ address ∈ addresses, ¬(entries address).IsEmpty)
    (hagain : ∀ address, 2 ≤ addresses.count address → ¬(unlink multisig entries {address} address).IsEmpty) :
    (addAll multisig false addresses).run (held multisig entries) =
      .ok () (held multisig (unlink multisig entries addresses.toFinset)) := by
  induction addresses generalizing entries with
  | nil =>
    rw [List.toFinset_nil, unlink_empty]
    rfl
  | cons cosignatory addresses ih =>
    have hhead := run_removeCosignatory (hne cosignatory List.mem_cons_self) (hnot cosignatory List.mem_cons_self)
    have hne' : ∀ address ∈ addresses, address ≠ multisig := fun address hmem => hne address (.tail _ hmem)
    have htail := @ih (unlink multisig entries {cosignatory}) hne' ?_ ?_
    · simp [addAll, hhead, htail, unlink_unlink]
    · intro address hmem
      by_cases hcosignatory : address = cosignatory
      · subst hcosignatory
        apply hagain
        rw [List.count_cons_self]
        have hcount := List.count_pos_iff.2 hmem
        omega
      · rw [unlink_of_notMem (hne' address hmem) (Finset.notMem_singleton.2 hcosignatory)]
        exact hnot address (.tail _ hmem)
    · intro address hcount
      have hmem : address ∈ addresses := List.count_pos_iff.1 (by omega)
      have hunlink := hagain address (hcount.trans (List.count_le_count_cons ..))
      by_cases hcosignatory : address = cosignatory
      · subst hcosignatory
        rwa [unlink_unlink, Finset.insert_eq_of_mem (Finset.mem_singleton_self address)]
      · have hself := Finset.mem_singleton_self address
        rw [unlink_of_mem (hne' address hmem) hself] at hunlink ⊢
        rwa [unlink_of_notMem (hne' address hmem) (Finset.notMem_singleton.2 hcosignatory)]

theorem run_addAll_remove_of_isEmpty (hne : ∀ address ∈ addresses, address ≠ multisig) (hmem : cosignatory ∈ addresses)
    (hempty : (entries cosignatory).IsEmpty) : ∃ error cache',
      (addAll multisig false addresses).run (held multisig entries) = .error error cache' := by
  induction addresses generalizing entries with
  | nil => cases hmem
  | cons head addresses ih =>
    by_cases hhead : (entries head).IsEmpty
    · obtain ⟨cache', hrun⟩ := run_removeCosignatory_of_isEmpty (hne head List.mem_cons_self) hhead
      exact ⟨.not head, cache', by simp [addAll, hrun]⟩
    · have hrun := run_removeCosignatory (hne head List.mem_cons_self) hhead
      have hother : cosignatory ≠ head := by
        rintro rfl
        exact hhead hempty
      have hnotMem : cosignatory ∉ ({head} : Finset Address) := Finset.notMem_singleton.2 hother
      obtain ⟨error, cache', htail⟩ := @ih (unlink multisig entries {head})
        (fun address hmem => hne address (.tail _ hmem)) (List.mem_of_ne_of_mem hother hmem)
        (by rwa [unlink_of_notMem (hne cosignatory hmem) hnotMem])
      exact ⟨error, cache', by simp [addAll, hrun, htail]⟩

theorem run_addAll_remove_of_again (hne : ∀ address ∈ addresses, address ≠ multisig)
    (hcount : 2 ≤ addresses.count cosignatory) (hempty : (unlink multisig entries {cosignatory} cosignatory).IsEmpty) :
    ∃ error cache', (addAll multisig false addresses).run (held multisig entries) = .error error cache' := by
  induction addresses generalizing entries with
  | nil => simp at hcount
  | cons head addresses ih =>
    have hne' : ∀ address ∈ addresses, address ≠ multisig := fun address hmem => hne address (.tail _ hmem)
    by_cases hhead : (entries head).IsEmpty
    · exact run_addAll_remove_of_isEmpty hne List.mem_cons_self hhead
    have hrun := run_removeCosignatory (hne head List.mem_cons_self) hhead
    have htail : ∃ error cache', (addAll multisig false addresses).run
        (held multisig (unlink multisig entries {head})) = .error error cache' := by
      by_cases hcosignatory : cosignatory = head
      · subst hcosignatory
        rw [List.count_cons_self] at hcount
        exact run_addAll_remove_of_isEmpty hne' (List.count_pos_iff.1 (by omega)) hempty
      · rw [List.count_cons_of_ne (Ne.symm hcosignatory)] at hcount
        have hmem : cosignatory ∈ addresses := List.count_pos_iff.1 (by omega)
        have hself := Finset.mem_singleton_self cosignatory
        apply ih hne' hcount
        rw [unlink_of_mem (hne' cosignatory hmem) hself] at hempty ⊢
        rwa [unlink_of_notMem (hne' cosignatory hmem) (Finset.notMem_singleton.2 hcosignatory)]
    obtain ⟨error, cache', htail⟩ := htail
    exact ⟨error, cache', by simp [addAll, hrun, htail]⟩

variable {entries' : Entries Address} {body : CacheM Address Unit}

theorem run_removeIfEmpty_held : (removeIfEmpty multisig).run (held multisig entries) = .ok () (stored entries) := by
  rw [run_removeIfEmpty held_self]
  congr 1
  funext address
  by_cases hmultisig : address = multisig
  · subst hmultisig
    simp [stored]
  · simp [hmultisig, held_of_ne hmultisig]

theorem run_withMultisigAccount
    (hstart : Function.update cache multisig (some ((cache multisig).getD .initial)) = held multisig entries)
    (hbody : body.run (held multisig entries) = .ok () (held multisig entries')) :
    (withMultisigAccount multisig body).run cache = .ok () (stored entries') := by
  have hrun : (removeIfEmpty multisig).run (held multisig entries') = _ := run_removeIfEmpty_held
  simp only [EStateM.run] at hbody hrun
  simp only [withMultisigAccount, EStateM.run_bind, run_getMultisigEntry, hstart]
  simp only [tryFinally, tryFinally', EStateM.run, Functor.map, EStateM.map, hbody, hrun]

theorem run_withMultisigAccount_error {error : CacheError Address} {cache' : MultisigCache Address}
    (hstart : Function.update cache multisig (some ((cache multisig).getD .initial)) = held multisig entries)
    (hbody : body.run (held multisig entries) = .error error cache') :
    ∃ error cache', (withMultisigAccount multisig body).run cache = .error error cache' := by
  simp only [EStateM.run] at hbody
  simp only [withMultisigAccount, EStateM.run_bind, run_getMultisigEntry, hstart]
  simp only [tryFinally, tryFinally', EStateM.run, Functor.map, EStateM.map, hbody]
  cases removeIfEmpty multisig cache' <;> simp

end Catapult.Multisig
