import Catapult.PartialTransactions.PtUpdater

/-!
# What the entry and the tasks hold

The cosignatures of an entry have different signers, and each one was verified and found eligible before it was added.
Tasks carry cosignatures that were taken from an entry, so the same holds of them.
-/

namespace Catapult.PartialTransactions
variable {Key Signature Payload Chain : Type} [LinearOrder Key]

def Accepted (env : Environment Key Signature Payload Chain) (history : List (Event Key Signature Payload))
    (cosignature : Cosignature Key Signature) : Prop :=
  env.verify cosignature = true ∧ ∃ ineligible, .checked cosignature true ineligible ∈ history

structure Cosigned (env : Environment Key Signature Payload Chain) (history : List (Event Key Signature Payload))
    (cosignatures : List (Cosignature Key Signature)) : Prop where
  signers : (cosignatures.map Cosignature.signer).Nodup
  accepted : ∀ cosignature ∈ cosignatures, Accepted env history cosignature

def Task.Knows (env : Environment Key Signature Payload Chain) (history : List (Event Key Signature Payload)) :
    Task Key Signature Payload → Prop
  | refresh cosignature stale =>
    (∃ ineligible, .checked cosignature true ineligible ∈ history) ∧ Cosigned env history stale.eligibleCosignatures
  | verify cosignature => ∃ ineligible, .checked cosignature true ineligible ∈ history
  | addCosignature cosignature => Accepted env history cosignature
  | removeCompleted _ completed => Cosigned env history completed ∧ .judgedComplete completed ∈ history
  | deliver _ insertion aggregate =>
    Cosigned env history aggregate.cosignatures ∧ .judgedComplete aggregate.cosignatures ∈ history ∧
      .inserted insertion aggregate.payload ∈ history
  | _ => True

def EntryKnown (env : Environment Key Signature Payload Chain) (history : List (Event Key Signature Payload))
    (cache : Cache Key Signature Payload) : Prop :=
  ∀ entry, cache.entry = some entry →
    Cosigned env history entry.cosignatures ∧ .inserted entry.insertion entry.payload ∈ history

structure Knowledge (env : Environment Key Signature Payload Chain) (history : List (Event Key Signature Payload))
    (state : State Key Signature Payload Chain) : Prop where
  entry : EntryKnown env history state.cache
  tasks : ∀ task ∈ state.tasks, task.Knows env history

variable {env : Environment Key Signature Payload Chain} {history events : List (Event Key Signature Payload)}
  {cosignature : Cosignature Key Signature} {cosignatures : List (Cosignature Key Signature)}
  {cache cache' : Cache Key Signature Payload} {chain : Chain} {task : Task Key Signature Payload}

section
omit [LinearOrder Key]

theorem Accepted.append (h : Accepted env history cosignature) : Accepted env (history ++ events) cosignature :=
  ⟨h.1, h.2.imp fun _ hmem => List.mem_append_left _ hmem⟩

theorem Cosigned.append (h : Cosigned env history cosignatures) : Cosigned env (history ++ events) cosignatures :=
  ⟨h.signers, fun cosignature hmem => (h.accepted cosignature hmem).append⟩

theorem Task.Knows.append (h : task.Knows env history) : task.Knows env (history ++ events) := by
  cases task with
  | refresh => exact ⟨h.1.imp fun _ hmem => List.mem_append_left _ hmem, h.2.append⟩
  | verify => exact h.imp fun _ hmem => List.mem_append_left _ hmem
  | addCosignature => exact Accepted.append h
  | removeCompleted => exact ⟨h.1.append, List.mem_append_left _ h.2⟩
  | deliver => exact ⟨h.1.append, List.mem_append_left _ h.2.1, List.mem_append_left _ h.2.2⟩
  | _ => trivial

end

theorem mem_insertSorted {other : Cosignature Key Signature} :
    other ∈ Cache.insertSorted cosignature cosignatures ↔ other = cosignature ∨ other ∈ cosignatures :=
  List.mem_orderedInsert _

theorem not_mem_signers_of_hasCosignatory {signer : Key} (h : hasCosignatory cosignatures signer = false) :
    signer ∉ cosignatures.map Cosignature.signer := by
  unfold hasCosignatory at h
  intro hmem
  obtain ⟨cosignature, hfound, rfl⟩ := List.mem_map.1 hmem
  rw [List.any_eq_false] at h
  exact h cosignature hfound (decide_eq_true rfl)

theorem Cosigned.insertSorted (h : Cosigned env history cosignatures) (haccepted : Accepted env history cosignature)
    (hnew : hasCosignatory cosignatures cosignature.signer = false) :
    Cosigned env history (Cache.insertSorted cosignature cosignatures) := by
  refine ⟨?_, fun other hmem => ?_⟩
  · have hperm := (List.perm_orderedInsert (fun new existing : Cosignature Key Signature =>
      ¬existing.signer < new.signer)
      cosignature cosignatures).map Cosignature.signer
    refine hperm.nodup_iff.2 (List.nodup_cons.2 ⟨not_mem_signers_of_hasCosignatory hnew, h.signers⟩)
  · rcases mem_insertSorted.1 hmem with rfl | hmem
    · exact haccepted
    · exact h.accepted other hmem

omit [LinearOrder Key] in
theorem Cosigned.filter (h : Cosigned env history cosignatures) (keep : Cosignature Key Signature → Bool) :
    Cosigned env history (cosignatures.filter keep) :=
  ⟨h.signers.sublist (List.filter_sublist.map _), fun cosignature hmem =>
    h.accepted cosignature (List.mem_of_mem_filter hmem)⟩

omit [LinearOrder Key] in
theorem cosigned_nil : Cosigned env history ([] : List (Cosignature Key Signature)) :=
  ⟨List.nodup_nil, fun _ hmem => absurd hmem List.not_mem_nil⟩

theorem Cache.addCosignature_eq_some (h : cache.addCosignature cosignature = some cache') : ∃ entry,
    cache.entry = some entry ∧ hasCosignatory entry.cosignatures cosignature.signer = false ∧
    cache'.entry = some { entry with cosignatures := Cache.insertSorted cosignature entry.cosignatures } ∧
    cache'.insertions = cache.insertions ∧ cache'.changes = cache.changes + 1 := by
  unfold Cache.addCosignature at h
  split at h
  · cases h
  · rename_i entry hentry
    split at h
    · cases h
    · rename_i hnew
      cases h
      exact ⟨entry, hentry, Bool.not_eq_true _ ▸ hnew, rfl, rfl, rfl⟩

section
omit [LinearOrder Key]

theorem Cache.remove_eq_some {entry : Entry Key Signature Payload} (h : cache.remove env = some (entry, cache')) :
    cache.entry = some entry ∧ cache'.entry = none ∧ cache'.insertions = cache.insertions ∧
      cache'.changes = cache.changes + 1 := by
  obtain ⟨found, hfound, heq⟩ := Option.map_eq_some_iff.1 h
  cases heq
  exact ⟨hfound, rfl, rfl, rfl⟩

theorem Cache.addEntry_eq_some {payload : Payload} {insertion : Nat}
    (h : cache.addEntry env payload insertion = some cache') :
    cache.entry = none ∧ cache'.entry = some { payload, cosignatures := [], insertion } ∧
      cache'.insertions = cache.insertions ∧ cache'.changes = cache.changes + 1 := by
  unfold Cache.addEntry at h
  split at h
  · cases h
  · split at h
    · cases h
    · rename_i hnone
      cases h
      exact ⟨by simpa using hnone, rfl, rfl, rfl⟩

theorem Cache.addTransaction_eq_some {payload : Payload} (h : cache.addTransaction env payload = some cache') :
    cache.entry = none ∧ cache'.entry = some { payload, cosignatures := [], insertion := cache.insertions } ∧
      cache'.insertions = cache.insertions + 1 ∧ cache'.changes = cache.changes + 1 := by
  obtain ⟨added, hadded, rfl⟩ := Option.map_eq_some_iff.1 h
  obtain ⟨hnone, hentry, hinsertions, hchanges⟩ := Cache.addEntry_eq_some hadded
  exact ⟨hnone, hentry, congrArg (· + 1) hinsertions, hchanges⟩

end

theorem foldl_tryAddCosignature_of_none (h : cache.entry = none) (l : List (Cosignature Key Signature)) :
    l.foldl Cache.tryAddCosignature cache = cache := by
  induction l with
  | nil => rfl
  | cons cosignature l ih =>
    have hsame : cache.tryAddCosignature cosignature = cache := by
      unfold Cache.tryAddCosignature Cache.addCosignature
      rw [h]
      rfl
    rw [List.foldl_cons, hsame, ih]

theorem foldl_tryAddCosignature {entry : Entry Key Signature Payload} (h : cache.entry = some entry)
    (l : List (Cosignature Key Signature)) : ∃ cosignatures,
    (l.foldl Cache.tryAddCosignature cache).entry = some { entry with cosignatures } ∧
    (l.foldl Cache.tryAddCosignature cache).insertions = cache.insertions ∧
    (∀ cosignature ∈ cosignatures, cosignature ∈ entry.cosignatures ++ l) ∧
    ((entry.cosignatures.map Cosignature.signer).Nodup → (cosignatures.map Cosignature.signer).Nodup) ∧
    (((entry.cosignatures ++ l).map Cosignature.signer).Nodup →
      ∀ cosignature ∈ entry.cosignatures ++ l, cosignature ∈ cosignatures) := by
  induction l generalizing cache entry with
  | nil =>
    refine ⟨entry.cosignatures, h, rfl, fun _ hmem => List.mem_append_left _ hmem, id, fun _ c hmem => ?_⟩
    rwa [List.append_nil] at hmem
  | cons cosignature l ih =>
    rw [List.foldl_cons]
    cases hadd : cache.addCosignature cosignature with
    | none =>
      -- the signer is there already
      have hsame : cache.tryAddCosignature cosignature = cache := by rw [Cache.tryAddCosignature, hadd]; rfl
      have hknown : hasCosignatory entry.cosignatures cosignature.signer = true := by
        unfold Cache.addCosignature at hadd
        rw [h] at hadd
        dsimp only at hadd
        split at hadd
        · assumption
        · cases hadd
      obtain ⟨result, hentry, hinsertions, hsub, hnodup, -⟩ := ih h
      rw [hsame]
      refine ⟨result, hentry, hinsertions, fun c hmem => ?_, hnodup, fun hdistinct => ?_⟩
      · rcases List.mem_append.1 (hsub c hmem) with hmem | hmem
        · exact List.mem_append_left _ hmem
        · exact List.mem_append_right _ (List.mem_cons_of_mem _ hmem)
      · obtain ⟨existing, hexisting, hsigner⟩ := List.any_eq_true.1 hknown
        rw [List.map_append, List.map_cons, List.nodup_append] at hdistinct
        refine absurd rfl (hdistinct.2.2 _ (List.mem_map_of_mem hexisting) _ ?_)
        rw [← of_decide_eq_true hsigner]
        exact List.mem_cons_self
    | some added =>
      have hsome : cache.tryAddCosignature cosignature = added := by rw [Cache.tryAddCosignature, hadd]; rfl
      obtain ⟨found, hfound, hnew, haddedEntry, haddedInsertions, -⟩ := Cache.addCosignature_eq_some hadd
      cases hfound.symm.trans h
      obtain ⟨result, hentry, hinsertions, hsub, hnodup, hall⟩ := ih haddedEntry
      rw [hsome]
      have hperm : ((Cache.insertSorted cosignature entry.cosignatures).map Cosignature.signer).Perm
          (cosignature.signer :: entry.cosignatures.map Cosignature.signer) :=
        (List.perm_orderedInsert _ cosignature entry.cosignatures).map Cosignature.signer
      refine ⟨result, hentry, hinsertions.trans haddedInsertions, fun c hmem => ?_, fun hdistinct => ?_,
        fun hdistinct c hmem => ?_⟩
      · rcases List.mem_append.1 (hsub c hmem) with hmem | hmem
        · rcases mem_insertSorted.1 hmem with rfl | hmem
          · exact List.mem_append_right _ List.mem_cons_self
          · exact List.mem_append_left _ hmem
        · exact List.mem_append_right _ (List.mem_cons_of_mem _ hmem)
      · exact hnodup (hperm.nodup_iff.2 (List.nodup_cons.2 ⟨not_mem_signers_of_hasCosignatory hnew, hdistinct⟩))
      · refine hall ?_ c ?_
        · rw [List.map_append] at hdistinct ⊢
          refine ((hperm.append_right _).trans ?_).nodup_iff.2 hdistinct
          rw [List.map_cons]
          exact List.perm_middle.symm
        · rcases List.mem_append.1 hmem with hmem | hmem
          · exact List.mem_append_left _ (mem_insertSorted.2 (.inr hmem))
          · rcases List.mem_cons.1 hmem with rfl | hmem
            · exact List.mem_append_left _ (mem_insertSorted.2 (.inl rfl))
            · exact List.mem_append_right _ hmem

theorem refresh_entry {stale : StaleTransactionInfo Key Signature} {entry : Entry Key Signature Payload}
    (h : (refreshStaleCacheEntry env cache stale).entry = some entry) : ∃ previous,
    cache.entry = some previous ∧ entry.payload = previous.payload ∧ entry.insertion = previous.insertion ∧
    (∀ cosignature ∈ entry.cosignatures, cosignature ∈ stale.eligibleCosignatures) ∧
    (entry.cosignatures.map Cosignature.signer).Nodup := by
  unfold refreshStaleCacheEntry at h
  split at h
  · rename_i hremove
    rw [Cache.remove, Option.map_eq_none_iff] at hremove
    rw [hremove] at h
    cases h
  · rename_i removed rest hremove
    obtain ⟨hprevious, hrest, -⟩ := Cache.remove_eq_some hremove
    cases hadd : rest.addEntry env removed.payload removed.insertion with
    | none =>
      rw [hadd, Option.getD_none, foldl_tryAddCosignature_of_none hrest, hrest] at h
      cases h
    | some added =>
      obtain ⟨-, hadded, -⟩ := Cache.addEntry_eq_some hadd
      obtain ⟨cosignatures, hentry, -, hsub, hnodup, -⟩ := foldl_tryAddCosignature hadded stale.eligibleCosignatures
      rw [hadd, Option.getD_some, hentry] at h
      cases h
      exact ⟨removed, hprevious, rfl, rfl, hsub, hnodup List.nodup_nil⟩

theorem refresh_insertions {stale : StaleTransactionInfo Key Signature} :
    (refreshStaleCacheEntry env cache stale).insertions = cache.insertions := by
  unfold refreshStaleCacheEntry
  split
  · rfl
  · rename_i removed rest hremove
    obtain ⟨-, hrest, hinsertions, -⟩ := Cache.remove_eq_some hremove
    cases hadd : rest.addEntry env removed.payload removed.insertion with
    | none => rw [Option.getD_none, foldl_tryAddCosignature_of_none hrest, hinsertions]
    | some added =>
      obtain ⟨-, hadded, haddedInsertions, -⟩ := Cache.addEntry_eq_some hadd
      obtain ⟨cosignatures, -, hfold, -⟩ := foldl_tryAddCosignature hadded stale.eligibleCosignatures
      rw [Option.getD_some, hfold, haddedInsertions, hinsertions]

section
omit [LinearOrder Key]

theorem EntryKnown.append (h : EntryKnown env history cache) : EntryKnown env (history ++ events) cache :=
  fun entry hentry => ⟨(h entry hentry).1.append, List.mem_append_left _ (h entry hentry).2⟩

theorem entryKnown_of_none (h : cache.entry = none) : EntryKnown env history cache := by
  intro entry hentry
  rw [h] at hentry
  cases hentry

theorem knows_completeWith {result : UpdateResult} {update : Option (Cosignature Key Signature)} :
    ∀ next ∈ (completeWith update result : List (Task Key Signature Payload)), next.Knows env history := by
  intro next hnext
  obtain ⟨cosignature, -, rfl⟩ := List.mem_map.1 hnext
  trivial

end

theorem knows_afterCheck (hentry : EntryKnown env history cache)
    (hmem : ∃ ineligible,
      .checked cosignature (checkEligibility env chain cache cosignature).isEligible ineligible ∈ events) :
    (afterCheck cosignature (checkEligibility env chain cache cosignature) : Task Key Signature Payload).Knows env
      (history ++ events) := by
  unfold afterCheck
  split
  · trivial
  · split
    · trivial
    · rename_i heligible
      rw [Bool.not_eq_true, Bool.not_eq_false'] at heligible
      have hchecked : ∃ ineligible, .checked cosignature true ineligible ∈ history ++ events := by
        obtain ⟨ineligible, hmem⟩ := hmem
        rw [heligible] at hmem
        exact ⟨ineligible, List.mem_append_right _ hmem⟩
      split
      · rename_i stale hstale
        refine ⟨hchecked, ?_⟩
        unfold checkEligibility at hstale
        split at hstale
        · cases hstale
        · rename_i entry hfound
          dsimp only at hstale
          split at hstale
          · cases hstale
          · split at hstale
            · cases hstale
            · split at hstale
              · cases hstale
              · cases hstale
                exact ((hentry entry hfound).1.filter _).append
      · exact hchecked

theorem knows_runTask (chain : Chain) (hentry : EntryKnown env history cache) (htask : task.Knows env history) :
    EntryKnown env (history ++ (runTask env chain cache task).event.toList) (runTask env chain cache task).cache ∧
      ∀ next ∈ (runTask env chain cache task).tasks,
        next.Knows env (history ++ (runTask env chain cache task).event.toList) := by
  cases task with
  | findTransaction aggregate =>
    dsimp only [runTask]
    split
    · refine ⟨hentry.append, fun next hnext => ?_⟩
      obtain ⟨cosignature, -, rfl⟩ := List.mem_map.1 hnext
      trivial
    · exact ⟨hentry.append, List.forall_mem_singleton.2 trivial⟩
  | validateTransaction aggregate cosignatures =>
    dsimp only [runTask]
    split
    · exact ⟨hentry.append, List.forall_mem_singleton.2 trivial⟩
    · exact ⟨hentry.append, fun next hnext => absurd hnext List.not_mem_nil⟩
  | insertTransaction payload cosignatures =>
    dsimp only [runTask]
    split
    · exact ⟨hentry.append, fun next hnext => absurd hnext List.not_mem_nil⟩
    · rename_i added hadd
      obtain ⟨-, hadded, -⟩ := Cache.addTransaction_eq_some hadd
      refine ⟨fun entry hfound => ?_, fun next hnext => ?_⟩
      · cases hadded.symm.trans hfound
        exact ⟨cosigned_nil, List.mem_append_right _ List.mem_cons_self⟩
      · dsimp only at hnext
        split at hnext
        · rw [List.mem_singleton.1 hnext]
          trivial
        · obtain ⟨cosignature, -, rfl⟩ := List.mem_map.1 hnext
          trivial
  | checkEligibility cosignature =>
    refine ⟨hentry.append, List.forall_mem_singleton.2 ?_⟩
    exact knows_afterCheck hentry ⟨_, List.mem_cons_self⟩
  | refresh cosignature stale =>
    refine ⟨fun entry hfound => ?_, fun next hnext => ?_⟩
    · obtain ⟨previous, hprevious, hpayload, hinsertion, hsub, hnodup⟩ := refresh_entry hfound
      refine ⟨⟨hnodup, fun c hmem => ((htask.2.accepted c (hsub c hmem)).append)⟩, ?_⟩
      rw [hpayload, hinsertion]
      exact List.mem_append_left _ (hentry previous hprevious).2
    · rw [List.mem_singleton.1 hnext]
      exact htask.1.imp fun _ hmem => List.mem_append_left _ hmem
  | purge cosignature =>
    dsimp only [runTask]
    split
    · exact ⟨hentry.append, List.forall_mem_singleton.2 trivial⟩
    · rename_i hremove
      exact ⟨entryKnown_of_none (Cache.remove_eq_some hremove).2.1, List.forall_mem_singleton.2 trivial⟩
  | verify cosignature =>
    dsimp only [runTask]
    split
    · rename_i hverify
      refine ⟨hentry.append, List.forall_mem_singleton.2 ?_⟩
      exact ⟨hverify, htask.imp fun _ hmem => List.mem_append_left _ hmem⟩
    · exact ⟨hentry.append, List.forall_mem_singleton.2 trivial⟩
  | addCosignature cosignature =>
    dsimp only [runTask]
    split
    · exact ⟨hentry.append, List.forall_mem_singleton.2 trivial⟩
    · rename_i added hadd
      obtain ⟨entry, hfound, hnew, hadded, -⟩ := Cache.addCosignature_eq_some hadd
      refine ⟨fun entry' hentry' => ?_, fun next hnext => ?_⟩
      · cases hadded.symm.trans hentry'
        exact ⟨((hentry entry hfound).1.insertSorted htask hnew).append, List.mem_append_left _ (hentry entry hfound).2⟩
      · rw [List.mem_singleton.1 hnext]
        trivial
  | checkCompleteness update =>
    dsimp only [runTask]
    split
    · exact ⟨hentry.append, knows_completeWith⟩
    · rename_i entry hfound
      split
      · refine ⟨hentry.append, List.forall_mem_singleton.2 ?_⟩
        exact ⟨(hentry entry hfound).1.append, List.mem_append_right _ List.mem_cons_self⟩
      · exact ⟨hentry.append, knows_completeWith⟩
  | removeCompleted update completed =>
    dsimp only [runTask]
    split
    · exact ⟨hentry.append, knows_completeWith⟩
    · rename_i removed rest hremove
      obtain ⟨hfound, hrest, -⟩ := Cache.remove_eq_some hremove
      refine ⟨entryKnown_of_none hrest, List.forall_mem_singleton.2 ?_⟩
      exact ⟨htask.1.append, List.mem_append_left _ htask.2, List.mem_append_left _ (hentry removed hfound).2⟩
  | deliver update insertion aggregate => exact ⟨hentry.append, knows_completeWith⟩
  | complete cosignature result => exact ⟨hentry.append, fun next hnext => absurd hnext List.not_mem_nil⟩

theorem Knowledge.step {ok : State Key Signature Payload Chain → Task Key Signature Payload → Prop}
    {state state' : State Key Signature Payload Chain} {event : Option (Event Key Signature Payload)}
    (h : Knowledge env history state) (hstep : Step env ok state event state') :
    Knowledge env (history ++ event.toList) state' := by
  have hentry := h.entry
  cases hstep with
  | updateTransaction | updateCosignature =>
    refine ⟨hentry.append, fun task htask => ?_⟩
    rcases List.mem_append.1 htask with htask | htask
    · exact (h.tasks task htask).append
    · rw [List.mem_singleton.1 htask]
      trivial
  | @run before after task htasks =>
    obtain ⟨hentry', htasks'⟩ := knows_runTask state.chain hentry (h.tasks task (by simp [htasks]))
    refine ⟨hentry', fun next hnext => ?_⟩
    rcases List.mem_append.1 hnext with hnext | hnext
    · rcases List.mem_append.1 hnext with hnext | hnext
      · exact (h.tasks next (by simp [htasks, hnext])).append
      · exact htasks' next hnext
    · exact (h.tasks next (by simp [htasks, hnext])).append
  | changeState => exact ⟨hentry.append, fun task htask => (h.tasks task htask).append⟩
  | prune hremove =>
    exact ⟨entryKnown_of_none (Cache.remove_eq_some hremove).2.1, fun task htask => (h.tasks task htask).append⟩
  | changeOthers => exact ⟨hentry.append, fun task htask => (h.tasks task htask).append⟩

end Catapult.PartialTransactions
