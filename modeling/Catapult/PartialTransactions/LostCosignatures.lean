import Catapult.PartialTransactions.Completion

/-!
# Cosignatures that a refresh loses

A stale entry is found under a read lock and populated again under a write lock with the cosignatures that were seen
before. A cosignature that another update has added in between is lost, although that update has returned that it was
added. Nothing is lost in runs in which no entry changes between the two and the entry fits into the cache again.
-/

namespace Catapult.PartialTransactions
open Catapult.Chain (sub64)

variable {Key Signature Payload Chain : Type} [LinearOrder Key]

/-- The entry is completed, purged or pruned, or a check finds the cosignature itself to be ineligible. -/
def Ends (cosignature : Cosignature Key Signature) : Event Key Signature Payload → Prop
  | .completed | .purged | .pruned => True
  | .checked _ _ ineligible => cosignature ∈ ineligible
  | _ => False

/-- A cosignature that was added, as its update has returned, stays in the entry until one of these ends it. -/
def KeepsCosignatures (history : List (Event Key Signature Payload)) (state : State Key Signature Payload Chain) :
    Prop :=
  ∀ before cosignature after, history = before ++ .added cosignature :: after →
    .returned cosignature .addedIncomplete ∈ after → (∀ event ∈ after, ¬Ends cosignature event) →
    ∃ entry, state.cache.entry = some entry ∧ cosignature ∈ entry.cosignatures

/-- The entry has not changed since it was found to be stale, and there is room for it when it is added again. -/
def RefreshFits (env : Environment Key Signature Payload Chain) (state : State Key Signature Payload Chain) :
    Task Key Signature Payload → Prop
  | .refresh _ stale => stale.changes = state.cache.changes ∧ ∀ entry, state.cache.entry = some entry →
      env.payloadSize entry.payload ≤ sub64 env.maxCacheSize
        (sub64 state.cache.cacheSize (env.payloadSize entry.payload + cosignatureSize * entry.cosignatures.length))
  | _ => True

instance (env : Environment Key Signature Payload Chain) (state : State Key Signature Payload Chain) :
    DecidablePred (RefreshFits env state)
  | .refresh _ _ => inferInstanceAs (Decidable (_ ∧ ∀ entry ∈ state.cache.entry, _))
  | .findTransaction _ | .validateTransaction _ _ | .insertTransaction _ _ | .checkEligibility _ | .purge _ | .verify _
  | .addCosignature _ | .checkCompleteness _ | .removeCompleted _ _ | .deliver _ _ _ | .complete _ _ => .isTrue trivial

variable {env : Environment Key Signature Payload Chain} {history events : List (Event Key Signature Payload)}
  {cosignature : Cosignature Key Signature} {cache cache' : Cache Key Signature Payload} {chain : Chain}
  {task : Task Key Signature Payload} {event : Option (Event Key Signature Payload)}
  {state state' : State Key Signature Payload Chain}

/-! ## Cosignatures that nothing has ended -/

def Lasting (history : List (Event Key Signature Payload)) (cosignature : Cosignature Key Signature) : Prop :=
  ∃ before after, history = before ++ .added cosignature :: after ∧ ∀ event ∈ after, ¬Ends cosignature event

omit [LinearOrder Key] in
theorem lasting_of_append (h : Lasting (history ++ event.toList) cosignature) :
    event = some (.added cosignature) ∨ Lasting history cosignature ∧ ∀ e, event = some e → ¬Ends cosignature e := by
  cases event with
  | none =>
    rw [Option.toList_none, List.append_nil] at h
    exact .inr ⟨h, fun _ hfalse => (nomatch hfalse)⟩
  | some last =>
    obtain ⟨before, after, hsplit, hends⟩ := h
    rcases List.eq_nil_or_concat after with rfl | ⟨after', last', rfl⟩
    · obtain ⟨-, hlast⟩ := List.append_inj' hsplit rfl
      cases hlast
      exact .inl rfl
    · have hassoc : history ++ [last] = (before ++ .added cosignature :: after') ++ [last'] := by simpa using hsplit
      obtain ⟨hhistory, hlast⟩ := List.append_inj' hassoc rfl
      cases hlast
      refine .inr ⟨⟨before, after', hhistory, fun e he => hends e (by simp [he])⟩, ?_⟩
      rintro e ⟨⟩
      exact hends _ (by simp)

/-- What the refresh tasks know of the entry, if it does not change any more. -/
def Task.Seen (history : List (Event Key Signature Payload)) (cache : Cache Key Signature Payload) :
    Task Key Signature Payload → Prop
  | refresh _ stale => stale.changes ≤ cache.changes ∧ (stale.changes = cache.changes → ∀ entry,
      cache.entry = some entry → ∀ cosignature ∈ entry.cosignatures,
        cosignature ∈ stale.eligibleCosignatures ∨ ¬Lasting history cosignature)
  | _ => True

structure Kept (history : List (Event Key Signature Payload)) (state : State Key Signature Payload Chain) : Prop where
  entry : ∀ cosignature, Lasting history cosignature →
    ∃ entry, state.cache.entry = some entry ∧ cosignature ∈ entry.cosignatures
  tasks : ∀ task ∈ state.tasks, task.Seen history state.cache

/-! ## Steps -/

omit [LinearOrder Key] in
theorem Task.Seen.step (h : task.Seen history cache) (hchanges : cache.changes ≤ cache'.changes)
    (hsame : cache'.changes = cache.changes → cache'.entry = cache.entry ∧ ∀ c, event ≠ some (.added c)) :
    task.Seen (history ++ event.toList) cache' := by
  cases task with
  | refresh _ stale =>
    refine ⟨h.1.trans hchanges, fun heq entry hentry c hmem => ?_⟩
    have hle := h.1
    obtain ⟨hentries, hevent⟩ := hsame (by omega)
    refine (h.2 (by omega) entry (hentries ▸ hentry) c hmem).imp_right fun hnot hlasting => ?_
    rcases lasting_of_append hlasting with hadded | hlasting
    · exact hevent c hadded
    · exact hnot hlasting.1
  | _ => trivial

theorem changes_le_foldl (l : List (Cosignature Key Signature)) :
    cache.changes ≤ (l.foldl Cache.tryAddCosignature cache).changes := by
  induction l generalizing cache with
  | nil => exact Nat.le_refl _
  | cons cosignature l ih =>
    refine Nat.le_trans ?_ ih
    cases hadd : cache.addCosignature cosignature with
    | none => rw [Cache.tryAddCosignature, hadd, Option.getD_none]
    | some added =>
      obtain ⟨-, -, -, -, -, hchanges⟩ := Cache.addCosignature_eq_some hadd
      rw [Cache.tryAddCosignature, hadd, Option.getD_some, hchanges]
      exact Nat.le_succ _

theorem refresh_changes {stale : StaleTransactionInfo Key Signature} :
    cache.changes ≤ (refreshStaleCacheEntry env cache stale).changes ∧
      ((refreshStaleCacheEntry env cache stale).changes = cache.changes →
        (refreshStaleCacheEntry env cache stale).entry = cache.entry) := by
  unfold refreshStaleCacheEntry
  split
  · exact ⟨Nat.le_refl _, fun _ => rfl⟩
  · rename_i removed rest hremove
    obtain ⟨-, -, -, hchanges⟩ := Cache.remove_eq_some hremove
    have hle : cache.changes + 1 ≤ (stale.eligibleCosignatures.foldl Cache.tryAddCosignature
        ((rest.addEntry env removed.payload removed.insertion).getD rest)).changes := by
      refine Nat.le_trans ?_ (changes_le_foldl _)
      cases hadd : rest.addEntry env removed.payload removed.insertion with
      | none => rw [Option.getD_none, hchanges]
      | some added =>
        obtain ⟨-, -, -, haddedChanges⟩ := Cache.addEntry_eq_some hadd
        rw [Option.getD_some, haddedChanges, hchanges]
        exact Nat.le_succ _
    exact ⟨by omega, fun heq => by omega⟩

theorem refresh_of_fits {stale : StaleTransactionInfo Key Signature} {entry : Entry Key Signature Payload}
    (hentry : cache.entry = some entry)
    (hroom : env.payloadSize entry.payload ≤ sub64 env.maxCacheSize
      (sub64 cache.cacheSize (env.payloadSize entry.payload + cosignatureSize * entry.cosignatures.length)))
    (hsigners : (stale.eligibleCosignatures.map Cosignature.signer).Nodup) : ∃ refreshed,
    (refreshStaleCacheEntry env cache stale).entry = some refreshed ∧
      ∀ cosignature ∈ stale.eligibleCosignatures, cosignature ∈ refreshed.cosignatures := by
  obtain ⟨rest, hremove, hsize⟩ : ∃ rest, cache.remove env = some (entry, rest) ∧ rest.cacheSize =
      sub64 cache.cacheSize (env.payloadSize entry.payload + cosignatureSize * entry.cosignatures.length) :=
    ⟨_, by rw [Cache.remove, hentry]; rfl, rfl⟩
  obtain ⟨-, hrest, -⟩ := Cache.remove_eq_some hremove
  obtain ⟨added, hadd⟩ : ∃ added, rest.addEntry env entry.payload entry.insertion = some added := by
    refine ⟨_, (if_neg ?_).trans (if_neg ?_)⟩
    · rw [hsize]
      exact Nat.not_lt.2 hroom
    · rw [hrest]
      exact Bool.false_ne_true
  obtain ⟨-, hadded, -⟩ := Cache.addEntry_eq_some hadd
  obtain ⟨cosignatures, hfold, -, -, -, hall⟩ := foldl_tryAddCosignature hadded stale.eligibleCosignatures
  refine ⟨{ payload := entry.payload, cosignatures, insertion := entry.insertion }, ?_, hall hsigners⟩
  unfold refreshStaleCacheEntry
  rw [hremove]
  dsimp only
  rw [hadd]
  exact hfold

omit [LinearOrder Key] in
theorem counted {P : Prop} (h : cache'.changes = cache.changes + 1) :
    cache.changes ≤ cache'.changes ∧ (cache'.changes = cache.changes → P) := by
  refine ⟨?_, fun heq => ?_⟩ <;> omega

omit [LinearOrder Key] in
theorem unchanged {event : Option (Event Key Signature Payload)} (h : ∀ c, event ≠ some (.added c)) :
    cache.changes ≤ cache.changes ∧
      (cache.changes = cache.changes → cache.entry = cache.entry ∧ ∀ c, event ≠ some (.added c)) :=
  ⟨Nat.le_refl _, fun _ => ⟨rfl, h⟩⟩

theorem changes_runTask : cache.changes ≤ (runTask env chain cache task).cache.changes ∧
    ((runTask env chain cache task).cache.changes = cache.changes →
      (runTask env chain cache task).cache.entry = cache.entry ∧
        ∀ c, (runTask env chain cache task).event ≠ some (.added c)) := by
  cases task with
  | findTransaction | validateTransaction | verify =>
    dsimp only [runTask]
    split <;> exact unchanged nofun
  | checkEligibility | deliver | complete => exact unchanged nofun
  | refresh => exact ⟨refresh_changes.1, fun heq => ⟨refresh_changes.2 heq, fun _ hfalse => nomatch hfalse⟩⟩
  | checkCompleteness =>
    dsimp only [runTask]
    split
    · exact unchanged nofun
    · split <;> exact unchanged nofun
  | insertTransaction =>
    dsimp only [runTask]
    split
    · exact unchanged nofun
    · rename_i added hadd
      exact counted (Cache.addTransaction_eq_some hadd).2.2.2
  | purge =>
    dsimp only [runTask]
    split
    · exact unchanged nofun
    · rename_i removed rest hremove
      exact counted (Cache.remove_eq_some hremove).2.2.2
  | addCosignature =>
    dsimp only [runTask]
    split
    · exact unchanged nofun
    · rename_i added hadd
      obtain ⟨-, -, -, -, -, hchanges⟩ := Cache.addCosignature_eq_some hadd
      exact counted hchanges
  | removeCompleted =>
    dsimp only [runTask]
    split
    · exact unchanged nofun
    · rename_i removed rest hremove
      exact counted (Cache.remove_eq_some hremove).2.2.2

theorem seen_afterCheck {isEligible : Bool} :
    (afterCheck cosignature (checkEligibility env chain cache cosignature) : Task Key Signature Payload).Seen
      (history ++ (some (.checked cosignature isEligible (foundIneligible env chain cache cosignature)) :
        Option (Event Key Signature Payload)).toList) cache := by
  unfold afterCheck
  split
  · trivial
  · split
    · trivial
    · split
      · rename_i stale hstale
        have hfound : ∀ entry, cache.entry = some entry → foundIneligible env chain cache cosignature =
            entry.cosignatures.filter (isIneligible env chain entry.payload) := by
          intro entry hentry
          unfold foundIneligible
          rw [hstale, hentry]
        unfold checkEligibility at hstale
        split at hstale
        · cases hstale
        · rename_i entry hentry
          dsimp only at hstale
          split at hstale
          · cases hstale
          · split at hstale
            · cases hstale
            · split at hstale
              · cases hstale
              · cases hstale
                refine ⟨Nat.le_refl _, fun _ entry' hentry' c hmem => ?_⟩
                cases hentry.symm.trans hentry'
                cases hineligible : isIneligible env chain entry.payload c with
                | false => exact .inl (List.mem_filter.2 ⟨hmem, by rw [hineligible]; rfl⟩)
                | true =>
                  refine .inr fun hlasting => ?_
                  rcases lasting_of_append hlasting with hadded | ⟨-, hends⟩
                  · cases hadded
                  · refine hends _ rfl ?_
                    show c ∈ foundIneligible env chain cache cosignature
                    rw [hfound entry hentry]
                    exact List.mem_filter.2 ⟨hmem, hineligible⟩
      · trivial

theorem seen_runTask : ∀ next ∈ (runTask env chain cache task).tasks,
    next.Seen (history ++ (runTask env chain cache task).event.toList) (runTask env chain cache task).cache := by
  have hcomplete : ∀ {history : List (Event Key Signature Payload)} {cache : Cache Key Signature Payload}
      {update : Option (Cosignature Key Signature)} {result : UpdateResult},
      ∀ next ∈ (completeWith update result : List (Task Key Signature Payload)), next.Seen history cache := by
    intro history cache update result next hnext
    obtain ⟨cosignature, -, rfl⟩ := List.mem_map.1 hnext
    trivial
  have hchecks : ∀ {history : List (Event Key Signature Payload)} {cache : Cache Key Signature Payload}
      {cosignatures : List (Cosignature Key Signature)},
      ∀ next ∈ (cosignatures.map .checkEligibility : List (Task Key Signature Payload)), next.Seen history cache := by
    intro history cache cosignatures next hnext
    obtain ⟨cosignature, -, rfl⟩ := List.mem_map.1 hnext
    trivial
  cases task with
  | checkEligibility cosignature =>
    intro next hnext
    rw [List.mem_singleton.1 hnext]
    exact seen_afterCheck
  | findTransaction =>
    dsimp only [runTask]
    split
    · exact hchecks
    · intro next hnext
      rw [List.mem_singleton.1 hnext]
      trivial
  | validateTransaction =>
    dsimp only [runTask]
    split
    · intro next hnext
      rw [List.mem_singleton.1 hnext]
      trivial
    · exact fun next hnext => absurd hnext List.not_mem_nil
  | insertTransaction =>
    dsimp only [runTask]
    split
    · exact fun next hnext => absurd hnext List.not_mem_nil
    · dsimp only
      split
      · intro next hnext
        rw [List.mem_singleton.1 hnext]
        trivial
      · exact hchecks
  | verify | purge | addCosignature =>
    dsimp only [runTask]
    split <;>
    · intro next hnext
      rw [List.mem_singleton.1 hnext]
      trivial
  | refresh =>
    intro next hnext
    rw [List.mem_singleton.1 hnext]
    trivial
  | checkCompleteness =>
    dsimp only [runTask]
    split
    · exact hcomplete
    · split
      · intro next hnext
        rw [List.mem_singleton.1 hnext]
        trivial
      · exact hcomplete
  | removeCompleted =>
    dsimp only [runTask]
    split
    · exact hcomplete
    · intro next hnext
      rw [List.mem_singleton.1 hnext]
      trivial
  | deliver => exact hcomplete
  | complete => exact fun next hnext => absurd hnext List.not_mem_nil

theorem kept_of_changes (h : ∀ c, Lasting history c → ∃ entry, cache.entry = some entry ∧ c ∈ entry.cosignatures)
    (hsame : (runTask env chain cache task).cache.changes = cache.changes) {c : Cosignature Key Signature}
    (hlasting : Lasting (history ++ (runTask env chain cache task).event.toList) c) :
    ∃ entry, (runTask env chain cache task).cache.entry = some entry ∧ c ∈ entry.cosignatures := by
  obtain ⟨hentry, hevent⟩ := changes_runTask.2 hsame
  rcases lasting_of_append hlasting with hadded | ⟨hlasting, -⟩
  · exact absurd hadded (hevent c)
  · rw [hentry]
    exact h c hlasting

theorem kept_runTask (h : ∀ c, Lasting history c → ∃ entry, cache.entry = some entry ∧ c ∈ entry.cosignatures)
    (hknows : task.Knows env history) (hseen : task.Seen history cache)
    (hok : ∀ cosignature stale, task = .refresh cosignature stale → stale.changes = cache.changes ∧
      ∀ entry, cache.entry = some entry → env.payloadSize entry.payload ≤ sub64 env.maxCacheSize
        (sub64 cache.cacheSize (env.payloadSize entry.payload + cosignatureSize * entry.cosignatures.length)))
    {c : Cosignature Key Signature}
    (hlasting : Lasting (history ++ (runTask env chain cache task).event.toList) c) :
    ∃ entry, (runTask env chain cache task).cache.entry = some entry ∧ c ∈ entry.cosignatures := by
  cases task with
  | findTransaction | validateTransaction | verify =>
    refine kept_of_changes h ?_ hlasting
    dsimp only [runTask]
    split <;> rfl
  | checkEligibility | deliver | complete => exact kept_of_changes h rfl hlasting
  | checkCompleteness =>
    refine kept_of_changes h ?_ hlasting
    dsimp only [runTask]
    split
    · rfl
    · split <;> rfl
  | insertTransaction payload cosignatures =>
    cases hadd : cache.addTransaction env payload with
    | none => exact kept_of_changes h (by simp only [runTask, hadd]) hlasting
    | some added =>
      simp only [runTask, hadd] at hlasting
      -- there was no entry that could have it
      rcases lasting_of_append hlasting with hadded | ⟨hlasting, -⟩
      · cases hadded
      · obtain ⟨entry, hentry, -⟩ := h c hlasting
        cases (Cache.addTransaction_eq_some hadd).1.symm.trans hentry
  | refresh cosignature stale =>
    obtain ⟨hchanges, hroom⟩ := hok cosignature stale rfl
    rcases lasting_of_append hlasting with hadded | ⟨hlasting, -⟩
    · cases hadded
    · obtain ⟨entry, hentry, hmem⟩ := h c hlasting
      obtain ⟨refreshed, hrefreshed, hall⟩ := refresh_of_fits hentry (hroom entry hentry) hknows.2.signers
      refine ⟨refreshed, hrefreshed, hall c ?_⟩
      exact (hseen.2 hchanges entry hentry c hmem).resolve_right fun hnot => hnot hlasting
  | purge | removeCompleted =>
    cases hremove : cache.remove env with
    | none => exact kept_of_changes h (by simp only [runTask, hremove]) hlasting
    | some removed =>
      simp only [runTask, hremove] at hlasting
      rcases lasting_of_append hlasting with hadded | ⟨-, hends⟩
      · cases hadded
      · exact absurd trivial (hends _ rfl)
  | addCosignature cosignature =>
    cases hadd : cache.addCosignature cosignature with
    | none => exact kept_of_changes h (by simp only [runTask, hadd]) hlasting
    | some added =>
      simp only [runTask, hadd] at hlasting ⊢
      obtain ⟨entry, hentry, -, hadded, -⟩ := Cache.addCosignature_eq_some hadd
      refine ⟨_, hadded, mem_insertSorted.2 ?_⟩
      rcases lasting_of_append hlasting with hevent | ⟨hlasting, -⟩
      · cases hevent
        exact .inl rfl
      · obtain ⟨entry', hentry', hmem⟩ := h c hlasting
        cases hentry.symm.trans hentry'
        exact .inr hmem

theorem Kept.step (h : Kept history state) (hknowledge : Knowledge env history state)
    (hstep : Step env (RefreshFits env) state event state') : Kept (history ++ event.toList) state' := by
  cases hstep with
  | updateTransaction | updateCosignature =>
    rw [Option.toList_none, List.append_nil]
    refine ⟨h.entry, fun task htask => ?_⟩
    rcases List.mem_append.1 htask with htask | htask
    · exact h.tasks task htask
    · rw [List.mem_singleton.1 htask]
      trivial
  | @run before after task htasks hok =>
    have hmem : task ∈ state.tasks := by simp [htasks]
    refine ⟨fun c hlasting => ?_, fun next hnext => ?_⟩
    · refine kept_runTask h.entry (hknowledge.tasks task hmem) (h.tasks task hmem) ?_ hlasting
      rintro cosignature stale rfl
      exact hok
    · have hold : ∀ other ∈ state.tasks,
          other.Seen (history ++ (runTask env state.chain state.cache task).event.toList)
            (runTask env state.chain state.cache task).cache :=
        fun other hother => (h.tasks other hother).step changes_runTask.1 changes_runTask.2
      rcases List.mem_append.1 hnext with hnext | hnext
      · rcases List.mem_append.1 hnext with hnext | hnext
        · exact hold next (by simp [htasks, hnext])
        · exact seen_runTask next hnext
      · exact hold next (by simp [htasks, hnext])
  | changeState | changeOthers =>
    rw [Option.toList_none, List.append_nil]
    exact ⟨h.entry, h.tasks⟩
  | @prune entry rest hremove =>
    refine ⟨fun c hlasting => ?_, fun task htask => ?_⟩
    · rcases lasting_of_append hlasting with hadded | ⟨-, hends⟩
      · cases hadded
      · exact absurd trivial (hends _ rfl)
    · have hchanges := (Cache.remove_eq_some hremove).2.2.2
      exact (h.tasks task htask).step (hchanges ▸ Nat.le_succ _) fun heq =>
        absurd (hchanges.symm.trans heq) (Nat.succ_ne_self _)

theorem kept_of_runs (h : Runs env (RefreshFits env) chain history state) : Kept history state := by
  induction h with
  | start =>
    refine ⟨?_, fun _ htask => absurd htask List.not_mem_nil⟩
    rintro c ⟨before, after, hsplit, -⟩
    simp at hsplit
  | next hreaches hstep ih => exact ih.step (knowledge_of_runs hreaches) hstep

/-- Where every refresh fits, what an update has added stays. -/
theorem cosignatures_kept (h : Runs env (RefreshFits env) chain history state) : KeepsCosignatures history state :=
  fun before cosignature after hsplit _ hends =>
    (kept_of_runs h).entry cosignature ⟨before, after, hsplit, hends⟩

def staleEnvironment : Environment Nat Nat Nat Bool where
  validatePartial _ _ := true
  validateCosignatories chain _ cosignatures :=
    if chain = true ∧ cosignatures.any (·.signer = 1) then .ineligible
    else if 4 ≤ cosignatures.length then .success
    else .missing
  verify _ := true
  payloadSize _ := 200
  maxCacheSize := 1000

def staleSchedule : List (Choice Nat Nat Nat Bool) :=
  .updateTransaction ⟨7, []⟩ :: List.replicate 4 (.run 0) ++ .updateCosignature ⟨1, 5⟩ :: List.replicate 5 (.run 0)

/-- The second signer is added before the third one finds the entry to be stale, and stays when it is refreshed. -/
theorem cosignatures_kept_sample : ∃ (history : List (Event Nat Nat Nat)) (state : State Nat Nat Nat Bool),
    Runs staleEnvironment (RefreshFits staleEnvironment) false history state ∧
      state.cache.entry.map (·.cosignatures) = some [⟨2, 5⟩] ∧ KeepsCosignatures history state := by
  have hrun : Runs staleEnvironment (RefreshFits staleEnvironment) false _ _ :=
    Runs.play .start (show Admits _ _ (staleSchedule ++ .updateCosignature ⟨2, 5⟩ :: List.replicate 5 (.run 0) ++
      [.changeState true, .updateCosignature ⟨3, 5⟩, .run 0, .run 0]) _ by decide +kernel)
  exact ⟨_, _, hrun, by decide +kernel, cosignatures_kept hrun⟩

/-- The second signer is added between the check that finds the entry to be stale and its refresh. -/
theorem not_keepsCosignatures_stale : ∃ (history : List (Event Nat Nat Nat)) (state : State Nat Nat Nat Bool),
    Runs staleEnvironment (fun _ _ => True) false history state ∧ ¬KeepsCosignatures history state := by
  have hrun : Runs staleEnvironment (fun _ _ => True) false _ _ :=
    Runs.play .start (show Admits _ _ (staleSchedule ++ [.updateCosignature ⟨2, 5⟩, .run 0, .run 0, .changeState true,
      .updateCosignature ⟨3, 5⟩, .run 1, .run 0, .run 0, .run 0, .run 0]) _ by decide +kernel)
  refine ⟨_, _, hrun, fun hkeeps => ?_⟩
  obtain ⟨entry, hentry, hmem⟩ := hkeeps
    [.inserted 0 7, .checked ⟨1, 5⟩ true [], .added ⟨1, 5⟩, .returned ⟨1, 5⟩ .addedIncomplete, .checked ⟨2, 5⟩ true [],
      .checked ⟨3, 5⟩ true [⟨1, 5⟩]]
    ⟨2, 5⟩ [.returned ⟨2, 5⟩ .addedIncomplete, .refreshed] rfl (by simp) (by simp [Ends])
  cases hentry
  cases hmem

end Catapult.PartialTransactions
