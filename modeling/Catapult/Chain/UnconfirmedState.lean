import Catapult.Chain.UtUpdater

/-!
# The unconfirmed state follows the unconfirmed transactions

As long as the detached cache can be locked, it is the confirmed cache after the transactions of the unconfirmed
transactions cache, in their order. A rejected transaction is undone, which may leave something behind that observers do
not distinguish (`rel`).
-/

namespace Catapult.Chain.UtUpdater
open CacheTx (UtInfo UtCache)
open Observers (Notification NotificationObserver NotifyMode ObserverContext ObserverState
  ProcessingNotificationSubscriber)
open Observers.ProcessingNotificationSubscriber (observed publish_cases)

variable {Hash Key Body Resolvers Cache Statement : Type} [LinearOrder Hash] [LinearOrder Key]

/-! ## Observers -/

def SameUpTo (rel : Cache → Cache → Prop) (state state' : ObserverState Cache Statement) : Prop :=
  rel state.cache state'.cache

/-- What an observer does in a commit its rollback undoes, up to something that it does not distinguish. -/
structure UndoneUpTo (rel : Cache → Cache → Prop) (bind : Resolvers → Resolvers)
    (observer : NotificationObserver Resolvers Cache Statement) : Prop where
  equivalence : Equivalence rel
  undoes : ∀ notification height resolvers (state state' : ObserverState Cache Statement),
    Undoes (SameUpTo rel) (observer notification (.create bind height resolvers state .commit))
      (observer notification (.create bind height resolvers state' .rollback))
  respects : ∀ notification context, Respects (SameUpTo rel) (observer notification context)

variable {config : Config Hash Key Body Resolvers Cache Statement} {rel : Cache → Cache → Prop}
  {cacheHeight : Height} {time : Timestamp} {source : TransactionSource} {filter : UtInfo Hash Key Body → Bool}
  {applyState applyState' : ApplyState Hash Key Body Cache} {utInfo : UtInfo Hash Key Body}
  {updateType : UpdateType} {failures : Failures Hash}

def execute (config : Config Hash Key Body Resolvers Cache Statement) (cacheHeight : Height) (cache : Cache)
    (utInfo : UtInfo Hash Key Body) : Option Cache :=
  ((observed (config.publisher utInfo)).foldlM (fun state notification =>
    config.observer notification (config.observerContext (effectiveHeight cacheHeight) cache) state)
    (config.state cache)).map ObserverState.cache

theorem respects_execute (h : UndoneUpTo rel config.bind config.observer) (utInfo : UtInfo Hash Key Body) :
    Respects rel (execute config cacheHeight · utInfo) := by
  intro cache cache' other hcache hrel
  simp only [execute] at hcache ⊢
  obtain ⟨state, hstate, rfl⟩ := Option.map_eq_some_iff.1 hcache
  have hfold := Respects.foldlM (l := observed (config.publisher utInfo)) fun notification _ =>
    h.respects notification (config.observerContext (effectiveHeight cacheHeight) cache)
  obtain ⟨state', hstate', hrel'⟩ := @hfold _ _ (config.state other) hstate hrel
  exact ⟨state'.cache, Option.map_eq_some_iff.2 ⟨state', hstate', rfl⟩, hrel'⟩

theorem respects_executeAll (h : UndoneUpTo rel config.bind config.observer)
    (utInfos : List (UtInfo Hash Key Body)) :
    Respects rel (utInfos.foldlM (execute config cacheHeight)) :=
  Respects.foldlM fun utInfo _ => respects_execute h utInfo

theorem undo_publish_upTo (h : UndoneUpTo rel config.bind config.observer) {height : Height}
    {validator : Observers.NotificationValidator Cache} {cache : Cache} {notifications : List Notification}
    {sub : ProcessingNotificationSubscriber} {state : ObserverState Cache Statement}
    (hpublish : ProcessingNotificationSubscriber.publish validator config.observer
      (config.observerContext height cache) notifications
      (ProcessingNotificationSubscriber.create.enableUndo, config.state cache) = some (sub, state)) :
    ∃ sub' undone, sub.undo config.bind config.observer (config.observerContext height cache) state =
      some (sub', undone) ∧ rel undone.cache cache := by
  obtain ⟨hundo, accepted, -, -, hbuffers, hobserve, -⟩ := publish_cases rfl rfl hpublish
  have hall := Undoes.foldlM (l := observed accepted) fun notification _ =>
    h.undoes notification height config.resolvers (config.state cache) ⟨state.cache, none⟩
  obtain ⟨undone, hundone, hrel⟩ := hall hobserve ⟨state.cache, none⟩ (h.equivalence.refl _)
  change sub.undoNotificationSubscriber.notificationBuffers = observed accepted at hbuffers
  refine ⟨{ sub with undoNotificationSubscriber := ⟨[]⟩ }, { state with cache := undone.cache }, ?_, hrel⟩
  rw [ProcessingNotificationSubscriber.undo, if_pos hundo, Observers.ProcessingUndoNotificationSubscriber.undo,
    hbuffers]
  simp only [ObserverContext.create] at hundone
  simp only [Config.observerContext, ObserverContext.create, NotifyMode.undo]
  rw [hundone]
  rfl

theorem applyTransaction_cases (h : UndoneUpTo rel config.bind config.observer)
    (hconsistent : applyState.modifier.Consistent config.maxCacheSize)
    (happly : applyTransaction config cacheHeight time source filter applyState utInfo =
      some (applyState', updateType, failures)) :
    applyState'.modifier.Consistent config.maxCacheSize ∧
      (updateType = .new ∧ filter utInfo = true ∧
          applyState'.modifier.infos = applyState.modifier.infos ++ [utInfo] ∧
          execute config cacheHeight applyState.unconfirmedCatapultCache utInfo =
            some applyState'.unconfirmedCatapultCache ∨
        updateType ≠ .new ∧ applyState'.modifier.infos = applyState.modifier.infos ∧
          rel applyState'.unconfirmedCatapultCache applyState.unconfirmedCatapultCache) := by
  have hsame : rel applyState.unconfirmedCatapultCache applyState.unconfirmedCatapultCache := h.equivalence.refl _
  rw [applyTransaction] at happly
  split at happly
  · cases happly
    exact ⟨hconsistent, .inr ⟨UpdateType.noConfusion, rfl, hsame⟩⟩
  next hfilter =>
  have hfilter : filter utInfo = true := by simpa using hfilter
  split at happly
  · cases happly
    exact ⟨hconsistent, .inr ⟨UpdateType.noConfusion, rfl, hsame⟩⟩
  split at happly
  · cases happly
    exact ⟨hconsistent, .inr ⟨UpdateType.noConfusion, rfl, hsame⟩⟩
  split at happly
  · cases happly
    exact ⟨hconsistent, .inr ⟨UpdateType.noConfusion, rfl, hsame⟩⟩
  next modifier hadd =>
  obtain ⟨hadded, hinfos, -⟩ := hconsistent.add hadd
  obtain ⟨⟨sub, state⟩, hpublish, happly⟩ := Option.bind_eq_some_iff.1 happly
  dsimp only at happly
  split at happly
  next hok =>
    cases happly
    obtain ⟨-, accepted, rest, hsplit, -, hobserve, hend⟩ := publish_cases rfl rfl hpublish
    rcases hend with ⟨-, rfl⟩ | ⟨hfail, -⟩
    · rw [List.append_nil] at hsplit
      refine ⟨hadded, .inl ⟨rfl, hfilter, hinfos, ?_⟩⟩
      rw [execute, hsplit]
      exact congrArg (Option.map ObserverState.cache) hobserve
    · rw [hok] at hfail
      cases hfail
  next hfail =>
    obtain ⟨sub', undone, hundo, hrel⟩ := undo_publish_upTo h hpublish
    obtain ⟨removed, hremove, hremoved, hsameInfos⟩ := hconsistent.remove_add hadd
    simp only [hundo, hremove, Option.bind_eq_bind, Option.bind_some] at happly
    cases happly
    exact ⟨hremoved, .inr ⟨UpdateType.noConfusion, hsameInfos, hrel⟩⟩

/-- The transactions that are added are some of those that the filter passes, in their order. By induction on the
transactions that are left. -/
theorem apply_cases (h : UndoneUpTo rel config.bind config.observer) {utInfos : List (UtInfo Hash Key Body)}
    {updateResults : List UpdateType} (hconsistent : applyState.modifier.Consistent config.maxCacheSize)
    (happly : apply config cacheHeight time source filter applyState utInfos =
      some (applyState', updateResults, failures)) :
    applyState'.modifier.Consistent config.maxCacheSize ∧ ∃ added applied,
      applyState'.modifier.infos = applyState.modifier.infos ++ added ∧ added.Sublist (utInfos.filter filter) ∧
      added.foldlM (execute config cacheHeight) applyState.unconfirmedCatapultCache = some applied ∧
      rel applyState'.unconfirmedCatapultCache applied := by
  induction utInfos generalizing applyState updateResults failures with
  | nil =>
    cases happly
    exact ⟨hconsistent, [], _, (List.append_nil _).symm, .slnil, rfl, h.equivalence.refl _⟩
  | cons utInfo utInfos ih =>
    rw [apply] at happly
    obtain ⟨⟨next, updateType, failed⟩, hnext, happly⟩ := Option.bind_eq_some_iff.1 happly
    obtain ⟨⟨last, results, failed'⟩, hrest, happly⟩ := Option.bind_eq_some_iff.1 happly
    cases happly
    obtain ⟨hnextConsistent, hcases⟩ := applyTransaction_cases h hconsistent hnext
    obtain ⟨hlast, added, applied, hinfos, hsublist, hadded, hrel⟩ := ih hnextConsistent hrest
    refine ⟨hlast, ?_⟩
    rcases hcases with ⟨-, hfilter, hnew, hexecute⟩ | ⟨-, hsame, hundone⟩
    · refine ⟨utInfo :: added, applied, ?_, ?_, ?_, hrel⟩
      · rw [hinfos, hnew, List.append_assoc]
        rfl
      · rw [List.filter_cons_of_pos hfilter]
        exact hsublist.cons_cons utInfo
      · rw [List.foldlM_cons, hexecute]
        exact hadded
    · obtain ⟨applied', hadded', hrel'⟩ := respects_executeAll h added hadded hundone
      refine ⟨added, applied', by rw [hinfos, hsame], ?_, hadded', h.equivalence.trans hrel hrel'⟩
      exact hsublist.trans ((List.sublist_cons_self utInfo utInfos).filter _)

/-! ## Following -/

def Follows (config : Config Hash Key Body Resolvers Cache Statement) (rel : Cache → Cache → Prop)
    (cacheHeight : Height) (base : Cache) (utInfos : List (UtInfo Hash Key Body)) (cache : Cache) : Prop :=
  ∃ applied, utInfos.foldlM (execute config cacheHeight) base = some applied ∧ rel cache applied

theorem Follows.apply {base : Cache} (hfollows : Follows config rel cacheHeight base applyState.modifier.infos
      applyState.unconfirmedCatapultCache)
    (h : UndoneUpTo rel config.bind config.observer) {utInfos : List (UtInfo Hash Key Body)}
    {updateResults : List UpdateType} (hconsistent : applyState.modifier.Consistent config.maxCacheSize)
    (happly : UtUpdater.apply config cacheHeight time source filter applyState utInfos =
      some (applyState', updateResults, failures)) :
    Follows config rel cacheHeight base applyState'.modifier.infos applyState'.unconfirmedCatapultCache := by
  obtain ⟨before, hbefore, hrel⟩ := hfollows
  obtain ⟨-, added, applied, hinfos, -, hadded, hrel'⟩ := apply_cases h hconsistent happly
  obtain ⟨applied', hadded', hrel''⟩ := respects_executeAll h added hadded hrel
  refine ⟨applied', ?_, h.equivalence.trans hrel' hrel''⟩
  rw [hinfos, List.foldlM_append, hbefore]
  exact hadded'

theorem consistent_addAll {modifier : UtCache Hash Key Body} (hconsistent : modifier.Consistent config.maxCacheSize)
    (utInfos : List (UtInfo Hash Key Body)) :
    (addAll config modifier utInfos).Consistent config.maxCacheSize := by
  induction utInfos generalizing modifier with
  | nil => exact hconsistent
  | cons utInfo utInfos ih =>
    rw [addAll, List.foldl_cons]
    cases hadd : modifier.add config.maxCacheSize utInfo with
    | none => exact ih hconsistent
    | some next => exact ih (hconsistent.add hadd).1

structure Invariant (config : Config Hash Key Body Resolvers Cache Statement) (rel : Cache → Cache → Prop)
    (system : System Hash Key Body Cache) : Prop where
  consistent : system.transactionsCache.Consistent config.maxCacheSize
  count_le : system.detached.initialCommitCount ≤ system.confirmed.commitCounter
  follows : system.detached.initialCommitCount = system.confirmed.commitCounter →
    system.detached.cacheHeight = system.confirmed.height ∧
      Follows config rel system.confirmed.height system.confirmed.cache system.transactionsCache.infos
        system.detached.cacheDelta

variable {system system' : System Hash Key Body Cache}

theorem invariant_init (h : Equivalence rel) (confirmed : ConfirmedCache Cache) :
    Invariant config rel (.init confirmed : System Hash Key Body Cache) :=
  ⟨.removeAll config.maxCacheSize {}, le_rfl, fun _ => ⟨rfl, confirmed.cache, rfl, h.refl _⟩⟩

theorem Invariant.update (hinvariant : Invariant config rel system)
    (h : UndoneUpTo rel config.bind config.observer) {utInfos : List (UtInfo Hash Key Body)}
    {updateResults : List UpdateType}
    (hupdate : system.update config time utInfos = some (system', updateResults, failures)) :
    Invariant config rel system' := by
  rw [System.update, System.getAndTryLock] at hupdate
  by_cases hcount : system.detached.initialCommitCount = system.confirmed.commitCounter
  · obtain ⟨hheight, hfollows⟩ := hinvariant.follows hcount
    rw [if_neg (not_not.2 hcount)] at hupdate
    obtain ⟨⟨applyState, results, failed⟩, happly, hupdate⟩ := Option.bind_eq_some_iff.1 hupdate
    cases hupdate
    rw [hheight] at happly
    have hconsistent := (apply_cases h hinvariant.consistent happly).1
    exact ⟨hconsistent, hinvariant.count_le, fun _ => ⟨hheight, hfollows.apply h hinvariant.consistent happly⟩⟩
  · rw [if_pos hcount] at hupdate
    dsimp only at hupdate
    split at hupdate
    · cases hupdate
    · cases hupdate
      exact ⟨consistent_addAll hinvariant.consistent utInfos, hinvariant.count_le, fun hlocked => absurd hlocked hcount⟩

/-- After a change of the chain the cache has some of the reverted transactions and, behind them, some of those that it
had and that are not confirmed. -/
theorem invariant_updateConfirmed (h : UndoneUpTo rel config.bind config.observer) {time' : Timestamp}
    {confirmedTransactionHashes : List Hash} {utInfos : List (UtInfo Hash Key Body)}
    (hupdate : system.updateConfirmed config time time' confirmedTransactionHashes utInfos =
      some (system', failures)) :
    Invariant config rel system' ∧ ∃ reverted existing,
      system'.transactionsCache.infos = reverted ++ existing ∧ reverted.Sublist utInfos ∧
      existing.Sublist (system.transactionsCache.infos.filter fun info =>
        info.entityHash ∉ confirmedTransactionHashes) := by
  obtain ⟨⟨reverted, results, failed⟩, hreverted, hupdate⟩ := Option.bind_eq_some_iff.1 hupdate
  obtain ⟨⟨existing, results', failed'⟩, hexisting, hupdate⟩ := Option.bind_eq_some_iff.1 hupdate
  cases hupdate
  have hempty := CacheTx.UtCache.Consistent.removeAll config.maxCacheSize system.transactionsCache
  obtain ⟨hconsistent, added, -, hadded, haddedSublist, -, -⟩ := apply_cases h hempty hreverted
  obtain ⟨hconsistent', kept, -, hkept, hkeptSublist, -, -⟩ := apply_cases h hconsistent hexisting
  have hstart : Follows config rel system.confirmed.height system.confirmed.cache
      system.transactionsCache.removeAll.2.infos system.confirmed.cache :=
    ⟨system.confirmed.cache, rfl, h.equivalence.refl _⟩
  have hfollows := (hstart.apply h hempty hreverted).apply h hconsistent hexisting
  refine ⟨⟨hconsistent', le_rfl, fun _ => ⟨rfl, hfollows⟩⟩, added, kept, ?_, ?_, hkeptSublist⟩
  · change existing.modifier.infos = added ++ kept
    rw [hkept, hadded]
    rfl
  · rwa [List.filter_true] at haddedSublist

theorem Invariant.step (hinvariant : Invariant config rel system) (h : UndoneUpTo rel config.bind config.observer)
    {event : Event Hash Key Body Cache} (hstep : system.step config event = some system') :
    Invariant config rel system' := by
  cases event with
  | update time utInfos =>
    obtain ⟨⟨next, results, failed⟩, hupdate, rfl⟩ := Option.map_eq_some_iff.1 hstep
    exact hinvariant.update h hupdate
  | updateConfirmed time time' confirmedTransactionHashes utInfos =>
    obtain ⟨⟨next, failed⟩, hupdate, rfl⟩ := Option.map_eq_some_iff.1 hstep
    exact (invariant_updateConfirmed h hupdate).1
  | commit cache height =>
    cases hstep
    refine ⟨hinvariant.consistent, hinvariant.count_le.trans (Nat.le_succ _), fun hcount => ?_⟩
    exact absurd hcount (Nat.ne_of_lt (Nat.lt_succ_of_le hinvariant.count_le))

theorem Invariant.run (hinvariant : Invariant config rel system) (h : UndoneUpTo rel config.bind config.observer)
    {events : List (Event Hash Key Body Cache)} (hrun : system.run config events = some system') :
    Invariant config rel system' := by
  induction events generalizing system with
  | nil =>
    cases hrun
    exact hinvariant
  | cons event events ih =>
    rw [System.run, List.foldlM_cons] at hrun
    obtain ⟨next, hstep, hrest⟩ := Option.bind_eq_some_iff.1 hrun
    exact ih (hinvariant.step h hstep) hrest

/-- After any run the detached cache, when it can be locked, is the confirmed cache after the transactions of the
transactions cache; a transaction that is not added leaves both as they were; and after a change of the chain the
transactions cache has reverted transactions and, behind them, those that it had and that are not confirmed. -/
theorem run_follows (h : UndoneUpTo rel config.bind config.observer) (confirmed : ConfirmedCache Cache)
    (events : List (Event Hash Key Body Cache)) (hrun : (System.init confirmed).run config events = some system) :
    (∀ unconfirmed, system.getAndTryLock = some unconfirmed →
      Follows config rel system.confirmed.height system.confirmed.cache system.transactionsCache.infos unconfirmed) ∧
    system.transactionsCache.Consistent config.maxCacheSize ∧
    (∀ cacheHeight time source filter (applyState applyState' : ApplyState Hash Key Body Cache) utInfo updateType
        failures, applyState.modifier.Consistent config.maxCacheSize →
      applyTransaction config cacheHeight time source filter applyState utInfo =
        some (applyState', updateType, failures) → updateType ≠ .new →
      applyState'.modifier.Consistent config.maxCacheSize ∧
        applyState'.modifier.infos = applyState.modifier.infos ∧
        rel applyState'.unconfirmedCatapultCache applyState.unconfirmedCatapultCache) ∧
    ∀ time time' confirmedTransactionHashes utInfos system' failures,
      system.updateConfirmed config time time' confirmedTransactionHashes utInfos = some (system', failures) →
      (∃ reverted existing, system'.transactionsCache.infos = reverted ++ existing ∧ reverted.Sublist utInfos ∧
        existing.Sublist (system.transactionsCache.infos.filter fun info =>
          info.entityHash ∉ confirmedTransactionHashes)) ∧
      ∀ removed, utInfos = collectRevertedTransactionInfos confirmedTransactionHashes removed →
        ∀ info ∈ system'.transactionsCache.infos, info.entityHash ∉ confirmedTransactionHashes := by
  have hinvariant := (invariant_init h.equivalence confirmed).run h hrun
  refine ⟨fun unconfirmed hlock => ?_, hinvariant.consistent, ?_, ?_⟩
  · rw [System.getAndTryLock] at hlock
    split at hlock
    · cases hlock
    next hcount =>
      cases hlock
      exact (hinvariant.follows (not_not.1 hcount)).2
  · intro cacheHeight time source filter applyState applyState' utInfo updateType failures hconsistent happly hne
    obtain ⟨hconsistent', ⟨hnew, -⟩ | ⟨-, hsame⟩⟩ := applyTransaction_cases h hconsistent happly
    · exact absurd hnew hne
    · exact ⟨hconsistent', hsame⟩
  · intro time time' confirmedTransactionHashes utInfos system' failures hupdate
    have hinfos := (invariant_updateConfirmed h hupdate).2
    refine ⟨hinfos, ?_⟩
    rintro removed rfl info hinfo
    obtain ⟨reverted, existing, heq, hreverted, hexisting⟩ := hinfos
    rw [heq] at hinfo
    rcases List.mem_append.1 hinfo with hinfo | hinfo
    · exact of_decide_eq_true (List.mem_filter.1 (hreverted.mem hinfo)).2
    · exact of_decide_eq_true (List.mem_filter.1 (hexisting.mem hinfo)).2

/-! ## A run -/

def sampleConfig : Config Nat Nat Unit Unit (List (Nat × Notification)) Unit where
  maxCacheSize := 1000
  minFeeMultiplier := 1
  publisher info :=
    if info.entityHash = 3 then [Observers.sampleNotification 1, Observers.sampleNotification 3]
    else [Observers.sampleNotification 1]
  validator _ _ := Observers.sampleValidator
  observer := Observers.journalObserver 1
  bind := id
  resolvers := ()
  throttle _ _ _ _ _ := false

def sampleInfo (hash : Nat) : UtInfo Nat Nat Unit := ⟨⟨hash, 0, 100⟩, 200, ()⟩

theorem respects_journalObserver (id : Nat) (notification : Notification) (context : ObserverContext Unit) :
    Respects (SameUpTo Eq) (Observers.journalObserver id notification context) := by
  rintro ⟨cache, statement⟩ state' ⟨cache', statement'⟩ hobserve rfl
  have hother : Observers.journalObserver id notification context ⟨cache, statement'⟩ =
      (Observers.journalObserver id notification context ⟨cache, statement⟩).map fun state =>
        ⟨state.cache, statement'⟩ := by
    rw [Observers.journalObserver, Observers.journalObserver]
    dsimp only
    split
    · rfl
    · split <;> rfl
    · rfl
  exact ⟨⟨state'.cache, statement'⟩, by rw [hother, hobserve]; rfl, rfl⟩

theorem undoneUpTo_sampleConfig : UndoneUpTo Eq sampleConfig.bind sampleConfig.observer where
  equivalence := eq_equivalence
  undoes notification height resolvers state state' :=
    Observers.undoesMode_journalObserver 1 notification height resolvers state state'
  respects notification context := respects_journalObserver 1 notification context

def sampleEvents : List (Event Nat Nat Unit (List (Nat × Notification))) :=
  [.update 0 [sampleInfo 1, sampleInfo 3], .commit [] 2, .update 0 [sampleInfo 2],
    .updateConfirmed 0 0 [1] [sampleInfo 4]]

theorem run_follows_sample : ∃ system, (System.init ⟨[], 1, 0⟩).run sampleConfig sampleEvents = some system ∧
    system.transactionsCache.infos.map (fun info => info.entityHash) = [4, 2] ∧
    Follows sampleConfig Eq system.confirmed.height system.confirmed.cache system.transactionsCache.infos
      system.detached.cacheDelta := by
  have hhashes : ((System.init ⟨[], 1, 0⟩).run sampleConfig sampleEvents).map (fun system =>
      (system.transactionsCache.infos.map fun info => info.entityHash, system.detached.initialCommitCount,
        system.confirmed.commitCounter)) = some ([4, 2], 1, 1) := by decide
  obtain ⟨system, hrun, hsystem⟩ := Option.map_eq_some_iff.1 hhashes
  obtain ⟨hinfos, hcounts⟩ := Prod.mk.inj hsystem
  obtain ⟨hinitial, hcounter⟩ := Prod.mk.inj hcounts
  have hlock : system.getAndTryLock = some system.detached.cacheDelta := by
    rw [System.getAndTryLock, hinitial, hcounter]
    rfl
  exact ⟨system, hrun, hinfos, (run_follows undoneUpTo_sampleConfig ⟨[], 1, 0⟩ sampleEvents hrun).1 _ hlock⟩

end Catapult.Chain.UtUpdater
