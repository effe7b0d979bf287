import Catapult.Lib.Undo

/-!
# The order in which observers are undone

Observers are notified of the notifications that a publisher makes of an entity: all observers in the order in which
they were added when a notification is committed, and in the reverse order when it is rolled back
(`AggregateObserver.notify`). `rollbackBlock` does the same with the notifications of an entity and with the entities
of a block, and `ProcessingNotificationSubscriber.undo` with the notifications that were observed before one was
rejected.
-/

namespace Catapult.Observers

abbrev Height := UInt64
abbrev NotificationType := BitVec 32
abbrev Hash256 := BitVec 256

/-! ## Notifications -/

inductive NotificationChannel where
  | none
  | validator
  | observer
  | all
  deriving DecidableEq

def NotificationChannel.value : NotificationChannel → BitVec 32
  | none => 0x00
  | validator => 0x01
  | observer => 0x02
  | all => 0xFF

/-- A notification with the fields of its kind, of which its size follows. -/
structure Notification where
  type : NotificationType
  fields : List UInt8
  deriving DecidableEq

/-- The type and the size, with padding. -/
def sizeofNotification : Nat := 16

def Notification.size (notification : Notification) : Nat := sizeofNotification + notification.fields.length

def isSet (type : NotificationType) (channel : NotificationChannel) : Bool :=
  channel.value == channel.value &&& (type >>> 24)

def areEqualExcludingChannel (lhs rhs : NotificationType) : Bool :=
  0x00FFFFFF &&& lhs == 0x00FFFFFF &&& rhs

inductive NotifyMode where
  | commit
  | rollback
  deriving DecidableEq

/-- The mode in which a subscriber undoes. -/
def NotifyMode.undo : NotifyMode → NotifyMode
  | commit => rollback
  | rollback => commit

section
variable {Resolvers Cache Statement : Type}

/-- The cache and the block statement, when there is a builder for it. -/
structure ObserverState (Cache Statement : Type) where
  cache : Cache
  blockStatement : Option Statement

structure ObserverContext (Resolvers : Type) where
  height : Height
  resolvers : Resolvers
  mode : NotifyMode
  undecoratedResolvers : Resolvers

/-- The resolvers record what they resolve when there is a statement builder. -/
def bindConditional (bind : Resolvers → Resolvers) (resolvers : Resolvers) (state : ObserverState Cache Statement) :
    Resolvers :=
  if state.blockStatement.isSome then bind resolvers else resolvers

def ObserverContext.create (bind : Resolvers → Resolvers) (height : Height) (resolvers : Resolvers)
    (state : ObserverState Cache Statement) (mode : NotifyMode) : ObserverContext Resolvers where
  height
  resolvers := bindConditional bind resolvers state
  mode
  undecoratedResolvers := resolvers

/-- What an observer makes of the state, or nothing when it throws. -/
abbrev NotificationObserver (Resolvers Cache Statement : Type) :=
  Notification → ObserverContext Resolvers → ObserverState Cache Statement → Option (ObserverState Cache Statement)

/-! ## Observers -/

def notifyAll (observers : List (NotificationObserver Resolvers Cache Statement)) :
    NotificationObserver Resolvers Cache Statement :=
  fun notification context state => observers.foldlM (fun state observer => observer notification context state) state

/-- `DefaultAggregateNotificationObserver`. -/
def AggregateObserver.notify (observers : List (NotificationObserver Resolvers Cache Statement)) :
    NotificationObserver Resolvers Cache Statement :=
  fun notification context state =>
    if context.mode = .commit then notifyAll observers notification context state
    else notifyAll observers.reverse notification context state

/-- An observer of notifications of one type, whatever the channel. -/
def ConditionalObserver.notify (type : NotificationType) (observer : NotificationObserver Resolvers Cache Statement) :
    NotificationObserver Resolvers Cache Statement :=
  fun notification context state =>
    if areEqualExcludingChannel type notification.type then observer notification context state else some state

/-- What is added to a `DemuxObserverBuilder`: an observer of all notifications or of those of one type. -/
structure DemuxEntry (Resolvers Cache Statement : Type) where
  type : Option NotificationType
  observer : NotificationObserver Resolvers Cache Statement

def DemuxEntry.toObserver (entry : DemuxEntry Resolvers Cache Statement) :
    NotificationObserver Resolvers Cache Statement :=
  match entry.type with
  | none => entry.observer
  | some type => ConditionalObserver.notify type entry.observer

def DemuxObserverBuilder.build (entries : List (DemuxEntry Resolvers Cache Statement)) :
    NotificationObserver Resolvers Cache Statement :=
  AggregateObserver.notify (entries.map DemuxEntry.toObserver)

/-! ## Entities and blocks -/

inductive VerifiableEntity (Block Transaction : Type) where
  | block (block : Block)
  | transaction (transaction : Transaction)

structure WeakEntityInfo (Block Transaction : Type) where
  entity : VerifiableEntity Block Transaction
  hash : Hash256
  associatedBlockHeader : Block

structure TransactionElement (Transaction : Type) where
  transaction : Transaction
  entityHash : Hash256

structure BlockElement (Block Transaction : Type) where
  block : Block
  entityHash : Hash256
  transactions : List (TransactionElement Transaction)

variable {Block Transaction : Type}

def extractEntityInfos (element : BlockElement Block Transaction) : List (WeakEntityInfo Block Transaction) :=
  element.transactions.map (fun t => ⟨.transaction t.transaction, t.entityHash, element.block⟩) ++
    [⟨.block element.block, element.entityHash, element.block⟩]

/-- The notifications of an entity, in the order in which they are published. -/
abbrev NotificationPublisher (Block Transaction : Type) := WeakEntityInfo Block Transaction → List Notification

abbrev EntityObserver (Block Transaction Resolvers Cache Statement : Type) :=
  WeakEntityInfo Block Transaction → ObserverContext Resolvers → ObserverState Cache Statement →
    Option (ObserverState Cache Statement)

def NotificationObserverAdapter.notify (observer : NotificationObserver Resolvers Cache Statement)
    (publisher : NotificationPublisher Block Transaction) :
    EntityObserver Block Transaction Resolvers Cache Statement :=
  fun entityInfo context state =>
    (publisher entityInfo).foldlM
      (fun state notification =>
        if isSet notification.type .observer then observer notification context state else some state)
      state

/-- The notifications are copied and then observed from the last to the first. -/
def ReverseNotificationObserverAdapter.notify (observer : NotificationObserver Resolvers Cache Statement)
    (publisher : NotificationPublisher Block Transaction) :
    EntityObserver Block Transaction Resolvers Cache Statement :=
  fun entityInfo context state =>
    let notificationBuffers := (publisher entityInfo).filter fun notification => isSet notification.type .observer
    notificationBuffers.reverse.foldlM (fun state notification => observer notification context state) state

structure BlockExecutionContext (Block Transaction Resolvers Cache Statement : Type) where
  observer : EntityObserver Block Transaction Resolvers Cache Statement
  resolvers : Resolvers
  state : ObserverState Cache Statement

def observeAll (observer : EntityObserver Block Transaction Resolvers Cache Statement)
    (context : ObserverContext Resolvers) (entityInfos : List (WeakEntityInfo Block Transaction))
    (state : ObserverState Cache Statement) : Option (ObserverState Cache Statement) :=
  entityInfos.foldlM (fun state entityInfo => observer entityInfo context state) state

/-- What depends on the rest of the program: the resolvers that record, the height of a block and the removals of the
account state cache that were deferred. -/
structure Chain (Block Resolvers Cache : Type) where
  bind : Resolvers → Resolvers
  height : Block → Height
  commitRemovals : Cache → Option Cache

variable (chain : Chain Block Resolvers Cache)

def executeBlock (element : BlockElement Block Transaction)
    (executionContext : BlockExecutionContext Block Transaction Resolvers Cache Statement) :
    Option (ObserverState Cache Statement) :=
  let context := ObserverContext.create chain.bind (chain.height element.block) executionContext.resolvers
    executionContext.state .commit
  observeAll executionContext.observer context (extractEntityInfos element) executionContext.state

/-- `RollbackBlock` up to the removals. -/
def rollbackEntities (element : BlockElement Block Transaction)
    (executionContext : BlockExecutionContext Block Transaction Resolvers Cache Statement) :
    Option (ObserverState Cache Statement) :=
  let context := ObserverContext.create chain.bind (chain.height element.block) executionContext.resolvers
    executionContext.state .rollback
  observeAll executionContext.observer context (extractEntityInfos element).reverse executionContext.state

def rollbackBlock (element : BlockElement Block Transaction)
    (executionContext : BlockExecutionContext Block Transaction Resolvers Cache Statement) :
    Option (ObserverState Cache Statement) :=
  (rollbackEntities chain element executionContext).bind fun state =>
    (chain.commitRemovals state.cache).map fun cache => { state with cache }

/-! ## Processing with validation -/

abbrev ValidationResult := BitVec 32

namespace ValidationResult

def success : ValidationResult := 0x00000000

/-- The two bits of the severity: success, neutral or failure. -/
def getSeverity (result : ValidationResult) : Nat := (result >>> 30).toNat

def isSuccess (result : ValidationResult) : Bool := getSeverity result == 0

def aggregate (aggregate value : ValidationResult) : ValidationResult :=
  if getSeverity value ≤ getSeverity aggregate then aggregate else value

end ValidationResult

/-- The result of validating a notification against the cache, or nothing when the validator throws. -/
abbrev NotificationValidator (Cache : Type) := Notification → Cache → Option ValidationResult

structure ProcessingUndoNotificationSubscriber where
  notificationBuffers : List Notification
  deriving DecidableEq

namespace ProcessingUndoNotificationSubscriber

def notify (sub : ProcessingUndoNotificationSubscriber) (notification : Notification) :
    Option ProcessingUndoNotificationSubscriber :=
  if notification.size < sizeofNotification then none
  else if isSet notification.type .observer then some ⟨sub.notificationBuffers ++ [notification]⟩
  else some sub

/-- There is no statement builder when notifications are undone, and the one of the context is not changed. -/
def undo (bind : Resolvers → Resolvers) (observer : NotificationObserver Resolvers Cache Statement)
    (observerContext : ObserverContext Resolvers) (sub : ProcessingUndoNotificationSubscriber)
    (state : ObserverState Cache Statement) :
    Option (ProcessingUndoNotificationSubscriber × ObserverState Cache Statement) :=
  let undoState : ObserverState Cache Statement := ⟨state.cache, none⟩
  let undoObserverContext := ObserverContext.create bind observerContext.height observerContext.undecoratedResolvers
    undoState observerContext.mode.undo
  (sub.notificationBuffers.reverse.foldlM
    (fun state notification => observer notification undoObserverContext state) undoState).map
      fun undone => (⟨[]⟩, { state with cache := undone.cache })

end ProcessingUndoNotificationSubscriber

structure ProcessingNotificationSubscriber where
  undoNotificationSubscriber : ProcessingUndoNotificationSubscriber
  aggregateResult : ValidationResult
  isUndoEnabled : Bool
  deriving DecidableEq

namespace ProcessingNotificationSubscriber

def create : ProcessingNotificationSubscriber := ⟨⟨[]⟩, .success, false⟩

def enableUndo (sub : ProcessingNotificationSubscriber) : ProcessingNotificationSubscriber :=
  { sub with isUndoEnabled := true }

def undo (bind : Resolvers → Resolvers) (observer : NotificationObserver Resolvers Cache Statement)
    (observerContext : ObserverContext Resolvers) (sub : ProcessingNotificationSubscriber)
    (state : ObserverState Cache Statement) :
    Option (ProcessingNotificationSubscriber × ObserverState Cache Statement) :=
  if sub.isUndoEnabled then
    (sub.undoNotificationSubscriber.undo bind observer observerContext state).map fun (undoSub, state) =>
      ({ sub with undoNotificationSubscriber := undoSub }, state)
  else none

def validate (validator : NotificationValidator Cache) (notification : Notification)
    (sub : ProcessingNotificationSubscriber) (cache : Cache) : Option ProcessingNotificationSubscriber :=
  if isSet notification.type .validator then
    (validator notification cache).map fun result =>
      { sub with aggregateResult := sub.aggregateResult.aggregate result }
  else some sub

def observe (observer : NotificationObserver Resolvers Cache Statement) (observerContext : ObserverContext Resolvers)
    (notification : Notification) (sub : ProcessingNotificationSubscriber) (state : ObserverState Cache Statement) :
    Option (ProcessingNotificationSubscriber × ObserverState Cache Statement) :=
  if isSet notification.type .observer then do
    let state ← observer notification observerContext state
    if sub.isUndoEnabled then
      let undoSub ← sub.undoNotificationSubscriber.notify notification
      some ({ sub with undoNotificationSubscriber := undoSub }, state)
    else some (sub, state)
  else some (sub, state)

def notify (validator : NotificationValidator Cache) (observer : NotificationObserver Resolvers Cache Statement)
    (observerContext : ObserverContext Resolvers)
    (p : ProcessingNotificationSubscriber × ObserverState Cache Statement) (notification : Notification) :
    Option (ProcessingNotificationSubscriber × ObserverState Cache Statement) :=
  if notification.size < sizeofNotification then none
  else if !p.1.aggregateResult.isSuccess then some p
  else do
    let sub ← p.1.validate validator notification p.2.cache
    if !sub.aggregateResult.isSuccess then some (sub, p.2)
    else sub.observe observer observerContext notification p.2

def publish (validator : NotificationValidator Cache) (observer : NotificationObserver Resolvers Cache Statement)
    (observerContext : ObserverContext Resolvers) (notifications : List Notification)
    (p : ProcessingNotificationSubscriber × ObserverState Cache Statement) :
    Option (ProcessingNotificationSubscriber × ObserverState Cache Statement) :=
  notifications.foldlM (notify validator observer observerContext) p

end ProcessingNotificationSubscriber

/-! ## Undoing -/

/-- The observers are undone up to the block statement. -/
def SameCache (state state' : ObserverState Cache Statement) : Prop := state.cache = state'.cache

/-- Whether statements are recorded or not, a notification in the mode is undone by the same one in the other mode. -/
def UndoesMode (bind : Resolvers → Resolvers) (mode : NotifyMode)
    (observer : NotificationObserver Resolvers Cache Statement) : Prop :=
  ∀ notification height resolvers (state state' : ObserverState Cache Statement),
    Undoes SameCache (observer notification (.create bind height resolvers state mode))
      (observer notification (.create bind height resolvers state' mode.undo))

section
variable {bind : Resolvers → Resolvers} {mode : NotifyMode}

theorem UndoesMode.conditional {observer : NotificationObserver Resolvers Cache Statement}
    (h : UndoesMode bind mode observer) (type : NotificationType) :
    UndoesMode bind mode (ConditionalObserver.notify type observer) := by
  intro notification height resolvers state state'
  by_cases htype : areEqualExcludingChannel type notification.type = true
  · have heq : ConditionalObserver.notify type observer notification = observer notification := by
      funext context state
      exact if_pos htype
    rw [heq]
    exact h notification height resolvers state state'
  · have heq : ConditionalObserver.notify type observer notification = fun _ => some := by
      funext context state
      exact if_neg htype
    rw [heq]
    exact Undoes.skip

theorem UndoesMode.aggregate {observers : List (NotificationObserver Resolvers Cache Statement)}
    (h : ∀ observer ∈ observers, UndoesMode bind mode observer) :
    UndoesMode bind mode (AggregateObserver.notify observers) := by
  intro notification height resolvers state state'
  cases mode with
  | commit => exact Undoes.foldlM fun observer hmem => h observer hmem notification height resolvers state state'
  | rollback =>
    have hreverse := Undoes.foldlM (l := observers.reverse) fun observer hmem =>
      h observer (List.mem_reverse.1 hmem) notification height resolvers state state'
    rw [List.reverse_reverse] at hreverse
    exact hreverse

theorem UndoesMode.demux {entries : List (DemuxEntry Resolvers Cache Statement)}
    (h : ∀ entry ∈ entries, UndoesMode bind mode entry.observer) :
    UndoesMode bind mode (DemuxObserverBuilder.build entries) := by
  refine UndoesMode.aggregate fun observer hmem => ?_
  obtain ⟨entry, hentry, rfl⟩ := List.mem_map.1 hmem
  rw [DemuxEntry.toObserver]
  cases entry.type with
  | none => exact h entry hentry
  | some type => exact (h entry hentry).conditional type

end

variable {chain} in
theorem undoes_adapter {observer : NotificationObserver Resolvers Cache Statement}
    (h : UndoesMode chain.bind .commit observer) (publisher : NotificationPublisher Block Transaction)
    (entityInfo : WeakEntityInfo Block Transaction) (height : Height) (resolvers : Resolvers)
    (state state' : ObserverState Cache Statement) :
    Undoes SameCache
      (NotificationObserverAdapter.notify observer publisher entityInfo
        (.create chain.bind height resolvers state .commit))
      (ReverseNotificationObserverAdapter.notify observer publisher entityInfo
        (.create chain.bind height resolvers state' .rollback)) := by
  have hall := Undoes.foldlM
    (l := (publisher entityInfo).filter fun notification => isSet notification.type .observer)
    fun notification _ => h notification height resolvers state state'
  intro s s' hs
  exact hall (List.foldlM_filter.trans hs)

theorem rollbackEntities_executeBlock {observer : NotificationObserver Resolvers Cache Statement}
    (h : UndoesMode chain.bind .commit observer) (publisher : NotificationPublisher Block Transaction)
    (element : BlockElement Block Transaction) (resolvers : Resolvers) {state state' : ObserverState Cache Statement}
    (hexecute : executeBlock chain element
      ⟨NotificationObserverAdapter.notify observer publisher, resolvers, state⟩ = some state')
    (statement : Option Statement) :
    ∃ undone, rollbackEntities chain element
        ⟨ReverseNotificationObserverAdapter.notify observer publisher, resolvers, ⟨state'.cache, statement⟩⟩ =
      some undone ∧ undone.cache = state.cache := by
  have hall := Undoes.foldlM (l := extractEntityInfos element) fun entityInfo _ =>
    undoes_adapter h publisher entityInfo (chain.height element.block) resolvers state ⟨state'.cache, statement⟩
  exact hall hexecute ⟨state'.cache, statement⟩ rfl

namespace ProcessingNotificationSubscriber
variable {validator : NotificationValidator Cache} {observer : NotificationObserver Resolvers Cache Statement}
  {context : ObserverContext Resolvers} {sub sub' : ProcessingNotificationSubscriber}
  {state state' : ObserverState Cache Statement} {notification : Notification} {notifications : List Notification}

/-- The notification is validated and the result is not a success. -/
def Rejects (validator : NotificationValidator Cache) (cache : Cache) (notification : Notification) : Prop :=
  isSet notification.type .validator = true ∧
    ∃ result, validator notification cache = some result ∧ ¬ValidationResult.isSuccess result

theorem isSuccess_aggregate {result value : ValidationResult} (h : result.isSuccess = true) :
    (result.aggregate value).isSuccess = value.isSuccess := by
  have hresult : result.getSeverity = 0 := by simpa [ValidationResult.isSuccess] using h
  rw [ValidationResult.aggregate, hresult]
  split
  · rename_i hle
    simp [ValidationResult.isSuccess, hresult, Nat.le_zero.1 hle]
  · rfl

theorem validate_cases {cache : Cache} (hsuccess : sub.aggregateResult.isSuccess = true)
    (h : sub.validate validator notification cache = some sub') :
    ∃ result, sub' = { sub with aggregateResult := result } ∧
      (result.isSuccess = false → Rejects validator cache notification) := by
  rw [validate] at h
  split at h
  · rename_i hset
    obtain ⟨value, hvalue, rfl⟩ := Option.map_eq_some_iff.1 h
    refine ⟨_, rfl, fun hfail => ⟨hset, value, hvalue, ?_⟩⟩
    rw [isSuccess_aggregate hsuccess] at hfail
    simp [hfail]
  · cases h
    refine ⟨_, rfl, fun hfail => ?_⟩
    rw [hsuccess] at hfail
    cases hfail

theorem notify_of_failed (hfailed : sub.aggregateResult.isSuccess = false)
    (h : notify validator observer context (sub, state) notification = some (sub', state')) :
    sub' = sub ∧ state' = state := by
  rw [notify] at h
  split at h
  · cases h
  · simp only [hfailed, Bool.not_false, if_true] at h
    cases h
    exact ⟨rfl, rfl⟩

def observed (notifications : List Notification) : List Notification :=
  notifications.filter fun notification => isSet notification.type .observer

/-- What a subscriber with undo does with a notification: it is rejected, or observed and remembered when it is for
observers. -/
theorem notify_cases (hsuccess : sub.aggregateResult.isSuccess = true) (hundo : sub.isUndoEnabled = true)
    (h : notify validator observer context (sub, state) notification = some (sub', state')) :
    sub'.isUndoEnabled = true ∧
    (sub'.aggregateResult.isSuccess = false ∧ Rejects validator state.cache notification ∧ state' = state ∧
      sub'.undoNotificationSubscriber = sub.undoNotificationSubscriber ∨
    sub'.aggregateResult.isSuccess = true ∧
      sub'.undoNotificationSubscriber.notificationBuffers =
        sub.undoNotificationSubscriber.notificationBuffers ++ observed [notification] ∧
      (observed [notification]).foldlM (fun state notification => observer notification context state) state =
        some state') := by
  have hsize : ¬notification.size < sizeofNotification := by simp [Notification.size]
  simp only [notify, hsize, if_false, hsuccess, Bool.not_true, Bool.false_eq_true] at h
  obtain ⟨validated, hvalidate, h⟩ := Option.bind_eq_some_iff.1 h
  obtain ⟨result, rfl, hrejects⟩ := validate_cases hsuccess hvalidate
  cases hresult : result.isSuccess with
  | false =>
    simp only [hresult, Bool.not_false, if_true, Option.some.injEq, Prod.mk.injEq] at h
    obtain ⟨rfl, rfl⟩ := h
    exact ⟨hundo, .inl ⟨hresult, hrejects hresult, rfl, rfl⟩⟩
  | true =>
    simp only [hresult, Bool.not_true, Bool.false_eq_true, if_false, observe] at h
    by_cases hset : isSet notification.type .observer = true
    · rw [if_pos hset] at h
      obtain ⟨next, hnext, h⟩ := Option.bind_eq_some_iff.1 h
      simp only [hundo, if_true, ProcessingUndoNotificationSubscriber.notify, hsize, if_false, hset,
        Option.bind_eq_bind, Option.bind_some, Option.some.injEq, Prod.mk.injEq] at h
      obtain ⟨rfl, rfl⟩ := h
      refine ⟨rfl, .inr ⟨hresult, ?_, ?_⟩⟩
      · simp [observed, hset]
      · simp [observed, hset, hnext]
    · simp only [hset, Bool.false_eq_true, if_false, Option.some.injEq, Prod.mk.injEq] at h
      obtain ⟨rfl, rfl⟩ := h
      refine ⟨hundo, .inr ⟨hresult, ?_, ?_⟩⟩
      · simp [observed, hset]
      · simp [observed, hset]

theorem publish_of_failed (hfailed : sub.aggregateResult.isSuccess = false)
    (h : publish validator observer context notifications (sub, state) = some (sub', state')) :
    sub' = sub ∧ state' = state := by
  induction notifications with
  | nil => cases h; exact ⟨rfl, rfl⟩
  | cons notification notifications ih =>
    rw [publish, List.foldlM_cons] at h
    obtain ⟨⟨next, state₁⟩, hnotify, hrest⟩ := Option.bind_eq_some_iff.1 h
    obtain ⟨rfl, rfl⟩ := notify_of_failed hfailed hnotify
    exact ih hrest

theorem publish_cases (hsuccess : sub.aggregateResult.isSuccess = true) (hundo : sub.isUndoEnabled = true)
    (h : publish validator observer context notifications (sub, state) = some (sub', state')) :
    sub'.isUndoEnabled = true ∧ ∃ accepted rest, notifications = accepted ++ rest ∧
      sub'.undoNotificationSubscriber.notificationBuffers =
        sub.undoNotificationSubscriber.notificationBuffers ++ observed accepted ∧
      (observed accepted).foldlM (fun state notification => observer notification context state) state =
        some state' ∧
      (sub'.aggregateResult.isSuccess = true ∧ rest = [] ∨
        sub'.aggregateResult.isSuccess = false ∧
          ∃ notification others, rest = notification :: others ∧ Rejects validator state'.cache notification) := by
  induction notifications generalizing sub state with
  | nil =>
    cases h
    exact ⟨hundo, [], [], rfl, by simp [observed], rfl, .inl ⟨hsuccess, rfl⟩⟩
  | cons notification notifications ih =>
    rw [publish, List.foldlM_cons] at h
    obtain ⟨⟨next, state₁⟩, hnotify, hrest⟩ := Option.bind_eq_some_iff.1 h
    rcases notify_cases hsuccess hundo hnotify with ⟨hnext, ⟨hfail, hrejects, rfl, hsame⟩ | ⟨hok, hbuffers, hobserve⟩⟩
    · obtain ⟨rfl, rfl⟩ := publish_of_failed hfail hrest
      refine ⟨hnext, [], notification :: notifications, rfl, ?_, rfl, .inr ⟨hfail, notification, _, rfl, hrejects⟩⟩
      simp [observed, hsame]
    · obtain ⟨hundo', accepted, rest, rfl, hbuffers', hobserve', hend⟩ := ih hok hnext hrest
      refine ⟨hundo', notification :: accepted, rest, rfl, ?_, ?_, hend⟩
      · rw [hbuffers', hbuffers, List.append_assoc, observed, observed, ← List.filter_append]
        rfl
      · have hsplit : observed (notification :: accepted) = observed [notification] ++ observed accepted :=
          List.filter_append [notification] accepted
        rw [hsplit, List.foldlM_append, hobserve]
        exact hobserve'

theorem undo_publish {bind : Resolvers → Resolvers} {mode : NotifyMode} (h : UndoesMode bind mode observer)
    (height : Height) (resolvers : Resolvers) (hsuccess : sub.aggregateResult.isSuccess = true)
    (hundo : sub.isUndoEnabled = true) (hnone : sub.undoNotificationSubscriber.notificationBuffers = [])
    (hpublish : publish validator observer (.create bind height resolvers state mode) notifications (sub, state) =
      some (sub', state')) :
    sub'.undo bind observer (.create bind height resolvers state mode) state' =
      some ({ sub' with undoNotificationSubscriber := ⟨[]⟩ }, { state' with cache := state.cache }) := by
  obtain ⟨hundo', accepted, -, -, hbuffers, hobserve, -⟩ := publish_cases hsuccess hundo hpublish
  have hall := Undoes.foldlM (l := observed accepted) fun notification _ =>
    h notification height resolvers state ⟨state'.cache, none⟩
  obtain ⟨undone, hundone, hcache⟩ := hall hobserve ⟨state'.cache, none⟩ rfl
  rw [hnone, List.nil_append] at hbuffers
  rw [undo, if_pos hundo', ProcessingUndoNotificationSubscriber.undo, hbuffers]
  simp only [ObserverContext.create] at hundone ⊢
  rw [hundone, ← hcache]
  rfl

end ProcessingNotificationSubscriber

open ProcessingNotificationSubscriber in
/-- When every observer undoes on rollback what it does on commit, rolling back a block after executing it leads back
to the cache before it, up to the removals that are committed then; and undoing a transaction that was rejected undoes
the notifications that were observed before the rejected one. -/
theorem undo_restores (chain : Chain Block Resolvers Cache) (entries : List (DemuxEntry Resolvers Cache Statement))
    (h : ∀ entry ∈ entries, UndoesMode chain.bind .commit entry.observer) :
    (∀ (publisher : NotificationPublisher Block Transaction) (element : BlockElement Block Transaction)
      (resolvers : Resolvers) (state state' : ObserverState Cache Statement),
      executeBlock chain element
        ⟨NotificationObserverAdapter.notify (DemuxObserverBuilder.build entries) publisher, resolvers, state⟩ =
          some state' →
      ∀ statement, ∃ statement',
        rollbackEntities chain element ⟨ReverseNotificationObserverAdapter.notify (DemuxObserverBuilder.build entries)
          publisher, resolvers, ⟨state'.cache, statement⟩⟩ = some ⟨state.cache, statement'⟩ ∧
        rollbackBlock chain element ⟨ReverseNotificationObserverAdapter.notify (DemuxObserverBuilder.build entries)
          publisher, resolvers, ⟨state'.cache, statement⟩⟩ =
            (chain.commitRemovals state.cache).map fun cache => ⟨cache, statement'⟩) ∧
    (∀ (validator : NotificationValidator Cache) (height : Height) (resolvers : Resolvers)
      (notifications : List Notification) (state state' : ObserverState Cache Statement)
      (sub : ProcessingNotificationSubscriber),
      publish validator (DemuxObserverBuilder.build entries) (.create chain.bind height resolvers state .commit)
        notifications (create.enableUndo, state) = some (sub, state') →
      sub.aggregateResult.isSuccess = false →
      ∃ accepted notification rest, notifications = accepted ++ notification :: rest ∧
        Rejects validator state'.cache notification ∧
        (observed accepted).foldlM (fun current notification => DemuxObserverBuilder.build entries notification
          (.create chain.bind height resolvers state .commit) current) state = some state' ∧
        sub.undoNotificationSubscriber.notificationBuffers = observed accepted ∧
        sub.undo chain.bind (DemuxObserverBuilder.build entries) (.create chain.bind height resolvers state .commit)
          state' = some ({ sub with undoNotificationSubscriber := ⟨[]⟩ }, { state' with cache := state.cache })) := by
  have hdemux := UndoesMode.demux h
  refine ⟨fun publisher element resolvers state state' hexecute statement => ?_, ?_⟩
  · obtain ⟨⟨cache, statement'⟩, hrollback, hcache⟩ :=
      rollbackEntities_executeBlock chain hdemux publisher element resolvers hexecute statement
    cases hcache
    refine ⟨statement', hrollback, ?_⟩
    rw [rollbackBlock, hrollback]
    rfl
  · intro validator height resolvers notifications state state' sub hpublish hfail
    obtain ⟨-, accepted, rest, hsplit, hbuffers, hobserve, hend⟩ := publish_cases rfl rfl hpublish
    rcases hend with ⟨hok, -⟩ | ⟨-, notification, others, rfl, hrejects⟩
    · rw [hfail] at hok
      cases hok
    · refine ⟨accepted, notification, others, hsplit, hrejects, hobserve, hbuffers, ?_⟩
      exact undo_publish hdemux height resolvers rfl rfl rfl hpublish

/-- An observer that remembers the notifications in a list, and takes them from it on rollback. -/
def journalObserver (id : Nat) : NotificationObserver Unit (List (Nat × Notification)) Unit :=
  fun notification context state =>
    match context.mode, state.cache with
    | .commit, journal => some { state with cache := (id, notification) :: journal }
    | .rollback, entry :: journal => if entry = (id, notification) then some { state with cache := journal } else none
    | .rollback, [] => none

theorem undoesMode_journalObserver (id : Nat) : UndoesMode (fun () => ()) .commit (journalObserver id) := by
  intro notification height resolvers state state' s s' hs t' ht'
  cases hs
  refine ⟨{ t' with cache := s.cache }, ?_, rfl⟩
  obtain ⟨cache, statement⟩ := t'
  cases ht'
  simp [journalObserver, ObserverContext.create, NotifyMode.undo]

/-- A notification for all channels of the type with the code `code`. -/
def sampleNotification (code : BitVec 32) : Notification := ⟨0xFF000000 ||| code, []⟩

def sampleEntries : List (DemuxEntry Unit (List (Nat × Notification)) Unit) :=
  [⟨none, journalObserver 1⟩, ⟨some 2, journalObserver 2⟩]

def sampleChain : Chain Unit Unit (List (Nat × Notification)) := ⟨fun () => (), fun () => 1, some⟩

def samplePublisher : NotificationPublisher Unit Unit := fun _ => [sampleNotification 1, sampleNotification 2]

def sampleState : ObserverState (List (Nat × Notification)) Unit := ⟨[], none⟩

def sampleValidator : NotificationValidator (List (Nat × Notification)) := fun notification _ =>
  some (if notification = sampleNotification 3 then 0x80000000 else 0)

theorem undo_restores_sample :
    (∃ state, executeBlock sampleChain ⟨(), 0, [⟨(), 1⟩]⟩ ⟨NotificationObserverAdapter.notify
        (DemuxObserverBuilder.build sampleEntries) samplePublisher, (), sampleState⟩ = some state ∧
      ∃ statement, rollbackEntities sampleChain ⟨(), 0, [⟨(), 1⟩]⟩ ⟨ReverseNotificationObserverAdapter.notify
        (DemuxObserverBuilder.build sampleEntries) samplePublisher, (), ⟨state.cache, none⟩⟩ =
          some ⟨[], statement⟩) ∧
    ∃ p, ProcessingNotificationSubscriber.publish sampleValidator (DemuxObserverBuilder.build sampleEntries)
        (.create sampleChain.bind 1 () sampleState .commit)
        [sampleNotification 1, sampleNotification 2, sampleNotification 3]
        (ProcessingNotificationSubscriber.create.enableUndo, sampleState) = some p ∧
      p.1.undo sampleChain.bind (DemuxObserverBuilder.build sampleEntries)
        (.create sampleChain.bind 1 () sampleState .commit) p.2 =
          some ({ p.1 with undoNotificationSubscriber := ⟨[]⟩ }, { p.2 with cache := [] }) := by
  have hentries : ∀ entry ∈ sampleEntries, UndoesMode sampleChain.bind .commit entry.observer := by
    intro entry hentry
    rcases List.mem_cons.1 hentry with rfl | hentry
    · exact undoesMode_journalObserver 1
    · rw [List.mem_singleton.1 hentry]
      exact undoesMode_journalObserver 2
  obtain ⟨hblock, htransaction⟩ := @undo_restores _ _ _ _ Unit sampleChain sampleEntries hentries
  refine ⟨?_, ?_⟩
  · obtain ⟨state, hstate⟩ := Option.isSome_iff_exists.1 (show (executeBlock sampleChain ⟨(), 0, [⟨(), 1⟩]⟩
      ⟨NotificationObserverAdapter.notify (DemuxObserverBuilder.build sampleEntries) samplePublisher, (),
        sampleState⟩).isSome = true by decide)
    obtain ⟨statement, hrollback, -⟩ := hblock samplePublisher _ _ _ _ hstate none
    exact ⟨state, hstate, statement, hrollback⟩
  · have hfails : (ProcessingNotificationSubscriber.publish sampleValidator (DemuxObserverBuilder.build sampleEntries)
        (.create sampleChain.bind 1 () sampleState .commit)
        [sampleNotification 1, sampleNotification 2, sampleNotification 3]
        (ProcessingNotificationSubscriber.create.enableUndo, sampleState)).any
          (fun p => !p.1.aggregateResult.isSuccess) = true := by decide
    obtain ⟨⟨sub, state⟩, hp, hfail⟩ := (Option.any_eq_true _ _).1 hfails
    obtain ⟨-, -, -, -, -, -, -, hundo⟩ := htransaction _ _ _ _ _ _ _ hp (by simpa using hfail)
    exact ⟨(sub, state), hp, hundo⟩

end
end Catapult.Observers
