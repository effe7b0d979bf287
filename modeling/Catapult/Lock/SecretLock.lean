import Catapult.Lock.LockInfoCache
import Mathlib.Algebra.BigOperators.Group.Finset.Piecewise
import Mathlib.Algebra.GroupWithZero.Nat
import Mathlib.Algebra.Order.BigOperators.Group.Finset

/-!
# Secret locks: validators and observers

A secret lock is debited from its owner, and credited to its recipient when the secret is published, or to its owner
when it expires. `State` are the caches that are involved, between two notifications, together with a record of the
locks that were created and of the balance changes that were credited. The record is not in the program: the locks are
numbered.

Notifications are modelled with resolved addresses and mosaic ids, and amounts without overflow: the supply of a
mosaic is limited.
-/

namespace Catapult.Lock
open Cache LockInfoType

inductive LockHashAlgorithm where
  | opSha3_256
  | opHash160
  | opHash256
  deriving DecidableEq

structure SecretLockInfo (Address MosaicId Hash : Type) where
  ownerAddress : Address
  mosaicId : MosaicId
  amount : Nat
  endHeight : Nat
  status : LockStatus
  hashAlgorithm : LockHashAlgorithm
  secret : Hash
  recipientAddress : Address
  compositeHash : Hash
  deriving DecidableEq

/-- A secret lock info with the number of its creation. -/
structure NumberedLockInfo (Address MosaicId Hash : Type) extends SecretLockInfo Address MosaicId Hash where
  number : Nat
  deriving DecidableEq

instance {Address MosaicId Hash : Type} : LockInfoType (NumberedLockInfo Address MosaicId Hash) Hash :=
  ⟨fun lockInfo => lockInfo.compositeHash, fun lockInfo => lockInfo.endHeight, fun lockInfo => lockInfo.status⟩

structure SecretLockConfiguration (Address Hash : Type) where
  maxSecretLockDuration : Nat
  calculateSecretLockInfoHash : Hash → Address → Hash
  skipSecretLockUniquenessChecks : Finset Nat
  skipSecretLockExpirations : Finset Nat
  forceSecretLockExpirations : Finset Nat

structure SecretLockNotification (Address MosaicId Hash : Type) where
  owner : Address
  mosaicId : MosaicId
  amount : Nat
  duration : Nat
  hashAlgorithm : LockHashAlgorithm
  secret : Hash
  recipient : Address

structure ProofPublicationNotification (Address Hash : Type) where
  hashAlgorithm : LockHashAlgorithm
  secret : Hash
  recipient : Address

inductive ReceiptType where
  | lockSecretCompleted
  | lockSecretExpired
  deriving DecidableEq

/-- A `BalanceChangeReceipt` of a credit, with the height of the block and the number of the lock. -/
structure Credit (Address MosaicId : Type) where
  receiptType : ReceiptType
  address : Address
  mosaicId : MosaicId
  amount : Nat
  height : Nat
  number : Nat
  deriving DecidableEq

structure State (Address MosaicId Hash : Type) where
  /-- The height of the block that is executed. -/
  height : Nat
  cache : LockInfoCache (NumberedLockInfo Address MosaicId Hash) Hash
  balances : Address → MosaicId → Nat
  created : List (NumberedLockInfo Address MosaicId Hash)
  credits : Multiset (Credit Address MosaicId)

namespace State
variable {Address MosaicId Hash : Type} [DecidableEq Address] [DecidableEq MosaicId] [DecidableEq Hash]

/-- `ActivePredicateMixin::isActive` at the current height. -/
def isActive (s : State Address MosaicId Hash) (key : Hash) : Bool :=
  isHistoryActive (s.cache.history key) s.height

/-- `AccountBalances::credit`. -/
def credit (balances : Address → MosaicId → Nat) (address : Address) (mosaicId : MosaicId) (amount : Nat) :
    Address → MosaicId → Nat :=
  Function.update balances address (Function.update (balances address) mosaicId (balances address mosaicId + amount))

/-- `AccountBalances::debit`, after the balance was checked. -/
def debit (balances : Address → MosaicId → Nat) (address : Address) (mosaicId : MosaicId) (amount : Nat) :
    Address → MosaicId → Nat :=
  Function.update balances address (Function.update (balances address) mosaicId (balances address mosaicId - amount))

/-- The validators of a secret lock: the duration, the balance and `SecretLockCacheUniqueValidator`. -/
def validateSecretLock (config : SecretLockConfiguration Address Hash) (s : State Address MosaicId Hash)
    (notification : SecretLockNotification Address MosaicId Hash) : Bool :=
  decide (notification.duration ≠ 0) && decide (notification.duration ≤ config.maxSecretLockDuration) &&
  decide (notification.amount ≤ s.balances notification.owner notification.mosaicId) &&
  (decide (s.height ∈ config.skipSecretLockUniquenessChecks) ||
    !s.isActive (config.calculateSecretLockInfoHash notification.secret notification.recipient))

/-- `CreateLockInfo`; the end height is a 64 bit value. -/
def createLockInfo (config : SecretLockConfiguration Address Hash) (s : State Address MosaicId Hash)
    (notification : SecretLockNotification Address MosaicId Hash) : NumberedLockInfo Address MosaicId Hash where
  ownerAddress := notification.owner
  mosaicId := notification.mosaicId
  amount := notification.amount
  endHeight := (s.height + notification.duration) % 2 ^ 64
  status := .unused
  hashAlgorithm := notification.hashAlgorithm
  secret := notification.secret
  recipientAddress := notification.recipient
  compositeHash := config.calculateSecretLockInfoHash notification.secret notification.recipient
  number := s.created.length

/-- The observers of the balance debit and of the secret lock. -/
def observeSecretLock (config : SecretLockConfiguration Address Hash) (s : State Address MosaicId Hash)
    (notification : SecretLockNotification Address MosaicId Hash) : State Address MosaicId Hash :=
  { s with
    balances := debit s.balances notification.owner notification.mosaicId notification.amount
    cache := s.cache.insert (createLockInfo config s notification)
    created := s.created ++ [createLockInfo config s notification] }

def validateProof (config : SecretLockConfiguration Address Hash) (s : State Address MosaicId Hash)
    (notification : ProofPublicationNotification Address Hash) : Bool :=
  let key := config.calculateSecretLockInfoHash notification.secret notification.recipient
  s.isActive key && decide ((s.cache.history key).getLast?.map (fun lockInfo => lockInfo.hashAlgorithm) =
    some notification.hashAlgorithm)

/-- `ProofObserver`: the most recent lock info is used and its recipient is credited. -/
def observeProof (config : SecretLockConfiguration Address Hash) (s : State Address MosaicId Hash)
    (notification : ProofPublicationNotification Address Hash) : State Address MosaicId Hash :=
  let key := config.calculateSecretLockInfoHash notification.secret notification.recipient
  match (s.cache.history key).getLast? with
  | none => s
  | some lockInfo =>
    { s with
      cache := { s.cache with
        histories := Function.update s.cache.histories key
          (some ((s.cache.history key).dropLast ++ [{ lockInfo with status := .used }])) }
      balances := credit s.balances lockInfo.recipientAddress lockInfo.mosaicId lockInfo.amount
      credits := ⟨.lockSecretCompleted, lockInfo.recipientAddress, lockInfo.mosaicId, lockInfo.amount, s.height,
        lockInfo.number⟩ ::ₘ s.credits }

/-- `processUnusedExpiredLocks`: the most recent lock infos of the identifiers in the group of a height. -/
def processUnusedExpiredLocks (cache : LockInfoCache (NumberedLockInfo Address MosaicId Hash) Hash) (height : Nat) :
    Multiset (NumberedLockInfo Address MosaicId Hash) :=
  (cache.heightGrouping.identifiers height).val.filterMap fun id =>
    (cache.history id).getLast?.filter fun lockInfo => decide (lockInfo.status = .unused)

/-- The locks that are credited to their owners by `ExpiredSecretLockInfoObserver`. -/
def expiredLocks (config : SecretLockConfiguration Address Hash) (s : State Address MosaicId Hash) :
    Multiset (NumberedLockInfo Address MosaicId Hash) :=
  if s.height ∈ config.skipSecretLockExpirations then 0
  else (processUnusedExpiredLocks s.cache s.height).filter fun lockInfo =>
    s.height = lockInfo.endHeight ∨ s.height ∈ config.forceSecretLockExpirations

/-- The block notification, after which the next block is executed. -/
def observeBlock (config : SecretLockConfiguration Address Hash) (s : State Address MosaicId Hash) :
    State Address MosaicId Hash :=
  { s with
    height := s.height + 1
    balances := fun address mosaicId => s.balances address mosaicId +
      (((s.expiredLocks config).filter fun lockInfo => lockInfo.ownerAddress = address ∧
        lockInfo.mosaicId = mosaicId).map
        fun lockInfo => lockInfo.amount).sum
    credits := (s.expiredLocks config).map (fun lockInfo =>
      ⟨.lockSecretExpired, lockInfo.ownerAddress, lockInfo.mosaicId,
      lockInfo.amount, s.height, lockInfo.number⟩) + s.credits }

def creditsOf (s : State Address MosaicId Hash) (lockInfo : NumberedLockInfo Address MosaicId Hash) :
    Multiset (Credit Address MosaicId) :=
  s.credits.filter fun credit => credit.number = lockInfo.number

variable [Fintype Address]

def totalBalance (s : State Address MosaicId Hash) (mosaicId : MosaicId) : Nat := ∑ address, s.balances address mosaicId

def unreleased (s : State Address MosaicId Hash) (mosaicId : MosaicId) : Nat :=
  (s.created.map fun lockInfo =>
    if lockInfo.mosaicId = mosaicId ∧ s.creditsOf lockInfo = 0 then lockInfo.amount else 0).sum

end State
/-!
## Every secret lock is released once

A lock is outstanding while it is the most recent one of its history, unused and not past its end height. All the
other locks have been credited exactly once (`Sound`), and so the balances together with the outstanding locks stay
the same.

The observers look at the most recent lock of a history only. A lock that expires in the block in which the next lock
with the same secret and recipient is created is never credited. `Run` are the runs in which this does not
happen, and in which no end height exceeds the 64 bit values.
-/

variable {Address MosaicId Hash : Type} {config : SecretLockConfiguration Address Hash}
  {s s' : State Address MosaicId Hash} {lockInfo : NumberedLockInfo Address MosaicId Hash}

namespace State

/-- A credit releases a lock: to the recipient before the end height, or to the owner at the end height. -/
structure Releases (credit : Credit Address MosaicId) (lockInfo : NumberedLockInfo Address MosaicId Hash) : Prop where
  mosaicId : credit.mosaicId = lockInfo.mosaicId
  amount : credit.amount = lockInfo.amount
  destination :
    (credit.receiptType = .lockSecretCompleted ∧ credit.address = lockInfo.recipientAddress ∧
      credit.height < lockInfo.endHeight) ∨
    (credit.receiptType = .lockSecretExpired ∧ credit.address = lockInfo.ownerAddress ∧
      credit.height = lockInfo.endHeight)

/-- The lock is the most recent one of its history, unused and in the index, and its end height has not passed. -/
structure Outstanding (s : State Address MosaicId Hash) (lockInfo : NumberedLockInfo Address MosaicId Hash) : Prop where
  last : (s.cache.history lockInfo.compositeHash).getLast? = some lockInfo
  unused : lockInfo.status = .unused
  le_end : s.height ≤ lockInfo.endHeight
  indexed : lockInfo.compositeHash ∈ s.cache.heightGrouping.identifiers lockInfo.endHeight

structure Sound (s : State Address MosaicId Hash) : Prop where
  numbers : s.created.map (fun lockInfo => lockInfo.number) = List.range s.created.length
  credit_number : ∀ credit ∈ s.credits, credit.number < s.created.length
  /-- A lock that could still be released is a created lock without credits. -/
  recent : ∀ id lockInfo, (s.cache.history id).getLast? = some lockInfo → lockInfo.status = .unused →
    s.height ≤ lockInfo.endHeight → lockInfo ∈ s.created ∧ lockInfo.compositeHash = id ∧ s.creditsOf lockInfo = 0
  released : ∀ lockInfo ∈ s.created, (s.Outstanding lockInfo ∧ s.creditsOf lockInfo = 0) ∨
    ∃ credit, s.creditsOf lockInfo = {credit} ∧ Releases credit lockInfo

theorem Sound.eq_of_number (h : s.Sound) {lockInfo' : NumberedLockInfo Address MosaicId Hash}
    (hmem : lockInfo ∈ s.created) (hmem' : lockInfo' ∈ s.created) (heq : lockInfo.number = lockInfo'.number) :
    lockInfo = lockInfo' := by
  have hnodup : (s.created.map fun lockInfo => lockInfo.number).Nodup := h.numbers ▸ List.nodup_range
  exact List.inj_on_of_nodup_map hnodup hmem hmem' heq

theorem exists_of_validateProof {notification : ProofPublicationNotification Address Hash}
    (h : s.validateProof config notification = true) :
    ∃ lockInfo,
      (s.cache.history (config.calculateSecretLockInfoHash notification.secret notification.recipient)).getLast? =
      some lockInfo ∧ lockInfo.status = .unused ∧ s.height < lockInfo.endHeight := by
  simp only [validateProof, Bool.and_eq_true] at h
  have hactive := h.1
  unfold isActive isHistoryActive at hactive
  split at hactive
  · cases hactive
  · rename_i lockInfo hlast
    simp only [Lock.isActive, Bool.and_eq_true, decide_eq_true_eq] at hactive
    exact ⟨lockInfo, hlast, hactive.2, hactive.1⟩

theorem creditsOf_cons_of_ne {credits : Multiset (Credit Address MosaicId)} {credit : Credit Address MosaicId}
    (hne : credit.number ≠ lockInfo.number) :
    (credit ::ₘ credits).filter (fun credit => credit.number = lockInfo.number) =
      credits.filter fun credit => credit.number = lockInfo.number :=
  Multiset.filter_cons_of_neg _ hne

theorem creditsOf_cons_self {credits : Multiset (Credit Address MosaicId)} {credit : Credit Address MosaicId}
    (heq : credit.number = lockInfo.number)
    (hzero : (credits.filter fun credit => credit.number = lockInfo.number) = 0) :
    (credit ::ₘ credits).filter (fun credit => credit.number = lockInfo.number) = {credit} := by
  rw [Multiset.filter_cons, hzero, if_pos heq]
  rfl

section Create
variable [DecidableEq Address] [DecidableEq MosaicId] [DecidableEq Hash]
  {notification : SecretLockNotification Address MosaicId Hash}

theorem Sound.observeSecretLock (h : s.Sound) (hvalid : s.validateSecretLock config notification = true)
    (hskip : s.height ∉ config.skipSecretLockUniquenessChecks) (hwrap : s.height + notification.duration < 2 ^ 64)
    (hrecent : ∀ lockInfo, (s.cache.history (config.calculateSecretLockInfoHash notification.secret
      notification.recipient)).getLast? = some lockInfo → lockInfo.status = .unused → lockInfo.endHeight ≠ s.height) :
    (s.observeSecretLock config notification).Sound := by
  set new := s.createLockInfo config notification with hnew
  have hkey : new.compositeHash = config.calculateSecretLockInfoHash notification.secret notification.recipient := rfl
  have hend : new.endHeight = s.height + notification.duration := Nat.mod_eq_of_lt hwrap
  simp only [validateSecretLock, Bool.and_eq_true, Bool.or_eq_true, decide_eq_true_eq, hskip, false_or,
    Bool.not_eq_true', ← hkey] at hvalid
  obtain ⟨⟨⟨hduration, -⟩, -⟩, hactive⟩ := hvalid
  have hhistory : ∀ id, (s.observeSecretLock config notification).cache.history id =
      s.cache.history id ++ if id = new.compositeHash then [new] else [] := fun id => LockInfoCache.history_insert
  -- the lock that was the most recent one is not outstanding any more
  have hold : ∀ lockInfo, s.Outstanding lockInfo → lockInfo.compositeHash ≠ new.compositeHash := by
    intro lockInfo hout heq
    have hlast := hout.last
    rw [heq] at hlast
    have hne := hrecent lockInfo (hkey ▸ hlast) hout.unused
    have hle := hout.le_end
    simp only [isActive, isHistoryActive, hlast, Lock.isActive, Bool.and_eq_false_iff,
      decide_eq_false_iff_not] at hactive
    rcases hactive with hactive | hactive
    · exact hactive (Nat.lt_of_le_of_ne hle (Ne.symm hne))
    · exact hactive hout.unused
  have hnumber : s.creditsOf new = 0 := by
    rw [creditsOf, Multiset.filter_eq_nil]
    intro credit hcredit
    exact Nat.ne_of_lt (h.credit_number credit hcredit)
  have hlast_new : ((s.observeSecretLock config notification).cache.history new.compositeHash).getLast? = some new := by
    rw [hhistory, if_pos rfl, List.getLast?_concat]
  constructor
  · show ((s.created ++ [new]).map fun lockInfo => lockInfo.number) = List.range (s.created ++ [new]).length
    rw [List.map_append, h.numbers, List.length_append, List.length_singleton, List.range_succ]
    rfl
  · intro credit hcredit
    show credit.number < (s.created ++ [new]).length
    rw [List.length_append]
    exact Nat.lt_add_right _ (h.credit_number credit hcredit)
  · intro id lockInfo hlast hunused hle
    by_cases hid : id = new.compositeHash
    · rw [hid, hlast_new, Option.some.injEq] at hlast
      subst hlast
      exact ⟨List.mem_append_right _ (List.mem_singleton_self _), hid.symm, hnumber⟩
    · rw [hhistory, if_neg hid, List.append_nil] at hlast
      obtain ⟨hmem, hid', hcredits⟩ := h.recent id lockInfo hlast hunused hle
      exact ⟨List.mem_append_left _ hmem, hid', hcredits⟩
  · intro lockInfo hmem
    rcases List.mem_append.1 hmem with hmem | hmem
    · rcases h.released lockInfo hmem with ⟨hout, hcredits⟩ | hreleased
      · refine .inl ⟨⟨?_, hout.unused, hout.le_end, ?_⟩, hcredits⟩
        · rw [hhistory, if_neg (hold lockInfo hout), List.append_nil]
          exact hout.last
        · exact GroupedSet.mem_identifiers_add.2 (.inr hout.indexed)
      · exact .inr hreleased
    · obtain rfl := List.mem_singleton.1 hmem
      refine .inl ⟨⟨hlast_new, rfl, ?_, GroupedSet.mem_identifiers_add.2 (.inl ⟨rfl, rfl⟩)⟩, hnumber⟩
      show s.height ≤ new.endHeight
      omega

end Create

section Prove
variable [DecidableEq Address] [DecidableEq MosaicId] [DecidableEq Hash]
  {notification : ProofPublicationNotification Address Hash}

theorem Sound.observeProof (h : s.Sound) (hvalid : s.validateProof config notification = true) :
    (s.observeProof config notification).Sound := by
  obtain ⟨proven, hlast, hunused, hlt⟩ := exists_of_validateProof hvalid
  set key := config.calculateSecretLockInfoHash notification.secret notification.recipient with hkey
  obtain ⟨hmem, hid, hcredits⟩ := h.recent key proven hlast hunused hlt.le
  have hstate : s.observeProof config notification = { s with
      cache := { s.cache with
        histories := Function.update s.cache.histories key
          (some ((s.cache.history key).dropLast ++ [{ proven with status := .used }])) }
      balances := credit s.balances proven.recipientAddress proven.mosaicId proven.amount
      credits := ⟨.lockSecretCompleted, proven.recipientAddress, proven.mosaicId, proven.amount, s.height,
        proven.number⟩ ::ₘ s.credits } := by
    unfold State.observeProof
    simp only [← hkey, hlast]
  have hhistory : ∀ id, (s.observeProof config notification).cache.history id =
      if id = key then (s.cache.history key).dropLast ++ [{ proven with status := .used }] else s.cache.history id := by
    intro id
    rw [hstate]
    by_cases hid : id = key
    · simp [LockInfoCache.history, hid]
    · simp [LockInfoCache.history, hid]
  have hother : ∀ lockInfo ∈ s.created, lockInfo ≠ proven →
      (s.observeProof config notification).creditsOf lockInfo = s.creditsOf lockInfo := by
    intro lockInfo hmem' hne
    rw [hstate]
    exact creditsOf_cons_of_ne fun heq => hne (h.eq_of_number hmem' hmem heq.symm)
  constructor
  · rw [hstate]
    exact h.numbers
  · intro credit hcredit
    rw [hstate] at hcredit ⊢
    rcases Multiset.mem_cons.1 hcredit with rfl | hcredit
    · have hmem_number : proven.number ∈ s.created.map fun lockInfo => lockInfo.number := List.mem_map_of_mem hmem
      rw [h.numbers] at hmem_number
      exact List.mem_range.1 hmem_number
    · exact h.credit_number credit hcredit
  · intro id lockInfo hlast' hunused' hle'
    have hle : s.height ≤ lockInfo.endHeight := by simpa [hstate] using hle'
    rw [hhistory] at hlast'
    split_ifs at hlast' with hid'
    · rw [List.getLast?_concat, Option.some.injEq] at hlast'
      rw [← hlast'] at hunused'
      cases hunused'
    · obtain ⟨hmem', hid'', hcredits'⟩ := h.recent id lockInfo hlast' hunused' hle
      have hne : lockInfo ≠ proven := by
        rintro rfl
        exact hid' (hid''.symm.trans hid)
      exact ⟨by rw [hstate]; exact hmem', hid'', (hother lockInfo hmem' hne).trans hcredits'⟩
  · intro lockInfo hmem'
    replace hmem' : lockInfo ∈ s.created := by rwa [hstate] at hmem'
    by_cases hne : lockInfo = proven
    · subst hne
      refine .inr ⟨⟨.lockSecretCompleted, lockInfo.recipientAddress, lockInfo.mosaicId, lockInfo.amount, s.height,
        lockInfo.number⟩, ?_, rfl, rfl, .inl ⟨rfl, rfl, hlt⟩⟩
      rw [hstate]
      exact creditsOf_cons_self rfl hcredits
    · rw [hother lockInfo hmem' hne]
      refine (h.released lockInfo hmem').imp_left fun hnot => ?_
      obtain ⟨hout, hzero⟩ := hnot
      refine ⟨⟨?_, hout.unused, ?_, ?_⟩, hzero⟩
      · rw [hhistory, if_neg]
        · exact hout.last
        · intro heq
          exact hne (Option.some.inj (hout.last.symm.trans (heq ▸ hlast)))
      · rw [hstate]
        exact hout.le_end
      · rw [hstate]
        exact hout.indexed

end Prove

section Expire

theorem filterMap_eq_singleton {α β : Type} [DecidableEq α] {group : Finset α} {f : α → Option β} {a : α} {b : β}
    (ha : a ∈ group) (hf : f a = some b) (hother : ∀ a' ∈ group, a' ≠ a → f a' = none) :
    group.val.filterMap f = {b} := by
  have hrest : (group.erase a).val.filterMap f = 0 := by
    rw [Multiset.eq_zero_iff_forall_notMem]
    intro b' hb'
    obtain ⟨a', ha', heq⟩ := (Multiset.mem_filterMap _ _).1 hb'
    obtain ⟨hne, hmem⟩ := Finset.mem_erase.1 ha'
    rw [hother a' hmem hne] at heq
    cases heq
  rw [← Finset.insert_erase ha, Finset.insert_val_of_notMem (Finset.notMem_erase a group),
    Multiset.filterMap_cons_some f _ _ hf,
    hrest]
  rfl

theorem mem_expiredLocks (hskip : s.height ∉ config.skipSecretLockExpirations)
    (hforce : s.height ∉ config.forceSecretLockExpirations) :
    lockInfo ∈ s.expiredLocks config ↔ ∃ id ∈ s.cache.heightGrouping.identifiers s.height,
      (s.cache.history id).getLast? = some lockInfo ∧ lockInfo.status = .unused ∧ lockInfo.endHeight = s.height := by
  simp only [expiredLocks, if_neg hskip, Multiset.mem_filter, hforce, or_false, processUnusedExpiredLocks,
    Multiset.mem_filterMap, Option.filter_eq_some_iff, decide_eq_true_eq, Finset.mem_val]
  constructor
  · rintro ⟨⟨id, hid, hlast, hunused⟩, hend⟩
    exact ⟨id, hid, hlast, hunused, hend.symm⟩
  · rintro ⟨id, hid, hlast, hunused, hend⟩
    exact ⟨⟨id, hid, hlast, hunused⟩, hend.symm⟩

theorem Sound.of_mem_expiredLocks (h : s.Sound) (hskip : s.height ∉ config.skipSecretLockExpirations)
    (hforce : s.height ∉ config.forceSecretLockExpirations) (hmem : lockInfo ∈ s.expiredLocks config) :
    lockInfo ∈ s.created ∧ s.creditsOf lockInfo = 0 ∧ lockInfo.endHeight = s.height := by
  obtain ⟨id, -, hlast, hunused, hend⟩ := (mem_expiredLocks hskip hforce).1 hmem
  obtain ⟨hmem', -, hcredits⟩ := h.recent id lockInfo hlast hunused (Nat.le_of_eq hend.symm)
  exact ⟨hmem', hcredits, hend⟩

theorem creditsOf_observeBlock [DecidableEq Address] [DecidableEq MosaicId] :
    (s.observeBlock config).creditsOf lockInfo =
    ((s.expiredLocks config).filter fun expired => expired.number = lockInfo.number).map (fun expired =>
      ⟨.lockSecretExpired, expired.ownerAddress, expired.mosaicId, expired.amount, s.height, expired.number⟩) +
    s.creditsOf lockInfo := by
  unfold creditsOf observeBlock
  rw [Multiset.filter_add, Multiset.filter_map]
  rfl

theorem Sound.expired_eq_zero (h : s.Sound) (hskip : s.height ∉ config.skipSecretLockExpirations)
    (hforce : s.height ∉ config.forceSecretLockExpirations) (hmem : lockInfo ∈ s.created)
    (hnot : lockInfo.endHeight ≠ s.height ∨ s.creditsOf lockInfo ≠ 0) :
    ((s.expiredLocks config).filter fun expired => expired.number = lockInfo.number) = 0 := by
  rw [Multiset.filter_eq_nil]
  intro expired hexpired heq
  obtain ⟨hmem', hcredits, hend⟩ := h.of_mem_expiredLocks hskip hforce hexpired
  obtain rfl := h.eq_of_number hmem' hmem heq
  rcases hnot with hnot | hnot
  · exact hnot hend
  · exact hnot hcredits

theorem Sound.expired_eq_singleton (h : s.Sound) (hskip : s.height ∉ config.skipSecretLockExpirations)
    (hforce : s.height ∉ config.forceSecretLockExpirations) (hmem : lockInfo ∈ s.created)
    (hout : s.Outstanding lockInfo) (hend : lockInfo.endHeight = s.height) :
    ((s.expiredLocks config).filter fun expired => expired.number = lockInfo.number) = {lockInfo} := by
  classical
  unfold expiredLocks processUnusedExpiredLocks
  rw [if_neg hskip, Multiset.filter_filterMap, Multiset.filter_filterMap]
  refine filterMap_eq_singleton (hend ▸ hout.indexed) ?_ ?_
  · simp [hout.last, hout.unused, hend]
  · intro id hid hne
    rw [Option.eq_none_iff_forall_ne_some]
    intro expired hexpired
    simp only [Option.filter_eq_some_iff, decide_eq_true_eq, hforce, or_false] at hexpired
    obtain ⟨⟨⟨hlast, hunused⟩, hend'⟩, hnumber⟩ := hexpired
    obtain ⟨hmem', hid', -⟩ := h.recent id expired hlast hunused (Nat.le_of_eq hend')
    obtain rfl := h.eq_of_number hmem' hmem hnumber
    exact hne hid'.symm

theorem Sound.observeBlock [DecidableEq Address] [DecidableEq MosaicId] (h : s.Sound)
    (hskip : s.height ∉ config.skipSecretLockExpirations) (hforce : s.height ∉ config.forceSecretLockExpirations) :
    (s.observeBlock config).Sound := by
  constructor
  · exact h.numbers
  · intro credit hcredit
    rcases Multiset.mem_add.1 hcredit with hcredit | hcredit
    · obtain ⟨expired, hexpired, rfl⟩ := Multiset.mem_map.1 hcredit
      have hmem_number : expired.number ∈ s.created.map fun lockInfo => lockInfo.number :=
        List.mem_map_of_mem (h.of_mem_expiredLocks hskip hforce hexpired).1
      rw [h.numbers] at hmem_number
      exact List.mem_range.1 hmem_number
    · exact h.credit_number credit hcredit
  · intro id lockInfo hlast hunused hle
    have hle' : s.height + 1 ≤ lockInfo.endHeight := hle
    obtain ⟨hmem, hid, hcredits⟩ := h.recent id lockInfo hlast hunused (by omega)
    refine ⟨hmem, hid, ?_⟩
    rw [creditsOf_observeBlock, h.expired_eq_zero hskip hforce hmem (.inl (by omega)), hcredits]
    rfl
  · intro lockInfo hmem
    replace hmem : lockInfo ∈ s.created := hmem
    rw [creditsOf_observeBlock]
    rcases h.released lockInfo hmem with ⟨hout, hcredits⟩ | ⟨credit, hcredit, hreleases⟩
    · by_cases hend : lockInfo.endHeight = s.height
      · refine .inr ⟨⟨.lockSecretExpired, lockInfo.ownerAddress, lockInfo.mosaicId, lockInfo.amount, s.height,
          lockInfo.number⟩, ?_, rfl, rfl, .inr ⟨rfl, rfl, hend.symm⟩⟩
        rw [h.expired_eq_singleton hskip hforce hmem hout hend, hcredits]
        rfl
      · rw [h.expired_eq_zero hskip hforce hmem (.inl hend), hcredits]
        have hle := hout.le_end
        exact .inl ⟨⟨hout.last, hout.unused, Nat.lt_of_le_of_ne hle (Ne.symm hend), hout.indexed⟩, rfl⟩
    · right
      refine ⟨credit, ?_, hreleases⟩
      rw [h.expired_eq_zero hskip hforce hmem (.inr (by simp [hcredit])), hcredit]
      rfl

end Expire

/-- `prune` of the cache, at a height that is final. -/
def prune [DecidableEq Hash] (s : State Address MosaicId Hash) (height : Nat) : State Address MosaicId Hash :=
  { s with cache := s.cache.prune height }

theorem getLast?_pruneHistory {history : List (NumberedLockInfo Address MosaicId Hash)} {height : Nat}
    (hlt : height < lockInfo.endHeight) :
    (pruneHistory history height).getLast? = some lockInfo ↔ history.getLast? = some lockInfo := by
  have hsplit := List.takeWhile_append_dropWhile
    (p := fun lockInfo : NumberedLockInfo Address MosaicId Hash => decide (endHeight lockInfo ≤ height)) (l := history)
  constructor
  · intro h
    rw [← hsplit, List.getLast?_append]
    exact Option.or_eq_some_iff.2 (.inl h)
  · intro h
    rw [← hsplit, List.getLast?_append] at h
    rcases Option.or_eq_some_iff.1 h with h | ⟨-, h⟩
    · exact h
    · have hle := List.mem_takeWhile_imp (List.mem_of_getLast? h)
      simp only [decide_eq_true_eq] at hle
      exact absurd (show lockInfo.endHeight ≤ height from hle) (by omega)

theorem Sound.prune [DecidableEq Hash] {height : Nat} (h : s.Sound) (hlt : height < s.height) :
    (s.prune height).Sound := by
  have hlast : ∀ id lockInfo, s.height ≤ lockInfo.endHeight →
      (((s.prune height).cache.history id).getLast? = some lockInfo ↔
        (s.cache.history id).getLast? = some lockInfo) := by
    intro id lockInfo hle
    have hhistory : (s.prune height).cache.history id =
        if id ∈ s.cache.heightGrouping.identifiers height then pruneHistory (s.cache.history id) height
        else s.cache.history id := LockInfoCache.history_prune
    rw [hhistory]
    split_ifs
    · exact getLast?_pruneHistory (by omega)
    · rfl
  constructor
  · exact h.numbers
  · exact h.credit_number
  · intro id lockInfo hlast' hunused hle
    exact h.recent id lockInfo ((hlast id lockInfo hle).1 hlast') hunused hle
  · intro lockInfo hmem
    refine (h.released lockInfo hmem).imp_left fun ⟨hout, hcredits⟩ => ⟨⟨?_, hout.unused, hout.le_end, ?_⟩, hcredits⟩
    · exact (hlast _ lockInfo hout.le_end).2 hout.last
    · have hle := hout.le_end
      exact GroupedSet.mem_identifiers_removeGroup.2 ⟨by omega, hout.indexed⟩

theorem sum_range_ite {number count amount : Nat} (h : number < count) :
    ((List.range count).map fun n => if number = n then amount else 0).sum = amount := by
  have hsum : ((List.range count).map fun n => if number = n then amount else 0).sum =
      ∑ n ∈ Finset.range count, if number = n then amount else 0 := rfl
  rw [hsum, Finset.sum_ite_eq, if_pos (Finset.mem_range.2 h)]

theorem sum_creditsOf {created : List (NumberedLockInfo Address MosaicId Hash)} (f : Credit Address MosaicId → Nat)
    (hnumbers : created.map (fun lockInfo => lockInfo.number) = List.range created.length)
    {credits : Multiset (Credit Address MosaicId)} (hcredits : ∀ credit ∈ credits, credit.number < created.length) :
    (created.map fun lockInfo => ((credits.filter fun credit => credit.number = lockInfo.number).map f).sum).sum =
      (credits.map f).sum := by
  induction credits using Multiset.induction_on with
  | empty => simp
  | cons credit credits ih =>
    have hone : (created.map fun lockInfo => if credit.number = lockInfo.number then f credit else 0).sum =
      f credit := by
      have hmap : (created.map fun lockInfo => if credit.number = lockInfo.number then f credit else 0) =
          (created.map fun lockInfo => lockInfo.number).map fun n => if credit.number = n then f credit else 0 := by
        simp [List.map_map, Function.comp_def]
      rw [hmap, hnumbers]
      exact sum_range_ite (hcredits credit (Multiset.mem_cons_self _ _))
    have hsplit : ∀ lockInfo : NumberedLockInfo Address MosaicId Hash,
        (((credit ::ₘ credits).filter fun credit => credit.number = lockInfo.number).map f).sum =
          (if credit.number = lockInfo.number then f credit else 0) +
            ((credits.filter fun credit => credit.number = lockInfo.number).map f).sum := by
      intro lockInfo
      by_cases heq : credit.number = lockInfo.number <;> simp [heq]
    simp only [hsplit, List.sum_map_add, hone, Multiset.map_cons, Multiset.sum_cons]
    rw [ih fun credit hmem => hcredits credit (Multiset.mem_cons_of_mem hmem)]

variable [DecidableEq Address] [DecidableEq MosaicId] [DecidableEq Hash]

/-- The states that are reached from `initial`, at heights without fork overrides, when no lock is created in the block
in which the unused lock before it ends, and no end height exceeds the 64 bit values. -/
inductive Run (config : SecretLockConfiguration Address Hash) (initial : State Address MosaicId Hash) :
    State Address MosaicId Hash → Prop
  | start : Run config initial initial
  | secretLock {s : State Address MosaicId Hash} (notification : SecretLockNotification Address MosaicId Hash)
    (h : Run config initial s) (hvalid : s.validateSecretLock config notification = true)
    (hskip : s.height ∉ config.skipSecretLockUniquenessChecks) (hwrap : s.height + notification.duration < 2 ^ 64)
    (hrecent : ∀ lockInfo, (s.cache.history (config.calculateSecretLockInfoHash notification.secret
      notification.recipient)).getLast? = some lockInfo → lockInfo.status = .unused → lockInfo.endHeight ≠ s.height) :
    Run config initial (s.observeSecretLock config notification)
  | proof {s : State Address MosaicId Hash} (notification : ProofPublicationNotification Address Hash)
    (h : Run config initial s) (hvalid : s.validateProof config notification = true) :
    Run config initial (s.observeProof config notification)
  | block {s : State Address MosaicId Hash} (h : Run config initial s)
    (hskip : s.height ∉ config.skipSecretLockExpirations) (hforce : s.height ∉ config.forceSecretLockExpirations) :
    Run config initial (s.observeBlock config)
  | prune {s : State Address MosaicId Hash} {height : Nat} (h : Run config initial s) (hlt : height < s.height) :
    Run config initial (s.prune height)

def beginning (height : Nat) (balances : Address → MosaicId → Nat) : State Address MosaicId Hash :=
  ⟨height, .empty, balances, [], 0⟩

variable {height : Nat} {balances : Address → MosaicId → Nat}

omit [DecidableEq Address] [DecidableEq MosaicId] [DecidableEq Hash] in
theorem Sound.beginning : (beginning height balances : State Address MosaicId Hash).Sound := by
  refine ⟨rfl, ?_, ?_, ?_⟩
  · intro credit hcredit
    simp [State.beginning] at hcredit
  · intro id lockInfo hlast
    simp [State.beginning, LockInfoCache.history, LockInfoCache.empty] at hlast
  · intro lockInfo hmem
    simp [State.beginning] at hmem

theorem Run.sound (h : Run config (beginning height balances) s) : s.Sound := by
  induction h with
  | start => exact .beginning
  | secretLock notification _ hvalid hskip hwrap hrecent ih => exact ih.observeSecretLock hvalid hskip hwrap hrecent
  | proof notification _ hvalid ih => exact ih.observeProof hvalid
  | block _ hskip hforce ih => exact ih.observeBlock hskip hforce
  | prune _ hlt ih => exact ih.prune hlt

section Amounts

def amountOf (mosaicId' : MosaicId) (mosaicId : MosaicId) (amount : Nat) : Nat :=
  if mosaicId = mosaicId' then amount else 0

def createdAmount (s : State Address MosaicId Hash) (mosaicId : MosaicId) : Nat :=
  (s.created.map fun lockInfo => amountOf mosaicId lockInfo.mosaicId lockInfo.amount).sum

def creditedAmount (s : State Address MosaicId Hash) (mosaicId : MosaicId) : Nat :=
  (s.credits.map fun credit => amountOf mosaicId credit.mosaicId credit.amount).sum

omit [DecidableEq Hash] in
theorem Sound.createdAmount_eq (h : s.Sound) (mosaicId : MosaicId) :
    s.createdAmount mosaicId = s.unreleased mosaicId + s.creditedAmount mosaicId := by
  unfold createdAmount unreleased creditedAmount
  rw [← sum_creditsOf _ h.numbers h.credit_number, ← List.sum_map_add]
  congr 1
  apply List.map_congr_left
  intro lockInfo hmem
  rcases h.released lockInfo hmem with ⟨-, hzero⟩ | ⟨credit, hcredit, hreleases⟩
  · simp only [creditsOf] at hzero ⊢
    simp [hzero, amountOf]
  · simp only [creditsOf] at hcredit ⊢
    simp [hcredit, amountOf, hreleases.mosaicId, hreleases.amount]

theorem credit_debit {balances : Address → MosaicId → Nat} {address : Address} {mosaicId : MosaicId} {amount : Nat}
    (hle : amount ≤ balances address mosaicId) :
    credit (debit balances address mosaicId amount) address mosaicId amount = balances := by
  rw [credit, debit, Function.update_self, Function.update_self, Function.update_idem, Function.update_idem,
    Nat.sub_add_cancel hle, Function.update_eq_self, Function.update_eq_self]

variable [Fintype Address]

theorem totalBalance_credit (balances : Address → MosaicId → Nat) (address : Address) (mosaicId mosaicId' : MosaicId)
    (amount : Nat) : ∑ a, credit balances address mosaicId amount a mosaicId' =
      (∑ a, balances a mosaicId') + amountOf mosaicId' mosaicId amount := by
  rw [← Finset.add_sum_erase _ _ (Finset.mem_univ address), ← Finset.add_sum_erase _ (fun a => balances a mosaicId')
    (Finset.mem_univ address)]
  have hrest : ∑ a ∈ Finset.univ.erase address, credit balances address mosaicId amount a mosaicId' =
      ∑ a ∈ Finset.univ.erase address, balances a mosaicId' :=
    Finset.sum_congr rfl fun a ha => by simp [credit, Finset.ne_of_mem_erase ha]
  rw [hrest]
  by_cases hmosaic : mosaicId = mosaicId'
  · subst hmosaic
    simp only [credit, Function.update_self, amountOf, if_true]
    omega
  · simp [credit, amountOf, hmosaic, Function.update_of_ne (Ne.symm hmosaic)]

theorem totalBalance_debit {balances : Address → MosaicId → Nat} {address : Address} {mosaicId : MosaicId}
    {amount : Nat} (hle : amount ≤ balances address mosaicId) (mosaicId' : MosaicId) :
    (∑ a, debit balances address mosaicId amount a mosaicId') + amountOf mosaicId' mosaicId amount =
      ∑ a, balances a mosaicId' := by
  rw [← totalBalance_credit, credit_debit hle]

omit [DecidableEq Hash] in
theorem sum_by_owner (expired : Multiset (NumberedLockInfo Address MosaicId Hash)) (mosaicId : MosaicId) :
    (∑ a, ((expired.filter fun lockInfo => lockInfo.ownerAddress = a ∧ lockInfo.mosaicId = mosaicId).map
      fun lockInfo => lockInfo.amount).sum) =
    (expired.map fun lockInfo => amountOf mosaicId lockInfo.mosaicId lockInfo.amount).sum := by
  induction expired using Multiset.induction_on with
  | empty => simp
  | cons lockInfo expired ih =>
    have hsplit : ∀ a, (((lockInfo ::ₘ expired).filter fun lockInfo =>
        lockInfo.ownerAddress = a ∧ lockInfo.mosaicId = mosaicId).map fun lockInfo => lockInfo.amount).sum =
        (if lockInfo.ownerAddress = a then amountOf mosaicId lockInfo.mosaicId lockInfo.amount else 0) +
          ((expired.filter fun lockInfo => lockInfo.ownerAddress = a ∧ lockInfo.mosaicId = mosaicId).map
            fun lockInfo => lockInfo.amount).sum := by
      intro a
      by_cases howner : lockInfo.ownerAddress = a <;> by_cases hmosaic : lockInfo.mosaicId = mosaicId <;>
        simp [howner, hmosaic, amountOf]
    simp [hsplit, Finset.sum_add_distrib, ih]

theorem Run.accountedFor (h : Run config (beginning height balances) s) (mosaicId : MosaicId) :
    s.totalBalance mosaicId + s.createdAmount mosaicId =
      (∑ address, balances address mosaicId) + s.creditedAmount mosaicId := by
  induction h with
  | start => simp [beginning, totalBalance, createdAmount, creditedAmount]
  | @secretLock s notification _ hvalid _ _ _ ih =>
    simp only [validateSecretLock, Bool.and_eq_true, decide_eq_true_eq] at hvalid
    have hdebit := totalBalance_debit hvalid.1.2 mosaicId
    have hcreated : (s.observeSecretLock config notification).createdAmount mosaicId =
        s.createdAmount mosaicId + amountOf mosaicId notification.mosaicId notification.amount := by
      simp [createdAmount, observeSecretLock, createLockInfo]
    have hbalance : (s.observeSecretLock config notification).totalBalance mosaicId +
        amountOf mosaicId notification.mosaicId notification.amount = s.totalBalance mosaicId := hdebit
    have hcredited : (s.observeSecretLock config notification).creditedAmount mosaicId = s.creditedAmount mosaicId :=
      rfl
    omega
  | @proof s notification _ hvalid ih =>
    obtain ⟨lockInfo, hlast, -⟩ := exists_of_validateProof hvalid
    unfold observeProof
    simp only [hlast]
    have hbalance := totalBalance_credit s.balances lockInfo.recipientAddress lockInfo.mosaicId mosaicId
      lockInfo.amount
    simp only [totalBalance, createdAmount, creditedAmount, Multiset.map_cons, Multiset.sum_cons] at ih ⊢
    omega
  | @block s _ _ _ ih =>
    have hbalance : (s.observeBlock config).totalBalance mosaicId = s.totalBalance mosaicId +
        ((s.expiredLocks config).map fun lockInfo => amountOf mosaicId lockInfo.mosaicId lockInfo.amount).sum := by
      rw [← sum_by_owner]
      exact Finset.sum_add_distrib
    have hcredited : (s.observeBlock config).creditedAmount mosaicId =
        ((s.expiredLocks config).map fun lockInfo => amountOf mosaicId lockInfo.mosaicId lockInfo.amount).sum +
          s.creditedAmount mosaicId := by
      simp [creditedAmount, observeBlock, Multiset.map_map]
    have hcreated : (s.observeBlock config).createdAmount mosaicId = s.createdAmount mosaicId := rfl
    omega
  | prune _ _ ih => exact ih

/-- After any run every created lock has been released at most once, every lock that has ended exactly once, and the
balances together with the locks that have not been released are what they were in the beginning. -/
theorem secret_locks_released_once (h : Run config (beginning height balances) s) :
    (∀ lockInfo ∈ s.created, (s.creditsOf lockInfo = 0 ∧ s.height ≤ lockInfo.endHeight) ∨
      ∃ credit, s.creditsOf lockInfo = {credit} ∧ Releases credit lockInfo) ∧
    ∀ mosaicId, s.totalBalance mosaicId + s.unreleased mosaicId = ∑ address, balances address mosaicId := by
  constructor
  · intro lockInfo hmem
    exact (h.sound.released lockInfo hmem).imp_left fun ⟨hout, hcredits⟩ => ⟨hcredits, hout.le_end⟩
  · intro mosaicId
    have haccounted := h.accountedFor mosaicId
    have hcreated := h.sound.createdAmount_eq mosaicId
    omega

end Amounts

def twoAccounts : SecretLockConfiguration (Fin 2) Nat := ⟨10, fun secret recipient => 2 * secret + recipient, ∅, ∅, ∅⟩

def lockFor (amount duration : Nat) : SecretLockNotification (Fin 2) Nat Nat :=
  ⟨0, 0, amount, duration, .opSha3_256, 7, 1⟩

def tenUnits : State (Fin 2) Nat Nat := beginning 1 fun address _ => if address = 0 then 10 else 0

def oneLock : State (Fin 2) Nat Nat := (tenUnits.observeSecretLock twoAccounts (lockFor 5 1)).observeBlock twoAccounts

theorem secret_locks_released_once_oneLock :
    (oneLock.observeBlock twoAccounts).totalBalance 0 + (oneLock.observeBlock twoAccounts).unreleased 0 = 10 := by
  have h : Run twoAccounts tenUnits (oneLock.observeBlock twoAccounts) := by
    refine .block (.block (.secretLock _ .start (by decide) (by decide) (by decide) ?_) (by decide) (by decide))
      (by decide) (by decide)
    intro lockInfo hlast
    cases hlast
  exact (secret_locks_released_once h).2 0

/-- A second lock in the block in which the first one ends is accepted, and the first one is not credited. -/
theorem first_lock_not_released :
    tenUnits.validateSecretLock twoAccounts (lockFor 5 1) = true ∧
    oneLock.validateSecretLock twoAccounts (lockFor 3 5) = true ∧
    ∃ lockInfo ∈ ((oneLock.observeSecretLock twoAccounts (lockFor 3 5)).observeBlock twoAccounts).created,
      lockInfo.endHeight < ((oneLock.observeSecretLock twoAccounts (lockFor 3 5)).observeBlock twoAccounts).height ∧
      ((oneLock.observeSecretLock twoAccounts (lockFor 3 5)).observeBlock twoAccounts).creditsOf lockInfo = 0 := by
  refine ⟨by decide, by decide, tenUnits.createLockInfo twoAccounts (lockFor 5 1), by decide, by decide, by decide⟩

end State
end Catapult.Lock
