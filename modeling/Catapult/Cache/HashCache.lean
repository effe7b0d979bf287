import Mathlib.Data.List.Chain
import Mathlib.Data.UInt

/-!
# No transaction is confirmed twice (`HashCache`)

The hash cache has the deadlines and hashes of the transactions of the chain, without those whose deadline is before
the local finalized time less the retention time. No block above the finalized one takes a transaction with such a
deadline, so what was pruned is missed neither by the validator nor by a rollback.
-/

namespace Catapult.HashCache

/-- What the notifications of a transaction have of it. A maximum lifetime of zero stands for the configured one. -/
structure Transaction (Hash : Type) where
  deadline : UInt64
  maxLifetime : UInt64
  hash : Hash

structure Block (Hash : Type) where
  height : Nat
  timestamp : UInt64
  transactions : List (Transaction Hash)

structure Configuration where
  maxTransactionLifetime : UInt64
  retentionTime : UInt64

abbrev TimestampedHash (Hash : Type) := UInt64 × Hash

def Transaction.timestampedHash {Hash : Type} (transaction : Transaction Hash) : TimestampedHash Hash :=
  (transaction.deadline, transaction.hash)

inductive ValidationResult where
  | success
  | hashAlreadyExists
  | pastDeadline
  | futureDeadline
  deriving DecidableEq

variable {Hash : Type} [DecidableEq Hash]

def validateTransactionDeadline (timestamp deadline maxTransactionLifetime : UInt64) : ValidationResult :=
  if deadline < timestamp then .pastDeadline
  else if timestamp + maxTransactionLifetime < deadline then .futureDeadline
  else .success

def validateDeadline (config : Configuration) (blockTime : UInt64) (transaction : Transaction Hash) :
    ValidationResult :=
  validateTransactionDeadline blockTime transaction.deadline
    (if transaction.maxLifetime = 0 then config.maxTransactionLifetime else transaction.maxLifetime)

abbrev Cache (Hash : Type) := Finset (TimestampedHash Hash)

def validateUniqueTransactionHash (cache : Cache Hash) (transaction : Transaction Hash) : ValidationResult :=
  if transaction.timestampedHash ∈ cache then .hashAlreadyExists else .success

/-- Throws when the element is already there. -/
def insert (cache : Cache Hash) (key : TimestampedHash Hash) : Option (Cache Hash) :=
  if key ∈ cache then none else some (Insert.insert key cache)

/-- Throws when the element is not there. -/
def remove (cache : Cache Hash) (key : TimestampedHash Hash) : Option (Cache Hash) :=
  if key ∈ cache then some (cache.erase key) else none

/-- The pruning boundary is an element with a hash of zeros; what is before it is removed by the commit. -/
def prune (config : Configuration) (timestamp : UInt64) (cache : Cache Hash) : Cache Hash :=
  let pruneTime := if timestamp < config.retentionTime then 0 else timestamp - config.retentionTime
  cache.filter fun key => pruneTime ≤ key.1

/-- The validators of a transaction and then its observer, with the transactions before it in the cache. -/
def executeTransaction (config : Configuration) (blockTime : UInt64) (cache : Cache Hash)
    (transaction : Transaction Hash) : Option (Cache Hash) :=
  if validateDeadline config blockTime transaction = .success ∧
      validateUniqueTransactionHash cache transaction = .success then
    insert cache transaction.timestampedHash
  else none

def executeBlock (config : Configuration) (cache : Cache Hash) (block : Block Hash) : Option (Cache Hash) :=
  block.transactions.foldlM (executeTransaction config block.timestamp) cache

def rollbackBlock (cache : Cache Hash) (block : Block Hash) : Option (Cache Hash) :=
  block.transactions.reverse.foldlM (fun cache transaction => remove cache transaction.timestampedHash) cache

def IsLinked (parent child : Block Hash) : Prop :=
  child.height = parent.height + 1 ∧ parent.timestamp < child.timestamp

/-- The last block comes first. -/
structure State (Hash : Type) where
  chain : List (Block Hash)
  cache : Cache Hash
  localFinalizedHeight : Nat

/-- The nemesis block is observed without validation. A switch of `BlockchainSyncConsumer` replaces the blocks above
a common block and prunes the cache at the time of the local finalized block, whose height never decreases. The common
block is not before it; the consumer goes back further only for the block that the network has finalized, which is left
out here. -/
inductive Reachable (config : Configuration) : State Hash → Prop
  | nemesis (block : Block Hash) {cache : Cache Hash} (hheight : block.height = 1)
    (hcache : block.transactions.foldlM (fun cache transaction => insert cache transaction.timestampedHash) ∅ =
      some cache) :
    Reachable config ⟨[block], cache, 1⟩
  | switch {undone older elements : List (Block Hash)} {common finalized : Block Hash}
    {cache unwound cache' : Cache Hash} {height : Nat} (h : Reachable config ⟨undone ++ common :: older, cache, height⟩)
    (hfinalized : finalized ∈ common :: older) (hheight : height ≤ finalized.height)
    (hlinked : (common :: elements).IsChain IsLinked) (hunwound : undone.foldlM rollbackBlock cache = some unwound)
    (hcache : elements.foldlM (executeBlock config) unwound = some cache') :
    Reachable config ⟨elements.reverse ++ common :: older, prune config finalized.timestamp cache', finalized.height⟩

omit [DecidableEq Hash] in
theorem le_of_validateDeadline {config : Configuration} {blockTime : UInt64} {transaction : Transaction Hash}
    (h : validateDeadline config blockTime transaction = .success) : blockTime ≤ transaction.deadline := by
  rw [validateDeadline, validateTransactionDeadline] at h
  split at h
  · cases h
  · rename_i hnot
    exact UInt64.not_lt.1 hnot

/-- The last transaction of the last block comes first. -/
def keys (chain : List (Block Hash)) : List (TimestampedHash Hash) :=
  chain.flatMap fun block => block.transactions.reverse.map Transaction.timestampedHash

/-- The transactions are all different, and the cache has the ones with a deadline that is kept. -/
structure Holds (kept : UInt64 → Prop) (keys : List (TimestampedHash Hash)) (cache : Cache Hash) : Prop where
  nodup : keys.Nodup
  mem_iff : ∀ key, key ∈ cache ↔ key ∈ keys ∧ kept key.1

namespace Holds
variable {config : Configuration} {kept : UInt64 → Prop} {old : List (TimestampedHash Hash)} {cache cache' : Cache Hash}
  {key : TimestampedHash Hash} {chain : List (Block Hash)}

theorem insert (h : Holds kept old cache) (hkept : kept key.1) (hinsert : insert cache key = some cache') :
    Holds kept (key :: old) cache' := by
  rw [HashCache.insert] at hinsert
  split at hinsert
  · cases hinsert
  · rename_i hnot
    cases hinsert
    refine ⟨List.nodup_cons.2 ⟨fun hmem => hnot ((h.mem_iff key).2 ⟨hmem, hkept⟩), h.nodup⟩, fun k => ?_⟩
    have hkey : k = key → kept k.1 := fun heq => heq ▸ hkept
    rw [Finset.mem_insert, h.mem_iff, List.mem_cons, or_and_right, and_iff_left_of_imp hkey]

theorem remove (h : Holds kept (key :: old) cache) (hkept : kept key.1) :
    ∃ cache', remove cache key = some cache' ∧ Holds kept old cache' := by
  obtain ⟨hnot, hnodup⟩ := List.nodup_cons.1 h.nodup
  refine ⟨cache.erase key, if_pos ((h.mem_iff key).2 ⟨List.mem_cons_self, hkept⟩), hnodup, fun k => ?_⟩
  rw [Finset.mem_erase, h.mem_iff, List.mem_cons, ← and_assoc]
  exact and_congr_left fun _ => ⟨fun h => h.2.resolve_left h.1, fun hmem => ⟨fun heq => hnot (heq ▸ hmem), .inr hmem⟩⟩

omit [DecidableEq Hash] in
theorem prune (h : Holds kept old cache) (config : Configuration) (timestamp : UInt64) :
    ∃ pruneTime ≤ timestamp, Holds (fun d => kept d ∧ pruneTime ≤ d) old (prune config timestamp cache) := by
  refine ⟨if timestamp < config.retentionTime then 0 else timestamp - config.retentionTime, ?_, h.nodup, fun k => ?_⟩
  · split
    · exact UInt64.zero_le
    · rename_i hnot
      rw [UInt64.le_iff_toNat_le, UInt64.toNat_sub_of_le _ _ (UInt64.not_lt.1 hnot)]
      exact Nat.sub_le _ _
  · rw [HashCache.prune, Finset.mem_filter, h.mem_iff, and_assoc]

/-- By induction on the transactions, each of which has the property when it is inserted by a step. -/
theorem observe {step : Cache Hash → Transaction Hash → Option (Cache Hash)} {P : Transaction Hash → Prop}
    (hkept : ∀ transaction, P transaction → kept transaction.deadline)
    (hstep : ∀ cache transaction cache', step cache transaction = some cache' →
      P transaction ∧ HashCache.insert cache transaction.timestampedHash = some cache')
    {transactions : List (Transaction Hash)} (h : Holds kept old cache)
    (hfold : transactions.foldlM step cache = some cache') :
    Holds kept (transactions.reverse.map Transaction.timestampedHash ++ old) cache' ∧
      ∀ transaction ∈ transactions, P transaction := by
  induction transactions generalizing old cache with
  | nil =>
    cases hfold
    exact ⟨h, List.forall_mem_nil _⟩
  | cons transaction transactions ih =>
    obtain ⟨next, hnext, hrest⟩ := Option.bind_eq_some_iff.1 hfold
    obtain ⟨hP, hinsert⟩ := hstep _ _ _ hnext
    obtain ⟨hholds, hall⟩ := ih (h.insert (hkept _ hP) hinsert) hrest
    rw [List.reverse_cons, List.map_append, List.append_assoc]
    exact ⟨hholds, List.forall_mem_cons.2 ⟨hP, hall⟩⟩

theorem executeBlocks {elements : List (Block Hash)} (h : Holds kept (keys chain) cache)
    (hkept : ∀ block ∈ elements, ∀ d, block.timestamp ≤ d → kept d)
    (hexecute : elements.foldlM (executeBlock config) cache = some cache') :
    Holds kept (keys (elements.reverse ++ chain)) cache' ∧
      ∀ block ∈ elements, ∀ transaction ∈ block.transactions, block.timestamp ≤ transaction.deadline := by
  induction elements generalizing chain cache with
  | nil =>
    cases hexecute
    exact ⟨h, List.forall_mem_nil _⟩
  | cons block elements ih =>
    obtain ⟨next, hnext, hrest⟩ := Option.bind_eq_some_iff.1 hexecute
    obtain ⟨hfirst, helements⟩ := List.forall_mem_cons.1 hkept
    have hstep : ∀ (cache : Cache Hash) transaction cache',
        executeTransaction config block.timestamp cache transaction = some cache' →
          block.timestamp ≤ transaction.deadline ∧
            HashCache.insert cache transaction.timestampedHash = some cache' := by
      intro cache transaction cache' htransaction
      rw [executeTransaction] at htransaction
      split at htransaction
      · rename_i hvalid
        exact ⟨le_of_validateDeadline hvalid.1, htransaction⟩
      · cases htransaction
    obtain ⟨hholds, hdeadlines⟩ := h.observe (fun _ => hfirst _) hstep hnext
    obtain ⟨hholds', hall⟩ := ih (show Holds kept (keys (block :: chain)) next from hholds) helements hrest
    rw [List.reverse_cons, List.append_assoc]
    exact ⟨hholds', List.forall_mem_cons.2 ⟨hdeadlines, hall⟩⟩

theorem rollbackTransactions {transactions : List (Transaction Hash)}
    (hkept : ∀ transaction ∈ transactions, kept transaction.deadline)
    (h : Holds kept (transactions.map Transaction.timestampedHash ++ old) cache) :
    ∃ cache', transactions.foldlM (fun cache transaction => HashCache.remove cache transaction.timestampedHash) cache =
      some cache' ∧ Holds kept old cache' := by
  induction transactions generalizing cache with
  | nil => exact ⟨cache, rfl, h⟩
  | cons transaction transactions ih =>
    obtain ⟨hfirst, htransactions⟩ := List.forall_mem_cons.1 hkept
    obtain ⟨next, hnext, hholds⟩ := h.remove hfirst
    obtain ⟨cache', hrest, hholds'⟩ := ih htransactions hholds
    exact ⟨cache', by rw [List.foldlM_cons, hnext]; exact hrest, hholds'⟩

theorem rollbackBlocks {undone : List (Block Hash)} (h : Holds kept (keys (undone ++ chain)) cache)
    (hkept : ∀ block ∈ undone, ∀ transaction ∈ block.transactions, kept transaction.deadline) :
    ∃ cache', undone.foldlM rollbackBlock cache = some cache' ∧ Holds kept (keys chain) cache' := by
  induction undone generalizing cache with
  | nil => exact ⟨cache, rfl, h⟩
  | cons block undone ih =>
    obtain ⟨hfirst, hundone⟩ := List.forall_mem_cons.1 hkept
    rw [List.cons_append, keys, List.flatMap_cons] at h
    obtain ⟨next, hnext, hholds⟩ := rollbackTransactions (fun t hmem => hfirst t (List.mem_reverse.1 hmem)) h
    obtain ⟨cache', hrest, hholds'⟩ := ih hholds hundone
    exact ⟨cache', by rw [List.foldlM_cons, rollbackBlock, hnext]; exact hrest, hholds'⟩

end Holds

def IsNewer (block older : Block Hash) : Prop := older.height < block.height ∧ older.timestamp < block.timestamp

omit [DecidableEq Hash] in
theorem isNewer_append {common : Block Hash} {elements older : List (Block Hash)}
    (hlinked : (common :: elements).IsChain IsLinked) (hordered : (common :: older).Pairwise IsNewer) :
    (elements.reverse ++ common :: older).Pairwise IsNewer := by
  induction elements generalizing common older with
  | nil => exact hordered
  | cons block elements ih =>
    obtain ⟨⟨hheight, htime⟩, htail⟩ := List.isChain_cons_cons.1 hlinked
    have hnext : IsNewer block common := ⟨by omega, htime⟩
    rw [List.reverse_cons, List.append_assoc]
    refine ih htail (List.pairwise_cons.2 ⟨fun b hb => ?_, hordered⟩)
    rcases List.mem_cons.1 hb with rfl | hb
    · exact hnext
    · have hb := (List.pairwise_cons.1 hordered).1 b hb
      exact ⟨hb.1.trans hnext.1, UInt64.lt_trans hb.2 hnext.2⟩

omit [DecidableEq Hash] in
theorem timestamp_le {chain : List (Block Hash)} {a b : Block Hash} (hordered : chain.Pairwise IsNewer) (ha : a ∈ chain)
    (hb : b ∈ chain) (hle : a.height ≤ b.height) : a.timestamp ≤ b.timestamp := by
  obtain ⟨newer, older, rfl⟩ := List.append_of_mem ha
  obtain ⟨-, htail, hnewer⟩ := List.pairwise_append.1 hordered
  rcases List.mem_append.1 hb with hb | hb
  · exact UInt64.le_of_lt (hnewer b hb a List.mem_cons_self).2
  rcases List.mem_cons.1 hb with rfl | hb
  · exact UInt64.le_refl _
  · exact absurd ((List.pairwise_cons.1 htail).1 b hb).1 (Nat.not_lt.2 hle)

/-- The transactions of the blocks above the finalized one are in the cache. -/
structure Sound (state : State Hash) : Prop where
  ordered : state.chain.Pairwise IsNewer
  deadlines : ∀ block ∈ state.chain, state.localFinalizedHeight < block.height →
    ∀ transaction ∈ block.transactions, block.timestamp ≤ transaction.deadline
  finalized : ∃ block ∈ state.chain, state.localFinalizedHeight ≤ block.height
  holds : ∃ kept, Holds kept (keys state.chain) state.cache ∧
    ∀ block ∈ state.chain, state.localFinalizedHeight ≤ block.height → ∀ d, block.timestamp ≤ d → kept d

section Sound
variable {config : Configuration} {state : State Hash}

theorem Sound.rollbackBlocks (h : Sound state) {undone chain : List (Block Hash)}
    (hchain : undone ++ chain = state.chain) (habove : ∀ block ∈ undone, state.localFinalizedHeight < block.height) :
    ∃ kept cache, undone.foldlM rollbackBlock state.cache = some cache ∧ Holds kept (keys chain) cache ∧
      ∀ block ∈ chain, state.localFinalizedHeight ≤ block.height → ∀ d, block.timestamp ≤ d → kept d := by
  obtain ⟨kept, hholds, hkept⟩ := h.holds
  have hdeadlines := h.deadlines
  simp only [← hchain, List.mem_append] at hkept hholds hdeadlines
  obtain ⟨cache, hcache, hholds'⟩ := hholds.rollbackBlocks fun block hmem transaction htransaction =>
    hkept block (.inl hmem) (habove block hmem).le _ (hdeadlines block (.inl hmem) (habove block hmem) _ htransaction)
  exact ⟨kept, cache, hcache, hholds', fun block hmem => hkept block (.inr hmem)⟩

theorem Reachable.sound (h : Reachable config state) : Sound state := by
  induction h with
  | nemesis block hheight hcache =>
    have hempty : Holds (fun _ => True) [] (∅ : Cache Hash) := ⟨List.nodup_nil, fun _ => by simp⟩
    obtain ⟨hholds, -⟩ := hempty.observe (fun _ (_ : True) => trivial) (fun _ _ _ h => ⟨trivial, h⟩) hcache
    refine ⟨List.pairwise_singleton _ _, fun b hmem hlt => ?_, ⟨block, List.mem_singleton_self _, hheight.ge⟩, _,
      by rwa [keys, List.flatMap_singleton, ← List.append_nil (List.map _ _)], fun _ _ _ _ _ => trivial⟩
    rw [List.mem_singleton.1 hmem, hheight] at hlt
    exact absurd hlt (Nat.lt_irrefl _)
  | @switch _ _ elements common finalized _ _ _ _ _ hfinalized hheight hlinked hunwound hcache ih =>
    obtain ⟨-, holder, habove⟩ := List.pairwise_append.1 ih.ordered
    have hcommon : finalized.height ≤ common.height := by
      rcases List.mem_cons.1 hfinalized with rfl | hmem
      · exact Nat.le_refl _
      · exact ((List.pairwise_cons.1 holder).1 _ hmem).1.le
    have hordered := isNewer_append hlinked holder
    obtain ⟨kept, unwound', hunwound', hholds, hkept⟩ := ih.rollbackBlocks rfl fun block hmem =>
      (hheight.trans hcommon).trans_lt (habove block hmem common List.mem_cons_self).1
    cases hunwound.symm.trans hunwound'
    have hnew : ∀ block ∈ elements, ∀ d, block.timestamp ≤ d → kept d := fun block hmem d hd =>
      hkept common List.mem_cons_self (hheight.trans hcommon) d (UInt64.le_trans (UInt64.le_of_lt
        ((List.pairwise_append.1 hordered).2.2 block (List.mem_reverse.2 hmem) common List.mem_cons_self).2) hd)
    obtain ⟨hholds', hdeadlines⟩ := hholds.executeBlocks hnew hcache
    obtain ⟨pruneTime, hprune, hpruned⟩ := hholds'.prune config finalized.timestamp
    have hmem := List.mem_append_right elements.reverse hfinalized
    refine ⟨hordered, fun block hblock hlt => ?_, ⟨finalized, hmem, Nat.le_refl _⟩, _, hpruned,
      fun block hblock hge d hd => ⟨?_, ?_⟩⟩
    · rcases List.mem_append.1 hblock with hblock | hblock
      · exact hdeadlines block (List.mem_reverse.1 hblock)
      · exact ih.deadlines block (List.mem_append_right _ hblock) (hheight.trans_lt hlt)
    · rcases List.mem_append.1 hblock with hblock | hblock
      · exact hnew block (List.mem_reverse.1 hblock) d hd
      · exact hkept block hblock (hheight.trans hge) d hd
    · exact UInt64.le_trans hprune (UInt64.le_trans (timestamp_le hordered hmem hblock hge) hd)

/-- However the chain is switched and the cache pruned: no transaction is in the chain twice, the blocks above the
finalized one can be undone without an exception, and of the transactions in time for a further block the validator
rejects those that are in the chain and no others. -/
theorem Reachable.never_replayed (h : Reachable config state) : (keys state.chain).Nodup ∧
    (∀ undone chain, undone ++ chain = state.chain → (∀ block ∈ undone, state.localFinalizedHeight < block.height) →
      (undone.foldlM rollbackBlock state.cache).isSome) ∧
    ∀ blockTime transaction, (∀ block ∈ state.chain, block.timestamp ≤ blockTime) →
      validateDeadline config blockTime transaction = .success →
        (validateUniqueTransactionHash state.cache transaction = .success ↔
          transaction.timestampedHash ∉ keys state.chain) := by
  obtain ⟨kept, hholds, hkept⟩ := h.sound.holds
  refine ⟨hholds.nodup, fun undone chain hchain habove => ?_, fun blockTime transaction htime hvalid => ?_⟩
  · obtain ⟨kept', cache, hcache, -⟩ := h.sound.rollbackBlocks hchain habove
    rw [hcache]
    rfl
  · obtain ⟨block, hblock, hheight⟩ := h.sound.finalized
    have hdeadline := UInt64.le_trans (htime block hblock) (le_of_validateDeadline hvalid)
    have hmem := (hholds.mem_iff transaction.timestampedHash).trans
      (and_iff_left (hkept block hblock hheight _ hdeadline))
    rw [← hmem, validateUniqueTransactionHash]
    split <;> simp_all

def fourBlocks : State Nat where
  chain := [⟨4, 20, [⟨25, 0, 7⟩]⟩, ⟨3, 16, [⟨20, 0, 9⟩]⟩, ⟨2, 10, [⟨15, 0, 7⟩, ⟨12, 0, 7⟩]⟩, ⟨1, 0, []⟩]
  cache := {(15, 7), (20, 9), (25, 7)}
  localFinalizedHeight := 3

/-- The first block of height 3 is replaced; the last switch prunes the deadline 12. -/
theorem reachable_fourBlocks : Reachable ⟨100, 2⟩ fourBlocks := by
  have hnemesis : Reachable ⟨100, 2⟩ (⟨[⟨1, 0, []⟩], ∅, 1⟩ : State Nat) := .nemesis ⟨1, 0, []⟩ rfl rfl
  have hblocks := @Reachable.switch Nat _ _ [] [] [⟨2, 10, [⟨15, 0, 7⟩, ⟨12, 0, 7⟩]⟩, ⟨3, 14, [⟨14, 0, 8⟩, ⟨20, 0, 9⟩]⟩]
    _ _ _ _ {(15, 7), (12, 7), (14, 8), (20, 9)} _ hnemesis List.mem_cons_self (Nat.le_refl _) (by simp [IsLinked]) rfl
    (by decide)
  have hreplaced := @Reachable.switch Nat _ _ [⟨3, 14, [⟨14, 0, 8⟩, ⟨20, 0, 9⟩]⟩] [⟨1, 0, []⟩] [⟨3, 16, [⟨20, 0, 9⟩]⟩]
    ⟨2, 10, [⟨15, 0, 7⟩, ⟨12, 0, 7⟩]⟩ ⟨1, 0, []⟩ _ {(15, 7), (12, 7)} {(15, 7), (12, 7), (20, 9)} _ hblocks (by simp)
    (Nat.le_refl _) (by simp [IsLinked]) (by decide) (by decide)
  exact @Reachable.switch Nat _ _ [] [⟨2, 10, [⟨15, 0, 7⟩, ⟨12, 0, 7⟩]⟩, ⟨1, 0, []⟩] [⟨4, 20, [⟨25, 0, 7⟩]⟩]
    ⟨3, 16, [⟨20, 0, 9⟩]⟩ _ _ _ {(15, 7), (12, 7), (20, 9), (25, 7)} _ hreplaced List.mem_cons_self (by decide)
    (by simp [IsLinked]) rfl (by decide)

theorem never_replayed_sample : Reachable ⟨100, 2⟩ fourBlocks ∧ (12, 7) ∉ fourBlocks.cache ∧
    (keys fourBlocks.chain).Nodup ∧ ([⟨4, 20, [⟨25, 0, 7⟩]⟩].foldlM rollbackBlock fourBlocks.cache).isSome ∧
    (validateUniqueTransactionHash fourBlocks.cache ⟨20, 0, 9⟩ = .success ↔ (20, 9) ∉ keys fourBlocks.chain) := by
  obtain ⟨hnodup, hundo, hunique⟩ := reachable_fourBlocks.never_replayed
  exact ⟨reachable_fourBlocks, by decide, hnodup, hundo _ _ rfl (by decide),
    hunique 20 ⟨20, 0, 9⟩ (by decide) (by decide)⟩

end Sound
end Catapult.HashCache
