import Catapult.Lib.Fuel
import Catapult.Lib.SortedMap
import Catapult.PartialTransactions.PtUpdater
import Mathlib.Data.Finset.Sort
import Mathlib.Data.Prod.Lex

/-!
# Accounting of the partial transactions cache

The cache has the transactions by their hashes, an index of the deadlines, and the number of bytes of what it has.
Cosignatures are added although the cache is full, so the number of bytes can exceed the maximum.

`sha3` is the hash of the cosignatures of an entry; `Signature` is what a cosignature has apart from its signer.
-/

namespace Catapult.CacheTx
open Catapult.Chain (add64 sub64 add64_eq sub64_eq)
open Catapult.PartialTransactions (Cosignature hasCosignatory cosignatureSize)
open Catapult.PartialTransactions.Cache (insertSorted)

structure TransactionInfo (Hash : Type) where
  entityHash : Hash
  size : UInt32
  deadline : Nat

structure PtData (Hash Key Signature : Type) where
  transactionInfo : TransactionInfo Hash
  cosignaturesHash : Hash
  cosignatures : List (Cosignature Key Signature)

abbrev TimestampedHash (Hash : Type) := Nat ×ₗ Hash

structure MemoryPtCache (Hash Key Signature : Type) [LinearOrder Hash] where
  transactionDataContainer : SortedMap Hash (PtData Hash Key Signature) := ∅
  timestampedHashes : Finset (TimestampedHash Hash) := ∅
  cacheSize : Nat := 0

variable {Hash Key Signature : Type}

namespace PtData

/-- The hash is initialized with zeros. -/
def ofTransaction [Zero Hash] (transactionInfo : TransactionInfo Hash) : PtData Hash Key Signature :=
  ⟨transactionInfo, 0, []⟩

def timestampedHash (data : PtData Hash Key Signature) : TimestampedHash Hash :=
  toLex (data.transactionInfo.deadline, data.transactionInfo.entityHash)

def size (data : PtData Hash Key Signature) : Nat :=
  data.transactionInfo.size.toNat + cosignatureSize * data.cosignatures.length

def add [LinearOrder Key] (sha3 : List (Cosignature Key Signature) → Hash) (cosignature : Cosignature Key Signature)
    (data : PtData Hash Key Signature) : Option (PtData Hash Key Signature) :=
  if hasCosignatory data.cosignatures cosignature.signer then none
  else
    let cosignatures := insertSorted cosignature data.cosignatures
    some { data with cosignatures := cosignatures, cosignaturesHash := sha3 cosignatures }

end PtData

variable [LinearOrder Hash]

namespace MemoryPtCache

def add [Zero Hash] (maxCacheSize : UInt64) (cache : MemoryPtCache Hash Key Signature)
    (transactionInfo : TransactionInfo Hash) : Option (MemoryPtCache Hash Key Signature) :=
  if sub64 maxCacheSize.toNat cache.cacheSize < transactionInfo.size.toNat then none
  else if (cache.transactionDataContainer.find? transactionInfo.entityHash).isSome then none
  else
    some
      { transactionDataContainer :=
          cache.transactionDataContainer.insert transactionInfo.entityHash (.ofTransaction transactionInfo)
        timestampedHashes :=
          insert (toLex (transactionInfo.deadline, transactionInfo.entityHash)) cache.timestampedHashes
        cacheSize := add64 cache.cacheSize transactionInfo.size.toNat }

def addCosignature [LinearOrder Key] (sha3 : List (Cosignature Key Signature) → Hash)
    (cache : MemoryPtCache Hash Key Signature) (parentHash : Hash) (cosignature : Cosignature Key Signature) :
    Option (TransactionInfo Hash × MemoryPtCache Hash Key Signature) := do
  let data ← cache.transactionDataContainer.find? parentHash
  let data ← data.add sha3 cosignature
  return (data.transactionInfo,
    { cache with
      transactionDataContainer := cache.transactionDataContainer.insert parentHash data
      cacheSize := add64 cache.cacheSize cosignatureSize })

/-- `remove(iter)`. -/
def erase (cache : MemoryPtCache Hash Key Signature) (hash : Hash) (data : PtData Hash Key Signature) :
    MemoryPtCache Hash Key Signature where
  timestampedHashes := cache.timestampedHashes.erase data.timestampedHash
  cacheSize := sub64 cache.cacheSize data.size
  transactionDataContainer := cache.transactionDataContainer.erase hash

def remove (cache : MemoryPtCache Hash Key Signature) (hash : Hash) :
    Option (TransactionInfo Hash × MemoryPtCache Hash Key Signature) :=
  (cache.transactionDataContainer.find? hash).map fun data => (data.transactionInfo, cache.erase hash data)

/-- The entry of an index is taken for granted; without it there is no result. -/
def prune (timestamp : Nat) : Nat → MemoryPtCache Hash Key Signature →
    Option (List (TransactionInfo Hash) × MemoryPtCache Hash Key Signature)
  | 0, _ => none
  | fuel + 1, cache =>
    match cache.timestampedHashes.sort.head? with
    | none => some ([], cache)
    | some timestampedHash =>
      if timestamp < (ofLex timestampedHash).1 then some ([], cache)
      else do
        let data ← cache.transactionDataContainer.find? (ofLex timestampedHash).2
        let (prunedInfos, cache) ← prune timestamp fuel (cache.erase (ofLex timestampedHash).2 data)
        return (data.transactionInfo :: prunedInfos, cache)

/-- One turn of the loop of `pruneIf`. -/
def pruneEntry (hashPredicate : Hash → Bool)
    (pruned : List (TransactionInfo Hash) × MemoryPtCache Hash Key Signature)
    (entry : Hash × PtData Hash Key Signature) : List (TransactionInfo Hash) × MemoryPtCache Hash Key Signature :=
  if hashPredicate entry.2.transactionInfo.entityHash then
    (pruned.1 ++ [entry.2.transactionInfo], pruned.2.erase entry.1 entry.2)
  else pruned

/-- `prune` with a predicate. -/
def pruneIf (hashPredicate : Hash → Bool) (cache : MemoryPtCache Hash Key Signature) :
    List (TransactionInfo Hash) × MemoryPtCache Hash Key Signature :=
  cache.transactionDataContainer.entries.foldl (pruneEntry hashPredicate) ([], cache)

end MemoryPtCache

inductive PtOperation (Hash Key Signature : Type) where
  | addTransaction (transactionInfo : TransactionInfo Hash)
  | addCosignature (parentHash : Hash) (cosignature : Cosignature Key Signature)
  | remove (hash : Hash)
  | prune (timestamp : Nat)
  | pruneIf (hashPredicate : Hash → Bool)

/-- What an operation has added. -/
inductive PtEvent (Hash Key Signature : Type) where
  | transactionAdded (hash : Hash)
  | cosignatureAdded (parentHash : Hash) (cosignature : Cosignature Key Signature)

section Runs
variable [LinearOrder Key] [Zero Hash] (sha3 : List (Cosignature Key Signature) → Hash) (maxCacheSize : UInt64)

def PtOperation.apply (cache : MemoryPtCache Hash Key Signature) (fuel : Nat) :
    PtOperation Hash Key Signature → Option (Option (PtEvent Hash Key Signature) × MemoryPtCache Hash Key Signature)
  | addTransaction transactionInfo =>
    match cache.add maxCacheSize transactionInfo with
    | none => some (none, cache)
    | some added => some (some (.transactionAdded transactionInfo.entityHash), added)
  | addCosignature parentHash cosignature =>
    match cache.addCosignature sha3 parentHash cosignature with
    | none => some (none, cache)
    | some (_, added) => some (some (.cosignatureAdded parentHash cosignature), added)
  | remove hash => some (none, ((cache.remove hash).map Prod.snd).getD cache)
  | prune timestamp => do
    let pruned ← cache.prune timestamp fuel
    return (none, pruned.2)
  | pruneIf hashPredicate => some (none, (cache.pruneIf hashPredicate).2)

/-- An operation of a kind that is allowed in the state of the cache. -/
def PtStep (allowed : MemoryPtCache Hash Key Signature → PtOperation Hash Key Signature → Prop)
    (cache : MemoryPtCache Hash Key Signature) (event : Option (PtEvent Hash Key Signature))
    (cache' : MemoryPtCache Hash Key Signature) : Prop :=
  ∃ operation, allowed cache operation ∧
    Ends (fun fuel => operation.apply sha3 maxCacheSize cache fuel) (event, cache')

end Runs

def PtEvent.accept (hash : Hash) (accepted : List (Cosignature Key Signature)) :
    PtEvent Hash Key Signature → List (Cosignature Key Signature)
  | transactionAdded hash' => if hash' = hash then [] else accepted
  | cosignatureAdded parentHash cosignature => if parentHash = hash then accepted ++ [cosignature] else accepted

/-- The cosignatures of a transaction since it was added, as they arrived. -/
def acceptedCosignatures (hash : Hash) (history : List (PtEvent Hash Key Signature)) :
    List (Cosignature Key Signature) := history.foldl (PtEvent.accept hash) []

section Cosignatures
variable [LinearOrder Key] [Zero Hash] {sha3 : List (Cosignature Key Signature) → Hash}
  {cosignature : Cosignature Key Signature} {accepted accepted' cosignatures : List (Cosignature Key Signature)}
  {data data' : PtData Hash Key Signature}

structure PtData.Canonical (sha3 : List (Cosignature Key Signature) → Hash)
    (accepted : List (Cosignature Key Signature)) (data : PtData Hash Key Signature) : Prop where
  sorted : data.cosignatures.Pairwise fun a b => a.signer < b.signer
  accepted : ∀ cosignature, cosignature ∈ data.cosignatures ↔ cosignature ∈ accepted
  hash : data.cosignaturesHash = if data.cosignatures = [] then 0 else sha3 data.cosignatures

section
omit [LinearOrder Hash]

theorem mem_insertSorted {other : Cosignature Key Signature} :
    other ∈ insertSorted cosignature cosignatures ↔ other = cosignature ∨ other ∈ cosignatures :=
  List.mem_orderedInsert _

theorem pairwise_insertSorted (hsorted : cosignatures.Pairwise fun a b => a.signer < b.signer)
    (hnew : hasCosignatory cosignatures cosignature.signer = false) :
    (insertSorted cosignature cosignatures).Pairwise fun a b => a.signer < b.signer := by
  induction cosignatures with
  | nil => exact List.pairwise_singleton _ _
  | cons head rest ih =>
    obtain ⟨hhead, hrest⟩ := List.pairwise_cons.1 hsorted
    simp only [hasCosignatory, List.any_cons, Bool.or_eq_false_iff, decide_eq_false_iff_not] at hnew
    rw [insertSorted, List.orderedInsert]
    split
    · case isTrue hle =>
      have hlt : cosignature.signer < head.signer := (not_lt.1 hle).lt_of_ne hnew.1
      refine List.pairwise_cons.2 ⟨fun other hother => ?_, hsorted⟩
      rcases List.mem_cons.1 hother with rfl | hother
      · exact hlt
      · exact hlt.trans (hhead other hother)
    · case isFalse hlt =>
      refine List.pairwise_cons.2 ⟨fun other hother => ?_, ih hrest hnew.2⟩
      rcases mem_insertSorted.1 hother with rfl | hother
      · exact not_not.1 hlt
      · exact hhead other hother

theorem PtData.Canonical.ofTransaction (transactionInfo : TransactionInfo Hash) :
    (PtData.ofTransaction transactionInfo : PtData Hash Key Signature).Canonical sha3 [] :=
  ⟨List.Pairwise.nil, fun _ => Iff.rfl, rfl⟩

theorem PtData.Canonical.add (h : data.Canonical sha3 accepted) (hadd : data.add sha3 cosignature = some data') :
    data'.Canonical sha3 (accepted ++ [cosignature]) ∧ data'.transactionInfo = data.transactionInfo ∧
      data'.size = data.size + cosignatureSize := by
  rw [PtData.add] at hadd
  split at hadd
  · cases hadd
  · case isFalse hnew =>
    cases hadd
    have hne : insertSorted cosignature data.cosignatures ≠ [] :=
      List.ne_nil_of_mem (mem_insertSorted.2 (.inl rfl))
    refine ⟨⟨pairwise_insertSorted h.sorted (by simpa using hnew), fun other => ?_, (if_neg hne).symm⟩, rfl, ?_⟩
    · rw [mem_insertSorted, h.accepted, List.mem_append, List.mem_singleton, or_comm]
    · rw [PtData.size, PtData.size, insertSorted, List.orderedInsert_length, Nat.mul_succ, Nat.add_assoc]

theorem PtData.Canonical.unique (h : data.Canonical sha3 accepted) (h' : data'.Canonical sha3 accepted')
    (haccepted : ∀ cosignature, cosignature ∈ accepted ↔ cosignature ∈ accepted') :
    data.cosignatures = data'.cosignatures ∧ data.cosignaturesHash = data'.cosignaturesHash := by
  have hmem : ∀ cosignature, cosignature ∈ data.cosignatures ↔ cosignature ∈ data'.cosignatures := by
    intro cosignature
    rw [h.accepted, h'.accepted, haccepted]
  have hperm := (List.perm_ext_iff_of_nodup (h.sorted.imp fun hlt heq => hlt.ne (congrArg _ heq))
    (h'.sorted.imp fun hlt heq => hlt.ne (congrArg _ heq))).2 hmem
  have heq : data.cosignatures = data'.cosignatures :=
    hperm.eq_of_pairwise (fun a b _ _ hab hba => absurd hba hab.asymm) h.sorted h'.sorted
  exact ⟨heq, by rw [h.hash, h'.hash, heq]⟩

end

end Cosignatures

section Invariant
variable [LinearOrder Key] [Zero Hash] {sha3 : List (Cosignature Key Signature) → Hash} {maxCacheSize : UInt64}
  {history : List (PtEvent Hash Key Signature)} {cache cache' : MemoryPtCache Hash Key Signature}
  {transactionInfo : TransactionInfo Hash} {cosignature : Cosignature Key Signature} {hash : Hash}
  {data : PtData Hash Key Signature}

structure Consistent (sha3 : List (Cosignature Key Signature) → Hash) (history : List (PtEvent Hash Key Signature))
    (cache : MemoryPtCache Hash Key Signature) : Prop where
  cacheSize : cache.cacheSize = cache.transactionDataContainer.total fun _ data => data.size
  cacheSize_lt : cache.cacheSize < 2 ^ 64
  entityHash : ∀ {hash data}, cache.transactionDataContainer.find? hash = some data →
    data.transactionInfo.entityHash = hash
  timestampedHashes : ∀ timestamp hash, toLex (timestamp, hash) ∈ cache.timestampedHashes ↔
    ∃ data, cache.transactionDataContainer.find? hash = some data ∧ data.transactionInfo.deadline = timestamp
  canonical : ∀ {hash data}, cache.transactionDataContainer.find? hash = some data →
    data.Canonical sha3 (acceptedCosignatures hash history)

theorem consistent_empty : Consistent sha3 [] ({} : MemoryPtCache Hash Key Signature) where
  cacheSize := rfl
  cacheSize_lt := Nat.two_pow_pos 64
  entityHash h := by cases h
  timestampedHashes timestamp hash := by simp
  canonical h := by cases h

omit [LinearOrder Key] in
theorem find?_of_add (hadd : cache.add maxCacheSize transactionInfo = some cache') :
    cache.transactionDataContainer.find? transactionInfo.entityHash = none := by
  rw [MemoryPtCache.add] at hadd
  split at hadd
  · cases hadd
  · split at hadd
    · cases hadd
    · case isFalse hnew => simpa using hnew

omit [LinearOrder Key] in
theorem size_of_add (hcacheSize : cache.cacheSize ≤ maxCacheSize.toNat)
    (hadd : cache.add maxCacheSize transactionInfo = some cache') :
    cache.cacheSize + transactionInfo.size.toNat ≤ maxCacheSize.toNat := by
  rw [MemoryPtCache.add, sub64_eq maxCacheSize.toNat_lt hcacheSize] at hadd
  split at hadd
  · cases hadd
  · omega

namespace Consistent

theorem add (h : Consistent sha3 history cache)
    (hnew : cache.transactionDataContainer.find? transactionInfo.entityHash = none)
    (hfits : cache.cacheSize + transactionInfo.size.toNat < 2 ^ 64)
    (hadd : cache.add maxCacheSize transactionInfo = some cache') :
    Consistent sha3 (history ++ [.transactionAdded transactionInfo.entityHash]) cache' := by
  rw [MemoryPtCache.add, hnew] at hadd
  split at hadd
  · cases hadd
  · cases hadd
    have hother : ∀ {hash data}, hash ≠ transactionInfo.entityHash →
        (cache.transactionDataContainer.insert transactionInfo.entityHash (.ofTransaction transactionInfo)).find? hash =
          some data → cache.transactionDataContainer.find? hash = some data := by
      intro hash data hne hfind
      rwa [SortedMap.find?_insert, if_neg hne] at hfind
    constructor
    · rw [add64_eq hfits, SortedMap.total_insert_of_none _ hnew, h.cacheSize]
      rfl
    · exact Nat.mod_lt _ (by decide)
    · intro hash data hfind
      by_cases heq : hash = transactionInfo.entityHash
      · rw [SortedMap.find?_insert, if_pos heq] at hfind
        cases hfind
        exact heq.symm
      · exact h.entityHash (hother heq hfind)
    · intro timestamp hash
      rw [Finset.mem_insert, h.timestampedHashes, SortedMap.find?_insert]
      by_cases heq : hash = transactionInfo.entityHash
      · subst heq
        simp [hnew, PtData.ofTransaction, eq_comm]
      · simp [heq]
    · intro hash data hfind
      rw [acceptedCosignatures, List.foldl_append, List.foldl_cons, List.foldl_nil, PtEvent.accept]
      by_cases heq : hash = transactionInfo.entityHash
      · rw [SortedMap.find?_insert, if_pos heq] at hfind
        cases hfind
        rw [if_pos heq.symm]
        exact .ofTransaction transactionInfo
      · rw [if_neg (Ne.symm heq)]
        exact h.canonical (hother heq hfind)

theorem addCosignature (h : Consistent sha3 history cache) {parentHash : Hash}
    (hfits : ∀ data, cache.transactionDataContainer.find? parentHash = some data →
      hasCosignatory data.cosignatures cosignature.signer = false → cache.cacheSize + cosignatureSize < 2 ^ 64)
    (hadd : cache.addCosignature sha3 parentHash cosignature = some (transactionInfo, cache')) :
    Consistent sha3 (history ++ [.cosignatureAdded parentHash cosignature]) cache' := by
  rw [MemoryPtCache.addCosignature] at hadd
  simp only [Option.bind_eq_bind, Option.bind_eq_some_iff, Option.pure_def, Option.some_inj] at hadd
  obtain ⟨data, hfind, data', hdata, hresult⟩ := hadd
  cases hresult
  obtain ⟨hcanonical, hinfo, hsize⟩ := (h.canonical hfind).add hdata
  have hnew : hasCosignatory data.cosignatures cosignature.signer = false := by
    rw [PtData.add] at hdata
    split at hdata
    · cases hdata
    · exact Bool.eq_false_of_not_eq_true ‹_›
  have hother : ∀ {hash other}, hash ≠ parentHash →
      (cache.transactionDataContainer.insert parentHash data').find? hash = some other →
        cache.transactionDataContainer.find? hash = some other := by
    intro hash other hne hfind
    rwa [SortedMap.find?_insert, if_neg hne] at hfind
  constructor
  · have htotal := SortedMap.total_insert_of_some (fun _ data => data.size) hfind data'
    have hcacheSize := h.cacheSize
    change add64 cache.cacheSize cosignatureSize = _
    rw [add64_eq (hfits data hfind hnew)]
    exact (by omega : cache.cacheSize + cosignatureSize =
      (cache.transactionDataContainer.insert parentHash data').total fun _ data => data.size)
  · exact Nat.mod_lt _ (by decide)
  · intro hash other hother'
    by_cases heq : hash = parentHash
    · rw [SortedMap.find?_insert, if_pos heq] at hother'
      cases hother'
      rw [hinfo, heq, h.entityHash hfind]
    · exact h.entityHash (hother heq hother')
  · intro timestamp hash
    rw [h.timestampedHashes, SortedMap.find?_insert]
    by_cases heq : hash = parentHash
    · simp [heq, hfind, hinfo]
    · simp [heq]
  · intro hash other hother'
    rw [acceptedCosignatures, List.foldl_append, List.foldl_cons, List.foldl_nil, PtEvent.accept]
    by_cases heq : hash = parentHash
    · rw [SortedMap.find?_insert, if_pos heq] at hother'
      cases hother'
      rw [if_pos heq.symm, heq]
      exact hcanonical
    · rw [if_neg (Ne.symm heq)]
      exact h.canonical (hother heq hother')

theorem erase (h : Consistent sha3 history cache) (hfind : cache.transactionDataContainer.find? hash = some data) :
    Consistent sha3 history (cache.erase hash data) := by
  have hother : ∀ {other data'}, (cache.transactionDataContainer.erase hash).find? other = some data' →
      other ≠ hash ∧ cache.transactionDataContainer.find? other = some data' := by
    intro other data' hother
    rw [SortedMap.find?_erase] at hother
    split at hother
    · cases hother
    · case isFalse hne => exact ⟨hne, hother⟩
  have htotal := SortedMap.total_erase_of_some (fun _ data => data.size) hfind
  have hcacheSize := h.cacheSize
  constructor
  · change sub64 cache.cacheSize data.size = _
    rw [sub64_eq h.cacheSize_lt (by omega)]
    exact (by omega : cache.cacheSize - data.size =
      (cache.transactionDataContainer.erase hash).total fun _ data => data.size)
  · exact Nat.mod_lt _ (by decide)
  · intro other data' hdata'
    exact h.entityHash (hother hdata').2
  · intro timestamp other
    rw [MemoryPtCache.erase, Finset.mem_erase, h.timestampedHashes, SortedMap.find?_erase, PtData.timestampedHash,
      h.entityHash hfind]
    by_cases heq : other = hash
    · subst heq
      simp [hfind]
      exact fun hne heq => hne heq.symm
    · simp [heq]
  · intro other data' hdata'
    exact h.canonical (hother hdata').2

theorem prune (h : Consistent sha3 history cache) (timestamp : Nat) :
    ∃ pruned, Ends (fun fuel => cache.prune timestamp fuel) pruned ∧ Consistent sha3 history pruned.2 := by
  induction hcard : cache.timestampedHashes.card generalizing cache with
  | zero =>
    rw [Finset.card_eq_zero] at hcard
    refine ⟨([], cache), .of_succ (.of_forall fun _ => rfl) fun fuel => ?_, h⟩
    rw [MemoryPtCache.prune, hcard, Finset.sort_empty]
    rfl
  | succ count ih =>
    cases hhead : cache.timestampedHashes.sort.head? with
    | none =>
      have hempty : cache.timestampedHashes.sort = [] := List.head?_eq_none_iff.1 hhead
      have hlength := cache.timestampedHashes.length_sort (· ≤ ·)
      rw [hempty, hcard] at hlength
      cases hlength
    | some timestampedHash =>
      by_cases hlater : timestamp < (ofLex timestampedHash).1
      · refine ⟨([], cache), .of_succ (.of_forall fun _ => rfl) fun fuel => ?_, h⟩
        rw [MemoryPtCache.prune, hhead]
        exact if_pos hlater
      · have hmem : timestampedHash ∈ cache.timestampedHashes :=
          (Finset.mem_sort _).1 (List.mem_of_mem_head? hhead)
        obtain ⟨data, hfind, hdeadline⟩ :=
          (h.timestampedHashes (ofLex timestampedHash).1 (ofLex timestampedHash).2).1 hmem
        have htimestampedHash : data.timestampedHash = timestampedHash := by
          rw [PtData.timestampedHash, hdeadline, h.entityHash hfind]
          rfl
        have hrest : (cache.erase (ofLex timestampedHash).2 data).timestampedHashes.card = count := by
          rw [MemoryPtCache.erase, htimestampedHash, Finset.card_erase_of_mem hmem, hcard]
          rfl
        obtain ⟨pruned, hends, hconsistent⟩ := ih (h.erase hfind) hrest
        refine ⟨(data.transactionInfo :: pruned.1, pruned.2), ?_, hconsistent⟩
        apply (hends.map (k := fun pruned => (data.transactionInfo :: pruned.1, pruned.2))).of_succ
        intro fuel
        rw [MemoryPtCache.prune, hhead]
        simp only [if_neg hlater, hfind]
        rfl

theorem pruneIf (h : Consistent sha3 history cache) (hashPredicate : Hash → Bool) :
    Consistent sha3 history (cache.pruneIf hashPredicate).2 := by
  have hloop : ∀ (entries : List (Hash × PtData Hash Key Signature)) (infos : List (TransactionInfo Hash))
      {cache : MemoryPtCache Hash Key Signature}, Consistent sha3 history cache →
        (entries.map Prod.fst).Nodup →
        (∀ entry ∈ entries, cache.transactionDataContainer.find? entry.1 = some entry.2) →
          Consistent sha3 history (entries.foldl (MemoryPtCache.pruneEntry hashPredicate) (infos, cache)).2 := by
    intro entries
    induction entries with
    | nil => exact fun _ _ h _ _ => h
    | cons entry entries ih =>
      intro infos cache h hnodup hfind
      obtain ⟨hentry, hrest⟩ := List.forall_mem_cons.1 hfind
      obtain ⟨hnot, hnodup⟩ := List.nodup_cons.1 hnodup
      rw [List.foldl_cons, MemoryPtCache.pruneEntry]
      split
      · refine ih _ (h.erase hentry) hnodup fun other hother => ?_
        have hne : other.1 ≠ entry.1 := fun heq => hnot (heq ▸ List.mem_map_of_mem hother)
        rw [MemoryPtCache.erase, SortedMap.find?_erase, if_neg hne]
        exact hrest other hother
      · exact ih infos h hnodup hrest
  exact hloop _ _ h cache.transactionDataContainer.nodup_keys fun entry hentry => SortedMap.mem_entries_iff.1 hentry

end Consistent

end Invariant

section Accounting
variable [LinearOrder Key] [Zero Hash]

/-- What holds of a cache, and of the next transaction that is added. -/
structure Accounting (maxCacheSize : UInt64)
    (allowed : MemoryPtCache Hash Key Signature → PtOperation Hash Key Signature → Prop)
    (cache : MemoryPtCache Hash Key Signature) : Prop where
  memorySize : cache.cacheSize = cache.transactionDataContainer.total fun _ data => data.size
  timestampedHashes : ∀ timestamp hash, toLex (timestamp, hash) ∈ cache.timestampedHashes ↔
    ∃ data, cache.transactionDataContainer.find? hash = some data ∧ data.transactionInfo.deadline = timestamp
  prune : ∀ timestamp, ∃ pruned, Ends (fun fuel => cache.prune timestamp fuel) pruned
  add : ∀ transactionInfo added, allowed cache (.addTransaction transactionInfo) →
    cache.add maxCacheSize transactionInfo = some added →
      cache.transactionDataContainer.find? transactionInfo.entityHash = none ∧
        cache.cacheSize + transactionInfo.size.toNat ≤ maxCacheSize.toNat

/-- Every run of allowed operations keeps the accounts, and the cosignatures of an entry and their hash are the same
in all runs that have accepted the same ones. -/
structure Accounted (sha3 : List (Cosignature Key Signature) → Hash) (maxCacheSize : UInt64)
    (allowed : MemoryPtCache Hash Key Signature → PtOperation Hash Key Signature → Prop) : Prop where
  accounting : ∀ history cache, Reaches {} (PtStep sha3 maxCacheSize allowed) history cache →
    Accounting maxCacheSize allowed cache
  cosignatures : ∀ history cache, Reaches {} (PtStep sha3 maxCacheSize allowed) history cache →
    ∀ history' cache', Reaches {} (PtStep sha3 maxCacheSize allowed) history' cache' →
    ∀ hash data hash' data', cache.transactionDataContainer.find? hash = some data →
      cache'.transactionDataContainer.find? hash' = some data' →
      (∀ cosignature, cosignature ∈ acceptedCosignatures hash history ↔
        cosignature ∈ acceptedCosignatures hash' history') →
      data.cosignatures = data'.cosignatures ∧ data.cosignaturesHash = data'.cosignaturesHash

def WithinLimit (maxCacheSize : UInt64) (cache : MemoryPtCache Hash Key Signature) :
    PtOperation Hash Key Signature → Prop
  | .addTransaction transactionInfo =>
    cache.transactionDataContainer.find? transactionInfo.entityHash = none → cache.cacheSize ≤ maxCacheSize.toNat
  | .addCosignature parentHash cosignature =>
    ∀ data, cache.transactionDataContainer.find? parentHash = some data →
      hasCosignatory data.cosignatures cosignature.signer = false → cache.cacheSize + cosignatureSize < 2 ^ 64
  | _ => True

theorem consistent_of_reaches {sha3 : List (Cosignature Key Signature) → Hash} {maxCacheSize : UInt64}
    {history : List (PtEvent Hash Key Signature)} {cache : MemoryPtCache Hash Key Signature}
    (h : Reaches {} (PtStep sha3 maxCacheSize (WithinLimit maxCacheSize)) history cache) :
    Consistent sha3 history cache := by
  refine h.invariant consistent_empty ?_
  rintro history cache cache' event h ⟨operation, hallowed, hends⟩
  cases operation with
  | addTransaction transactionInfo =>
    cases hadd : cache.add maxCacheSize transactionInfo with
    | none =>
      simp only [PtOperation.apply, hadd] at hends
      cases hends.unique (.of_forall fun _ => rfl)
      rwa [Option.toList_none, List.append_nil]
    | some added =>
      simp only [PtOperation.apply, hadd] at hends
      cases hends.unique (.of_forall fun _ => rfl)
      have hnew := find?_of_add hadd
      have hfits := size_of_add (hallowed hnew) hadd
      exact h.add hnew (hfits.trans_lt maxCacheSize.toNat_lt) hadd
  | addCosignature parentHash cosignature =>
    cases hadd : cache.addCosignature sha3 parentHash cosignature with
    | none =>
      simp only [PtOperation.apply, hadd] at hends
      cases hends.unique (.of_forall fun _ => rfl)
      rwa [Option.toList_none, List.append_nil]
    | some added =>
      simp only [PtOperation.apply, hadd] at hends
      cases hends.unique (.of_forall fun _ => rfl)
      exact h.addCosignature hallowed hadd
  | remove hash =>
    cases hends.unique (.of_forall fun _ => rfl)
    rw [Option.toList_none, List.append_nil, MemoryPtCache.remove]
    cases hfind : cache.transactionDataContainer.find? hash with
    | none => exact h
    | some data => exact h.erase hfind
  | prune timestamp =>
    obtain ⟨pruned, hpruned, hconsistent⟩ := h.prune timestamp
    have hresult := hpruned.map (k := fun result => ((none : Option (PtEvent Hash Key Signature)), result.2))
    cases hends.unique hresult
    rwa [Option.toList_none, List.append_nil]
  | pruneIf hashPredicate =>
    cases hends.unique (.of_forall fun _ => rfl)
    rw [Option.toList_none, List.append_nil]
    exact h.pruneIf hashPredicate

/-- The accounts are kept in the runs in which no new transaction comes while the size is above the limit. -/
theorem accounted (sha3 : List (Cosignature Key Signature) → Hash) (maxCacheSize : UInt64) :
    Accounted sha3 maxCacheSize (WithinLimit maxCacheSize) where
  accounting history cache hreaches := by
    have h := consistent_of_reaches hreaches
    refine ⟨h.cacheSize, h.timestampedHashes, fun timestamp => ?_, fun transactionInfo added hallowed hadd => ?_⟩
    · obtain ⟨pruned, hends, -⟩ := h.prune timestamp
      exact ⟨pruned, hends⟩
    · have hnew := find?_of_add hadd
      exact ⟨hnew, size_of_add (hallowed hnew) hadd⟩
  cosignatures history cache hreaches history' cache' hreaches' hash data hash' data' hfind hfind' haccepted := by
    have h := (consistent_of_reaches hreaches).canonical hfind
    have h' := (consistent_of_reaches hreaches').canonical hfind'
    exact h.unique h' haccepted

end Accounting

def sampleAdded : MemoryPtCache Nat Nat Unit :=
  (({} : MemoryPtCache Nat Nat Unit).add 200 ⟨1, 150, 10⟩).getD {}

def sampleExceeded : MemoryPtCache Nat Nat Unit :=
  ((sampleAdded.addCosignature List.length 1 ⟨7, ()⟩).map Prod.snd).getD {}

theorem not_accounted_sample :
    ¬Accounted (List.length : List (Cosignature Nat Unit) → Nat) 200 (fun _ _ => True) := by
  intro h
  obtain ⟨first, hfirst⟩ := Option.isSome_iff_exists.1
    (by decide : (({} : MemoryPtCache Nat Nat Unit).add 200 ⟨1, 150, 10⟩).isSome)
  have hadded : PtStep (List.length : List (Cosignature Nat Unit) → Nat) 200 (fun _ _ => True) {}
      (some (.transactionAdded 1)) first := by
    refine ⟨.addTransaction ⟨1, 150, 10⟩, trivial, .of_forall fun _ => ?_⟩
    rw [PtOperation.apply, hfirst]
  obtain rfl : sampleAdded = first := by
    rw [sampleAdded, hfirst]
    rfl
  obtain ⟨⟨info, exceeded⟩, hcosigned⟩ := Option.isSome_iff_exists.1
    (by decide : (sampleAdded.addCosignature (List.length : List (Cosignature Nat Unit) → Nat) 1 ⟨7, ()⟩).isSome)
  have hexceeded : PtStep (List.length : List (Cosignature Nat Unit) → Nat) 200 (fun _ _ => True) sampleAdded
      (some (.cosignatureAdded 1 ⟨7, ()⟩)) exceeded := by
    refine ⟨.addCosignature 1 ⟨7, ()⟩, trivial, .of_forall fun _ => ?_⟩
    rw [PtOperation.apply, hcosigned]
  obtain rfl : sampleExceeded = exceeded := by
    rw [sampleExceeded, hcosigned]
    rfl
  obtain ⟨added, hadd⟩ := Option.isSome_iff_exists.1 (by decide : (sampleExceeded.add 200 ⟨2, 100, 20⟩).isSome)
  have hfits := ((h.accounting _ _ (.next (.next .start hadded) hexceeded)).add _ _ trivial hadd).2
  exact absurd hfits (by decide)

end Catapult.CacheTx
