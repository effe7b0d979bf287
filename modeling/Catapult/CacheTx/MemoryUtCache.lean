import Catapult.Chain.CompareChains
import Catapult.Lib.SortedMap

/-!
# Accounting of the unconfirmed transactions cache

The cache has the transactions by the ids of their insertions, and the ids by the hashes. It counts the bytes of what it
has, altogether and for every signer. The weight of a signer is deleted when it is zero, and what would take it below
zero throws, which never happens: removed transactions have been counted.

Ids are taken from a sequence, which starts over after 2^64 insertions in the source and never here.
-/

namespace Catapult.CacheTx
open Catapult.Chain (add64 sub64 add64_eq sub64_eq)

structure AccountWeights (Key : Type) [LinearOrder Key] where
  accountWeights : SortedMap Key Nat := ∅
  totalWeight : Nat := 0

structure UtTransactionInfo (Hash Key : Type) where
  entityHash : Hash
  signerPublicKey : Key
  size : UInt32

structure MemoryUtCache (Hash Key : Type) [LinearOrder Hash] [LinearOrder Key] where
  transactionDataContainer : SortedMap Nat (UtTransactionInfo Hash Key) := ∅
  cacheSize : Nat := 0
  idLookup : SortedMap Hash Nat := ∅
  weights : AccountWeights Key := {}
  idSequence : Nat := 0

variable {Hash Key : Type} [LinearOrder Key]

namespace AccountWeights

def weight (weights : AccountWeights Key) (key : Key) : Nat := (weights.accountWeights.find? key).getD 0

def increment (weights : AccountWeights Key) (key : Key) (delta : Nat) : AccountWeights Key :=
  if delta = 0 then weights
  else
    { accountWeights := weights.accountWeights.insert key (add64 (weights.weight key) delta)
      totalWeight := add64 weights.totalWeight delta }

/-- It throws when the weight is less than the difference. -/
def decrement (weights : AccountWeights Key) (key : Key) (delta : Nat) : Option (AccountWeights Key) :=
  if weights.weight key < delta then none
  else
    let weight := weights.weight key - delta
    some
      { accountWeights :=
          if weight = 0 then weights.accountWeights.erase key else weights.accountWeights.insert key weight
        totalWeight := sub64 weights.totalWeight delta }

variable {weights weights' : AccountWeights Key} {key other : Key} {delta : Nat}

theorem weight_increment (hlt : weights.weight key + delta < 2 ^ 64) :
    (weights.increment key delta).weight other =
      if other = key then weights.weight key + delta else weights.weight other := by
  rw [increment]
  split
  · case isTrue hzero =>
    split
    · case isTrue heq => rw [heq, hzero, Nat.add_zero]
    · rfl
  · rw [weight, SortedMap.find?_insert, add64_eq hlt]
    split <;> rfl

theorem weight_decrement (h : weights.decrement key delta = some weights') :
    delta ≤ weights.weight key ∧ weights'.weight other =
      if other = key then weights.weight key - delta else weights.weight other := by
  rw [decrement] at h
  split at h
  · cases h
  · case isFalse hle =>
    cases h
    refine ⟨not_lt.1 hle, ?_⟩
    rw [weight]
    dsimp only
    split
    · case isTrue hzero =>
      rw [SortedMap.find?_erase, hzero]
      split <;> rfl
    · rw [SortedMap.find?_insert]
      split <;> rfl

theorem totalWeight_increment (hlt : weights.totalWeight + delta < 2 ^ 64) :
    (weights.increment key delta).totalWeight = weights.totalWeight + delta := by
  rw [increment]
  split
  · case isTrue hzero => rw [hzero, Nat.add_zero]
  · exact add64_eq hlt

theorem totalWeight_decrement (h : weights.decrement key delta = some weights')
    (hlt : weights.totalWeight < 2 ^ 64) (hle : delta ≤ weights.totalWeight) :
    weights'.totalWeight = weights.totalWeight - delta := by
  rw [decrement] at h
  split at h
  · cases h
  · cases h
    exact sub64_eq hlt hle

def NoneZero (weights : AccountWeights Key) : Prop := ∀ key, weights.accountWeights.find? key ≠ some 0

theorem NoneZero.increment (h : weights.NoneZero) (hlt : weights.weight key + delta < 2 ^ 64) :
    (weights.increment key delta).NoneZero := by
  intro other
  rw [AccountWeights.increment]
  split
  · exact h other
  · case isFalse hne =>
    rw [SortedMap.find?_insert, add64_eq hlt]
    split
    · intro hzero
      have hsum := Option.some_inj.1 hzero
      omega
    · exact h other

theorem NoneZero.decrement (h : weights.NoneZero) (hdecrement : weights.decrement key delta = some weights') :
    weights'.NoneZero := by
  intro other
  rw [AccountWeights.decrement] at hdecrement
  split at hdecrement
  · cases hdecrement
  · cases hdecrement
    dsimp only
    split
    · rw [SortedMap.find?_erase]
      split
      · simp
      · exact h other
    · case isFalse hne =>
      rw [SortedMap.find?_insert]
      split
      · exact fun hzero => hne (Option.some_inj.1 hzero)
      · exact h other

end AccountWeights

variable [LinearOrder Hash]

namespace MemoryUtCache

def add (maxCacheSize : UInt64) (cache : MemoryUtCache Hash Key) (transactionInfo : UtTransactionInfo Hash Key) :
    Option (MemoryUtCache Hash Key) :=
  let transactionSize := transactionInfo.size.toNat
  if sub64 maxCacheSize.toNat cache.cacheSize < transactionSize then none
  else if (cache.idLookup.find? transactionInfo.entityHash).isSome then none
  else
    let idSequence := cache.idSequence + 1
    some
      { idLookup := cache.idLookup.insert transactionInfo.entityHash idSequence
        transactionDataContainer := cache.transactionDataContainer.insert idSequence transactionInfo
        weights := cache.weights.increment transactionInfo.signerPublicKey transactionSize
        cacheSize := add64 cache.cacheSize transactionSize
        idSequence }

/-- There is no result when an id is not in the container, or a weight is too small. -/
def remove (cache : MemoryUtCache Hash Key) (hash : Hash) :
    Option (Option (UtTransactionInfo Hash Key) × MemoryUtCache Hash Key) :=
  match cache.idLookup.find? hash with
  | none => some (none, cache)
  | some id => do
    let data ← cache.transactionDataContainer.find? id
    let weights ← cache.weights.decrement data.signerPublicKey data.size.toNat
    return (some data,
      { cache with
        weights
        cacheSize := sub64 cache.cacheSize data.size.toNat
        transactionDataContainer := cache.transactionDataContainer.erase id
        idLookup := cache.idLookup.erase hash })

def memorySizeForAccount (cache : MemoryUtCache Hash Key) (key : Key) : Nat := cache.weights.weight key

/-- The transactions in the order of the container, as `forEach` passes them. -/
def transactions (cache : MemoryUtCache Hash Key) : List (UtTransactionInfo Hash Key) :=
  cache.transactionDataContainer.entries.map Prod.snd

def removeAll (cache : MemoryUtCache Hash Key) : List (UtTransactionInfo Hash Key) × MemoryUtCache Hash Key :=
  (cache.transactions, { idSequence := cache.idSequence })

end MemoryUtCache

inductive UtOperation (Hash Key : Type) where
  | add (transactionInfo : UtTransactionInfo Hash Key)
  | remove (hash : Hash)
  | removeAll

def UtOperation.apply (maxCacheSize : UInt64) (cache : MemoryUtCache Hash Key) :
    UtOperation Hash Key → Option (MemoryUtCache Hash Key)
  | add transactionInfo => some ((cache.add maxCacheSize transactionInfo).getD cache)
  | remove hash => (cache.remove hash).map Prod.snd
  | removeAll => some cache.removeAll.2

/-- The cache after some operations; none when one of them throws. -/
def runUtOperations (maxCacheSize : UInt64) (operations : List (UtOperation Hash Key)) :
    Option (MemoryUtCache Hash Key) := operations.foldlM (UtOperation.apply maxCacheSize) {}

def UtOperation.applyInOrder (maxCacheSize : UInt64) (transactions : List (UtTransactionInfo Hash Key)) :
    UtOperation Hash Key → List (UtTransactionInfo Hash Key)
  | add transactionInfo =>
    if (∀ other ∈ transactions, other.entityHash ≠ transactionInfo.entityHash) ∧
        ((transactions.map fun other => other.size.toNat).sum + transactionInfo.size.toNat ≤ maxCacheSize.toNat) then
      transactions ++ [transactionInfo]
    else transactions
  | remove hash => transactions.filter fun other => other.entityHash ≠ hash
  | removeAll => []

structure UtConsistent (maxCacheSize : UInt64) (cache : MemoryUtCache Hash Key) : Prop where
  lookup : ∀ hash id, cache.idLookup.find? hash = some id ↔
    ∃ transactionInfo, cache.transactionDataContainer.find? id = some transactionInfo ∧
      transactionInfo.entityHash = hash
  id_le : ∀ {id transactionInfo}, cache.transactionDataContainer.find? id = some transactionInfo → id ≤ cache.idSequence
  cacheSize : cache.cacheSize = cache.transactionDataContainer.total fun _ transactionInfo => transactionInfo.size.toNat
  cacheSize_le : cache.cacheSize ≤ maxCacheSize.toNat
  weight : ∀ key, cache.weights.weight key = cache.transactionDataContainer.total fun _ transactionInfo =>
    if transactionInfo.signerPublicKey = key then transactionInfo.size.toNat else 0
  totalWeight : cache.weights.totalWeight = cache.cacheSize
  noneZero : cache.weights.NoneZero

theorem utConsistent_empty (maxCacheSize : UInt64) (idSequence : Nat) :
    UtConsistent maxCacheSize ({ idSequence } : MemoryUtCache Hash Key) where
  lookup hash id := by simp
  id_le h := by cases h
  cacheSize := rfl
  cacheSize_le := Nat.zero_le _
  weight _ := rfl
  totalWeight := rfl
  noneZero key := by simp

namespace UtConsistent
variable {maxCacheSize : UInt64} {cache cache' : MemoryUtCache Hash Key}
  {transactionInfo : UtTransactionInfo Hash Key} {hash : Hash}

theorem weight_le (h : UtConsistent maxCacheSize cache) (key : Key) : cache.weights.weight key ≤ cache.cacheSize := by
  rw [h.weight, h.cacheSize]
  apply SortedMap.total_le_total
  intro id transactionInfo
  split
  · exact le_rfl
  · exact Nat.zero_le _

theorem add_isSome_iff (h : UtConsistent maxCacheSize cache) :
    (cache.add maxCacheSize transactionInfo).isSome ↔
      cache.idLookup.find? transactionInfo.entityHash = none ∧
        cache.cacheSize + transactionInfo.size.toNat ≤ maxCacheSize.toNat := by
  have hle := h.cacheSize_le
  rw [MemoryUtCache.add, sub64_eq maxCacheSize.toNat_lt hle]
  dsimp only
  split
  · case isTrue hfull => simp only [Option.isSome_none, Bool.false_eq_true, false_iff, not_and]; omega
  · case isFalse hfits =>
    split
    · case isTrue hknown =>
      simp [Option.isSome_iff_ne_none.1 hknown]
    · case isFalse hnew =>
      simp only [Option.isSome_some, true_iff]
      exact ⟨by simpa using hnew, by omega⟩

theorem lt_next (h : UtConsistent maxCacheSize cache) :
    ∀ entry ∈ cache.transactionDataContainer.entries, entry.1 < cache.idSequence + 1 := fun _ hentry =>
  Nat.lt_succ_of_le (h.id_le (SortedMap.mem_entries_iff.1 hentry))

theorem find?_next (h : UtConsistent maxCacheSize cache) :
    cache.transactionDataContainer.find? (cache.idSequence + 1) = none := by
  cases hfind : cache.transactionDataContainer.find? (cache.idSequence + 1) with
  | none => rfl
  | some transactionInfo => exact absurd (h.id_le hfind) (by omega)

theorem add (h : UtConsistent maxCacheSize cache) (hadd : cache.add maxCacheSize transactionInfo = some cache') :
    UtConsistent maxCacheSize cache' ∧ cache'.transactions = cache.transactions ++ [transactionInfo] := by
  obtain ⟨hnew, hfits⟩ := h.add_isSome_iff.1 (Option.isSome_of_eq_some hadd)
  have hmax : maxCacheSize.toNat < 2 ^ 64 := maxCacheSize.toNat_lt
  have hsize : cache.cacheSize + transactionInfo.size.toNat < 2 ^ 64 := by omega
  have hweight : cache.weights.weight transactionInfo.signerPublicKey + transactionInfo.size.toNat < 2 ^ 64 := by
    have hle := h.weight_le transactionInfo.signerPublicKey
    omega
  rw [MemoryUtCache.add, hnew] at hadd
  dsimp only at hadd
  split at hadd
  · cases hadd
  · cases hadd
    refine ⟨⟨?_, ?_, ?_, ?_, ?_, ?_, h.noneZero.increment hweight⟩, ?_⟩
    · intro hash id
      rw [SortedMap.find?_insert, SortedMap.find?_insert]
      by_cases hhash : hash = transactionInfo.entityHash
      · subst hhash
        by_cases hid : id = cache.idSequence + 1
        · simp [hid]
        · have hnone := (h.lookup transactionInfo.entityHash id).not.1 (by simp [hnew])
          simpa [hid, eq_comm] using hnone
      · by_cases hid : id = cache.idSequence + 1
        · have hnone := (h.lookup hash id).not.2 (by simp [hid, h.find?_next])
          simpa [hid, hhash, eq_comm] using hnone
        · simp [hid, hhash, h.lookup]
    · intro id other hfind
      rw [SortedMap.find?_insert] at hfind
      split at hfind
      · case isTrue hid => exact hid.le
      · exact (h.id_le hfind).trans (Nat.le_succ _)
    · rw [add64_eq hsize, SortedMap.total_insert_of_none _ h.find?_next, h.cacheSize]
    · rw [add64_eq hsize]
      exact hfits
    · intro key
      rw [AccountWeights.weight_increment hweight, SortedMap.total_insert_of_none _ h.find?_next, ← h.weight]
      by_cases hkey : key = transactionInfo.signerPublicKey
      · rw [if_pos hkey, if_pos hkey.symm, hkey]
      · rw [if_neg hkey, if_neg (Ne.symm hkey), Nat.add_zero]
    · rw [AccountWeights.totalWeight_increment (h.totalWeight ▸ hsize), h.totalWeight, add64_eq hsize]
    · rw [MemoryUtCache.transactions, SortedMap.entries_insert_of_gt h.lt_next, List.map_append]
      rfl

theorem find?_eq_none_iff (h : UtConsistent maxCacheSize cache) :
    cache.idLookup.find? hash = none ↔ ∀ other ∈ cache.transactions, other.entityHash ≠ hash := by
  constructor
  · rintro hnone other hother rfl
    obtain ⟨⟨id, other⟩, hentry, rfl⟩ := List.mem_map.1 hother
    have hid := (h.lookup other.entityHash id).2 ⟨other, SortedMap.mem_entries_iff.1 hentry, rfl⟩
    rw [hnone] at hid
    cases hid
  · intro hall
    cases hfind : cache.idLookup.find? hash with
    | none => rfl
    | some id =>
      obtain ⟨other, hother, hhash⟩ := (h.lookup hash id).1 hfind
      exact absurd hhash (hall other (List.mem_map.2 ⟨(id, other), SortedMap.mem_entries_iff.2 hother, rfl⟩))

theorem remove (h : UtConsistent maxCacheSize cache) (hash : Hash) :
    ∃ removed, cache.remove hash = some removed ∧ UtConsistent maxCacheSize removed.2 ∧
      removed.2.transactions = cache.transactions.filter fun other => other.entityHash ≠ hash := by
  cases hlookup : cache.idLookup.find? hash with
  | none =>
    refine ⟨(none, cache), by rw [MemoryUtCache.remove, hlookup], h, (List.filter_eq_self.2 ?_).symm⟩
    intro other hother
    exact decide_eq_true (h.find?_eq_none_iff.1 hlookup other hother)
  | some id =>
    obtain ⟨data, hfind, rfl⟩ := (h.lookup hash id).1 hlookup
    have hsize := SortedMap.total_erase_of_some (fun _ transactionInfo => transactionInfo.size.toNat) hfind
    have hweight := fun key => SortedMap.total_erase_of_some
      (fun _ transactionInfo => if transactionInfo.signerPublicKey = key then transactionInfo.size.toNat else 0) hfind
    have hcacheSize := h.cacheSize
    have hcacheSize_lt := h.cacheSize_le.trans_lt maxCacheSize.toNat_lt
    have hsigner : data.size.toNat ≤ cache.weights.weight data.signerPublicKey := by
      have hsum := hweight data.signerPublicKey
      rw [if_pos rfl, ← h.weight] at hsum
      omega
    obtain ⟨weights, hdecrement⟩ : ∃ weights,
        cache.weights.decrement data.signerPublicKey data.size.toNat = some weights := by
      rw [AccountWeights.decrement, if_neg (not_lt.2 hsigner)]
      exact ⟨_, rfl⟩
    have hremove : cache.remove data.entityHash = some (some data,
        { cache with
          weights
          cacheSize := sub64 cache.cacheSize data.size.toNat
          transactionDataContainer := cache.transactionDataContainer.erase id
          idLookup := cache.idLookup.erase data.entityHash }) := by
      rw [MemoryUtCache.remove, hlookup]
      simp only [hfind, Option.bind_eq_bind, Option.bind_some, hdecrement]
      rfl
    have hid : ∀ {hash other}, cache.idLookup.find? hash = some other → (hash = data.entityHash ↔ other = id) := by
      intro hash other hother
      constructor
      · rintro rfl
        rw [hlookup] at hother
        exact (Option.some_inj.1 hother).symm
      · rintro rfl
        obtain ⟨info, hinfo, rfl⟩ := (h.lookup _ _).1 hother
        rw [hfind] at hinfo
        rw [Option.some_inj.1 hinfo]
    refine ⟨_, hremove, ⟨?_, ?_, ?_, ?_, ?_, ?_, h.noneZero.decrement hdecrement⟩, ?_⟩
    · intro hash other
      rw [SortedMap.find?_erase, SortedMap.find?_erase]
      by_cases hother : cache.idLookup.find? hash = some other
      · by_cases hhash : hash = data.entityHash
        · rw [if_pos hhash, if_pos ((hid hother).1 hhash)]
          simp
        · rw [if_neg hhash, if_neg (hhash ∘ (hid hother).2), h.lookup]
      · have hnone := mt (h.lookup hash other).2 hother
        constructor
        · intro hsome
          split at hsome
          · cases hsome
          · exact absurd hsome hother
        · rintro ⟨info, hinfo, hhash⟩
          split at hinfo
          · cases hinfo
          · exact absurd ⟨info, hinfo, hhash⟩ hnone
    · intro other info hinfo
      rw [SortedMap.find?_erase] at hinfo
      split at hinfo
      · cases hinfo
      · exact h.id_le hinfo
    · change sub64 cache.cacheSize data.size.toNat = _
      rw [sub64_eq hcacheSize_lt (by omega)]
      exact (by omega : cache.cacheSize - data.size.toNat =
        (cache.transactionDataContainer.erase id).total fun _ transactionInfo => transactionInfo.size.toNat)
    · have hle := h.cacheSize_le
      change sub64 cache.cacheSize data.size.toNat ≤ _
      rw [sub64_eq hcacheSize_lt (by omega)]
      omega
    · intro key
      have hsum := hweight key
      rw [← h.weight] at hsum
      rw [(AccountWeights.weight_decrement hdecrement).2]
      by_cases hkey : key = data.signerPublicKey
      · subst hkey
        rw [if_pos rfl] at hsum ⊢
        exact Nat.sub_eq_of_eq_add hsum.symm
      · rw [if_neg (Ne.symm hkey)] at hsum
        rw [if_neg hkey]
        exact hsum.symm
    · have hle : data.size.toNat ≤ cache.cacheSize := by omega
      change weights.totalWeight = sub64 cache.cacheSize data.size.toNat
      rw [AccountWeights.totalWeight_decrement hdecrement (h.totalWeight ▸ hcacheSize_lt) (h.totalWeight ▸ hle),
        h.totalWeight, sub64_eq hcacheSize_lt hle]
    · rw [MemoryUtCache.transactions, MemoryUtCache.transactions, SortedMap.entries_erase, List.filter_map]
      congr 1
      apply List.filter_congr
      rintro ⟨other, info⟩ hentry
      have hother := (h.lookup info.entityHash other).2 ⟨info, SortedMap.mem_entries_iff.1 hentry, rfl⟩
      exact decide_eq_decide.2 (not_congr (hid hother).symm)

theorem sum_sizes (h : UtConsistent maxCacheSize cache) :
    cache.cacheSize = (cache.transactions.map fun transactionInfo => transactionInfo.size.toNat).sum := by
  rw [h.cacheSize, MemoryUtCache.transactions, List.map_map]
  rfl

theorem sum_sizes_of_signer (h : UtConsistent maxCacheSize cache) (key : Key) :
    cache.memorySizeForAccount key = ((cache.transactions.filter fun transactionInfo =>
      transactionInfo.signerPublicKey = key).map fun transactionInfo => transactionInfo.size.toNat).sum := by
  rw [MemoryUtCache.memorySizeForAccount, h.weight, MemoryUtCache.transactions, SortedMap.total]
  induction cache.transactionDataContainer.entries with
  | nil => rfl
  | cons entry entries ih =>
    rw [List.map_cons, List.map_cons, List.sum_cons, ih, List.filter_cons]
    by_cases hsigner : entry.2.signerPublicKey = key <;> simp [hsigner]

theorem step (h : UtConsistent maxCacheSize cache) (operation : UtOperation Hash Key) :
    ∃ cache', operation.apply maxCacheSize cache = some cache' ∧ UtConsistent maxCacheSize cache' ∧
      cache'.transactions = operation.applyInOrder maxCacheSize cache.transactions := by
  cases operation with
  | add transactionInfo =>
    refine ⟨_, rfl, ?_⟩
    have hiff := @UtConsistent.add_isSome_iff _ _ _ _ _ _ transactionInfo h
    rw [h.find?_eq_none_iff] at hiff
    rw [UtOperation.applyInOrder, ← h.sum_sizes]
    cases hadd : cache.add maxCacheSize transactionInfo with
    | none =>
      rw [hadd] at hiff
      rw [if_neg (by simpa using hiff)]
      exact ⟨h, rfl⟩
    | some cache' =>
      rw [hadd] at hiff
      rw [if_pos (hiff.1 rfl)]
      exact h.add hadd
  | remove hash =>
    obtain ⟨removed, hremove, hconsistent, htransactions⟩ := h.remove hash
    exact ⟨removed.2, congrArg (Option.map Prod.snd) hremove, hconsistent, htransactions⟩
  | removeAll => exact ⟨_, rfl, utConsistent_empty maxCacheSize cache.idSequence, rfl⟩

theorem run (operations : List (UtOperation Hash Key)) (h : UtConsistent maxCacheSize cache) :
    ∃ cache', operations.foldlM (UtOperation.apply maxCacheSize) cache = some cache' ∧
      UtConsistent maxCacheSize cache' ∧
      cache'.transactions = operations.foldl (UtOperation.applyInOrder maxCacheSize) cache.transactions := by
  induction operations generalizing cache with
  | nil => exact ⟨cache, rfl, h, rfl⟩
  | cons operation operations ih =>
    obtain ⟨next, hnext, hconsistent, htransactions⟩ := h.step operation
    obtain ⟨cache', hrest, hconsistent', htransactions'⟩ := ih hconsistent
    refine ⟨cache', ?_, hconsistent', ?_⟩
    · rw [List.foldlM_cons, hnext]
      exact hrest
    · rw [htransactions', htransactions, List.foldl_cons]

end UtConsistent

structure UtAccounting (maxCacheSize : UInt64) (operations : List (UtOperation Hash Key))
    (cache : MemoryUtCache Hash Key) : Prop where
  lookup : ∀ hash id, cache.idLookup.find? hash = some id ↔
    ∃ transactionInfo, cache.transactionDataContainer.find? id = some transactionInfo ∧
      transactionInfo.entityHash = hash
  transactions : cache.transactions = operations.foldl (UtOperation.applyInOrder maxCacheSize) []
  memorySize : cache.cacheSize = (cache.transactions.map fun transactionInfo => transactionInfo.size.toNat).sum
  memorySize_le : cache.cacheSize ≤ maxCacheSize.toNat
  memorySizeForAccount : ∀ key, cache.memorySizeForAccount key = ((cache.transactions.filter fun transactionInfo =>
    transactionInfo.signerPublicKey = key).map fun transactionInfo => transactionInfo.size.toNat).sum
  add : ∀ transactionInfo, (cache.add maxCacheSize transactionInfo).isSome ↔
    (∀ other ∈ cache.transactions, other.entityHash ≠ transactionInfo.entityHash) ∧
      cache.cacheSize + transactionInfo.size.toNat ≤ maxCacheSize.toNat

/-- No operation throws, and the accounts are right after all of them. -/
theorem runUtOperations_spec (maxCacheSize : UInt64) (operations : List (UtOperation Hash Key)) :
    ∃ cache, runUtOperations maxCacheSize operations = some cache ∧ UtAccounting maxCacheSize operations cache := by
  obtain ⟨cache, hrun, h, htransactions⟩ := (utConsistent_empty maxCacheSize 0).run operations
  refine ⟨cache, hrun, h.lookup, htransactions, h.sum_sizes, h.cacheSize_le, h.sum_sizes_of_signer, ?_⟩
  intro transactionInfo
  rw [h.add_isSome_iff, h.find?_eq_none_iff]

end Catapult.CacheTx
