import Catapult.CacheTx.MemoryUtCache

/-!
# The unconfirmed transactions in their order

The container of the cache has the transactions themselves, by the ids of the cache. As a list a cache is added to at
the end, and a transaction that is removed right after it was added leaves the list that was there before.
-/

namespace Catapult.CacheTx
variable {Hash Key Body : Type} [LinearOrder Hash] [LinearOrder Key]

structure UtInfo (Hash Key Body : Type) extends UtTransactionInfo Hash Key where
  maxFee : UInt64
  body : Body

structure UtCache (Hash Key Body : Type) [LinearOrder Hash] [LinearOrder Key] where
  memory : MemoryUtCache Hash Key := {}
  data : SortedMap Nat (UtInfo Hash Key Body) := ∅

namespace UtCache

def add (maxCacheSize : UInt64) (cache : UtCache Hash Key Body) (info : UtInfo Hash Key Body) :
    Option (UtCache Hash Key Body) :=
  (cache.memory.add maxCacheSize info.toUtTransactionInfo).map fun memory =>
    ⟨memory, cache.data.insert memory.idSequence info⟩

/-- The transaction that is removed is not looked at. -/
def remove (cache : UtCache Hash Key Body) (hash : Hash) : Option (UtCache Hash Key Body) :=
  (cache.memory.remove hash).map fun removed =>
    ⟨removed.2, match cache.memory.idLookup.find? hash with
      | none => cache.data
      | some id => cache.data.erase id⟩

def infos (cache : UtCache Hash Key Body) : List (UtInfo Hash Key Body) := cache.data.entries.map Prod.snd

def removeAll (cache : UtCache Hash Key Body) : List (UtInfo Hash Key Body) × UtCache Hash Key Body :=
  (cache.infos, ⟨cache.memory.removeAll.2, ∅⟩)

structure Consistent (maxCacheSize : UInt64) (cache : UtCache Hash Key Body) : Prop where
  memory : UtConsistent maxCacheSize cache.memory
  entries : cache.data.entries.map (fun entry => (entry.1, entry.2.toUtTransactionInfo)) =
    cache.memory.transactionDataContainer.entries

namespace Consistent
variable {maxCacheSize : UInt64} {cache cache' : UtCache Hash Key Body} {info : UtInfo Hash Key Body}

theorem removeAll (maxCacheSize : UInt64) (cache : UtCache Hash Key Body) :
    Consistent maxCacheSize cache.removeAll.2 :=
  ⟨utConsistent_empty maxCacheSize cache.memory.idSequence, rfl⟩

theorem map_infos (h : Consistent maxCacheSize cache) :
    cache.infos.map UtInfo.toUtTransactionInfo = cache.memory.transactions := by
  rw [infos, MemoryUtCache.transactions, ← h.entries, List.map_map, List.map_map]
  rfl

theorem entityHash_ne (h : Consistent maxCacheSize cache) {hash : Hash}
    (hnone : cache.memory.idLookup.find? hash = none) : ∀ info ∈ cache.infos, info.entityHash ≠ hash := by
  intro info hinfo
  have hmem := List.mem_map_of_mem (f := UtInfo.toUtTransactionInfo) hinfo
  rw [h.map_infos] at hmem
  exact h.memory.find?_eq_none_iff.1 hnone _ hmem

theorem lt_next (h : Consistent maxCacheSize cache) :
    ∀ entry ∈ cache.data.entries, entry.1 < cache.memory.idSequence + 1 := by
  intro entry hentry
  refine h.memory.lt_next (entry.1, entry.2.toUtTransactionInfo) ?_
  rw [← h.entries]
  exact List.mem_map.2 ⟨entry, hentry, rfl⟩

theorem add (h : Consistent maxCacheSize cache) (hadd : cache.add maxCacheSize info = some cache') :
    Consistent maxCacheSize cache' ∧ cache'.infos = cache.infos ++ [info] ∧
      cache.memory.idLookup.find? info.entityHash = none := by
  obtain ⟨memory, hmemory, rfl⟩ := Option.map_eq_some_iff.1 hadd
  have hnew := (h.memory.add_isSome_iff.1 (Option.isSome_of_eq_some hmemory)).1
  have hconsistent := (h.memory.add hmemory).1
  rw [MemoryUtCache.add, hnew] at hmemory
  dsimp only at hmemory
  split at hmemory
  · cases hmemory
  · cases hmemory
    refine ⟨⟨hconsistent, ?_⟩, ?_, hnew⟩
    · rw [SortedMap.entries_insert_of_gt h.lt_next, SortedMap.entries_insert_of_gt h.memory.lt_next, List.map_append,
        h.entries]
      rfl
    · rw [infos, SortedMap.entries_insert_of_gt h.lt_next, List.map_append]
      rfl

theorem entityHash_eq_iff (h : Consistent maxCacheSize cache) {hash : Hash} {id : Nat}
    (hlookup : cache.memory.idLookup.find? hash = some id) :
    ∀ entry ∈ cache.data.entries, entry.2.entityHash ≠ hash ↔ entry.1 ≠ id := by
  intro entry hentry
  have hmem : (entry.1, entry.2.toUtTransactionInfo) ∈ cache.memory.transactionDataContainer.entries := by
    rw [← h.entries]
    exact List.mem_map.2 ⟨entry, hentry, rfl⟩
  have hfind := SortedMap.mem_entries_iff.1 hmem
  have hentryLookup := (h.memory.lookup entry.2.entityHash entry.1).2 ⟨_, hfind, rfl⟩
  refine not_congr ⟨?_, ?_⟩
  · rintro rfl
    rw [hlookup] at hentryLookup
    exact (Option.some_inj.1 hentryLookup).symm
  · rintro rfl
    obtain ⟨info, hinfo, rfl⟩ := (h.memory.lookup _ _).1 hlookup
    rw [hfind] at hinfo
    rw [← Option.some_inj.1 hinfo]

theorem remove (h : Consistent maxCacheSize cache) (hash : Hash) : ∃ cache', cache.remove hash = some cache' ∧
    Consistent maxCacheSize cache' ∧ cache'.infos = cache.infos.filter fun info => info.entityHash ≠ hash := by
  obtain ⟨⟨_, memory⟩, hremove, hconsistent, -⟩ := h.memory.remove hash
  rw [UtCache.remove, hremove]
  refine ⟨_, rfl, ?_⟩
  rw [MemoryUtCache.remove] at hremove
  cases hlookup : cache.memory.idLookup.find? hash with
  | none =>
    rw [hlookup] at hremove
    cases hremove
    exact ⟨h, (List.filter_eq_self.2 fun info hinfo => decide_eq_true (h.entityHash_ne hlookup info hinfo)).symm⟩
  | some id =>
    rw [hlookup] at hremove
    obtain ⟨data, hdata, hremove⟩ := Option.bind_eq_some_iff.1 hremove
    obtain ⟨weights, -, hremove⟩ := Option.bind_eq_some_iff.1 hremove
    cases hremove
    refine ⟨⟨hconsistent, ?_⟩, ?_⟩
    · dsimp only
      rw [SortedMap.entries_erase, SortedMap.entries_erase, ← h.entries, List.filter_map]
      rfl
    · rw [infos, SortedMap.entries_erase, infos, List.filter_map]
      refine congrArg (List.map Prod.snd) (List.filter_congr fun entry hentry => ?_)
      exact decide_eq_decide.2 (h.entityHash_eq_iff hlookup entry hentry).symm

theorem remove_add (h : Consistent maxCacheSize cache) (hadd : cache.add maxCacheSize info = some cache') :
    ∃ removed, cache'.remove info.entityHash = some removed ∧ Consistent maxCacheSize removed ∧
      removed.infos = cache.infos := by
  obtain ⟨hconsistent, hinfos, hnew⟩ := h.add hadd
  obtain ⟨removed, hremove, hremoved, hfilter⟩ := hconsistent.remove info.entityHash
  refine ⟨removed, hremove, hremoved, ?_⟩
  have hold : cache.infos.filter (fun other => other.entityHash ≠ info.entityHash) = cache.infos :=
    List.filter_eq_self.2 fun other hother => decide_eq_true (h.entityHash_ne hnew other hother)
  rw [hfilter, hinfos, List.filter_append, hold]
  simp

end Consistent
end UtCache
end Catapult.CacheTx
