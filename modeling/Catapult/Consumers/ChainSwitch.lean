import Catapult.Consumers.SyncRun

/-!
# The chain switching rule

A stored chain is given up for a list of peer blocks only when the list is better or has the block that the network has
finalized, and then the blocks above the common block are undone, newest first, and replaced by the list.
-/

namespace Catapult.Consumers.BlockchainSyncConsumer
open BlockchainProcessor (received)
open Chain (add64)

variable {Hash Transaction Statement Delta Cache : Type} [DecidableEq Hash]
  {handlers : BlockchainSyncHandlers Hash Transaction Statement Delta Cache} {importanceGrouping : Nat}
  {storage elements elements' : List (BlockElement Hash Transaction Statement)}
  {element first : BlockElement Hash Transaction Statement} {pair : HeightHashPair Hash} {source : InputSource}
  {world world' : World Hash Transaction Statement Delta Cache} {startHeight height : Nat}

def ConsecutiveFrom (startHeight : Nat) (elements : List (BlockElement Hash Transaction Statement)) : Prop :=
  ∀ (i : Nat) (element : BlockElement Hash Transaction Statement), elements[i]? = some element →
    element.block.height = startHeight + i

def Stored (storage : List (BlockElement Hash Transaction Statement)) : Prop := ConsecutiveFrom 1 storage

def HoldsBlock (elements : List (BlockElement Hash Transaction Statement)) (pair : HeightHashPair Hash) : Prop :=
  ∃ element ∈ elements, element.block.height = pair.height ∧ element.entityHash = pair.hash

/-- The chain `kept ++ common :: replaced` was given up for `kept ++ common :: processed`, where `processed` are the
peer elements with completed metadata. -/
structure Switched (handlers : BlockchainSyncHandlers Hash Transaction Statement Delta Cache) (source : InputSource)
    (elements : List (BlockElement Hash Transaction Statement))
    (world world' : World Hash Transaction Statement Delta Cache)
    (kept : List (BlockElement Hash Transaction Statement)) (common : BlockElement Hash Transaction Statement)
    (replaced processed : List (BlockElement Hash Transaction Statement)) (cacheDelta : Delta) : Prop where
  storage_eq : world.storage = kept ++ common :: replaced
  /-- The list starts above the common block, which is at height 1 at least. -/
  head_height : elements.head?.map (·.block.height) = some (kept.length + 2)
  /-- Only a pull from a remote replaces more than the last block. -/
  replaced_le : source ≠ .remotePull → replaced.length ≤ 1
  allowed : HoldsBlock elements handlers.networkFinalizedHeightHashPair ∧
      ¬HoldsBlock world.storage handlers.networkFinalizedHeightHashPair ∨
    handlers.localFinalizedHeightHashPair.height < kept.length + 2 ∧
      scoreAfter common.block (replaced.map (·.block)) < scoreAfter common.block (elements.map (·.block))
  received_eq : processed.map received = elements.map received
  storage_eq' : world'.storage = kept ++ common :: processed
  /-- The replaced blocks are undone, newest first; the difference of the scores is reported, and so are the
  transactions of the replaced blocks that are not in the list, in the order of the chain. -/
  calls_eq : world'.calls = world.calls ++ unwindCalls common replaced ++
    [.commitStep .blocksWritten,
      .stateChange cacheDelta ((scoreAfter common.block (elements.map (·.block)) : Int) -
        scoreAfter common.block (replaced.map (·.block))) (kept.length + 1 + elements.length),
      .preStateWritten cacheDelta (kept.length + 1 + elements.length),
      .commitStep .stateWritten, .commitStep .allUpdated,
      .transactionsChange (elements.flatMap fun element => element.transactions.map (·.entityHash))
        ((replaced.flatMap (·.transactions)).filter fun transaction =>
          transaction.entityHash ∉ elements.flatMap fun element => element.transactions.map (·.entityHash))]

omit [DecidableEq Hash] in
theorem elementAt_eq_some (h : elementAt storage height = some element) :
    1 ≤ height ∧ storage[height - 1]? = some element := by
  unfold elementAt at h
  split at h
  · cases h
  · exact ⟨by omega, h⟩

omit [DecidableEq Hash] in
theorem take_append_cons_drop (h : elementAt storage height = some element) :
    storage = storage.take (height - 1) ++ element :: storage.drop height ∧
    (storage.take (height - 1)).length + 1 = height ∧
    storage.take height = storage.take (height - 1) ++ [element] := by
  obtain ⟨hpos, hget⟩ := elementAt_eq_some h
  obtain ⟨hlt, hval⟩ := List.getElem?_eq_some_iff.1 hget
  refine ⟨?_, ?_, ?_⟩
  · calc storage = storage.take (height - 1) ++ storage.drop (height - 1) := (List.take_append_drop _ _).symm
      _ = _ := by rw [List.drop_eq_getElem_cons hlt, hval, Nat.sub_add_cancel hpos]
  · rw [List.length_take]
    omega
  · rw [← Nat.sub_add_cancel hpos, List.take_add_one, hget, Nat.add_sub_cancel]
    rfl

theorem not_holdsBlock_of_containsStored (hstored : Stored storage) (h : containsStored storage pair = false) :
    ¬HoldsBlock storage pair := by
  rintro ⟨element, hmem, hheight, hhash⟩
  obtain ⟨i, hi⟩ := List.getElem?_of_mem hmem
  have hat : elementAt storage pair.height = some element := by
    rw [← hheight, hstored i element hi, elementAt, if_neg (by omega), Nat.add_sub_cancel_left]
    exact hi
  rw [containsStored, hat, Option.any_some] at h
  exact of_decide_eq_false h hhash

theorem holdsBlock_of_containsElement (hheights : ConsecutiveFrom startHeight elements)
    (h : containsElement elements startHeight pair) : HoldsBlock elements pair := by
  unfold containsElement at h
  dsimp only at h
  split at h
  · rename_i hrange
    rw [Option.any_eq_true] at h
    obtain ⟨element, hget, hhash⟩ := h
    refine ⟨element, List.mem_of_getElem? hget, ?_, of_decide_eq_true hhash⟩
    rw [hheights _ _ hget]
    omega
  · cases h

theorem isLinked_eq_true {localHeight : Nat} (h : isLinked startHeight localHeight source) :
    2 ≤ startHeight ∧ startHeight ≤ localHeight + 1 ∧ (source ≠ .remotePull → localHeight ≤ startHeight) := by
  unfold isLinked at h
  simp only [Bool.and_eq_true, decide_eq_true_eq, Bool.or_eq_true] at h
  obtain ⟨⟨hstart, hend⟩, hsource⟩ := h
  refine ⟨hstart, Nat.le_trans hend (Nat.mod_le _ _), fun hne => hsource.resolve_left hne⟩

section
omit [DecidableEq Hash]

theorem map_of_map_received {β : Type} (f : Block Hash × Hash × List (TransactionElement Hash Transaction) → β)
    (h : elements'.map received = elements.map received) :
    elements'.map (fun element => f (received element)) = elements.map (fun element => f (received element)) := by
  have hmap := congrArg (List.map f) h
  rw [List.map_map, List.map_map] at hmap
  exact hmap

theorem extractTransactionHashes_of_map_received (h : elements'.map received = elements.map received) :
    extractTransactionHashes elements' = extractTransactionHashes elements := by
  unfold extractTransactionHashes
  rw [List.flatMap_def, List.flatMap_def]
  exact congrArg _ (map_of_map_received (fun r => r.2.2.map (·.entityHash)) h)

theorem getLastD_height (hheights : ConsecutiveFrom startHeight elements) (hne : elements ≠ [])
    (h : elements'.map received = elements.map received) :
    (elements'.getLastD first).block.height = startHeight + (elements.length - 1) := by
  have hlen : elements'.length = elements.length := by
    rw [← List.length_map, h, List.length_map]
  have hblocks := map_of_map_received (fun r => r.1.height) h
  obtain ⟨last, hlast⟩ : ∃ last, elements[elements.length - 1]? = some last :=
    ⟨_, List.getElem?_eq_getElem (by have := List.length_pos_iff.2 hne; omega)⟩
  obtain ⟨last', hlast'⟩ : ∃ last', elements'[elements.length - 1]? = some last' :=
    ⟨_, List.getElem?_eq_getElem (by have := List.length_pos_iff.2 hne; omega)⟩
  have hsame := congrArg (·[elements.length - 1]?) hblocks
  simp only [List.getElem?_map, hlast, hlast', Option.map_some, Option.some.injEq] at hsame
  rw [List.getLastD_eq_getLast?, List.getLast?_eq_getElem?, hlen, hlast', Option.getD_some, ← hheights _ _ hlast]
  exact hsame

end

theorem switched_of_sync_eq_ok {u : Unit} (hstored : Stored world.storage)
    (hheights : ∀ first ∈ elements.head?, ConsecutiveFrom first.block.height elements)
    (h : sync handlers importanceGrouping elements source world = .ok u world') :
    ∃ kept common replaced processed cacheDelta,
      Switched handlers source elements world world' kept common replaced processed cacheDelta := by
  obtain ⟨first, syncState, processed, cacheDelta, hfirst, hchecked, hreceived, -, hstorage, hcalls⟩ := sync_eq_ok h
  obtain ⟨hstart, hend, hsource⟩ := isLinked_eq_true hchecked.linked
  have hconsecutive := hheights first hfirst
  have hne : elements ≠ [] := by
    rintro rfl
    cases hfirst
  obtain ⟨hsplit, hlength, htake⟩ := take_append_cons_drop hchecked.common
  have hcommon : syncState.commonBlockElement.block.height = first.block.height - 1 := by
    rw [hstored _ _ (elementAt_eq_some hchecked.common).2]
    omega
  have hheight : (world.storage.take (first.block.height - 1 - 1)).length + 2 = first.block.height := by omega
  refine ⟨_, syncState.commonBlockElement, world.storage.drop (first.block.height - 1), processed, cacheDelta,
    { storage_eq := hsplit, head_height := ?_, replaced_le := ?_, allowed := ?_, received_eq := hreceived,
      storage_eq' := ?_, calls_eq := ?_ }⟩
  · rw [hfirst, Option.map_some, hheight]
  · intro hpull
    have := hsource hpull
    rw [List.length_drop]
    omega
  · rw [hheight]
    refine hchecked.allowed.imp_left fun hupdate => ?_
    unfold isFinalizedBlockUpdate at hupdate
    rw [Bool.and_eq_true, Bool.not_eq_true'] at hupdate
    exact ⟨holdsBlock_of_containsElement hconsecutive hupdate.2,
      not_holdsBlock_of_containsStored hstored hupdate.1⟩
  · rw [hstorage, hcommon, htake, List.append_assoc, List.singleton_append]
  · have hnew : (processed.getLastD first).block.height =
        (world.storage.take (first.block.height - 1 - 1)).length + 1 + elements.length := by
      have := List.length_pos_iff.2 hne
      rw [getLastD_height hconsecutive hne hreceived]
      omega
    rw [hcalls, commitCalls, hchecked.scoreDelta, hchecked.removed, hnew,
      extractTransactionHashes_of_map_received hreceived]
    rfl

/-- The consumer commits only a switch that the rule allows, and changes nothing otherwise. -/
theorem sync_switches (handlers : BlockchainSyncHandlers Hash Transaction Statement Delta Cache)
    (importanceGrouping : Nat) (source : InputSource) (elements : List (BlockElement Hash Transaction Statement))
    (world : World Hash Transaction Statement Delta Cache) (hstored : Stored world.storage)
    (hheights : ∀ first ∈ elements.head?, ConsecutiveFrom first.block.height elements) :
    match sync handlers importanceGrouping elements source world with
    | .ok _ world' => ∃ kept common replaced processed cacheDelta,
        Switched handlers source elements world world' kept common replaced processed cacheDelta
    | .error _ world' => OnlyUndone world world' := by
  split
  · rename_i h
    exact switched_of_sync_eq_ok hstored hheights h
  · rename_i h
    exact sync_eq_error h

def sampleProcessor : BlockchainProcessor Nat Nat Unit Nat where
  checkGenerationHash _ _ _ _ := .ok 0
  batchEntityProcessor _ delta := (.success, delta, ())
  calculateStateHash _ _ := (0, [])
  receiptValidationEnabled := false
  calculateMerkleHash _ := 0
  zeroHash := 0

def sampleHandlers : BlockchainSyncHandlers Nat Nat Unit Nat Nat where
  difficultyChecker _ _ := true
  localFinalizedHeightHashPair := ⟨1, 10⟩
  networkFinalizedHeightHashPair := ⟨1, 10⟩
  processor := sampleProcessor
  undoBlock _ _ delta := delta + 1
  createDelta cache := cache
  pruneTime _ delta := delta
  pruneHeight _ delta := delta
  lastFinalizedHeight _ := 1
  setLastFinalizedHeight _ delta := delta
  commit delta _ := delta

def sampleElement (type : EntityType) (height hash previousHash previousImportanceHash : Nat)
    (transactions : List Nat) :
    BlockElement Nat Nat Unit :=
  ⟨⟨type, height, 1000 * height, 100, previousHash, 0, 0, previousImportanceHash⟩, hash, 0, [],
    transactions.map fun hash => ⟨0, hash, hash⟩, none⟩

def sampleWorld : World Nat Nat Unit Nat Nat :=
  ⟨[sampleElement .blockNemesis 1 10 0 0 [], sampleElement .blockImportance 2 20 10 10 [7],
    sampleElement .blockNormal 3 30 20 0 [8, 9]], 0, []⟩

def samplePeers : List (BlockElement Nat Nat Unit) :=
  [sampleElement .blockNormal 3 31 20 0 [9], sampleElement .blockImportance 4 40 31 20 []]

theorem stored_sampleWorld : Stored sampleWorld.storage := by
  intro i element hi
  match i, hi with
  | 0, rfl => rfl
  | 1, rfl => rfl
  | 2, rfl => rfl

theorem consecutiveFrom_samplePeers : ConsecutiveFrom 3 samplePeers := by
  intro i element hi
  match i, hi with
  | 0, rfl => rfl
  | 1, rfl => rfl

theorem sync_switches_sample : ∃ world', sync sampleHandlers 2 samplePeers .remotePull sampleWorld = .ok () world' ∧
    ∃ kept common replaced processed cacheDelta,
      Switched sampleHandlers .remotePull samplePeers sampleWorld world' kept common replaced processed cacheDelta := by
  refine ⟨_, rfl, ?_⟩
  exact sync_switches sampleHandlers 2 .remotePull samplePeers sampleWorld stored_sampleWorld (by
    rintro _ ⟨⟩
    exact consecutiveFrom_samplePeers)

end Catapult.Consumers.BlockchainSyncConsumer
