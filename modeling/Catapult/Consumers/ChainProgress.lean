import Catapult.Consumers.ImportanceLinks
import Mathlib.Logic.Relation

/-!
# Chain switches never go back

The finalized blocks that the consumer is given come from the proof storage (`FinalizationBootstrapperService`): the
network has finalized the block of the last proof, and the local chain the block of the last proof that is in it.
While there is no new proof, a switch either brings in the block that the network has finalized or raises the score of
the chain and keeps that block where it is there. So no chain that was given up is stored again.
-/

namespace Catapult.Consumers.BlockchainSyncConsumer
open BlockchainProcessor (received)

variable {Hash Transaction Statement Delta Cache : Type} [DecidableEq Hash]
  {storage storage' elements : List (BlockElement Hash Transaction Statement)} {pair : HeightHashPair Hash}
  {world world' : World Hash Transaction Statement Delta Cache}

/-- `LoadHashAtHeight`: above the chain the hash is zero. -/
def loadHashAtHeight (zeroHash : Hash) (storage : List (BlockElement Hash Transaction Statement)) (height : Nat) :
    Hash :=
  ((elementAt storage height).map (·.entityHash)).getD zeroHash

/-- The supplier of the local finalized block. The proofs are those of the epochs, the last one first. -/
def findLocalFinalized (zeroHash : Hash) (storage : List (BlockElement Hash Transaction Statement))
    (proofs : List (HeightHashPair Hash)) : Option (HeightHashPair Hash) :=
  proofs.find? fun proof => proof.hash = loadHashAtHeight zeroHash storage proof.height

omit [DecidableEq Hash] in
theorem elementAt_of_mem (hstored : Stored storage) {element : BlockElement Hash Transaction Statement}
    (hmem : element ∈ storage) : elementAt storage element.block.height = some element := by
  obtain ⟨i, hi⟩ := List.getElem?_of_mem hmem
  rw [hstored i element hi, elementAt, if_neg (by omega), Nat.add_sub_cancel_left]
  exact hi

theorem findLocalFinalized_of_holdsBlock {zeroHash : Hash} {proofs : List (HeightHashPair Hash)}
    (hstored : Stored storage)
    (hnetwork : proofs.head? = some pair) (hholds : HoldsBlock storage pair) :
    findLocalFinalized zeroHash storage proofs = some pair := by
  obtain ⟨element, hmem, hheight, hhash⟩ := hholds
  have hload : loadHashAtHeight zeroHash storage pair.height = pair.hash := by
    rw [loadHashAtHeight, ← hheight, elementAt_of_mem hstored hmem]
    exact hhash
  cases proofs with
  | nil => cases hnetwork
  | cons proof proofs =>
    cases hnetwork
    rw [findLocalFinalized, List.find?_cons_of_pos]
    exact decide_eq_true hload.symm

/-- A commit of the consumer, with the finalized blocks of the proof storage. -/
def SyncStep (zeroHash : Hash) (proofs : List (HeightHashPair Hash))
    (world world' : World Hash Transaction Statement Delta Cache) : Prop :=
  ∃ (handlers : BlockchainSyncHandlers Hash Transaction Statement Delta Cache) (importanceGrouping : Nat)
    (elements : List (BlockElement Hash Transaction Statement)) (source : InputSource),
    findLocalFinalized zeroHash world.storage proofs = some handlers.localFinalizedHeightHashPair ∧
    proofs.head? = some handlers.networkFinalizedHeightHashPair ∧
    (∀ first ∈ elements.head?, ConsecutiveFrom first.block.height elements) ∧
    sync handlers importanceGrouping elements source world = .ok () world'

def chainScore : List (BlockElement Hash Transaction Statement) → Nat
  | [] => 0
  | first :: elements => scoreAfter first.block (elements.map (·.block))

/-- The second chain is better: only it has the block, or it has the block if the first one has, and more score. -/
def Better (pair : HeightHashPair Hash) (storage storage' : List (BlockElement Hash Transaction Statement)) : Prop :=
  ¬HoldsBlock storage pair ∧ HoldsBlock storage' pair ∨
    (HoldsBlock storage pair → HoldsBlock storage' pair) ∧ chainScore storage < chainScore storage'

section
omit [DecidableEq Hash]

theorem Better.trans {storage'' : List (BlockElement Hash Transaction Statement)} (h : Better pair storage storage')
    (h' : Better pair storage' storage'') : Better pair storage storage'' := by
  rcases h with ⟨hnot, hholds⟩ | ⟨hkeep, hlt⟩
  · rcases h' with ⟨hnot', -⟩ | ⟨hkeep', -⟩
    · exact absurd hholds hnot'
    · exact .inl ⟨hnot, hkeep' hholds⟩
  · rcases h' with ⟨hnot', hholds'⟩ | ⟨hkeep', hlt'⟩
    · exact .inl ⟨fun hholds => hnot' (hkeep hholds), hholds'⟩
    · exact .inr ⟨fun hholds => hkeep' (hkeep hholds), Nat.lt_trans hlt hlt'⟩

theorem chainScore_append (kept : List (BlockElement Hash Transaction Statement))
    (common : BlockElement Hash Transaction Statement) (rest : List (BlockElement Hash Transaction Statement)) :
    chainScore (kept ++ common :: rest) =
      chainScore (kept ++ [common]) + scoreAfter common.block (rest.map (·.block)) := by
  cases kept with
  | nil => exact (Nat.zero_add _).symm
  | cons first kept =>
    rw [List.cons_append, chainScore, List.append_cons, List.map_append, scoreAfter_append, List.cons_append,
      chainScore]
    simp

theorem ConsecutiveFrom.append {startHeight : Nat} (h : ConsecutiveFrom startHeight storage)
    (helements : ConsecutiveFrom (startHeight + storage.length) elements) :
    ConsecutiveFrom startHeight (storage ++ elements) := by
  intro i element hi
  rw [List.getElem?_append] at hi
  split at hi
  · exact h i element hi
  · rw [helements _ _ hi]
    omega

theorem holdsBlock_append :
    HoldsBlock (storage ++ elements) pair ↔ HoldsBlock storage pair ∨ HoldsBlock elements pair := by
  simp only [HoldsBlock, List.mem_append, or_and_right, exists_or]

theorem holdsBlock_congr (h : storage.map received = elements.map received) :
    HoldsBlock storage pair ↔ HoldsBlock elements pair := by
  have hiff : ∀ blocks : List (BlockElement Hash Transaction Statement), HoldsBlock blocks pair ↔
      (pair.height, pair.hash) ∈ blocks.map fun element => ((received element).1.height, (received element).2.1) := by
    intro blocks
    simp only [HoldsBlock, List.mem_map, Prod.mk.injEq]
    rfl
  rw [hiff, hiff, map_of_map_received (fun r => (r.1.height, r.2.1)) h]

theorem chainScore_congr (h : storage.map received = elements.map received) :
    chainScore storage = chainScore elements := by
  cases storage <;> cases elements
  case cons.cons first storage first' elements =>
    obtain ⟨hfirst, hrest⟩ := List.cons.inj h
    rw [chainScore, chainScore, show first.block = first'.block from congrArg Prod.fst hfirst,
      show storage.map (·.block) = elements.map (·.block) from map_of_map_received Prod.fst hrest]
  all_goals first | rfl | cases h

end

section Switched
variable {handlers : BlockchainSyncHandlers Hash Transaction Statement Delta Cache} {source : InputSource}
  {kept replaced processed : List (BlockElement Hash Transaction Statement)}
  {common : BlockElement Hash Transaction Statement} {cacheDelta : Delta}

theorem Switched.stored (h : Switched handlers source elements world world' kept common replaced processed cacheDelta)
    (hstored : Stored world.storage)
    (hheights : ∀ first ∈ elements.head?, ConsecutiveFrom first.block.height elements) : Stored world'.storage := by
  obtain ⟨first, hfirst, hstart⟩ := Option.map_eq_some_iff.1 h.head_height
  have hconsecutive := hheights first hfirst
  rw [hstart] at hconsecutive
  have hkept : ConsecutiveFrom 1 (kept ++ [common]) := by
    intro i element hi
    refine hstored i element ?_
    rw [h.storage_eq, List.append_cons kept, List.getElem?_append_left]
    · exact hi
    · exact (List.getElem?_eq_some_iff.1 hi).1
  have hprocessed : ConsecutiveFrom (kept.length + 2) processed := by
    intro i element hi
    obtain ⟨peer, hpeer, heq⟩ := exists_received_eq h.received_eq hi
    rw [← show peer.block = element.block from congrArg Prod.fst heq]
    exact hconsecutive i peer hpeer
  have hlength : 1 + (kept ++ [common]).length = kept.length + 2 := by simp; omega
  have hboth := hkept.append (hlength ▸ hprocessed)
  rw [Stored, h.storage_eq', List.append_cons kept]
  exact hboth

theorem Switched.better (h : Switched handlers source elements world world' kept common replaced processed cacheDelta)
    (hstored : Stored world.storage)
    (hfinalized : HoldsBlock world.storage handlers.networkFinalizedHeightHashPair →
      handlers.localFinalizedHeightHashPair = handlers.networkFinalizedHeightHashPair) :
    Better handlers.networkFinalizedHeightHashPair world.storage world'.storage := by
  have hblocks : processed.map (·.block) = elements.map (·.block) := map_of_map_received Prod.fst h.received_eq
  rcases h.allowed with ⟨helements, hnot⟩ | ⟨habove, hscore⟩
  · refine .inl ⟨hnot, ?_⟩
    rw [← holdsBlock_congr h.received_eq] at helements
    rw [h.storage_eq', List.append_cons kept, holdsBlock_append]
    exact .inr helements
  · refine .inr ⟨fun hholds => ?_, ?_⟩
    · -- the block that the network has finalized is not above the common block
      have hlocal := hfinalized hholds
      obtain ⟨element, hmem, hheight, hhash⟩ := hholds
      obtain ⟨hpos, hget⟩ := elementAt_eq_some (elementAt_of_mem hstored hmem)
      rw [hlocal] at habove
      rw [h.storage_eq', List.append_cons kept, holdsBlock_append]
      refine .inl ⟨element, ?_, hheight, hhash⟩
      rw [h.storage_eq, List.append_cons kept, List.getElem?_append_left] at hget
      · exact List.mem_of_getElem? hget
      · rw [List.length_append, List.length_singleton]
        omega
    · rw [h.storage_eq, h.storage_eq', chainScore_append, chainScore_append _ _ processed, hblocks]
      exact Nat.add_lt_add_left hscore _

end Switched

theorem SyncStep.spec {zeroHash : Hash} {proofs : List (HeightHashPair Hash)} (hstored : Stored world.storage)
    (h : SyncStep zeroHash proofs world world') : ∃ pair, proofs.head? = some pair ∧ Stored world'.storage ∧
      Better pair world.storage world'.storage := by
  obtain ⟨handlers, importanceGrouping, elements, source, hlocal, hnetwork, hheights, hsync⟩ := h
  obtain ⟨kept, common, replaced, processed, cacheDelta, hswitched⟩ := switched_of_sync_eq_ok hstored hheights hsync
  refine ⟨_, hnetwork, hswitched.stored hstored hheights, hswitched.better hstored fun hholds => ?_⟩
  rw [findLocalFinalized_of_holdsBlock hstored hnetwork hholds] at hlocal
  exact (Option.some.inj hlocal).symm

/-- While the proofs stay the same, every sequence of switches leads to a better chain. So none leads back, and the
chain that has the block that the network has finalized keeps it, and its score increases. -/
theorem switches_never_return (zeroHash : Hash) (proofs : List (HeightHashPair Hash))
    (hstored : Stored world.storage) (h : Relation.TransGen (SyncStep zeroHash proofs) world world') :
    (∃ pair, proofs.head? = some pair ∧ Better pair world.storage world'.storage) ∧
      world'.storage.map received ≠ world.storage.map received ∧ ∀ pair ∈ proofs.head?, HoldsBlock world.storage pair →
        HoldsBlock world'.storage pair ∧ chainScore world.storage < chainScore world'.storage := by
  have hbetter : ∃ pair, proofs.head? = some pair ∧ Stored world'.storage ∧
      Better pair world.storage world'.storage := by
    induction h with
    | single hstep => exact hstep.spec hstored
    | tail _ hstep ih =>
      obtain ⟨pair, hpair, hstored₁, hfirst⟩ := ih
      obtain ⟨pair', hpair', hstored₂, hnext⟩ := hstep.spec hstored₁
      cases hpair.symm.trans hpair'
      exact ⟨pair, hpair, hstored₂, hfirst.trans hnext⟩
  obtain ⟨pair, hpair, -, hbetter⟩ := hbetter
  refine ⟨⟨pair, hpair, hbetter⟩, fun hsame => ?_, fun pair' hpair' hholds => ?_⟩
  · rcases hbetter with ⟨hnot, hholds⟩ | ⟨-, hlt⟩
    · exact hnot ((holdsBlock_congr hsame).1 hholds)
    · exact Nat.ne_of_lt hlt (chainScore_congr hsame).symm
  · cases hpair.symm.trans hpair'
    rcases hbetter with ⟨hnot, -⟩ | ⟨hkeep, hlt⟩
    · exact absurd hholds hnot
    · exact ⟨hkeep hholds, hlt⟩

theorem switches_never_return_sample : ∃ world', SyncStep 0 [⟨1, 10⟩] sampleWorld world' ∧
    (∃ pair, [⟨1, 10⟩].head? = some pair ∧ Better pair sampleWorld.storage world'.storage) ∧
    world'.storage.map received ≠ sampleWorld.storage.map received := by
  have hstep : ∃ world', SyncStep 0 [⟨1, 10⟩] sampleWorld world' := by
    refine ⟨_, sampleHandlers, 2, samplePeers, .remotePull, rfl, rfl, ?_, rfl⟩
    rintro _ ⟨⟩
    exact consecutiveFrom_samplePeers
  obtain ⟨world', hstep⟩ := hstep
  obtain ⟨hbetter, hne, -⟩ := switches_never_return 0 [⟨1, 10⟩] stored_sampleWorld (.single hstep)
  exact ⟨world', hstep, hbetter, hne⟩

end Catapult.Consumers.BlockchainSyncConsumer
