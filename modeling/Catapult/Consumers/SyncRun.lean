import Catapult.Consumers.BlockchainSyncConsumer

/-!
# Runs of `BlockchainSyncConsumer`

One lemma for each part of the consumer: what a run that continued has checked and changed, and that a run that was
interrupted has only undone blocks on the delta of the cache.
-/

namespace Catapult.Consumers

section
variable {Hash Transaction Statement Delta Cache : Type}

def World.after (world : World Hash Transaction Statement Delta Cache)
    (calls : List (HandlerCall Hash Transaction Statement Delta)) : World Hash Transaction Statement Delta Cache :=
  { world with calls := world.calls ++ calls }

@[simp]
theorem World.storage_after (world : World Hash Transaction Statement Delta Cache)
    (calls : List (HandlerCall Hash Transaction Statement Delta)) : (world.after calls).storage = world.storage := rfl

theorem World.after_nil (world : World Hash Transaction Statement Delta Cache) : world.after [] = world := by
  unfold World.after
  rw [List.append_nil]

theorem World.after_after (world : World Hash Transaction Statement Delta Cache)
    (calls calls' : List (HandlerCall Hash Transaction Statement Delta)) :
    (world.after calls).after calls' = world.after (calls ++ calls') := by
  unfold World.after
  rw [List.append_assoc]

end

namespace BlockchainSyncConsumer
open Stateful
open Chain (add64)
open BlockchainProcessor (received map_received_process)

variable {Hash Transaction Statement Delta Cache : Type}
  {handlers : BlockchainSyncHandlers Hash Transaction Statement Delta Cache} {importanceGrouping : Nat}
  {elements elements' : List (BlockElement Hash Transaction Statement)}
  {element common : BlockElement Hash Transaction Statement} {peerStartHeight height : Nat} {source : InputSource}
  {syncState syncState' : SyncState Hash Transaction Statement Delta}
  {world world' : World Hash Transaction Statement Delta Cache}

theorem get_eq_ok {w w' : World Hash Transaction Statement Delta Cache}
    (h : (get : SyncM Hash Transaction Statement Delta Cache _) world = .ok w w') : world = w ∧ world = w' := by
  cases h
  exact ⟨rfl, rfl⟩

theorem call_eq_ok {handlerCall : HandlerCall Hash Transaction Statement Delta} {u : Unit}
    (h : call handlerCall world = .ok u world') : world.after [handlerCall] = world' := by
  cases h
  rfl

theorem abortIf_eq_ok {condition : Bool} {failure : ConsumerFailure} {u : Unit}
    (h : abortIf condition failure world = .ok u world') : condition = false ∧ world = world' := by
  unfold abortIf at h
  split at h
  · cases h
  · rename_i hnot
    cases h
    exact ⟨eq_false_of_ne_true hnot, rfl⟩

theorem orThrow_eq_ok {α : Type} {value : Option α} {a : α} (h : orThrow value world = .ok a world') :
    value = some a ∧ world = world' := by
  unfold orThrow at h
  split at h
  · cases h
    exact ⟨rfl, rfl⟩
  · cases h

theorem loadBlockElement_eq_ok (h : loadBlockElement height world = .ok element world') :
    elementAt world.storage height = some element ∧ world = world' := by
  obtain ⟨w, w', hget, h⟩ := bind_eq_ok h
  obtain ⟨rfl, rfl⟩ := get_eq_ok hget
  exact orThrow_eq_ok h

def undoCalls (common : BlockElement Hash Transaction Statement)
    (blocks : List (BlockElement Hash Transaction Statement)) : List (HandlerCall Hash Transaction Statement Delta) :=
  blocks.reverse.map (.undoBlock · .rollback) ++ [.undoBlock common .common]

theorem undoCalls_append_singleton {blocks : List (BlockElement Hash Transaction Statement)} :
    (undoCalls common (blocks ++ [element]) : List (HandlerCall Hash Transaction Statement Delta)) =
      .undoBlock element .rollback :: undoCalls common blocks := by
  unfold undoCalls
  rw [List.reverse_append, List.reverse_singleton, List.singleton_append, List.map_cons, List.cons_append]

def blocksBetween (storage : List (BlockElement Hash Transaction Statement)) (commonBlockHeight height : Nat) :
    List (BlockElement Hash Transaction Statement) :=
  (storage.take height).drop commonBlockHeight

theorem blocksBetween_succ {storage : List (BlockElement Hash Transaction Statement)} {commonBlockHeight : Nat}
    (hle : commonBlockHeight ≤ height) (helement : elementAt storage (height + 1) = some element) :
    blocksBetween storage commonBlockHeight (height + 1) =
      blocksBetween storage commonBlockHeight height ++ [element] := by
  unfold blocksBetween
  have hget : storage[height]? = some element := helement
  have hlen : height < storage.length := (List.getElem?_eq_some_iff.1 hget).1
  rw [List.take_add_one, hget, Option.toList_some, List.drop_append_of_le_length]
  rw [List.length_take]
  omega

theorem addChild_eq_some {result result' : UnwindResult Hash Transaction}
    {child : Option (BlockElement Hash Transaction Statement)} (h : addChild result element child = some result') :
    result'.score = result.score + scoreAfter element.block (child.toList.map (·.block)) ∧
    result'.transactionInfos = child.toList.flatMap (·.transactions) ++ result.transactionInfos := by
  cases child with
  | none =>
    cases h
    exact ⟨rfl, rfl⟩
  | some child =>
    obtain ⟨score, hscore, hresult⟩ := Option.bind_eq_some_iff.1 h
    rw [← Option.some.inj hresult]
    refine ⟨addScore_eq_some hscore, ?_⟩
    simp only [Option.toList_some, List.flatMap_cons, List.flatMap_nil, List.append_nil]

/-- The loop from a height down, by induction on the height: the blocks between are undone, and they and the child are
added to the result. -/
theorem unwindFrom_eq_ok {undoBlock : BlockElement Hash Transaction Statement → UndoBlockType → Delta → Delta}
    {commonBlockHeight : Nat} {child : Option (BlockElement Hash Transaction Statement)}
    {result result' : UnwindResult Hash Transaction} {delta delta' : Delta}
    (h : unwindFrom undoBlock commonBlockHeight height child result delta world = .ok (result', delta') world')
    (hle : commonBlockHeight ≤ height) (hcommon : elementAt world.storage commonBlockHeight = some common) :
    world' = world.after (undoCalls common (blocksBetween world.storage commonBlockHeight height)) ∧
    result'.score = result.score + scoreAfter common.block
      ((blocksBetween world.storage commonBlockHeight height ++ child.toList).map (·.block)) ∧
    result'.transactionInfos =
      (blocksBetween world.storage commonBlockHeight height ++ child.toList).flatMap (·.transactions) ++
        result.transactionInfos := by
  induction height generalizing child result delta world with
  | zero => cases h
  | succ height ih =>
    unfold unwindFrom at h
    obtain ⟨element, w, hload, h⟩ := bind_eq_ok h
    obtain ⟨helement, rfl⟩ := loadBlockElement_eq_ok hload
    obtain ⟨added, w, hresult, h⟩ := bind_eq_ok h
    obtain ⟨hadd, rfl⟩ := orThrow_eq_ok hresult
    obtain ⟨hscore, hinfos⟩ := addChild_eq_some hadd
    split at h
    · rename_i heq
      cases h
      subst heq
      rw [hcommon] at helement
      cases helement
      have hnil : blocksBetween world.storage (height + 1) (height + 1) = [] := by
        rw [blocksBetween, List.drop_eq_nil_iff, List.length_take]
        omega
      rw [hnil]
      exact ⟨rfl, hscore, hinfos⟩
    · rename_i hne
      obtain ⟨_, w, hcall, h⟩ := bind_eq_ok h
      obtain rfl := call_eq_ok hcall
      obtain ⟨hworld, hscore', hinfos'⟩ := ih h (by omega) hcommon
      simp only [Option.toList_some, World.storage_after] at hworld hscore' hinfos'
      rw [blocksBetween_succ (by omega) helement]
      refine ⟨?_, ?_, ?_⟩
      · rw [hworld, undoCalls_append_singleton, World.after_after, List.singleton_append]
      · rw [hscore', hscore, @List.map_append _ _ _ _ child.toList, scoreAfter_append, List.map_append,
          List.map_singleton, List.getLastD_concat]
        omega
      · rw [hinfos', hinfos, @List.flatMap_append _ _ _ child.toList, List.append_assoc]

def unwindCalls (common : BlockElement Hash Transaction Statement)
    (blocks : List (BlockElement Hash Transaction Statement)) : List (HandlerCall Hash Transaction Statement Delta) :=
  if blocks.isEmpty then [] else undoCalls common blocks

theorem unwindLocalChain_eq_ok {commonBlockHeight : Nat} {result : UnwindResult Hash Transaction} {delta delta' : Delta}
    (h : unwindLocalChain handlers world.storage.length commonBlockHeight delta world = .ok (result, delta') world')
    (hcommon : elementAt world.storage commonBlockHeight = some common) :
    world' = world.after (unwindCalls common (world.storage.drop commonBlockHeight)) ∧
    result.score = scoreAfter common.block ((world.storage.drop commonBlockHeight).map (·.block)) ∧
    result.transactionInfos = (world.storage.drop commonBlockHeight).flatMap (·.transactions) := by
  have hle : commonBlockHeight ≤ world.storage.length := by
    unfold elementAt at hcommon
    split at hcommon
    · cases hcommon
    · have := (List.getElem?_eq_some_iff.1 hcommon).1
      omega
  unfold unwindLocalChain at h
  split at h
  · rename_i heq
    cases h
    rw [← heq, List.drop_length]
    exact ⟨(World.after_nil world).symm, rfl, rfl⟩
  · rename_i hne
    obtain ⟨hworld, hscore, hinfos⟩ := unwindFrom_eq_ok h hle hcommon
    have hnil : ¬(world.storage.drop commonBlockHeight).isEmpty := by
      rw [List.isEmpty_iff, List.drop_eq_nil_iff]
      omega
    rw [blocksBetween, List.take_length, Option.toList_none, List.append_nil] at hscore hinfos
    rw [blocksBetween, List.take_length] at hworld
    refine ⟨?_, ?_, ?_⟩
    · rw [unwindCalls, if_neg hnil, hworld]
    · rw [hscore, Nat.zero_add]
    · rw [hinfos, List.append_nil]

def HandlerCall.IsUndo : HandlerCall Hash Transaction Statement Delta → Prop
  | .undoBlock _ _ => True
  | _ => False

def OnlyUndone (world world' : World Hash Transaction Statement Delta Cache) : Prop :=
  ∃ calls, (∀ c ∈ calls, HandlerCall.IsUndo c) ∧ world' = world.after calls

instance : Std.Refl (OnlyUndone : World Hash Transaction Statement Delta Cache → _ → Prop) where
  refl world := ⟨[], fun _ h => absurd h List.not_mem_nil, world.after_nil.symm⟩

instance : IsTrans (World Hash Transaction Statement Delta Cache) OnlyUndone where
  trans := by
    rintro world _ _ ⟨calls, hcalls, rfl⟩ ⟨calls', hcalls', rfl⟩
    refine ⟨calls ++ calls', ?_, world.after_after calls calls'⟩
    intro c hc
    rcases List.mem_append.1 hc with hc | hc
    · exact hcalls c hc
    · exact hcalls' c hc

theorem keeps_abortIf {condition : Bool} {failure : ConsumerFailure} :
    Keeps OnlyUndone (abortIf condition failure : SyncM Hash Transaction Statement Delta Cache Unit) :=
  .ite (.throw _) (.pure _)

theorem keeps_orThrow {α : Type} {value : Option α} :
    Keeps OnlyUndone (orThrow value : SyncM Hash Transaction Statement Delta Cache α) := by
  unfold orThrow
  split
  · exact .pure _
  · exact .throw _

theorem keeps_loadBlockElement :
    Keeps OnlyUndone (loadBlockElement height : SyncM Hash Transaction Statement Delta Cache _) :=
  .bind .get fun _ => keeps_orThrow

theorem keeps_undoBlock {type : UndoBlockType} :
    Keeps OnlyUndone (call (.undoBlock element type) : SyncM Hash Transaction Statement Delta Cache Unit) := by
  intro world
  refine ⟨[.undoBlock element type], ?_, rfl⟩
  intro c hc
  rw [List.mem_singleton.1 hc]
  trivial

theorem keeps_unwindFrom {undoBlock : BlockElement Hash Transaction Statement → UndoBlockType → Delta → Delta}
    {commonBlockHeight : Nat} {child : Option (BlockElement Hash Transaction Statement)}
    {result : UnwindResult Hash Transaction} {delta : Delta} :
    Keeps OnlyUndone (unwindFrom undoBlock commonBlockHeight height child result delta :
      SyncM Hash Transaction Statement Delta Cache _) := by
  induction height generalizing child result delta with
  | zero => exact .throw _
  | succ height ih =>
    unfold unwindFrom
    refine .bind keeps_loadBlockElement fun element => .bind keeps_orThrow fun result => .ite ?_ ?_
    · exact .bind keeps_undoBlock fun _ => .pure _
    · exact .bind keeps_undoBlock fun _ => ih

theorem keeps_unwindLocalChain {commonBlockHeight : Nat} {delta : Delta} :
    Keeps OnlyUndone (unwindLocalChain handlers height commonBlockHeight delta) :=
  .ite (.pure _) keeps_unwindFrom

section
variable [DecidableEq Hash]

/-- The peer chain has the network finalized block and the local chain does not. -/
def isFinalizedBlockUpdate (handlers : BlockchainSyncHandlers Hash Transaction Statement Delta Cache)
    (storage elements : List (BlockElement Hash Transaction Statement)) (peerStartHeight : Nat) : Bool :=
  !containsStored storage handlers.networkFinalizedHeightHashPair &&
    containsElement elements peerStartHeight handlers.networkFinalizedHeightHashPair

theorem keeps_preprocess : Keeps OnlyUndone (preprocess handlers elements peerStartHeight source) := by
  unfold preprocess
  refine .bind .get fun world => .bind keeps_abortIf fun _ => .bind keeps_abortIf fun _ => .bind keeps_abortIf fun _ =>
    .bind keeps_loadBlockElement fun _ => .bind keeps_unwindLocalChain fun ⟨result, delta⟩ => ?_
  exact .bind keeps_loadBlockElement fun _ => .bind keeps_orThrow fun _ => .bind keeps_abortIf fun _ =>
    .bind keeps_orThrow fun _ => .pure _

/-- What the preprocessing has checked, and what it passes on. -/
structure Preprocessed (handlers : BlockchainSyncHandlers Hash Transaction Statement Delta Cache)
    (world : World Hash Transaction Statement Delta Cache) (elements : List (BlockElement Hash Transaction Statement))
    (peerStartHeight : Nat) (source : InputSource) (syncState : SyncState Hash Transaction Statement Delta) : Prop where
  linked : isLinked peerStartHeight world.storage.length source
  common : elementAt world.storage (peerStartHeight - 1) = some syncState.commonBlockElement
  allowed : isFinalizedBlockUpdate handlers world.storage elements peerStartHeight ∨
    handlers.localFinalizedHeightHashPair.height < peerStartHeight ∧
    scoreAfter syncState.commonBlockElement.block ((world.storage.drop (peerStartHeight - 1)).map (·.block)) <
      scoreAfter syncState.commonBlockElement.block (elements.map (·.block))
  scoreDelta : syncState.scoreDelta =
    (scoreAfter syncState.commonBlockElement.block (elements.map (·.block)) : Int) -
      scoreAfter syncState.commonBlockElement.block ((world.storage.drop (peerStartHeight - 1)).map (·.block))
  removed : syncState.removedTransactionInfos = (world.storage.drop (peerStartHeight - 1)).flatMap (·.transactions)

theorem preprocess_eq_ok (h : preprocess handlers elements peerStartHeight source world = .ok syncState world') :
    Preprocessed handlers world elements peerStartHeight source syncState ∧
    world' = world.after (unwindCalls syncState.commonBlockElement (world.storage.drop (peerStartHeight - 1))) := by
  unfold preprocess at h
  obtain ⟨w, w', hget, h⟩ := bind_eq_ok h
  obtain ⟨rfl, rfl⟩ := get_eq_ok hget
  obtain ⟨_, _, hguard, h⟩ := bind_eq_ok h
  obtain ⟨hlinked, rfl⟩ := abortIf_eq_ok hguard
  obtain ⟨_, _, hguard, h⟩ := bind_eq_ok h
  obtain ⟨hbehind, rfl⟩ := abortIf_eq_ok hguard
  obtain ⟨_, _, hguard, h⟩ := bind_eq_ok h
  obtain ⟨-, rfl⟩ := abortIf_eq_ok hguard
  obtain ⟨localFinalizedElement, _, hload, h⟩ := bind_eq_ok h
  obtain ⟨-, rfl⟩ := loadBlockElement_eq_ok hload
  obtain ⟨⟨unwindResult, cacheDelta⟩, unwound, hunwind, h⟩ := bind_eq_ok h
  have hkept := keeps_unwindLocalChain.of_eq_ok hunwind
  obtain ⟨common, _, hload, h⟩ := bind_eq_ok h
  obtain ⟨hcommon, rfl⟩ := loadBlockElement_eq_ok hload
  obtain ⟨peerScore, _, hscored, h⟩ := bind_eq_ok h
  obtain ⟨hpeer, rfl⟩ := orThrow_eq_ok hscored
  obtain ⟨_, _, hguard, h⟩ := bind_eq_ok h
  obtain ⟨hbetter, rfl⟩ := abortIf_eq_ok hguard
  obtain ⟨scoreDelta, _, hscored, h⟩ := bind_eq_ok h
  obtain ⟨hdelta, rfl⟩ := orThrow_eq_ok hscored
  cases h
  obtain ⟨calls, -, rfl⟩ := hkept
  obtain ⟨hworld, hscore, hinfos⟩ := unwindLocalChain_eq_ok hunwind hcommon
  rw [calculatePartialChainScore_eq_some hpeer] at hbetter hdelta
  rw [hscore] at hbetter hdelta
  refine ⟨⟨by simpa using hlinked, hcommon, ?_, subScore_eq_some hdelta, hinfos⟩, hworld⟩
  cases hupdate : isFinalizedBlockUpdate handlers world.storage elements peerStartHeight with
  | true => exact .inl rfl
  | false =>
    unfold isFinalizedBlockUpdate at hupdate
    rw [hupdate] at hbehind hbetter
    simp only [Bool.not_false, Bool.and_true, decide_eq_false_iff_not, Nat.not_le] at hbehind hbetter
    exact .inr ⟨hbehind, hbetter⟩

/-- The first importance block is linked to the block one grouping before it in the storage. -/
def FirstLinked (importanceGrouping : Nat) (storage elements : List (BlockElement Hash Transaction Statement)) : Prop :=
  ∀ (i : Nat) (element : BlockElement Hash Transaction Statement), elements[i]? = some element →
    isImportanceBlock element.block.type →
    (∀ (j : Nat) (other : BlockElement Hash Transaction Statement), elements[j]? = some other → j < i →
      ¬isImportanceBlock other.block.type) →
    ∃ previousHeight previous, previousGroupedHeight element.block.height importanceGrouping = some previousHeight ∧
      elementAt storage previousHeight = some previous ∧
      element.block.previousImportanceBlockHash = previous.entityHash

theorem checkImportanceLink_eq_ok {u : Unit}
    (h : checkImportanceLink importanceGrouping elements world = .ok u world') :
    world = world' ∧ FirstLinked importanceGrouping world.storage elements := by
  induction elements with
  | nil =>
    cases h
    exact ⟨rfl, fun i element hi => by cases hi⟩
  | cons first elements ih =>
    unfold checkImportanceLink at h
    split at h
    · rename_i hfirst
      obtain ⟨hworld, hlink⟩ := ih h
      refine ⟨hworld, fun i element hi htype hbefore => ?_⟩
      cases i with
      | zero =>
        cases hi
        rw [htype] at hfirst
        cases hfirst
      | succ i => exact hlink i element hi htype fun j other hj hlt => hbefore (j + 1) other hj (by omega)
    · rename_i hfirst
      obtain ⟨previousHeight, _, hload, h⟩ := bind_eq_ok h
      obtain ⟨hprevious, rfl⟩ := orThrow_eq_ok hload
      obtain ⟨previous, _, hload, h⟩ := bind_eq_ok h
      obtain ⟨hstored, rfl⟩ := loadBlockElement_eq_ok hload
      obtain ⟨hhash, hworld⟩ := abortIf_eq_ok h
      refine ⟨hworld, fun i element hi htype hbefore => ?_⟩
      cases i with
      | zero =>
        cases hi
        simp only [ne_eq, decide_not, Bool.not_eq_false', decide_eq_true_eq] at hhash
        exact ⟨previousHeight, previous, hprevious, hstored, hhash.symm⟩
      | succ i => exact absurd (by simpa using hfirst) (hbefore 0 first rfl (by omega))

theorem keeps_checkImportanceLink :
    Keeps OnlyUndone (checkImportanceLink importanceGrouping elements :
      SyncM Hash Transaction Statement Delta Cache Unit) := by
  induction elements with
  | nil => exact .pure _
  | cons first elements ih =>
    unfold checkImportanceLink
    exact .ite ih (.bind keeps_orThrow fun _ => .bind keeps_loadBlockElement fun _ => keeps_abortIf)

theorem process_eq_ok
    (h : process handlers importanceGrouping elements syncState world = .ok (elements', syncState') world') :
    elements'.map received = elements.map received ∧ FirstLinked importanceGrouping world.storage elements' ∧
    (∃ cacheDelta, syncState' = { syncState with cacheDelta }) ∧ world = world' := by
  unfold process at h
  cases hprocess : handlers.processor.process syncState.commonBlockElement elements syncState.cacheDelta with
  | error result =>
    rw [hprocess] at h
    cases h
  | ok processed =>
    rw [hprocess] at h
    obtain ⟨_, w, hcheck, h⟩ := bind_eq_ok h
    obtain ⟨rfl, hlinked⟩ := checkImportanceLink_eq_ok hcheck
    cases h
    exact ⟨map_received_process hprocess, hlinked, ⟨processed.2, rfl⟩, rfl⟩

theorem keeps_process : Keeps OnlyUndone (process handlers importanceGrouping elements syncState) := by
  unfold process
  split
  · exact .throw _
  · exact .bind keeps_checkImportanceLink fun _ => .pure _

omit [DecidableEq Hash] in
theorem foldlM_saveBlock_eq_some {storage staged : List (BlockElement Hash Transaction Statement)}
    (h : elements.foldlM saveBlock storage = some staged) : staged = storage ++ elements := by
  induction elements generalizing storage with
  | nil =>
    cases h
    rw [List.append_nil]
  | cons element elements ih =>
    rw [List.foldlM_cons] at h
    obtain ⟨saved, hsaved, hrest⟩ := Option.bind_eq_some_iff.1 h
    unfold saveBlock at hsaved
    split at hsaved
    · cases hsaved
      rw [ih hrest, List.append_assoc, List.singleton_append]
    · cases hsaved

def commitCalls (cacheDelta : Delta) (scoreDelta : Int) (newHeight : Nat)
    (elements : List (BlockElement Hash Transaction Statement))
    (removedTransactionInfos : List (TransactionElement Hash Transaction)) :
    List (HandlerCall Hash Transaction Statement Delta) :=
  [.commitStep .blocksWritten, .stateChange cacheDelta scoreDelta newHeight, .preStateWritten cacheDelta newHeight,
    .commitStep .stateWritten, .commitStep .allUpdated,
    .transactionsChange (extractTransactionHashes elements)
      (collectRevertedTransactionInfos (extractTransactionHashes elements) removedTransactionInfos)]

theorem commitAll_eq_ok {newHeight : Nat} {u : Unit}
    (h : commitAll handlers newHeight elements syncState world = .ok u world') :
    world' =
      { storage := world.storage.take syncState.commonBlockElement.block.height ++ elements
        cache := handlers.commit
          (handlers.setLastFinalizedHeight syncState.localFinalizedHeight (prune handlers syncState)) newHeight
        calls := world.calls ++ commitCalls (prune handlers syncState) syncState.scoreDelta newHeight elements
          syncState.removedTransactionInfos } := by
  unfold commitAll at h
  obtain ⟨w, w', hget, h⟩ := bind_eq_ok h
  obtain ⟨rfl, rfl⟩ := get_eq_ok hget
  obtain ⟨staged, _, hstaged, h⟩ := bind_eq_ok h
  obtain ⟨hsaved, rfl⟩ := orThrow_eq_ok hstaged
  rw [← foldlM_saveBlock_eq_some hsaved]
  cases h
  simp only [commitCalls, List.append_assoc, List.cons_append, List.nil_append]

theorem commitAll_eq_error {newHeight : Nat} {interrupt : Interrupt}
    (h : commitAll handlers newHeight elements syncState world = .error interrupt world') : world' = world := by
  unfold commitAll at h
  cases hstaged : elements.foldlM saveBlock (world.storage.take syncState.commonBlockElement.block.height) with
  | none =>
    change EStateM.bind (orThrow _) _ world = _ at h
    rw [hstaged] at h
    cases h
    rfl
  | some staged =>
    change EStateM.bind (orThrow _) _ world = _ at h
    rw [hstaged] at h
    cases h

theorem sync_eq_ok {u : Unit} (h : sync handlers importanceGrouping elements source world = .ok u world') :
    ∃ first syncState processed cacheDelta, elements.head? = some first ∧
      Preprocessed handlers world elements first.block.height source syncState ∧
      processed.map received = elements.map received ∧ FirstLinked importanceGrouping world.storage processed ∧
      world'.storage = world.storage.take syncState.commonBlockElement.block.height ++ processed ∧
      world'.calls = world.calls ++
        unwindCalls syncState.commonBlockElement (world.storage.drop (first.block.height - 1)) ++
        commitCalls cacheDelta syncState.scoreDelta (processed.getLastD first).block.height processed
          syncState.removedTransactionInfos := by
  unfold sync at h
  split at h
  · cases h
  · rename_i first rest
    obtain ⟨syncState, w, hpreprocess, h⟩ := bind_eq_ok h
    obtain ⟨hchecked, rfl⟩ := preprocess_eq_ok hpreprocess
    obtain ⟨⟨processed, syncState'⟩, w, hprocess, h⟩ := bind_eq_ok h
    obtain ⟨hreceived, hlinked, ⟨cacheDelta, rfl⟩, rfl⟩ := process_eq_ok hprocess
    obtain rfl := commitAll_eq_ok h
    exact ⟨first, syncState, processed, _, rfl, hchecked, hreceived, hlinked, rfl, rfl⟩

theorem sync_eq_error {interrupt : Interrupt}
    (h : sync handlers importanceGrouping elements source world = .error interrupt world') :
    OnlyUndone world world' := by
  unfold sync at h
  split at h
  · cases h
    exact Std.Refl.refl world
  · rcases bind_eq_error h with h | ⟨syncState, w, hpreprocess, h⟩
    · exact keeps_preprocess.of_eq_error h
    have hkept := keeps_preprocess.of_eq_ok hpreprocess
    rcases bind_eq_error h with h | ⟨⟨processed, syncState'⟩, w', hprocess, h⟩
    · exact IsTrans.trans _ _ _ hkept (keeps_process.of_eq_error h)
    rw [commitAll_eq_error h]
    exact IsTrans.trans _ _ _ hkept (keeps_process.of_eq_ok hprocess)

end

end BlockchainSyncConsumer

end Catapult.Consumers
