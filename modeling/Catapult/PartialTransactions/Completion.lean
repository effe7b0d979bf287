import Catapult.PartialTransactions.Entries
import Mathlib.Data.List.Count

/-!
# Partial transactions are completed at most once

The entry of an insertion is removed by one task only, which then delivers it. So what was inserted is in the cache, or
about to be delivered, or delivered, and never two of these.
-/

namespace Catapult.PartialTransactions
variable {Key Signature Payload Chain : Type} [LinearOrder Key]

def Event.insertedId : Event Key Signature Payload → Option Nat
  | inserted insertion _ => some insertion
  | _ => none

def Event.deliveredId : Event Key Signature Payload → Option Nat
  | delivered insertion _ => some insertion
  | _ => none

def Task.deliveryId : Task Key Signature Payload → Option Nat
  | deliver _ insertion _ => some insertion
  | _ => none

def insertedIds (history : List (Event Key Signature Payload)) : List Nat := history.filterMap Event.insertedId

def deliveredIds (history : List (Event Key Signature Payload)) : List Nat := history.filterMap Event.deliveredId

def pending (cache : Cache Key Signature Payload) (tasks : List (Task Key Signature Payload)) (insertion : Nat) : Nat :=
  (cache.entry.toList.map Entry.insertion).count insertion + (tasks.filterMap Task.deliveryId).count insertion

structure Once (history : List (Event Key Signature Payload)) (state : State Key Signature Payload Chain) : Prop where
  inserted : insertedIds history = List.range state.cache.insertions
  once : ∀ insertion, pending state.cache state.tasks insertion + (deliveredIds history).count insertion ≤ 1
  known : ∀ insertion, state.cache.insertions ≤ insertion →
    pending state.cache state.tasks insertion + (deliveredIds history).count insertion = 0

variable {env : Environment Key Signature Payload Chain} {history events : List (Event Key Signature Payload)}
  {cosignature : Cosignature Key Signature} {cache cache' : Cache Key Signature Payload} {chain : Chain}
  {task : Task Key Signature Payload} {insertion : Nat}

section
omit [LinearOrder Key]

theorem deliveredIds_append : deliveredIds (history ++ events) = deliveredIds history ++ deliveredIds events :=
  List.filterMap_append ..

theorem insertedIds_append : insertedIds (history ++ events) = insertedIds history ++ insertedIds events :=
  List.filterMap_append ..

theorem pending_of_none (h : cache.entry = none) {tasks : List (Task Key Signature Payload)} :
    pending cache tasks insertion = (tasks.filterMap Task.deliveryId).count insertion := by
  rw [pending, h]
  exact Nat.zero_add _

end

/-- What a step leaves undelivered, and delivers, was there before, except for what it inserts. -/
structure Moves (cache : Cache Key Signature Payload) (task : Task Key Signature Payload)
    (outcome : Outcome Key Signature Payload) : Prop where
  inserted : ∃ count, insertedIds outcome.event.toList = List.range' cache.insertions count ∧
    outcome.cache.insertions = cache.insertions + count
  pending : ∀ insertion,
    pending outcome.cache outcome.tasks insertion + (deliveredIds outcome.event.toList).count insertion ≤
      pending cache [task] insertion +
        if cache.insertions ≤ insertion ∧ insertion < outcome.cache.insertions then 1 else 0

section
omit [LinearOrder Key]

theorem moves_of_le {outcome : Outcome Key Signature Payload}
    (hinsertions : outcome.cache.insertions = cache.insertions)
    (hevent : insertedIds outcome.event.toList = [] ∧ deliveredIds outcome.event.toList = [])
    (htasks : outcome.tasks.filterMap Task.deliveryId = [])
    (hentry : ∀ insertion, (outcome.cache.entry.toList.map Entry.insertion).count insertion ≤
      (cache.entry.toList.map Entry.insertion).count insertion) : Moves cache task outcome := by
  refine ⟨⟨0, hevent.1, hinsertions⟩, fun insertion => ?_⟩
  have hle := hentry insertion
  unfold pending
  rw [htasks, hevent.2, List.count_nil]
  omega

theorem deliveryId_completeWith {result : UpdateResult} {update : Option (Cosignature Key Signature)} :
    (completeWith update result : List (Task Key Signature Payload)).filterMap Task.deliveryId = [] := by
  cases update <;> rfl

theorem deliveryId_map_checkEligibility {cosignatures : List (Cosignature Key Signature)} :
    (cosignatures.map Task.checkEligibility : List (Task Key Signature Payload)).filterMap Task.deliveryId = [] := by
  induction cosignatures with
  | nil => rfl
  | cons cosignature cosignatures ih => exact ih

theorem deliveryId_afterCheck {result : CheckEligibilityResult Key Signature} :
    (afterCheck cosignature result : Task Key Signature Payload).deliveryId = none := by
  unfold afterCheck
  split
  · rfl
  · split
    · rfl
    · split <;> rfl

end

theorem moves_runTask : Moves cache task (runTask env chain cache task) := by
  cases task with
  | findTransaction aggregate =>
    dsimp only [runTask]
    split
    · exact moves_of_le rfl ⟨rfl, rfl⟩ deliveryId_map_checkEligibility fun _ => Nat.le_refl _
    · exact moves_of_le rfl ⟨rfl, rfl⟩ rfl fun _ => Nat.le_refl _
  | validateTransaction aggregate cosignatures =>
    dsimp only [runTask]
    split <;> exact moves_of_le rfl ⟨rfl, rfl⟩ rfl fun _ => Nat.le_refl _
  | insertTransaction payload cosignatures =>
    dsimp only [runTask]
    split
    · exact moves_of_le rfl ⟨rfl, rfl⟩ rfl fun _ => Nat.le_refl _
    · rename_i added hadd
      obtain ⟨hnone, hadded, hinsertions, -⟩ := Cache.addTransaction_eq_some hadd
      refine ⟨⟨1, rfl, hinsertions⟩, fun insertion => ?_⟩
      have htasks : ((if cosignatures = [] then [.checkCompleteness none] else cosignatures.map .checkEligibility :
          List (Task Key Signature Payload)).filterMap Task.deliveryId) = [] := by
        split
        · rfl
        · exact deliveryId_map_checkEligibility
      rw [pending, hadded, htasks, pending_of_none hnone, hinsertions]
      show (List.count insertion [cache.insertions] + 0) + 0 ≤ 0 + _
      rw [List.count_singleton]
      split <;> split <;> simp_all
  | checkEligibility cosignature =>
    refine moves_of_le rfl ⟨rfl, rfl⟩ ?_ fun _ => Nat.le_refl _
    show List.filterMap Task.deliveryId [afterCheck cosignature _] = []
    rw [List.filterMap_cons, deliveryId_afterCheck]
    rfl
  | refresh cosignature stale =>
    refine moves_of_le refresh_insertions ⟨rfl, rfl⟩ rfl fun insertion => ?_
    show List.count insertion ((refreshStaleCacheEntry env cache stale).entry.toList.map Entry.insertion) ≤ _
    cases hrefresh : (refreshStaleCacheEntry env cache stale).entry with
    | none => exact Nat.zero_le _
    | some entry =>
      obtain ⟨previous, hprevious, -, hinsertion, -⟩ := refresh_entry hrefresh
      rw [hprevious, Option.toList_some, Option.toList_some, List.map_singleton, List.map_singleton, hinsertion]
  | purge cosignature =>
    dsimp only [runTask]
    split
    · exact moves_of_le rfl ⟨rfl, rfl⟩ rfl fun _ => Nat.le_refl _
    · rename_i hremove
      obtain ⟨-, hrest, hinsertions, -⟩ := Cache.remove_eq_some hremove
      refine moves_of_le hinsertions ⟨rfl, rfl⟩ rfl fun insertion => ?_
      rw [hrest]
      exact Nat.zero_le _
  | verify cosignature =>
    dsimp only [runTask]
    split <;> exact moves_of_le rfl ⟨rfl, rfl⟩ rfl fun _ => Nat.le_refl _
  | addCosignature cosignature =>
    dsimp only [runTask]
    split
    · exact moves_of_le rfl ⟨rfl, rfl⟩ rfl fun _ => Nat.le_refl _
    · rename_i added hadd
      obtain ⟨entry, hfound, -, hadded, hinsertions, -⟩ := Cache.addCosignature_eq_some hadd
      refine moves_of_le hinsertions ⟨rfl, rfl⟩ rfl fun insertion => ?_
      rw [hadded, hfound]
      exact Nat.le_refl _
  | checkCompleteness update =>
    dsimp only [runTask]
    split
    · exact moves_of_le rfl ⟨rfl, rfl⟩ deliveryId_completeWith fun _ => Nat.le_refl _
    · split
      · exact moves_of_le rfl ⟨rfl, rfl⟩ rfl fun _ => Nat.le_refl _
      · exact moves_of_le rfl ⟨rfl, rfl⟩ deliveryId_completeWith fun _ => Nat.le_refl _
  | removeCompleted update completed =>
    dsimp only [runTask]
    split
    · exact moves_of_le rfl ⟨rfl, rfl⟩ deliveryId_completeWith fun _ => Nat.le_refl _
    · rename_i removed rest hremove
      obtain ⟨hfound, hrest, hinsertions, -⟩ := Cache.remove_eq_some hremove
      -- the entry becomes the delivery
      refine ⟨⟨0, rfl, hinsertions⟩, fun insertion => ?_⟩
      rw [pending_of_none hrest, pending, hfound]
      show List.count insertion [removed.insertion] + 0 ≤ List.count insertion [removed.insertion] + 0 + _
      omega
  | deliver update insertion aggregate =>
    refine ⟨⟨0, rfl, rfl⟩, fun id => ?_⟩
    show pending cache (completeWith update .addedComplete) id + List.count id [insertion] ≤
      ((cache.entry.toList.map Entry.insertion).count id + List.count id [insertion]) + _
    rw [pending, deliveryId_completeWith, List.count_nil]
    omega
  | complete cosignature result => exact moves_of_le rfl ⟨rfl, rfl⟩ rfl fun _ => Nat.le_refl _

omit [LinearOrder Key] in
theorem pending_append {before after tasks : List (Task Key Signature Payload)} :
    pending cache (before ++ tasks ++ after) insertion =
      pending cache tasks insertion + ((before ++ after).filterMap Task.deliveryId).count insertion := by
  unfold pending
  rw [List.filterMap_append, List.filterMap_append, List.filterMap_append, List.count_append, List.count_append,
    List.count_append]
  omega

omit [LinearOrder Key] in
theorem pending_request {tasks : List (Task Key Signature Payload)} (h : task.deliveryId = none) :
    pending cache (tasks ++ [task]) insertion = pending cache tasks insertion := by
  unfold pending
  rw [List.filterMap_append, List.filterMap_cons, h]
  simp

theorem Once.step {ok : State Key Signature Payload Chain → Task Key Signature Payload → Prop}
    {state state' : State Key Signature Payload Chain} {event : Option (Event Key Signature Payload)}
    (h : Once history state) (hstep : Step env ok state event state') : Once (history ++ event.toList) state' := by
  cases hstep with
  | updateTransaction | updateCosignature =>
    rw [Option.toList_none, List.append_nil]
    refine ⟨h.inserted, fun insertion => ?_, fun insertion hle => ?_⟩
    · show pending state.cache (state.tasks ++ [_]) insertion + _ ≤ 1
      rw [pending_request rfl]
      exact h.once insertion
    · show pending state.cache (state.tasks ++ [_]) insertion + _ = 0
      rw [pending_request rfl]
      exact h.known insertion hle
  | @run before after task htasks =>
    have hmoves : Moves state.cache task (runTask env state.chain state.cache task) := moves_runTask
    obtain ⟨⟨count, hinserted, hinsertions⟩, hpending⟩ := hmoves
    have hbefore : ∀ insertion, pending state.cache state.tasks insertion =
        pending state.cache [task] insertion +
          ((before ++ after).filterMap Task.deliveryId).count insertion := by
      intro insertion
      rw [htasks, ← pending_append, List.append_assoc, List.singleton_append]
    refine ⟨?_, fun insertion => ?_, fun insertion hle => ?_⟩
    · show insertedIds _ = List.range (runTask env state.chain state.cache task).cache.insertions
      rw [insertedIds_append, h.inserted, hinserted, hinsertions, List.range_eq_range', List.range_eq_range',
        ← List.range'_append_1 (s := 0), Nat.zero_add]
    · have honce := h.once insertion
      have hmove := hpending insertion
      rw [hbefore] at honce
      show pending (runTask env state.chain state.cache task).cache
        (before ++ (runTask env state.chain state.cache task).tasks ++ after) insertion + _ ≤ 1
      rw [pending_append, deliveredIds_append, List.count_append]
      split at hmove
      · rename_i hnew
        have hknown := h.known insertion hnew.1
        rw [hbefore] at hknown
        omega
      · omega
    · have hle' : state.cache.insertions ≤ insertion := by
        have : (runTask env state.chain state.cache task).cache.insertions ≤ insertion := hle
        omega
      have hknown := h.known insertion hle'
      have hmove := hpending insertion
      rw [hbefore] at hknown
      rw [if_neg fun hnew => absurd (Nat.lt_of_lt_of_le hnew.2 hle) (Nat.lt_irrefl _)] at hmove
      show pending (runTask env state.chain state.cache task).cache
        (before ++ (runTask env state.chain state.cache task).tasks ++ after) insertion + _ = 0
      rw [pending_append, deliveredIds_append, List.count_append]
      omega
  | changeState | changeOthers =>
    rw [Option.toList_none, List.append_nil]
    exact ⟨h.inserted, h.once, h.known⟩
  | @prune entry rest hremove =>
    obtain ⟨-, hrest, hinsertions, -⟩ := Cache.remove_eq_some hremove
    have hle : ∀ insertion, pending rest state.tasks insertion ≤ pending state.cache state.tasks insertion := by
      intro insertion
      rw [pending_of_none hrest]
      exact Nat.le_add_left _ _
    have hdelivered : deliveredIds (history ++ [.pruned]) = deliveredIds history :=
      deliveredIds_append.trans (List.append_nil _)
    refine ⟨?_, fun insertion => ?_, fun insertion hge => ?_⟩
    · show insertedIds (history ++ [.pruned]) = List.range rest.insertions
      rw [insertedIds_append, h.inserted, hinsertions]
      exact List.append_nil _
    · have := h.once insertion
      have := hle insertion
      show pending rest state.tasks insertion + (deliveredIds (history ++ [.pruned])).count insertion ≤ 1
      rw [hdelivered]
      omega
    · have hge' : rest.insertions ≤ insertion := hge
      have := h.known insertion (by omega)
      have := hle insertion
      show pending rest state.tasks insertion + (deliveredIds (history ++ [.pruned])).count insertion = 0
      rw [hdelivered]
      omega

abbrev Runs (env : Environment Key Signature Payload Chain)
    (ok : State Key Signature Payload Chain → Task Key Signature Payload → Prop) (chain : Chain)
    (history : List (Event Key Signature Payload)) (state : State Key Signature Payload Chain) : Prop :=
  Reaches { chain } (Step env ok) history state

variable {ok : State Key Signature Payload Chain → Task Key Signature Payload → Prop}
  {state state' : State Key Signature Payload Chain}

theorem Runs.play (h : Runs env ok chain history state) {schedule : List (Choice Key Signature Payload Chain)}
    (hadmits : Admits env ok schedule state) :
    Runs env ok chain (history ++ (play env schedule state).1) (play env schedule state).2 := by
  induction schedule generalizing history state with
  | nil =>
    rw [PartialTransactions.play, List.append_nil]
    exact h
  | cons choice schedule ih =>
    rw [PartialTransactions.play, ← List.append_assoc]
    refine ih ?_ hadmits.2
    cases choice with
    | updateTransaction aggregate => exact h.next (.updateTransaction aggregate)
    | updateCosignature cosignature => exact h.next (.updateCosignature cosignature)
    | changeState chain => exact h.next (.changeState chain)
    | run index =>
      dsimp only [choose]
      split
      · rw [Option.toList_none, List.append_nil]
        exact h
      · rename_i task htask
        obtain ⟨hlt, hget⟩ := List.getElem?_eq_some_iff.1 htask
        refine h.next (.run ?_ (hadmits.1 task htask))
        rw [← hget, List.getElem_cons_drop, List.take_append_drop]

theorem knowledge_of_runs (h : Runs env ok chain history state) : Knowledge env history state := by
  refine Reaches.invariant ?_ (fun hinv hstep => hinv.step hstep) h
  exact ⟨fun _ hentry => (nomatch hentry), fun _ htask => absurd htask List.not_mem_nil⟩

theorem once_of_runs (h : Runs env ok chain history state) : Once history state := by
  refine Reaches.invariant ?_ (fun hinv hstep => hinv.step hstep) h
  exact ⟨rfl, fun _ => Nat.zero_le _, fun _ _ => rfl⟩

/-- What precedes a delivery: the insertion of its payload, and the judgement of exactly its cosignatures. -/
structure Deliverable (env : Environment Key Signature Payload Chain)
    (before : List (Event Key Signature Payload)) (insertion : Nat) (aggregate : Aggregate Key Signature Payload) :
    Prop where
  inserted : .inserted insertion aggregate.payload ∈ before
  signers : (aggregate.cosignatures.map Cosignature.signer).Nodup
  accepted : ∀ cosignature ∈ aggregate.cosignatures, Accepted env before cosignature
  complete : .judgedComplete aggregate.cosignatures ∈ before

theorem deliverable_of_step (h : Runs env ok chain history state) {aggregate : Aggregate Key Signature Payload}
    (hstep : Step env ok state (some (.delivered insertion aggregate)) state') :
    Deliverable env history insertion aggregate := by
  have hknowledge := knowledge_of_runs h
  generalize hevent : some (Event.delivered insertion aggregate) = event at hstep
  cases hstep with
  | @run before after task htasks =>
    have htask := hknowledge.tasks task (by simp [htasks])
    -- only the task that delivers has this event
    cases task with
    | deliver update id found =>
      cases hevent
      exact ⟨htask.2.2, htask.1.signers, htask.1.accepted, htask.2.1⟩
    | findTransaction | validateTransaction | verify | insertTransaction | purge | addCosignature | removeCompleted =>
      dsimp only [runTask] at hevent
      split at hevent <;> cases hevent
    | checkCompleteness =>
      dsimp only [runTask] at hevent
      split at hevent
      · cases hevent
      · split at hevent <;> cases hevent
    | checkEligibility | refresh | complete => cases hevent
  | _ => cases hevent

/-- Every insertion is delivered at most once, and only with cosignatures of different signers that were verified, found
eligible and judged complete. -/
theorem delivered_once (h : Runs env ok chain history state) :
    insertedIds history = List.range (insertedIds history).length ∧ (deliveredIds history).Nodup ∧
      ∀ before after insertion aggregate, history = before ++ .delivered insertion aggregate :: after →
        Deliverable env before insertion aggregate := by
  have honce := once_of_runs h
  refine ⟨?_, ?_, fun before after insertion aggregate hsplit => ?_⟩
  · rw [honce.inserted, List.length_range]
  · refine List.nodup_iff_count_le_one.2 fun insertion => ?_
    exact Nat.le_trans (Nat.le_add_left _ _) (honce.once insertion)
  · refine Reaches.of_history (fun before event => ∀ insertion aggregate,
      event = .delivered insertion aggregate → Deliverable env before insertion aggregate) ?_ h hsplit insertion
      aggregate rfl
    rintro history s s' event hreaches hstep id found rfl
    exact deliverable_of_step hreaches hstep

def sampleEnvironment : Environment Nat Nat Nat Bool where
  validatePartial _ _ := true
  validateCosignatories _ _ cosignatures := if cosignatures = [] then .missing else .success
  verify _ := true
  payloadSize _ := 200
  maxCacheSize := 1000

/-- An aggregate comes with a cosignature and is delivered with it. -/
theorem delivered_once_sample : ∃ (history : List (Event Nat Nat Nat)) (state : State Nat Nat Nat Bool),
    Runs sampleEnvironment (fun _ _ => True) true history state ∧ deliveredIds history = [0] ∧
      (deliveredIds history).Nodup := by
  have hrun : Runs sampleEnvironment (fun _ _ => True) true _ _ :=
    Runs.play .start
      (show Admits _ _ (.updateTransaction ⟨7, [⟨1, 5⟩]⟩ :: List.replicate 9 (.run 0)) _ by decide +kernel)
  exact ⟨_, _, hrun, by decide +kernel, (delivered_once hrun).2.1⟩

end Catapult.PartialTransactions
