import Catapult.Chain.CompareChains
import Catapult.Lib.Trace
import Mathlib.Data.List.Sort

/-!
# Updates of one partial transaction (`PtUpdater`, `MemoryPtCache`, `StitchAggregate`)

The cache entry of one aggregate and the updates of it that several threads work on. Each update is a task that is cut
at the cache sections: a view or a modifier section is one step (`runTask`), and in between other tasks run, the chain
state that the validator reads changes, the entry is pruned, or other transactions change the size of the cache.

`insertions` and `changes` count what has happened to the entry. The updater does not have them and no step depends on
them: an entry is told apart from a later one of the same aggregate by the number of its insertion.
-/

namespace Catapult.PartialTransactions
open Catapult.Chain (add64 sub64)

/-- `CosignatoriesValidationResult`. -/
inductive ValidationResult where
  | missing
  | ineligible
  | success
  | failure
  deriving DecidableEq

/-- `CosignatureUpdateResult`. -/
inductive UpdateResult where
  | error
  | ineligible
  | unverifiable
  | redundant
  | addedIncomplete
  | addedComplete
  deriving DecidableEq

structure Cosignature (Key Signature : Type) where
  signer : Key
  signature : Signature
  deriving DecidableEq

structure Aggregate (Key Signature Payload : Type) where
  payload : Payload
  cosignatures : List (Cosignature Key Signature)

/-- What the updater is made with. The validator reads the chain state, and `verify` checks a signature of the hash of
the aggregate. -/
structure Environment (Key Signature Payload Chain : Type) where
  validatePartial : Chain → Payload → Bool
  validateCosignatories : Chain → Payload → List (Cosignature Key Signature) → ValidationResult
  verify : Cosignature Key Signature → Bool
  payloadSize : Payload → Nat
  maxCacheSize : Nat

/-- `PtData`, with the number of its insertion. -/
structure Entry (Key Signature Payload : Type) where
  payload : Payload
  cosignatures : List (Cosignature Key Signature)
  insertion : Nat

structure Cache (Key Signature Payload : Type) where
  entry : Option (Entry Key Signature Payload) := none
  cacheSize : Nat := 0
  insertions : Nat := 0
  changes : Nat := 0

variable {Key Signature Payload Chain : Type}

/-- `sizeof(Cosignature)`. -/
def cosignatureSize : Nat := 104

section
variable [DecidableEq Key]

def hasCosignatory (cosignatures : List (Cosignature Key Signature)) (signer : Key) : Bool :=
  cosignatures.any fun cosignature => signer = cosignature.signer

end

variable [LinearOrder Key]

local instance lawfulBEq_key : LawfulBEq Key := inferInstance

namespace Cache

def addEntry (env : Environment Key Signature Payload Chain) (cache : Cache Key Signature Payload) (payload : Payload)
    (insertion : Nat) : Option (Cache Key Signature Payload) :=
  if sub64 env.maxCacheSize cache.cacheSize < env.payloadSize payload then none
  else if cache.entry.isSome then none
  else
    some
      { cache with
        entry := some { payload, cosignatures := [], insertion }
        cacheSize := add64 cache.cacheSize (env.payloadSize payload)
        changes := cache.changes + 1 }

def addTransaction (env : Environment Key Signature Payload Chain) (cache : Cache Key Signature Payload)
    (payload : Payload) : Option (Cache Key Signature Payload) :=
  (cache.addEntry env payload cache.insertions).map fun added => { added with insertions := added.insertions + 1 }

/-- The cosignatures are sorted by signer. -/
def insertSorted (cosignature : Cosignature Key Signature) (cosignatures : List (Cosignature Key Signature)) :
    List (Cosignature Key Signature) :=
  cosignatures.orderedInsert (fun new existing => ¬existing.signer < new.signer) cosignature

def addCosignature (cache : Cache Key Signature Payload) (cosignature : Cosignature Key Signature) :
    Option (Cache Key Signature Payload) :=
  match cache.entry with
  | none => none
  | some entry =>
    if hasCosignatory entry.cosignatures cosignature.signer then none
    else
      some
        { cache with
          entry := some { entry with cosignatures := insertSorted cosignature entry.cosignatures }
          cacheSize := add64 cache.cacheSize cosignatureSize
          changes := cache.changes + 1 }

def remove (env : Environment Key Signature Payload Chain) (cache : Cache Key Signature Payload) :
    Option (Entry Key Signature Payload × Cache Key Signature Payload) :=
  cache.entry.map fun entry =>
    (entry,
      { cache with
        entry := none
        cacheSize :=
          sub64 cache.cacheSize (env.payloadSize entry.payload + cosignatureSize * entry.cosignatures.length)
        changes := cache.changes + 1 })

/-- A cosignature that cannot be added is ignored. -/
def tryAddCosignature (cache : Cache Key Signature Payload) (cosignature : Cosignature Key Signature) :
    Cache Key Signature Payload :=
  (cache.addCosignature cosignature).getD cache

end Cache

/-- The cosignatures that were eligible when the entry was found to be stale, at which number of changes. -/
structure StaleTransactionInfo (Key Signature : Type) where
  eligibleCosignatures : List (Cosignature Key Signature)
  changes : Nat

structure CheckEligibilityResult (Key Signature : Type) where
  updateResult : UpdateResult := .ineligible
  validationResult : ValidationResult := .ineligible
  staleTransactionInfo : Option (StaleTransactionInfo Key Signature) := none

namespace CheckEligibilityResult

def result (result : CheckEligibilityResult Key Signature) : UpdateResult :=
  if result.validationResult = .failure then .error else result.updateResult

def isEligible (result : CheckEligibilityResult Key Signature) : Bool :=
  result.validationResult = .missing || result.validationResult = .success

def isPurgeRequired (result : CheckEligibilityResult Key Signature) : Bool :=
  result.validationResult = .failure

end CheckEligibilityResult

/-- A cosignature is validated by itself. -/
def isIneligible (env : Environment Key Signature Payload Chain) (chain : Chain) (payload : Payload)
    (cosignature : Cosignature Key Signature) : Bool :=
  env.validateCosignatories chain payload [cosignature] = .ineligible

def checkEligibility (env : Environment Key Signature Payload Chain) (chain : Chain)
    (cache : Cache Key Signature Payload) (cosignature : Cosignature Key Signature) :
    CheckEligibilityResult Key Signature :=
  match cache.entry with
  | none => { updateResult := .ineligible }
  | some entry =>
    if hasCosignatory entry.cosignatures cosignature.signer then { updateResult := .redundant }
    else
      let validateAllResult := env.validateCosignatories chain entry.payload (entry.cosignatures ++ [cosignature])
      if validateAllResult ≠ .ineligible then { validationResult := validateAllResult }
      else if isIneligible env chain entry.payload cosignature then { validationResult := .ineligible }
      else
        { validationResult := env.validateCosignatories chain entry.payload [cosignature]
          staleTransactionInfo := some
            { eligibleCosignatures := entry.cosignatures.filter fun existing =>
                !isIneligible env chain entry.payload existing
              changes := cache.changes } }

def foundIneligible (env : Environment Key Signature Payload Chain) (chain : Chain)
    (cache : Cache Key Signature Payload) (cosignature : Cosignature Key Signature) :
    List (Cosignature Key Signature) :=
  match cache.entry, (checkEligibility env chain cache cosignature).staleTransactionInfo with
  | some entry, some _ => entry.cosignatures.filter (isIneligible env chain entry.payload)
  | _, _ => []

def refreshStaleCacheEntry (env : Environment Key Signature Payload Chain) (cache : Cache Key Signature Payload)
    (stale : StaleTransactionInfo Key Signature) : Cache Key Signature Payload :=
  match cache.remove env with
  | none => cache
  | some (removed, rest) =>
    stale.eligibleCosignatures.foldl Cache.tryAddCosignature
      ((rest.addEntry env removed.payload removed.insertion).getD rest)

inductive Event (Key Signature Payload : Type) where
  | inserted (insertion : Nat) (payload : Payload)
  | checked (cosignature : Cosignature Key Signature) (isEligible : Bool)
      (ineligible : List (Cosignature Key Signature))
  | added (cosignature : Cosignature Key Signature)
  | refreshed
  | judgedComplete (cosignatures : List (Cosignature Key Signature))
  | completed
  | purged
  | pruned
  | delivered (insertion : Nat) (aggregate : Aggregate Key Signature Payload)
  | returned (cosignature : Cosignature Key Signature) (result : UpdateResult)

/-- What an update does next. A completeness check has no cosignature when it follows an insertion. -/
inductive Task (Key Signature Payload : Type) where
  | findTransaction (aggregate : Aggregate Key Signature Payload)
  | validateTransaction (aggregate : Aggregate Key Signature Payload)
      (cosignatures : List (Cosignature Key Signature))
  | insertTransaction (payload : Payload) (cosignatures : List (Cosignature Key Signature))
  | checkEligibility (cosignature : Cosignature Key Signature)
  | refresh (cosignature : Cosignature Key Signature) (stale : StaleTransactionInfo Key Signature)
  | purge (cosignature : Cosignature Key Signature)
  | verify (cosignature : Cosignature Key Signature)
  | addCosignature (cosignature : Cosignature Key Signature)
  | checkCompleteness (cosignature : Option (Cosignature Key Signature))
  | removeCompleted (cosignature : Option (Cosignature Key Signature))
      (completed : List (Cosignature Key Signature))
  | deliver (cosignature : Option (Cosignature Key Signature)) (insertion : Nat)
      (aggregate : Aggregate Key Signature Payload)
  | complete (cosignature : Cosignature Key Signature) (result : UpdateResult)

def extractCosignatures (aggregate : Aggregate Key Signature Payload) (cache : Cache Key Signature Payload) :
    List (Cosignature Key Signature) :=
  let isKnown signer := cache.entry.any fun entry => hasCosignatory entry.cosignatures signer
  (aggregate.cosignatures.foldl (fun (signers, cosignatures) cosignature =>
      if cosignature.signer ∈ signers then (signers, cosignatures)
      else if isKnown cosignature.signer then (cosignature.signer :: signers, cosignatures)
      else (cosignature.signer :: signers, cosignatures ++ [cosignature]))
    (([] : List Key), ([] : List (Cosignature Key Signature)))).2

def stitchAggregate (payload : Payload) (cosignatures : List (Cosignature Key Signature)) :
    Aggregate Key Signature Payload :=
  { payload, cosignatures }

/-- What a step of a task leaves: the cache, the tasks that follow it, and what can be seen of it. -/
structure Outcome (Key Signature Payload : Type) where
  cache : Cache Key Signature Payload
  tasks : List (Task Key Signature Payload) := []
  event : Option (Event Key Signature Payload) := none

/-- The result of an update, when it is one of a cosignature. -/
def completeWith (cosignature : Option (Cosignature Key Signature)) (result : UpdateResult) :
    List (Task Key Signature Payload) :=
  cosignature.toList.map fun cosignature => .complete cosignature result

/-- The task after the eligibility check. A stale entry is refreshed even if the cosignature is not verified. -/
def afterCheck (cosignature : Cosignature Key Signature) (result : CheckEligibilityResult Key Signature) :
    Task Key Signature Payload :=
  if result.isPurgeRequired then .purge cosignature
  else if !result.isEligible then .complete cosignature result.result
  else
    match result.staleTransactionInfo with
    | some stale => .refresh cosignature stale
    | none => .verify cosignature

def runTask (env : Environment Key Signature Payload Chain) (chain : Chain) (cache : Cache Key Signature Payload) :
    Task Key Signature Payload → Outcome Key Signature Payload
  | .findTransaction aggregate =>
    let cosignatures := extractCosignatures aggregate cache
    if cache.entry.isSome then { cache, tasks := cosignatures.map .checkEligibility }
    else { cache, tasks := [.validateTransaction aggregate cosignatures] }
  | .validateTransaction aggregate cosignatures =>
    if env.validatePartial chain aggregate.payload then
      { cache, tasks := [.insertTransaction aggregate.payload cosignatures] }
    else { cache }
  | .insertTransaction payload cosignatures =>
    match cache.addTransaction env payload with
    | none => { cache }
    | some added =>
      { cache := added
        tasks := if cosignatures = [] then [.checkCompleteness none] else cosignatures.map .checkEligibility
        event := some (.inserted cache.insertions payload) }
  | .checkEligibility cosignature =>
    let result := checkEligibility env chain cache cosignature
    { cache
      tasks := [afterCheck cosignature result]
      event := some (.checked cosignature result.isEligible (foundIneligible env chain cache cosignature)) }
  | .refresh cosignature stale =>
    { cache := refreshStaleCacheEntry env cache stale, tasks := [.verify cosignature], event := some .refreshed }
  | .purge cosignature =>
    match cache.remove env with
    | none => { cache, tasks := [.complete cosignature .error] }
    | some (_, rest) => { cache := rest, tasks := [.complete cosignature .error], event := some .purged }
  | .verify cosignature =>
    if env.verify cosignature then { cache, tasks := [.addCosignature cosignature] }
    else { cache, tasks := [.complete cosignature .unverifiable] }
  | .addCosignature cosignature =>
    match cache.addCosignature cosignature with
    | none => { cache, tasks := [.complete cosignature .redundant] }
    | some added =>
      { cache := added, tasks := [.checkCompleteness (some cosignature)], event := some (.added cosignature) }
  | .checkCompleteness cosignature =>
    match cache.entry with
    | none => { cache, tasks := completeWith cosignature .redundant }
    | some entry =>
      if env.validateCosignatories chain entry.payload entry.cosignatures = .success then
        { cache
          tasks := [.removeCompleted cosignature entry.cosignatures]
          event := some (.judgedComplete entry.cosignatures) }
      else { cache, tasks := completeWith cosignature .addedIncomplete }
  | .removeCompleted cosignature completed =>
    match cache.remove env with
    | none => { cache, tasks := completeWith cosignature .addedComplete }
    | some (removed, rest) =>
      { cache := rest
        tasks := [.deliver cosignature removed.insertion (stitchAggregate removed.payload completed)]
        event := some .completed }
  | .deliver cosignature insertion aggregate =>
    { cache, tasks := completeWith cosignature .addedComplete, event := some (.delivered insertion aggregate) }
  | .complete cosignature result => { cache, event := some (.returned cosignature result) }

structure State (Key Signature Payload Chain : Type) where
  chain : Chain
  cache : Cache Key Signature Payload := {}
  tasks : List (Task Key Signature Payload) := []

/-- Requests of transactions and cosignatures, steps of the tasks that meet `ok`, and what happens around. -/
inductive Step (env : Environment Key Signature Payload Chain)
    (ok : State Key Signature Payload Chain → Task Key Signature Payload → Prop) :
    State Key Signature Payload Chain → Option (Event Key Signature Payload) → State Key Signature Payload Chain → Prop
  | updateTransaction {state} (aggregate : Aggregate Key Signature Payload) :
      Step env ok state none { state with tasks := state.tasks ++ [.findTransaction aggregate] }
  | updateCosignature {state} (cosignature : Cosignature Key Signature) :
      Step env ok state none { state with tasks := state.tasks ++ [.checkEligibility cosignature] }
  | run {state} {before after task} (htasks : state.tasks = before ++ task :: after) (hok : ok state task) :
      Step env ok state (runTask env state.chain state.cache task).event
        { state with
          cache := (runTask env state.chain state.cache task).cache
          tasks := before ++ (runTask env state.chain state.cache task).tasks ++ after }
  | changeState {state} (chain : Chain) : Step env ok state none { state with chain }
  | prune {state} {entry rest} (hentry : state.cache.remove env = some (entry, rest)) :
      Step env ok state (some .pruned) { state with cache := rest }
  | changeOthers {state} (cacheSize : Nat) :
      Step env ok state none { state with cache := { state.cache with cacheSize } }

/-- What happens next; a task is given by its place. -/
inductive Choice (Key Signature Payload Chain : Type) where
  | updateTransaction (aggregate : Aggregate Key Signature Payload)
  | updateCosignature (cosignature : Cosignature Key Signature)
  | run (index : Nat)
  | changeState (chain : Chain)

def choose (env : Environment Key Signature Payload Chain) (state : State Key Signature Payload Chain) :
    Choice Key Signature Payload Chain → Option (Event Key Signature Payload) × State Key Signature Payload Chain
  | .updateTransaction aggregate => (none, { state with tasks := state.tasks ++ [.findTransaction aggregate] })
  | .updateCosignature cosignature => (none, { state with tasks := state.tasks ++ [.checkEligibility cosignature] })
  | .run index =>
    match state.tasks[index]? with
    | none => (none, state)
    | some task =>
      let outcome := runTask env state.chain state.cache task
      (outcome.event,
        { state with
          cache := outcome.cache, tasks := state.tasks.take index ++ outcome.tasks ++ state.tasks.drop (index + 1) })
  | .changeState chain => (none, { state with chain })

/-- The events of a schedule and the state that it leads to. -/
def play (env : Environment Key Signature Payload Chain) :
    List (Choice Key Signature Payload Chain) → State Key Signature Payload Chain →
      List (Event Key Signature Payload) × State Key Signature Payload Chain
  | [], state => ([], state)
  | choice :: schedule, state =>
    let rest := play env schedule (choose env state choice).2
    ((choose env state choice).1.toList ++ rest.1, rest.2)

/-- Every task that a schedule runs meets `ok`. -/
def Admits (env : Environment Key Signature Payload Chain)
    (ok : State Key Signature Payload Chain → Task Key Signature Payload → Prop) :
    List (Choice Key Signature Payload Chain) → State Key Signature Payload Chain → Prop
  | [], _ => True
  | choice :: schedule, state =>
    (match choice with
      | .run index => ∀ task ∈ state.tasks[index]?, ok state task
      | _ => True) ∧ Admits env ok schedule (choose env state choice).2

instance decidableAdmits (env : Environment Key Signature Payload Chain)
    (ok : State Key Signature Payload Chain → Task Key Signature Payload → Prop) [∀ state, DecidablePred (ok state)] :
    ∀ schedule state, Decidable (Admits env ok schedule state)
  | [], _ => .isTrue trivial
  | choice :: schedule, state =>
    have : Decidable (Admits env ok schedule (choose env state choice).2) := decidableAdmits env ok schedule _
    match choice with
    | .run _ => inferInstanceAs (Decidable (_ ∧ _))
    | .updateTransaction _ | .updateCosignature _ | .changeState _ => inferInstanceAs (Decidable (True ∧ _))

end Catapult.PartialTransactions
