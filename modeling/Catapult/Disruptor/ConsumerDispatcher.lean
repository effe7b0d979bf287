import Catapult.Chain.CompareChains
import Catapult.Lib.Trace

/-!
# Consumer dispatcher (`ConsumerDispatcher`, `Disruptor`, `CircularBuffer`)

A producer adds elements to a circular buffer, and one thread per consumer passes over them. Barrier `k` is the number
of elements that consumer `k` may go up to: barrier 0 counts the elements that were added, and barrier `k + 1` those
that consumer `k` has finished. The last consumer runs the inspector after it has advanced the last barrier.

`Step` has one constructor for each barrier read or advance, each access to an element and each call of a consumer or
of the inspector. Additions hold a lock, so that there is at most one at a time. Positions are counted without a bound;
the memory size is a 64 bit value.
-/

namespace Catapult.Disruptor
open Catapult.Chain (add64 sub64)

/-- `CheckOptions`, and at least one consumer. -/
structure Options where
  slotCount : Nat
  maxMemorySize : Nat
  numConsumers : Nat
  slotCount_pos : 0 < slotCount
  maxMemorySize_pos : 0 < maxMemorySize
  maxMemorySize_lt : maxMemorySize < 2 ^ 64
  numConsumers_pos : 0 < numConsumers

/-- An element with the memory size that its completion handler gives back. The result is the one of the consumer that
has aborted it, with the position. -/
structure Element (Input Code : Type) where
  id : Nat
  memorySize : Nat
  input : Input
  result : Option (Code × Nat)

inductive Producer (Input : Type) where
  | idle
  | locked (input : Input)
  | readLast (input : Input) (minPosition : Nat)
  | checked (input : Input) (isFull : Bool)
  | accepted (input : Input)
  | reserved (input : Input)
  | pushed

/-- What a consumer thread does next: `tryNext` is `waiting` and `checking`, `advance` is `advancing` and, on the thread
of the last consumer, `inspecting` and `completing` with the position before. -/
inductive Activity (Code : Type) where
  | waiting
  | checking
  | consuming
  | marking (code : Code)
  | advancing
  | inspecting (position : Nat)
  | completing (position : Nat)

structure Consumer (Code : Type) where
  position : Nat
  activity : Activity Code

structure State (Input Code : Type) where
  barriers : Nat → Nat
  slots : Nat → Option (Element Input Code)
  next : Nat
  allElementsCount : Nat
  memorySize : Nat
  producer : Producer Input
  consumers : Nat → Consumer Code

inductive Event where
  | added (memorySize : Nat)
  | offered (level position : Nat)
  | skipped (level position : Nat)
  | aborted (level position : Nat)
  | finished (level position : Nat)
  | inspected (position : Nat)
  | completed (position : Nat)

variable {Input Code : Type}

def State.init : State Input Code where
  barriers _ := 0
  slots _ := none
  next := 0
  allElementsCount := 0
  memorySize := 0
  producer := .idle
  consumers _ := { position := 0, activity := .waiting }

def elementAt (options : Options) (state : State Input Code) (position : Nat) : Option (Element Input Code) :=
  state.slots (position % options.slotCount)

def State.setElement (options : Options) (state : State Input Code) (position : Nat) (element : Element Input Code) :
    State Input Code :=
  { state with slots := Function.update state.slots (position % options.slotCount) (some element) }

def State.setActivity (state : State Input Code) (level : Nat) (activity : Activity Code) : State Input Code :=
  { state with consumers := Function.update state.consumers level { state.consumers level with activity } }

/-- The barriers are read one after the other, the last one first. -/
def canProcessNextElement (options : Options) (minPosition maxPosition : Nat) : Bool :=
  maxPosition - minPosition + 1 + 1 ≤ options.slotCount

variable (memorySize : Input → Nat) (isEmpty : Input → Bool) (options : Options)

def isMemoryFull (state : State Input Code) (input : Input) : Bool :=
  sub64 options.maxMemorySize state.memorySize < memorySize input

/-- `Disruptor::add`. -/
def add (state : State Input Code) (input : Input) : State Input Code :=
  { state.setElement options state.next
      { id := state.allElementsCount + 1, memorySize := memorySize input, input, result := none } with
    next := state.next + 1
    allElementsCount := state.allElementsCount + 1
    producer := .pushed }

/-- The position of the entry, then the barrier, and the inspector for the last consumer. -/
def advance (state : State Input Code) (level : Nat) : State Input Code :=
  let position := (state.consumers level).position
  let activity := if level + 1 = options.numConsumers then .inspecting position else .waiting
  { state with
    barriers := Function.update state.barriers (level + 1) (state.barriers (level + 1) + 1)
    consumers := Function.update state.consumers level { position := position + 1, activity } }

inductive Step : State Input Code → Option Event → State Input Code → Prop
  -- `processElement`
  | lock {state} (input : Input) (hidle : state.producer = .idle) (hinput : isEmpty input = false) :
      Step state none { state with producer := .locked input }
  | readLast {state} {input} (h : state.producer = .locked input) :
      Step state none { state with producer := .readLast input (state.barriers options.numConsumers) }
  | readFirst {state} {input minPosition} (h : state.producer = .readLast input minPosition) :
      Step state none
        { state with producer := .checked input (!canProcessNextElement options minPosition (state.barriers 0)) }
  | checkMemory {state} {input isFull} (h : state.producer = .checked input isFull) :
      Step state none
        { state with
          producer := if isFull || isMemoryFull memorySize options state input then .idle else .accepted input }
  | reserve {state} {input} (h : state.producer = .accepted input) :
      Step state none
        { state with memorySize := add64 state.memorySize (memorySize input), producer := .reserved input }
  | push {state} {input} (h : state.producer = .reserved input) :
      Step state (some (.added (memorySize input))) (add memorySize options state input)
  | advanceFirst {state} (h : state.producer = .pushed) :
      Step state none
        { state with barriers := Function.update state.barriers 0 (state.barriers 0 + 1), producer := .idle }
  -- a consumer thread; at the barrier it sleeps and tries again
  | sleep {state} {level} (hlevel : level < options.numConsumers) (h : (state.consumers level).activity = .waiting)
      (hbarrier : (state.consumers level).position = state.barriers level) : Step state none state
  | tryNext {state} {level} (hlevel : level < options.numConsumers) (h : (state.consumers level).activity = .waiting)
      (hbarrier : (state.consumers level).position ≠ state.barriers level) :
      Step state none (state.setActivity level .checking)
  | offer {state} {level element} (hlevel : level < options.numConsumers)
      (h : (state.consumers level).activity = .checking)
      (helement : elementAt options state (state.consumers level).position = some element)
      (hresult : element.result = none) :
      Step state (some (.offered level (state.consumers level).position)) (state.setActivity level .consuming)
  | skip {state} {level element} (hlevel : level < options.numConsumers)
      (h : (state.consumers level).activity = .checking)
      (helement : elementAt options state (state.consumers level).position = some element)
      (hresult : element.result.isSome) :
      Step state (some (.skipped level (state.consumers level).position)) (state.setActivity level .advancing)
  -- the consumer may change the input
  | consume {state} {level element} (input : Input) (hlevel : level < options.numConsumers)
      (h : (state.consumers level).activity = .consuming)
      (helement : elementAt options state (state.consumers level).position = some element) :
      Step state none
        ((state.setElement options (state.consumers level).position { element with input }).setActivity level
          .advancing)
  | abort {state} {level element} (input : Input) (code : Code) (hlevel : level < options.numConsumers)
      (h : (state.consumers level).activity = .consuming)
      (helement : elementAt options state (state.consumers level).position = some element) :
      Step state (some (.aborted level (state.consumers level).position))
        ((state.setElement options (state.consumers level).position { element with input }).setActivity level
          (.marking code))
  | markSkipped {state} {level element code} (hlevel : level < options.numConsumers)
      (h : (state.consumers level).activity = .marking code)
      (helement : elementAt options state (state.consumers level).position = some element) :
      Step state none
        ((state.setElement options (state.consumers level).position
          { element with result := some (code, (state.consumers level).position) }).setActivity level .advancing)
  | advance {state} {level} (hlevel : level < options.numConsumers)
      (h : (state.consumers level).activity = .advancing) :
      Step state (some (.finished level (state.consumers level).position)) (advance options state level)
  | inspect {state} {level position element} (hlevel : level < options.numConsumers)
      (h : (state.consumers level).activity = .inspecting position)
      (helement : elementAt options state position = some element) :
      Step state (some (.inspected position)) (state.setActivity level (.completing position))
  | complete {state} {level position element} (hlevel : level < options.numConsumers)
      (h : (state.consumers level).activity = .completing position)
      (helement : elementAt options state position = some element) :
      Step state (some (.completed position))
        { state.setActivity level .waiting with memorySize := sub64 state.memorySize element.memorySize }

end Catapult.Disruptor
