import Catapult.Io.BlockElement
import Catapult.Lib.Items

/-!
# Containers of contiguous entities

An entity starts with its size. An iterator goes over the entities of a buffer by pointers, which are addresses here,
and zero is the null pointer. A read that is not inside of the buffer is an error of its own, and so is a loop that does
not end within its fuel. The iteration leaves the error flag of the container and the entities that it yielded.
-/

namespace Catapult.Model
open Io (paddingSize)

/-- The size of the entity structure, which has a size field. -/
structure EntityType where
  sizeOf : Nat
  four_le : 4 ≤ sizeOf

/-- There is a buffer where the start is not null. A `TransactionContainer` without a payload has no start, whatever the
size of its payload is. -/
structure ContiguousEntityContainer where
  pStart : Nat
  size : Nat
  bytes : List UInt8
  throwOnError : Bool
  length_bytes : pStart ≠ 0 → bytes.length = size

inductive IterationError where
  /-- `catapult_out_of_range` -/
  | outOfRange
  /-- `catapult_runtime_error` -/
  | runtimeError
  | readOutside
  | unfinished
  deriving DecidableEq

structure IterationState where
  hasError : Bool
  yielded : List (List UInt8)
  deriving DecidableEq

abbrev Iteration := EStateM IterationError IterationState

namespace ContiguousEntityContainer
variable (entityType : EntityType) (container : ContiguousEntityContainer)

def read (p count : Nat) : Iteration (List UInt8) :=
  if container.pStart ≠ 0 ∧ container.pStart ≤ p ∧ p + count ≤ container.pStart + container.size then
    return (container.bytes.drop (p - container.pStart)).take count
  else throw .readOutside

def readSize (p : Nat) : Iteration Nat := return ofLeBytes (← container.read p 4)

def endBytePointer : Nat := container.pStart + container.size

def isEnd (p : Nat) : Bool := p = 0 || container.endBytePointer = p

def isEntityInBuffer (p : Nat) : Iteration Bool :=
  if container.endBytePointer < p then return false
  else if container.endBytePointer < p + 4 then return false
  else return p + (← container.readSize p) ≤ container.endBytePointer

def advance (p numBytes : Nat) : Nat :=
  if container.endBytePointer = p + numBytes then p + numBytes else p + numBytes + paddingSize numBytes

/-- The size is read when there is one in the buffer. -/
def isValid (p : Nat) : Iteration Bool := do
  if ← container.isEntityInBuffer p then return entityType.sizeOf ≤ (← container.readSize p)
  else return false

/-- The current pointer after an error. -/
def setError : Iteration Nat := do
  modify fun state => { state with hasError := true }
  if container.throwOnError then throw .runtimeError
  else return container.endBytePointer

def checkError (pCurrent : Nat) : Iteration Nat := do
  if container.isEnd pCurrent then return pCurrent
  else if ← container.isValid entityType pCurrent then return pCurrent
  else container.setError

def iterator (pCurrent : Nat) : Iteration Nat :=
  container.checkError entityType <|
    if pCurrent = 0 ∧ container.pStart ≠ 0 then container.advance container.pStart container.size else pCurrent

def begin : Iteration Nat := container.iterator entityType container.pStart

def last : Iteration Nat := container.iterator entityType 0

def increment (pCurrent : Nat) : Iteration Nat := do
  if container.isEnd pCurrent then throw .outOfRange
  else
    let pNext := container.advance pCurrent (← container.readSize pCurrent)
    if container.isEnd pNext then return pNext
    else container.checkError entityType pNext

def dereference (pCurrent : Nat) : Iteration (List UInt8) := do
  if container.isEnd pCurrent then throw .outOfRange
  else container.read pCurrent (← container.readSize pCurrent)

def loop : Nat → Nat → Nat → Iteration Unit
  | 0, _, _ => throw .unfinished
  | fuel + 1, pCurrent, pLast => do
    if pCurrent = pLast then return ()
    else
      let entity ← container.dereference pCurrent
      modify fun state => { state with yielded := state.yielded ++ [entity] }
      loop fuel (← container.increment entityType pCurrent) pLast

def iterate (fuel : Nat) : Iteration Unit := do
  let pFirst ← container.begin entityType
  let pLast ← container.last entityType
  container.loop entityType fuel pFirst pLast

end ContiguousEntityContainer

/-!
## The grammar of entity containers

The bytes of a container are read as a sequence of padded entities. An iteration yields the entities of a longest such
sequence, and it meets an error when a tail is left over. When the tail starts with an entity whose padding does not end
in the buffer, the entity is yielded before the error.
-/

def entityFormat (entityType : EntityType) : ItemFormat UInt8 where
  IsItem item := entityType.sizeOf ≤ item.length ∧ ofLeBytes (item.take 4) = item.length
  padding item := paddingSize item.length
  ne_nil := by
    rintro item ⟨hle, -⟩ rfl
    exact absurd (Nat.le_trans entityType.four_le hle) (by decide)
  unique := by
    rintro buffer item item' ⟨hle, hsize⟩ ⟨hle', hsize'⟩ ⟨rest, rfl⟩ ⟨rest', heq⟩
    have h4 := Nat.le_trans entityType.four_le hle
    have h4' := Nat.le_trans entityType.four_le hle'
    have htake : item'.take 4 = item.take 4 := by
      rw [← List.take_append_of_le_length h4', heq, List.take_append_of_le_length h4]
    refine (List.append_inj heq ?_).1.symm
    rw [← hsize', ← hsize, htake]

def HasEntity (entityType : EntityType) (rest : List UInt8) : Prop :=
  4 ≤ rest.length ∧ ofLeBytes (rest.take 4) ≤ rest.length ∧ entityType.sizeOf ≤ ofLeBytes (rest.take 4)

instance (entityType : EntityType) (rest : List UInt8) : Decidable (HasEntity entityType rest) :=
  inferInstanceAs (Decidable (_ ∧ _))

theorem hasEntity_iff {entityType : EntityType} {rest : List UInt8} :
    HasEntity entityType rest ↔ ∃ entity after, rest = entity ++ after ∧ (entityFormat entityType).IsItem entity := by
  constructor
  · rintro ⟨h4, hle, hsize⟩
    have hlength : (rest.take (ofLeBytes (rest.take 4))).length = ofLeBytes (rest.take 4) := List.length_take_of_le hle
    refine ⟨_, _, (List.take_append_drop (ofLeBytes (rest.take 4)) rest).symm, ?_, ?_⟩
    · rwa [hlength]
    · rw [hlength, List.take_take, Nat.min_eq_left (Nat.le_trans entityType.four_le hsize)]
  · rintro ⟨entity, after, rfl, hle, hsize⟩
    have h4 := Nat.le_trans entityType.four_le hle
    rw [HasEntity, List.take_append_of_le_length h4, hsize, List.length_append]
    exact ⟨Nat.le_add_right_of_le h4, Nat.le_add_right _ _, hle⟩

namespace ContiguousEntityContainer
variable {entityType : EntityType} {container : ContiguousEntityContainer} {state : IterationState} {offset : Nat}

theorem bind_ok {α β : Type} {x : Iteration α} {f : α → Iteration β} {state state' : IterationState} {a : α}
    (h : x state = .ok a state') : (x >>= f) state = f a state' := by
  change EStateM.bind x f state = _
  rw [EStateM.bind, h]

theorem bind_error {α β : Type} {x : Iteration α} {f : α → Iteration β} {state state' : IterationState}
    {error : IterationError} (h : x state = .error error state') : (x >>= f) state = .error error state' := by
  change EStateM.bind x f state = _
  rw [EStateM.bind, h]

/-! ## Reads -/

section Buffer
variable (hstart : container.pStart ≠ 0)
include hstart

theorem read_eq {count : Nat} (h : offset + count ≤ container.bytes.length) :
    container.read (container.pStart + offset) count state = .ok ((container.bytes.drop offset).take count) state := by
  rw [read, if_pos ⟨hstart, Nat.le_add_right _ _, by rw [← container.length_bytes hstart]; omega⟩,
    Nat.add_sub_cancel_left]
  rfl

theorem readSize_eq (h : offset + 4 ≤ container.bytes.length) :
    container.readSize (container.pStart + offset) state =
      .ok (ofLeBytes ((container.bytes.drop offset).take 4)) state :=
  bind_ok (read_eq hstart h)

theorem isEnd_iff : container.isEnd (container.pStart + offset) = true ↔ offset = container.bytes.length := by
  rw [container.length_bytes hstart, isEnd, endBytePointer, Bool.or_eq_true, decide_eq_true_eq, decide_eq_true_eq]
  omega

theorem isValid_eq : container.isValid entityType (container.pStart + offset) state =
    .ok (decide (HasEntity entityType (container.bytes.drop offset))) state := by
  have hsize := container.length_bytes hstart
  rw [isValid]
  by_cases h4 : offset + 4 ≤ container.bytes.length
  · have hread := @readSize_eq container state offset hstart h4
    have hbuffer : container.isEntityInBuffer (container.pStart + offset) state = .ok (decide
        (container.pStart + offset + ofLeBytes ((container.bytes.drop offset).take 4) ≤ container.endBytePointer))
        state := by
      rw [isEntityInBuffer, if_neg (by rw [endBytePointer]; omega), if_neg (by rw [endBytePointer]; omega)]
      exact bind_ok hread
    rw [bind_ok hbuffer]
    have hlength : (container.bytes.drop offset).length = container.bytes.length - offset := List.length_drop
    split
    next hle =>
      rw [bind_ok hread]
      rw [decide_eq_true_eq, endBytePointer] at hle
      refine congrArg (EStateM.Result.ok · state) (decide_eq_decide.2 ⟨fun h => ⟨?_, ?_, h⟩, fun h => h.2.2⟩) <;> omega
    next hle =>
      rw [decide_eq_true_eq, endBytePointer] at hle
      refine congrArg (EStateM.Result.ok · state) (decide_eq_false fun h => hle ?_).symm
      have := h.2.1
      omega
  · have hbuffer : container.isEntityInBuffer (container.pStart + offset) state = .ok false state := by
      rw [isEntityInBuffer, endBytePointer]
      split
      · rfl
      · rw [if_pos (by omega)]
        rfl
    rw [bind_ok hbuffer]
    refine congrArg (EStateM.Result.ok · state) (decide_eq_false fun h => h4 ?_).symm
    have := h.1
    rw [List.length_drop] at this
    omega

/-- The result of `setError`. -/
def failed (container : ContiguousEntityContainer) (state : IterationState) :
    EStateM.Result IterationError IterationState Nat :=
  if container.throwOnError then .error .runtimeError { state with hasError := true }
  else .ok container.endBytePointer { state with hasError := true }

omit hstart in
theorem setError_eq : container.setError state = failed container state := by
  rw [failed]
  by_cases hthrow : container.throwOnError = true
  · rw [if_pos hthrow, setError, if_pos hthrow]
    rfl
  · rw [if_neg hthrow, setError, if_neg hthrow]
    rfl

theorem checkError_eq : container.checkError entityType (container.pStart + offset) state =
    if offset = container.bytes.length ∨ HasEntity entityType (container.bytes.drop offset) then
      .ok (container.pStart + offset) state
    else failed container state := by
  rw [checkError]
  by_cases hend : offset = container.bytes.length
  · rw [if_pos ((isEnd_iff hstart).2 hend), if_pos (.inl hend)]
    rfl
  · rw [if_neg (mt (isEnd_iff hstart).1 hend), bind_ok (isValid_eq hstart)]
    by_cases hentity : HasEntity entityType (container.bytes.drop offset)
    · rw [if_pos (decide_eq_true hentity), if_pos (.inr hentity)]
      rfl
    · rw [if_neg (by simpa using hentity), if_neg (not_or.2 ⟨hend, hentity⟩)]
      exact setError_eq

section Entity
variable {entity after : List UInt8} (hentity : (entityFormat entityType).IsItem entity)
  (hdrop : container.bytes.drop offset = entity ++ after)
include hentity hdrop

omit hstart in
theorem length_eq : offset + entity.length + after.length = container.bytes.length := by
  have hlength := congrArg List.length hdrop
  rw [List.length_drop, List.length_append] at hlength
  have := Nat.le_trans entityType.four_le hentity.1
  omega

theorem readSize_entity : container.readSize (container.pStart + offset) state = .ok entity.length state := by
  have h4 := Nat.le_trans entityType.four_le hentity.1
  have hlength := length_eq hentity hdrop
  rw [readSize_eq hstart (by omega), hdrop, List.take_append_of_le_length h4, hentity.2]

theorem isEnd_entity : container.isEnd (container.pStart + offset) = false := by
  have h4 := Nat.le_trans entityType.four_le hentity.1
  have hlength := length_eq hentity hdrop
  rw [Bool.eq_false_iff, ne_eq, isEnd_iff hstart]
  omega

theorem dereference_eq : container.dereference (container.pStart + offset) state = .ok entity state := by
  have hlength := length_eq hentity hdrop
  rw [dereference, if_neg (by rw [isEnd_entity hstart hentity hdrop]; decide),
    bind_ok (readSize_entity hstart hentity hdrop), read_eq hstart (by omega), hdrop, List.take_left]

theorem increment_eq : container.increment entityType (container.pStart + offset) state =
    if after = [] then .ok container.endBytePointer state
    else container.checkError entityType (container.pStart + (offset + entity.length + paddingSize entity.length))
      state := by
  have hlength := length_eq hentity hdrop
  have hend := container.length_bytes hstart
  rw [increment, if_neg (by rw [isEnd_entity hstart hentity hdrop]; decide),
    bind_ok (readSize_entity hstart hentity hdrop)]
  by_cases hafter : after = []
  · rw [if_pos hafter]
    subst hafter
    have hnext : container.advance (container.pStart + offset) entity.length = container.endBytePointer := by
      rw [List.length_nil] at hlength
      rw [advance, endBytePointer, if_pos (by omega)]
      omega
    rw [hnext, if_pos (by simp [isEnd])]
    rfl
  · rw [if_neg hafter]
    have hpos := List.length_pos_iff.2 hafter
    have hnext : container.advance (container.pStart + offset) entity.length =
        container.pStart + (offset + entity.length + paddingSize entity.length) := by
      rw [advance, endBytePointer, if_neg (by omega)]
      omega
    rw [hnext, checkError]
    split <;> rfl

end Entity
end Buffer

/-! ## Iterations -/

/-- The entities of the sequence, and one more when its padding is cut off. -/
def Yields (entityType : EntityType) (entities : List (List UInt8)) (tail : List UInt8) (yielded : List (List UInt8)) :
    Prop :=
  (∃ entity, (entityFormat entityType).CutOff tail entity ∧ yielded = entities ++ [entity]) ∨
    (∀ entity, ¬(entityFormat entityType).CutOff tail entity) ∧ yielded = entities

def finished (container : ContiguousEntityContainer) (state : IterationState) (tail : List UInt8) :
    EStateM.Result IterationError IterationState Unit :=
  if tail = [] then .ok () state
  else if container.throwOnError then .error .runtimeError { state with hasError := true }
  else .ok () { state with hasError := true }

theorem Yields.cons {entity : List UInt8} {entities yielded : List (List UInt8)} {tail : List UInt8}
    (h : Yields entityType entities tail yielded) :
    Yields entityType (entity :: entities) tail (entity :: yielded) := by
  rcases h with ⟨last, hcut, rfl⟩ | ⟨hcut, rfl⟩
  · exact .inl ⟨last, hcut, rfl⟩
  · exact .inr ⟨hcut, rfl⟩

theorem yields_of_not_hasEntity {rest : List UInt8} {entities : List (List UInt8)} (h : ¬HasEntity entityType rest) :
    Yields entityType entities rest entities :=
  .inr ⟨fun entity ⟨hentity, after, heq, _⟩ => h (hasEntity_iff.2 ⟨entity, after, heq, hentity⟩), rfl⟩

theorem longest_of_not_hasEntity {rest : List UInt8} (h : ¬HasEntity entityType rest) :
    (entityFormat entityType).Longest rest [] rest :=
  ItemFormat.longest_self fun entity hentity ⟨after, heq⟩ => h (hasEntity_iff.2 ⟨entity, after, heq.symm, hentity⟩)

theorem not_hasEntity_nil : ¬HasEntity entityType [] := fun h => absurd h.1 (by decide)

theorem loop_end (fuel : Nat) :
    container.loop entityType (fuel + 1) container.endBytePointer container.endBytePointer state = .ok () state := by
  rw [loop, if_pos rfl]
  rfl

theorem loop_entity {fuel pCurrent pLast : Nat} {entity : List UInt8} (hne : pCurrent ≠ pLast)
    (h : container.dereference pCurrent state = .ok entity state) :
    container.loop entityType (fuel + 1) pCurrent pLast state =
      (container.increment entityType pCurrent >>= fun pNext => container.loop entityType fuel pNext pLast)
        { state with yielded := state.yielded ++ [entity] } := by
  rw [loop, if_neg hne, bind_ok h]
  rfl

theorem loop_failed {x : Iteration Nat} {fuel : Nat} {tail : List UInt8} (h : x state = failed container state)
    (hfuel : 0 < fuel) (htail : tail ≠ []) :
    (x >>= fun pCurrent => container.loop entityType fuel pCurrent container.endBytePointer) state =
      finished container state tail := by
  obtain ⟨fuel, rfl⟩ := Nat.exists_eq_add_of_le' hfuel
  rw [failed] at h
  rw [finished, if_neg htail]
  split at h
  next hthrow => rw [bind_error h, if_pos hthrow]
  next hthrow => rw [bind_ok h, loop_end, if_neg hthrow]

/-- By induction on the fuel, from an entity to the next one. -/
theorem loop_eq (hstart : container.pStart ≠ 0) (fuel : Nat) (hfuel : container.bytes.length - offset < fuel)
    (h : offset = container.bytes.length ∨ HasEntity entityType (container.bytes.drop offset)) :
    ∃ entities tail yielded, (entityFormat entityType).Longest (container.bytes.drop offset) entities tail ∧
      Yields entityType entities tail yielded ∧
      container.loop entityType fuel (container.pStart + offset) container.endBytePointer state =
        finished container { state with yielded := state.yielded ++ yielded } tail := by
  induction fuel generalizing offset state with
  | zero => omega
  | succ fuel ih =>
    rcases h with hend | hentity
    · have hpointer : container.pStart + offset = container.endBytePointer := by
        rw [endBytePointer, hend, container.length_bytes hstart]
      refine ⟨[], [], [], ?_, yields_of_not_hasEntity not_hasEntity_nil, ?_⟩
      · rw [hend, List.drop_length]
        exact longest_of_not_hasEntity not_hasEntity_nil
      · rw [hpointer, loop_end, finished, if_pos rfl, List.append_nil]
    · obtain ⟨entity, after, hdrop, hentity⟩ := hasEntity_iff.1 hentity
      have hlength := length_eq hentity hdrop
      have hpos := Nat.le_trans entityType.four_le hentity.1
      have hne : container.pStart + offset ≠ container.endBytePointer := by
        rw [endBytePointer, ← container.length_bytes hstart]
        omega
      have hincrement := @increment_eq entityType container { state with yielded := state.yielded ++ [entity] } offset
        hstart entity after hentity hdrop
      rw [loop_entity hne (dereference_eq hstart hentity hdrop), hdrop]
      by_cases hafter : after = []
      · subst hafter
        rw [if_pos rfl] at hincrement
        obtain ⟨fuel, rfl⟩ := Nat.exists_eq_add_of_le' (show 0 < fuel by omega)
        rw [bind_ok hincrement, loop_end, List.append_nil]
        exact ⟨[entity], [], [entity], ItemFormat.longest_last hentity, yields_of_not_hasEntity not_hasEntity_nil,
          (if_pos rfl).symm⟩
      · rw [if_neg hafter, checkError_eq hstart] at hincrement
        by_cases hcut : after.length < paddingSize entity.length
        · have hcutOff : (entityFormat entityType).CutOff (entity ++ after) entity :=
            ⟨hentity, after, rfl, hafter, hcut⟩
          rw [if_neg] at hincrement
          · refine ⟨[], entity ++ after, [entity], hcutOff.longest, .inl ⟨entity, hcutOff, rfl⟩, ?_⟩
            exact loop_failed hincrement (by omega) fun hnil => hafter (List.append_eq_nil_iff.1 hnil).2
          · rintro (hend | hnext)
            · omega
            · have := hnext.1
              rw [List.length_drop] at this
              omega
        · rw [Nat.not_lt] at hcut
          have hrest : container.bytes.drop (offset + entity.length + paddingSize entity.length) =
              after.drop (paddingSize entity.length) := by
            rw [Nat.add_assoc, ← List.drop_drop, hdrop, ← List.drop_drop, List.drop_left]
          have hsplit : entity ++ after =
              entity ++ after.take (paddingSize entity.length) ++ after.drop (paddingSize entity.length) := by
            rw [List.append_assoc, List.take_append_drop]
          have hpadding : (after.take (paddingSize entity.length)).length =
              (entityFormat entityType).padding entity :=
            List.length_take_of_le hcut
          rw [hsplit]
          split at hincrement
          next hnext =>
            obtain ⟨entities, tail, yielded, hlongest, hyields, hloop⟩ :=
              @ih { state with yielded := state.yielded ++ [entity] } _ (by omega) hnext
            rw [hrest] at hlongest
            refine ⟨entity :: entities, tail, entity :: yielded, hlongest.cons hentity hpadding, hyields.cons, ?_⟩
            rw [bind_ok hincrement, hloop, List.append_assoc]
            rfl
          next hnext =>
            rw [hrest] at hnext
            have hempty : after.drop (paddingSize entity.length) ≠ [] := by
              intro hnil
              refine hnext (.inl ?_)
              have := List.drop_eq_nil_iff.1 hnil
              omega
            have hnone := mt Or.inr hnext
            refine ⟨[entity], _, [entity], (longest_of_not_hasEntity hnone).cons hentity hpadding,
              yields_of_not_hasEntity hnone, loop_failed hincrement (by omega) hempty⟩

theorem Yields.unique {entities yielded yielded' : List (List UInt8)} {tail : List UInt8}
    (h : Yields entityType entities tail yielded) (h' : Yields entityType entities tail yielded') :
    yielded = yielded' := by
  rcases h with ⟨entity, hcut, rfl⟩ | ⟨hcut, rfl⟩ <;> rcases h' with ⟨entity', hcut', rfl⟩ | ⟨hcut', rfl⟩
  · rw [hcut.unique hcut']
  · exact absurd hcut (hcut' entity)
  · exact absurd hcut' (hcut entity')
  · rfl

theorem last_eq (hstart : container.pStart ≠ 0) :
    container.last entityType state = .ok container.endBytePointer state := by
  have hadvance : container.advance container.pStart container.size = container.endBytePointer := if_pos rfl
  rw [last, iterator, if_pos ⟨rfl, hstart⟩, hadvance, checkError, if_pos (by simp [isEnd])]
  rfl

theorem iterate_eq (hstart : container.pStart ≠ 0) (entityType : EntityType) {fuel : Nat}
    (hfuel : container.bytes.length < fuel) :
    ∃ entities tail yielded, (entityFormat entityType).Longest container.bytes entities tail ∧
      Yields entityType entities tail yielded ∧
      container.iterate entityType fuel ⟨false, []⟩ = finished container ⟨false, yielded⟩ tail := by
  have hbegin : container.begin entityType ⟨false, []⟩ = if 0 = container.bytes.length ∨
      HasEntity entityType container.bytes then .ok container.pStart ⟨false, []⟩ else failed container ⟨false, []⟩ := by
    rw [begin, iterator, if_neg fun h => hstart h.1]
    exact @checkError_eq entityType container ⟨false, []⟩ 0 hstart
  split at hbegin
  next h =>
    obtain ⟨entities, tail, yielded, hlongest, hyields, hloop⟩ :=
      @loop_eq entityType container ⟨false, []⟩ 0 hstart fuel hfuel h
    refine ⟨entities, tail, yielded, hlongest, hyields, ?_⟩
    rw [iterate, bind_ok hbegin, bind_ok (last_eq hstart)]
    exact hloop
  next h =>
    have hnone := mt Or.inr h
    have htail : container.bytes ≠ [] := fun hnil => h (.inl (by rw [hnil]; rfl))
    refine ⟨[], container.bytes, [], longest_of_not_hasEntity hnone, yields_of_not_hasEntity hnone, ?_⟩
    obtain ⟨fuel, rfl⟩ := Nat.exists_eq_add_of_le' (Nat.zero_lt_of_lt hfuel)
    rw [finished, if_neg htail]
    rw [failed] at hbegin
    split at hbegin
    next hthrow => rw [iterate, bind_error hbegin, if_pos hthrow]
    next hthrow => rw [iterate, bind_ok hbegin, bind_ok (last_eq hstart), loop_end, if_neg hthrow]

theorem iterate_null (hstart : container.pStart = 0) (entityType : EntityType) {fuel : Nat} (hfuel : 0 < fuel) :
    container.iterate entityType fuel state = .ok () state := by
  obtain ⟨fuel, rfl⟩ := Nat.exists_eq_add_of_le' hfuel
  have hiterator : container.iterator entityType 0 state = .ok 0 state := by
    rw [iterator, if_neg fun h => h.2 hstart, checkError, if_pos (by rw [isEnd, decide_eq_true rfl, Bool.true_or])]
    rfl
  rw [iterate, begin, hstart, bind_ok hiterator, last, bind_ok hiterator, loop, if_pos rfl]
  rfl

def withPolicy (container : ContiguousEntityContainer) (throwOnError : Bool) : ContiguousEntityContainer :=
  { container with throwOnError }

/-- With both policies an iteration ends, reads inside of the buffer and yields the same. -/
theorem iterate_longest (container : ContiguousEntityContainer) (entityType : EntityType) :
    (container.pStart ≠ 0 → ∃ entities tail yielded,
      (entityFormat entityType).Longest container.bytes entities tail ∧ Yields entityType entities tail yielded ∧
        ∀ fuel, container.bytes.length < fuel →
          (container.withPolicy false).iterate entityType fuel ⟨false, []⟩ = .ok () ⟨decide (tail ≠ []), yielded⟩ ∧
          (container.withPolicy true).iterate entityType fuel ⟨false, []⟩ =
            if tail = [] then .ok () ⟨false, yielded⟩ else .error .runtimeError ⟨true, yielded⟩) ∧
    (container.pStart = 0 → ∀ fuel, 0 < fuel → ∀ throwOnError,
      (container.withPolicy throwOnError).iterate entityType fuel ⟨false, []⟩ = .ok () ⟨false, []⟩) := by
  refine ⟨fun hstart => ?_, fun hstart fuel hfuel throwOnError =>
    @iterate_null (container.withPolicy throwOnError) _ hstart entityType fuel hfuel⟩
  obtain ⟨entities, tail, yielded, hlongest, hyields, -⟩ :=
    @iterate_eq container hstart entityType _ (Nat.lt_succ_self _)
  have hiterate (throwOnError : Bool) {fuel : Nat} (hfuel : container.bytes.length < fuel) :
      (container.withPolicy throwOnError).iterate entityType fuel ⟨false, []⟩ =
        finished (container.withPolicy throwOnError) ⟨false, yielded⟩ tail := by
    obtain ⟨entities', tail', yielded', hlongest', hyields', heq⟩ :=
      @iterate_eq (container.withPolicy throwOnError) hstart entityType fuel hfuel
    obtain ⟨rfl, rfl⟩ := hlongest.unique hlongest'
    rw [hyields.unique hyields']
    exact heq
  refine ⟨entities, tail, yielded, hlongest, hyields, fun fuel hfuel => ?_⟩
  rw [hiterate false hfuel, hiterate true hfuel, finished, finished]
  by_cases htail : tail = []
  · simp [htail]
  · simp [htail, withPolicy]

def sampleCutOff : ContiguousEntityContainer where
  pStart := 8
  size := 10
  bytes := [9, 0, 0, 0, 1, 2, 3, 4, 5, 0]
  throwOnError := false
  length_bytes _ := rfl

theorem iterate_longest_sample : ∃ entities tail yielded,
    (entityFormat ⟨8, by decide⟩).Longest sampleCutOff.bytes entities tail ∧
      Yields ⟨8, by decide⟩ entities tail yielded ∧
        (sampleCutOff.withPolicy true).iterate ⟨8, by decide⟩ 11 ⟨false, []⟩ =
          if tail = [] then .ok () ⟨false, yielded⟩ else .error .runtimeError ⟨true, yielded⟩ := by
  obtain ⟨entities, tail, yielded, hlongest, hyields, hiterate⟩ :=
    (iterate_longest sampleCutOff ⟨8, by decide⟩).1 (by decide)
  exact ⟨entities, tail, yielded, hlongest, hyields, (hiterate 11 (by decide)).2⟩

/-- The entity is yielded, and no sequence of padded entities has it. -/
theorem not_longest_sample : sampleCutOff.iterate ⟨8, by decide⟩ 11 ⟨false, []⟩ =
      .ok () ⟨true, [[9, 0, 0, 0, 1, 2, 3, 4, 5]]⟩ ∧
    ¬∃ entities tail, (entityFormat ⟨8, by decide⟩).Longest sampleCutOff.bytes entities tail ∧
      sampleCutOff.iterate ⟨8, by decide⟩ 11 ⟨false, []⟩ = .ok () ⟨decide (tail ≠ []), entities⟩ := by
  have hiterate : sampleCutOff.iterate ⟨8, by decide⟩ 11 ⟨false, []⟩ =
      .ok () ⟨true, [[9, 0, 0, 0, 1, 2, 3, 4, 5]]⟩ := rfl
  refine ⟨hiterate, ?_⟩
  rintro ⟨entities, tail, hlongest, heq⟩
  rw [hiterate] at heq
  have hcut : (entityFormat ⟨8, by decide⟩).CutOff sampleCutOff.bytes [9, 0, 0, 0, 1, 2, 3, 4, 5] :=
    ⟨⟨by decide, rfl⟩, [0], rfl, by decide, by decide⟩
  obtain ⟨rfl, -⟩ := hlongest.unique hcut.longest
  injection heq with _ hstate
  injection hstate with _ hyielded
  cases hyielded

end ContiguousEntityContainer
end Catapult.Model
