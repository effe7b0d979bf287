import Catapult.Io.BlockElement
import Catapult.Lib.Footprint

/-!
# Size predicates (`IsSizeValid`, `BasicContiguousEntityContainer`)

The size predicates of blocks and transactions, over the memory that a packet is in. A predicate knows the position of
an entity and nothing of the end of the packet: it goes by the size that the entity claims for itself.
-/

namespace Catapult.Ionet
open Io (transactionSize paddingSize)

abbrev Memory := Nat → UInt8

def bytesAt (memory : Memory) (position count : Nat) : List UInt8 :=
  (List.range count).map fun i => memory (position + i)

def readField (memory : Memory) (position count : Nat) : Reading Nat :=
  ⟨ofLeBytes (bytesAt memory position count), position + count⟩

def sizeAt (memory : Memory) (position : Nat) : Nat := (readField memory position 4).value

def advance (memory : Memory) (endPosition position : Nat) : Nat :=
  let size := sizeAt memory position
  if position + size = endPosition then endPosition else position + size + paddingSize size

/-- The entity at a position is in the container, and there is room for its header. -/
def IsEntityInBuffer (memory : Memory) (entitySize endPosition position : Nat) : Prop :=
  position + sizeAt memory position ≤ endPosition ∧ entitySize ≤ sizeAt memory position

instance (memory : Memory) (entitySize endPosition position : Nat) :
    Decidable (IsEntityInBuffer memory entitySize endPosition position) :=
  inferInstanceAs (Decidable (_ ∧ _))

/-- Whether all entities of a container from a position on pass a check and the iteration meets no error
(`std::all_of` with errors suppressed, and `hasError`). The size of an entity is read when it is in the container. -/
def areAllValid (memory : Memory) (entitySize : Nat) (hsize : 0 < entitySize) (isValid : Nat → Reading Bool)
    (endPosition position : Nat) : Reading Bool :=
  if position = endPosition then return true
  else if endPosition < position + 4 then return false
  else do
    let _ ← readField memory position 4
    if _hbuffer : IsEntityInBuffer memory entitySize endPosition position then do
      let valid ← isValid position
      if valid then areAllValid memory entitySize hsize isValid endPosition (advance memory endPosition position)
      else return false
    else return false
termination_by endPosition - position
decreasing_by
  have hlt : 0 < sizeAt memory position := Nat.lt_of_lt_of_le hsize _hbuffer.2
  unfold advance
  dsimp only
  split <;> omega

/-- What `CalculateRealSize` of a type of transactions goes by: the fields up to an end in the part of fixed size. -/
structure Layout where
  size : Nat
  fieldsEnd : Nat
  fieldsEnd_le : fieldsEnd ≤ size
  calculateRealSize : List UInt8 → Nat

def isSizeValidT (layout : Layout) (memory : Memory) (position : Nat) : Reading Bool :=
  if sizeAt memory position < layout.size then return false
  else do
    let fields ← (⟨bytesAt memory position layout.fieldsEnd, position + layout.fieldsEnd⟩ : Reading (List UInt8))
    return layout.calculateRealSize fields = sizeAt memory position

/-- A plugin has a layout for transactions, one for embedded transactions, or both, or it is that of the aggregates. -/
inductive TransactionPlugin where
  | basic (transaction embedded : Option Layout)
  | aggregate

def embeddedTransactionSize : Nat := 48

def aggregateTransactionSize : Nat := 168

def cosignatureSize : Nat := 104

/-- The layout for a type of embedded transactions, when there is one. -/
def findEmbedded (registry : Nat → Option TransactionPlugin) (type : Nat) : Option Layout :=
  match registry type with
  | some (.basic _ embedded) => embedded
  | _ => none

def isEmbeddedSizeValid (registry : Nat → Option TransactionPlugin) (memory : Memory) (position : Nat) :
    Reading Bool := do
  let size ← readField memory position 4
  if size < embeddedTransactionSize then return false
  else do
    let type ← readField memory (position + 46) 2
    match findEmbedded registry type with
    | none => return false
    | some layout => isSizeValidT layout memory position

def payloadSizeAt (memory : Memory) (position : Nat) : Nat := (readField memory (position + 160) 4).value

def IsPayloadSizeValid (memory : Memory) (position : Nat) : Prop :=
  let size := sizeAt memory position
  let payloadSize := payloadSizeAt memory position
  payloadSize % 8 = 0 ∧ payloadSize ≤ size - aggregateTransactionSize ∧
    (size - aggregateTransactionSize - payloadSize) % cosignatureSize = 0

instance (memory : Memory) (position : Nat) : Decidable (IsPayloadSizeValid memory position) :=
  inferInstanceAs (Decidable (_ ∧ _ ∧ _))

def isAggregateSizeValid (registry : Nat → Option TransactionPlugin) (memory : Memory) (position : Nat) :
    Reading Bool :=
  if sizeAt memory position < aggregateTransactionSize then return false
  else do
    let payloadSize ← readField memory (position + 160) 4
    if IsPayloadSizeValid memory position then
      areAllValid memory embeddedTransactionSize (by decide) (isEmbeddedSizeValid registry memory)
        (position + aggregateTransactionSize + payloadSize) (position + aggregateTransactionSize)
    else return false

def isTransactionSizeValid (registry : Nat → Option TransactionPlugin) (memory : Memory) (position : Nat) :
    Reading Bool := do
  let size ← readField memory position 4
  if size < transactionSize then return false
  else do
    let type ← readField memory (position + 110) 2
    match registry type with
    | none => return false
    | some .aggregate => isAggregateSizeValid registry memory position
    | some (.basic none _) => return false
    | some (.basic (some layout) _) => isSizeValidT layout memory position

def verifiableEntitySize : Nat := 112

def blockHeaderSize : Nat := 372

/-- `GetBlockHeaderSize`, for a type. -/
def getBlockHeaderSize (type : Nat) : Nat := blockHeaderSize + if type = 0x8043 ∨ type = 0x8243 then 52 else 4

def isBlockSizeValid (registry : Nat → Option TransactionPlugin) (memory : Memory) (position : Nat) : Reading Bool := do
  let size ← readField memory position 4
  if size < verifiableEntitySize then return false
  else do
    let type ← readField memory (position + 110) 2
    if size < getBlockHeaderSize type then return false
    else
      areAllValid memory transactionSize (by decide) (isTransactionSizeValid registry memory) (position + size)
        (position + getBlockHeaderSize type)

variable {registry : Nat → Option TransactionPlugin} {memory : Memory} {position entitySize endPosition : Nat}

@[simp] theorem readField_reach {count : Nat} : (readField memory position count).reach = position + count := rfl

@[simp] theorem readField_value_size : (readField memory position 4).value = sizeAt memory position := rfl

end Catapult.Ionet
