import Catapult.Lib.Reader

/-!
# The working buffer of a packet socket

Data is read into the end of a buffer (`AppendContext`) and packets are extracted from its front (`PacketExtractor`).
When a vector is too small it gets the capacity that the library chooses.
-/

namespace Catapult.Ionet

structure Allocation where
  grow : Nat → Nat → Nat
  le_grow (capacity size : Nat) : size ≤ grow capacity size
  reserve : Nat → Nat
  le_reserve (capacity : Nat) : capacity ≤ reserve capacity

structure ByteBuffer where
  bytes : List UInt8
  capacity : Nat
  length_le : bytes.length ≤ capacity

namespace ByteBuffer
variable (alloc : Allocation) (data : ByteBuffer)

def size : Nat := data.bytes.length

def reserved (capacity : Nat) : ByteBuffer := ⟨[], alloc.reserve capacity, Nat.zero_le _⟩

def capacityFor (size : Nat) : Nat := if size ≤ data.capacity then data.capacity else alloc.grow data.capacity size

theorem le_capacityFor (size : Nat) : size ≤ data.capacityFor alloc size := by
  rw [capacityFor]
  split
  next h => exact h
  next => exact alloc.le_grow _ _

theorem capacity_le (size : Nat) : data.capacity ≤ data.capacityFor alloc size := by
  have hle := data.le_capacityFor alloc size
  rw [capacityFor] at hle ⊢
  split
  next => exact le_rfl
  next h =>
    rw [if_neg h] at hle
    omega

def resize (size : Nat) : ByteBuffer where
  bytes := data.bytes.take size ++ List.replicate (size - data.bytes.length) 0
  capacity := data.capacityFor alloc size
  length_le := by
    have hle := data.le_capacityFor alloc size
    rw [List.length_append, List.length_take, List.length_replicate]
    omega

def pushBack (byte : UInt8) : ByteBuffer where
  bytes := data.bytes ++ [byte]
  capacity := data.capacityFor alloc (data.size + 1)
  length_le := by
    rw [List.length_append]
    exact data.le_capacityFor alloc _

/-- What is written from `offset` on, up to the end of the buffer. -/
def write (offset : Nat) (bytes : List UInt8) : ByteBuffer where
  bytes := (data.bytes.take offset ++ bytes ++ data.bytes.drop (offset + bytes.length)).take data.size
  capacity := data.capacity
  length_le := (List.length_take_le _ _).trans data.length_le

end ByteBuffer

structure AppendContext where
  originalSize : Nat
  appendSize : Nat

namespace AppendContext

def init (alloc : Allocation) (data : ByteBuffer) (size : Nat) : ByteBuffer × AppendContext :=
  let originalSize := data.size
  let data' :=
    if data.capacity - data.size < size / 2 then data.resize alloc (originalSize + size)
    else data.resize alloc (min (originalSize + size) data.capacity)
  (data', ⟨originalSize, data'.size - originalSize⟩)

variable (context : AppendContext)

/-- What a socket reads into the buffer of the context. -/
def read (received : List UInt8) (data : ByteBuffer) : ByteBuffer :=
  data.write context.originalSize (received.take context.appendSize)

structure CommitError where
  size : Nat
  appendSize : Nat

/-- The data stays as it is when the commit throws. -/
def commit (alloc : Allocation) (size : Nat) (data : ByteBuffer) : ByteBuffer × Except CommitError Unit :=
  if context.appendSize < size then (data, .error ⟨size, context.appendSize⟩)
  else (data.resize alloc (context.originalSize + size), .ok ())

/-- The destructor of a context that is not committed. -/
def abandon (alloc : Allocation) (data : ByteBuffer) : ByteBuffer := data.resize alloc context.originalSize

variable (alloc : Allocation) (size : Nat) (data : ByteBuffer)

theorem capacity_le_init : data.capacity ≤ (init alloc data size).1.capacity := by
  rw [init]
  dsimp only
  split
  · exact data.capacity_le alloc _
  · exact data.capacity_le alloc _

theorem capacity_le_commit : data.capacity ≤ (context.commit alloc size data).1.capacity := by
  rw [commit]
  split
  · exact le_rfl
  · exact data.capacity_le alloc _

theorem capacity_le_abandon : data.capacity ≤ (context.abandon alloc data).capacity := data.capacity_le alloc _

end AppendContext

inductive PacketExtractResult where
  | success (packet : List UInt8)
  | insufficientData
  | packetError

def packetHeaderSize : Nat := 8

def packetSize (header : List UInt8) : Nat := ofLeBytes (header.take 4)

def IsPacketDataSizeValid (size maxPacketDataSize : Nat) : Prop :=
  packetHeaderSize ≤ size ∧ size - packetHeaderSize ≤ maxPacketDataSize

instance (size maxPacketDataSize : Nat) : Decidable (IsPacketDataSizeValid size maxPacketDataSize) :=
  inferInstanceAs (Decidable (_ ∧ _))

namespace PacketExtractor
variable (maxPacketDataSize : Nat) (data : List UInt8) (consumedBytes : Nat)

def tryExtractNextPacket : PacketExtractResult × Nat :=
  let remainingDataSize := data.length - consumedBytes
  if remainingDataSize < packetHeaderSize then (.insufficientData, consumedBytes)
  else
    let packet := data.drop consumedBytes
    let size := packetSize packet
    if ¬ IsPacketDataSizeValid size maxPacketDataSize then (.packetError, consumedBytes)
    else if remainingDataSize < size then (.insufficientData, consumedBytes)
    else (.success (packet.take size), consumedBytes + size)

/-- `memmove` and `resize`. -/
def consume (alloc : Allocation) (data : ByteBuffer) (consumedBytes : Nat) : ByteBuffer × Nat :=
  if consumedBytes = 0 then (data, consumedBytes)
  else
    let remainingDataSize := data.size - consumedBytes
    ((data.write 0 (data.bytes.drop consumedBytes)).resize alloc remainingDataSize, 0)

theorem capacity_le_consume (alloc : Allocation) (data : ByteBuffer) (consumedBytes : Nat) :
    data.capacity ≤ (consume alloc data consumedBytes).1.capacity := by
  rw [consume]
  split
  · exact le_rfl
  · exact ByteBuffer.capacity_le alloc (data.write 0 _) _

end PacketExtractor

structure PacketSocketOptions where
  workingBufferSize : Nat
  workingBufferSensitivity : Nat
  maxPacketDataSize : Nat

structure WorkingBuffer where
  options : PacketSocketOptions
  data : ByteBuffer
  numDataSizeSamples : Nat
  maxDataSize : Nat
  maxDataSize_le : maxDataSize ≤ data.capacity

namespace WorkingBuffer
variable (alloc : Allocation)

def init (options : PacketSocketOptions) : WorkingBuffer :=
  ⟨options, .reserved alloc options.workingBufferSize, 0, 0, Nat.zero_le _⟩

variable (buffer : WorkingBuffer)

/-- With other data, of at least the capacity. -/
def setData (data : ByteBuffer) (h : buffer.data.capacity ≤ data.capacity) : WorkingBuffer :=
  { buffer with data, maxDataSize_le := buffer.maxDataSize_le.trans h }

def append (byte : UInt8) : WorkingBuffer :=
  buffer.setData (buffer.data.pushBack alloc byte) (buffer.data.capacity_le alloc _)

/-- Memory is reclaimed when the greatest of the last sizes is smaller than the capacity by the size of a working
buffer. -/
def checkMemoryUsage : WorkingBuffer :=
  if buffer.options.workingBufferSensitivity = 0 then buffer
  else
    let maxDataSize := max buffer.maxDataSize buffer.data.size
    if buffer.numDataSizeSamples + 1 ≠ buffer.options.workingBufferSensitivity then
      { buffer with
        numDataSizeSamples := buffer.numDataSizeSamples + 1
        maxDataSize
        maxDataSize_le := Nat.max_le.2 ⟨buffer.maxDataSize_le, buffer.data.length_le⟩ }
    else if buffer.data.capacity - maxDataSize < buffer.options.workingBufferSize then
      { buffer with numDataSizeSamples := 0, maxDataSize := 0, maxDataSize_le := Nat.zero_le _ }
    else
      let dataCopy := ((ByteBuffer.reserved alloc maxDataSize).resize alloc buffer.data.size).write 0 buffer.data.bytes
      ⟨buffer.options, dataCopy, 0, 0, Nat.zero_le _⟩

def prepareAppend : WorkingBuffer × AppendContext :=
  let appendContext := AppendContext.init alloc buffer.data buffer.options.workingBufferSize
  ((buffer.setData appendContext.1 (AppendContext.capacity_le_init ..)).checkMemoryUsage alloc, appendContext.2)

end WorkingBuffer

/-- A working buffer and the extractor of its packets. -/
structure PacketReader where
  buffer : WorkingBuffer
  consumedBytes : Nat

inductive Call where
  | append (byte : UInt8)
  /-- An append context that is read into and committed. -/
  | appendCommit (received : List UInt8)
  /-- An append context that is read into and not committed. -/
  | appendAbandon (received : List UInt8)
  | tryExtractNextPacket
  | consume

inductive Outcome where
  | appended (bytes : List UInt8)
  | abandoned
  | commitError (error : AppendContext.CommitError)
  | extracted (result : PacketExtractResult)
  | consumed

namespace PacketReader
variable (alloc : Allocation)

def init (options : PacketSocketOptions) : PacketReader := ⟨.init alloc options, 0⟩

variable (reader : PacketReader)

/-- With the data that an append context leaves behind. -/
def setData (buffer : WorkingBuffer) (data : ByteBuffer) (h : buffer.data.capacity ≤ data.capacity) : PacketReader :=
  { reader with buffer := buffer.setData data h }

def appendCommit (received : List UInt8) : PacketReader × Outcome :=
  let (buffer, context) := reader.buffer.prepareAppend alloc
  let data := context.read received buffer.data
  let committed := context.commit alloc received.length data
  have hcommitted := context.capacity_le_commit alloc received.length data
  match committed.2 with
  | .ok () => (reader.setData buffer committed.1 hcommitted, .appended received)
  | .error error =>
    (reader.setData buffer (context.abandon alloc committed.1)
      (hcommitted.trans (context.capacity_le_abandon alloc committed.1)), .commitError error)

def appendAbandon (received : List UInt8) : PacketReader × Outcome :=
  let (buffer, context) := reader.buffer.prepareAppend alloc
  let data := context.read received buffer.data
  (reader.setData buffer (context.abandon alloc data) (context.capacity_le_abandon alloc data), .abandoned)

/-- An append context has exclusive access to the buffer. -/
def apply : Call → PacketReader × Outcome
  | .append byte => ({ reader with buffer := reader.buffer.append alloc byte }, .appended [byte])
  | .appendCommit received => reader.appendCommit alloc received
  | .appendAbandon received => reader.appendAbandon alloc received
  | .tryExtractNextPacket =>
    let (result, consumedBytes) := PacketExtractor.tryExtractNextPacket
      reader.buffer.options.maxPacketDataSize reader.buffer.data.bytes reader.consumedBytes
    ({ reader with consumedBytes }, .extracted result)
  | .consume =>
    let consumed := PacketExtractor.consume alloc reader.buffer.data reader.consumedBytes
    (⟨reader.buffer.setData consumed.1 (PacketExtractor.capacity_le_consume ..), consumed.2⟩, .consumed)

def run : PacketReader → List Call → PacketReader × List Outcome
  | reader, [] => (reader, [])
  | reader, call :: calls =>
    let (reader', outcome) := reader.apply alloc call
    let (reader'', outcomes) := run reader' calls
    (reader'', outcome :: outcomes)

end PacketReader
end Catapult.Ionet
