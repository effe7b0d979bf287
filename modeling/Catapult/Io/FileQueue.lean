import Catapult.Lib.Trace

/-!
# Queues of message files

A writer and a reader, of two processes, share a directory. A message is a file that is named by its index. The writer
has an index of the next message to write, the reader one of the next message to read, each in a file that only its
owner changes. A flush completes the message file first and counts it after that; the reader counts a message before
it removes the file.

Both sides are modelled access by access, so that the other side can take steps between any two accesses to the
directory. The 64 bits of an index are enough for every queue, and an index is a natural number here.
-/

namespace Catapult.Io.FileQueue

abbrev Bytes := List UInt8

/-- An index file is created before its value is written. -/
inductive IndexFile where
  | missing
  | created
  | value (value : Nat)
  deriving DecidableEq

namespace IndexFile

def fileExists (file : IndexFile) : Bool := file ≠ missing

/-- A file that is not there cannot be opened. -/
def get : IndexFile → Option Nat
  | missing => none
  | created => some 0
  | value v => some v

/-- The file after the increment, which reads and writes what only the owner of the file changes. -/
def increment : IndexFile → Option (IndexFile × Nat)
  | missing => some (value 0, 0)
  | created => none
  | value v => some (value (v + 1), v + 1)

end IndexFile

structure Directory where
  writerIndex : IndexFile
  readerIndex : IndexFile
  messages : Nat → Option Bytes

namespace Directory

def setMessage (directory : Directory) (index : Nat) (message : Option Bytes) : Directory :=
  { directory with messages := fun i => if i = index then message else directory.messages i }

/-- What is written to an open file is lost when the file was removed. -/
def appendMessage (directory : Directory) (index : Nat) (block : Bytes) : Directory :=
  directory.setMessage index ((directory.messages index).map fun content => content ++ block)

end Directory

inductive Event where
  | written (data : Bytes)
  | flushed
  | writerStopped
  /-- The predicate was called. -/
  | offered (message : Bytes) (accepted : Bool)
  | skipped
  /-- There was nothing to read or to skip. -/
  | nothing
  | pendingCalled
  | pendingReturned (count : Nat)
  | failed
  deriving DecidableEq

def defaultStreamBufferSize : Nat := 4096

structure BufferedOutputFileStream where
  buffer : Bytes
  length_le : buffer.length ≤ defaultStreamBufferSize

namespace BufferedOutputFileStream

def create : BufferedOutputFileStream := ⟨[], Nat.zero_le _⟩

/-- The blocks that are written to the file, and what is left in the buffer. -/
def write (stream : BufferedOutputFileStream) (data : Bytes) : List Bytes × BufferedOutputFileStream :=
  if hsize : defaultStreamBufferSize < data.length then ([stream.buffer, data], create)
  else
    let bytesLeft := defaultStreamBufferSize - stream.buffer.length
    let bytesToCopy := min data.length bytesLeft
    if defaultStreamBufferSize = stream.buffer.length + bytesToCopy then
      ([stream.buffer ++ data.take bytesToCopy], ⟨data.drop bytesToCopy, by rw [List.length_drop]; omega⟩)
    else
      ([], ⟨stream.buffer ++ data.take bytesToCopy, by
        have := stream.length_le
        rw [List.length_append, List.length_take]
        omega⟩)

end BufferedOutputFileStream

structure Writer where
  indexValue : Nat
  stream : Option BufferedOutputFileStream

inductive WriterState where
  | stopped
  | checkingIndex
  | creatingIndex
  | zeroingIndex
  | readingIndex
  /-- Between two operations. -/
  | running (writer : Writer)
  | opening (indexValue : Nat) (data : Bytes)
  | writing (indexValue : Nat) (blocks : List Bytes) (stream : BufferedOutputFileStream)
  | flushing (indexValue : Nat) (stream : BufferedOutputFileStream)
  | incrementing
  | failed

namespace Writer

/-- The stream writes its blocks one by one. -/
def writeStream (indexValue : Nat) (stream : BufferedOutputFileStream) (data : Bytes) : WriterState :=
  .writing indexValue (stream.write data).1 (stream.write data).2

def write (writer : Writer) (data : Bytes) : WriterState :=
  match writer.stream with
  | none => .opening writer.indexValue data
  | some stream => writeStream writer.indexValue stream data

def flush (writer : Writer) : WriterState :=
  match writer.stream with
  | none => .running writer
  | some stream => .flushing writer.indexValue stream

end Writer

/-- The next access of an operation, if there is one. -/
def writerStep (directory : Directory) : WriterState → Option (WriterState × Directory × Option Event)
  | .stopped | .running _ | .failed => none
  | .checkingIndex =>
    some (if directory.writerIndex.fileExists then .readingIndex else .creatingIndex, directory, none)
  | .creatingIndex => some (.zeroingIndex, { directory with writerIndex := .created }, none)
  | .zeroingIndex => some (.running ⟨0, none⟩, { directory with writerIndex := .value 0 }, none)
  | .readingIndex =>
    match directory.writerIndex.get with
    | none => some (.failed, directory, some .failed)
    | some value => some (.running ⟨value, none⟩, directory, none)
  | .opening indexValue data =>
    some (Writer.writeStream indexValue .create data, directory.setMessage indexValue (some []), none)
  | .writing indexValue [] stream => some (.running ⟨indexValue, some stream⟩, directory, none)
  | .writing indexValue (block :: blocks) stream =>
    some (.writing indexValue blocks stream, directory.appendMessage indexValue block, none)
  | .flushing indexValue stream => some (.incrementing, directory.appendMessage indexValue stream.buffer, none)
  | .incrementing =>
    match directory.writerIndex.increment with
    | none => some (.failed, directory, some .failed)
    | some (file, value) =>
      some (.running ⟨value, none⟩, { directory with writerIndex := file }, some .flushed)

/-- What is done with the next message. A number of messages is skipped one after another. -/
inductive Processing where
  | read (predicate : Bytes → Bool)
  | skip (remaining : Nat)

inductive ReaderState where
  | stopped
  | checkingIndex
  | creatingIndex
  | zeroingIndex
  /-- Between two operations. -/
  | running
  | readingIndex (processing : Processing)
  | checkingWriterIndex (processing : Processing) (readerIndexValue : Nat)
  | readingWriterIndex (processing : Processing) (readerIndexValue : Nat)
  | checkingMessage (processing : Processing) (readerIndexValue : Nat)
  | readingMessage (predicate : Bytes → Bool) (readerIndexValue : Nat)
  | incrementing (processing : Processing) (readerIndexValue : Nat)
  | removing (processing : Processing) (readerIndexValue : Nat)
  | pendingChecking
  | pendingReadingWriter
  | pendingReadingReader (writerIndexValue : Nat)
  | failed

def skip : Nat → ReaderState
  | 0 => .running
  | count + 1 => .readingIndex (.skip count)

namespace Processing

/-- After `process` has returned. -/
def next : Processing → ReaderState
  | read _ => .running
  | skip remaining => FileQueue.skip remaining

def consumedEvent : Processing → Option Event
  | read _ => none
  | skip _ => some .skipped

end Processing

def pendingCount (writerIndexValue readerIndexValue : Nat) : Nat :=
  if writerIndexValue < readerIndexValue then 0 else writerIndexValue - readerIndexValue

def readerStep (directory : Directory) : ReaderState → Option (ReaderState × Directory × Option Event)
  | .stopped | .running | .failed => none
  | .checkingIndex => some (if directory.readerIndex.fileExists then .running else .creatingIndex, directory, none)
  | .creatingIndex => some (.zeroingIndex, { directory with readerIndex := .created }, none)
  | .zeroingIndex => some (.running, { directory with readerIndex := .value 0 }, none)
  | .readingIndex processing =>
    match directory.readerIndex.get with
    | none => some (.failed, directory, some .failed)
    | some value => some (.checkingWriterIndex processing value, directory, none)
  | .checkingWriterIndex processing value =>
    if directory.writerIndex.fileExists then some (.readingWriterIndex processing value, directory, none)
    else some (processing.next, directory, some .nothing)
  | .readingWriterIndex processing value =>
    match directory.writerIndex.get with
    | none => some (.failed, directory, some .failed)
    | some writerIndexValue =>
      if writerIndexValue ≤ value then some (processing.next, directory, some .nothing)
      else some (.checkingMessage processing value, directory, none)
  | .checkingMessage processing value =>
    match directory.messages value, processing with
    | none, _ => some (.failed, directory, some .failed)
    | some _, .read predicate => some (.readingMessage predicate value, directory, none)
    | some _, .skip remaining => some (.incrementing (.skip remaining) value, directory, none)
  | .readingMessage predicate value =>
    match directory.messages value with
    | none => some (.failed, directory, some .failed)
    | some message =>
      some (if predicate message then .incrementing (.read predicate) value else .running, directory,
        some (.offered message (predicate message)))
  | .incrementing processing value =>
    match directory.readerIndex.increment with
    | none => some (.failed, directory, some .failed)
    | some (file, _) =>
      some (.removing processing value, { directory with readerIndex := file }, processing.consumedEvent)
  | .removing processing value => some (processing.next, directory.setMessage value none, none)
  | .pendingChecking =>
    some (if directory.writerIndex.fileExists then .pendingReadingWriter else .pendingReadingReader 0, directory, none)
  | .pendingReadingWriter =>
    match directory.writerIndex.get with
    | none => some (.failed, directory, some .failed)
    | some value => some (.pendingReadingReader value, directory, none)
  | .pendingReadingReader writerIndexValue =>
    match directory.readerIndex.get with
    | none => some (.failed, directory, some .failed)
    | some value => some (.running, directory, some (.pendingReturned (pendingCount writerIndexValue value)))

structure State where
  directory : Directory
  writer : WriterState
  reader : ReaderState

/-- Without index files nothing is known of other files. -/
def State.init (messages : Nat → Option Bytes) : State := ⟨⟨.missing, .missing, messages⟩, .stopped, .stopped⟩

inductive Step : State → Option Event → State → Prop
  | startWriter {directory : Directory} {reader : ReaderState} :
      Step ⟨directory, .stopped, reader⟩ none ⟨directory, .checkingIndex, reader⟩
  | stopWriter {directory : Directory} {reader : ReaderState} {writer : Writer} :
      Step ⟨directory, .running writer, reader⟩ (some .writerStopped) ⟨directory, .stopped, reader⟩
  | write {directory : Directory} {reader : ReaderState} {writer : Writer} (data : Bytes) :
      Step ⟨directory, .running writer, reader⟩ (some (.written data)) ⟨directory, writer.write data, reader⟩
  | flush {directory : Directory} {reader : ReaderState} {writer : Writer} :
      Step ⟨directory, .running writer, reader⟩ none ⟨directory, writer.flush, reader⟩
  | writer {directory directory' : Directory} {writer writer' : WriterState} {reader : ReaderState}
      {event : Option Event} (h : writerStep directory writer = some (writer', directory', event)) :
      Step ⟨directory, writer, reader⟩ event ⟨directory', writer', reader⟩
  | startReader {directory : Directory} {writer : WriterState} :
      Step ⟨directory, writer, .stopped⟩ none ⟨directory, writer, .checkingIndex⟩
  | stopReader {directory : Directory} {writer : WriterState} :
      Step ⟨directory, writer, .running⟩ none ⟨directory, writer, .stopped⟩
  | read {directory : Directory} {writer : WriterState} (predicate : Bytes → Bool) :
      Step ⟨directory, writer, .running⟩ none ⟨directory, writer, .readingIndex (.read predicate)⟩
  | skip {directory : Directory} {writer : WriterState} (count : Nat) :
      Step ⟨directory, writer, .running⟩ none ⟨directory, writer, skip count⟩
  | pending {directory : Directory} {writer : WriterState} :
      Step ⟨directory, writer, .running⟩ (some .pendingCalled) ⟨directory, writer, .pendingChecking⟩
  | reader {directory directory' : Directory} {writer : WriterState} {reader reader' : ReaderState}
      {event : Option Event} (h : readerStep directory reader = some (reader', directory', event)) :
      Step ⟨directory, writer, reader⟩ event ⟨directory', writer, reader'⟩

end Catapult.Io.FileQueue
