import Catapult.Io.FileQueue
import Mathlib.Data.List.Infix

/-!
# Delivery of queued messages

What is written between two flushes is a message. The reader is offered the messages in the order of their flushes: the
message after the ones that were accepted or skipped, which is as the flush has left it. The count of pending messages
is the one of the moment at which the index of the writer is read.
-/

namespace Catapult.Io.FileQueue
variable {history events : List Event} {event : Option Event} {directory directory' : Directory}

structure Produced where
  unflushed : Option Bytes
  messages : List Bytes

def Produced.record (produced : Produced) : Event → Produced
  | .written data => { produced with unflushed := some (produced.unflushed.getD [] ++ data) }
  | .flushed => ⟨none, produced.messages ++ produced.unflushed.toList⟩
  | .writerStopped => { produced with unflushed := none }
  | _ => produced

def produced (history : List Event) : Produced := history.foldl Produced.record ⟨none, []⟩

def Event.delivery : Event → Option (Option Bytes)
  | .offered message true => some (some message)
  | .skipped => some none
  | _ => none

def deliveries (history : List Event) : List (Option Bytes) := history.filterMap Event.delivery

def Event.isOfReader : Event → Bool
  | .written _ | .flushed | .writerStopped => false
  | _ => true

theorem produced_append (history events : List Event) :
    produced (history ++ events) = events.foldl Produced.record (produced history) := List.foldl_append

theorem deliveries_append (history events : List Event) :
    deliveries (history ++ events) = deliveries history ++ deliveries events := List.filterMap_append

theorem messages_grow (history events : List Event) :
    (produced history).messages <+: (produced (history ++ events)).messages := by
  rw [produced_append]
  generalize produced history = p
  induction events generalizing p with
  | nil => exact List.prefix_rfl
  | cons event events ih =>
    refine List.IsPrefix.trans ?_ (ih (p.record event))
    cases event with
    | flushed => exact List.prefix_append p.messages _
    | _ => exact List.prefix_rfl

theorem deliveries_of_writer (h : ∀ event ∈ events, event.isOfReader = false) : deliveries events = [] := by
  refine List.filterMap_eq_nil_iff.2 fun event hmem => ?_
  have hwriter := h event hmem
  cases event with
  | written data => rfl
  | flushed => rfl
  | writerStopped => rfl
  | _ => cases hwriter

theorem BufferedOutputFileStream.write_eq (stream : BufferedOutputFileStream) (data : Bytes) :
    (stream.write data).1.flatten ++ (stream.write data).2.buffer = stream.buffer ++ data := by
  have hle := stream.length_le
  rw [write]
  split
  · simp [create]
  · dsimp only
    split
    · simp
    · case isFalse hnot =>
      -- there is room for all of the data
      have hroom : data.length ≤ defaultStreamBufferSize - stream.buffer.length := by omega
      show [] ++ (stream.buffer ++ data.take (min data.length _)) = _
      rw [Nat.min_eq_left hroom, List.take_length, List.nil_append]

def IndexFile.count : IndexFile → Nat
  | value v => v
  | _ => 0

/-- The file of the next message has what was written to it, but for the rest. -/
def InFile (produced : Produced) (directory : Directory) (index : Nat) (rest : Bytes) : Prop :=
  index = produced.messages.length ∧ directory.writerIndex = .value index ∧
    ∃ content, directory.messages index = some content ∧ produced.unflushed = some (content ++ rest)

def WriterInv (produced : Produced) (directory : Directory) : WriterState → Prop
  | .stopped | .checkingIndex =>
    produced.unflushed = none ∧ (directory.writerIndex = .missing ∨ ∃ v, directory.writerIndex = .value v)
  | .creatingIndex | .zeroingIndex => produced.unflushed = none ∧ directory.writerIndex.count = 0
  | .readingIndex => produced.unflushed = none ∧ directory.writerIndex = .value produced.messages.length
  | .running ⟨index, none⟩ =>
    produced.unflushed = none ∧ index = produced.messages.length ∧ directory.writerIndex = .value index
  | .running ⟨index, some stream⟩ => InFile produced directory index stream.buffer
  | .opening index data =>
    produced.unflushed = some data ∧ index = produced.messages.length ∧ directory.writerIndex = .value index
  | .writing index blocks stream => InFile produced directory index (blocks.flatten ++ stream.buffer)
  | .flushing index stream => InFile produced directory index stream.buffer
  | .incrementing => ∃ index, InFile produced directory index []
  | .failed => False

/-- What the reader may rely on when the writer takes a step. -/
structure WriterEffect (produced produced' : Produced) (directory directory' : Directory) : Prop where
  readerIndex : directory'.readerIndex = directory.readerIndex
  messages : ∀ index < produced.messages.length, directory'.messages index = directory.messages index
  flushed : produced'.messages = produced.messages ∨ ∃ message, produced'.messages = produced.messages ++ [message] ∧
    directory'.messages produced.messages.length = some message
  present : directory.writerIndex ≠ .missing → directory'.writerIndex ≠ .missing
  count : directory'.writerIndex.count = produced'.messages.length

section Writer
variable {p : Produced} {writer writer' : WriterState} {index : Nat} {rest block : Bytes}

theorem InFile.append (h : InFile p directory index (block ++ rest)) :
    InFile p (directory.appendMessage index block) index rest := by
  obtain ⟨hindex, hvalue, content, hcontent, hunflushed⟩ := h
  refine ⟨hindex, hvalue, content ++ block, ?_, by rw [List.append_assoc]; exact hunflushed⟩
  rw [Directory.appendMessage, Directory.setMessage, hcontent]
  exact if_pos rfl

theorem WriterEffect.of_directory (hcount : directory.writerIndex.count = p.messages.length) :
    WriterEffect p p directory directory :=
  ⟨rfl, fun _ _ => rfl, .inl rfl, id, hcount⟩

theorem WriterEffect.of_setMessage (hcount : directory.writerIndex.count = p.messages.length)
    (hindex : index = p.messages.length) (message : Option Bytes) :
    WriterEffect p p directory (directory.setMessage index message) :=
  ⟨rfl, fun _ hi => if_neg (by omega), .inl rfl, id, hcount⟩

theorem writerInv_writeStream {stream : BufferedOutputFileStream} {data : Bytes}
    (h : InFile p directory index (stream.buffer ++ data)) :
    WriterInv p directory (Writer.writeStream index stream data) := by
  rw [Writer.writeStream, WriterInv, stream.write_eq]
  exact h

theorem writerInv_step (h : WriterInv p directory writer) (hcount : directory.writerIndex.count = p.messages.length)
    (hstep : writerStep directory writer = some (writer', directory', event)) :
    WriterInv (event.toList.foldl Produced.record p) directory' writer' ∧
      WriterEffect p (event.toList.foldl Produced.record p) directory directory' ∧
      ∀ e ∈ event, e.isOfReader = false := by
  cases writer with
  | stopped => cases hstep
  | running writer => cases hstep
  | failed => cases hstep
  | checkingIndex =>
    cases hstep
    refine ⟨?_, .of_directory hcount, fun _ hmem => nomatch hmem⟩
    obtain ⟨hunflushed, hmissing | ⟨v, hvalue⟩⟩ := h
    · rw [hmissing]
      exact ⟨hunflushed, by rw [hmissing]; rfl⟩
    · rw [hvalue] at hcount ⊢
      exact ⟨hunflushed, hvalue.trans (congrArg IndexFile.value hcount)⟩
  | creatingIndex =>
    cases hstep
    have hzero := h.2.symm.trans hcount
    exact ⟨⟨h.1, rfl⟩, ⟨rfl, fun _ _ => rfl, .inl rfl, fun _ => by simp, hzero⟩, fun _ hmem => nomatch hmem⟩
  | zeroingIndex =>
    cases hstep
    have hzero := h.2.symm.trans hcount
    exact ⟨⟨h.1, hzero, rfl⟩, ⟨rfl, fun _ _ => rfl, .inl rfl, fun _ => by simp, hzero⟩, fun _ hmem => nomatch hmem⟩
  | readingIndex =>
    rw [writerStep, h.2] at hstep
    cases hstep
    exact ⟨⟨h.1, rfl, h.2⟩, .of_directory hcount, fun _ hmem => nomatch hmem⟩
  | opening index data =>
    cases hstep
    obtain ⟨hunflushed, hindex, hvalue⟩ := h
    refine ⟨writerInv_writeStream ⟨hindex, hvalue, [], if_pos rfl, hunflushed⟩, .of_setMessage hcount hindex _,
      fun _ hmem => nomatch hmem⟩
  | writing index blocks stream =>
    cases blocks with
    | nil =>
      cases hstep
      exact ⟨h, .of_directory hcount, fun _ hmem => nomatch hmem⟩
    | cons block blocks =>
      cases hstep
      rw [WriterInv, List.flatten_cons, List.append_assoc] at h
      exact ⟨h.append, .of_setMessage hcount h.1 _, fun _ hmem => nomatch hmem⟩
  | flushing index stream =>
    cases hstep
    rw [WriterInv, ← List.append_nil stream.buffer] at h
    exact ⟨⟨index, h.append⟩, .of_setMessage hcount h.1 _, fun _ hmem => nomatch hmem⟩
  | incrementing =>
    obtain ⟨index, hindex, hvalue, content, hcontent, hunflushed⟩ := h
    rw [writerStep, hvalue] at hstep
    cases hstep
    rw [List.append_nil] at hunflushed
    have hlength : (p.messages ++ p.unflushed.toList).length = index + 1 := by
      rw [hunflushed, List.length_append, hindex]
      rfl
    refine ⟨⟨rfl, hlength.symm, rfl⟩, ⟨rfl, fun _ _ => rfl, .inr ⟨content, ?_, hindex ▸ hcontent⟩, fun _ => by simp,
      hlength.symm⟩, ?_⟩
    · show p.messages ++ p.unflushed.toList = _
      rw [hunflushed]
      rfl
    · rintro e ⟨⟩
      rfl

end Writer

/-- The call of `pending` is the last thing that the reader has done. -/
def Called (history : List Event) : Prop :=
  ∃ before after, history = before ++ .pendingCalled :: after ∧ ∀ event ∈ after, event.isOfReader = false

/-- Since the call there was a moment at which that many messages were flushed. -/
def Counted (history : List Event) (count : Nat) : Prop :=
  ∃ before during after, history = before ++ .pendingCalled :: (during ++ after) ∧
    (∀ event ∈ during ++ after, event.isOfReader = false) ∧
    count = (produced (before ++ .pendingCalled :: during)).messages.length

def ReaderInv (history : List Event) (directory : Directory) : ReaderState → Prop
  | .stopped | .checkingIndex =>
    directory.readerIndex = .value (deliveries history).length ∨
      (directory.readerIndex = .missing ∧ (deliveries history).length = 0)
  | .creatingIndex | .zeroingIndex => directory.readerIndex.count = 0 ∧ (deliveries history).length = 0
  | .running | .readingIndex _ => directory.readerIndex = .value (deliveries history).length
  | .checkingWriterIndex _ value =>
    value = (deliveries history).length ∧ directory.readerIndex = .value value
  | .readingWriterIndex _ value =>
    value = (deliveries history).length ∧ directory.readerIndex = .value value ∧ directory.writerIndex ≠ .missing
  | .checkingMessage _ value | .readingMessage _ value | .incrementing (.skip _) value =>
    value = (deliveries history).length ∧ directory.readerIndex = .value value ∧
      value < (produced history).messages.length
  | .incrementing (.read _) value =>
    value + 1 = (deliveries history).length ∧ directory.readerIndex = .value value
  | .removing _ value => value + 1 = (deliveries history).length ∧ directory.readerIndex = .value (value + 1)
  | .pendingChecking => directory.readerIndex = .value (deliveries history).length ∧ Called history
  | .pendingReadingWriter =>
    directory.readerIndex = .value (deliveries history).length ∧ Called history ∧ directory.writerIndex ≠ .missing
  | .pendingReadingReader writerIndexValue =>
    directory.readerIndex = .value (deliveries history).length ∧ Counted history writerIndexValue ∧
      (deliveries history).length ≤ writerIndexValue
  | .failed => False

/-- What the messages and their files have to do with each other. -/
structure Files (history : List Event) (directory : Directory) : Prop where
  count : directory.writerIndex.count = (produced history).messages.length
  messages : ∀ index, directory.readerIndex.count ≤ index → index < (produced history).messages.length →
    directory.messages index = (produced history).messages[index]?
  delivered : ∀ (index : Nat) (message : Bytes), (deliveries history)[index]? = some (some message) →
    (produced history).messages[index]? = some message
  length_le : (deliveries history).length ≤ (produced history).messages.length

/-- What may be said of an event when it happens. -/
def Allowed (before : List Event) : Event → Prop
  | .offered message _ => (produced before).messages[(deliveries before).length]? = some message
  | .skipped => (deliveries before).length < (produced before).messages.length
  | .nothing => (deliveries before).length = (produced before).messages.length
  | .pendingReturned count => ∃ first during after, before = first ++ .pendingCalled :: (during ++ after) ∧
      (∀ event ∈ during ++ after, event.isOfReader = false) ∧
      count + (deliveries (first ++ .pendingCalled :: during)).length =
        (produced (first ++ .pendingCalled :: during)).messages.length
  | .failed => False
  | _ => True

/-- What the writer may rely on when the reader takes a step. -/
structure ReaderEffect (produced : Produced) (directory directory' : Directory) : Prop where
  writerIndex : directory'.writerIndex = directory.writerIndex
  messages : directory'.messages produced.messages.length = directory.messages produced.messages.length

section Reader
variable {reader reader' : ReaderState} {value : Nat} {processing : Processing}

theorem readerInv_next (h : directory.readerIndex = .value (deliveries history).length) (processing : Processing) :
    ReaderInv history directory processing.next := by
  cases processing with
  | read predicate => exact h
  | skip remaining =>
    cases remaining with
    | zero => exact h
    | succ remaining => exact h

theorem produced_reader (h : ∀ e ∈ event, e.isOfReader = true) :
    produced (history ++ event.toList) = produced history := by
  rw [produced_append]
  cases event with
  | none => rfl
  | some e =>
    have hreader := h e rfl
    cases e with
    | written data => cases hreader
    | flushed => cases hreader
    | writerStopped => cases hreader
    | _ => rfl

theorem deliveries_keep (h : event.bind Event.delivery = none) :
    deliveries (history ++ event.toList) = deliveries history := by
  rw [deliveries_append]
  cases event with
  | none => exact List.append_nil _
  | some e =>
    have hnil : deliveries [e] = [] := by
      rw [deliveries, List.filterMap_cons_none (show e.delivery = none from h), List.filterMap_nil]
    rw [Option.toList_some, hnil, List.append_nil]

namespace Files
variable (h : Files history directory)
include h

theorem keep (hreader : ∀ e ∈ event, e.isOfReader = true) (hdelivery : event.bind Event.delivery = none) :
    Files (history ++ event.toList) directory := by
  refine ⟨?_, ?_, ?_, ?_⟩
  · rw [produced_reader hreader]
    exact h.count
  · rw [produced_reader hreader]
    exact h.messages
  · rw [produced_reader hreader, deliveries_keep hdelivery]
    exact h.delivered
  · rw [produced_reader hreader, deliveries_keep hdelivery]
    exact h.length_le

theorem deliver {e : Event} {delivery : Option Bytes} (hreader : e.isOfReader = true)
    (hdelivery : e.delivery = some delivery) (hlt : (deliveries history).length < (produced history).messages.length)
    (hmessage : ∀ message, delivery = some message →
      (produced history).messages[(deliveries history).length]? = some message) :
    Files (history ++ [e]) directory := by
  have hproduced : produced (history ++ [e]) = produced history :=
    @produced_reader history (some e) fun _ hmem => by cases hmem; exact hreader
  have hdeliveries : deliveries (history ++ [e]) = deliveries history ++ [delivery] := by
    rw [deliveries_append, deliveries, deliveries, List.filterMap_cons_some hdelivery, List.filterMap_nil]
  refine ⟨?_, ?_, fun index message hindex => ?_, ?_⟩
  · rw [hproduced]
    exact h.count
  · rw [hproduced]
    exact h.messages
  · rw [hdeliveries] at hindex
    rw [hproduced]
    rcases Nat.lt_or_ge index (deliveries history).length with hold | hnew
    · rw [List.getElem?_append_left hold] at hindex
      exact h.delivered index message hindex
    · rw [List.getElem?_append_right hnew, List.getElem?_singleton] at hindex
      split at hindex
      · obtain rfl : index = (deliveries history).length := by omega
        exact hmessage message (Option.some.inj hindex)
      · cases hindex
  · rw [hproduced, hdeliveries, List.length_append]
    exact hlt

theorem count_readerIndex {index : Nat} (hvalue : directory.readerIndex = .value index) :
    Files history { directory with readerIndex := .value (index + 1) } := by
  refine ⟨h.count, fun i hi hlt => h.messages i ?_ hlt, h.delivered, h.length_le⟩
  rw [hvalue]
  exact (Nat.le_succ index).trans hi

theorem reindex {file : IndexFile} (hcount : file.count = directory.readerIndex.count) :
    Files history { directory with readerIndex := file } :=
  ⟨h.count, fun i hi hlt => h.messages i (by rw [← hcount]; exact hi) hlt, h.delivered, h.length_le⟩

theorem remove {index : Nat} (hvalue : directory.readerIndex = .value (index + 1)) :
    Files history (directory.setMessage index none) := by
  refine ⟨h.count, fun i hi hlt => ?_, h.delivered, h.length_le⟩
  have hi' : index + 1 ≤ i := by
    rw [Directory.setMessage, hvalue] at hi
    exact hi
  rw [Directory.setMessage]
  exact (if_neg (by omega)).trans (h.messages i (by rw [hvalue]; exact hi') hlt)

theorem message_eq (hvalue : directory.readerIndex = .value (deliveries history).length)
    (hlt : (deliveries history).length < (produced history).messages.length) :
    directory.messages (deliveries history).length =
      (produced history).messages[(deliveries history).length]? :=
  h.messages _ (by rw [hvalue]; exact Nat.le_refl _) hlt

theorem get_writerIndex (hpresent : directory.writerIndex ≠ .missing) :
    directory.writerIndex.get = some (produced history).messages.length := by
  rw [← h.count]
  cases hfile : directory.writerIndex with
  | missing => exact absurd hfile hpresent
  | created => rfl
  | value v => rfl

theorem length_eq_zero (hmissing : directory.writerIndex.fileExists = false) :
    (produced history).messages.length = 0 := by
  rw [IndexFile.fileExists, decide_eq_false_iff_not, not_not] at hmissing
  rw [← h.count, hmissing]
  rfl

end Files

theorem ReaderEffect.of_directory (p : Produced) (directory : Directory) : ReaderEffect p directory directory :=
  ⟨rfl, rfl⟩

theorem counted_of_called (h : Called history) : Counted history (produced history).messages.length := by
  obtain ⟨before, after, rfl, hwriter⟩ := h
  refine ⟨before, after, [], by rw [List.append_nil], ?_, rfl⟩
  rwa [List.append_nil]

theorem allowed_pendingReturned (h : Counted history value) (hle : (deliveries history).length ≤ value) :
    Allowed history (.pendingReturned (pendingCount value (deliveries history).length)) := by
  obtain ⟨before, during, after, rfl, hwriter, rfl⟩ := h
  refine ⟨before, during, after, rfl, hwriter, ?_⟩
  have hlength : (deliveries (before ++ .pendingCalled :: (during ++ after))).length =
      (deliveries (before ++ .pendingCalled :: during)).length := by
    rw [← List.cons_append, ← List.append_assoc, deliveries_append _ after,
      deliveries_of_writer fun event hmem => hwriter event (List.mem_append_right _ hmem), List.append_nil]
  rw [hlength] at hle ⊢
  rw [pendingCount, if_neg (Nat.not_lt.2 hle)]
  omega

structure ReaderStepped (history : List Event) (directory : Directory) (event : Option Event) (directory' : Directory)
    (reader' : ReaderState) : Prop where
  files : Files (history ++ event.toList) directory'
  reader : ReaderInv (history ++ event.toList) directory' reader'
  effect : ReaderEffect (produced history) directory directory'
  allowed : ∀ e, event = some e → Allowed history e
  isOfReader : ∀ e ∈ event, e.isOfReader = true

namespace ReaderStepped

theorem silent (hfiles : Files history directory') (hreader : ReaderInv history directory' reader')
    (heffect : ReaderEffect (produced history) directory directory') :
    ReaderStepped history directory none directory' reader' := by
  refine ⟨?_, ?_, heffect, nofun, nofun⟩
  · rwa [Option.toList_none, List.append_nil]
  · rwa [Option.toList_none, List.append_nil]

theorem nothing (hfiles : Files history directory) (hvalue : directory.readerIndex = .value (deliveries history).length)
    (heq : (deliveries history).length = (produced history).messages.length) (processing : Processing) :
    ReaderStepped history directory (some .nothing) directory processing.next := by
  have hreader : ∀ e ∈ some Event.nothing, e.isOfReader = true := by rintro e ⟨⟩; rfl
  refine ⟨hfiles.keep hreader rfl, readerInv_next ?_ processing, .of_directory _ _, ?_, hreader⟩
  · rw [deliveries_keep rfl]
    exact hvalue
  · rintro e ⟨⟩
    exact heq

theorem offered {message : Bytes} (hfiles : Files history directory) (predicate : Bytes → Bool)
    (hvalue : directory.readerIndex = .value (deliveries history).length)
    (hmessage : (produced history).messages[(deliveries history).length]? = some message) :
    ReaderStepped history directory (some (.offered message (predicate message))) directory
      (if predicate message then .incrementing (.read predicate) (deliveries history).length else .running) := by
  have hreader : ∀ e ∈ some (Event.offered message (predicate message)), e.isOfReader = true := by rintro e ⟨⟩; rfl
  have hallowed : ∀ e, some (Event.offered message (predicate message)) = some e → Allowed history e := by
    rintro e ⟨⟩
    exact hmessage
  obtain ⟨hlt, -⟩ := List.getElem?_eq_some_iff.1 hmessage
  cases haccepted : predicate message with
  | true =>
    rw [haccepted] at hallowed hreader
    refine ⟨hfiles.deliver rfl rfl hlt fun _ hsome => Option.some.inj hsome ▸ hmessage, ⟨?_, hvalue⟩,
      .of_directory _ _, hallowed, hreader⟩
    rw [deliveries_append, List.length_append]
    rfl
  | false =>
    rw [haccepted] at hallowed hreader
    refine ⟨hfiles.keep hreader rfl, ?_, .of_directory _ _, hallowed, hreader⟩
    show _ = _
    rw [deliveries_keep rfl]
    exact hvalue

theorem skipped (hfiles : Files history directory) (remaining : Nat)
    (hvalue : directory.readerIndex = .value (deliveries history).length)
    (hlt : (deliveries history).length < (produced history).messages.length) :
    ReaderStepped history directory (some .skipped)
      { directory with readerIndex := .value ((deliveries history).length + 1) }
      (.removing (.skip remaining) (deliveries history).length) := by
  refine ⟨(hfiles.deliver rfl rfl hlt fun _ hsome => by cases hsome).count_readerIndex hvalue, ⟨?_, rfl⟩, ⟨rfl, rfl⟩,
    ?_, ?_⟩
  · rw [deliveries_append, List.length_append]
    rfl
  · rintro e ⟨⟩
    exact hlt
  · rintro e ⟨⟩
    rfl

theorem pendingReturned (hfiles : Files history directory)
    (hvalue : directory.readerIndex = .value (deliveries history).length) (hcounted : Counted history value)
    (hle : (deliveries history).length ≤ value) :
    ReaderStepped history directory (some (.pendingReturned (pendingCount value (deliveries history).length))) directory
      .running := by
  have hreader : ∀ e ∈ some (Event.pendingReturned (pendingCount value (deliveries history).length)),
      e.isOfReader = true := by rintro e ⟨⟩; rfl
  refine ⟨hfiles.keep hreader rfl, ?_, .of_directory _ _, ?_, hreader⟩
  · show _ = _
    rw [deliveries_keep rfl]
    exact hvalue
  · rintro e ⟨⟩
    exact allowed_pendingReturned hcounted hle

end ReaderStepped

theorem readerInv_step (hfiles : Files history directory) (h : ReaderInv history directory reader)
    (hstep : readerStep directory reader = some (reader', directory', event)) :
    ReaderStepped history directory event directory' reader' := by
  cases reader with
  | stopped => cases hstep
  | running => cases hstep
  | failed => cases hstep
  | checkingIndex =>
    cases hstep
    refine .silent hfiles ?_ (.of_directory _ _)
    rcases h with hvalue | ⟨hmissing, hzero⟩
    · rw [hvalue]
      exact hvalue
    · rw [hmissing]
      exact ⟨by rw [hmissing]; rfl, hzero⟩
  | creatingIndex =>
    cases hstep
    exact .silent (hfiles.reindex h.1.symm) ⟨rfl, h.2⟩ ⟨rfl, rfl⟩
  | zeroingIndex =>
    cases hstep
    exact .silent (hfiles.reindex h.1.symm) (congrArg IndexFile.value h.2.symm) ⟨rfl, rfl⟩
  | readingIndex processing =>
    have hvalue : directory.readerIndex = .value (deliveries history).length := h
    rw [readerStep, hvalue] at hstep
    cases hstep
    exact .silent hfiles ⟨rfl, hvalue⟩ (.of_directory _ _)
  | checkingWriterIndex processing value =>
    obtain ⟨rfl, hvalue⟩ := h
    rw [readerStep] at hstep
    split at hstep
    · case isTrue hexists =>
      cases hstep
      exact .silent hfiles ⟨rfl, hvalue, of_decide_eq_true hexists⟩ (.of_directory _ _)
    · case isFalse hmissing =>
      cases hstep
      have hzero := hfiles.length_eq_zero (Bool.eq_false_iff.2 hmissing)
      have hle := hfiles.length_le
      exact .nothing hfiles hvalue (by omega) processing
  | readingWriterIndex processing value =>
    obtain ⟨rfl, hvalue, hpresent⟩ := h
    simp only [readerStep, hfiles.get_writerIndex hpresent] at hstep
    split at hstep
    · case isTrue hle =>
      cases hstep
      exact .nothing hfiles hvalue (hfiles.length_le.antisymm hle) processing
    · case isFalse hlt =>
      cases hstep
      exact .silent hfiles ⟨rfl, hvalue, Nat.not_le.1 hlt⟩ (.of_directory _ _)
  | checkingMessage processing value =>
    obtain ⟨rfl, hvalue, hlt⟩ := h
    simp only [readerStep, hfiles.message_eq hvalue hlt, List.getElem?_eq_getElem hlt] at hstep
    cases processing with
    | read predicate =>
      cases hstep
      exact .silent hfiles ⟨rfl, hvalue, hlt⟩ (.of_directory _ _)
    | skip remaining =>
      cases hstep
      exact .silent hfiles ⟨rfl, hvalue, hlt⟩ (.of_directory _ _)
  | readingMessage predicate value =>
    obtain ⟨rfl, hvalue, hlt⟩ := h
    simp only [readerStep, hfiles.message_eq hvalue hlt, List.getElem?_eq_getElem hlt] at hstep
    cases hstep
    exact .offered hfiles predicate hvalue (List.getElem?_eq_getElem hlt)
  | incrementing processing value =>
    cases processing with
    | read predicate =>
      obtain ⟨hlength, hvalue⟩ := h
      rw [readerStep, hvalue] at hstep
      cases hstep
      exact .silent (hfiles.count_readerIndex hvalue) ⟨hlength, rfl⟩ ⟨rfl, rfl⟩
    | skip remaining =>
      obtain ⟨rfl, hvalue, hlt⟩ := h
      rw [readerStep, hvalue] at hstep
      cases hstep
      exact .skipped hfiles remaining hvalue hlt
  | removing processing value =>
    cases hstep
    obtain ⟨hlength, hvalue⟩ := h
    have hle := hfiles.length_le
    refine .silent (hfiles.remove hvalue) (readerInv_next (hvalue.trans (congrArg _ hlength)) processing) ⟨rfl, ?_⟩
    -- the file of the writer comes after the removed one
    exact if_neg (by omega)
  | pendingChecking =>
    obtain ⟨hvalue, hcalled⟩ := h
    cases hstep
    refine .silent hfiles ?_ (.of_directory _ _)
    split
    · case isTrue hexists => exact ⟨hvalue, hcalled, of_decide_eq_true hexists⟩
    · case isFalse hmissing =>
      have hzero := hfiles.length_eq_zero (Bool.eq_false_iff.2 hmissing)
      have hle := hfiles.length_le
      exact ⟨hvalue, hzero ▸ counted_of_called hcalled, by omega⟩
  | pendingReadingWriter =>
    obtain ⟨hvalue, hcalled, hpresent⟩ := h
    rw [readerStep, hfiles.get_writerIndex hpresent] at hstep
    cases hstep
    exact .silent hfiles ⟨hvalue, counted_of_called hcalled, hfiles.length_le⟩ (.of_directory _ _)
  | pendingReadingReader writerIndexValue =>
    obtain ⟨hvalue, hcounted, hle⟩ := h
    rw [readerStep, hvalue] at hstep
    cases hstep
    exact .pendingReturned hfiles hvalue hcounted hle

end Reader

structure Inv (history : List Event) (state : State) : Prop where
  files : Files history state.directory
  writer : WriterInv (produced history) state.directory state.writer
  reader : ReaderInv history state.directory state.reader

section Frames
variable {writer writer' : WriterState} {reader reader' : ReaderState}

theorem deliveries_writer (h : ∀ e ∈ event, e.isOfReader = false) :
    deliveries (history ++ event.toList) = deliveries history := by
  have hnil : deliveries event.toList = [] := deliveries_of_writer fun e hmem => h e (Option.mem_toList.1 hmem)
  rw [deliveries_append, hnil, List.append_nil]

theorem Called.append (h : Called history) (hevent : ∀ e ∈ event, e.isOfReader = false) :
    Called (history ++ event.toList) := by
  obtain ⟨before, after, rfl, hwriter⟩ := h
  refine ⟨before, after ++ event.toList, by simp, fun e hmem => ?_⟩
  exact (List.mem_append.1 hmem).elim (hwriter e) fun hlast => hevent e (Option.mem_toList.1 hlast)

theorem Counted.append {count : Nat} (h : Counted history count) (hevent : ∀ e ∈ event, e.isOfReader = false) :
    Counted (history ++ event.toList) count := by
  obtain ⟨before, during, after, rfl, hwriter, hcount⟩ := h
  refine ⟨before, during, after ++ event.toList, by simp, fun e hmem => ?_, hcount⟩
  rw [← List.append_assoc] at hmem
  exact (List.mem_append.1 hmem).elim (hwriter e) fun hlast => hevent e (Option.mem_toList.1 hlast)

theorem Files.of_writer (h : Files history directory) (hevent : ∀ e ∈ event, e.isOfReader = false)
    (heffect : WriterEffect (produced history) (produced (history ++ event.toList)) directory directory') :
    Files (history ++ event.toList) directory' := by
  have hprefix := messages_grow history event.toList
  refine ⟨heffect.count, fun index hcount hlt => ?_, fun index message hindex => ?_, ?_⟩
  · rw [heffect.readerIndex] at hcount
    rcases Nat.lt_or_ge index (produced history).messages.length with hold | hnew
    · rw [heffect.messages index hold, h.messages index hcount hold, List.prefix_iff_getElem?.1 hprefix index hold,
        List.getElem?_eq_getElem hold]
    · -- the message is the one that the step has flushed
      rcases heffect.flushed with hsame | ⟨message, hmessages, hfile⟩
      · rw [hsame] at hlt
        omega
      · rw [hmessages, List.length_append] at hlt
        obtain rfl : index = (produced history).messages.length := by
          rw [List.length_singleton] at hlt
          omega
        rw [hfile, hmessages, List.getElem?_concat_length]
  · rw [deliveries_writer hevent] at hindex
    obtain ⟨hlt, hmessage⟩ := List.getElem?_eq_some_iff.1 (h.delivered index message hindex)
    rw [List.prefix_iff_getElem?.1 hprefix index hlt, hmessage]
  · rw [deliveries_writer hevent]
    exact h.length_le.trans hprefix.length_le

theorem ReaderInv.of_writer (h : ReaderInv history directory reader) (hevent : ∀ e ∈ event, e.isOfReader = false)
    (heffect : WriterEffect (produced history) (produced (history ++ event.toList)) directory directory') :
    ReaderInv (history ++ event.toList) directory' reader := by
  have hlt := fun value (hvalue : value < (produced history).messages.length) =>
    Nat.lt_of_lt_of_le hvalue (messages_grow history event.toList).length_le
  cases reader with
  | incrementing processing value =>
    cases processing with
    | read predicate => simpa only [ReaderInv, deliveries_writer hevent, heffect.readerIndex] using h
    | skip remaining =>
      simp only [ReaderInv, deliveries_writer hevent, heffect.readerIndex] at h ⊢
      exact ⟨h.1, h.2.1, hlt _ h.2.2⟩
  | checkingMessage | readingMessage =>
    simp only [ReaderInv, deliveries_writer hevent, heffect.readerIndex] at h ⊢
    exact ⟨h.1, h.2.1, hlt _ h.2.2⟩
  | readingWriterIndex processing value =>
    simp only [ReaderInv, deliveries_writer hevent, heffect.readerIndex] at h ⊢
    exact ⟨h.1, h.2.1, heffect.present h.2.2⟩
  | pendingChecking =>
    simp only [ReaderInv, deliveries_writer hevent, heffect.readerIndex] at h ⊢
    exact ⟨h.1, h.2.append hevent⟩
  | pendingReadingWriter =>
    simp only [ReaderInv, deliveries_writer hevent, heffect.readerIndex] at h ⊢
    exact ⟨h.1, h.2.1.append hevent, heffect.present h.2.2⟩
  | pendingReadingReader count =>
    simp only [ReaderInv, deliveries_writer hevent, heffect.readerIndex] at h ⊢
    exact ⟨h.1, h.2.1.append hevent, h.2.2⟩
  | failed => exact h
  | _ => simpa only [ReaderInv, deliveries_writer hevent, heffect.readerIndex] using h

theorem InFile.of_reader {p : Produced} {index : Nat} {rest : Bytes} (h : InFile p directory index rest)
    (heffect : ReaderEffect p directory directory') : InFile p directory' index rest := by
  obtain ⟨rfl, hvalue, content, hcontent, hunflushed⟩ := h
  exact ⟨rfl, heffect.writerIndex.trans hvalue, content, heffect.messages.trans hcontent, hunflushed⟩

theorem WriterInv.of_reader {p : Produced} (h : WriterInv p directory writer)
    (heffect : ReaderEffect p directory directory') : WriterInv p directory' writer := by
  cases writer with
  | running writer =>
    obtain ⟨index, _ | stream⟩ := writer
    · simpa only [WriterInv, heffect.writerIndex] using h
    · exact InFile.of_reader h heffect
  | writing index blocks stream => exact InFile.of_reader h heffect
  | flushing index stream => exact InFile.of_reader h heffect
  | incrementing => exact h.imp fun index hfile => hfile.of_reader heffect
  | failed => exact h
  | _ => simpa only [WriterInv, heffect.writerIndex] using h

end Frames

section Runs
variable {messages : Nat → Option Bytes} {state state' : State}

theorem inv_init (messages : Nat → Option Bytes) : Inv [] (State.init messages) where
  files := by
    refine ⟨rfl, fun _ _ hlt => absurd hlt (Nat.not_lt_zero _), fun index message hsome => ?_, Nat.le_refl 0⟩
    cases hsome
  writer := ⟨rfl, .inl rfl⟩
  reader := .inr ⟨rfl, rfl⟩

theorem Inv.of_writer {writer writer' : WriterState} {reader : ReaderState}
    (h : Inv history ⟨directory, writer, reader⟩)
    (hwriter : WriterInv (produced (history ++ event.toList)) directory' writer')
    (hevent : ∀ e ∈ event, e.isOfReader = false)
    (heffect : WriterEffect (produced history) (produced (history ++ event.toList)) directory directory') :
    Inv (history ++ event.toList) ⟨directory', writer', reader⟩ :=
  ⟨h.files.of_writer hevent heffect, hwriter, h.reader.of_writer hevent heffect⟩

theorem Inv.of_call {writer : WriterState} {reader reader' : ReaderState} (h : Inv history ⟨directory, writer, reader⟩)
    (hreader : ReaderInv history directory reader') :
    Inv (history ++ (none : Option Event).toList) ⟨directory, writer, reader'⟩ := by
  rw [Option.toList_none, List.append_nil]
  exact ⟨h.files, h.writer, hreader⟩

theorem writerInv_write {p : Produced} {writer : Writer} (h : WriterInv p directory (.running writer)) (data : Bytes) :
    WriterInv (p.record (.written data)) directory (writer.write data) := by
  obtain ⟨index, _ | stream⟩ := writer
  · obtain ⟨hunflushed, hindex, hvalue⟩ := h
    refine ⟨?_, hindex, hvalue⟩
    rw [Produced.record, hunflushed]
    rfl
  · obtain ⟨hindex, hvalue, content, hcontent, hunflushed⟩ := h
    refine writerInv_writeStream ⟨hindex, hvalue, content, hcontent, ?_⟩
    rw [Produced.record, hunflushed, ← List.append_assoc]
    rfl

theorem writerInv_stop {p : Produced} {writer : Writer} (h : WriterInv p directory (.running writer)) :
    WriterInv (p.record .writerStopped) directory .stopped := by
  obtain ⟨index, _ | stream⟩ := writer
  · exact ⟨rfl, .inr ⟨index, h.2.2⟩⟩
  · exact ⟨rfl, .inr ⟨index, h.2.1⟩⟩

theorem writerInv_flush {p : Produced} {writer : Writer} (h : WriterInv p directory (.running writer)) :
    WriterInv p directory writer.flush := by
  obtain ⟨index, _ | stream⟩ := writer
  · exact h
  · exact h

theorem Inv.step (h : Inv history state) (hstep : Step state event state') :
    Inv (history ++ event.toList) state' := by
  have hcount := h.files.count
  cases hstep with
  | startWriter =>
    refine h.of_writer ?_ nofun (by simpa using WriterEffect.of_directory hcount)
    rw [Option.toList_none, List.append_nil]
    exact h.writer
  | stopWriter =>
    refine h.of_writer ?_ (by rintro e ⟨⟩; rfl) ?_
    · rw [produced_append]
      exact writerInv_stop h.writer
    · rw [produced_append]
      exact ⟨rfl, fun _ _ => rfl, .inl rfl, id, hcount⟩
  | write data =>
    refine h.of_writer ?_ (by rintro e ⟨⟩; rfl) ?_
    · rw [produced_append]
      exact writerInv_write h.writer data
    · rw [produced_append]
      exact ⟨rfl, fun _ _ => rfl, .inl rfl, id, hcount⟩
  | flush =>
    exact h.of_writer (by simpa using writerInv_flush h.writer) nofun (by simpa using WriterEffect.of_directory hcount)
  | writer hwriter =>
    obtain ⟨hinv, heffect, hevent⟩ := writerInv_step h.writer hcount hwriter
    rw [← produced_append] at hinv heffect
    exact h.of_writer hinv hevent heffect
  | startReader => exact h.of_call h.reader
  | stopReader => exact h.of_call (.inl h.reader)
  | read predicate => exact h.of_call h.reader
  | skip count =>
    refine h.of_call ?_
    cases count with
    | zero => exact h.reader
    | succ count => exact h.reader
  | pending =>
    have hreader : ∀ e ∈ some Event.pendingCalled, e.isOfReader = true := by
      rintro e ⟨⟩
      rfl
    refine ⟨h.files.keep hreader rfl, ?_, ?_, history, [], rfl, nofun⟩
    · rw [produced_reader hreader]
      exact h.writer
    · rw [deliveries_keep rfl]
      exact h.reader
  | reader hreader =>
    have hstepped := readerInv_step h.files h.reader hreader
    refine ⟨hstepped.files, ?_, hstepped.reader⟩
    rw [produced_reader hstepped.isOfReader]
    exact h.writer.of_reader hstepped.effect

theorem inv_of_reaches (h : Reaches (State.init messages) Step history state) : Inv history state :=
  h.invariant (inv_init messages) fun hinv hstep => hinv.step hstep

theorem allowed_of_step {e : Event} (h : Inv history state) (hstep : Step state (some e) state') :
    Allowed history e := by
  cases hstep with
  | stopWriter => trivial
  | write data => trivial
  | pending => trivial
  | writer hwriter =>
    obtain ⟨-, -, hevent⟩ := writerInv_step h.writer h.files.count hwriter
    have hwriter := hevent e rfl
    cases e with
    | written data => trivial
    | flushed => trivial
    | writerStopped => trivial
    | _ => cases hwriter
  | reader hreader => exact (readerInv_step h.files h.reader hreader).allowed e rfl

theorem allowed_of_reaches (h : Reaches (State.init messages) Step history state) {before after : List Event}
    {e : Event} (hsplit : history = before ++ e :: after) : Allowed before e :=
  h.of_history Allowed (fun hreaches hstep => allowed_of_step (inv_of_reaches hreaches) hstep) hsplit

end Runs

def WriterState.isIdle : WriterState → Bool
  | .stopped | .running _ | .failed => true
  | _ => false

def WriterState.rank : WriterState → Nat
  | .stopped | .running _ | .failed => 0
  | .zeroingIndex | .readingIndex | .incrementing => 1
  | .creatingIndex | .flushing _ _ => 2
  | .checkingIndex => 3
  | .writing _ blocks _ => blocks.length + 1
  | .opening _ _ => 4

def ReaderState.isIdle : ReaderState → Bool
  | .stopped | .running | .failed => true
  | _ => false

def Processing.remaining : Processing → Nat
  | read _ => 0
  | skip remaining => remaining

def ReaderState.rank : ReaderState → Nat
  | .stopped | .running | .failed => 0
  | .zeroingIndex | .pendingReadingReader _ => 1
  | .creatingIndex | .pendingReadingWriter => 2
  | .checkingIndex | .pendingChecking => 3
  | .removing processing _ => 8 * processing.remaining + 1
  | .incrementing processing _ => 8 * processing.remaining + 2
  | .readingMessage _ _ => 3
  | .checkingMessage processing _ => 8 * processing.remaining + 4
  | .readingWriterIndex processing _ => 8 * processing.remaining + 5
  | .checkingWriterIndex processing _ => 8 * processing.remaining + 6
  | .readingIndex processing => 8 * processing.remaining + 7

section Returns
variable {messages : Nat → Option Bytes} {state : State} {writer writer' : WriterState} {reader reader' : ReaderState}

theorem length_write_le (stream : BufferedOutputFileStream) (data : Bytes) : (stream.write data).1.length ≤ 2 := by
  rw [BufferedOutputFileStream.write]
  split
  · exact Nat.le_refl 2
  · dsimp only
    split
    · exact Nat.le_succ 1
    · exact Nat.zero_le 2

theorem exists_writerStep (hidle : writer.isIdle = false) (directory : Directory) :
    ∃ writer' directory' event, writerStep directory writer = some (writer', directory', event) ∧
      writer'.rank < writer.rank := by
  cases writer with
  | stopped => cases hidle
  | running writer => cases hidle
  | failed => cases hidle
  | checkingIndex =>
    refine ⟨_, _, _, rfl, ?_⟩
    split
    · decide
    · decide
  | creatingIndex => exact ⟨_, _, _, rfl, by decide⟩
  | zeroingIndex => exact ⟨_, _, _, rfl, Nat.zero_lt_one⟩
  | readingIndex =>
    rw [writerStep]
    split
    · exact ⟨_, _, _, rfl, Nat.zero_lt_one⟩
    · exact ⟨_, _, _, rfl, Nat.zero_lt_one⟩
  | opening index data =>
    have hle := length_write_le .create data
    exact ⟨_, _, _, rfl, show _ + 1 < 4 by omega⟩
  | writing index blocks stream =>
    cases blocks with
    | nil => exact ⟨_, _, _, rfl, Nat.zero_lt_one⟩
    | cons block blocks => exact ⟨_, _, _, rfl, Nat.lt_succ_self _⟩
  | flushing index stream => exact ⟨_, _, _, rfl, Nat.lt_succ_self 1⟩
  | incrementing =>
    rw [writerStep]
    split
    · exact ⟨_, _, _, rfl, Nat.zero_lt_one⟩
    · exact ⟨_, _, _, rfl, Nat.zero_lt_one⟩

theorem rank_next_lt (processing : Processing) : processing.next.rank < 8 * processing.remaining + 1 := by
  cases processing with
  | read predicate => exact Nat.zero_lt_one
  | skip remaining =>
    cases remaining with
    | zero => exact Nat.zero_lt_one
    | succ remaining =>
      show 8 * remaining + 7 < 8 * (remaining + 1) + 1
      omega

theorem exists_readerStep (hidle : reader.isIdle = false) (directory : Directory) :
    ∃ reader' directory' event, readerStep directory reader = some (reader', directory', event) ∧
      reader'.rank < reader.rank := by
  have hzero : ∀ {k}, 0 < k + 1 := Nat.succ_pos _
  cases reader with
  | stopped => cases hidle
  | running => cases hidle
  | failed => cases hidle
  | checkingIndex =>
    refine ⟨_, _, _, rfl, ?_⟩
    split
    · decide
    · decide
  | creatingIndex => exact ⟨_, _, _, rfl, by decide⟩
  | zeroingIndex => exact ⟨_, _, _, rfl, by decide⟩
  | readingIndex processing =>
    rw [readerStep]
    split
    · exact ⟨_, _, _, rfl, hzero⟩
    · exact ⟨_, _, _, rfl, Nat.lt_succ_self _⟩
  | checkingWriterIndex processing value =>
    rw [readerStep]
    split
    · exact ⟨_, _, _, rfl, Nat.lt_succ_self _⟩
    · exact ⟨_, _, _, rfl, (rank_next_lt processing).trans_le (Nat.add_le_add_left (by decide) _)⟩
  | readingWriterIndex processing value =>
    rw [readerStep]
    split
    · exact ⟨_, _, _, rfl, hzero⟩
    · split
      · exact ⟨_, _, _, rfl, (rank_next_lt processing).trans_le (Nat.add_le_add_left (by decide) _)⟩
      · exact ⟨_, _, _, rfl, Nat.lt_succ_self _⟩
  | checkingMessage processing value =>
    cases hmessage : directory.messages value with
    | none => exact ⟨.failed, directory, some .failed, by simp only [readerStep, hmessage], hzero⟩
    | some message =>
      cases processing with
      | read predicate =>
        refine ⟨.readingMessage predicate value, directory, none, by simp only [readerStep, hmessage], ?_⟩
        exact Nat.lt_succ_self 3
      | skip remaining =>
        refine ⟨.incrementing (.skip remaining) value, directory, none, by simp only [readerStep, hmessage], ?_⟩
        exact Nat.add_lt_add_left (by decide) _
  | readingMessage predicate value =>
    rw [readerStep]
    split
    · exact ⟨_, _, _, rfl, hzero⟩
    · refine ⟨_, _, _, rfl, ?_⟩
      split
      · exact show 2 < 3 by decide
      · exact show 0 < 3 by decide
  | incrementing processing value =>
    rw [readerStep]
    split
    · exact ⟨_, _, _, rfl, hzero⟩
    · exact ⟨_, _, _, rfl, Nat.lt_succ_self _⟩
  | removing processing value => exact ⟨_, _, _, rfl, rank_next_lt processing⟩
  | pendingChecking =>
    refine ⟨_, _, _, rfl, ?_⟩
    split
    · decide
    · exact show 1 < 3 by decide
  | pendingReadingWriter =>
    rw [readerStep]
    split
    · exact ⟨_, _, _, rfl, hzero⟩
    · exact ⟨_, _, _, rfl, show 1 < 2 by decide⟩
  | pendingReadingReader count =>
    rw [readerStep]
    split
    · exact ⟨_, _, _, rfl, hzero⟩
    · exact ⟨_, _, _, rfl, hzero⟩

theorem writer_returns (h : Reaches (State.init messages) Step history state) :
    ∃ events directory writer,
      Reaches (State.init messages) Step (history ++ events) ⟨directory, writer, state.reader⟩ ∧
        writer.isIdle = true := by
  obtain ⟨directory, writer, reader⟩ := state
  induction hrank : writer.rank using Nat.strong_induction_on generalizing history directory writer with
  | _ rank ih =>
    cases hidle : writer.isIdle with
    | true => exact ⟨[], directory, writer, by rwa [List.append_nil], hidle⟩
    | false =>
      obtain ⟨writer', directory', event, hstep, hlt⟩ := exists_writerStep hidle directory
      obtain ⟨events, directory'', writer'', hreaches, hidle''⟩ :=
        ih writer'.rank (hrank ▸ hlt) directory' writer' (h.next (.writer hstep)) rfl
      exact ⟨event.toList ++ events, directory'', writer'', by rwa [← List.append_assoc], hidle''⟩

theorem reader_returns (h : Reaches (State.init messages) Step history state) :
    ∃ events directory reader,
      Reaches (State.init messages) Step (history ++ events) ⟨directory, state.writer, reader⟩ ∧
        reader.isIdle = true := by
  obtain ⟨directory, writer, reader⟩ := state
  induction hrank : reader.rank using Nat.strong_induction_on generalizing history directory reader with
  | _ rank ih =>
    cases hidle : reader.isIdle with
    | true => exact ⟨[], directory, reader, by rwa [List.append_nil], hidle⟩
    | false =>
      obtain ⟨reader', directory', event, hstep, hlt⟩ := exists_readerStep hidle directory
      obtain ⟨events, directory'', reader'', hreaches, hidle''⟩ :=
        ih reader'.rank (hrank ▸ hlt) directory' reader' (h.next (.reader hstep)) rfl
      exact ⟨event.toList ++ events, directory'', reader'', by rwa [← List.append_assoc], hidle''⟩

end Returns

structure Delivery (history : List Event) : Prop where
  delivered : ∀ (index : Nat) (message : Bytes), (deliveries history)[index]? = some (some message) →
    (produced history).messages[index]? = some message
  length_le : (deliveries history).length ≤ (produced history).messages.length
  offered : ∀ before message accepted after, history = before ++ .offered message accepted :: after →
    (produced before).messages[(deliveries before).length]? = some message
  offeredAgain : ∀ before message between message' accepted after,
    history = before ++ .offered message false :: (between ++ .offered message' accepted :: after) →
      deliveries between = [] → message' = message
  skipped : ∀ before after, history = before ++ .skipped :: after →
    (deliveries before).length < (produced before).messages.length
  nothing : ∀ before after, history = before ++ .nothing :: after →
    (deliveries before).length = (produced before).messages.length
  pending : ∀ before count after, history = before ++ .pendingReturned count :: after →
    ∃ first during rest, before = first ++ .pendingCalled :: (during ++ rest) ∧
      (∀ event ∈ during ++ rest, event.isOfReader = false) ∧
      count + (deliveries (first ++ .pendingCalled :: during)).length =
        (produced (first ++ .pendingCalled :: during)).messages.length
  not_failed : .failed ∉ history

theorem delivery_of_reaches {messages : Nat → Option Bytes} {state : State}
    (h : Reaches (State.init messages) Step history state) : Delivery history where
  delivered := (inv_of_reaches h).files.delivered
  length_le := (inv_of_reaches h).files.length_le
  offered _ _ _ _ hsplit := allowed_of_reaches h hsplit
  offeredAgain before message between message' accepted after hsplit hbetween := by
    have hfirst : (produced before).messages[(deliveries before).length]? = some message := allowed_of_reaches h hsplit
    have hsplit' : history = (before ++ .offered message false :: between) ++ .offered message' accepted :: after := by
      rw [hsplit, List.append_assoc, List.cons_append]
    have hsecond : (produced (before ++ .offered message false :: between)).messages[
        (deliveries (before ++ .offered message false :: between)).length]? = some message' :=
      allowed_of_reaches h hsplit'
    have hlength : deliveries (before ++ .offered message false :: between) = deliveries before := by
      have hnil : deliveries (.offered message false :: between) = deliveries between := rfl
      rw [deliveries_append, hnil, hbetween, List.append_nil]
    obtain ⟨hlt, hmessage⟩ := List.getElem?_eq_some_iff.1 hfirst
    rw [hlength, List.prefix_iff_getElem?.1 (messages_grow before _) _ hlt, hmessage] at hsecond
    exact (Option.some.inj hsecond).symm
  skipped _ _ hsplit := allowed_of_reaches h hsplit
  nothing _ _ hsplit := allowed_of_reaches h hsplit
  pending _ _ _ hsplit := allowed_of_reaches h hsplit
  not_failed hmem := by
    obtain ⟨before, after, hsplit⟩ := List.append_of_mem hmem
    exact allowed_of_reaches h hsplit

/-- The messages are delivered, and no operation fails or runs without an end. -/
theorem fileQueue_delivery {messages : Nat → Option Bytes} {state : State}
    (h : Reaches (State.init messages) Step history state) :
    Delivery history ∧ state.writer ≠ .failed ∧ state.reader ≠ .failed ∧
    (∃ events directory writer,
      Reaches (State.init messages) Step (history ++ events) ⟨directory, writer, state.reader⟩ ∧
        writer.isIdle = true) ∧
    ∃ events directory reader,
      Reaches (State.init messages) Step (history ++ events) ⟨directory, state.writer, reader⟩ ∧
        reader.isIdle = true := by
  have hinv := inv_of_reaches h
  refine ⟨delivery_of_reaches h, fun hfailed => ?_, fun hfailed => ?_, writer_returns h, reader_returns h⟩
  · have hwriter := hinv.writer
    rw [hfailed] at hwriter
    exact hwriter
  · have hreader := hinv.reader
    rw [hfailed] at hreader
    exact hreader

/-- A message that is refused is there again after a restart of the reader. -/
theorem fileQueue_delivery_sample : Delivery
    [.written [1], .written [2], .flushed, .offered [1, 2] false, .written [3], .offered [1, 2] true, .nothing] := by
  have h : Reaches (State.init fun _ => none) Step [] _ := .start
  have hwriter := ((h.next .startWriter).next (.writer rfl)).next (.writer rfl) |>.next (.writer rfl)
  have hwritten := ((hwriter.next (.write [1])).next (.writer rfl)).next (.writer rfl) |>.next (.write [2])
    |>.next (.writer rfl)
  have hflushed := ((hwritten.next .flush).next (.writer rfl)).next (.writer rfl)
  have hreader := ((hflushed.next .startReader).next (.reader rfl)).next (.reader rfl) |>.next (.reader rfl)
  have hrefused := (hreader.next (.read fun _ => false)).next (.reader rfl) |>.next (.reader rfl) |>.next (.reader rfl)
    |>.next (.reader rfl) |>.next (.reader rfl)
  have hrestarted := (hrefused.next .stopReader).next (.write [3]) |>.next .startReader |>.next (.reader rfl)
  have haccepted := (hrestarted.next (.read fun _ => true)).next (.reader rfl) |>.next (.reader rfl)
    |>.next (.reader rfl) |>.next (.reader rfl) |>.next (.reader rfl) |>.next (.reader rfl) |>.next (.reader rfl)
  have hnothing := (haccepted.next (.read fun _ => true)).next (.reader rfl) |>.next (.reader rfl)
    |>.next (.reader rfl)
  exact (fileQueue_delivery hnothing).1

end Catapult.Io.FileQueue
