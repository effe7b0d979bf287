import Catapult.Ionet.WorkingBuffer
import Catapult.Lib.Framing

/-!
# Packets do not depend on the chunks they come in

What a reader has not extracted yet (`unread`) is what is left of everything that was appended, when the packets are cut
from its front. No other call changes it, wherever the bytes are in the buffer.
-/

namespace Catapult.Ionet

/-! ## Packets as frames -/

section Front
variable {maxPacketDataSize : Nat} {s : List UInt8}

def packetFront (maxPacketDataSize : Nat) (s : List UInt8) : Front :=
  if s.length < packetHeaderSize then .more
  else if ¬ IsPacketDataSizeValid (packetSize s) maxPacketDataSize then .bad
  else if s.length < packetSize s then .more
  else .frame (packetSize s)

theorem packetFront_eq_frame {n : Nat} (h : packetFront maxPacketDataSize s = .frame n) :
    n = packetSize s ∧ IsPacketDataSizeValid n maxPacketDataSize ∧ n ≤ s.length := by
  rw [packetFront] at h
  split at h
  · cases h
  split at h
  · cases h
  next hvalid =>
    split at h
    · cases h
    next hle =>
      cases h
      exact ⟨rfl, Decidable.not_not.1 hvalid, Nat.le_of_not_lt hle⟩

theorem packetSize_append (t : List UInt8) (h : packetHeaderSize ≤ s.length) : packetSize (s ++ t) = packetSize s := by
  rw [packetSize, List.take_append_of_le_length ((by decide : 4 ≤ packetHeaderSize).trans h), packetSize]

theorem packetFront_append (t : List UInt8) (h : packetFront maxPacketDataSize s ≠ .more) :
    packetFront maxPacketDataSize (s ++ t) = packetFront maxPacketDataSize s := by
  rw [packetFront] at h
  split at h
  · exact absurd rfl h
  next hheader =>
    have hheader' : ¬ (s ++ t).length < packetHeaderSize := by
      rw [List.length_append]
      omega
    rw [packetFront, packetFront, if_neg hheader, if_neg hheader', packetSize_append t (Nat.le_of_not_lt hheader)]
    split at h
    next hvalid => rw [if_pos hvalid, if_pos hvalid]
    next hvalid =>
      rw [if_neg hvalid, if_neg hvalid]
      split at h
      · exact absurd rfl h
      next hle =>
        rw [if_neg hle, if_neg (by rw [List.length_append]; omega)]

def packetFramer (maxPacketDataSize : Nat) : Framer UInt8 where
  front := packetFront maxPacketDataSize
  size_pos h := Nat.lt_of_lt_of_le (by decide) (packetFront_eq_frame h).2.1.1
  size_le h := (packetFront_eq_frame h).2.2
  stable := packetFront_append

end Front

def extractResult (unread : List UInt8) : Front → PacketExtractResult
  | .more => .insufficientData
  | .bad => .packetError
  | .frame n => .success (unread.take n)

def extractSize : Front → Nat
  | .frame n => n
  | .more | .bad => 0

namespace PacketExtractor
variable {maxPacketDataSize : Nat} {data : List UInt8} {consumedBytes : Nat}

theorem tryExtractNextPacket_eq : tryExtractNextPacket maxPacketDataSize data consumedBytes =
    (extractResult (data.drop consumedBytes) (packetFront maxPacketDataSize (data.drop consumedBytes)),
      consumedBytes + extractSize (packetFront maxPacketDataSize (data.drop consumedBytes))) := by
  rw [tryExtractNextPacket, packetFront, List.length_drop]
  dsimp only
  split
  · rfl
  split
  · rfl
  split
  · rfl
  · rfl

def extractAll (maxPacketDataSize : Nat) (data : List UInt8) (consumedBytes : Nat) :
    List (List UInt8) × PacketExtractResult :=
  match _h : tryExtractNextPacket maxPacketDataSize data consumedBytes with
  | (.success packet, consumedBytes') =>
    let (packets, result) := extractAll maxPacketDataSize data consumedBytes'
    (packet :: packets, result)
  | (result, _) => ([], result)
termination_by data.length - consumedBytes
decreasing_by
  rw [tryExtractNextPacket_eq, Prod.mk.injEq] at _h
  obtain ⟨hresult, rfl⟩ := _h
  cases hfront : packetFront maxPacketDataSize (data.drop consumedBytes) with
  | more =>
    rw [hfront] at hresult
    cases hresult
  | bad =>
    rw [hfront] at hresult
    cases hresult
  | frame n =>
    obtain ⟨-, ⟨hheader, -⟩, hle⟩ := packetFront_eq_frame hfront
    rw [List.length_drop] at hle
    rw [packetHeaderSize] at hheader
    rw [extractSize]
    omega

theorem extractAll_of_frame {n : Nat} (h : packetFront maxPacketDataSize (data.drop consumedBytes) = .frame n) :
    extractAll maxPacketDataSize data consumedBytes =
      ((data.drop consumedBytes).take n :: (extractAll maxPacketDataSize data (consumedBytes + n)).1,
        (extractAll maxPacketDataSize data (consumedBytes + n)).2) := by
  have hextract : tryExtractNextPacket maxPacketDataSize data consumedBytes =
      (.success ((data.drop consumedBytes).take n), consumedBytes + n) := by
    rw [tryExtractNextPacket_eq, h]
    rfl
  rw [extractAll]
  split
  next packet consumedBytes' heq =>
    rw [hextract] at heq
    cases heq
    rfl
  next result _ hne heq =>
    rw [hextract] at heq
    cases heq
    exact absurd rfl (hne _)

theorem extractAll_of_stuck (h : Cut.Stuck (packetFramer maxPacketDataSize) (data.drop consumedBytes)) :
    extractAll maxPacketDataSize data consumedBytes =
      ([], extractResult (data.drop consumedBytes) (packetFront maxPacketDataSize (data.drop consumedBytes))) := by
  rw [extractAll]
  split
  next packet consumedBytes' heq =>
    rw [tryExtractNextPacket_eq, Prod.mk.injEq] at heq
    cases hfront : packetFront maxPacketDataSize (data.drop consumedBytes) with
    | more | bad =>
      rw [hfront] at heq
      cases heq.1
    | frame n => exact absurd hfront (h n)
  next heq =>
    rw [tryExtractNextPacket_eq, Prod.mk.injEq] at heq
    rw [heq.1]

theorem extractAll_cut (maxPacketDataSize : Nat) (data : List UInt8) (consumedBytes : Nat) : ∃ rest,
    Cut (packetFramer maxPacketDataSize) (data.drop consumedBytes)
      (extractAll maxPacketDataSize data consumedBytes).1 rest ∧
    Cut.Stuck (packetFramer maxPacketDataSize) rest ∧
    (extractAll maxPacketDataSize data consumedBytes).2 = extractResult rest (packetFront maxPacketDataSize rest) := by
  induction hleft : data.length - consumedBytes using Nat.strongRecOn generalizing consumedBytes with
  | _ left ih =>
    by_cases hstuck : Cut.Stuck (packetFramer maxPacketDataSize) (data.drop consumedBytes)
    · rw [extractAll_of_stuck hstuck]
      exact ⟨_, .done _, hstuck, rfl⟩
    · obtain ⟨n, hfront⟩ := not_forall_not.1 hstuck
      obtain ⟨-, ⟨hheader, -⟩, hle⟩ := packetFront_eq_frame hfront
      rw [packetHeaderSize] at hheader
      rw [List.length_drop] at hle
      obtain ⟨rest, hcut, hrest, hresult⟩ := ih _ (by omega) (consumedBytes + n) rfl
      rw [extractAll_of_frame hfront]
      refine ⟨rest, .frame hfront ?_, hrest, hresult⟩
      rwa [List.drop_drop]

/-- The packets have the valid sizes that their headers name. After them comes an invalid header, and this is the error,
or too little for a packet. -/
structure Splits (maxPacketDataSize : Nat) (data : List UInt8) (packets : List (List UInt8))
    (result : PacketExtractResult) (rest : List UInt8) : Prop where
  whole : packets.flatten ++ rest = data
  valid : ∀ packet ∈ packets, packet.length = packetSize packet ∧
    IsPacketDataSizeValid (packetSize packet) maxPacketDataSize
  error : result = .packetError ↔
    packetHeaderSize ≤ rest.length ∧ ¬ IsPacketDataSizeValid (packetSize rest) maxPacketDataSize
  insufficient : result = .insufficientData ↔ rest.length < packetHeaderSize ∨
    IsPacketDataSizeValid (packetSize rest) maxPacketDataSize ∧ rest.length < packetSize rest

theorem splits_extractAll (maxPacketDataSize : Nat) (data : List UInt8) : ∃ rest,
    Splits maxPacketDataSize data (extractAll maxPacketDataSize data 0).1
      (extractAll maxPacketDataSize data 0).2 rest := by
  obtain ⟨rest, hcut, hstuck, hresult⟩ := extractAll_cut maxPacketDataSize data 0
  refine ⟨rest, hcut.flatten_append, hcut.forall_frames fun s n hfront => ?_, ?_, ?_⟩
  · obtain ⟨rfl, hvalid, hle⟩ := packetFront_eq_frame hfront
    have hsize : packetSize (s.take (packetSize s)) = packetSize s := by
      rw [packetSize, List.take_take, Nat.min_eq_left ((by decide : 4 ≤ packetHeaderSize).trans hvalid.1), packetSize]
    rw [hsize]
    exact ⟨List.length_take_of_le hle, hvalid⟩
  all_goals
    have hfront := hstuck (packetSize rest)
    change packetFront maxPacketDataSize rest ≠ _ at hfront
    rw [hresult]
    unfold packetFront at hfront ⊢
    split_ifs at hfront ⊢ <;> simp_all [extractResult]

end PacketExtractor

/-! ## Calls -/

namespace Outcome

def received : Outcome → List UInt8
  | .appended bytes => bytes
  | _ => []

def packet : Outcome → Option (List UInt8)
  | .extracted (.success packet) => some packet
  | _ => none

end Outcome

def stream (outcomes : List Outcome) : List UInt8 := outcomes.flatMap Outcome.received

def packets (outcomes : List Outcome) : List (List UInt8) := outcomes.filterMap Outcome.packet

inductive Moved (maxPacketDataSize : Nat) : List UInt8 → Outcome → List UInt8 → Prop
  | appended (unread bytes : List UInt8) : Moved maxPacketDataSize unread (.appended bytes) (unread ++ bytes)
  | abandoned (unread : List UInt8) : Moved maxPacketDataSize unread .abandoned unread
  | commitError (unread : List UInt8) (error : AppendContext.CommitError) :
      Moved maxPacketDataSize unread (.commitError error) unread
  | consumed (unread : List UInt8) : Moved maxPacketDataSize unread .consumed unread
  | extracted (unread : List UInt8) :
      Moved maxPacketDataSize unread (.extracted (extractResult unread (packetFront maxPacketDataSize unread)))
        (unread.drop (extractSize (packetFront maxPacketDataSize unread)))

theorem stream_concat (outcomes : List Outcome) (outcome : Outcome) :
    stream (outcomes ++ [outcome]) = stream outcomes ++ outcome.received := by
  rw [stream, List.flatMap_append, List.flatMap_singleton, stream]

theorem packets_concat (outcomes : List Outcome) (outcome : Outcome) :
    packets (outcomes ++ [outcome]) = packets outcomes ++ outcome.packet.toList := by
  rw [packets, List.filterMap_append, packets]
  cases h : outcome.packet with
  | none => rw [List.filterMap_cons_none h, List.filterMap_nil, Option.toList_none]
  | some packet => rw [List.filterMap_cons_some h, List.filterMap_nil, Option.toList_some]

theorem Moved.cut {maxPacketDataSize : Nat} {unread unread' : List UInt8} {outcome : Outcome} {outcomes : List Outcome}
    (hmoved : Moved maxPacketDataSize unread outcome unread')
    (h : Cut (packetFramer maxPacketDataSize) (stream outcomes) (packets outcomes) unread) :
    Cut (packetFramer maxPacketDataSize) (stream (outcomes ++ [outcome])) (packets (outcomes ++ [outcome]))
      unread' := by
  rw [stream_concat, packets_concat]
  have hsame : Cut (packetFramer maxPacketDataSize) (stream outcomes ++ []) (packets outcomes ++ []) unread := by
    rwa [List.append_nil, List.append_nil]
  cases hmoved with
  | appended bytes =>
    have hbytes := h.append bytes
    rwa [← List.append_nil (packets outcomes)] at hbytes
  | abandoned | commitError | consumed => exact hsame
  | extracted =>
    cases hfront : packetFront maxPacketDataSize unread with
    | more | bad => exact hsame
    | frame n =>
      have hpacket := h.concat hfront
      rwa [← List.append_nil (stream outcomes)] at hpacket

/-! ## Steps -/

namespace ByteBuffer
variable (alloc : Allocation) (data : ByteBuffer)

theorem resize_bytes_of_le {size : Nat} (h : size ≤ data.size) :
    (data.resize alloc size).bytes = data.bytes.take size := by
  have hzero : size - data.bytes.length = 0 := Nat.sub_eq_zero_of_le h
  change data.bytes.take size ++ List.replicate (size - data.bytes.length) 0 = _
  rw [hzero, List.replicate_zero, List.append_nil]

theorem resize_bytes_of_ge {size : Nat} (h : data.size ≤ size) :
    (data.resize alloc size).bytes = data.bytes ++ List.replicate (size - data.size) 0 := by
  change data.bytes.take size ++ _ = _
  rw [List.take_of_length_le h]
  rfl

theorem write_bytes (pre old post : List UInt8) {bytes : List UInt8} (hdata : data.bytes = pre ++ (old ++ post))
    (hlength : old.length = bytes.length) : (data.write pre.length bytes).bytes = pre ++ (bytes ++ post) := by
  change (data.bytes.take pre.length ++ bytes ++ data.bytes.drop (pre.length + bytes.length)).take data.bytes.length = _
  have htake : (pre ++ (old ++ post)).length = (pre ++ (bytes ++ post)).length := by
    simp only [List.length_append, hlength]
  rw [hdata, htake, List.take_left, ← hlength, ← List.length_append, ← List.append_assoc pre old, List.drop_left,
    List.append_assoc, List.take_length]

end ByteBuffer

structure Opened (bytes : List UInt8) (data : ByteBuffer) (context : AppendContext) : Prop where
  originalSize : context.originalSize = bytes.length
  bytes : data.bytes = bytes ++ List.replicate context.appendSize 0

namespace AppendContext
variable (alloc : Allocation) {data : ByteBuffer} {context : AppendContext} {bytes : List UInt8}

theorem opened_init (data : ByteBuffer) (size : Nat) :
    Opened data.bytes (init alloc data size).1 (init alloc data size).2 := by
  have hresize {n : Nat} (hle : data.size ≤ n) :
      Opened data.bytes (data.resize alloc n) ⟨data.size, (data.resize alloc n).size - data.size⟩ := by
    refine ⟨rfl, ?_⟩
    have hbytes := data.resize_bytes_of_ge alloc hle
    have hsize : (data.resize alloc n).size - data.size = n - data.size := by
      rw [ByteBuffer.size, hbytes, List.length_append, List.length_replicate]
      exact Nat.add_sub_cancel_left _ _
    rw [hbytes, hsize]
  rw [init]
  dsimp only
  split
  · exact hresize (Nat.le_add_right _ _)
  · exact hresize (Nat.le_min.2 ⟨Nat.le_add_right _ _, data.length_le⟩)

theorem read_bytes (h : Opened bytes data context) (received : List UInt8) : ∃ rest,
    (context.read received data).bytes = bytes ++ (received.take context.appendSize ++ rest) := by
  refine ⟨List.replicate (context.appendSize - (received.take context.appendSize).length) 0, ?_⟩
  rw [read, h.originalSize]
  refine data.write_bytes bytes (List.replicate (received.take context.appendSize).length 0) _ ?_ List.length_replicate
  rw [h.bytes, List.replicate_append_replicate, Nat.add_sub_cancel' (List.length_take_le _ _)]

theorem commit_bytes (h : Opened bytes data context) {received : List UInt8}
    (hle : received.length ≤ context.appendSize) :
    (context.commit alloc received.length (context.read received data)).2 = .ok () ∧
      (context.commit alloc received.length (context.read received data)).1.bytes = bytes ++ received := by
  obtain ⟨rest, hread⟩ := read_bytes h received
  rw [List.take_of_length_le hle, ← List.append_assoc] at hread
  rw [commit, if_neg (Nat.not_lt.2 hle), h.originalSize, ← List.length_append]
  refine ⟨rfl, ?_⟩
  rw [ByteBuffer.resize_bytes_of_le, hread, List.take_left]
  rw [ByteBuffer.size, hread]
  simp only [List.length_append]
  exact Nat.le_add_right _ _

theorem abandon_bytes (h : Opened bytes data context) (received : List UInt8) :
    (context.abandon alloc (context.read received data)).bytes = bytes := by
  obtain ⟨rest, hread⟩ := read_bytes h received
  rw [abandon, h.originalSize, ByteBuffer.resize_bytes_of_le, hread, List.take_left]
  rw [ByteBuffer.size, hread, List.length_append]
  exact Nat.le_add_right _ _

end AppendContext

theorem PacketExtractor.consume_bytes (alloc : Allocation) (data : ByteBuffer) {consumedBytes : Nat}
    (h : consumedBytes ≤ data.size) :
    (consume alloc data consumedBytes).2 ≤ (consume alloc data consumedBytes).1.size ∧
      (consume alloc data consumedBytes).1.bytes.drop (consume alloc data consumedBytes).2 =
        data.bytes.drop consumedBytes := by
  rw [consume]
  split
  next => exact ⟨h, rfl⟩
  next =>
    refine ⟨Nat.zero_le _, ?_⟩
    have hlength : (data.bytes.drop consumedBytes).length = data.size - consumedBytes := List.length_drop
    have hmoved : (data.write 0 (data.bytes.drop consumedBytes)).bytes =
        data.bytes.drop consumedBytes ++ data.bytes.drop (data.size - consumedBytes) :=
      data.write_bytes [] (data.bytes.take (data.size - consumedBytes)) _ (List.take_append_drop _ _).symm (by
        rw [hlength]
        exact List.length_take_of_le (Nat.sub_le _ _))
    dsimp only
    rw [List.drop_zero, ByteBuffer.resize_bytes_of_le, hmoved, ← hlength, List.take_left]
    change data.size - consumedBytes ≤ (data.write 0 (data.bytes.drop consumedBytes)).bytes.length
    rw [hmoved, List.length_append, hlength]
    exact Nat.le_add_right _ _

namespace WorkingBuffer
variable (alloc : Allocation) (buffer : WorkingBuffer)

theorem checkMemoryUsage_bytes : (buffer.checkMemoryUsage alloc).data.bytes = buffer.data.bytes ∧
    (buffer.checkMemoryUsage alloc).options = buffer.options := by
  rw [checkMemoryUsage]
  split
  · exact ⟨rfl, rfl⟩
  dsimp only
  split
  · exact ⟨rfl, rfl⟩
  split
  · exact ⟨rfl, rfl⟩
  · refine ⟨?_, rfl⟩
    refine (ByteBuffer.write_bytes _ [] (List.replicate buffer.data.size 0) [] ?_ List.length_replicate).trans ?_
    · rw [ByteBuffer.resize_bytes_of_ge _ _ (Nat.zero_le _)]
      exact (List.append_nil _).symm
    · exact List.append_nil _

theorem opened_prepareAppend :
    Opened buffer.data.bytes (buffer.prepareAppend alloc).1.data (buffer.prepareAppend alloc).2 ∧
    (buffer.prepareAppend alloc).1.options = buffer.options := by
  obtain ⟨horiginal, hbytes⟩ := AppendContext.opened_init alloc buffer.data buffer.options.workingBufferSize
  refine ⟨⟨horiginal, ?_⟩, (checkMemoryUsage_bytes alloc _).2⟩
  exact (checkMemoryUsage_bytes alloc _).1.trans hbytes

end WorkingBuffer

namespace PacketReader
variable (alloc : Allocation) (reader : PacketReader)

def unread : List UInt8 := reader.buffer.data.bytes.drop reader.consumedBytes

/-- What a call does: it moves the bytes, and the extractor stays inside of the data. -/
structure Steps (result : PacketReader × Outcome) : Prop where
  consumed_le : result.1.consumedBytes ≤ result.1.buffer.data.size
  options : result.1.buffer.options = reader.buffer.options
  moved : Moved reader.buffer.options.maxPacketDataSize reader.unread result.2 result.1.unread

variable {reader} {reader' : PacketReader} {outcome : Outcome} {bytes : List UInt8}

theorem steps_of_bytes (h : reader.consumedBytes ≤ reader.buffer.data.size)
    (hdata : reader'.buffer.data.bytes = reader.buffer.data.bytes ++ bytes)
    (hconsumed : reader'.consumedBytes = reader.consumedBytes)
    (hoptions : reader'.buffer.options = reader.buffer.options)
    (hmoved : Moved reader.buffer.options.maxPacketDataSize reader.unread outcome (reader.unread ++ bytes)) :
    reader.Steps (reader', outcome) := by
  have hunread : reader'.unread = reader.unread ++ bytes := by
    rw [unread, hdata, hconsumed, List.drop_append_of_le_length h, unread]
  refine ⟨?_, hoptions, ?_⟩
  · change reader'.consumedBytes ≤ reader'.buffer.data.size
    rw [ByteBuffer.size, hdata, hconsumed, List.length_append]
    exact Nat.le_add_right_of_le h
  · change Moved _ _ _ reader'.unread
    rwa [hunread]

theorem steps_of_bytes_eq (h : reader.consumedBytes ≤ reader.buffer.data.size)
    (hdata : reader'.buffer.data.bytes = reader.buffer.data.bytes)
    (hconsumed : reader'.consumedBytes = reader.consumedBytes)
    (hoptions : reader'.buffer.options = reader.buffer.options)
    (hmoved : Moved reader.buffer.options.maxPacketDataSize reader.unread outcome reader.unread) :
    reader.Steps (reader', outcome) :=
  steps_of_bytes h (hdata.trans (List.append_nil _).symm) hconsumed hoptions (by rwa [List.append_nil])

theorem steps_appendCommit (h : reader.consumedBytes ≤ reader.buffer.data.size) (received : List UInt8) :
    reader.Steps (reader.appendCommit alloc received) := by
  obtain ⟨hopened, hoptions⟩ := reader.buffer.opened_prepareAppend alloc
  rw [appendCommit]
  dsimp only
  by_cases hle : received.length ≤ (reader.buffer.prepareAppend alloc).2.appendSize
  · obtain ⟨hok, hbytes⟩ := AppendContext.commit_bytes alloc hopened hle
    simp only [hok]
    exact steps_of_bytes h hbytes rfl hoptions (.appended _ _)
  · have hbytes := AppendContext.abandon_bytes alloc hopened received
    simp only [AppendContext.commit, if_pos (Nat.not_le.1 hle)]
    exact steps_of_bytes_eq h hbytes rfl hoptions (.commitError _ _)

theorem steps_appendAbandon (h : reader.consumedBytes ≤ reader.buffer.data.size) (received : List UInt8) :
    reader.Steps (reader.appendAbandon alloc received) := by
  obtain ⟨hopened, hoptions⟩ := reader.buffer.opened_prepareAppend alloc
  exact steps_of_bytes_eq h (AppendContext.abandon_bytes alloc hopened received) rfl hoptions (.abandoned _)

theorem apply_tryExtractNextPacket : reader.apply alloc .tryExtractNextPacket =
    ({ reader with
        consumedBytes :=
          reader.consumedBytes + extractSize (packetFront reader.buffer.options.maxPacketDataSize reader.unread) },
      .extracted (extractResult reader.unread
        (packetFront reader.buffer.options.maxPacketDataSize reader.unread))) := by
  rw [apply, PacketExtractor.tryExtractNextPacket_eq]
  rfl

theorem steps_tryExtractNextPacket (h : reader.consumedBytes ≤ reader.buffer.data.size) :
    reader.Steps (reader.apply alloc .tryExtractNextPacket) := by
  rw [apply_tryExtractNextPacket]
  refine ⟨?_, rfl, ?_⟩
  · dsimp only
    cases hfront : packetFront reader.buffer.options.maxPacketDataSize reader.unread with
    | more | bad => exact h
    | frame n =>
      have hle := (packetFront_eq_frame hfront).2.2
      rw [unread, List.length_drop] at hle
      rw [ByteBuffer.size] at h ⊢
      rw [extractSize]
      omega
  · have hmoved := @Moved.extracted reader.buffer.options.maxPacketDataSize reader.unread
    rwa [unread, List.drop_drop] at hmoved

theorem steps_consume (h : reader.consumedBytes ≤ reader.buffer.data.size) :
    reader.Steps (reader.apply alloc .consume) := by
  obtain ⟨hle, hbytes⟩ := PacketExtractor.consume_bytes alloc reader.buffer.data h
  refine ⟨hle, rfl, ?_⟩
  have hunread : (reader.apply alloc .consume).1.unread = reader.unread := hbytes
  rw [hunread]
  exact .consumed _

theorem steps_apply (h : reader.consumedBytes ≤ reader.buffer.data.size) (call : Call) :
    reader.Steps (reader.apply alloc call) := by
  cases call with
  | append byte => exact steps_of_bytes h rfl rfl rfl (.appended _ _)
  | appendCommit received => exact steps_appendCommit alloc h received
  | appendAbandon received => exact steps_appendAbandon alloc h received
  | tryExtractNextPacket => exact steps_tryExtractNextPacket alloc h
  | consume => exact steps_consume alloc h

/-! ## Runs -/

theorem run_cons (reader : PacketReader) (call : Call) (calls : List Call) : reader.run alloc (call :: calls) =
    (((reader.apply alloc call).1.run alloc calls).1,
      (reader.apply alloc call).2 :: ((reader.apply alloc call).1.run alloc calls).2) := rfl

/-- The extractor stays inside of the data, and what was extracted is cut from what was appended. -/
structure Framed (maxPacketDataSize : Nat) (reader : PacketReader) (outcomes : List Outcome) : Prop where
  consumed_le : reader.consumedBytes ≤ reader.buffer.data.size
  options : reader.buffer.options.maxPacketDataSize = maxPacketDataSize
  cut : Cut (packetFramer maxPacketDataSize) (stream outcomes) (packets outcomes) reader.unread

variable {maxPacketDataSize : Nat} {outcomes : List Outcome}

theorem framed_init (options : PacketSocketOptions) : Framed options.maxPacketDataSize (init alloc options) [] :=
  ⟨le_rfl, rfl, .done _⟩

theorem Framed.run (h : Framed maxPacketDataSize reader outcomes) (calls : List Call) :
    Framed maxPacketDataSize (reader.run alloc calls).1 (outcomes ++ (reader.run alloc calls).2) := by
  induction calls generalizing reader outcomes with
  | nil => rwa [PacketReader.run, List.append_nil]
  | cons call calls ih =>
    have hsteps := steps_apply alloc h.consumed_le call
    have hmoved := hsteps.moved
    rw [h.options] at hmoved
    have hnext : Framed maxPacketDataSize (reader.apply alloc call).1 (outcomes ++ [(reader.apply alloc call).2]) :=
      ⟨hsteps.consumed_le, hsteps.options ▸ h.options, hmoved.cut h.cut⟩
    have hrun := ih hnext
    rwa [List.append_assoc] at hrun

theorem extractAll_of_cut {data rest : List UInt8} {extracted : List (List UInt8)}
    (h : Cut (packetFramer maxPacketDataSize) data extracted rest)
    (hstuck : Cut.Stuck (packetFramer maxPacketDataSize) rest) :
    PacketExtractor.extractAll maxPacketDataSize data 0 =
      (extracted, extractResult rest (packetFront maxPacketDataSize rest)) := by
  obtain ⟨rest', hcut, hstuck', hresult⟩ := PacketExtractor.extractAll_cut maxPacketDataSize data 0
  obtain ⟨heq, rfl⟩ := hcut.eq_of_stuck hstuck' h hstuck
  exact Prod.ext heq hresult

theorem Framed.exists_later (h : Framed maxPacketDataSize reader outcomes) : ∃ later rest,
    PacketExtractor.extractAll maxPacketDataSize (stream outcomes) 0 =
      (packets outcomes ++ later, extractResult rest (packetFront maxPacketDataSize rest)) ∧
    Cut (packetFramer maxPacketDataSize) reader.unread later rest ∧
      Cut.Stuck (packetFramer maxPacketDataSize) rest := by
  obtain ⟨rest, hcut, hstuck, hresult⟩ := PacketExtractor.extractAll_cut maxPacketDataSize (stream outcomes) 0
  obtain ⟨later, hlater, hrest⟩ := h.cut.exists_of_stuck hcut hstuck
  exact ⟨later, rest, Prod.ext hlater hresult, hrest, hstuck⟩

theorem Framed.next (h : Framed maxPacketDataSize reader outcomes) : (reader.apply alloc .tryExtractNextPacket).2 =
    .extracted (extractResult reader.unread (packetFront maxPacketDataSize reader.unread)) := by
  rw [apply_tryExtractNextPacket, h.options]

theorem Framed.drain {later : List (List UInt8)} {rest : List UInt8} (h : Framed maxPacketDataSize reader outcomes)
    (hcut : Cut (packetFramer maxPacketDataSize) reader.unread later rest)
    (hstuck : Cut.Stuck (packetFramer maxPacketDataSize) rest) {m : Nat} (hm : later.length ≤ m) :
    packets (reader.run alloc (List.replicate m .tryExtractNextPacket)).2 = later := by
  induction m generalizing reader outcomes later with
  | zero => rw [List.eq_nil_of_length_eq_zero (Nat.le_zero.1 hm)]; rfl
  | succ m ih =>
    rw [List.replicate_succ, run_cons]
    have hnext := h.next alloc
    have hframed := h.run alloc [.tryExtractNextPacket]
    have hunread : (reader.apply alloc .tryExtractNextPacket).1.unread =
        reader.unread.drop (extractSize (packetFront maxPacketDataSize reader.unread)) := by
      rw [apply_tryExtractNextPacket, h.options, unread, unread, List.drop_drop]
    cases hcut with
    | done =>
      have hnone : (reader.apply alloc .tryExtractNextPacket).2.packet = none := by
        rw [hnext]
        cases hfront : packetFront maxPacketDataSize reader.unread with
        | more | bad => rfl
        | frame n => exact absurd hfront (hstuck n)
      have hsame : (reader.apply alloc .tryExtractNextPacket).1.unread = reader.unread := by
        rw [hunread]
        cases hfront : packetFront maxPacketDataSize reader.unread with
        | more | bad => rfl
        | frame n => exact absurd hfront (hstuck n)
      rw [packets, List.filterMap_cons_none hnone]
      exact ih hframed (hsame.symm ▸ .done _) (Nat.zero_le _)
    | @frame _ _ n _ hfront hcut =>
      have hfront : packetFront maxPacketDataSize reader.unread = .frame n := hfront
      have hpacket : (reader.apply alloc .tryExtractNextPacket).2.packet = some (reader.unread.take n) := by
        rw [hnext, hfront]
        rfl
      rw [hfront] at hunread
      rw [packets, List.filterMap_cons_some hpacket]
      rw [List.length_cons] at hm
      exact congrArg _ (ih hframed (hunread.symm ▸ hcut) (Nat.le_of_succ_le_succ hm))

theorem Framed.error (h : Framed maxPacketDataSize reader outcomes)
    (herror : packetFront maxPacketDataSize reader.unread = .bad) (later : List Call) :
    packets (outcomes ++ (reader.run alloc later).2) = packets outcomes ∧
      PacketExtractor.extractAll maxPacketDataSize (stream (outcomes ++ (reader.run alloc later).2)) 0 =
        (packets outcomes, .packetError) := by
  have hstream : stream (outcomes ++ (reader.run alloc later).2) =
      stream outcomes ++ stream (reader.run alloc later).2 := List.flatMap_append
  have hbad : packetFront maxPacketDataSize (reader.unread ++ stream (reader.run alloc later).2) = .bad :=
    @Framer.front_append_of_bad _ (packetFramer maxPacketDataSize) _ herror _
  have hstuck : Cut.Stuck (packetFramer maxPacketDataSize) (reader.unread ++ stream (reader.run alloc later).2) := by
    intro n hframe
    cases hbad.symm.trans hframe
  have hwhole := extractAll_of_cut (h.cut.append _) hstuck
  rw [← hstream, hbad] at hwhole
  refine ⟨?_, hwhole⟩
  obtain ⟨left, _, hlater, -, -⟩ := (h.run alloc later).exists_later
  rw [hwhole, Prod.mk.injEq] at hlater
  have hpackets : packets (outcomes ++ (reader.run alloc later).2) =
      packets outcomes ++ packets (reader.run alloc later).2 := List.filterMap_append
  have hnil : packets outcomes ++ (packets (reader.run alloc later).2 ++ left) = packets outcomes ++ [] := by
    rw [← List.append_assoc, ← hpackets, ← hlater.1, List.append_nil]
  have hnil := List.append_cancel_left hnil
  rw [hpackets, (List.append_eq_nil_iff.1 hnil).1, List.append_nil]

/-- Whatever the calls are, the packets are those of the stream at once: the packets that the headers name one after
another, before the first header that is not valid. -/
theorem run_as_whole (options : PacketSocketOptions) (calls : List Call) :
    let reader := ((init alloc options).run alloc calls).1
    let outcomes := ((init alloc options).run alloc calls).2
    let whole := PacketExtractor.extractAll options.maxPacketDataSize (stream outcomes) 0
    (∃ rest, PacketExtractor.Splits options.maxPacketDataSize (stream outcomes) whole.1 whole.2 rest) ∧
      (packets outcomes).flatten <+: stream outcomes ∧ packets outcomes <+: whole.1 ∧
      (reader.apply alloc .tryExtractNextPacket).2 =
        .extracted (whole.1[(packets outcomes).length]?.elim whole.2 .success) ∧
      (∃ n, ∀ m, n ≤ m →
        packets (outcomes ++ (reader.run alloc (List.replicate m .tryExtractNextPacket)).2) = whole.1) ∧
      ((reader.apply alloc .tryExtractNextPacket).2 = .extracted .packetError → ∀ later,
        packets (outcomes ++ (reader.run alloc later).2) = packets outcomes ∧
          PacketExtractor.extractAll options.maxPacketDataSize (stream (outcomes ++ (reader.run alloc later).2)) 0 =
            (packets outcomes, .packetError)) := by
  intro reader outcomes whole
  have hframed := (framed_init alloc options).run alloc calls
  rw [List.nil_append] at hframed
  obtain ⟨later, rest, hwhole, hcut, hstuck⟩ := hframed.exists_later
  refine ⟨PacketExtractor.splits_extractAll _ _, ⟨_, hframed.cut.flatten_append⟩,
    ⟨later, (congrArg Prod.fst hwhole).symm⟩, ?_, ?_, fun herror => ?_⟩
  · change _ = Outcome.extracted ((PacketExtractor.extractAll _ _ 0).1[_]?.elim (PacketExtractor.extractAll _ _ 0).2 _)
    rw [hframed.next, hwhole]
    cases hcut with
    | done => rw [List.append_nil, List.getElem?_eq_none le_rfl]; rfl
    | frame hfront hcut =>
      have hfront : packetFront options.maxPacketDataSize reader.unread = .frame _ := hfront
      rw [List.getElem?_append_right le_rfl, Nat.sub_self, hfront]
      rfl
  · refine ⟨later.length, fun m hm => ?_⟩
    have hpackets := hframed.drain alloc hcut hstuck hm
    rw [packets, List.filterMap_append]
    exact (congrArg _ hpackets).trans (congrArg Prod.fst hwhole).symm
  · rw [hframed.next] at herror
    refine hframed.error alloc ?_
    cases hfront : packetFront options.maxPacketDataSize reader.unread with
    | bad => rfl
    | more | frame n =>
      rw [hfront] at herror
      cases herror

def exactAllocation : Allocation := ⟨fun _ size => size, fun _ _ => le_rfl, id, fun _ => le_rfl⟩

def sampleCalls : List Call :=
  [.appendCommit [9, 0, 0], .tryExtractNextPacket, .appendCommit [0, 1, 2, 3, 4], .tryExtractNextPacket,
    .appendCommit [5, 7, 0, 0], .tryExtractNextPacket, .consume, .appendCommit [0, 6, 6, 6, 6]]

/-- A packet of nine bytes comes in three chunks, and the next header, with a size of seven bytes, in two. -/
theorem run_as_whole_sample :
    packets ((init exactAllocation ⟨16, 0, 100⟩).run exactAllocation sampleCalls).2 = [[9, 0, 0, 0, 1, 2, 3, 4, 5]] ∧
      packets (((init exactAllocation ⟨16, 0, 100⟩).run exactAllocation sampleCalls).2 ++
        (((init exactAllocation ⟨16, 0, 100⟩).run exactAllocation sampleCalls).1.run exactAllocation
          [.append 1, .tryExtractNextPacket]).2) = [[9, 0, 0, 0, 1, 2, 3, 4, 5]] := by
  have hpackets : packets ((init exactAllocation ⟨16, 0, 100⟩).run exactAllocation sampleCalls).2 =
      [[9, 0, 0, 0, 1, 2, 3, 4, 5]] := rfl
  refine ⟨hpackets, ?_⟩
  have herror := (run_as_whole exactAllocation ⟨16, 0, 100⟩ sampleCalls).2.2.2.2.2 rfl
  exact (herror [.append 1, .tryExtractNextPacket]).1.trans hpackets

end PacketReader
end Catapult.Ionet
