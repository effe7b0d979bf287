import Catapult.Ionet.EntitySize

/-!
# Entities that the end of a buffer cuts

An entity is cut when the size predicate comes to a field of it behind the end of the buffer: the size of a
transaction in it, a type, the payload size of an aggregate or a field that the size of a transaction follows from. All
before it is well formed then, and the entity claims more bytes than the buffer has.
-/

namespace Catapult.Ionet
open Io (transactionSize)

variable {registry : Nat → Option TransactionPlugin} {memory : Memory}
  {entitySize bufferEnd endPosition position : Nat}

/-- In a container, the size of an entity or the entity is cut, where the entities before it are valid. -/
inductive CutIn (memory : Memory) (entitySize : Nat) (cut valid : Nat → Prop) (bufferEnd endPosition : Nat) : Nat → Prop
  | size {position : Nat} (hroom : position + 4 ≤ endPosition) (hcut : bufferEnd < position + 4) :
    CutIn memory entitySize cut valid bufferEnd endPosition position
  | entity {position : Nat} (hroom : position + 4 ≤ endPosition)
    (hbuffer : IsEntityInBuffer memory entitySize endPosition position) (hcut : cut position) :
    CutIn memory entitySize cut valid bufferEnd endPosition position
  | later {position : Nat} (hroom : position + 4 ≤ endPosition)
    (hbuffer : IsEntityInBuffer memory entitySize endPosition position) (hvalid : valid position)
    (hcut : CutIn memory entitySize cut valid bufferEnd endPosition (advance memory endPosition position)) :
    CutIn memory entitySize cut valid bufferEnd endPosition position

def CutFields (layout : Layout) (memory : Memory) (bufferEnd position : Nat) : Prop :=
  layout.size ≤ sizeAt memory position ∧ bufferEnd < position + layout.fieldsEnd

def CutEmbedded (registry : Nat → Option TransactionPlugin) (memory : Memory) (bufferEnd position : Nat) : Prop :=
  bufferEnd < position + 4 ∨ embeddedTransactionSize ≤ sizeAt memory position ∧
    (bufferEnd < position + 48 ∨ ∃ layout,
      findEmbedded registry (readField memory (position + 46) 2).value = some layout ∧
      CutFields layout memory bufferEnd position)

def CutAggregate (registry : Nat → Option TransactionPlugin) (memory : Memory) (bufferEnd position : Nat) : Prop :=
  aggregateTransactionSize ≤ sizeAt memory position ∧
    (bufferEnd < position + 164 ∨ IsPayloadSizeValid memory position ∧
      CutIn memory embeddedTransactionSize (CutEmbedded registry memory bufferEnd)
        (fun p => (isEmbeddedSizeValid registry memory p).value) bufferEnd
        (position + aggregateTransactionSize + payloadSizeAt memory position) (position + aggregateTransactionSize))

def CutTransaction (registry : Nat → Option TransactionPlugin) (memory : Memory) (bufferEnd position : Nat) : Prop :=
  bufferEnd < position + 4 ∨ transactionSize ≤ sizeAt memory position ∧
    (bufferEnd < position + 112 ∨
      match registry (readField memory (position + 110) 2).value with
      | some .aggregate => CutAggregate registry memory bufferEnd position
      | some (.basic (some layout) _) => CutFields layout memory bufferEnd position
      | _ => False)

def CutBlock (registry : Nat → Option TransactionPlugin) (memory : Memory) (bufferEnd position : Nat) : Prop :=
  bufferEnd < position + 4 ∨ verifiableEntitySize ≤ sizeAt memory position ∧
    (bufferEnd < position + 112 ∨
      getBlockHeaderSize (readField memory (position + 110) 2).value ≤ sizeAt memory position ∧
      CutIn memory transactionSize (CutTransaction registry memory bufferEnd)
        (fun p => (isTransactionSizeValid registry memory p).value) bufferEnd (position + sizeAt memory position)
        (position + getBlockHeaderSize (readField memory (position + 110) 2).value))

theorem cutIn_iff {hsize : 0 < entitySize} {isValid : Nat → Reading Bool} {cut : Nat → Prop}
    (hcut : ∀ p, cut p ↔ bufferEnd < (isValid p).reach) :
    CutIn memory entitySize cut (fun p => (isValid p).value) bufferEnd endPosition position ↔
      bufferEnd < (areAllValid memory entitySize hsize isValid endPosition position).reach := by
  fun_induction areAllValid memory entitySize hsize isValid endPosition position with
  | case1 =>
    refine ⟨fun h => ?_, fun h => absurd h Reading.not_lt_reach_pure⟩
    cases h <;> omega
  | case2 position hne hroom =>
    refine ⟨fun h => ?_, fun h => absurd h Reading.not_lt_reach_pure⟩
    cases h <;> omega
  | case3 position hne hroom ih =>
    rw [Reading.lt_reach_bind, readField_reach]
    constructor
    · intro h
      cases h with
      | size hroom hcut => exact .inl hcut
      | entity hroom hbuffer h =>
        refine .inr ?_
        rw [dif_pos hbuffer, Reading.lt_reach_bind]
        exact .inl ((hcut position).1 h)
      | later hroom hbuffer hvalid h =>
        refine .inr ?_
        rw [dif_pos hbuffer, Reading.lt_reach_bind, if_pos hvalid]
        exact .inr ((ih hbuffer).1 h)
    · rintro (h | h)
      · exact .size (by omega) h
      · split at h
        · rename_i hbuffer
          rw [Reading.lt_reach_bind] at h
          rcases h with h | h
          · exact .entity (by omega) hbuffer ((hcut position).2 h)
          · split at h
            · rename_i hvalid
              exact .later (by omega) hbuffer hvalid ((ih hbuffer).2 h)
            · exact absurd h Reading.not_lt_reach_pure
        · exact absurd h Reading.not_lt_reach_pure

theorem cutFields_iff {layout : Layout} :
    CutFields layout memory bufferEnd position ↔ bufferEnd < (isSizeValidT layout memory position).reach := by
  unfold CutFields isSizeValidT
  rw [Reading.lt_reach_ite_pure, Nat.not_lt, Reading.lt_reach_bind]
  exact and_congr_right fun _ => (or_iff_left Reading.not_lt_reach_pure).symm

theorem cutEmbedded_iff :
    CutEmbedded registry memory bufferEnd position ↔
      bufferEnd < (isEmbeddedSizeValid registry memory position).reach := by
  unfold CutEmbedded isEmbeddedSizeValid
  rw [Reading.lt_reach_bind, readField_reach, Reading.lt_reach_ite_pure, Nat.not_lt, Reading.lt_reach_bind,
    readField_reach]
  refine or_congr_right (and_congr_right fun _ => or_congr_right ?_)
  cases findEmbedded registry (readField memory (position + 46) 2).value with
  | none => exact ⟨fun ⟨_, h, _⟩ => (nomatch h), fun h => absurd h Reading.not_lt_reach_pure⟩
  | some layout =>
    rw [← cutFields_iff]
    exact ⟨fun ⟨_, h, hcut⟩ => Option.some.inj h ▸ hcut, fun h => ⟨layout, rfl, h⟩⟩

theorem cutAggregate_iff :
    CutAggregate registry memory bufferEnd position ↔
      bufferEnd < (isAggregateSizeValid registry memory position).reach := by
  unfold CutAggregate isAggregateSizeValid
  rw [Reading.lt_reach_ite_pure, Nat.not_lt, Reading.lt_reach_bind, readField_reach, Reading.lt_reach_ite_pure_right]
  exact and_congr_right fun _ => or_congr_right (and_congr_right fun _ => cutIn_iff fun p => cutEmbedded_iff)

theorem cutTransaction_iff :
    CutTransaction registry memory bufferEnd position ↔
      bufferEnd < (isTransactionSizeValid registry memory position).reach := by
  unfold CutTransaction isTransactionSizeValid
  rw [Reading.lt_reach_bind, readField_reach, Reading.lt_reach_ite_pure, Nat.not_lt, Reading.lt_reach_bind,
    readField_reach]
  refine or_congr_right (and_congr_right fun _ => or_congr_right ?_)
  rcases registry (readField memory (position + 110) 2).value with - | ⟨- | layout, embedded⟩ | -
  · exact ⟨False.elim, fun h => absurd h Reading.not_lt_reach_pure⟩
  · exact ⟨False.elim, fun h => absurd h Reading.not_lt_reach_pure⟩
  · exact cutFields_iff
  · exact cutAggregate_iff

theorem cutBlock_iff :
    CutBlock registry memory bufferEnd position ↔ bufferEnd < (isBlockSizeValid registry memory position).reach := by
  unfold CutBlock isBlockSizeValid
  rw [Reading.lt_reach_bind, readField_reach, Reading.lt_reach_ite_pure, Nat.not_lt, Reading.lt_reach_bind,
    readField_reach, Reading.lt_reach_ite_pure, Nat.not_lt]
  exact or_congr_right (and_congr_right fun _ => or_congr_right (and_congr_right fun _ =>
    cutIn_iff fun p => cutTransaction_iff))

/-!
## `ExtractEntityOffsets` and `ContainsSingleEntity`

The size predicate is run on an entity before the size it claims is compared with the bytes that remain. The offsets
that are returned partition the buffer, and the loop ends, whatever the buffer holds; but no byte behind the buffer is
read only if the end of the buffer cuts no entity that the loop comes to.
-/

/-- The types of entities with predicates that walk through them. -/
inductive EntityKind where
  | block
  | transaction
  deriving DecidableEq

namespace EntityKind

/-- `sizeof(TEntity)`. -/
def size : EntityKind → Nat
  | block => blockHeaderSize
  | transaction => transactionSize

def isValid (registry : Nat → Option TransactionPlugin) (memory : Memory) : EntityKind → Nat → Reading Bool
  | block => isBlockSizeValid registry memory
  | transaction => isTransactionSizeValid registry memory

def Cut (registry : Nat → Option TransactionPlugin) (memory : Memory) (bufferSize : Nat) : EntityKind → Nat → Prop
  | block => CutBlock registry memory bufferSize
  | transaction => CutTransaction registry memory bufferSize

end EntityKind

/-- The loop, with the remaining bytes and the offsets so far. There is no result when it does not end in time. -/
def extractLoop (registry : Nat → Option TransactionPlugin) (kind : EntityKind) (memory : Memory) (bufferSize : Nat) :
    (fuel remainingBytes : Nat) → List Nat → Option (Reading (List Nat))
  | _, 0, offsets => some (pure offsets)
  | 0, _ + 1, _ => none
  | fuel + 1, remainingBytes + 1, offsets =>
    if remainingBytes + 1 < kind.size then some (pure [])
    else
      let offset := bufferSize - (remainingBytes + 1)
      let valid := kind.isValid registry memory offset
      if valid.value then
        let size := readField memory offset 4
        if remainingBytes + 1 < size.value then some (do let _ ← valid; let _ ← size; return [])
        else (extractLoop registry kind memory bufferSize fuel (remainingBytes + 1 - size.value)
          (offsets ++ [offset])).map fun rest => do let _ ← valid; let _ ← size; rest
      -- the size is read once more for the log
      else some (do let _ ← valid; let _ ← readField memory offset 4; return [])

def extractEntityOffsets (registry : Nat → Option TransactionPlugin) (kind : EntityKind) (memory : Memory)
    (bufferSize fuel : Nat) : Option (Reading (List Nat)) :=
  if bufferSize = 0 then some (pure [])
  else extractLoop registry kind memory bufferSize fuel bufferSize []

def containsSingleEntity (registry : Nat → Option TransactionPlugin) (kind : EntityKind) (memory : Memory)
    (bufferSize : Nat) : Reading Bool :=
  if bufferSize = 0 then return false
  else if bufferSize < kind.size then return false
  else do
    let valid ← kind.isValid registry memory 0
    let size ← readField memory 0 4
    if valid then return size = bufferSize
    else return false

/-- Each entity starts where the one before ends, and the last ends at the end. -/
def Partitions (memory : Memory) : Nat → List Nat → Nat → Prop
  | start, [], stop => start = stop
  | start, offset :: offsets, stop => offset = start ∧ Partitions memory (start + sizeAt memory offset) offsets stop

inductive Reached (registry : Nat → Option TransactionPlugin) (kind : EntityKind) (memory : Memory) (bufferSize : Nat) :
    Nat → Nat → Prop
  | here (offset : Nat) : Reached registry kind memory bufferSize offset offset
  | next {offset other : Nat} (hheader : offset + kind.size ≤ bufferSize)
    (hvalid : (kind.isValid registry memory offset).value) (hfits : offset + sizeAt memory offset ≤ bufferSize)
    (hnext : Reached registry kind memory bufferSize (offset + sizeAt memory offset) other) :
    Reached registry kind memory bufferSize offset other

/-- The parser ends, reads no byte behind the buffer, and finds entities that partition the buffer. -/
structure StaysInBuffer (registry : Nat → Option TransactionPlugin) (kind : EntityKind) (memory : Memory)
    (bufferSize : Nat) : Prop where
  extract : ∀ fuel, bufferSize ≤ fuel → ∃ result,
    extractEntityOffsets registry kind memory bufferSize fuel = some result ∧ result.reach ≤ bufferSize ∧
    (result.value ≠ [] → Partitions memory 0 result.value bufferSize)
  single : (containsSingleEntity registry kind memory bufferSize).reach ≤ bufferSize ∧
    ((containsSingleEntity registry kind memory bufferSize).value → sizeAt memory 0 = bufferSize)

variable {registry : Nat → Option TransactionPlugin} {kind : EntityKind} {memory : Memory}
  {bufferSize fuel offset : Nat}

namespace EntityKind

theorem four_le_size : 4 ≤ kind.size := by
  cases kind <;> decide

theorem cut_iff : kind.Cut registry memory bufferSize offset ↔
    bufferSize < (kind.isValid registry memory offset).reach := by
  cases kind with
  | block => exact cutBlock_iff
  | transaction => exact cutTransaction_iff

theorem sizeAt_pos (h : (kind.isValid registry memory offset).value) : 0 < sizeAt memory offset := by
  by_contra hnot
  have hzero : (readField memory offset 4).value = 0 := Nat.eq_zero_of_not_pos hnot
  cases kind with
  | block =>
    change (isBlockSizeValid registry memory offset).value = true at h
    unfold isBlockSizeValid at h
    rw [Reading.value_bind, hzero, if_pos (by decide)] at h
    cases h
  | transaction =>
    change (isTransactionSizeValid registry memory offset).value = true at h
    unfold isTransactionSizeValid at h
    rw [Reading.value_bind, hzero, if_pos (by decide)] at h
    cases h

end EntityKind

theorem Partitions.append {start stop : Nat} {offsets : List Nat} (h : Partitions memory start offsets stop) :
    Partitions memory start (offsets ++ [stop]) (stop + sizeAt memory stop) := by
  induction offsets generalizing start with
  | nil => exact ⟨h.symm, by rw [show start = stop from h]; rfl⟩
  | cons offset offsets ih => exact ⟨h.1, ih h.2⟩

theorem forall_reached {P : Nat → Prop} :
    (∀ other, Reached registry kind memory bufferSize offset other → P other) ↔
      P offset ∧ (offset + kind.size ≤ bufferSize → (kind.isValid registry memory offset).value →
        offset + sizeAt memory offset ≤ bufferSize →
        ∀ other, Reached registry kind memory bufferSize (offset + sizeAt memory offset) other → P other) := by
  constructor
  · intro h
    exact ⟨h offset (.here offset),
      fun hheader hvalid hfits other hother => h other (.next hheader hvalid hfits hother)⟩
  · rintro ⟨hhere, hnext⟩ other hother
    cases hother with
    | here => exact hhere
    | next hheader hvalid hfits hother => exact hnext hheader hvalid hfits other hother

/-- None of the entities that the loop comes to from an offset on is cut. -/
def NoneCut (registry : Nat → Option TransactionPlugin) (kind : EntityKind) (memory : Memory)
    (bufferSize offset : Nat) : Prop :=
  ∀ other, Reached registry kind memory bufferSize offset other → other + kind.size ≤ bufferSize →
    ¬kind.Cut registry memory bufferSize other

theorem noneCut_of_lt (h : bufferSize < offset + kind.size) : NoneCut registry kind memory bufferSize offset := by
  unfold NoneCut
  rw [forall_reached]
  exact ⟨fun hheader => absurd hheader (Nat.not_le.2 h), fun hheader => absurd hheader (Nat.not_le.2 h)⟩

theorem noneCut_iff (h : offset + kind.size ≤ bufferSize) : NoneCut registry kind memory bufferSize offset ↔
    (kind.isValid registry memory offset).reach ≤ bufferSize ∧
    ((kind.isValid registry memory offset).value → offset + sizeAt memory offset ≤ bufferSize →
      NoneCut registry kind memory bufferSize (offset + sizeAt memory offset)) := by
  unfold NoneCut
  rw [forall_reached]
  exact and_congr ⟨fun hcut => Nat.not_lt.1 (EntityKind.cut_iff.not.1 (hcut h)),
    fun hreach _ => EntityKind.cut_iff.not.2 (Nat.not_lt.2 hreach)⟩ ⟨fun hnext => hnext h, fun hnext _ => hnext⟩

/-- The loop by induction on the fuel: each round takes an entity that is not empty. -/
theorem extractLoop_spec {remainingBytes : Nat} {offsets : List Nat} (hfuel : remainingBytes ≤ fuel)
    (hle : remainingBytes ≤ bufferSize) (hoffsets : Partitions memory 0 offsets (bufferSize - remainingBytes)) :
    ∃ result, extractLoop registry kind memory bufferSize fuel remainingBytes offsets = some result ∧
      (result.value ≠ [] → Partitions memory 0 result.value bufferSize) ∧
      (result.reach ≤ bufferSize ↔ NoneCut registry kind memory bufferSize (bufferSize - remainingBytes)) := by
  have hpos := kind.four_le_size
  induction fuel generalizing remainingBytes offsets with
  | zero =>
    obtain rfl : remainingBytes = 0 := Nat.le_zero.1 hfuel
    exact ⟨pure offsets, rfl, fun _ => hoffsets, fun _ => noneCut_of_lt (by omega), fun _ => Nat.zero_le _⟩
  | succ fuel ih =>
    obtain _ | remainingBytes := remainingBytes
    · exact ⟨pure offsets, rfl, fun _ => hoffsets, fun _ => noneCut_of_lt (by omega), fun _ => Nat.zero_le _⟩
    unfold extractLoop
    by_cases hheader : remainingBytes + 1 < kind.size
    · rw [if_pos hheader]
      exact ⟨pure [], rfl, fun h => absurd rfl h, fun _ => noneCut_of_lt (by omega), fun _ => Nat.zero_le _⟩
    rw [if_neg hheader]
    dsimp only
    rw [noneCut_iff (by omega)]
    by_cases hvalid : (kind.isValid registry memory (bufferSize - (remainingBytes + 1))).value
    · rw [if_pos hvalid]
      by_cases hsize : remainingBytes + 1 < sizeAt memory (bufferSize - (remainingBytes + 1))
      · rw [if_pos (by exact hsize)]
        refine ⟨_, rfl, fun h => absurd rfl h, ?_⟩
        rw [Reading.reach_bind_le, Reading.reach_bind_le, readField_reach]
        exact ⟨fun h => ⟨h.1, fun _ hfits => absurd hfits (by omega)⟩, fun h => ⟨h.1, by omega, Nat.zero_le _⟩⟩
      · rw [if_neg (by exact hsize)]
        have hsizePos := EntityKind.sizeAt_pos hvalid
        have hnext : bufferSize - (remainingBytes + 1 - sizeAt memory (bufferSize - (remainingBytes + 1))) =
            bufferSize - (remainingBytes + 1) + sizeAt memory (bufferSize - (remainingBytes + 1)) := by omega
        obtain ⟨result, hresult, hpartitions, hreach⟩ :=
          @ih (remainingBytes + 1 - sizeAt memory (bufferSize - (remainingBytes + 1))) _
            (by omega) (by omega) (hnext ▸ hoffsets.append)
        rw [hnext] at hreach
        rw [readField_value_size, hresult]
        refine ⟨_, rfl, hpartitions, ?_⟩
        rw [Reading.reach_bind_le, Reading.reach_bind_le, readField_reach, hreach]
        exact ⟨fun h => ⟨h.1, fun _ _ => h.2.2⟩, fun h => ⟨h.1, by omega, h.2 hvalid (by omega)⟩⟩
    · rw [if_neg hvalid]
      refine ⟨_, rfl, fun h => absurd rfl h, ?_⟩
      rw [Reading.reach_bind_le, Reading.reach_bind_le, readField_reach]
      exact ⟨fun h => ⟨h.1, fun hval => absurd hval hvalid⟩, fun h => ⟨h.1, by omega, Nat.zero_le _⟩⟩

theorem extractEntityOffsets_spec (registry : Nat → Option TransactionPlugin) (kind : EntityKind) (memory : Memory)
    (hfuel : bufferSize ≤ fuel) :
    ∃ result, extractEntityOffsets registry kind memory bufferSize fuel = some result ∧
      (result.value ≠ [] → Partitions memory 0 result.value bufferSize) ∧
      (result.reach ≤ bufferSize ↔ NoneCut registry kind memory bufferSize 0) := by
  unfold extractEntityOffsets
  by_cases hzero : bufferSize = 0
  · have := kind.four_le_size
    rw [if_pos hzero]
    exact ⟨pure [], rfl, fun h => absurd rfl h, fun _ => noneCut_of_lt (by omega), fun _ => Nat.zero_le _⟩
  · obtain ⟨result, hresult, hpartitions, hreach⟩ := @extractLoop_spec registry kind memory bufferSize fuel
      bufferSize [] hfuel (Nat.le_refl bufferSize) (Nat.sub_self _).symm
    rw [Nat.sub_self] at hreach
    rw [if_neg hzero]
    exact ⟨result, hresult, hpartitions, hreach⟩

theorem containsSingleEntity_spec :
    ((containsSingleEntity registry kind memory bufferSize).value → sizeAt memory 0 = bufferSize) ∧
    ((containsSingleEntity registry kind memory bufferSize).reach ≤ bufferSize ↔
      (kind.size ≤ bufferSize → ¬kind.Cut registry memory bufferSize 0)) := by
  have hpos := kind.four_le_size
  unfold containsSingleEntity
  by_cases hzero : bufferSize = 0
  · rw [if_pos hzero]
    exact ⟨fun h => (nomatch h), fun _ hle => absurd hle (by omega), fun _ => Nat.zero_le _⟩
  rw [if_neg hzero]
  by_cases hheader : bufferSize < kind.size
  · rw [if_pos hheader]
    exact ⟨fun h => (nomatch h), fun _ hle => absurd hheader (Nat.not_lt.2 hle), fun _ => Nat.zero_le _⟩
  rw [if_neg hheader, EntityKind.cut_iff, Nat.not_lt, Reading.reach_bind_le, Reading.reach_bind_le, readField_reach,
    Reading.value_bind, Reading.value_bind]
  constructor
  · intro h
    split at h
    · exact of_decide_eq_true h
    · cases h
  · refine ⟨fun h _ => h.1, fun h => ⟨h (by omega), by omega, ?_⟩⟩
    split <;> exact Nat.zero_le _

/-- The parser stays in the buffer if and only if the end of the buffer cuts none of the entities it comes to. -/
theorem staysInBuffer_iff (registry : Nat → Option TransactionPlugin) (kind : EntityKind) (memory : Memory)
    (bufferSize : Nat) :
    StaysInBuffer registry kind memory bufferSize ↔
      ∀ offset, Reached registry kind memory bufferSize 0 offset → offset + kind.size ≤ bufferSize →
        ¬kind.Cut registry memory bufferSize offset := by
  constructor
  · intro h
    obtain ⟨result, hresult, hreach, -⟩ := h.extract bufferSize (Nat.le_refl _)
    obtain ⟨result', hresult', -, hiff⟩ := extractEntityOffsets_spec registry kind memory
      (Nat.le_refl bufferSize)
    rw [hresult] at hresult'
    cases hresult'
    exact hiff.1 hreach
  · intro h
    refine ⟨fun fuel hfuel => ?_, ?_, containsSingleEntity_spec.1⟩
    · obtain ⟨result, hresult, hpartitions, hiff⟩ := extractEntityOffsets_spec registry kind memory hfuel
      exact ⟨result, hresult, hiff.2 h, hpartitions⟩
    · exact containsSingleEntity_spec.2.2 fun hle => h 0 (.here 0) (by omega)

def truncatedBlock : Memory := fun i => [0xF8, 0x01].getD i 0 + [0x43, 0x81].getD (i - 110) 0 * if 110 ≤ i then 1 else 0

/-- The size of the first transaction is read behind the buffer. -/
theorem not_staysInBuffer_truncatedBlock : ¬StaysInBuffer (fun _ => none) .block truncatedBlock 376 := by
  intro h
  refine containsSingleEntity_spec.2.1 h.single.1 (by decide) ?_
  refine .inr ⟨by decide, .inr ⟨by decide, .size ?_ ?_⟩⟩
  · decide
  · decide

end Catapult.Ionet
