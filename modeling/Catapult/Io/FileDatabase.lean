import Catapult.Lib.SlotFile
import Mathlib.Logic.Function.Basic

/-!
# File database (`FileDatabase`)

Payloads are stored by their ids, a batch of them in each file. A file starts with the offsets of its payloads, except
when there is one payload in a file.
-/

namespace Catapult.Io

inductive FileError where
  /-- "couldn't open the file" -/
  | notOpened
  /-- "couldn't seek past end of file" -/
  | seekOutside
  /-- "cannot read payload at … that has not been written" -/
  | notWritten (id : Nat)
  /-- "InputStreamSlice invalid read" and "couldn't read from file" -/
  | invalidRead
  /-- "storage file has invalid size" -/
  | invalidSize
  deriving DecidableEq

/-- The constructor refuses a batch size of zero. Files are found by the smallest id in them. -/
structure FileDatabase (batchSize : Nat) where
  files : Nat → Option (SlotFile UInt8) := fun _ => none
  batchSize_pos : 0 < batchSize

namespace FileDatabase
variable {batchSize : Nat}

/-- There is no header when the batch size is one. -/
def bypassHeader (batchSize : Nat) : Bool := decide (batchSize = 1)

def groupId (batchSize id : Nat) : Nat := id / batchSize * batchSize

def slot (batchSize id : Nat) : Nat := id % batchSize

def contains (db : FileDatabase batchSize) (id : Nat) : Bool :=
  match db.files (groupId batchSize id) with
  | none => false
  | some file => bypassHeader batchSize || decide (file.offset (slot batchSize id) ≠ 0)

/-- A payload extends to the end of the file when the next offset is not set. -/
def bodyEndOffset (batchSize id : Nat) (file : SlotFile UInt8) : Nat :=
  let nextOffset := if batchSize - 1 ≠ slot batchSize id then file.offset (slot batchSize id + 1) else 0
  if nextOffset = 0 then file.size else nextOffset

/-- All that can be read from the stream. A stream that ends before it starts, or after the end of the file, cannot be
read to its end. -/
def inputStream (db : FileDatabase batchSize) (id : Nat) : Except FileError (List UInt8) :=
  match db.files (groupId batchSize id) with
  | none => throw .notOpened
  | some file =>
    if bypassHeader batchSize then return file.body
    else
      let bodyStartOffset := file.offset (slot batchSize id)
      if bodyStartOffset = 0 then throw (.notWritten id)
      else if file.size < bodyStartOffset then throw .seekOutside
      else
        let bodyEndOffset := bodyEndOffset batchSize id file
        if bodyEndOffset < bodyStartOffset ∨ file.size < bodyEndOffset then throw .invalidRead
        else return file.slice bodyStartOffset bodyEndOffset

def outputStream (db : FileDatabase batchSize) (id : Nat) : Except FileError (SlotFile UInt8) :=
  if bypassHeader batchSize then return ⟨[], []⟩
  else
    match db.files (groupId batchSize id) with
    | none => return (SlotFile.ofSize batchSize).startAtEnd (slot batchSize id)
    | some file =>
      let bodyStartOffset := file.offset (slot batchSize id)
      if bodyStartOffset = 0 then return file.startAtEnd (slot batchSize id)
      else if file.size < bodyStartOffset then throw .seekOutside
      else return ((file.truncate bodyStartOffset).clearFrom (slot batchSize id)).startAtEnd (slot batchSize id)

def write (db : FileDatabase batchSize) (id : Nat) (payload : List UInt8) :
    Except FileError (FileDatabase batchSize) := do
  let file ← db.outputStream id
  return { db with files := Function.update db.files (groupId batchSize id) (some (file.append payload)) }

end FileDatabase

/-! ## What a database shows -/

abbrev Contents := Nat → Option (List UInt8)

namespace Contents

/-- The payloads with `n` ids from `first` on. -/
def slots (c : Contents) (first n : Nat) : List (Option (List UInt8)) := (List.range' first n).map c

/-- A payload is written, and payloads with later ids in the same file are removed. -/
def write (batchSize : Nat) (c : Contents) (id : Nat) (payload : List UInt8) : Contents := fun j =>
  if j = id then some payload else if id < j ∧ j / batchSize = id / batchSize then none else c j

def Last (batchSize : Nat) (c : Contents) (id : Nat) : Prop := ∀ j, id < j → j / batchSize = id / batchSize → c j = none

def Writable (batchSize : Nat) (c : Contents) (id : Nat) : Prop := c id ≠ none ∨ Last batchSize c id

def Readable (batchSize : Nat) (c : Contents) (id : Nat) : Prop :=
  ((id + 1) / batchSize = id / batchSize ∧ c (id + 1) ≠ none) ∨ Last batchSize c id

variable {batchSize : Nat} {c : Contents} {id : Nat} {payload : List UInt8}

@[simp]
theorem length_slots (c : Contents) (first n : Nat) : (c.slots first n).length = n := by simp [slots]

theorem write_self : c.write batchSize id payload id = some payload := if_pos rfl

theorem write_of_lt {j : Nat} (hlt : j < id) : c.write batchSize id payload j = c j := by
  rw [write, if_neg (by omega), if_neg (by omega)]

theorem write_of_ne {j : Nat} (hne : j / batchSize ≠ id / batchSize) : c.write batchSize id payload j = c j := by
  rw [write, if_neg (fun heq => hne (by rw [heq])), if_neg (fun h => hne h.2)]

theorem write_last : Last batchSize (c.write batchSize id payload) id := fun j hlt hsame => by
  rw [write, if_neg (by omega), if_pos ⟨hlt, hsame⟩]

theorem readable_of_next (hnext : c (id + 1) ≠ none) : Readable batchSize c id := by
  by_cases hsame : (id + 1) / batchSize = id / batchSize
  · exact .inl ⟨hsame, hnext⟩
  · refine .inr fun j hlt hj => absurd ?_ hsame
    have hle : (id + 1) / batchSize ≤ j / batchSize := Nat.div_le_div_right hlt
    have hge : id / batchSize ≤ (id + 1) / batchSize := Nat.div_le_div_right (Nat.le_succ id)
    omega

theorem slots_congr {c' : Contents} {first n : Nat} (h : ∀ j, first ≤ j → j < first + n → c j = c' j) :
    c.slots first n = c'.slots first n := by
  refine List.map_congr_left fun j hj => ?_
  obtain ⟨hle, hlt⟩ := List.mem_range'_1.1 hj
  exact h j hle hlt

theorem slots_eq_empty {first n : Nat} (h : ∀ j, first ≤ j → j < first + n → c j = none) :
    c.slots first n = List.replicate n none := by
  refine List.eq_replicate_iff.2 ⟨length_slots c first n, fun x hx => ?_⟩
  obtain ⟨j, hj, rfl⟩ := List.mem_map.1 hx
  obtain ⟨hle, hlt⟩ := List.mem_range'_1.1 hj
  exact h j hle hlt

end Contents

namespace FileDatabase
open Contents
variable {batchSize : Nat} {db : FileDatabase batchSize} {c : Contents} {id : Nat} {payload : List UInt8}

/-- A file without payloads need not exist. -/
structure Shows (db : FileDatabase batchSize) (c : Contents) : Prop where
  single : batchSize = 1 → ∀ id, db.files id = (c id).map fun payload => ⟨[], payload⟩
  batch : batchSize ≠ 1 → ∀ k, db.files (k * batchSize) = some (.ofSlots (c.slots (k * batchSize) batchSize)) ∨
    db.files (k * batchSize) = none ∧ c.slots (k * batchSize) batchSize = List.replicate batchSize none

theorem shows_empty (hempty : ∀ id, db.files id = none) : db.Shows fun _ => none :=
  ⟨fun _ id => hempty id, fun _ _ => .inr ⟨hempty _, slots_eq_empty fun _ _ _ => rfl⟩⟩

theorem groupId_add_slot (batchSize id : Nat) : groupId batchSize id + slot batchSize id = id :=
  Nat.div_add_mod' id batchSize

theorem slot_lt (hpos : 0 < batchSize) : slot batchSize id < batchSize := Nat.mod_lt id hpos

theorem div_eq_iff (hpos : 0 < batchSize) {j : Nat} : j / batchSize = id / batchSize ↔
    groupId batchSize id ≤ j ∧ j < groupId batchSize id + batchSize := by
  rw [groupId, Nat.div_eq_iff hpos]
  omega

theorem slots_split (hpos : 0 < batchSize) (c : Contents) (id : Nat) : c.slots (groupId batchSize id) batchSize =
    c.slots (groupId batchSize id) (slot batchSize id) ++
      c id :: c.slots (id + 1) (batchSize - slot batchSize id - 1) := by
  have hlt : slot batchSize id < batchSize := slot_lt hpos
  have hid := groupId_add_slot batchSize id
  obtain ⟨n, hn⟩ : ∃ n, batchSize - slot batchSize id - 1 = n := ⟨_, rfl⟩
  have hsize : batchSize = slot batchSize id + (n + 1) := by omega
  have hsplit : c.slots (groupId batchSize id) (slot batchSize id + (n + 1)) =
      c.slots (groupId batchSize id) (slot batchSize id) ++ c id :: c.slots (id + 1) n := by
    rw [slots, ← List.range'_append_1, List.map_append, hid, List.range'_succ]
    rfl
  rw [← hsize] at hsplit
  rw [hn, hsplit]

theorem slots_after (hpos : 0 < batchSize) (hlast : Last batchSize c id) :
    c.slots (id + 1) (batchSize - slot batchSize id - 1) = List.replicate (batchSize - slot batchSize id - 1) none := by
  have hlt : slot batchSize id < batchSize := slot_lt hpos
  have hid := groupId_add_slot batchSize id
  exact slots_eq_empty fun j hle hj => hlast j (by omega) ((div_eq_iff hpos).2 (by omega))

theorem slots_write (hpos : 0 < batchSize) (c : Contents) (id : Nat) (payload : List UInt8) :
    (c.write batchSize id payload).slots (groupId batchSize id) batchSize =
      c.slots (groupId batchSize id) (slot batchSize id) ++
        some payload :: List.replicate (batchSize - slot batchSize id - 1) none := by
  have hid := groupId_add_slot batchSize id
  rw [slots_split hpos, slots_after hpos write_last, write_self]
  congr 1
  exact slots_congr fun j _ hlt => write_of_lt (by omega)

theorem offset_eq_zero_iff (hpos : 0 < batchSize) (c : Contents) (id : Nat) :
    (SlotFile.ofSlots (c.slots (groupId batchSize id) batchSize)).offset (slot batchSize id) = 0 ↔ c id = none := by
  have hlength := length_slots c (groupId batchSize id) (slot batchSize id)
  rw [slots_split hpos]
  cases hc : c id with
  | none =>
    have hoffset := SlotFile.offset_ofSlots_none (c.slots (groupId batchSize id) (slot batchSize id))
      (c.slots (id + 1) (batchSize - slot batchSize id - 1))
    rw [hlength] at hoffset
    simp [hoffset]
  | some payload =>
    have hoffset := SlotFile.offset_ofSlots (c.slots (groupId batchSize id) (slot batchSize id))
      (c.slots (id + 1) (batchSize - slot batchSize id - 1)) payload
    rw [hlength] at hoffset
    simp [hoffset]

theorem files_single {db : FileDatabase 1} (hshows : db.Shows c) (id : Nat) :
    db.files (groupId 1 id) = (c id).map fun payload => ⟨[], payload⟩ := by
  rw [← hshows.single rfl, groupId, Nat.div_one, Nat.mul_one]

theorem contains_spec (hshows : db.Shows c) (id : Nat) : db.contains id = (c id).isSome := by
  have hpos := db.batchSize_pos
  by_cases hsingle : batchSize = 1
  · subst hsingle
    rw [contains, files_single hshows]
    cases c id <;> rfl
  · have hbypass : bypassHeader batchSize = false := decide_eq_false hsingle
    have hoffset := offset_eq_zero_iff hpos c id
    rw [contains]
    rcases hshows.batch hsingle (id / batchSize) with hfile | ⟨hfile, hempty⟩
    · rw [groupId, hfile]
      rw [groupId] at hoffset
      simp only [hbypass, Bool.false_or, ne_eq, hoffset]
      cases c id <;> simp
    · have hmem : c id ∈ c.slots (groupId batchSize id) batchSize := by
        rw [slots_split hpos]
        simp
      rw [groupId, hempty] at hmem
      rw [groupId, hfile, List.eq_of_mem_replicate hmem]
      rfl

theorem outputStream_spec (hsingle : batchSize ≠ 1) (hshows : db.Shows c) (hwritable : Writable batchSize c id)
    (payload : List UInt8) : ∃ file, db.outputStream id = .ok file ∧
      file.append payload = .ofSlots ((c.write batchSize id payload).slots (groupId batchSize id) batchSize) := by
  have hpos := db.batchSize_pos
  have hbypass : bypassHeader batchSize = false := decide_eq_false hsingle
  have hoffset := offset_eq_zero_iff hpos c id
  have hlt : slot batchSize id < batchSize := slot_lt hpos
  -- nothing is stored from the slot on
  have hstart : ∀ file : SlotFile UInt8, file = .ofSlots (c.slots (groupId batchSize id) (slot batchSize id) ++
      List.replicate (batchSize - slot batchSize id - 1 + 1) none) →
        (file.startAtEnd (slot batchSize id)).append payload =
        .ofSlots ((c.write batchSize id payload).slots (groupId batchSize id) batchSize) := by
    rintro file rfl
    have happend := SlotFile.append_ofSlots (c.slots (groupId batchSize id) (slot batchSize id))
      (batchSize - slot batchSize id - 1) payload
    rw [length_slots] at happend
    rw [happend, slots_write hpos]
  have hsplit := slots_split hpos c id
  rw [outputStream, hbypass]
  simp only [Bool.false_eq_true, if_false]
  rcases hshows.batch hsingle (id / batchSize) with hfile | ⟨hfile, hempty⟩
  · rw [← groupId] at hfile
    rw [hfile]
    simp only
    by_cases hnone : c id = none
    · rw [if_pos (hoffset.2 hnone)]
      refine ⟨_, rfl, hstart _ ?_⟩
      rw [hsplit, hnone, slots_after hpos (hwritable.resolve_left fun h => h hnone), List.replicate_succ]
    · obtain ⟨old, hold⟩ := Option.ne_none_iff_exists'.1 hnone
      have hseek : (SlotFile.ofSlots (c.slots (groupId batchSize id) batchSize)).offset (slot batchSize id) ≤
          (SlotFile.ofSlots (c.slots (groupId batchSize id) batchSize)).size := by
        have hle := SlotFile.offset_add_length_le (c.slots (groupId batchSize id) (slot batchSize id))
          (c.slots (id + 1) (batchSize - slot batchSize id - 1)) old
        rw [length_slots] at hle
        rw [hsplit, hold]
        omega
      rw [if_neg fun h => hnone (hoffset.1 h), if_neg (by omega)]
      refine ⟨_, rfl, hstart _ ?_⟩
      have htruncate := SlotFile.truncate_ofSlots (c.slots (groupId batchSize id) (slot batchSize id))
        (c.slots (id + 1) (batchSize - slot batchSize id - 1)) old
      rw [length_slots, length_slots] at htruncate
      rw [hsplit, hold, htruncate]
  · rw [← groupId] at hfile hempty
    rw [hfile]
    refine ⟨_, rfl, hstart _ ?_⟩
    have hbefore : c.slots (groupId batchSize id) (slot batchSize id) = List.replicate (slot batchSize id) none := by
      have htake := congrArg (List.take (slot batchSize id)) hempty
      rw [hsplit, List.take_left' (length_slots _ _ _), List.take_replicate] at htake
      rw [htake]
      congr 1
      omega
    rw [hbefore, List.replicate_append_replicate, ← SlotFile.ofSlots_empty]
    congr 2
    omega

theorem write_spec (hshows : db.Shows c) (hwritable : Writable batchSize c id) (payload : List UInt8) :
    ∃ db', db.write id payload = .ok db' ∧ db'.Shows (c.write batchSize id payload) := by
  have hpos := db.batchSize_pos
  by_cases hsingle : batchSize = 1
  · subst hsingle
    refine ⟨_, rfl, fun _ j => ?_, fun hne => absurd rfl hne⟩
    have hgroup : groupId 1 id = id := by simp [groupId]
    rw [hgroup]
    by_cases hj : j = id
    · subst hj
      simp only
      rw [Function.update_self, write_self]
      rfl
    · simp only
      rw [Function.update_of_ne hj, hshows.single rfl, write_of_ne (by rwa [Nat.div_one, Nat.div_one])]
  · obtain ⟨file, hok, hfile⟩ := outputStream_spec hsingle hshows hwritable payload
    refine ⟨_, by rw [write, hok]; rfl, fun heq => absurd heq hsingle, fun _ k => ?_⟩
    by_cases hk : k = id / batchSize
    · subst hk
      left
      simp only
      rw [← groupId, Function.update_self, hfile]
    · have hgroup : k * batchSize ≠ groupId batchSize id := fun heq =>
        hk (Nat.eq_of_mul_eq_mul_right hpos heq)
      have hsame : (c.write batchSize id payload).slots (k * batchSize) batchSize =
        c.slots (k * batchSize) batchSize := by
        refine slots_congr fun j hle hlt => write_of_ne fun heq => hk ?_
        rw [← heq]
        exact ((Nat.div_eq_iff hpos).2 (by omega)).symm
      simp only
      rw [Function.update_of_ne hgroup, hsame]
      exact hshows.batch hsingle k

theorem bodyEndOffset_eq (hpos : 0 < batchSize) (hpayload : c id = some payload) (hreadable : Readable batchSize c id) :
    bodyEndOffset batchSize id (.ofSlots (c.slots (groupId batchSize id) batchSize)) =
      (SlotFile.ofSlots (c.slots (groupId batchSize id) batchSize)).offset (slot batchSize id) + payload.length := by
  have hlt : slot batchSize id < batchSize := slot_lt hpos
  have hid := groupId_add_slot batchSize id
  obtain ⟨hnext, hend⟩ := SlotFile.offset_add_length (c.slots (groupId batchSize id) (slot batchSize id))
    (c.slots (id + 1) (batchSize - slot batchSize id - 1)) payload
  simp only [length_slots, ← hpayload, ← slots_split hpos] at hnext hend
  rw [bodyEndOffset]
  rcases hreadable with ⟨hsame, hne⟩ | hlast
  · obtain ⟨next, hnextPayload⟩ := Option.ne_none_iff_exists'.1 hne
    have hslot : slot batchSize id + 1 < batchSize := by
      have hbound := ((div_eq_iff hpos).1 hsame).2
      omega
    obtain ⟨n, hn⟩ : ∃ n, batchSize - slot batchSize id - 1 = n + 1 := ⟨batchSize - slot batchSize id - 2, by omega⟩
    have hafter : c.slots (id + 1) (batchSize - slot batchSize id - 1) = some next :: c.slots (id + 2) n := by
      rw [hn, slots, List.range'_succ, List.map_cons, hnextPayload]
      rfl
    have hstart : (SlotFile.ofSlots (c.slots (groupId batchSize id) batchSize)).offset (slot batchSize id) ≠ 0 :=
      fun hzero => by simp [(offset_eq_zero_iff hpos c id).1 hzero] at hpayload
    have hnotLast : batchSize - 1 ≠ slot batchSize id := by omega
    rw [if_pos hnotLast, hnext _ _ hafter, if_neg (by omega)]
  · have hafter := slots_after hpos hlast
    have hsize := hend hafter
    have hzero : (if batchSize - 1 ≠ slot batchSize id then
        (SlotFile.ofSlots (c.slots (groupId batchSize id) batchSize)).offset (slot batchSize id + 1) else 0) = 0 := by
      split
      · rename_i hslot
        have hnextId : slot batchSize (id + 1) = slot batchSize id + 1 ∧
          groupId batchSize (id + 1) = groupId batchSize id := by
          have hdiv : (id + 1) / batchSize = id / batchSize := (div_eq_iff hpos).2 (by omega)
          have hid' := groupId_add_slot batchSize (id + 1)
          rw [groupId, hdiv, ← groupId] at hid'
          exact ⟨by omega, by rw [groupId, hdiv, groupId]⟩
        rw [← hnextId.1, ← hnextId.2]
        refine (offset_eq_zero_iff hpos c (id + 1)).2 (hlast (id + 1) (by omega) ((div_eq_iff hpos).2 (by omega)))
      · rfl
    simp only [hzero, if_true, hsize]

theorem inputStream_spec (hshows : db.Shows c) (hpayload : c id = some payload) (hreadable : Readable batchSize c id) :
    db.inputStream id = .ok payload := by
  have hpos := db.batchSize_pos
  by_cases hsingle : batchSize = 1
  · subst hsingle
    rw [inputStream, files_single hshows, hpayload]
    rfl
  have hbypass : bypassHeader batchSize = false := decide_eq_false hsingle
  have hfile : db.files (groupId batchSize id) = some (.ofSlots (c.slots (groupId batchSize id) batchSize)) := by
    refine (hshows.batch hsingle (id / batchSize)).resolve_right fun ⟨_, hempty⟩ => ?_
    have hmem : c id ∈ c.slots (groupId batchSize id) batchSize := by
      rw [slots_split hpos]
      simp
    rw [groupId, hempty, hpayload] at hmem
    cases List.eq_of_mem_replicate hmem
  have hle := SlotFile.offset_add_length_le (c.slots (groupId batchSize id) (slot batchSize id))
    (c.slots (id + 1) (batchSize - slot batchSize id - 1)) payload
  have hslice := SlotFile.slice_ofSlots (c.slots (groupId batchSize id) (slot batchSize id))
    (c.slots (id + 1) (batchSize - slot batchSize id - 1)) payload
  rw [length_slots, ← hpayload, ← slots_split hpos] at hle hslice
  have hstart : (SlotFile.ofSlots (c.slots (groupId batchSize id) batchSize)).offset (slot batchSize id) ≠ 0 :=
    fun hzero => by simp [(offset_eq_zero_iff hpos c id).1 hzero] at hpayload
  rw [inputStream, hfile]
  simp only [hbypass, Bool.false_eq_true, if_false]
  rw [if_neg hstart, if_neg (by omega), bodyEndOffset_eq hpos hpayload hreadable, if_neg (by omega), hslice]
  rfl

end FileDatabase
end Catapult.Io
