import Mathlib.Data.List.GetD

/-!
# Files with a table of offsets

A file holds the payloads of some slots one after another, and a table in front of them with the offset at which the
payload of each slot starts. The end of a payload is not stored: it is the start of the payload in the next slot, or
the end of the file. A payload is written at the end of the file; when its slot was written before, the file is first
truncated where the old payload starts.
-/

/-- An offset takes eight places in front of the payloads; the offset of an empty slot is zero. -/
structure SlotFile (α : Type) where
  header : List Nat
  body : List α
  deriving DecidableEq

namespace SlotFile
variable {α : Type}

def headerSize (file : SlotFile α) : Nat := 8 * file.header.length

def size (file : SlotFile α) : Nat := file.headerSize + file.body.length

def ofSize (n : Nat) : SlotFile α := ⟨List.replicate n 0, []⟩

def offset (slot : Nat) (file : SlotFile α) : Nat := file.header.getD slot 0

def truncate (position : Nat) (file : SlotFile α) : SlotFile α :=
  { file with body := file.body.take (position - file.headerSize) }

def clearFrom (slot : Nat) (file : SlotFile α) : SlotFile α :=
  { file with header := file.header.take slot ++ List.replicate (file.header.length - slot) 0 }

def startAtEnd (slot : Nat) (file : SlotFile α) : SlotFile α :=
  { file with header := file.header.set slot file.size }

def append (payload : List α) (file : SlotFile α) : SlotFile α := { file with body := file.body ++ payload }

def slice (first last : Nat) (file : SlotFile α) : List α :=
  (file.body.drop (first - file.headerSize)).take (last - first)

/-! ## Contents of the slots -/

def payloads (slots : List (Option (List α))) : List α := slots.flatMap fun payload => payload.getD []

/-- The offsets of the payloads when the first of them starts at `position`. -/
def offsets (position : Nat) : List (Option (List α)) → List Nat
  | [] => []
  | none :: slots => 0 :: offsets position slots
  | some payload :: slots => position :: offsets (position + payload.length) slots

def ofSlots (slots : List (Option (List α))) : SlotFile α := ⟨offsets (8 * slots.length) slots, payloads slots⟩

section Contents
variable {slots rest : List (Option (List α))} {payload : List α} {slot n position : Nat}

@[simp]
theorem length_offsets (position : Nat) (slots : List (Option (List α))) :
    (offsets position slots).length = slots.length := by
  induction slots generalizing position with
  | nil => rfl
  | cons s slots ih => cases s <;> simp [offsets, ih]

@[simp]
theorem headerSize_ofSlots (slots : List (Option (List α))) : (ofSlots slots).headerSize = 8 * slots.length := by
  simp [headerSize, ofSlots]

theorem payloads_append (slots rest : List (Option (List α))) :
    payloads (slots ++ rest) = payloads slots ++ payloads rest := List.flatMap_append

@[simp]
theorem payloads_empty (n : Nat) : payloads (List.replicate n (none : Option (List α))) = [] := by
  simp [payloads]

theorem offsets_append (position : Nat) (slots rest : List (Option (List α))) :
    offsets position (slots ++ rest) = offsets position slots ++ offsets (position + (payloads slots).length) rest := by
  induction slots generalizing position with
  | nil => simp [offsets, payloads]
  | cons s slots ih =>
    cases s with
    | none => simpa [offsets, payloads] using ih position
    | some payload =>
      simp only [List.cons_append, offsets, ih, payloads, List.flatMap_cons, Option.getD_some, List.length_append]
      rw [Nat.add_assoc]

@[simp]
theorem offsets_empty (position n : Nat) :
    offsets position (List.replicate n (none : Option (List α))) = List.replicate n 0 := by
  induction n with
  | zero => rfl
  | succ n ih => rw [List.replicate_succ, offsets, ih, List.replicate_succ]

theorem ofSlots_empty (n : Nat) : ofSlots (List.replicate n (none : Option (List α))) = ofSize n := by
  rw [ofSlots, offsets_empty, payloads_empty, ofSize]

theorem offset_ofSlots (slots rest : List (Option (List α))) (payload : List α) :
    (ofSlots (slots ++ some payload :: rest)).offset slots.length =
      8 * (slots ++ some payload :: rest).length + (payloads slots).length := by
  have hlength := length_offsets (8 * (slots ++ some payload :: rest).length) slots
  rw [offset, ofSlots, offsets_append, List.getD_append_right _ _ _ _ (Nat.le_of_eq hlength), hlength, Nat.sub_self]
  rfl

theorem offset_ofSlots_none (slots rest : List (Option (List α))) :
    (ofSlots (slots ++ none :: rest)).offset slots.length = 0 := by
  have hlength := length_offsets (8 * (slots ++ none :: rest).length) slots
  rw [offset, ofSlots, offsets_append, List.getD_append_right _ _ _ _ (Nat.le_of_eq hlength), hlength, Nat.sub_self]
  rfl

theorem truncate_ofSlots (slots rest : List (Option (List α))) (payload : List α) :
    ((ofSlots (slots ++ some payload :: rest)).truncate
      ((ofSlots (slots ++ some payload :: rest)).offset slots.length)).clearFrom slots.length =
        ofSlots (slots ++ List.replicate (rest.length + 1) none) := by
  have hlengths : (slots ++ some payload :: rest).length =
      (slots ++ List.replicate (rest.length + 1) (none : Option (List α))).length := by simp
  rw [offset_ofSlots, truncate, headerSize_ofSlots, Nat.add_sub_cancel_left, clearFrom, ofSlots, ofSlots]
  simp only [length_offsets, SlotFile.mk.injEq]
  constructor
  · rw [hlengths, offsets_append, offsets_append, offsets_empty, List.take_left' (length_offsets _ _)]
    simp
  · rw [payloads_append, payloads_append, payloads_empty, List.append_nil, List.take_left]

theorem append_ofSlots (slots : List (Option (List α))) (n : Nat) (payload : List α) :
    ((ofSlots (slots ++ List.replicate (n + 1) none)).startAtEnd slots.length).append payload =
      ofSlots (slots ++ some payload :: List.replicate n none) := by
  have hlengths : (slots ++ List.replicate (n + 1) (none : Option (List α))).length =
      (slots ++ some payload :: List.replicate n none).length := by simp
  have hset : ∀ (l : List Nat) (x : Nat), l.length = slots.length →
      (l ++ List.replicate (n + 1) 0).set slots.length x = l ++ x :: List.replicate n 0 := by
    intro l x hl
    rw [← hl, List.set_append_right _ _ (Nat.le_refl _), Nat.sub_self]
    rfl
  simp only [append, startAtEnd, size, headerSize_ofSlots]
  simp only [ofSlots, SlotFile.mk.injEq]
  constructor
  · rw [offsets_append, offsets_append, offsets_empty, offsets, offsets_empty, hset _ _ (length_offsets _ _), hlengths,
      payloads_append, payloads_empty, List.append_nil]
  · rw [payloads_append, payloads_append, payloads_empty, List.append_nil, payloads, payloads, List.flatMap_cons]
    simp

theorem slice_ofSlots (slots rest : List (Option (List α))) (payload : List α) :
    (ofSlots (slots ++ some payload :: rest)).slice ((ofSlots (slots ++ some payload :: rest)).offset slots.length)
      ((ofSlots (slots ++ some payload :: rest)).offset slots.length + payload.length) = payload := by
  rw [slice, offset_ofSlots, headerSize_ofSlots, Nat.add_sub_cancel_left, Nat.add_sub_cancel_left]
  simp only [ofSlots]
  rw [payloads_append, List.drop_left, payloads, List.flatMap_cons, Option.getD_some, List.take_left]

theorem size_ofSlots (slots : List (Option (List α))) :
    (ofSlots slots).size = 8 * slots.length + (payloads slots).length := by
  rw [size, headerSize_ofSlots]
  rfl

theorem offset_add_length_le (slots rest : List (Option (List α))) (payload : List α) :
    (ofSlots (slots ++ some payload :: rest)).offset slots.length + payload.length ≤
      (ofSlots (slots ++ some payload :: rest)).size := by
  have hpayloads : payloads (slots ++ some payload :: rest) = payloads slots ++ (payload ++ payloads rest) := by
    rw [payloads_append]
    rfl
  rw [offset_ofSlots, size_ofSlots, hpayloads]
  simp only [List.length_append]
  omega

theorem offset_add_length (slots rest : List (Option (List α))) (payload : List α) :
    (∀ next rest', rest = some next :: rest' → (ofSlots (slots ++ some payload :: rest)).offset (slots.length + 1) =
      (ofSlots (slots ++ some payload :: rest)).offset slots.length + payload.length) ∧
    (rest = List.replicate rest.length none → (ofSlots (slots ++ some payload :: rest)).size =
      (ofSlots (slots ++ some payload :: rest)).offset slots.length + payload.length) := by
  constructor
  · rintro next rest' rfl
    have hsplit : slots ++ some payload :: some next :: rest' =
      (slots ++ [some payload]) ++ some next :: rest' := by simp
    have hlength : slots.length + 1 = (slots ++ [some payload]).length := by simp
    rw [offset_ofSlots, hsplit, hlength, offset_ofSlots, payloads_append]
    simp only [payloads, List.flatMap_cons, List.flatMap_nil, Option.getD_some, List.length_append, List.length_nil]
    omega
  · intro hrest
    rw [offset_ofSlots, size_ofSlots, payloads_append]
    have hnone : payloads (some payload :: rest) = payload := by
      rw [hrest]
      have hempty : (List.replicate rest.length (none : Option (List α))).flatMap (fun p => p.getD []) = [] :=
        payloads_empty rest.length
      rw [payloads, List.flatMap_cons, hempty, Option.getD_some, List.append_nil]
    have hlength : (payloads slots ++ payload).length = (payloads slots).length + payload.length := List.length_append
    rw [hnone, hlength, Nat.add_assoc]

end Contents
end SlotFile
