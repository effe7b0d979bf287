import Catapult.State.CompactMosaicMap

/-!
# Iterating the mosaics (`CompactMosaicMap::basic_iterator`)

An iterator walks through the three storages one after the other. It is `Placed` when it points to a mosaic or is at
the end, and then `rest` lists the mosaics from there on: an iterator that is advanced has the same list without its
head.
-/

namespace Catapult.State

namespace CompactMosaicMap

def hasArray (m : CompactMosaicMap) : Bool := m.next.isSome

def hasMap (m : CompactMosaicMap) : Bool := (m.next.bind SecondLevelStorage.map).isSome

def array (m : CompactMosaicMap) : List Mosaic := m.next.elim [] SecondLevelStorage.array

def map (m : CompactMosaicMap) : MosaicMap := (m.next.bind SecondLevelStorage.map).getD ∅

def empty (m : CompactMosaicMap) : Bool := !m.hasValue

inductive Stage where
  | start
  | value
  | array
  | map
  | atEnd
  deriving DecidableEq

/-- `mapIterator` is a position in the ordered map. -/
structure Iterator where
  stage : Stage
  arrayIndex : Nat := 0
  mapIterator : Nat := 0

namespace Iterator

def isEnd (iter : Iterator) : Bool := decide (iter.stage = .atEnd)

/-- Dereferencing at the end throws. -/
def current (m : CompactMosaicMap) (iter : Iterator) : Option Mosaic :=
  match iter.stage with
  | .value => some m.value
  | .array => m.array[iter.arrayIndex]?
  | .map => m.map.entries[iter.mapIterator]?
  | .start | .atEnd => none

def advance (m : CompactMosaicMap) (iter : Iterator) : Iterator :=
  match iter.stage with
  | .start => { iter with stage := if m.hasValue then .value else .atEnd }
  | .value => { iter with stage := if m.hasArray then .array else .atEnd, arrayIndex := 0 }
  | .array =>
    if iter.arrayIndex + 1 ≠ m.array.length then { iter with arrayIndex := iter.arrayIndex + 1 }
    else if !m.hasMap then { iter with stage := .atEnd, arrayIndex := iter.arrayIndex + 1 }
    else { stage := .map, arrayIndex := iter.arrayIndex + 1, mapIterator := 0 }
  | .map =>
    { iter with
      stage := if m.map.entries.length ≠ iter.mapIterator + 1 then .map else .atEnd
      mapIterator := iter.mapIterator + 1 }
  | .atEnd => iter

end Iterator

def begin (m : CompactMosaicMap) : Iterator := Iterator.advance m ⟨.start, 0, 0⟩

/-- The iterator to the mosaic that is found, or to the end. -/
def findIterator (m : CompactMosaicMap) (id : MosaicId) : Iterator :=
  match m.find id with
  | none => { stage := .atEnd }
  | some .value => { stage := .value }
  | some (.array index) => { stage := .array, arrayIndex := index }
  | some .map => { stage := .map, mapIterator := m.map.entries.findIdx fun e => decide (e.1 = id) }

/-! ## Places of an iterator -/

section Places
variable {m : CompactMosaicMap} {iter : Iterator}

theorem others_eq (m : CompactMosaicMap) : m.others = m.array ++ m.map.entries := by
  rw [others, array, map]
  cases m.next with
  | none => rfl
  | some storage =>
    rw [Option.elim_some, Option.elim_some, Option.bind_some, SecondLevelStorage.mosaics]
    cases storage.map <;> rfl

structure Compacted (m : CompactMosaicMap) : Prop where
  value : m.hasArray = true → m.hasValue = true
  array : m.hasArray = true → m.array ≠ []
  length : m.array.length ≤ arraySize
  map : m.hasMap = true → m.array.length = arraySize ∧ m.map.entries ≠ []

theorem Stored.compacted (hs : m.Stored) : m.Compacted := by
  obtain ⟨hnext, hempty, -, -⟩ := hs
  refine ⟨fun harray => ?_, fun harray => ?_, ?_, fun hmap => ?_⟩
  · cases hvalue : m.hasValue with
    | true => rfl
    | false => rw [hasArray, hempty hvalue] at harray; cases harray
  · obtain ⟨storage, hstorage⟩ := Option.isSome_iff_exists.1 harray
    obtain ⟨hfilled, hne⟩ := hnext storage hstorage
    rw [CompactMosaicMap.array, hstorage]
    exact hfilled.array_ne_nil hne
  · rw [CompactMosaicMap.array]
    cases hstorage : m.next with
    | none => exact Nat.zero_le _
    | some storage => exact (hnext storage hstorage).1.length_le
  · obtain ⟨map, hbind⟩ := Option.isSome_iff_exists.1 hmap
    obtain ⟨storage, hstorage, hmap⟩ := Option.bind_eq_some_iff.1 hbind
    rw [CompactMosaicMap.array, CompactMosaicMap.map, hbind, hstorage]
    exact (hnext storage hstorage).1.map map hmap

namespace Iterator

def rest (m : CompactMosaicMap) (iter : Iterator) : List Mosaic :=
  match iter.stage with
  | .start => m.mosaics
  | .value => m.value :: m.others
  | .array => m.array.drop iter.arrayIndex ++ m.map.entries
  | .map => m.map.entries.drop iter.mapIterator
  | .atEnd => []

def Placed (m : CompactMosaicMap) (iter : Iterator) : Prop :=
  match iter.stage with
  | .start => False
  | .value => m.hasValue = true
  | .array => iter.arrayIndex < m.array.length
  | .map => iter.mapIterator < m.map.entries.length
  | .atEnd => True

theorem current_eq (hplaced : iter.Placed m) : iter.current m = (iter.rest m).head? := by
  obtain ⟨stage, arrayIndex, mapIterator⟩ := iter
  cases stage with
  | start => cases hplaced
  | value => rfl
  | array =>
    rw [rest, current, List.head?_append, List.head?_drop, List.getElem?_eq_getElem hplaced]
    rfl
  | map => rw [rest, current, List.head?_drop]
  | atEnd => rfl

theorem isEnd_iff (hplaced : iter.Placed m) : iter.isEnd = true ↔ iter.rest m = [] := by
  obtain ⟨stage, arrayIndex, mapIterator⟩ := iter
  cases stage with
  | start => cases hplaced
  | value => simp [isEnd, rest]
  | array =>
    have hlt : arrayIndex < m.array.length := hplaced
    simp [isEnd, rest, hlt]
  | map =>
    have hlt : mapIterator < m.map.entries.length := hplaced
    simp [isEnd, rest, hlt]
  | atEnd => simp [isEnd, rest]

theorem rest_advance (hm : m.Compacted) (hplaced : iter.Placed m) :
    (iter.advance m).Placed m ∧ (iter.advance m).rest m = (iter.rest m).tail := by
  obtain ⟨stage, arrayIndex, mapIterator⟩ := iter
  cases stage with
  | start => cases hplaced
  | value =>
    cases harray : m.hasArray with
    | false =>
      have hnext : m.next = none := by simpa [hasArray] using harray
      simp [advance, harray, Placed, rest, others, hnext]
    | true =>
      have hlt : 0 < m.array.length := List.length_pos_iff.2 (hm.array harray)
      simp [advance, harray, Placed, rest, others_eq, hlt]
  | array =>
    have hlt : arrayIndex < m.array.length := hplaced
    have htail : (m.array.drop arrayIndex ++ m.map.entries).tail = m.array.drop (arrayIndex + 1) ++ m.map.entries := by
      rw [List.drop_eq_getElem_cons hlt]
      rfl
    by_cases hlast : arrayIndex + 1 = m.array.length
    · have hdrop : m.array.drop (arrayIndex + 1) = [] := by rw [hlast, List.drop_length]
      cases hmap : m.hasMap with
      | false =>
        have hnone : m.next.bind SecondLevelStorage.map = none := by simpa [hasMap] using hmap
        have hentries : m.map.entries = [] := by rw [map, hnone]; rfl
        simp [advance, hlast, hmap, Placed, rest, hentries]
      | true =>
        have hpos : 0 < m.map.entries.length := List.length_pos_iff.2 (hm.map hmap).2
        simp [advance, hlast, hmap, Placed, rest, htail, hpos]
    · have hnext : arrayIndex + 1 < m.array.length := by omega
      simp only [advance, ne_eq, hlast, not_false_eq_true, if_true, Placed, rest, htail, and_true]
      exact hnext
  | map =>
    have hlt : mapIterator < m.map.entries.length := hplaced
    have htail : (m.map.entries.drop mapIterator).tail = m.map.entries.drop (mapIterator + 1) := List.tail_drop
    by_cases hlast : m.map.entries.length = mapIterator + 1
    · have hdrop : m.map.entries.drop (mapIterator + 1) = [] := by rw [← hlast, List.drop_length]
      simp [advance, hlast, Placed, rest, htail, hdrop]
    · have hnext : mapIterator + 1 < m.map.entries.length := by omega
      simp only [advance, ne_eq, hlast, not_false_eq_true, if_true, Placed, rest, htail, and_true]
      exact hnext
  | atEnd => exact ⟨trivial, rfl⟩

theorem rest_iterate (hm : m.Compacted) (hplaced : iter.Placed m) (i : Nat) :
    ((advance m)^[i] iter).Placed m ∧ ((advance m)^[i] iter).rest m = (iter.rest m).drop i := by
  induction i with
  | zero => exact ⟨hplaced, rfl⟩
  | succ i ih =>
    obtain ⟨hplaced', hrest⟩ := rest_advance hm ih.1
    rw [Function.iterate_succ_apply']
    refine ⟨hplaced', ?_⟩
    rw [hrest, ih.2, List.tail_drop]

end Iterator

theorem begin_placed (m : CompactMosaicMap) : m.begin.Placed m ∧ m.begin.rest m = m.mosaics := by
  cases hvalue : m.hasValue with
  | false => simp [begin, Iterator.advance, hvalue, Iterator.Placed, Iterator.rest, mosaics_of_not_hasValue hvalue]
  | true => simp [begin, Iterator.advance, hvalue, Iterator.Placed, Iterator.rest, mosaics_of_hasValue hvalue]

theorem current_begin (hm : m.Compacted) (i : Nat) :
    ((Iterator.advance m)^[i] m.begin).current m = m.mosaics[i]? := by
  obtain ⟨hplaced, hrest⟩ := begin_placed m
  obtain ⟨hplaced', hrest'⟩ := Iterator.rest_iterate hm hplaced i
  rw [Iterator.current_eq hplaced', hrest', hrest, List.head?_drop]

theorem isEnd_begin (hm : m.Compacted) (i : Nat) :
    ((Iterator.advance m)^[i] m.begin).isEnd = true ↔ m.mosaics.length ≤ i := by
  obtain ⟨hplaced, hrest⟩ := begin_placed m
  obtain ⟨hplaced', hrest'⟩ := Iterator.rest_iterate hm hplaced i
  rw [Iterator.isEnd_iff hplaced', hrest', hrest, List.drop_eq_nil_iff]

theorem current_findIterator (m : CompactMosaicMap) (id : MosaicId) :
    (m.findIterator id).current m = (m.find? id).map (Prod.mk id) := by
  have hfound := found_find m id
  rw [findIterator, find?]
  generalize m.find id = location at hfound
  cases hfound with
  | none => rfl
  | value hvalue hid =>
    rw [← hid]
    rfl
  | @array storage index e hvalue hnext hget hid =>
    simp [Iterator.current, array, hnext, hget, ← hid]
  | @map storage map amount hvalue hnext hmap hfind =>
    have hentries : m.map.entries = map.entries := by rw [CompactMosaicMap.map, hnext, Option.bind_some, hmap]; rfl
    have hmem : (id, amount) ∈ m.map.entries := hentries ▸ SortedMap.mem_entries_iff.2 hfind
    have hlt := List.findIdx_lt_length_of_exists (p := fun e : Mosaic => decide (e.1 = id)) ⟨_, hmem, by simp⟩
    have hget := List.getElem?_eq_getElem hlt
    generalize m.map.entries[m.map.entries.findIdx fun e => decide (e.1 = id)] = e at hget
    have hid : e.1 = id := by simpa using List.findIdx_of_getElem?_eq_some hget
    have hfind' := SortedMap.mem_entries_iff.1 (hentries ▸ List.mem_of_getElem? hget)
    rw [hid, hfind] at hfind'
    simp only [Iterator.current, hnext, hmap, Option.bind_some, hfind, Option.map_some, hget]
    rw [← hid, Option.some.inj hfind']

theorem isEnd_findIterator (m : CompactMosaicMap) (id : MosaicId) :
    (m.findIterator id).isEnd = true ↔ m.find? id = none := by
  have hfound := found_find m id
  rw [findIterator, find?]
  generalize m.find id = location at hfound
  cases hfound with
  | none => simp [Iterator.isEnd]
  | value => simp [Iterator.isEnd]
  | array hvalue hnext hget hid => simp [Iterator.isEnd, hnext, hget]
  | map hvalue hnext hmap hfind => simp [Iterator.isEnd, hnext, hmap, hfind]

end Places

end CompactMosaicMap
end Catapult.State
