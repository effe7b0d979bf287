import Catapult.Lib.SortedMap
import Mathlib.Data.List.TakeWhile
import Mathlib.Data.UInt

/-!
# The storage of many mosaics (`CompactMosaicMap::SecondLevelStorage`)

Five mosaics are in an array and all others in an ordered map, which is used only when the array is full (`Filled`).
They are in the order of their ids (`Ascending`). In the whole map of an account the optimized mosaic comes before
all others (`Optimized`).
-/

namespace Catapult.State

structure MosaicId where
  value : UInt64
  deriving DecidableEq

instance : LinearOrder MosaicId :=
  LinearOrder.lift' (fun id => id.value.toNat) fun ⟨a⟩ ⟨b⟩ h => by simpa using UInt64.toNat_inj.1 h

instance : Zero MosaicId := ⟨⟨0⟩⟩

abbrev Amount := UInt64

abbrev Mosaic := MosaicId × Amount

abbrev MosaicMap := SortedMap MosaicId Amount

def arraySize : Nat := 5

structure SecondLevelStorage where
  array : List Mosaic := []
  map : Option MosaicMap := none

/-- The optimized mosaic id is smallest. -/
def isLessThan (optimizedMosaicId lhs rhs : MosaicId) : Bool :=
  if lhs = rhs then false
  else if optimizedMosaicId = lhs ∨ optimizedMosaicId = rhs then decide (optimizedMosaicId = lhs)
  else decide (lhs < rhs)

namespace SecondLevelStorage

def mosaics (storage : SecondLevelStorage) : List Mosaic := storage.array ++ storage.map.elim [] SortedMap.entries

def insertIntoMap (pair : Mosaic) (storage : SecondLevelStorage) : SecondLevelStorage :=
  { storage with map := some ((storage.map.getD ∅).emplace pair.1 pair.2) }

/-- The last mosaic of a full array is moved into the map. -/
def insertIntoArray (index : Nat) (pair : Mosaic) (storage : SecondLevelStorage) : SecondLevelStorage :=
  let moved :=
    if storage.array.length = arraySize then
      match storage.array.getLast? with
      | some last => storage.insertIntoMap last
      | none => storage
    else storage
  { moved with array := (storage.array.take index ++ pair :: storage.array.drop index).take arraySize }

def eraseFromArray (index : Nat) (storage : SecondLevelStorage) : SecondLevelStorage :=
  { storage with array := storage.array.eraseIdx index }

/-- The loop of `compact`, with room for `room` mosaics in the array. -/
def fillArray : (room : Nat) → List Mosaic → MosaicMap → List Mosaic × MosaicMap
  | 0, array, map => (array, map)
  | room + 1, array, map =>
    match map.entries with
    | [] => (array, map)
    | first :: _ => fillArray room (array ++ [first]) (map.erase first.1)

def compact (storage : SecondLevelStorage) : Option SecondLevelStorage :=
  let storage :=
    match storage.map with
    | none => storage
    | some map =>
      let (array, map) := fillArray (arraySize - storage.array.length) storage.array map
      { array := array, map := if map.entries.isEmpty then none else some map }
  if storage.array.isEmpty then none else some storage

def arrayIndex (id : MosaicId) (array : List Mosaic) : Nat :=
  (array.takeWhile fun mosaic => !decide (id < mosaic.1)).length

/-- The end of `insert`: a mosaic at its place in the array, or in the map when all mosaics of the array are smaller. -/
def insertPair (pair : Mosaic) (storage : SecondLevelStorage) : SecondLevelStorage :=
  if arrayIndex pair.1 storage.array < arraySize then
    storage.insertIntoArray (arrayIndex pair.1 storage.array) pair
  else storage.insertIntoMap pair

end SecondLevelStorage

/-! ## The two orders -/

section Order
variable {o a b : MosaicId}

theorem isLessThan_of_lt (ha : a ≠ o) (hb : b ≠ o) : isLessThan o a b = decide (a < b) := by
  rw [isLessThan]
  split
  · rename_i heq
    simp [heq]
  · rw [if_neg (by simp [ha.symm, hb.symm])]

theorem ne_of_isLessThan (h : isLessThan o a b = true) : a ≠ b ∧ b ≠ o := by
  rw [isLessThan] at h
  split at h
  · cases h
  · rename_i hne
    refine ⟨hne, ?_⟩
    rintro rfl
    simp [Ne.symm hne] at h

theorem isLessThan_or (hne : a ≠ b) : isLessThan o a b = true ∨ isLessThan o b a = true := by
  by_cases ha : a = o
  · simp [isLessThan, ha, ha ▸ hne]
  by_cases hb : b = o
  · simp [isLessThan, hb, Ne.symm (hb ▸ hne)]
  rw [isLessThan_of_lt ha hb, isLessThan_of_lt hb ha, decide_eq_true_eq, decide_eq_true_eq]
  exact lt_or_gt_of_ne hne

theorem isLessThan_optimized (hne : a ≠ o) : isLessThan o o a = true := by
  simp [isLessThan, hne.symm]

theorem isLessThan_trans {c : MosaicId} (hab : isLessThan o a b = true) (hbc : isLessThan o b c = true) :
    isLessThan o a c = true := by
  have hb := (ne_of_isLessThan hab).2
  have hc := (ne_of_isLessThan hbc).2
  by_cases ha : a = o
  · rw [ha]
    exact isLessThan_optimized hc
  rw [isLessThan_of_lt ha hb, decide_eq_true_eq] at hab
  rw [isLessThan_of_lt hb hc, decide_eq_true_eq] at hbc
  rw [isLessThan_of_lt ha hc, decide_eq_true_eq]
  exact hab.trans hbc

abbrev Ascending (l : List Mosaic) : Prop := l.Pairwise fun a b => a.1 < b.1

abbrev Optimized (o : MosaicId) (l : List Mosaic) : Prop := l.Pairwise fun a b => isLessThan o a.1 b.1 = true

theorem optimized_cons_iff {v : Mosaic} {l : List Mosaic} :
    Optimized o (v :: l) ↔ (∀ e ∈ l, isLessThan o v.1 e.1 = true) ∧ Ascending l := by
  rw [Optimized, List.pairwise_cons]
  refine and_congr_right fun hv => List.Pairwise.iff_of_mem fun {a b} ha hb => ?_
  rw [isLessThan_of_lt (ne_of_isLessThan (hv a ha)).2 (ne_of_isLessThan (hv b hb)).2, decide_eq_true_eq]

theorem ascending_of_optimized {v : Mosaic} {l : List Mosaic} (h : Optimized o (v :: l)) (hne : v.1 ≠ o) :
    Ascending (v :: l) := by
  obtain ⟨hv, hl⟩ := optimized_cons_iff.1 h
  refine List.pairwise_cons.2 ⟨fun e he => ?_, hl⟩
  have hlt := hv e he
  rwa [isLessThan_of_lt hne (ne_of_isLessThan hlt).2, decide_eq_true_eq] at hlt

theorem ascending_of_ne {l : List Mosaic} (h : Optimized o l) (hne : ∀ e ∈ l, e.1 ≠ o) : Ascending l :=
  h.imp_of_mem fun {a b} ha hb hlt => by rwa [isLessThan_of_lt (hne a ha) (hne b hb), decide_eq_true_eq] at hlt

theorem optimized_of_ascending {l : List Mosaic} (h : Ascending l) (hne : ∀ e ∈ l, e.1 ≠ o) : Optimized o l :=
  h.imp_of_mem fun {a b} ha hb hlt => by rwa [isLessThan_of_lt (hne a ha) (hne b hb), decide_eq_true_eq]

theorem nodup_of_optimized {l : List Mosaic} (h : Optimized o l) : (l.map Prod.fst).Nodup :=
  List.pairwise_map.2 (h.imp fun hlt => (ne_of_isLessThan hlt).1)

end Order

/-! ## The array and the map -/

namespace SecondLevelStorage
variable {storage : SecondLevelStorage} {pair : Mosaic}

/-- The map is used only when the array is full. -/
structure Filled (storage : SecondLevelStorage) : Prop where
  length_le : storage.array.length ≤ arraySize
  map : ∀ map, storage.map = some map → storage.array.length = arraySize ∧ map.entries ≠ []

theorem filled_empty : Filled {} := ⟨by decide, fun _ hmap => nomatch hmap⟩

theorem mosaics_empty : mosaics {} = [] := rfl

theorem insertIntoMap_mosaics (hmem : ∀ e ∈ storage.mosaics, e.1 ≠ pair.1) (hlast : ∀ e ∈ storage.array, e.1 < pair.1)
    (hasc : Ascending storage.mosaics) : (storage.insertIntoMap pair).mosaics.Perm (pair :: storage.mosaics) ∧
      Ascending (storage.insertIntoMap pair).mosaics := by
  obtain ⟨harray, -, hbetween⟩ := List.pairwise_append.1 hasc
  have hentries : storage.map.elim [] SortedMap.entries = (storage.map.getD ∅).entries := by
    cases storage.map <;> rfl
  have hnone : (storage.map.getD ∅).find? pair.1 = none := by
    by_contra hne
    obtain ⟨amount, hsome⟩ := Option.ne_none_iff_exists'.1 hne
    refine hmem (pair.1, amount) (List.mem_append_right _ ?_) rfl
    rw [hentries]
    exact SortedMap.mem_entries_iff.2 hsome
  have hperm : ((storage.map.getD ∅).emplace pair.1 pair.2).entries.Perm (pair :: (storage.map.getD ∅).entries) := by
    obtain ⟨rest, hold, hnew⟩ := (storage.map.getD ∅).entries_alter_perm pair.1 fun o => some (o.getD pair.2)
    rw [hnone] at hold hnew
    exact hnew.trans (hold.symm.cons pair)
  refine ⟨?_, List.pairwise_append.2 ⟨harray, SortedMap.sorted _, fun a ha b hb => ?_⟩⟩
  · rw [mosaics, mosaics, hentries]
    exact (hperm.append_left _).trans List.perm_middle
  · rcases List.mem_cons.1 (hperm.mem_iff.1 hb) with rfl | hb
    · exact hlast a ha
    · exact hbetween a ha b (hentries ▸ hb)

theorem insertIntoArray_mosaics (hfilled : storage.Filled) (hasc : Ascending storage.mosaics) {index : Nat}
    (hindex : index ≤ storage.array.length) (hlt : index < arraySize) :
    (storage.insertIntoArray index pair).Filled ∧
    (storage.insertIntoArray index pair).mosaics =
    storage.mosaics.take index ++ pair :: storage.mosaics.drop index := by
  obtain ⟨array, map⟩ := storage
  simp only at hindex
  have htake : (array ++ map.elim [] SortedMap.entries).take index = array.take index :=
    List.take_append_of_le_length hindex
  have hdrop : (array ++ map.elim [] SortedMap.entries).drop index =
    array.drop index ++ map.elim [] SortedMap.entries :=
    List.drop_append_of_le_length hindex
  have hlength : (array.take index ++ pair :: array.drop index).length = array.length + 1 := by
    simp only [List.length_append, List.length_take, List.length_cons, List.length_drop]
    omega
  by_cases hfull : array.length = arraySize
  · -- the last mosaic of the array is the first one of the map
    obtain ⟨init, last, rfl⟩ := List.eq_nil_or_concat' array |>.resolve_left (by
      rintro rfl
      simp [arraySize] at hfull)
    have hinit : init.length = 4 := by simpa [arraySize] using hfull
    have hle : index ≤ init.length := by rw [hinit]; exact Nat.le_of_lt_succ hlt
    have harray : ((init ++ [last]).take index ++ pair :: (init ++ [last]).drop index).take arraySize =
        init.take index ++ pair :: init.drop index := by
      rw [List.take_append_of_le_length hle, List.drop_append_of_le_length hle, ← List.cons_append, ← List.append_assoc]
      refine List.take_left' ?_
      simp only [List.length_append, List.length_take, List.length_cons, List.length_drop, arraySize]
      omega
    have hmap : ((map.getD ∅).emplace last.1 last.2).entries = last :: map.elim [] SortedMap.entries := by
      have hless : ∀ e ∈ (map.getD ∅).entries, last.1 < e.1 := by
        intro e he
        refine (List.pairwise_append.1 hasc).2.2 last (by simp) e ?_
        cases map with
        | none => exact he
        | some map => exact he
      rw [SortedMap.emplace, SortedMap.entries_alter_of_lt hless]
      cases map <;> rfl
    have heq : insertIntoArray index pair ⟨init ++ [last], map⟩ =
        ⟨init.take index ++ pair :: init.drop index, some ((map.getD ∅).emplace last.1 last.2)⟩ := by
      simp only [insertIntoArray, hfull, if_true, List.getLast?_append, List.getLast?_singleton, Option.some_or,
        insertIntoMap, harray]
    rw [heq]
    refine ⟨⟨?_, ?_⟩, ?_⟩
    · simp only [List.length_append, List.length_take, List.length_cons, List.length_drop, arraySize]
      omega
    · rintro _ ⟨rfl⟩
      refine ⟨?_, by rw [hmap]; simp⟩
      simp only [List.length_append, List.length_take, List.length_cons, List.length_drop, arraySize]
      omega
    · simp only [mosaics, htake, hdrop, Option.elim_some, hmap]
      rw [List.take_append_of_le_length hle, List.drop_append_of_le_length hle]
      simp
  · have hnone : map = none := by
      cases map with
      | none => rfl
      | some map => exact absurd (hfilled.map map rfl).1 hfull
    have hle : array.length < arraySize := Nat.lt_of_le_of_ne hfilled.length_le hfull
    have heq : insertIntoArray index pair ⟨array, map⟩ = ⟨array.take index ++ pair :: array.drop index, none⟩ := by
      simp only [insertIntoArray, hfull, if_false, hnone]
      rw [List.take_of_length_le (by omega)]
    rw [heq]
    refine ⟨⟨by rw [hlength]; omega, fun _ hmap => nomatch hmap⟩, ?_⟩
    simp only [mosaics, hnone, Option.elim_none, List.append_nil]

theorem Filled.array_ne_nil (hfilled : storage.Filled) (hne : storage.mosaics ≠ []) : storage.array ≠ [] := by
  intro hnil
  apply hne
  cases hmap : storage.map with
  | none => simp [mosaics, hnil, hmap]
  | some map =>
    have hlength := (hfilled.map map hmap).1
    simp [hnil, arraySize] at hlength

theorem ascending_insert {l : List Mosaic} {index : Nat} (hasc : Ascending l)
    (hbefore : ∀ e ∈ l.take index, e.1 < pair.1) (hafter : ∀ e ∈ l.drop index, pair.1 < e.1) :
    Ascending (l.take index ++ pair :: l.drop index) := by
  rw [← List.take_append_drop index l] at hasc
  obtain ⟨htake, hdrop, hbetween⟩ := List.pairwise_append.1 hasc
  refine List.pairwise_append.2 ⟨htake, List.pairwise_cons.2 ⟨hafter, hdrop⟩, fun a ha b hb => ?_⟩
  rcases List.mem_cons.1 hb with rfl | hb
  · exact hbefore a ha
  · exact hbetween a ha b hb

theorem drop_arrayIndex (id : MosaicId) (array : List Mosaic) :
    array.drop (arrayIndex id array) = array.dropWhile fun mosaic => !decide (id < mosaic.1) := by
  have happend := congrArg (List.drop (arrayIndex id array))
    (List.takeWhile_append_dropWhile (p := fun mosaic : Mosaic => !decide (id < mosaic.1)) (l := array))
  exact happend.symm.trans (List.drop_left' rfl)

theorem lt_of_mem_drop (hfilled : storage.Filled) (hasc : Ascending storage.mosaics) {id : MosaicId}
    (hlt : arrayIndex id storage.array < arraySize) :
    ∀ e ∈ storage.mosaics.drop (arrayIndex id storage.array), id < e.1 := by
  have hle : arrayIndex id storage.array ≤ storage.array.length := (List.takeWhile_sublist _).length_le
  rw [mosaics, List.drop_append_of_le_length hle, drop_arrayIndex]
  cases hdrop : storage.array.dropWhile fun mosaic => !decide (id < mosaic.1) with
  | nil =>
    -- the place is at the end of an array that is not full
    rw [← drop_arrayIndex, List.drop_eq_nil_iff] at hdrop
    cases hmap : storage.map with
    | none => simp
    | some map =>
      have hfull := (hfilled.map map hmap).1
      omega
  | cons first rest =>
    have hfirst : id < first.1 := by
      have hnot := List.head?_dropWhile_not (fun mosaic : Mosaic => !decide (id < mosaic.1)) storage.array
      rw [hdrop, List.head?_cons] at hnot
      simpa using hnot
    have hrest := hasc.sublist (List.drop_sublist (arrayIndex id storage.array) _)
    rw [mosaics, List.drop_append_of_le_length hle, drop_arrayIndex, hdrop, List.cons_append] at hrest
    intro e he
    rcases List.mem_cons.1 he with rfl | he
    · exact hfirst
    · exact hfirst.trans ((List.pairwise_cons.1 hrest).1 e he)

theorem insertPair_spec (hfilled : storage.Filled) (hasc : Ascending storage.mosaics)
    (hmem : ∀ e ∈ storage.mosaics, e.1 ≠ pair.1) : (storage.insertPair pair).Filled ∧
      (storage.insertPair pair).mosaics.Perm (pair :: storage.mosaics) ∧
        Ascending (storage.insertPair pair).mosaics := by
  have hle : arrayIndex pair.1 storage.array ≤ storage.array.length := (List.takeWhile_sublist _).length_le
  have htake : storage.array.take (arrayIndex pair.1 storage.array) =
      storage.array.takeWhile fun mosaic => !decide (pair.1 < mosaic.1) :=
    (List.prefix_iff_eq_take.1 (List.takeWhile_prefix _)).symm
  have hbefore : ∀ e ∈ storage.array.take (arrayIndex pair.1 storage.array), e.1 < pair.1 := by
    intro e he
    have hnot := List.mem_takeWhile_imp (htake ▸ he)
    have hne := hmem e (List.mem_append_left _ (List.mem_of_mem_take he))
    exact lt_of_le_of_ne (not_lt.1 (by simpa using hnot)) hne
  by_cases hlt : arrayIndex pair.1 storage.array < arraySize
  · obtain ⟨hnew, hmosaics⟩ := @insertIntoArray_mosaics _ pair hfilled hasc _ hle hlt
    rw [insertPair, if_pos hlt]
    refine ⟨hnew, ?_, ?_⟩
    · rw [hmosaics]
      exact List.perm_middle.trans (by rw [List.take_append_drop])
    · rw [hmosaics]
      refine ascending_insert hasc ?_ ?_
      · rw [mosaics, List.take_append_of_le_length hle]
        exact hbefore
      · exact lt_of_mem_drop hfilled hasc hlt
  · have hfull : storage.array.length = arraySize := by
      have hlength := hfilled.length_le
      omega
    have hindex : arrayIndex pair.1 storage.array = storage.array.length := by omega
    rw [hindex, List.take_length] at hbefore
    rw [insertPair, if_neg hlt]
    obtain ⟨hperm, hasc'⟩ := insertIntoMap_mosaics hmem hbefore hasc
    refine ⟨⟨hfilled.length_le, ?_⟩, hperm, hasc'⟩
    rintro _ ⟨rfl⟩
    refine ⟨hfull, fun hnil => ?_⟩
    have hfind : ((storage.map.getD ∅).emplace pair.1 pair.2).find? pair.1 ≠ none := by simp
    exact hfind (by simp [SortedMap.find?, hnil, SortedMap.findIn])

theorem fillArray_spec {room : Nat} {array : List Mosaic} {map : MosaicMap} (hroom : array.length + room = arraySize) :
    (fillArray room array map).1 ++ (fillArray room array map).2.entries = array ++ map.entries ∧
    (fillArray room array map).1.length ≤ arraySize ∧
    ((fillArray room array map).2.entries ≠ [] → (fillArray room array map).1.length = arraySize) := by
  induction room generalizing array map with
  | zero => exact ⟨rfl, Nat.le_of_eq hroom, fun _ => hroom⟩
  | succ room ih =>
    rw [fillArray]
    split
    · rename_i hnil
      exact ⟨rfl, by simp only; omega, fun hne => absurd hnil hne⟩
    · rename_i first rest hentries
      have hroom' : (array ++ [first]).length + room = arraySize := by
        rw [List.length_append, List.length_singleton]
        omega
      obtain ⟨happend, hrest⟩ := @ih _ (map.erase first.1) hroom'
      refine ⟨?_, hrest⟩
      rw [happend, SortedMap.entries_erase_head hentries, hentries, List.append_assoc]
      rfl

theorem compact_spec (hle : storage.array.length ≤ arraySize) :
    storage.compact.elim [] mosaics = storage.mosaics ∧
    ∀ st ∈ storage.compact, st.Filled ∧ st.mosaics ≠ [] := by
  obtain ⟨array, map⟩ := storage
  -- what is left after the array is filled
  have hdrop : ∀ st : SecondLevelStorage, st.Filled →
      (if st.array.isEmpty then none else some st : Option SecondLevelStorage).elim [] mosaics = st.mosaics ∧
      ∀ st' ∈ (if st.array.isEmpty then none else some st : Option SecondLevelStorage), st'.Filled ∧
        st'.mosaics ≠ [] := by
    intro st hfilled
    cases hempty : st.array.isEmpty with
    | true =>
      rw [List.isEmpty_iff] at hempty
      refine ⟨?_, by simp⟩
      by_contra hne
      exact hfilled.array_ne_nil (Ne.symm hne) hempty
    | false =>
      refine ⟨rfl, ?_⟩
      rintro _ ⟨rfl⟩
      refine ⟨hfilled, fun hnil => ?_⟩
      rw [mosaics, List.append_eq_nil_iff] at hnil
      simp [hnil.1] at hempty
  cases map with
  | none => exact hdrop ⟨array, none⟩ ⟨hle, fun _ hmap => nomatch hmap⟩
  | some map =>
    obtain ⟨happend, hlength, hfull⟩ := @fillArray_spec _ array map (Nat.add_sub_cancel' hle)
    simp only [compact]
    generalize fillArray (arraySize - array.length) array map = filled at happend hlength hfull
    obtain ⟨array', map'⟩ := filled
    simp only at happend hlength hfull
    have hst : Filled ⟨array', if map'.entries.isEmpty then none else some map'⟩ := by
      refine ⟨hlength, fun map hmap => ?_⟩
      split at hmap
      · cases hmap
      · cases hmap
        rename_i hne
        rw [List.isEmpty_iff] at hne
        exact ⟨hfull hne, hne⟩
    obtain ⟨hmosaics, hvalid⟩ := hdrop _ hst
    refine ⟨hmosaics.trans ?_, hvalid⟩
    rw [mosaics, mosaics, Option.elim_some, ← happend]
    congr 1
    split
    · rename_i hempty
      exact (List.isEmpty_iff.1 hempty).symm
    · rfl

end SecondLevelStorage

end Catapult.State
