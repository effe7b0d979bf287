import Catapult.State.MosaicStorage

/-!
# Mosaics of an account (`CompactMosaicMap`)

A map of mosaics has room for one mosaic in place, and has a second storage for the others. They are iterated in the
order of their ids, but for an optimized mosaic, which is the first one.

The storages together are one list in this order (`mosaics`, `Valid`). An insertion and a change of the optimized
mosaic only reorder it, and `erase` deletes from it.
-/

namespace Catapult.State

/-- There is no mosaic in place when its id is zero. -/
structure CompactMosaicMap where
  value : Mosaic := (0, 0)
  next : Option SecondLevelStorage := none
  optimizedMosaicId : MosaicId := 0

inductive MosaicLocation where
  | value
  | array (index : Nat)
  | map

inductive BalanceError where
  /-- "cannot insert reserved mosaic" -/
  | reservedMosaic (id : MosaicId)
  /-- "cannot insert mosaic already in map" -/
  | alreadyInMap (id : MosaicId)
  /-- "debit amount (…) is greater than current balance (…) for mosaic …" -/
  | debitTooLarge (amount currentBalance : Amount) (id : MosaicId)
  deriving DecidableEq

namespace CompactMosaicMap

def hasValue (m : CompactMosaicMap) : Bool := decide (m.value.1 ≠ 0)

/-- The iteration from `begin` to `end`. -/
def mosaics (m : CompactMosaicMap) : List Mosaic :=
  if m.hasValue then m.value :: m.next.elim [] SecondLevelStorage.mosaics else []

def size (m : CompactMosaicMap) : Nat :=
  if m.hasValue then
    1 + m.next.elim 0 fun storage => storage.array.length + storage.map.elim 0 SortedMap.size
  else 0

def find (m : CompactMosaicMap) (id : MosaicId) : Option MosaicLocation :=
  if !m.hasValue then none
  else if id = m.value.1 then some .value
  else
    match m.next with
    | none => none
    | some storage =>
      match storage.array.findIdx? fun mosaic => decide (mosaic.1 = id) with
      | some index => some (.array index)
      | none => if (storage.map.bind fun map => map.find? id).isSome then some .map else none

def find? (m : CompactMosaicMap) (id : MosaicId) : Option Amount :=
  match m.find id with
  | none => none
  | some .value => some m.value.2
  | some (.array index) => m.next.bind fun storage => (storage.array[index]?).map Prod.snd
  | some .map => m.next.bind fun storage => storage.map.bind fun map => map.find? id

def setAmount (m : CompactMosaicMap) (id : MosaicId) (amount : Amount) : CompactMosaicMap :=
  match m.find id with
  | none => m
  | some .value => { m with value := (m.value.1, amount) }
  | some (.array index) =>
    { m with next := m.next.map fun storage =>
      { storage with array := storage.array.modify index fun e => (e.1, amount) } }
  | some .map =>
    { m with next := m.next.map fun storage =>
      { storage with map := storage.map.map fun map => map.modify id fun _ => amount } }

def insert (m : CompactMosaicMap) (pair : Mosaic) : Except BalanceError CompactMosaicMap :=
  if pair.1 = 0 then throw (.reservedMosaic pair.1)
  else if (m.find pair.1).isSome then throw (.alreadyInMap pair.1)
  else if !m.hasValue then return { m with value := pair }
  else
    let storage := m.next.getD {}
    if isLessThan m.optimizedMosaicId pair.1 m.value.1 then
      return { m with value := pair, next := some (storage.insertIntoArray 0 m.value) }
    else return { m with next := some (storage.insertPair pair) }

def erase (m : CompactMosaicMap) (id : MosaicId) : CompactMosaicMap :=
  match m.find id with
  | none => m
  | some .value =>
    match m.next with
    | none => { m with value := (0, 0) }
    | some storage =>
      { m with value := storage.array.headD (0, 0), next := (storage.eraseFromArray 0).compact }
  | some (.array index) => { m with next := m.next.bind fun storage => (storage.eraseFromArray index).compact }
  | some .map =>
    { m with next := m.next.bind fun storage =>
        { storage with map := storage.map.map fun map => map.erase id : SecondLevelStorage }.compact }

def reinsert (m : CompactMosaicMap) (id : MosaicId) : Except BalanceError CompactMosaicMap :=
  match m.find? id with
  | none => return m
  | some amount => (m.erase id).insert (id, amount)

def optimize (m : CompactMosaicMap) (id : MosaicId) : Except BalanceError CompactMosaicMap :=
  if id = m.optimizedMosaicId then return m
  else do
    let reinserted ← { m with optimizedMosaicId := id }.reinsert m.optimizedMosaicId
    reinserted.reinsert id

end CompactMosaicMap

namespace CompactMosaicMap
variable {m : CompactMosaicMap} {id : MosaicId} {pair : Mosaic}

def others (m : CompactMosaicMap) : List Mosaic := m.next.elim [] SecondLevelStorage.mosaics

/-- The storages are used in their order, and no mosaic has the reserved id. -/
structure Stored (m : CompactMosaicMap) : Prop where
  next : ∀ storage ∈ m.next, storage.Filled ∧ storage.mosaics ≠ []
  empty : m.hasValue = false → m.next = none
  ids : ∀ e ∈ m.mosaics, e.1 ≠ 0
  others : Ascending m.others

/-- The optimized mosaic is the first one, and all others are in the order of their ids. -/
structure Valid (m : CompactMosaicMap) : Prop extends Stored m where
  sorted : Optimized m.optimizedMosaicId m.mosaics

theorem hasValue_iff : m.hasValue = true ↔ m.value.1 ≠ 0 := decide_eq_true_iff

theorem mosaics_of_hasValue (h : m.hasValue = true) : m.mosaics = m.value :: m.others := by
  rw [mosaics, if_pos h, others]

theorem mosaics_of_not_hasValue (h : m.hasValue = false) : m.mosaics = [] := by
  rw [mosaics, if_neg (by simp [h])]

theorem size_eq (m : CompactMosaicMap) : m.size = m.mosaics.length := by
  rw [size, mosaics]
  split
  · cases m.next with
    | none => rfl
    | some storage =>
      simp only [Option.elim_some, List.length_cons, SecondLevelStorage.mosaics, List.length_append, Nat.add_comm 1]
      cases storage.map <;> rfl
  · rfl

inductive Found (m : CompactMosaicMap) (id : MosaicId) : Option MosaicLocation → Prop
  | none (hnot : ∀ e ∈ m.mosaics, e.1 ≠ id) : Found m id none
  | value (hvalue : m.hasValue = true) (hid : m.value.1 = id) : Found m id (some .value)
  | array {storage : SecondLevelStorage} {index : Nat} {e : Mosaic} (hvalue : m.hasValue = true)
    (hnext : m.next = some storage) (hget : storage.array[index]? = some e) (hid : e.1 = id) :
    Found m id (some (.array index))
  | map {storage : SecondLevelStorage} {map : MosaicMap} {amount : Amount} (hvalue : m.hasValue = true)
    (hnext : m.next = some storage) (hmap : storage.map = some map) (hfind : map.find? id = some amount) :
    Found m id (some .map)

theorem found_find (m : CompactMosaicMap) (id : MosaicId) : Found m id (m.find id) := by
  rw [find]
  cases hvalue : m.hasValue with
  | false => exact .none (by simp [mosaics_of_not_hasValue hvalue])
  | true =>
    simp only [Bool.not_true, Bool.false_eq_true, if_false]
    split
    · exact .value hvalue (by symm; assumption)
    rename_i hne
    cases hnext : m.next with
    | none =>
      refine .none fun e he => ?_
      rw [mosaics_of_hasValue hvalue, others, hnext] at he
      rw [List.mem_singleton.1 he]
      exact Ne.symm hne
    | some storage =>
      simp only
      cases hindex : storage.array.findIdx? fun mosaic => decide (mosaic.1 = id) with
      | some index =>
        obtain ⟨hlt, hid, -⟩ := List.findIdx?_eq_some_iff_getElem.1 hindex
        exact .array hvalue hnext (List.getElem?_eq_getElem hlt) (by simpa using hid)
      | none =>
        simp only
        have harray : ∀ e ∈ storage.array, e.1 ≠ id := by simpa [List.findIdx?_eq_none_iff] using hindex
        cases hmap : storage.map.bind fun map => map.find? id with
        | some amount =>
          obtain ⟨map, hsome, hfind⟩ := Option.bind_eq_some_iff.1 hmap
          exact .map hvalue hnext hsome hfind
        | none =>
          refine .none fun e he => ?_
          rw [mosaics_of_hasValue hvalue, others, hnext] at he
          rcases List.mem_cons.1 he with rfl | he
          · exact Ne.symm hne
          rcases List.mem_append.1 he with he | he
          · exact harray e he
          · rintro rfl
            cases hsome : storage.map with
            | none => simp [hsome] at he
            | some map =>
              rw [hsome, Option.elim_some] at he
              simp [hsome, SortedMap.mem_entries_iff.1 he] at hmap

theorem find_eq_none (hnot : ∀ e ∈ m.mosaics, e.1 ≠ id) : m.find id = none := by
  have hfound := found_find m id
  generalize m.find id = location at hfound
  cases hfound with
  | none => rfl
  | value hvalue hid =>
    exact absurd hid (hnot m.value (by simp [mosaics_of_hasValue hvalue]))
  | @array storage index e hvalue hnext hget hid =>
    refine absurd hid (hnot e ?_)
    rw [mosaics_of_hasValue hvalue, others, hnext]
    exact List.mem_cons_of_mem _ (List.mem_append_left _ (List.mem_of_getElem? hget))
  | @map storage map amount hvalue hnext hmap hfind =>
    refine absurd rfl (hnot (id, amount) ?_)
    rw [mosaics_of_hasValue hvalue, others, hnext]
    refine List.mem_cons_of_mem _ (List.mem_append_right _ ?_)
    rw [hmap]
    exact SortedMap.mem_entries_iff.2 hfind

theorem mosaics_getD (m : CompactMosaicMap) : (m.next.getD {}).mosaics = m.others := by
  cases hnext : m.next with
  | none => simp [others, hnext, SecondLevelStorage.mosaics_empty]
  | some storage => simp [others, hnext]

theorem Stored.filled (hs : m.Stored) : (m.next.getD {}).Filled := by
  cases hnext : m.next with
  | none => exact SecondLevelStorage.filled_empty
  | some storage => exact (hs.next storage hnext).1

theorem insert_not_less (hs : m.Stored) (hvalue : m.hasValue = true) (hid : pair.1 ≠ 0)
    (hnot : ∀ e ∈ m.mosaics, e.1 ≠ pair.1) (hless : isLessThan m.optimizedMosaicId pair.1 m.value.1 = false) :
    ∃ m', m.insert pair = .ok m' ∧ m'.Stored ∧ m'.optimizedMosaicId = m.optimizedMosaicId ∧ m'.value = m.value ∧
      m'.hasValue = true ∧ m'.others.Perm (pair :: m.others) := by
  have hothers : ∀ e ∈ m.others, e.1 ≠ pair.1 := fun e he =>
    hnot e (by rw [mosaics_of_hasValue hvalue]; exact List.mem_cons_of_mem _ he)
  have hmosaics := mosaics_getD m
  obtain ⟨hnew, hperm, hasc⟩ := SecondLevelStorage.insertPair_spec hs.filled (hmosaics ▸ hs.others) (hmosaics ▸ hothers)
  rw [hmosaics] at hperm
  refine ⟨{ m with next := some ((m.next.getD {}).insertPair pair) }, ?_, ?_, rfl, rfl, hvalue, hperm⟩
  · simp only [insert, hid, if_false, find_eq_none hnot, hvalue, hless]
    rfl
  · refine ⟨?_, fun hfalse => ?_, ?_, hasc⟩
    · rintro _ ⟨rfl⟩
      refine ⟨hnew, fun hnil => ?_⟩
      rw [hnil] at hperm
      exact List.cons_ne_nil _ _ hperm.nil_eq.symm
    · exact absurd (hfalse.symm.trans hvalue) (by simp)
    · intro e he
      have hvalue' : ({ m with next := some ((m.next.getD {}).insertPair pair) } : CompactMosaicMap).hasValue = true :=
        hvalue
      rw [mosaics_of_hasValue hvalue'] at he
      rcases List.mem_cons.1 he with rfl | he
      · exact hasValue_iff.1 hvalue
      · rcases List.mem_cons.1 (hperm.mem_iff.1 he) with rfl | he
        · exact hid
        · exact hs.ids e (by rw [mosaics_of_hasValue hvalue]; exact List.mem_cons_of_mem _ he)

theorem insert_less (hs : m.Stored) (hvalue : m.hasValue = true) (hid : pair.1 ≠ 0)
    (hnot : ∀ e ∈ m.mosaics, e.1 ≠ pair.1) (hless : isLessThan m.optimizedMosaicId pair.1 m.value.1 = true)
    (hasc : Ascending m.mosaics) :
    ∃ m', m.insert pair = .ok m' ∧ m'.Stored ∧ m'.optimizedMosaicId = m.optimizedMosaicId ∧
      m'.mosaics = pair :: m.mosaics := by
  have hmosaics := mosaics_getD m
  obtain ⟨hnew, heq⟩ := @SecondLevelStorage.insertIntoArray_mosaics _ m.value hs.filled (hmosaics ▸ hs.others) 0
    (Nat.zero_le _) (by decide)
  rw [hmosaics, List.take_zero, List.drop_zero, List.nil_append, ← mosaics_of_hasValue hvalue] at heq
  have hvalue' : ({ m with value := pair, next := some ((m.next.getD {}).insertIntoArray 0 m.value) } :
      CompactMosaicMap).hasValue = true := hasValue_iff.2 hid
  have hall : ({ m with value := pair, next := some ((m.next.getD {}).insertIntoArray 0 m.value) } :
      CompactMosaicMap).mosaics = pair :: m.mosaics := by
    rw [mosaics_of_hasValue hvalue', others, Option.elim_some, heq]
  refine ⟨{ m with value := pair, next := some ((m.next.getD {}).insertIntoArray 0 m.value) }, ?_, ?_, rfl, hall⟩
  · simp only [insert, hid, if_false, find_eq_none hnot, hvalue, hless]
    rfl
  · refine ⟨?_, fun hfalse => absurd (hfalse.symm.trans hvalue') (by simp), ?_, ?_⟩
    · rintro _ ⟨rfl⟩
      refine ⟨hnew, ?_⟩
      rw [heq, mosaics_of_hasValue hvalue]
      exact List.cons_ne_nil _ _
    · rw [hall]
      intro e he
      rcases List.mem_cons.1 he with rfl | he
      · exact hid
      · exact hs.ids e he
    · rw [others, Option.elim_some, heq]
      exact hasc

theorem insert_empty (hs : m.Stored) (hvalue : m.hasValue = false) (hid : pair.1 ≠ 0) :
    ∃ m', m.insert pair = .ok m' ∧ m'.Stored ∧ m'.optimizedMosaicId = m.optimizedMosaicId ∧ m'.mosaics = [pair] := by
  have hnext := hs.empty hvalue
  have hfind : m.find pair.1 = none := find_eq_none (by simp [mosaics_of_not_hasValue hvalue])
  have hvalue' : ({ m with value := pair } : CompactMosaicMap).hasValue = true := hasValue_iff.2 hid
  have hall : ({ m with value := pair } : CompactMosaicMap).mosaics = [pair] := by
    rw [mosaics_of_hasValue hvalue', others, hnext]
    rfl
  refine ⟨{ m with value := pair }, ?_, ⟨?_, fun _ => hnext, ?_, ?_⟩, rfl, hall⟩
  · simp only [insert, hid, if_false, hfind, hvalue]
    rfl
  · intro storage hsome
    rw [show m.next = some storage from hsome] at hnext
    cases hnext
  · rw [hall]
    intro e he
    rw [List.mem_singleton.1 he]
    exact hid
  · rw [others, hnext]
    exact List.Pairwise.nil

theorem insert_spec (hm : m.Valid) (hid : pair.1 ≠ 0) (hnot : ∀ e ∈ m.mosaics, e.1 ≠ pair.1) :
    ∃ m', m.insert pair = .ok m' ∧ m'.Valid ∧ m'.optimizedMosaicId = m.optimizedMosaicId ∧
      m'.mosaics.Perm (pair :: m.mosaics) := by
  cases hvalue : m.hasValue with
  | false =>
    obtain ⟨m', hok, hs, hopt, hall⟩ := insert_empty hm.toStored hvalue hid
    refine ⟨m', hok, ⟨hs, ?_⟩, hopt, by rw [hall, mosaics_of_not_hasValue hvalue]⟩
    rw [hall]
    exact List.pairwise_singleton _ _
  | true =>
    have hsorted := hm.sorted
    rw [mosaics_of_hasValue hvalue] at hsorted
    cases hless : isLessThan m.optimizedMosaicId pair.1 m.value.1 with
    | true =>
      have hasc := ascending_of_optimized hsorted (ne_of_isLessThan hless).2
      rw [← mosaics_of_hasValue hvalue] at hasc
      obtain ⟨m', hok, hs, hopt, hall⟩ := insert_less hm.toStored hvalue hid hnot hless hasc
      refine ⟨m', hok, ⟨hs, ?_⟩, hopt, by rw [hall]⟩
      rw [hall, hopt]
      refine List.pairwise_cons.2 ⟨fun e he => ?_, hm.sorted⟩
      rw [mosaics_of_hasValue hvalue] at he
      rcases List.mem_cons.1 he with rfl | he
      · exact hless
      · exact isLessThan_trans hless ((optimized_cons_iff.1 hsorted).1 e he)
    | false =>
      obtain ⟨m', hok, hs, hopt, hsame, hvalue', hperm⟩ := insert_not_less hm.toStored hvalue hid hnot hless
      refine ⟨m', hok, ⟨hs, ?_⟩, hopt, ?_⟩
      · rw [hopt, mosaics_of_hasValue hvalue', hsame]
        refine optimized_cons_iff.2 ⟨fun e he => ?_, hs.others⟩
        rcases List.mem_cons.1 (hperm.mem_iff.1 he) with rfl | he
        · have hne := hnot m.value (by simp [mosaics_of_hasValue hvalue])
          exact (isLessThan_or hne).resolve_right (by simp [hless])
        · exact (optimized_cons_iff.1 hsorted).1 e he
      · rw [mosaics_of_hasValue hvalue', mosaics_of_hasValue hvalue, hsame]
        exact (hperm.cons _).trans (List.Perm.swap _ _ _)

theorem compact_next (hs : m.Stored) {value : Mosaic} {storage : SecondLevelStorage} (hvalue : value ∈ m.mosaics)
    (hle : storage.array.length ≤ arraySize) (hsub : storage.mosaics.Sublist m.others) :
    ({ m with value := value, next := storage.compact } : CompactMosaicMap).Stored ∧
    ({ m with value := value, next := storage.compact } : CompactMosaicMap).mosaics = value :: storage.mosaics := by
  obtain ⟨hmosaics, hnext⟩ := SecondLevelStorage.compact_spec hle
  have hvalue' : ({ m with value := value, next := storage.compact } : CompactMosaicMap).hasValue = true :=
    hasValue_iff.2 (hs.ids value hvalue)
  have hall : ({ m with value := value, next := storage.compact } : CompactMosaicMap).mosaics =
      value :: storage.mosaics := by
    rw [mosaics_of_hasValue hvalue', others, hmosaics]
  refine ⟨⟨hnext, fun hfalse => absurd (hfalse.symm.trans hvalue') (by simp), ?_, ?_⟩, hall⟩
  · rw [hall]
    intro e he
    rcases List.mem_cons.1 he with rfl | he
    · exact hs.ids e hvalue
    · cases hfull : m.hasValue with
      | false =>
        rw [mosaics_of_not_hasValue hfull] at hvalue
        cases hvalue
      | true =>
        refine hs.ids e ?_
        rw [mosaics_of_hasValue hfull]
        exact List.mem_cons_of_mem _ (hsub.subset he)
  · rw [others, hmosaics]
    exact hs.others.sublist hsub

theorem stored_empty (o : MosaicId) : Stored { optimizedMosaicId := o } :=
  ⟨fun _ hmem => (nomatch hmem), fun _ => rfl, fun _ hmem => (nomatch hmem), List.Pairwise.nil⟩

structure Erased (m : CompactMosaicMap) (id : MosaicId) (amount : Amount) (m' : CompactMosaicMap) : Prop where
  stored : m'.Stored
  optimized : m'.optimizedMosaicId = m.optimizedMosaicId
  sublist : m'.mosaics.Sublist m.mosaics
  perm : m.mosaics.Perm ((id, amount) :: m'.mosaics)

theorem erase_spec (hs : m.Stored) (id : MosaicId) : (m.find? id = none ∧ ∀ e ∈ m.mosaics, e.1 ≠ id) ∨
    ∃ amount, m.find? id = some amount ∧ Erased m id amount (m.erase id) := by
  have hfound := found_find m id
  rw [find?, erase]
  generalize m.find id = location at hfound
  cases hfound with
  | none hnot => exact .inl ⟨rfl, hnot⟩
  | value hvalue hid =>
    refine .inr ⟨m.value.2, rfl, ?_⟩
    have hpair : (id, m.value.2) = m.value := by rw [← hid]
    cases hnext : m.next with
    | none =>
      have hall : m.mosaics = [m.value] := by rw [mosaics_of_hasValue hvalue, others, hnext]; rfl
      change Erased m id m.value.2 { optimizedMosaicId := m.optimizedMosaicId }
      exact ⟨stored_empty _, rfl, List.nil_sublist _, by rw [hall, hpair]; rfl⟩
    | some storage =>
      obtain ⟨hfilled, hne⟩ := hs.next storage hnext
      obtain ⟨head, tail, harray⟩ := List.exists_cons_of_ne_nil (hfilled.array_ne_nil hne)
      have hothers : m.others = head :: (storage.eraseFromArray 0).mosaics := by
        rw [others, hnext, Option.elim_some, SecondLevelStorage.mosaics, harray]
        simp [SecondLevelStorage.eraseFromArray, SecondLevelStorage.mosaics, harray]
      have hmem : head ∈ m.mosaics := by simp [mosaics_of_hasValue hvalue, hothers]
      have hlength : (storage.eraseFromArray 0).array.length ≤ arraySize :=
        (List.length_eraseIdx_le _ _).trans hfilled.length_le
      obtain ⟨hstored, hall⟩ := compact_next hs hmem hlength (by rw [hothers]; exact List.sublist_cons_self _ _)
      have hhead : storage.array.headD (0, 0) = head := by rw [harray]; rfl
      simp only [hhead]
      refine ⟨hstored, rfl, ?_, ?_⟩
      · rw [hall, mosaics_of_hasValue hvalue, hothers]
        exact List.sublist_cons_self _ _
      · rw [hall, mosaics_of_hasValue hvalue, hothers, hpair]
  | @array storage index e hvalue hnext hget hid =>
    have hfilled := (hs.next storage hnext).1
    obtain ⟨hlt, hgetElem⟩ := List.getElem?_eq_some_iff.1 hget
    have hothers : m.others = storage.mosaics := by rw [others, hnext]; rfl
    have hsub : (storage.eraseFromArray index).mosaics.Sublist m.others := by
      rw [hothers]
      exact (List.eraseIdx_sublist _ _).append_right _
    have hlength : (storage.eraseFromArray index).array.length ≤ arraySize :=
      (List.length_eraseIdx_le _ _).trans hfilled.length_le
    obtain ⟨hstored, hall⟩ := @compact_next m hs m.value _ (by simp [mosaics_of_hasValue hvalue]) hlength hsub
    refine .inr ⟨e.2, by simp [hnext, hget], ?_⟩
    simp only [hnext, Option.bind_some]
    refine ⟨hstored, rfl, ?_, ?_⟩
    · rw [hall, mosaics_of_hasValue hvalue]
      exact hsub.cons_cons _
    · have hpair : (id, e.2) = storage.array[index] := by rw [hgetElem, ← hid]
      have hperm : storage.mosaics.Perm ((id, e.2) :: (storage.eraseFromArray index).mosaics) := by
        rw [hpair]
        exact (List.getElem_cons_eraseIdx_perm hlt).symm.append_right _
      rw [hall, mosaics_of_hasValue hvalue, hothers]
      exact (hperm.cons _).trans (List.Perm.swap _ _ _)
  | @map storage map amount hvalue hnext hmap hfind =>
    have hfilled := (hs.next storage hnext).1
    have hothers : m.others = storage.array ++ map.entries := by
      rw [others, hnext, Option.elim_some, SecondLevelStorage.mosaics, hmap]
      rfl
    obtain ⟨rest, hold, hnew⟩ := map.entries_alter_perm id fun _ => none
    rw [hfind] at hold
    have hperm : map.entries.Perm ((id, amount) :: (map.erase id).entries) := hold.trans (hnew.symm.cons _)
    have hsubMap : (map.erase id).entries.Sublist map.entries := by
      have hsubperm : (map.erase id).entries.Subperm map.entries :=
        (List.sublist_cons_self _ _).subperm.trans hperm.symm.subperm
      exact List.sublist_of_subperm_of_pairwise hsubperm (SortedMap.sorted _) map.sorted
    have hsub : ({ storage with map := some (map.erase id) } : SecondLevelStorage).mosaics.Sublist m.others := by
      rw [hothers]
      exact hsubMap.append_left _
    obtain ⟨hstored, hall⟩ := @compact_next m hs m.value { storage with map := some (map.erase id) }
      (by simp [mosaics_of_hasValue hvalue]) hfilled.length_le hsub
    refine .inr ⟨amount, by simp [hnext, hmap, hfind], ?_⟩
    simp only [hnext, hmap, Option.bind_some, Option.map_some]
    refine ⟨hstored, rfl, ?_, ?_⟩
    · rw [hall, mosaics_of_hasValue hvalue]
      exact hsub.cons_cons _
    · rw [hall, mosaics_of_hasValue hvalue, hothers]
      refine List.Perm.trans ?_ (List.Perm.swap _ _ _)
      exact ((hperm.append_left storage.array).trans List.perm_middle).cons _

theorem Erased.notMem {amount : Amount} {m' : CompactMosaicMap} (herased : Erased m id amount m')
    (hnodup : (m.mosaics.map Prod.fst).Nodup) : ∀ e ∈ m'.mosaics, e.1 ≠ id := by
  have hnodup' : (((id, amount) :: m'.mosaics).map Prod.fst).Nodup := ((herased.perm.map Prod.fst).nodup_iff).1 hnodup
  intro e he heq
  exact (List.nodup_cons.1 hnodup').1 (List.mem_map.2 ⟨e, he, heq⟩)

theorem insert_ascending (hs : m.Stored) (hasc : Ascending m.mosaics) (hid : pair.1 ≠ 0)
    (hnot : ∀ e ∈ m.mosaics, e.1 ≠ pair.1) (hne : pair.1 ≠ m.optimizedMosaicId) :
    ∃ m', m.insert pair = .ok m' ∧ m'.Stored ∧ m'.optimizedMosaicId = m.optimizedMosaicId ∧
      m'.mosaics.Perm (pair :: m.mosaics) ∧ (Ascending m'.mosaics ∨ Optimized m.optimizedMosaicId m'.mosaics) := by
  cases hvalue : m.hasValue with
  | false =>
    obtain ⟨m', hok, hs', hopt, hall⟩ := insert_empty hs hvalue hid
    refine ⟨m', hok, hs', hopt, by rw [hall, mosaics_of_not_hasValue hvalue], .inl ?_⟩
    rw [hall]
    exact List.pairwise_singleton _ _
  | true =>
    have hmosaics := mosaics_of_hasValue hvalue
    have hvalueMem : m.value ∈ m.mosaics := by simp [hmosaics]
    cases hless : isLessThan m.optimizedMosaicId pair.1 m.value.1 with
    | true =>
      obtain ⟨m', hok, hs', hopt, hall⟩ := insert_less hs hvalue hid hnot hless hasc
      refine ⟨m', hok, hs', hopt, by rw [hall], .inl ?_⟩
      rw [isLessThan_of_lt hne (ne_of_isLessThan hless).2, decide_eq_true_eq] at hless
      rw [hall]
      refine List.pairwise_cons.2 ⟨fun e he => ?_, hasc⟩
      rw [hmosaics] at he hasc
      rcases List.mem_cons.1 he with rfl | he
      · exact hless
      · exact hless.trans ((List.pairwise_cons.1 hasc).1 e he)
    | false =>
      obtain ⟨m', hok, hs', hopt, hsame, hvalue', hperm⟩ := insert_not_less hs hvalue hid hnot hless
      have hall : m'.mosaics = m.value :: m'.others := by rw [mosaics_of_hasValue hvalue', hsame]
      refine ⟨m', hok, hs', hopt, ?_, ?_⟩
      · rw [hall, hmosaics]
        exact (hperm.cons _).trans (List.Perm.swap _ _ _)
      · rw [hall]
        rw [hmosaics] at hasc
        have hfirst : isLessThan m.optimizedMosaicId m.value.1 pair.1 = true :=
          (isLessThan_or (hnot m.value hvalueMem)).resolve_right (by simp [hless])
        by_cases heq : m.value.1 = m.optimizedMosaicId
        · refine .inr (optimized_cons_iff.2 ⟨fun e he => ?_, hs'.others⟩)
          rw [heq]
          refine isLessThan_optimized ?_
          rcases List.mem_cons.1 (hperm.mem_iff.1 he) with rfl | he
          · exact hne
          · rw [← heq]
            exact ne_of_gt ((List.pairwise_cons.1 hasc).1 e he)
        · refine .inl (List.pairwise_cons.2 ⟨fun e he => ?_, hs'.others⟩)
          rcases List.mem_cons.1 (hperm.mem_iff.1 he) with rfl | he
          · rwa [isLessThan_of_lt heq hne, decide_eq_true_eq] at hfirst
          · exact (List.pairwise_cons.1 hasc).1 e he

theorem reinsert_previous (hm : m.Valid) (hne : id ≠ m.optimizedMosaicId) :
    ∃ m', ({ m with optimizedMosaicId := id } : CompactMosaicMap).reinsert m.optimizedMosaicId = .ok m' ∧ m'.Stored ∧
      m'.optimizedMosaicId = id ∧ m'.mosaics.Perm m.mosaics ∧ (Ascending m'.mosaics ∨ Optimized id m'.mosaics) := by
  have hs : ({ m with optimizedMosaicId := id } : CompactMosaicMap).Stored := ⟨hm.next, hm.empty, hm.ids, hm.others⟩
  have hnodup := nodup_of_optimized hm.sorted
  rcases erase_spec hs m.optimizedMosaicId with ⟨hnone, hnot⟩ | ⟨amount, hsome, herased⟩
  · exact ⟨{ m with optimizedMosaicId := id }, by rw [reinsert, hnone]; rfl, hs, rfl, .refl _,
      .inl (ascending_of_ne hm.sorted hnot)⟩
  · have hnot := herased.notMem hnodup
    have hmem : (m.optimizedMosaicId, amount) ∈ m.mosaics := herased.perm.mem_iff.2 List.mem_cons_self
    have hasc : Ascending (({ m with optimizedMosaicId := id } : CompactMosaicMap).erase m.optimizedMosaicId).mosaics :=
      ascending_of_ne (hm.sorted.sublist herased.sublist) hnot
    obtain ⟨m', hok, hs', hopt, hperm, hsorted⟩ := @insert_ascending _ (m.optimizedMosaicId, amount)
      herased.stored hasc (hm.ids _ hmem) hnot (by rw [herased.optimized]; exact hne.symm)
    rw [herased.optimized] at hopt hsorted
    exact ⟨m', by rw [reinsert, hsome]; exact hok, hs', hopt, hperm.trans herased.perm.symm, hsorted⟩

theorem reinsert_optimized (hs : m.Stored) (hsorted : Ascending m.mosaics ∨ Optimized m.optimizedMosaicId m.mosaics) :
    ∃ m', m.reinsert m.optimizedMosaicId = .ok m' ∧ m'.Valid ∧ m'.optimizedMosaicId = m.optimizedMosaicId ∧
      m'.mosaics.Perm m.mosaics := by
  have hnodup : (m.mosaics.map Prod.fst).Nodup :=
    hsorted.elim (fun hasc => List.pairwise_map.2 (hasc.imp fun hlt => ne_of_lt hlt)) nodup_of_optimized
  rcases erase_spec hs m.optimizedMosaicId with ⟨hnone, hnot⟩ | ⟨amount, hsome, herased⟩
  · exact ⟨m, by rw [reinsert, hnone]; rfl, ⟨hs, hsorted.elim (optimized_of_ascending · hnot) fun h => h⟩, rfl, .refl _⟩
  · have hnot := herased.notMem hnodup
    have hmem : (m.optimizedMosaicId, amount) ∈ m.mosaics := herased.perm.mem_iff.2 List.mem_cons_self
    have hopt : Optimized m.optimizedMosaicId (m.erase m.optimizedMosaicId).mosaics :=
      hsorted.elim (fun hasc => optimized_of_ascending (hasc.sublist herased.sublist) hnot)
        fun hopt => hopt.sublist herased.sublist
    have hvalid : (m.erase m.optimizedMosaicId).Valid := ⟨herased.stored, by rw [herased.optimized]; exact hopt⟩
    obtain ⟨m', hok, hvalid', hopt', hperm⟩ := @insert_spec _ (m.optimizedMosaicId, amount) hvalid
      (hs.ids _ hmem) hnot
    exact ⟨m', by rw [reinsert, hsome]; exact hok, hvalid', hopt'.trans herased.optimized,
      hperm.trans herased.perm.symm⟩

theorem optimize_spec (hm : m.Valid) (id : MosaicId) : ∃ m', m.optimize id = .ok m' ∧ m'.Valid ∧
    m'.optimizedMosaicId = id ∧ m'.mosaics.Perm m.mosaics := by
  by_cases heq : id = m.optimizedMosaicId
  · exact ⟨m, by rw [optimize, if_pos heq]; rfl, hm, heq.symm, .refl _⟩
  · obtain ⟨m₁, hok₁, hs₁, hopt₁, hperm₁, hsorted₁⟩ := reinsert_previous hm heq
    rw [← hopt₁] at hsorted₁
    obtain ⟨m₂, hok₂, hvalid₂, hopt₂, hperm₂⟩ := reinsert_optimized hs₁ hsorted₁
    refine ⟨m₂, ?_, hvalid₂, hopt₂.trans hopt₁, hperm₂.trans hperm₁⟩
    rw [optimize, if_neg heq, hok₁]
    change m₁.reinsert id = _
    rw [← hopt₁, hok₂]

theorem pairwise_of_map_fst {r : MosaicId → MosaicId → Prop} {l l' : List Mosaic}
    (heq : l'.map Prod.fst = l.map Prod.fst)
    (h : l.Pairwise fun a b => r a.1 b.1) : l'.Pairwise fun a b => r a.1 b.1 := by
  have hmap : (l'.map Prod.fst).Pairwise r := heq ▸ List.pairwise_map.2 h
  exact List.pairwise_map.1 hmap

def withAmount (id : MosaicId) (amount : Amount) (e : Mosaic) : Mosaic := if e.1 = id then (e.1, amount) else e

theorem map_fst_withAmount (amount : Amount) (l : List Mosaic) :
    (l.map (withAmount id amount)).map Prod.fst = l.map Prod.fst := by
  rw [List.map_map]
  refine List.map_congr_left fun e _ => ?_
  rw [Function.comp_apply, withAmount]
  split <;> rfl

theorem map_withAmount_of_ne {amount : Amount} {l : List Mosaic} (hne : ∀ e ∈ l, e.1 ≠ id) :
    l.map (withAmount id amount) = l :=
  (List.map_congr_left fun e he => if_neg (hne e he)).trans l.map_id

theorem mem_map_withAmount {amount : Amount} {l : List Mosaic} {e : Mosaic} (he : e ∈ l.map (withAmount id amount)) :
    e.2 = amount ∨ e ∈ l := by
  obtain ⟨old, hold, rfl⟩ := List.mem_map.1 he
  rw [withAmount]
  split
  · exact .inl rfl
  · exact .inr hold

theorem modify_eq_map {amount : Amount} {l : List Mosaic} {index : Nat} {e : Mosaic} (hnodup : (l.map Prod.fst).Nodup)
    (hget : l[index]? = some e) (hid : e.1 = id) :
    l.modify index (fun e => (e.1, amount)) = l.map (withAmount id amount) := by
  refine List.ext_getElem? fun i => ?_
  rw [List.getElem?_modify, List.getElem?_map]
  cases hi : l[i]? with
  | none => rfl
  | some old =>
    rw [Option.map_some, Option.map_eq_map, Option.map_some, withAmount]
    by_cases heq : index = i
    · subst heq
      cases hget.symm.trans hi
      rw [if_pos rfl, if_pos hid]
    · have hne : old.1 ≠ id := by
        intro hold
        apply heq
        have hlt : index < (l.map Prod.fst).length := by
          rw [List.length_map]
          exact (List.getElem?_eq_some_iff.1 hget).1
        refine (List.getElem?_inj hlt hnodup).1 ?_
        rw [List.getElem?_map, List.getElem?_map, hget, hi, Option.map_some, Option.map_some, hid, hold]
      rw [if_neg heq, if_neg hne]

theorem Valid.of_withAmount (hm : m.Valid) {amount : Amount} {m' : CompactMosaicMap}
    (hnext : ∀ storage ∈ m'.next, storage.Filled ∧ storage.mosaics ≠ []) (hempty : m'.hasValue = false → m'.next = none)
    (hothers : m'.others = m.others.map (withAmount id amount)) (hopt : m'.optimizedMosaicId = m.optimizedMosaicId)
    (hall : m'.mosaics = m.mosaics.map (withAmount id amount)) : m'.Valid := by
  have hfst : m'.mosaics.map Prod.fst = m.mosaics.map Prod.fst := by rw [hall, map_fst_withAmount]
  refine ⟨⟨hnext, hempty, fun e he => ?_, ?_⟩, ?_⟩
  · have hmem : e.1 ∈ m.mosaics.map Prod.fst := hfst ▸ List.mem_map_of_mem he
    obtain ⟨e', he', heq⟩ := List.mem_map.1 hmem
    rw [← heq]
    exact hm.ids e' he'
  · rw [hothers]
    exact pairwise_of_map_fst (r := (· < ·)) (map_fst_withAmount amount _) hm.others
  · rw [hopt]
    exact pairwise_of_map_fst (r := fun a b => isLessThan m.optimizedMosaicId a b = true) hfst hm.sorted

theorem setAmount_next (hm : m.Valid) (hvalue : m.hasValue = true) {storage storage' : SecondLevelStorage}
    {amount : Amount} (hnext : m.next = some storage) (hfilled : storage'.Filled) (hne : m.value.1 ≠ id)
    (hmosaics : storage'.mosaics = storage.mosaics.map (withAmount id amount)) :
    ({ m with next := some storage' } : CompactMosaicMap).Valid ∧
    ({ m with next := some storage' } : CompactMosaicMap).mosaics = m.mosaics.map (withAmount id amount) := by
  have hvalue' : ({ m with next := some storage' } : CompactMosaicMap).hasValue = true := hvalue
  have hothers : m.others = storage.mosaics := by rw [others, hnext]; rfl
  have hall : ({ m with next := some storage' } : CompactMosaicMap).mosaics = m.mosaics.map (withAmount id amount) := by
    rw [mosaics_of_hasValue hvalue', mosaics_of_hasValue hvalue, List.map_cons, hothers, ← hmosaics, withAmount,
      if_neg hne]
    rfl
  refine ⟨hm.of_withAmount ?_ (fun hfalse => absurd (hfalse.symm.trans hvalue') (by simp)) ?_ rfl hall, hall⟩
  · rintro _ ⟨rfl⟩
    refine ⟨hfilled, fun hnil => (hm.next storage hnext).2 ?_⟩
    rwa [hmosaics, List.map_eq_nil_iff] at hnil
  · rw [hothers, ← hmosaics]
    rfl

theorem setAmount_spec (hm : m.Valid) (id : MosaicId) (amount : Amount) : (m.setAmount id amount).Valid ∧
    (m.setAmount id amount).optimizedMosaicId = m.optimizedMosaicId ∧
    (m.setAmount id amount).mosaics = m.mosaics.map (withAmount id amount) := by
  have hfound := found_find m id
  have hnodup := nodup_of_optimized hm.sorted
  rw [setAmount]
  generalize m.find id = location at hfound
  cases hfound with
  | none hnot => exact ⟨hm, rfl, (map_withAmount_of_ne hnot).symm⟩
  | value hvalue hid =>
    have hvalue' : ({ m with value := (m.value.1, amount) } : CompactMosaicMap).hasValue = true := hvalue
    rw [mosaics_of_hasValue hvalue, List.map_cons, List.nodup_cons] at hnodup
    have hothers : m.others.map (withAmount id amount) = m.others := by
      apply map_withAmount_of_ne
      rintro e he rfl
      exact hnodup.1 (hid ▸ List.mem_map_of_mem he)
    have hall : ({ m with value := (m.value.1, amount) } : CompactMosaicMap).mosaics =
        m.mosaics.map (withAmount id amount) := by
      rw [mosaics_of_hasValue hvalue', mosaics_of_hasValue hvalue, List.map_cons, hothers, withAmount, if_pos hid]
      rfl
    exact ⟨hm.of_withAmount hm.next (fun hfalse => absurd (hfalse.symm.trans hvalue') (by simp)) hothers.symm rfl hall,
      rfl, hall⟩
  | @array storage index e hvalue hnext hget hid =>
    have hfilled := (hm.next storage hnext).1
    have hlength : (storage.array.modify index fun e => (e.1, amount)).length = storage.array.length :=
      List.length_modify ..
    rw [mosaics_of_hasValue hvalue, others, hnext, Option.elim_some, SecondLevelStorage.mosaics, List.map_cons,
      List.map_append, List.nodup_cons, List.nodup_append, List.mem_append, not_or] at hnodup
    obtain ⟨⟨hvalueArray, -⟩, harray, -, hdisjoint⟩ := hnodup
    have hmem : id ∈ storage.array.map Prod.fst := hid ▸ List.mem_map_of_mem (List.mem_of_getElem? hget)
    have hmap : (storage.map.elim [] SortedMap.entries).map (withAmount id amount) =
        storage.map.elim [] SortedMap.entries :=
      map_withAmount_of_ne fun e he heq => hdisjoint id hmem e.1 (List.mem_map_of_mem he) heq.symm
    obtain ⟨hvalid, hall⟩ := @setAmount_next m id hm hvalue storage
      { storage with array := storage.array.modify index fun e => (e.1, amount) } amount hnext
      ⟨hlength ▸ hfilled.length_le, fun map hmap => ⟨hlength.trans (hfilled.map map hmap).1, (hfilled.map map hmap).2⟩⟩
      (fun heq => hvalueArray (heq ▸ hmem))
      (by rw [SecondLevelStorage.mosaics, SecondLevelStorage.mosaics, List.map_append, hmap,
        modify_eq_map harray hget hid])
    simp only [hnext, Option.map_some]
    exact ⟨hvalid, trivial, hall⟩
  | @map storage map balance hvalue hnext hmap hfind =>
    have hfilled := (hm.next storage hnext).1
    rw [mosaics_of_hasValue hvalue, others, hnext, Option.elim_some, SecondLevelStorage.mosaics, hmap, Option.elim_some,
      List.map_cons, List.map_append, List.nodup_cons, List.nodup_append, List.mem_append, not_or] at hnodup
    obtain ⟨⟨-, hvalueMap⟩, -, -, hdisjoint⟩ := hnodup
    have hmem : id ∈ map.entries.map Prod.fst := SortedMap.mem_keys_iff.2 ⟨balance, hfind⟩
    have harray : storage.array.map (withAmount id amount) = storage.array :=
      map_withAmount_of_ne fun e he heq => hdisjoint e.1 (List.mem_map_of_mem he) id hmem heq
    have hentries : (map.modify id fun _ => amount).entries = map.entries.map (withAmount id amount) := by
      rw [SortedMap.entries_modify]
      refine List.map_congr_left fun e _ => ?_
      by_cases he : e.1 = id
      · rw [withAmount, if_pos he, if_pos he]
      · rw [withAmount, if_neg he, if_neg he]
    obtain ⟨hvalid, hall⟩ := @setAmount_next m id hm hvalue storage
      { storage with map := some (map.modify id fun _ => amount) } amount hnext
      ⟨hfilled.length_le, by
        rintro _ ⟨rfl⟩
        refine ⟨(hfilled.map map hmap).1, fun hnil => (hfilled.map map hmap).2 ?_⟩
        rwa [hentries, List.map_eq_nil_iff] at hnil⟩
      (fun heq => hvalueMap (heq ▸ hmem))
      (by rw [SecondLevelStorage.mosaics, SecondLevelStorage.mosaics, hmap, Option.elim_some, Option.elim_some,
        List.map_append, harray, hentries])
    simp only [hnext, hmap, Option.map_some]
    exact ⟨hvalid, trivial, hall⟩

theorem mem_of_find? {amount : Amount} (h : m.find? id = some amount) : (id, amount) ∈ m.mosaics := by
  have hfound := found_find m id
  rw [find?] at h
  generalize m.find id = location at hfound h
  cases hfound with
  | none => cases h
  | value hvalue hid =>
    cases h
    rw [mosaics_of_hasValue hvalue, ← hid]
    exact List.mem_cons_self
  | @array storage index e hvalue hnext hget hid =>
    simp only [hnext, Option.bind_some, hget, Option.map_some, Option.some.injEq] at h
    rw [mosaics_of_hasValue hvalue, others, hnext, ← h, ← hid]
    exact List.mem_cons_of_mem _ (List.mem_append_left _ (List.mem_of_getElem? hget))
  | @map storage map amount' hvalue hnext hmap hfind =>
    simp only [hnext, Option.bind_some, hmap, hfind] at h
    cases h
    rw [mosaics_of_hasValue hvalue, others, hnext]
    refine List.mem_cons_of_mem _ (List.mem_append_right _ ?_)
    rw [hmap]
    exact SortedMap.mem_entries_iff.2 hfind

theorem Valid.find?_eq_none_iff (hm : m.Valid) : m.find? id = none ↔ ∀ e ∈ m.mosaics, e.1 ≠ id := by
  constructor
  · intro hnone
    rcases erase_spec hm.toStored id with ⟨-, hnot⟩ | ⟨amount, hsome, -⟩
    · exact hnot
    · rw [hnone] at hsome
      cases hsome
  · intro hnot
    rw [find?, find_eq_none hnot]

theorem Valid.find?_eq_some_iff (hm : m.Valid) {amount : Amount} :
    m.find? id = some amount ↔ (id, amount) ∈ m.mosaics := by
  refine ⟨mem_of_find?, fun hmem => ?_⟩
  cases hfind : m.find? id with
  | none => exact absurd rfl (hm.find?_eq_none_iff.1 hfind _ hmem)
  | some amount' =>
    have heq := List.inj_on_of_nodup_map (nodup_of_optimized hm.sorted) (mem_of_find? hfind) hmem rfl
    rw [(Prod.mk.inj heq).2]

theorem Valid.find?_eq (hm : m.Valid) {o : Option Amount} (h : ∀ amount, (id, amount) ∈ m.mosaics ↔ o = some amount) :
    m.find? id = o := by
  apply Option.ext
  intro amount
  rw [hm.find?_eq_some_iff]
  exact h amount

theorem find?_insert (hm : m.Valid) (hid : pair.1 ≠ 0) (hnone : m.find? pair.1 = none) :
    ∃ m', m.insert pair = .ok m' ∧ m'.Valid ∧ m'.optimizedMosaicId = m.optimizedMosaicId ∧
      ∀ k, m'.find? k = if k = pair.1 then some pair.2 else m.find? k := by
  obtain ⟨m', hok, hvalid, hopt, hperm⟩ := insert_spec hm hid (hm.find?_eq_none_iff.1 hnone)
  refine ⟨m', hok, hvalid, hopt, fun k => hvalid.find?_eq fun amount => ?_⟩
  rw [hperm.mem_iff, List.mem_cons, ← hm.find?_eq_some_iff]
  by_cases heq : k = pair.1
  · subst heq
    rw [hnone, if_pos rfl]
    simp [Prod.ext_iff, eq_comm]
  · rw [if_neg heq]
    simp [Prod.ext_iff, heq]

theorem find?_setAmount (hm : m.Valid) (id : MosaicId) (amount : Amount) (k : MosaicId) :
    (m.setAmount id amount).find? k = if k = id then (m.find? id).map fun _ => amount else m.find? k := by
  obtain ⟨hvalid, -, hall⟩ := setAmount_spec hm id amount
  refine hvalid.find?_eq fun amount' => ?_
  rw [hall, List.mem_map]
  constructor
  · rintro ⟨⟨k', balance⟩, hold, heq⟩
    rw [← hm.find?_eq_some_iff] at hold
    by_cases hid : k' = id
    · subst hid
      rw [withAmount, if_pos rfl] at heq
      cases heq
      rw [if_pos rfl, hold]
      rfl
    · rw [withAmount, if_neg hid] at heq
      cases heq
      rw [if_neg hid, hold]
  · intro hfind
    by_cases hid : k = id
    · rw [if_pos hid] at hfind
      obtain ⟨balance, hbalance, rfl⟩ := Option.map_eq_some_iff.1 hfind
      exact ⟨(id, balance), mem_of_find? hbalance, by rw [withAmount, if_pos rfl, hid]⟩
    · rw [if_neg hid] at hfind
      exact ⟨(k, amount'), mem_of_find? hfind, if_neg hid⟩

theorem find?_erase (hm : m.Valid) (id : MosaicId) : (m.erase id).Valid ∧
    (m.erase id).optimizedMosaicId = m.optimizedMosaicId ∧
    ∀ k, (m.erase id).find? k = if k = id then none else m.find? k := by
  rcases erase_spec hm.toStored id with ⟨hnone, hnot⟩ | ⟨amount, hsome, herased⟩
  · have hsame : m.erase id = m := by rw [erase, find_eq_none hnot]
    rw [hsame]
    refine ⟨hm, rfl, fun k => ?_⟩
    split
    · rename_i heq
      rw [heq, hnone]
    · rfl
  · have hvalid : (m.erase id).Valid :=
      ⟨herased.stored, by rw [herased.optimized]; exact hm.sorted.sublist herased.sublist⟩
    have hnot := herased.notMem (nodup_of_optimized hm.sorted)
    refine ⟨hvalid, herased.optimized, fun k => hvalid.find?_eq fun amount' => ?_⟩
    by_cases heq : k = id
    · rw [if_pos heq]
      exact iff_of_false (fun he => hnot _ he heq) nofun
    · rw [if_neg heq, hm.find?_eq_some_iff, herased.perm.mem_iff, List.mem_cons]
      refine (or_iff_right fun hpair => heq ?_).symm
      exact (Prod.mk.inj hpair).1

theorem find?_optimize (hm : m.Valid) (id : MosaicId) : ∃ m', m.optimize id = .ok m' ∧ m'.Valid ∧
    m'.optimizedMosaicId = id ∧ ∀ k, m'.find? k = m.find? k := by
  obtain ⟨m', hok, hvalid, hopt, hperm⟩ := optimize_spec hm id
  refine ⟨m', hok, hvalid, hopt, fun k => hvalid.find?_eq fun amount => ?_⟩
  rw [hperm.mem_iff, hm.find?_eq_some_iff]

theorem eq_of_optimized {o : MosaicId} {l l' : List Mosaic} (hl : Optimized o l) (hl' : Optimized o l')
    (hperm : l.Perm l') : l = l' := by
  refine hperm.eq_of_pairwise (fun a b _ _ hab hba => ?_) hl hl'
  exact absurd rfl (ne_of_isLessThan (isLessThan_trans hab hba)).1

theorem Valid.mosaics_eq (hm : m.Valid) {l : List Mosaic} (hl : Optimized m.optimizedMosaicId l)
    (hmem : ∀ e, e ∈ l ↔ m.find? e.1 = some e.2) : m.mosaics = l := by
  refine eq_of_optimized hm.sorted hl ?_
  refine (List.perm_ext_iff_of_nodup (nodup_of_optimized hm.sorted).of_map (nodup_of_optimized hl).of_map).2 fun e => ?_
  rw [hmem, hm.find?_eq_some_iff]

end CompactMosaicMap
end Catapult.State
