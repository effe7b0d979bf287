import Catapult.State.MosaicIterator

/-!
# The map of mosaics is a plain map

A `PlainMap` binds mosaic ids to amounts and remembers which mosaic comes first. A compact map represents it
(`Represents`) when the same amounts are found under all ids. Every operation either throws for both or leads to a
compact map that represents the new plain map, so a compact map cannot be told from a plain one by its finds, its size
or its iteration (`Represents.refines`).
-/

namespace Catapult.State

/-- What a client does. The amount is changed through the iterator that is found. -/
inductive MosaicOperation where
  | insert (pair : Mosaic)
  | modify (id : MosaicId) (amount : Amount)
  | erase (id : MosaicId)
  | optimize (id : MosaicId)

/-- A map from mosaic ids to amounts, and the mosaic that comes first. -/
structure PlainMap where
  amounts : MosaicMap := ∅
  first : MosaicId := 0

namespace PlainMap

def step (p : PlainMap) : MosaicOperation → Except BalanceError PlainMap
  | .insert pair =>
    if pair.1 = 0 then throw (.reservedMosaic pair.1)
    else if (p.amounts.find? pair.1).isSome then throw (.alreadyInMap pair.1)
    else return { p with amounts := p.amounts.insert pair.1 pair.2 }
  | .modify id amount => return { p with amounts := p.amounts.modify id fun _ => amount }
  | .erase id => return { p with amounts := p.amounts.erase id }
  | .optimize id => return { p with first := id }

def apply (p : PlainMap) (op : MosaicOperation) : PlainMap := (p.step op).toOption.getD p

def run (p : PlainMap) (ops : List MosaicOperation) : PlainMap := ops.foldl apply p

/-- The mosaic that comes first, and then all others by their ids. -/
def iteration (p : PlainMap) : List Mosaic :=
  ((p.amounts.find? p.first).map (Prod.mk p.first)).toList ++ (p.amounts.erase p.first).entries

end PlainMap

namespace CompactMosaicMap

def step (m : CompactMosaicMap) : MosaicOperation → Except BalanceError CompactMosaicMap
  | .insert pair => m.insert pair
  | .modify id amount => return m.setAmount id amount
  | .erase id => return m.erase id
  | .optimize id => m.optimize id

/-- What throws is an insertion that has not changed anything. -/
def apply (m : CompactMosaicMap) (op : MosaicOperation) : CompactMosaicMap := (m.step op).toOption.getD m

def run (m : CompactMosaicMap) (ops : List MosaicOperation) : CompactMosaicMap := ops.foldl apply m

structure Refines (m : CompactMosaicMap) (p : PlainMap) : Prop where
  find : ∀ id, (m.findIterator id).current m = (p.amounts.find? id).map (Prod.mk id)
  found : ∀ id, (m.findIterator id).isEnd = true ↔ p.amounts.find? id = none
  size : m.size = p.amounts.size
  empty : m.empty = true ↔ p.amounts = ∅
  iteration : ∀ i, ((Iterator.advance m)^[i] m.begin).current m = p.iteration[i]?
  isEnd : ∀ i, ((Iterator.advance m)^[i] m.begin).isEnd = true ↔ p.amounts.size ≤ i
  throws : ∀ op error, m.step op = .error error ↔ p.step op = .error error

structure Represents (m : CompactMosaicMap) (p : PlainMap) : Prop where
  valid : m.Valid
  find? : ∀ id, m.find? id = p.amounts.find? id
  optimized : m.optimizedMosaicId = p.first

section Represents
variable {m : CompactMosaicMap} {p : PlainMap}

theorem insert_represents (h : m.Represents p) (pair : Mosaic) :
    (∃ m' p', m.insert pair = .ok m' ∧ p.step (.insert pair) = .ok p' ∧ m'.Represents p') ∨
      ∃ error, m.insert pair = .error error ∧ p.step (.insert pair) = .error error := by
  by_cases hid : pair.1 = 0
  · exact .inr ⟨.reservedMosaic pair.1, by rw [insert, if_pos hid]; rfl, by rw [PlainMap.step, if_pos hid]; rfl⟩
  cases hfind : m.find? pair.1 with
  | some amount =>
    have hsome : (m.find pair.1).isSome = true := by
      rw [CompactMosaicMap.find?] at hfind
      cases hlocation : m.find pair.1 with
      | none => rw [hlocation] at hfind; cases hfind
      | some location => rfl
    refine .inr ⟨.alreadyInMap pair.1, ?_, ?_⟩
    · rw [insert, if_neg hid, if_pos hsome]
      rfl
    · rw [PlainMap.step, if_neg hid, ← h.find?, hfind]
      rfl
  | none =>
    obtain ⟨m', hok, hvalid, hopt, hfinds⟩ := find?_insert h.valid hid hfind
    refine .inl ⟨m', { p with amounts := p.amounts.insert pair.1 pair.2 }, hok, ?_, hvalid, fun k => ?_,
      hopt.trans h.optimized⟩
    · rw [PlainMap.step, if_neg hid, ← h.find?, hfind]
      rfl
    · rw [hfinds, SortedMap.find?_insert, h.find?]
      split <;> rfl

theorem setAmount_represents (h : m.Represents p) (id : MosaicId) (amount : Amount) :
    (m.setAmount id amount).Represents { p with amounts := p.amounts.modify id fun _ => amount } := by
  obtain ⟨hvalid, hopt, -⟩ := setAmount_spec h.valid id amount
  refine ⟨hvalid, fun k => ?_, hopt.trans h.optimized⟩
  rw [find?_setAmount h.valid, SortedMap.find?_modify, h.find?, h.find?]
  split <;> rfl

theorem erase_represents (h : m.Represents p) (id : MosaicId) :
    (m.erase id).Represents { p with amounts := p.amounts.erase id } := by
  obtain ⟨hvalid, hopt, hfinds⟩ := find?_erase h.valid id
  refine ⟨hvalid, fun k => ?_, hopt.trans h.optimized⟩
  rw [hfinds, SortedMap.find?_erase, h.find?]
  split <;> rfl

theorem optimize_represents (h : m.Represents p) (id : MosaicId) :
    ∃ m', m.optimize id = .ok m' ∧ m'.Represents { p with first := id } := by
  obtain ⟨m', hok, hvalid, hopt, hfinds⟩ := find?_optimize h.valid id
  exact ⟨m', hok, hvalid, fun k => (hfinds k).trans (h.find? k), hopt⟩

theorem step_represents (h : m.Represents p) (op : MosaicOperation) :
    (∃ m' p', m.step op = .ok m' ∧ p.step op = .ok p' ∧ m'.Represents p') ∨
      ∃ error, m.step op = .error error ∧ p.step op = .error error := by
  cases op with
  | insert pair => exact insert_represents h pair
  | modify id amount => exact .inl ⟨_, _, rfl, rfl, setAmount_represents h id amount⟩
  | erase id => exact .inl ⟨_, _, rfl, rfl, erase_represents h id⟩
  | optimize id =>
    obtain ⟨m', hok, hrepresents⟩ := optimize_represents h id
    exact .inl ⟨m', _, hok, rfl, hrepresents⟩

theorem apply_represents (h : m.Represents p) (op : MosaicOperation) : (m.apply op).Represents (p.apply op) := by
  rcases step_represents h op with ⟨m', p', hm, hp, hrepresents⟩ | ⟨error, hm, hp⟩
  · rw [apply, PlainMap.apply, hm, hp]
    exact hrepresents
  · rw [apply, PlainMap.apply, hm, hp]
    exact h

theorem run_represents (h : m.Represents p) (ops : List MosaicOperation) : (m.run ops).Represents (p.run ops) := by
  induction ops generalizing m p with
  | nil => exact h
  | cons op ops ih => exact ih (apply_represents h op)

theorem represents_empty : Represents {} {} :=
  ⟨⟨stored_empty 0, List.Pairwise.nil⟩, fun _ => rfl, rfl⟩

theorem optimized_iteration (p : PlainMap) : Optimized p.first p.iteration := by
  have hne : ∀ e ∈ (p.amounts.erase p.first).entries, e.1 ≠ p.first := by
    intro e he heq
    rw [SortedMap.mem_entries_iff, SortedMap.find?_erase, if_pos heq] at he
    cases he
  have hrest := optimized_of_ascending (SortedMap.sorted (p.amounts.erase p.first)) hne
  rw [PlainMap.iteration]
  cases p.amounts.find? p.first with
  | none => exact hrest
  | some amount => exact List.pairwise_cons.2 ⟨fun e he => isLessThan_optimized (hne e he), hrest⟩

theorem mem_iteration (p : PlainMap) (e : Mosaic) : e ∈ p.iteration ↔ p.amounts.find? e.1 = some e.2 := by
  rw [PlainMap.iteration, List.mem_append, SortedMap.mem_entries_iff, SortedMap.find?_erase]
  obtain ⟨id, amount⟩ := e
  by_cases heq : id = p.first
  · subst heq
    cases p.amounts.find? p.first <;> simp [eq_comm]
  · rw [if_neg heq]
    refine or_iff_right fun hmem => heq ?_
    exact SortedMap.mem_toList_map hmem

theorem Represents.mosaics_eq (h : m.Represents p) : m.mosaics = p.iteration := by
  refine h.valid.mosaics_eq (h.optimized ▸ optimized_iteration p) fun e => ?_
  rw [mem_iteration, h.find?]

theorem length_iteration (p : PlainMap) : p.iteration.length = p.amounts.size := by
  rw [PlainMap.iteration, List.length_append]
  cases hfind : p.amounts.find? p.first with
  | none =>
    have hsame : p.amounts.erase p.first = p.amounts := by
      apply SortedMap.ext_find?
      intro id
      rw [SortedMap.find?_erase]
      split
      · rename_i heq
        rw [heq, hfind]
      · rfl
    rw [hsame]
    exact Nat.zero_add _
  | some amount =>
    have hsize := SortedMap.size_erase_of_some hfind
    rw [SortedMap.size] at hsize
    simp only [Option.map_some, Option.toList_some, List.length_singleton]
    omega

theorem Represents.refines (h : m.Represents p) : m.Refines p := by
  have hcompacted := h.valid.toStored.compacted
  have hlength : m.mosaics.length = p.amounts.size := by rw [h.mosaics_eq, length_iteration]
  refine ⟨fun id => ?_, fun id => ?_, ?_, ?_, fun i => ?_, fun i => ?_, fun op error => ?_⟩
  · rw [current_findIterator, h.find?]
  · rw [isEnd_findIterator, h.find?]
  · rw [size_eq, hlength]
  · rw [empty, Bool.not_eq_true']
    constructor
    · intro hvalue
      apply SortedMap.eq_empty_of_size
      rw [← hlength, mosaics_of_not_hasValue hvalue, List.length_nil]
    · intro hempty
      rw [hempty, SortedMap.size_empty, List.length_eq_zero_iff] at hlength
      cases hvalue : m.hasValue with
      | false => rfl
      | true => rw [mosaics_of_hasValue hvalue] at hlength; cases hlength
  · rw [current_begin hcompacted, h.mosaics_eq]
  · rw [isEnd_begin hcompacted, hlength]
  · rcases step_represents h op with ⟨m', p', hm, hp, -⟩ | ⟨error', hm, hp⟩
    · rw [hm, hp]
      exact iff_of_false nofun nofun
    · rw [hm, hp]
      simp

end Represents

/-- After every sequence of operations a map is seen as a plain map, and its storages are used in their order. -/
theorem run_refines (ops : List MosaicOperation) :
    (run {} ops).Refines (PlainMap.run {} ops) ∧ (run {} ops).Compacted := by
  have hrepresents := run_represents represents_empty ops
  exact ⟨hrepresents.refines, hrepresents.valid.toStored.compacted⟩

end CompactMosaicMap
end Catapult.State
