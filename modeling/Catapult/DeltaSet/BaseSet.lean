import Catapult.DeltaSet.IterationView

/-!
# Sets and their commits (`BaseSet`, `UpdateSet`)

A commit adds the added elements, replaces the copied ones and erases the removed ones, so that an added
element that was removed again is inserted and erased. `delta_refines_map` collects what holds for the
delta of a set after any calls.
-/

namespace Catapult.DeltaSet
open Container

variable {Storage Memory Key Value : Type*} [DecidableEq Key] [Container Storage Key Value] [Container Memory Key Value]

/-- One element of `Copied` in `UpdateSet`; `none` when it throws. -/
def updateElement (elements : Storage) (element : Key × Value) : Option Storage :=
  if Container.contains elements element.1 then
    some (Container.insert (erase elements element.1) element.1 element.2)
  else none

def updateSet (elements : Storage) (added removed copied : Memory) : Option Storage :=
  let elements := (Container.elements added).foldl (fun elements e => Container.insert elements e.1 e.2) elements
  ((Container.elements copied).foldlM updateElement elements).map fun elements =>
    (Container.elements removed).foldl (fun elements e => erase elements e.1) elements

/-- `BaseSet` with its attached delta. -/
structure BaseSet (Storage Memory Key : Type*) where
  elements : Storage
  delta : Option (BaseSetDelta Storage Memory Key)

namespace BaseSet

/-- `commit`: `none` without an attached delta, and when `UpdateSet` throws. The delta refers to the
elements of the set also when they have changed. -/
def commit (set : BaseSet Storage Memory Key) : Option (BaseSet Storage Memory Key) :=
  match set.delta with
  | none => none
  | some delta =>
    (updateSet set.elements delta.addedElements delta.removedElements delta.copiedElements).map fun elements =>
      ⟨elements, some { delta.reset with originalElements := elements }⟩

end BaseSet

theorem foldlM_updateElement {l : List (Key × Value)} (hnd : (l.map Prod.fst).Nodup) {c : Storage}
    (hl : ∀ e ∈ l, e.1 ∈ c) :
    ∃ c', l.foldlM updateElement c = some c' ∧ ∀ e, e ∈ elements c' ↔
      (e ∈ elements c ∧ e.1 ∉ l.map Prod.fst) ∨ e ∈ l := by
  induction l generalizing c with
  | nil => exact ⟨c, rfl, by simp⟩
  | cons a l ih =>
    obtain ⟨ha, hnd⟩ := List.nodup_cons.1 hnd
    have hstep : updateElement c a = some (Container.insert (erase c a.1) a.1 a.2) := by
      rw [updateElement, if_pos (Container.contains_iff.2 (hl a (by simp)))]
    have hmem : ∀ e, e ∈ elements (Container.insert (erase c a.1) a.1 a.2) ↔ (e ∈ elements c ∧ e.1 ≠ a.1) ∨ e = a := by
      intro e
      rw [mem_insert, mem_erase]
      simp [mem_erase]
    have hl' : ∀ e ∈ l, e.1 ∈ Container.insert (erase c a.1) a.1 a.2 := by
      intro e he
      obtain ⟨v, hv⟩ := hl e (by simp [he])
      exact ⟨v, (hmem _).2 (.inl ⟨hv, fun heq => ha (List.mem_map.2 ⟨e, he, heq⟩)⟩)⟩
    obtain ⟨c', hfold, hc'⟩ := ih hnd hl'
    refine ⟨c', ?_, fun e => ?_⟩
    · rw [List.foldlM_cons, hstep]
      exact hfold
    · rw [hc', hmem, List.map_cons, List.mem_cons, List.mem_cons]
      constructor
      · rintro (⟨⟨he, hne⟩ | rfl, hnot⟩ | he)
        · exact .inl ⟨he, fun h => h.elim hne hnot⟩
        · exact .inr (.inl rfl)
        · exact .inr (.inr he)
      · rintro (⟨he, hnot⟩ | rfl | he)
        · exact .inl ⟨.inl ⟨he, fun h => hnot (.inl h)⟩, fun h => hnot (.inr h)⟩
        · exact .inl ⟨.inr rfl, ha⟩
        · exact .inr he

theorem mem_map_elements {c : Memory} {key : Key} : key ∈ (elements c).map Prod.fst ↔ Container.find c key ≠ none := by
  rw [← mem_iff, ← mem_keys, keys, List.mem_toFinset]

theorem Slot.Valid.committed_iff {slot : Slot Value} (h : slot.Valid) (value : Value) :
    ((slot.original = some value ∨ slot.added = some value ∧ ¬ slot.original ≠ none) ∧ ¬ slot.copied ≠ none ∨
        slot.copied = some value) ∧ ¬ slot.removed ≠ none ↔
      slot.value = some value := by
  obtain ⟨original, added, removed, copied⟩ := slot
  cases removed with
  | some removed => simp [Slot.value]
  | none =>
    cases copied with
    | some copied => simp [Slot.value]
    | none =>
      cases original with
      | some original =>
        have hadded : added = none := by
          by_contra hne
          exact Option.some_ne_none _ (h.added_original hne)
        simp [Slot.value, hadded]
      | none => simp [Slot.value]

theorem updateSet_eq {delta : BaseSetDelta Storage Memory Key} (h : delta.Invariant) :
    ∃ elements', updateSet delta.originalElements delta.addedElements delta.removedElements
      delta.copiedElements = some elements' ∧
      Container.find elements' = delta.find := by
  have hcopied : ∀ e ∈ elements delta.copiedElements,
      e.1 ∈ (elements delta.addedElements).foldl (fun c e => Container.insert c e.1 e.2) delta.originalElements := by
    intro e he
    obtain ⟨v, hv⟩ := h.copied_original e.1 ⟨e.2, he⟩
    exact ⟨v, (mem_foldl_insert (nodup _)).2 (.inl hv)⟩
  obtain ⟨c, hfold, hc⟩ := foldlM_updateElement (nodup delta.copiedElements) hcopied
  refine ⟨_, by rw [updateSet, hfold]; rfl, funext fun key => find_ext fun value => ?_⟩
  rw [mem_foldl_erase, hc, mem_foldl_insert (nodup _), BaseSetDelta.find_eq_value, mem_map_elements, mem_map_elements,
    mem_iff, ← find_eq_some_iff, ← find_eq_some_iff, ← find_eq_some_iff]
  exact (BaseSetDelta.invariant_iff.1 h key).committed_iff value

structure RefinesMap (map : Key → Option Value) (delta : BaseSetDelta Storage Memory Key) : Prop where
  invariant : delta.Invariant
  find_eq : ∀ key, delta.find key = map key
  contains_iff : ∀ key, delta.contains key = true ↔ map key ≠ none
  mem_visibleKeys : ∀ key, key ∈ delta.visibleKeys ↔ map key ≠ none
  /-- The size does not underflow, and is the number of visible keys. -/
  removed_le : Container.size delta.removedElements ≤
    Container.size delta.originalElements + Container.size delta.addedElements
  size_eq : delta.size = UInt64.ofNat delta.visibleKeys.card
  /-- A loop over the view visits every visible key once, with its value. -/
  iterate : delta.visibleKeys.card < 2 ^ 64 → ∃ elements, (makeIterableView delta).toList = some elements ∧
    (elements.map Prod.fst).Nodup ∧ ∀ key value, (key, value) ∈ elements ↔ map key = some value
  /-- A commit does not throw; the set has the visible elements and the delta is like a new one. -/
  commit : ∃ elements', BaseSet.commit ⟨delta.originalElements, some delta⟩ =
    some ⟨elements', some (.create elements')⟩ ∧
    ∀ key, Container.find elements' key = map key

/-- For every original set and any calls, a delta stands for the map that the calls make of the original elements. -/
theorem delta_refines_map (originalElements : Storage) (operations : List (SetOperation Key Value)) :
    RefinesMap (operations.foldl (SetOperation.applyToMap (Container.find originalElements))
      (Container.find originalElements))
      ((BaseSetDelta.create originalElements : BaseSetDelta Storage Memory Key).run operations) := by
  have hcreate : (BaseSetDelta.create originalElements : BaseSetDelta Storage Memory Key).Invariant :=
    BaseSetDelta.invariant_create originalElements
  obtain ⟨hinv, horiginal, hfind⟩ := hcreate.run operations
  have hinit : (BaseSetDelta.create originalElements : BaseSetDelta Storage Memory Key).find =
      Container.find originalElements :=
    funext (BaseSetDelta.find_create originalElements)
  rw [hinit] at hfind
  rw [show (BaseSetDelta.create originalElements : BaseSetDelta Storage Memory Key).originalElements =
    originalElements from rfl] at hfind
  rw [← hfind]
  have hcard := BaseSetDelta.card_visibleKeys hinv
  refine ⟨hinv, fun key => rfl, fun key => BaseSetDelta.contains_iff hinv, fun key => BaseSetDelta.mem_visibleKeys hinv,
    by omega, BaseSetDelta.size_eq hinv, toList_makeIterableView hinv, ?_⟩
  obtain ⟨elements', hupdate, helements'⟩ := updateSet_eq hinv
  refine ⟨elements', ?_, fun key => congrFun helements' key⟩
  simp only [BaseSet.commit, hupdate, Option.map_some]
  rfl

end Catapult.DeltaSet
