import Catapult.DeltaSet.BaseSetDelta

/-!
# Iterating over a delta (`BaseSetDeltaIterationView`)

The iterator visits the original elements that are not removed, with the copied elements in their place, and then the
added elements that are not removed. It counts its steps, and the end is the position that equals the size of the
delta. `remaining` is what the iterator still has to visit; each step takes its first element.
-/

namespace Catapult.DeltaSet
open Container

structure BaseSetDeltaIterationView (Storage Memory : Type*) where
  originalElements : Storage
  added : Memory
  removed : Memory
  copied : Memory
  size : UInt64

inductive IterationStage where
  | original
  | added

/-- The iterators of the containers are the elements from there on. -/
structure ViewIterator (Key Value : Type*) where
  position : UInt64
  stage : IterationStage
  iter : List (Key × Value)
  originalIter : List (Key × Value)

variable {Storage Memory Key Value : Type*} [DecidableEq Key] [Container Memory Key Value]

def makeIterableView [Container Storage Key Value] (delta : BaseSetDelta Storage Memory Key) :
    BaseSetDeltaIterationView Storage Memory where
  originalElements := delta.originalElements
  added := delta.addedElements
  removed := delta.removedElements
  copied := delta.copiedElements
  size := delta.size

namespace BaseSetDeltaIterationView
variable (view : BaseSetDeltaIterationView Storage Memory)

/-- The next original element that is not removed: the element to visit, and the original iterator. -/
def handleOriginalStage : List (Key × Value) → Option (List (Key × Value) × List (Key × Value))
  | [] => none
  | e :: rest =>
    if contains view.removed e.1 then handleOriginalStage rest
    else some (if (findIter view.copied e.1).isEmpty then e :: rest else findIter view.copied e.1, e :: rest)

def handleAddedStage (iter : List (Key × Value)) : List (Key × Value) :=
  iter.dropWhile fun e => contains view.removed e.1

def moveToValidElement (it : ViewIterator Key Value) : ViewIterator Key Value :=
  match it.stage with
  | .original =>
    match view.handleOriginalStage it.originalIter with
    | some (iter, originalIter) => { it with iter, originalIter }
    | none => { it with stage := .added, iter := view.handleAddedStage (elements view.added), originalIter := [] }
  | .added => { it with iter := view.handleAddedStage it.iter }

def iteratorAt [Container Storage Key Value] (position : UInt64) : ViewIterator Key Value :=
  let it : ViewIterator Key Value :=
    ⟨position, .original, elements view.originalElements, elements view.originalElements⟩
  if position = view.size then { it with iter := [] } else view.moveToValidElement it

def incrementIterator (it : ViewIterator Key Value) : ViewIterator Key Value :=
  match it.stage with
  | .original => { it with originalIter := it.originalIter.tail }
  | .added => { it with iter := it.iter.tail }

/-- `operator++`; `none` when it throws. -/
def increment (it : ViewIterator Key Value) : Option (ViewIterator Key Value) :=
  if it.position = view.size then none
  else some (view.moveToValidElement (incrementIterator { it with position := it.position + 1 }))

/-- `operator*`; `none` when it throws, or at the end of a container. -/
def dereference (it : ViewIterator Key Value) : Option (Key × Value) :=
  if it.position = view.size then none else it.iter.head?

/-- The elements that a loop up to `end` visits, in at most so many steps. -/
def collect : Nat → ViewIterator Key Value → Option (List (Key × Value))
  | 0, it => if it.position = view.size then some [] else none
  | steps + 1, it =>
    if it.position = view.size then some []
    else do
      let element ← view.dereference it
      let next ← view.increment it
      let rest ← collect steps next
      return element :: rest

/-- The elements from `begin` to `end`. -/
def toList [Container Storage Key Value] : Option (List (Key × Value)) :=
  view.collect view.size.toNat (view.iteratorAt 0)

/-! ### What is visited -/

def visibleOriginal (e : Key × Value) : Option (Key × Value) :=
  if contains view.removed e.1 then none else some (e.1, (find view.copied e.1).getD e.2)

def visibleAdded (iter : List (Key × Value)) : List (Key × Value) :=
  iter.filter fun e => !contains view.removed e.1

def visibleElements [Container Storage Key Value] : List (Key × Value) :=
  (elements view.originalElements).filterMap view.visibleOriginal ++ view.visibleAdded (elements view.added)

def remaining (it : ViewIterator Key Value) : List (Key × Value) :=
  match it.stage with
  | .original => it.originalIter.filterMap view.visibleOriginal ++ view.visibleAdded (elements view.added)
  | .added => view.visibleAdded it.iter

structure Settled (it : ViewIterator Key Value) : Prop where
  head_eq : it.iter.head? = (view.remaining it).head?
  tail_eq : view.remaining (incrementIterator it) = (view.remaining it).tail

variable {view}

theorem handleOriginalStage_some {l iter l' : List (Key × Value)} (h : view.handleOriginalStage l = some (iter, l')) :
    ∃ e rest, l' = e :: rest ∧ view.visibleOriginal e = iter.head? ∧
      l.filterMap view.visibleOriginal = l'.filterMap view.visibleOriginal ∧ (view.visibleOriginal e).isSome := by
  induction l with
  | nil => simp [handleOriginalStage] at h
  | cons e l ih =>
    rw [handleOriginalStage] at h
    split at h
    · rename_i hr
      obtain ⟨e', rest, hl', hhead, hmap, hsome⟩ := ih h
      refine ⟨e', rest, hl', hhead, ?_, hsome⟩
      rw [List.filterMap_cons_none, hmap]
      rw [visibleOriginal, if_pos hr]
    · rename_i hr
      simp only [Option.some.injEq, Prod.mk.injEq] at h
      obtain ⟨rfl, rfl⟩ := h
      have hvisible : view.visibleOriginal e = some (e.1, (find view.copied e.1).getD e.2) := by
        rw [visibleOriginal, if_neg hr]
      refine ⟨e, l, rfl, ?_, rfl, by rw [hvisible]; rfl⟩
      rw [hvisible]
      have hhead := head?_findIter (c := view.copied) (k := e.1)
      cases hfind : find view.copied e.1 with
      | none =>
        rw [hfind, Option.map_none, List.head?_eq_none_iff] at hhead
        rw [hhead]
        rfl
      | some v =>
        rw [hfind, Option.map_some] at hhead
        have hne : (findIter view.copied e.1).isEmpty = false := by
          cases hi : findIter view.copied e.1 with
          | nil => rw [hi] at hhead; cases hhead
          | cons _ _ => rfl
        rw [hne]
        exact hhead.symm

theorem handleOriginalStage_none {l : List (Key × Value)} (h : view.handleOriginalStage l = none) :
    l.filterMap view.visibleOriginal = [] := by
  induction l with
  | nil => rfl
  | cons e l ih =>
    rw [handleOriginalStage] at h
    split at h
    · rename_i hr
      rw [List.filterMap_cons_none, ih h]
      rw [visibleOriginal, if_pos hr]
    · cases h

theorem visibleAdded_handleAddedStage (l : List (Key × Value)) :
    view.visibleAdded (view.handleAddedStage l) = view.visibleAdded l := by
  induction l with
  | nil => rfl
  | cons e l ih =>
    rw [handleAddedStage, List.dropWhile_cons]
    split
    · rename_i hr
      rw [visibleAdded, visibleAdded, List.filter_cons_of_neg (by simp [hr])]
      exact ih
    · rfl

theorem head?_handleAddedStage (l : List (Key × Value)) :
    (view.handleAddedStage l).head? = (view.visibleAdded l).head? := by
  induction l with
  | nil => rfl
  | cons e l ih =>
    rw [handleAddedStage, List.dropWhile_cons, visibleAdded]
    cases hr : contains view.removed e.1 with
    | true =>
      rw [List.filter_cons_of_neg (by simp [hr])]
      exact ih
    | false =>
      rw [List.filter_cons_of_pos (by simp [hr])]
      rfl

theorem visibleAdded_tail (l : List (Key × Value)) :
    view.visibleAdded (view.handleAddedStage l).tail = (view.visibleAdded l).tail := by
  induction l with
  | nil => rfl
  | cons e l ih =>
    rw [handleAddedStage, List.dropWhile_cons]
    cases hr : contains view.removed e.1 with
    | true =>
      rw [visibleAdded, visibleAdded, List.filter_cons_of_neg (by simp [hr])]
      exact ih
    | false =>
      rw [visibleAdded, visibleAdded, List.filter_cons_of_pos (by simp [hr])]
      rfl

theorem moveToValidElement_spec (it : ViewIterator Key Value) :
    (view.moveToValidElement it).position = it.position ∧
      view.remaining (view.moveToValidElement it) = view.remaining it ∧
      view.Settled (view.moveToValidElement it) := by
  obtain ⟨position, stage, iter, originalIter⟩ := it
  cases stage with
  | original =>
    cases h : view.handleOriginalStage originalIter with
    | none =>
      have hmove : view.moveToValidElement ⟨position, .original, iter, originalIter⟩ =
          ⟨position, .added, view.handleAddedStage (elements view.added), []⟩ := by simp only [moveToValidElement, h]
      have hremaining : view.remaining ⟨position, .added, view.handleAddedStage (elements view.added), []⟩ =
          view.visibleAdded (elements view.added) := visibleAdded_handleAddedStage _
      rw [hmove]
      refine ⟨rfl, ?_, ?_, ?_⟩
      · rw [hremaining, remaining, handleOriginalStage_none h, List.nil_append]
      · rw [hremaining]
        exact head?_handleAddedStage _
      · rw [hremaining]
        exact visibleAdded_tail _
    | some r =>
      obtain ⟨iter', originalIter'⟩ := r
      obtain ⟨e, rest, rfl, hhead, hmap, hsome⟩ := handleOriginalStage_some h
      have hmove : view.moveToValidElement ⟨position, .original, iter, originalIter⟩ =
          ⟨position, .original, iter', e :: rest⟩ := by simp only [moveToValidElement, h]
      obtain ⟨e', he'⟩ := Option.isSome_iff_exists.1 hsome
      rw [hmove]
      refine ⟨rfl, ?_, ?_, ?_⟩
      · simp only [remaining, hmap]
      · simp only [remaining, List.filterMap_cons_some he', List.cons_append, List.head?_cons]
        rw [← hhead, he']
      · simp only [remaining, incrementIterator, List.tail_cons, List.filterMap_cons_some he', List.cons_append]
  | added =>
    refine ⟨rfl, visibleAdded_handleAddedStage iter, ?_, ?_⟩
    · exact (head?_handleAddedStage iter).trans (congrArg List.head? (visibleAdded_handleAddedStage iter).symm)
    · exact (visibleAdded_tail iter).trans (congrArg List.tail (visibleAdded_handleAddedStage iter).symm)

theorem collect_eq {it : ViewIterator Key Value} (hit : view.Settled it)
    (hsize : it.position.toNat + (view.remaining it).length = view.size.toNat) :
    view.collect (view.remaining it).length it = some (view.remaining it) := by
  generalize hrest : view.remaining it = rest at hsize ⊢
  induction rest generalizing it with
  | nil =>
    have hend : it.position = view.size := UInt64.toNat_inj.1 (by simpa using hsize)
    rw [List.length_nil, collect, if_pos hend]
  | cons e rest ih =>
    rw [List.length_cons] at hsize ⊢
    have hne : it.position ≠ view.size := fun h => by
      rw [h] at hsize
      omega
    have hderef : view.dereference it = some e := by
      rw [dereference, if_neg hne, hit.head_eq, hrest]
      rfl
    obtain ⟨hpos, hrem, hsettled⟩ :=
      view.moveToValidElement_spec (incrementIterator { it with position := it.position + 1 })
    have hrem' : view.remaining (incrementIterator { it with position := it.position + 1 }) = rest := by
      have htail := hit.tail_eq
      rw [hrest, List.tail_cons] at htail
      rw [← htail]
      obtain ⟨position, stage, iter, originalIter⟩ := it
      cases stage <;> rfl
    have hpos' : (incrementIterator { it with position := it.position + 1 }).position = it.position + 1 := by
      obtain ⟨position, stage, iter, originalIter⟩ := it
      cases stage <;> rfl
    have hlt := view.size.toNat_lt
    have hstep : (it.position + 1).toNat = it.position.toNat + 1 := by
      rw [UInt64.toNat_add, UInt64.toNat_one]
      omega
    have hcollect := ih hsettled (hrem.trans hrem') (by rw [hpos, hpos', hstep]; omega)
    rw [collect, if_neg hne, increment, if_neg hne, hderef]
    simp only [hcollect, Option.bind_eq_bind, Option.bind_some, Option.pure_def]

theorem toList_eq [Container Storage Key Value] (hsize : view.visibleElements.length = view.size.toNat) :
    view.toList = some view.visibleElements := by
  rw [toList, iteratorAt]
  split
  · rename_i hzero
    have hnil : view.visibleElements = [] := by
      rw [← List.length_eq_zero_iff, hsize, ← hzero]
      rfl
    have hsteps : view.size.toNat = 0 := by rw [← hzero]; rfl
    rw [hsteps, collect, if_pos hzero, hnil]
  · have hspec := view.moveToValidElement_spec
      ⟨0, .original, elements view.originalElements, elements view.originalElements⟩
    obtain ⟨hpos, hrem, hsettled⟩ := hspec
    have hvisible : view.visibleElements = view.remaining (view.moveToValidElement
        ⟨0, .original, elements view.originalElements, elements view.originalElements⟩) := hrem.symm
    rw [← hsize, hvisible]
    refine collect_eq hsettled ?_
    rw [hpos, ← hvisible, hsize]
    simp

theorem keys_visibleOriginal (l : List (Key × Value)) :
    (l.filterMap view.visibleOriginal).map Prod.fst = (l.map Prod.fst).filter fun key =>
      !contains view.removed key := by
  induction l with
  | nil => rfl
  | cons e l ih =>
    cases hr : contains view.removed e.1 with
    | true =>
      rw [List.filterMap_cons_none (by simp [visibleOriginal, hr]), List.map_cons,
        List.filter_cons_of_neg (by simp [hr]), ih]
    | false =>
      have hvisible : view.visibleOriginal e = some (e.1, (find view.copied e.1).getD e.2) := by
        simp [visibleOriginal, hr]
      rw [List.filterMap_cons_some hvisible, List.map_cons, List.map_cons, List.filter_cons_of_pos (by simp [hr]), ih]

end BaseSetDeltaIterationView

section View
variable [Container Storage Key Value] {delta : BaseSetDelta Storage Memory Key}
open BaseSetDeltaIterationView

theorem mem_visibleElements (h : delta.Invariant) {key : Key} {value : Value} :
    (key, value) ∈ (makeIterableView delta).visibleElements ↔ delta.find key = some value := by
  have hremoved : Container.contains delta.removedElements key = false ↔ (delta.slot key).removed = none := by
    rw [Container.contains]
    exact Option.isSome_eq_false_iff.trans Option.isNone_iff_eq_none
  rw [BaseSetDelta.find_eq_value, (BaseSetDelta.invariant_iff.1 h key).value_eq_some_iff, visibleElements,
    List.mem_append, List.mem_filterMap, visibleAdded, List.mem_filter, and_or_left]
  refine or_congr ?_ ?_
  · constructor
    · rintro ⟨⟨key', original⟩, hmem, hvisible⟩
      rw [visibleOriginal] at hvisible
      split at hvisible
      · cases hvisible
      · rename_i hr
        rw [Option.some.injEq, Prod.mk.injEq] at hvisible
        obtain ⟨rfl, hvalue⟩ := hvisible
        exact ⟨hremoved.1 (Bool.not_eq_true _ ▸ hr), original, find_eq_some_iff.2 hmem, hvalue⟩
    · rintro ⟨hr, original, hmem, hvalue⟩
      refine ⟨(key, original), find_eq_some_iff.1 hmem, ?_⟩
      have hr' : Container.contains (makeIterableView delta).removed key = false := hremoved.2 hr
      have hvalue' : (find (makeIterableView delta).copied key).getD original = value := hvalue
      simp only [visibleOriginal, hr', hvalue', Bool.false_eq_true, if_false]
  · rw [and_comm, Bool.not_eq_true']
    exact and_congr hremoved find_eq_some_iff.symm

theorem nodup_visibleElements (h : delta.Invariant) :
    ((makeIterableView delta).visibleElements.map Prod.fst).Nodup := by
  rw [visibleElements, List.map_append, keys_visibleOriginal]
  refine List.Nodup.append ((nodup delta.originalElements).filter _) ?_ ?_
  · exact (nodup delta.addedElements).sublist (List.Sublist.map _ List.filter_sublist)
  · intro key ho ha
    obtain ⟨⟨key₁, original⟩, hmem, rfl⟩ := List.mem_map.1 (List.mem_of_mem_filter ho)
    obtain ⟨⟨key₂, value⟩, hmem', heq⟩ := List.mem_map.1 ha
    subst heq
    exact h.added_original key₂ ⟨value, List.mem_of_mem_filter hmem'⟩ ⟨original, hmem⟩

theorem length_visibleElements (h : delta.Invariant) :
    (makeIterableView delta).visibleElements.length = delta.visibleKeys.card := by
  have hkeys : ((makeIterableView delta).visibleElements.map Prod.fst).toFinset = delta.visibleKeys := by
    ext key
    rw [List.mem_toFinset, BaseSetDelta.mem_visibleKeys h, List.mem_map, Option.ne_none_iff_exists']
    constructor
    · rintro ⟨⟨key', value⟩, hmem, rfl⟩
      exact ⟨value, (mem_visibleElements h).1 hmem⟩
    · rintro ⟨value, hvalue⟩
      exact ⟨(key, value), (mem_visibleElements h).2 hvalue, rfl⟩
  rw [← hkeys, List.toFinset_card_of_nodup (nodup_visibleElements h), List.length_map]

theorem toList_makeIterableView (h : delta.Invariant) (hcard : delta.visibleKeys.card < 2 ^ 64) :
    ∃ elements, (makeIterableView delta).toList = some elements ∧ (elements.map Prod.fst).Nodup ∧
      ∀ key value, (key, value) ∈ elements ↔ delta.find key = some value := by
  refine ⟨_, toList_eq ?_, nodup_visibleElements h, fun key value => mem_visibleElements h⟩
  rw [length_visibleElements h]
  show _ = delta.size.toNat
  rw [BaseSetDelta.size_eq h, UInt64.toNat_ofNat', Nat.mod_eq_of_lt hcard]

end View

end Catapult.DeltaSet
