import Mathlib.Algebra.GroupWithZero.Nat
import Mathlib.Data.List.Chain

/-!
# Unprocessed elements of a synchronizer

A sync compares the chains when no blocks wait in the disruptor, and otherwise asks for the blocks above those that
wait. Syncs and completions are interleaved between any two locked sections.
-/

namespace Catapult.Chain.Synchronizer

/-- With the height that was requested first. -/
structure ElementInfo where
  id : Nat
  startHeight : Nat
  endHeight : Nat
  numBytes : Nat

structure UnprocessedElements where
  elements : List ElementInfo := []
  numBytes : Nat := 0
  hasPendingSync : Bool := false
  dirty : Bool := false

namespace UnprocessedElements
variable (u : UnprocessedElements)

def hasPendingOperation : Bool := u.numBytes != 0 || u.hasPendingSync

def shouldStartSync (maxSize : Nat) : Bool :=
  !(maxSize ≤ u.numBytes || u.hasPendingSync || u.dirty)

def maxHeight : Nat := (u.elements.getLast?.map (·.endHeight)).getD 0

/-- The id is zero when the disruptor does not accept the range. -/
def add (info : ElementInfo) : Option UnprocessedElements :=
  if u.dirty || info.id == 0 then none
  else
    let numBytes := u.numBytes + info.numBytes
    some { u with elements := u.elements ++ [info], numBytes }

/-- An unexpected id is an error. -/
def remove (id : Nat) (isNormal : Bool) : Option UnprocessedElements :=
  match u.elements with
  | [] => none
  | info :: elements =>
    if info.id ≠ id then none
    else
      let removed := { u with elements, numBytes := u.numBytes - info.numBytes }
      some { removed with dirty := removed.hasPendingOperation && !isNormal }

def clearPendingSync : UnprocessedElements :=
  { u with hasPendingSync := false, dirty := u.dirty && u.numBytes != 0 }

end UnprocessedElements

open UnprocessedElements

/-- The range that was received so far, and the last element when the comparison was bypassed. -/
structure Pull extends ElementInfo where
  previous : Option ElementInfo
  forkDepth : Nat
  numBlocks : Nat

inductive Task where
  | starting
  | bypassing
  | pulling (pull : Pull)
  | completing (pull : Pull)
  | finished

/-- The ids that the disruptor completes in their order, and the last element that was completed. -/
structure System extends UnprocessedElements where
  tasks : List Task := []
  dispatched : List Nat := []
  completed : Option (ElementInfo × Bool) := none

/-- Comparisons have any result, and a peer returns any blocks. -/
inductive TaskStep (u : UnprocessedElements) : Task → Task → Prop
  | compare (commonHeight forkDepth : Nat) (h : u.numBytes = 0) :
      TaskStep u .starting (.pulling ⟨⟨0, commonHeight + 1, commonHeight, 0⟩, none, forkDepth, 0⟩)
  | bypass (h : u.numBytes ≠ 0) : TaskStep u .starting .bypassing
  | request :
      TaskStep u .bypassing (.pulling ⟨⟨0, u.maxHeight + 1, u.maxHeight, 0⟩, u.elements.getLast?, 0, 0⟩)
  | receive {pull} (endHeight numBlocks numBytes : Nat) (h : pull.numBlocks < numBlocks)
      (hbytes : pull.numBytes < numBytes) :
      TaskStep u (.pulling pull)
        ((if numBlocks < pull.forkDepth then Task.pulling else .completing)
          { pull with endHeight, numBytes, numBlocks })
  | receiveNothing {pull} : TaskStep u (.pulling pull) (.completing pull)
  | fail {task} : TaskStep u task .finished

inductive Step (maxSize : Nat) : System → System → Prop
  | start {s} (h : s.shouldStartSync maxSize) :
      Step maxSize s { s with hasPendingSync := true, tasks := .starting :: s.tasks }
  | task {s before after task task'} (htasks : s.tasks = before ++ task :: after)
      (h : TaskStep s.toUnprocessedElements task task') : Step maxSize s { s with tasks := before ++ task' :: after }
  | add {s u before after pull id} (htasks : s.tasks = before ++ .completing pull :: after)
      (hblocks : pull.numBlocks ≠ 0) (h : s.add { pull.toElementInfo with id } = some u) :
      Step maxSize s
        { s with toUnprocessedElements := u, tasks := before ++ .finished :: after, dispatched := s.dispatched ++ [id] }
  | finish {s before after} (htasks : s.tasks = before ++ .finished :: after) :
      Step maxSize s { s with toUnprocessedElements := s.clearPendingSync, tasks := before ++ after }
  | complete {s u id dispatched} (isNormal : Bool) (hid : s.dispatched = id :: dispatched)
      (h : s.remove id isNormal = some u) :
      Step maxSize s
        { s with toUnprocessedElements := u, dispatched, completed := s.elements.head?.map (·, isNormal) }

def Reachable (maxSize : Nat) : System → Prop := Relation.ReflTransGen (Step maxSize) {}

variable {maxSize id : Nat} {isNormal : Bool} {u u' : UnprocessedElements} {info : ElementInfo}
  {elements : List ElementInfo} {completed : Option (ElementInfo × Bool)} {pull : Pull} {task task' : Task}
  {before after : List Task} {s s' : System}

/-- The element waits as the last one, or was completed last without a failure. -/
def IsLast (u : UnprocessedElements) (completed : Option (ElementInfo × Bool)) (info : ElementInfo) : Prop :=
  u.elements.getLast? = some info ∨ u.elements = [] ∧ completed = some (info, true)

structure Pull.Sound (u : UnprocessedElements) (completed : Option (ElementInfo × Bool)) (pull : Pull) : Prop where
  bytes : pull.numBlocks ≠ 0 → 0 < pull.numBytes
  fresh : pull.previous = none → u.elements = []
  continues : ∀ info, pull.previous = some info → pull.startHeight = info.endHeight + 1 ∧
    (IsLast u completed info ∨ u.elements = [] ∧ u.dirty)

def Task.Sound (maxSize : Nat) (u : UnprocessedElements) (completed : Option (ElementInfo × Bool)) : Task → Prop
  | finished => True
  | starting | bypassing => u.numBytes < maxSize
  | pulling pull | completing pull => u.numBytes < maxSize ∧ pull.Sound u completed

structure Sound (maxSize : Nat) (s : System) : Prop where
  dispatched : s.dispatched = s.elements.map (·.id)
  numBytes : s.numBytes = (s.elements.map (·.numBytes)).sum
  pos : ∀ info ∈ s.elements, 0 < info.numBytes
  consecutive : s.elements.IsChain fun a b => b.startHeight = a.endHeight + 1
  bounded : s.elements ≠ [] → (s.elements.dropLast.map (·.numBytes)).sum < maxSize
  pending : s.dirty = true → s.hasPendingOperation = true
  length : s.tasks.length = s.hasPendingSync.toNat
  task : ∀ task ∈ s.tasks, task.Sound maxSize s.toUnprocessedElements s.completed

theorem Sound.only (h : Sound maxSize s) (htasks : s.tasks = before ++ task :: after) :
    before = [] ∧ after = [] ∧ s.hasPendingSync = true ∧ task.Sound maxSize s.toUnprocessedElements s.completed := by
  have hlength := h.length
  have htask := h.task task (by simp [htasks])
  rw [htasks, List.length_append, List.length_cons] at hlength
  cases hpending : s.hasPendingSync <;> simp [hpending] at hlength
  exact ⟨List.length_eq_zero_iff.1 (by omega), List.length_eq_zero_iff.1 (by omega), rfl, htask⟩

theorem TaskStep.sound (h : Sound maxSize s) (hs : TaskStep s.toUnprocessedElements task task')
    (ht : task.Sound maxSize s.toUnprocessedElements s.completed) :
    task'.Sound maxSize s.toUnprocessedElements s.completed := by
  cases hs with
  | compare commonHeight forkDepth h0 =>
    refine ⟨ht, by simp, fun _ => ?_, by simp⟩
    have hsum := h.numBytes.symm.trans h0
    exact List.eq_nil_iff_forall_not_mem.2 fun info hmem =>
      (h.pos info hmem).ne' (List.sum_eq_zero_iff_forall_eq_nat.1 hsum _ (List.mem_map_of_mem hmem))
  | bypass | receiveNothing => exact ht
  | request =>
    refine ⟨ht, by simp, by simp, fun info hlast => ⟨?_, .inl (.inl hlast)⟩⟩
    rw [maxHeight, show s.elements.getLast? = some info from hlast]
    rfl
  | receive _ _ _ _ hbytes =>
    split <;> exact ⟨ht.1, fun _ => Nat.zero_lt_of_lt hbytes, ht.2.fresh, ht.2.continues⟩
  | fail => trivial

theorem Sound.add (h : Sound maxSize s) (htasks : s.tasks = before ++ .completing pull :: after)
    (hblocks : pull.numBlocks ≠ 0) (hadd : s.add { pull.toElementInfo with id } = some u) :
    Sound maxSize { s with
      toUnprocessedElements := u, tasks := before ++ .finished :: after, dispatched := s.dispatched ++ [id] } := by
  obtain ⟨rfl, rfl, hpending, hlt, hpull⟩ := h.only htasks
  unfold UnprocessedElements.add at hadd
  split at hadd <;> cases hadd
  refine ⟨by simp [h.dispatched], by simp [h.numBytes], ?_, ?_, ?_, ?_, by simp [hpending], by simp [Task.Sound]⟩
  · simpa [or_imp, forall_and] using ⟨h.pos, hpull.bytes hblocks⟩
  · refine List.isChain_append.2 ⟨h.consecutive, List.isChain_singleton _, fun last hlast _ hnew => ?_⟩
    obtain rfl : _ = _ := by simpa using hnew
    cases hprevious : pull.previous with
    | none => simp [hpull.fresh hprevious] at hlast
    | some info =>
      obtain ⟨hstart, (hwaits | ⟨hnil, -⟩) | ⟨hnil, -⟩⟩ := hpull.continues info hprevious
      · obtain rfl : info = last := Option.some.inj (hwaits.symm.trans hlast)
        exact hstart
      all_goals simp [hnil] at hlast
  · simpa [← h.numBytes] using hlt
  · simp [hasPendingOperation, hpending]

/-- A failure of the element that a pull continues is seen, because its sync is pending. -/
theorem Task.Sound.remove (h : task.Sound maxSize u completed) (hpending : u.hasPendingSync = true)
    (helements : u.elements = info :: elements) (hremove : u.remove id isNormal = some u') :
    task.Sound maxSize u' (some (info, isNormal)) := by
  obtain ⟨-, rfl⟩ : info.id = id ∧ _ = u' := by simpa [UnprocessedElements.remove, helements] using hremove
  cases task with
  | finished => trivial
  | starting | bypassing => exact (Nat.sub_le _ _).trans_lt h
  | pulling pull | completing pull =>
    refine ⟨(Nat.sub_le _ _).trans_lt h.1, h.2.bytes, fun hnone => ?_, fun previous hprevious => ?_⟩
    · exact absurd (h.2.fresh hnone) (by simp [helements])
    · obtain ⟨hstart, (hlast | ⟨hnil, -⟩) | ⟨hnil, -⟩⟩ := h.2.continues previous hprevious
      · cases elements <;> cases isNormal <;> simp_all [IsLast, hasPendingOperation]
      all_goals simp [helements] at hnil

theorem Sound.complete (h : Sound maxSize s) {dispatched : List Nat} (hid : s.dispatched = id :: dispatched)
    (hremove : s.remove id isNormal = some u) :
    Sound maxSize
      { s with toUnprocessedElements := u, dispatched, completed := s.elements.head?.map (·, isNormal) } := by
  obtain ⟨hids, hbytes, hpos, hconsecutive, hbounded, -, hlength, -⟩ := show Sound maxSize s from h
  cases he : s.elements with
  | nil => simp [he, h.dispatched] at hid
  | cons info elements =>
    have htask (task) (hmem : task ∈ s.tasks) : task.Sound maxSize u (some (info, isNormal)) := by
      obtain ⟨before, after, htasks⟩ := List.append_of_mem hmem
      obtain ⟨-, -, hpending, hsound⟩ := h.only htasks
      exact hsound.remove hpending he hremove
    rw [he] at hids hbytes hpos hconsecutive hbounded
    obtain ⟨-, rfl⟩ : info.id = id ∧ _ = u := by simpa [UnprocessedElements.remove, he] using hremove
    refine ⟨(List.cons.inj (hid.symm.trans hids)).2, by simp [hbytes], fun _ hmem => hpos _ (.tail _ hmem),
      hconsecutive.tail, fun hne => ?_, by simp_all [hasPendingOperation], hlength, htask⟩
    have := hbounded (List.cons_ne_nil _ _)
    rw [List.dropLast_cons_of_ne_nil hne, List.map_cons, List.sum_cons] at this
    exact (Nat.le_add_left _ _).trans_lt this

theorem Step.sound (h : Sound maxSize s) (hs : Step maxSize s s') : Sound maxSize s' := by
  cases hs with
  | start hstart =>
    obtain ⟨⟨hlt, hpending⟩, -⟩ : (s.numBytes < maxSize ∧ _) ∧ _ := by
      simpa [shouldStartSync] using hstart
    have htasks : s.tasks = [] := by simpa [hpending] using h.length
    exact { h with
      pending := by simp [hasPendingOperation], length := by simp [htasks]
      task := by simpa [htasks, Task.Sound] using hlt }
  | task htasks hstep =>
    obtain ⟨rfl, rfl, hpending, ht⟩ := h.only htasks
    exact { h with length := by simp [hpending], task := by simpa using hstep.sound h ht }
  | add htasks hblocks hadd => exact h.add htasks hblocks hadd
  | finish htasks =>
    obtain ⟨rfl, rfl, -, -⟩ := h.only htasks
    exact { h with
      pending := by simp [hasPendingOperation, clearPendingSync]
      length := rfl, task := by simp }
  | complete _ hid hremove => exact h.complete hid hremove

theorem Reachable.sound (h : Reachable maxSize s) : Sound maxSize s := by
  induction h with
  | refl => exact ⟨rfl, rfl, by simp, List.isChain_nil, by simp, by simp, rfl, by simp⟩
  | tail _ hstep ih => exact hstep.sound ih

/-- In every interleaving at most one sync runs, and one can start when nothing is pending; an element id is never
unexpected; the ranges that wait in the disruptor are consecutive and take less than `maxSize` bytes before the last
one; and none is accepted above a failure. -/
theorem Reachable.consistent (h : Reachable maxSize s) :
    s.tasks.length ≤ 1 ∧ (s.tasks = [] → s.elements = [] → 0 < maxSize → s.shouldStartSync maxSize) ∧
      (∀ id dispatched isNormal, s.dispatched = id :: dispatched → (s.remove id isNormal).isSome) ∧
      s.elements.IsChain (fun a b => b.startHeight = a.endHeight + 1) ∧
      (s.elements ≠ [] → (s.elements.dropLast.map (·.numBytes)).sum < maxSize) ∧
      ∀ pull info id, .completing pull ∈ s.tasks → pull.previous = some info →
        (s.add { pull.toElementInfo with id }).isSome →
          pull.startHeight = info.endHeight + 1 ∧ IsLast s.toUnprocessedElements s.completed info := by
  have hsound := h.sound
  refine ⟨hsound.length ▸ Bool.toNat_le _, fun htasks helements hmax => ?_, fun id dispatched isNormal hid => ?_,
    hsound.consecutive, hsound.bounded, fun pull info id hmem hprevious hadd => ?_⟩
  · have hpending : s.hasPendingSync = false := by simpa [htasks] using hsound.length.symm
    have hnumBytes : s.numBytes = 0 := by simpa [helements] using hsound.numBytes
    have hdirty := hsound.pending
    simp_all [shouldStartSync, hasPendingOperation, hmax.ne']
  · have hids := hsound.dispatched.symm.trans hid
    cases he : s.elements <;> simp_all [UnprocessedElements.remove]
  · obtain ⟨hstart, hlast | ⟨-, hdirty⟩⟩ := (hsound.task _ hmem).2.continues info hprevious
    · exact ⟨hstart, hlast⟩
    · simp [UnprocessedElements.add, hdirty] at hadd

theorem consistent_sample :
    (({ elements := [⟨1, 11, 12, 100⟩], numBytes := 100, hasPendingSync := true } : UnprocessedElements).remove 1
      false).isSome := by
  have hpulling := (Relation.ReflTransGen.single (@Step.start 300 {} rfl)).tail
    (.task (show _ = [] ++ _ :: [] from rfl) (.compare 10 0 rfl))
  have hcompleting : Reachable 300 { hasPendingSync := true, tasks := [.completing ⟨⟨0, 11, 12, 100⟩, none, 0, 1⟩] } :=
    hpulling.tail (.task (show _ = [] ++ _ :: [] from rfl)
      (@TaskStep.receive _ ⟨⟨0, 11, 10, 0⟩, none, 0, 0⟩ 12 1 100 (by decide) (by decide)))
  have hadded := hcompleting.tail (@Step.add 300 _ _ [] [] _ 1 rfl (by decide) rfl)
  exact (Reachable.consistent hadded).2.2.1 1 [] false rfl

end Catapult.Chain.Synchronizer
