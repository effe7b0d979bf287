import Catapult.Disruptor.Aborted
import Mathlib.Algebra.BigOperators.Group.List.Basic
import Mathlib.Algebra.GroupWithZero.Nat
import Mathlib.Algebra.Order.Group.Nat

/-!
# The pipeline is safe

In every run the consumers and the inspector find the elements that were added, in order, and each only after the one
before has finished. The memory size is the sum of the sizes of the elements that are not completed.
-/

namespace Catapult.Disruptor
open Catapult.Chain (add64 sub64 add64_eq sub64_eq)

variable {Input Code : Type} {memorySize : Input → Nat} {isEmpty : Input → Bool} {options : Options}
  {state state' : State Input Code} {event : Option Event} {history : List Event} {level position : Nat}

/-- The size that is counted for an element before it is added. -/
def Producer.reservedSize (memorySize : Input → Nat) : Producer Input → Nat
  | reserved input => memorySize input
  | _ => 0

def uncompletedSize (memorySize : Input → Nat) (history : List Event) (state : State Input Code) : Nat :=
  ((addedSizes history).drop (completions history).length).sum + state.producer.reservedSize memorySize

structure Memory (memorySize : Input → Nat) (options : Options) (history : List Event) (state : State Input Code) :
    Prop where
  sum : state.memorySize = uncompletedSize memorySize history state
  bound : state.memorySize ≤ options.maxMemorySize
  accepted : ∀ input, state.producer = .accepted input →
    state.memorySize + memorySize input ≤ options.maxMemorySize

theorem memory_init : Memory memorySize options [] (State.init : State Input Code) :=
  ⟨rfl, Nat.zero_le _, fun _ h => (nomatch h)⟩

theorem completions_eq_of_ne {event : Option Event} (h : ∀ position, event ≠ some (.completed position)) :
    completions (history ++ event.toList) = completions history := by
  rw [completions_append]
  cases event with
  | none => exact List.append_nil _
  | some event =>
    cases event with
    | completed position => exact absurd rfl (h position)
    | _ => exact List.append_nil _

namespace Memory

theorem congr (h : Memory memorySize options history state) (hadded : ∀ size, event ≠ some (.added size))
    (hcompleted : ∀ position, event ≠ some (.completed position)) (hmemory : state'.memorySize = state.memorySize)
    (hreserved : state'.producer.reservedSize memorySize = state.producer.reservedSize memorySize)
    (haccepted : ∀ input, state'.producer = .accepted input →
      state.memorySize + memorySize input ≤ options.maxMemorySize) :
    Memory memorySize options (history ++ event.toList) state' := by
  refine ⟨?_, hmemory ▸ h.bound, fun input hinput => hmemory ▸ haccepted input hinput⟩
  rw [uncompletedSize, addedSizes_eq_of_ne hadded, completions_eq_of_ne hcompleted, hmemory, hreserved]
  exact h.sum

theorem complete (h : Memory memorySize options history state) (hbarriers : Barriers options state)
    (hprogress : Progress options history state) (hcounts : Counts history state)
    (helements : Elements options history state) (hlevel : level < options.numConsumers)
    (hactivity : (state.consumers level).activity = .completing position) {element : Element Input Code}
    (helement : elementAt options state position = some element) :
    Memory memorySize options (history ++ [.completed position])
      { state.setActivity level .waiting with memorySize := sub64 state.memorySize element.memorySize } := by
  obtain ⟨hposition, hlength⟩ := inUse_of_behind hbarriers hprogress hcounts hlevel
    (show (state.consumers level).activity.behind = some position by rw [hactivity]; rfl)
  obtain ⟨held, hheld, -, hsize⟩ := helements.held position hposition
  cases hheld.symm.trans helement
  have hsum := h.sum
  have hbound := h.bound
  have hmax := options.maxMemorySize_lt
  -- the first of the elements that are not completed is the one at the position
  have hdrop : (addedSizes history).drop (completions history).length =
      element.memorySize :: (addedSizes history).drop (position + 1) := by
    rw [hlength]
    obtain ⟨hlt, hget⟩ := List.getElem?_eq_some_iff.1 hsize
    rw [← hget]
    exact List.drop_eq_getElem_cons hlt
  have hcompleted : (completions (history ++ [.completed position])).length = position + 1 := by
    rw [completions_append, List.length_append, hlength]
    rfl
  have hadded : addedSizes (history ++ [.completed position]) = addedSizes history :=
    addedSizes_append.trans (List.append_nil _)
  rw [uncompletedSize, hdrop, List.sum_cons] at hsum
  have hsub : sub64 state.memorySize element.memorySize = state.memorySize - element.memorySize :=
    sub64_eq (by omega) (by omega)
  refine ⟨?_, ?_, fun input hinput => ?_⟩
  · show sub64 state.memorySize element.memorySize = _
    rw [hsub, uncompletedSize, hadded, hcompleted]
    show _ = _ + state.producer.reservedSize memorySize
    omega
  · show sub64 state.memorySize element.memorySize ≤ _
    omega
  · have haccepted := h.accepted input hinput
    show sub64 state.memorySize element.memorySize + _ ≤ _
    omega

theorem step (h : Memory memorySize options history state) (hbarriers : Barriers options state)
    (hprogress : Progress options history state) (hcounts : Counts history state)
    (helements : Elements options history state) (hstep : Step memorySize isEmpty options state event state') :
    Memory memorySize options (history ++ event.toList) state' := by
  have hmax := options.maxMemorySize_lt
  cases hstep with
  | lock _ hproducer | readLast hproducer | readFirst hproducer =>
    refine h.congr (by rintro _ ⟨⟩) (by rintro _ ⟨⟩) rfl ?_ (fun _ hfalse => nomatch hfalse)
    rw [hproducer]
    rfl
  | @checkMemory input isFull hproducer =>
    refine h.congr (by rintro _ ⟨⟩) (by rintro _ ⟨⟩) rfl ?_ ?_
    · rw [hproducer]
      dsimp only
      split <;> rfl
    · dsimp only
      split
      · exact fun _ hfalse => nomatch hfalse
      · rename_i hfits
        rintro _ ⟨⟩
        have hmemory : ¬sub64 options.maxMemorySize state.memorySize < memorySize input := by
          intro hlt
          exact hfits (by simp [isMemoryFull, hlt])
        rw [sub64_eq hmax h.bound] at hmemory
        have := h.bound
        omega
  | @reserve input hproducer =>
    have hsum := h.sum
    have haccepted := h.accepted input hproducer
    have hadd : add64 state.memorySize (memorySize input) = state.memorySize + memorySize input :=
      add64_eq (by omega)
    have hzero : state.producer.reservedSize memorySize = 0 := by rw [hproducer]; rfl
    rw [uncompletedSize, hzero] at hsum
    refine ⟨?_, ?_, fun _ hfalse => nomatch hfalse⟩
    · rw [uncompletedSize, addedSizes_eq_of_ne (by rintro _ ⟨⟩), completions_eq_of_ne (by rintro _ ⟨⟩)]
      show add64 state.memorySize (memorySize input) = _ + memorySize input
      omega
    · show add64 state.memorySize (memorySize input) ≤ _
      omega
  | @push input hproducer =>
    have hsum := h.sum
    rw [uncompletedSize, hproducer] at hsum
    have hlast := Room.barrier_le hprogress
    have hfirst := hcounts.first
    have hmono := hbarriers.le (Nat.le_refl _) (Nat.zero_le options.numConsumers)
    refine ⟨?_, h.bound, fun _ hfalse => nomatch hfalse⟩
    rw [uncompletedSize, completions_eq_of_ne (by rintro _ ⟨⟩), addedSizes_append,
      List.drop_append_of_le_length (by omega), List.sum_append]
    exact hsum
  | advanceFirst hproducer =>
    refine h.congr (by rintro _ ⟨⟩) (by rintro _ ⟨⟩) rfl ?_ (fun _ hfalse => nomatch hfalse)
    rw [hproducer]
    rfl
  | sleep | tryNext | offer | skip | consume | abort | markSkipped | advance | inspect =>
    exact h.congr (by rintro _ ⟨⟩) (by rintro _ ⟨⟩) rfl rfl h.accepted
  | complete hlevel hactivity helement =>
    exact h.complete hbarriers hprogress hcounts helements hlevel hactivity helement

end Memory

structure Inv (memorySize : Input → Nat) (options : Options) (history : List Event) (state : State Input Code) :
    Prop where
  barriers : Barriers options state
  progress : Progress options history state
  counts : Counts history state
  room : Room options history state
  elements : Elements options history state
  memory : Memory memorySize options history state

abbrev Runs (memorySize : Input → Nat) (isEmpty : Input → Bool) (options : Options) (history : List Event)
    (state : State Input Code) : Prop :=
  Reaches State.init (Step memorySize isEmpty options) history state

theorem inv_of_runs (h : Runs memorySize isEmpty options history state) : Inv memorySize options history state := by
  refine Reaches.invariant ?_ ?_ h
  · exact ⟨barriers_init, progress_init, counts_init, room_init, elements_init, memory_init⟩
  · rintro history s s' event ⟨hbarriers, hprogress, hcounts, hroom, helements, hmemory⟩ hstep
    exact ⟨hbarriers.step hstep, hprogress.step hbarriers hstep, hcounts.step hstep, hroom.step hprogress hcounts hstep,
      helements.step hbarriers hprogress hcounts hroom hstep,
      hmemory.step hbarriers hprogress hcounts helements hstep⟩

def Consumer.accesses (consumer : Consumer Code) : Option Nat :=
  match consumer.activity with
  | .checking | .consuming | .marking _ => some consumer.position
  | .inspecting position | .completing position => some position
  | .waiting | .advancing => none

def Allowed (options : Options) (before : List Event) : Event → Prop
  | .offered level position =>
    position ∉ visits level before ∧ ∀ earlier < level, .finished earlier position ∈ before ∧
      .aborted earlier position ∉ before
  | .skipped level position =>
    position ∉ visits level before ∧ (∀ earlier < level, .finished earlier position ∈ before) ∧
      ∃ earlier < level, .aborted earlier position ∈ before
  | .inspected position =>
    position ∉ inspections before ∧ .finished (options.numConsumers - 1) position ∈ before
  | .completed position => .inspected position ∈ before
  | _ => True

theorem mem_finishes : position ∈ finishes level history ↔ .finished level position ∈ history := by
  unfold finishes
  rw [List.mem_filterMap]
  constructor
  · rintro ⟨event, hmem, hevent⟩
    cases event with
    | finished visitor p =>
      simp only [Event.finish, Option.ite_none_right_eq_some, Option.some.injEq] at hevent
      rw [← hevent.1, ← hevent.2]
      exact hmem
    | _ => cases hevent
  · exact fun hmem => ⟨_, hmem, if_pos rfl⟩

theorem mem_inspections : position ∈ inspections history ↔ .inspected position ∈ history := by
  unfold inspections
  rw [List.mem_filterMap]
  constructor
  · rintro ⟨event, hmem, hevent⟩
    cases event with
    | inspected p =>
      cases hevent
      exact hmem
    | _ => cases hevent
  · exact fun hmem => ⟨_, hmem, rfl⟩

namespace Inv

theorem inUse_of_accesses (h : Inv memorySize options history state) (hlevel : level < options.numConsumers)
    (haccess : (state.consumers level).accesses = some position) : InUse history position := by
  unfold Consumer.accesses at haccess
  split at haccess
  case h_1 hactivity | h_2 hactivity | h_3 hactivity =>
    cases haccess
    exact inUse_of_busy h.barriers h.progress h.counts hlevel (by rw [hactivity]; rfl)
  case h_4 hactivity | h_5 hactivity =>
    cases haccess
    exact (inUse_of_behind h.barriers h.progress h.counts hlevel (by rw [hactivity]; rfl)).1
  case h_6 | h_7 => cases haccess

theorem lt_of_earlier (h : Inv memorySize options history state) (hlevel : level < options.numConsumers)
    (hbusy : (state.consumers level).activity.isBusy) {earlier : Nat} (hearlier : earlier < level) :
    (state.consumers level).position < (state.consumers earlier).position := by
  rw [h.barriers.position earlier (by omega)]
  exact Nat.lt_of_lt_of_le (h.barriers.busy level hlevel hbusy) (h.barriers.le hlevel.le hearlier)

theorem finished_of_earlier (h : Inv memorySize options history state) (hlevel : level < options.numConsumers)
    (hbusy : (state.consumers level).activity.isBusy) {earlier : Nat} (hearlier : earlier < level) :
    .finished earlier (state.consumers level).position ∈ history := by
  rw [← mem_finishes, h.progress.finishes earlier (by omega), List.mem_range]
  exact h.lt_of_earlier hlevel hbusy hearlier

theorem lt_of_aborted (h : Inv memorySize options history state) (hlevel : level < options.numConsumers)
    (hactivity : (state.consumers level).activity = .checking) {other : Nat}
    (haborted : .aborted other (state.consumers level).position ∈ history) : other < level := by
  obtain ⟨hother, hlt⟩ := h.elements.visited other _ haborted
  by_contra hge
  rcases Nat.eq_or_lt_of_le (Nat.le_of_not_lt hge) with rfl | hlater
  · rw [hactivity] at hlt
    exact absurd hlt (Nat.lt_irrefl _)
  · have hposition := h.barriers.position level hlevel
    have hle := h.barriers.le hother.le (show level + 1 ≤ other from hlater)
    have hordered := h.barriers.ordered other hother
    have hpositionOther := h.barriers.position other hother
    have hbusy := h.barriers.busy other hother
    cases hvisit : (state.consumers other).activity <;> simp_all [Activity.visited, Activity.isBusy] <;> omega

theorem not_mem_visits (h : Inv memorySize options history state) (hlevel : level < options.numConsumers)
    (hactivity : (state.consumers level).activity = .checking) :
    (state.consumers level).position ∉ visits level history := by
  rw [h.progress.visits level hlevel, hactivity, List.mem_range]
  exact Nat.lt_irrefl _

end Inv

theorem allowed_of_step (h : Runs memorySize isEmpty options history state) {event : Event}
    (hstep : Step memorySize isEmpty options state (some event) state') : Allowed options history event := by
  have hinv := inv_of_runs h
  cases hstep with
  | push | abort | advance => trivial
  | @offer level element hlevel hactivity helement hresult =>
    have hbusy : (state.consumers level).activity.isBusy := by rw [hactivity]; rfl
    refine ⟨hinv.not_mem_visits hlevel hactivity, fun earlier hearlier => ⟨?_, fun haborted => ?_⟩⟩
    · exact hinv.finished_of_earlier hlevel hbusy hearlier
    · have hmarked := hinv.elements.marked _ (inUse_of_busy hinv.barriers hinv.progress hinv.counts hlevel hbusy)
        element helement
      rcases hmarked.result earlier haborted with hsome | ⟨code, -, hposition⟩
      · rw [hresult] at hsome
        cases hsome
      · have hlt := hinv.lt_of_earlier hlevel hbusy hearlier
        omega
  | @skip level element hlevel hactivity helement hresult =>
    have hbusy : (state.consumers level).activity.isBusy := by rw [hactivity]; rfl
    refine ⟨hinv.not_mem_visits hlevel hactivity, fun earlier => hinv.finished_of_earlier hlevel hbusy, ?_⟩
    have hmarked := hinv.elements.marked _ (inUse_of_busy hinv.barriers hinv.progress hinv.counts hlevel hbusy)
      element helement
    obtain ⟨earlier, haborted⟩ := hmarked.aborted hresult
    exact ⟨earlier, hinv.lt_of_aborted hlevel hactivity haborted, haborted⟩
  | @inspect level position _ hlevel hactivity =>
    obtain ⟨hlast, hposition⟩ := hinv.barriers.behind level hlevel position (by rw [hactivity]; rfl)
    obtain ⟨count, hrange, hcount⟩ := hinv.progress.inspections
    rw [Progress.lastActivity_eq hlast, hactivity, ← hlast, ← hposition] at hcount
    have heq : count = position := Nat.succ.inj hcount
    refine ⟨?_, ?_⟩
    · rw [hrange, List.mem_range, heq]
      exact Nat.lt_irrefl _
    · rw [← mem_finishes, show options.numConsumers - 1 = level by omega, hinv.progress.finishes level hlevel,
        List.mem_range, hinv.barriers.position level hlevel, ← hposition]
      exact Nat.lt_succ_self _
  | @complete level position _ hlevel hactivity =>
    obtain ⟨hlast, hposition⟩ := hinv.barriers.behind level hlevel position (by rw [hactivity]; rfl)
    obtain ⟨count, hrange, hcount⟩ := hinv.progress.inspections
    rw [Progress.lastActivity_eq hlast, hactivity, ← hlast, ← hposition] at hcount
    have heq : count = position + 1 := hcount
    show .inspected position ∈ history
    rw [← mem_inspections, hrange, List.mem_range, heq]
    exact Nat.lt_succ_self _

/-- Every access finds the element of its position, every event comes in order, and the memory size is what is not
completed. -/
theorem pipeline_safe (h : Runs memorySize isEmpty options history state) :
    (∀ level < options.numConsumers, ∀ position, (state.consumers level).accesses = some position →
      Holds options history state position) ∧
    (∀ level < options.numConsumers, visits level history = List.range (visits level history).length) ∧
    (∀ before event after, history = before ++ event :: after → Allowed options before event) ∧
    (inspections history = List.range (inspections history).length ∧
      (inspections history).length + (lastActivity options state).uninspected =
        (finishes (options.numConsumers - 1) history).length) ∧
    state.memorySize = uncompletedSize memorySize history state ∧ state.memorySize ≤ options.maxMemorySize := by
  have hinv := inv_of_runs h
  refine ⟨fun level hlevel position haccess => ?_, fun level hlevel => ?_, fun before event after hsplit => ?_, ?_,
    hinv.memory.sum, hinv.memory.bound⟩
  · exact hinv.elements.held position (hinv.inUse_of_accesses hlevel haccess)
  · rw [hinv.progress.visits level hlevel, List.length_range]
  · exact Reaches.of_history (Allowed options) (fun hreaches hstep => allowed_of_step hreaches hstep) h hsplit
  · obtain ⟨count, hrange, hcount⟩ := hinv.progress.inspections
    have hpos := options.numConsumers_pos
    have hlast : options.numConsumers - 1 < options.numConsumers := by omega
    rw [hrange, List.length_range, hinv.progress.finishes _ hlast, List.length_range, hinv.barriers.position _ hlast,
      show options.numConsumers - 1 + 1 = options.numConsumers by omega]
    exact ⟨rfl, hcount⟩

theorem sampleMemorySize_pos : 0 < 10 := by decide

def sampleOptions : Options := ⟨2, 10, 1, by decide, sampleMemorySize_pos, by decide, by decide⟩

/-- One element is added and aborted by the only consumer, up to its inspection. -/
theorem pipeline_safe_sample : ∃ (history : List Event) (state : State Nat Bool),
    Runs id (fun _ => false) sampleOptions history state ∧
    history = [.added 7, .offered 0 0, .aborted 0 0, .finished 0 0] ∧ state.memorySize = 7 ∧
    Holds sampleOptions history state 0 := by
  have hlevel : 0 < sampleOptions.numConsumers := by decide
  have hrun : Runs id (fun _ => false) sampleOptions _ _ :=
    .next (.next (.next (.next (.next (.next (.next (.next (.next (.next (.next (.next .start
      (.lock (7 : Nat) rfl rfl)) (.readLast rfl)) (.readFirst rfl)) (.checkMemory rfl)) (.reserve rfl)) (.push rfl))
      (.advanceFirst rfl)) (.tryNext hlevel rfl (by decide))) (.offer hlevel rfl rfl rfl))
      (.abort 7 true hlevel rfl rfl)) (.markSkipped hlevel rfl rfl)) (.advance hlevel rfl)
  exact ⟨_, _, hrun, rfl, rfl, (pipeline_safe hrun).1 0 hlevel 0 rfl⟩

end Catapult.Disruptor
