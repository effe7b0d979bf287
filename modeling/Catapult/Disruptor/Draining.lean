import Catapult.Disruptor.Pipeline
import Mathlib.Algebra.Order.BigOperators.Group.Finset

/-!
# The pipeline drains

The consumer threads never wait for each other in a circle: as long as an element that the first barrier counts is not
completed, some thread has a step other than to sleep. Every step brings a thread further, so that without additions
the threads come to rest, and then all elements are completed.
-/

namespace Catapult.Disruptor

variable {Input Code : Type} {memorySize : Input → Nat} {isEmpty : Input → Bool} {options : Options}
  {state state' : State Input Code} {event : Option Event} {history events : List Event} {level count : Nat}

/-- A step of a consumer thread that does not sleep: the addition stays where it is, and the state changes. -/
def Works (memorySize : Input → Nat) (isEmpty : Input → Bool) (options : Options) (state : State Input Code)
    (event : Option Event) (state' : State Input Code) : Prop :=
  Step memorySize isEmpty options state event state' ∧ state'.producer = state.producer ∧ state' ≠ state

inductive Working (memorySize : Input → Nat) (isEmpty : Input → Bool) (options : Options) (state : State Input Code) :
    Nat → List Event → State Input Code → Prop
  | start : Working memorySize isEmpty options state 0 [] state
  | next {count : Nat} {events : List Event} {s s' : State Input Code} {event : Option Event} :
      Working memorySize isEmpty options state count events s → Works memorySize isEmpty options s event s' →
      Working memorySize isEmpty options state (count + 1) (events ++ event.toList) s'

/-- The steps of a thread for one element, from the barrier on; the inspector runs after the position was increased. -/
def Activity.stage : Activity Code → Nat
  | inspecting _ => 0
  | completing _ => 1
  | waiting => 2
  | checking => 3
  | consuming => 4
  | marking _ => 5
  | advancing => 6

def Consumer.steps (consumer : Consumer Code) : Nat := 7 * consumer.position + consumer.activity.stage

def State.steps (options : Options) (state : State Input Code) : Nat :=
  ∑ level ∈ Finset.range options.numConsumers, (state.consumers level).steps

theorem steps_lt_of_update (hlevel : level < options.numConsumers) {consumer : Consumer Code}
    (hconsumers : state'.consumers = Function.update state.consumers level consumer)
    (hlt : (state.consumers level).steps < consumer.steps) : state.steps options < state'.steps options := by
  refine Finset.sum_lt_sum (fun k _ => ?_) ⟨level, Finset.mem_range.2 hlevel, ?_⟩
  · rw [hconsumers]
    rcases eq_or_ne k level with rfl | hne
    · rw [Function.update_self]
      exact Nat.le_of_lt hlt
    · rw [Function.update_of_ne hne]
  · rwa [hconsumers, Function.update_self]

theorem Works.steps_lt (h : Works memorySize isEmpty options state event state') :
    state'.barriers 0 = state.barriers 0 ∧ state.steps options < state'.steps options := by
  obtain ⟨hstep, hproducer, hne⟩ := h
  cases hstep with
  | lock _ hidle | readLast hidle | readFirst hidle | reserve hidle | push hidle | advanceFirst hidle =>
    rw [hidle] at hproducer
    cases hproducer
  | checkMemory hchecked =>
    rw [hchecked] at hproducer
    dsimp only at hproducer
    split at hproducer <;> cases hproducer
  | sleep => exact absurd rfl hne
  | tryNext hlevel hactivity | offer hlevel hactivity | skip hlevel hactivity | consume _ hlevel hactivity
  | abort _ _ hlevel hactivity | markSkipped hlevel hactivity | inspect hlevel hactivity | complete hlevel hactivity =>
    refine ⟨rfl, steps_lt_of_update hlevel rfl ?_⟩
    unfold Consumer.steps
    rw [hactivity]
    exact Nat.add_lt_add_left (by simp [Activity.stage]) _
  | advance hlevel hactivity =>
    refine ⟨advance_barriers_of_ne (Nat.succ_ne_zero _).symm, steps_lt_of_update hlevel rfl ?_⟩
    unfold Consumer.steps
    rw [hactivity]
    show _ + 6 < 7 * (_ + 1) + _
    omega

theorem Barriers.steps_le (h : Barriers options state) :
    state.steps options ≤ options.numConsumers * (7 * state.barriers 0 + 2) := by
  have hle : ∀ level ∈ Finset.range options.numConsumers, (state.consumers level).steps ≤ 7 * state.barriers 0 + 2 := by
    intro level hmem
    have hlevel := Finset.mem_range.1 hmem
    have hposition := h.position level hlevel
    have hlast := h.le (show level + 1 ≤ options.numConsumers from hlevel) (Nat.zero_le _)
    have hfirst := h.le (Nat.le_of_lt hlevel) (Nat.zero_le _)
    have hbusy := h.busy level hlevel
    unfold Consumer.steps
    cases hactivity : (state.consumers level).activity with
    | waiting | inspecting | completing => simp only [Activity.stage]; omega
    | checking | consuming | marking | advancing =>
      have hlt := hbusy (by rw [hactivity]; rfl)
      simp only [Activity.stage]
      omega
  have hsum := Finset.sum_le_card_nsmul _ _ _ hle
  rwa [Finset.card_range] at hsum

theorem works_of_activity_ne (level : Nat) (hstep : Step memorySize isEmpty options state event state')
    (hproducer : state'.producer = state.producer)
    (hne : (state'.consumers level).activity ≠ (state.consumers level).activity) :
    Works memorySize isEmpty options state event state' :=
  ⟨hstep, hproducer, fun heq => hne (heq ▸ rfl)⟩

/-- Some thread can go on, or all elements that the first barrier counts are completed. -/
theorem Inv.works_or_completed (h : Inv memorySize options history state) :
    (∃ event state', Works memorySize isEmpty options state event state') ∨
      completions history = List.range (state.barriers 0) := by
  by_cases hwaiting : ∀ level < options.numConsumers, (state.consumers level).activity = .waiting ∧
      (state.consumers level).position = state.barriers level
  · right
    have hall : ∀ level ≤ options.numConsumers, state.barriers level = state.barriers 0 := by
      intro level hlevel
      induction level with
      | zero => rfl
      | succ level ih =>
        rw [← h.barriers.position level hlevel, (hwaiting level hlevel).2, ih (Nat.le_of_lt hlevel)]
    obtain ⟨count, hrange, hcount⟩ := h.progress.completions
    have hpos := options.numConsumers_pos
    rw [lastActivity, (hwaiting _ (by omega)).1, hall _ le_rfl] at hcount
    rw [hrange, ← hcount]
    rfl
  · left
    simp only [not_forall, not_and] at hwaiting
    obtain ⟨level, hlevel, hgoes⟩ := hwaiting
    have hworks {event : Option Event} {state' : State Input Code}
        (hstep : Step memorySize isEmpty options state event state') (hproducer : state'.producer = state.producer)
        (hne : (state'.consumers level).activity ≠ (state.consumers level).activity) :
        ∃ event state', Works memorySize isEmpty options state event state' :=
      ⟨_, _, works_of_activity_ne level hstep hproducer hne⟩
    have hself (s : State Input Code) (activity : Activity Code) :
        ((s.setActivity level activity).consumers level).activity = activity := by
      unfold State.setActivity
      simp only [Function.update_self]
    have hheld {position} (haccess : (state.consumers level).accesses = some position) :
        ∃ element, elementAt options state position = some element :=
      (h.elements.held _ (h.inUse_of_accesses hlevel haccess)).imp fun _ hholds => hholds.1
    cases hactivity : (state.consumers level).activity with
    | waiting => exact hworks (.tryNext hlevel hactivity (hgoes hactivity)) rfl (by rw [hself, hactivity]; rintro ⟨⟩)
    | advancing =>
      refine hworks (.advance hlevel hactivity) rfl ?_
      rw [advance_consumers_self, hactivity]
      dsimp only
      split <;> rintro ⟨⟩
    | checking =>
      obtain ⟨element, helement⟩ := hheld (by rw [Consumer.accesses, hactivity])
      cases hresult : element.result with
      | none => exact hworks (.offer hlevel hactivity helement hresult) rfl (by rw [hself, hactivity]; rintro ⟨⟩)
      | some result =>
        exact hworks (.skip hlevel hactivity helement (by rw [hresult]; rfl)) rfl (by rw [hself, hactivity]; rintro ⟨⟩)
    | consuming =>
      obtain ⟨element, helement⟩ := hheld (by rw [Consumer.accesses, hactivity])
      exact hworks (.consume element.input hlevel hactivity helement) rfl (by rw [hself, hactivity]; rintro ⟨⟩)
    | marking code =>
      obtain ⟨element, helement⟩ := hheld (by rw [Consumer.accesses, hactivity])
      exact hworks (.markSkipped hlevel hactivity helement) rfl (by rw [hself, hactivity]; rintro ⟨⟩)
    | inspecting position =>
      obtain ⟨element, helement⟩ := hheld (by rw [Consumer.accesses, hactivity])
      exact hworks (.inspect hlevel hactivity helement) rfl (by rw [hself, hactivity]; rintro ⟨⟩)
    | completing position =>
      obtain ⟨element, helement⟩ := hheld (by rw [Consumer.accesses, hactivity])
      refine hworks (.complete hlevel hactivity helement) rfl ?_
      show ((state.setActivity level .waiting).consumers level).activity ≠ _
      rw [hself, hactivity]
      rintro ⟨⟩

/-- From every reachable state, the consumer threads take a bounded number of steps without sleeping, whatever their
order is, and can always go on until all elements are completed that were added to the first barrier. -/
theorem pipeline_drains (h : Runs memorySize isEmpty options history state)
    (hworking : Working memorySize isEmpty options state count events state') :
    count ≤ options.numConsumers * (7 * state.barriers 0 + 2) ∧
      ((∃ event state'', Works memorySize isEmpty options state' event state'') ∨
        completions (history ++ events) = List.range (state.barriers 0)) := by
  have hrun : Runs memorySize isEmpty options (history ++ events) state' ∧ state'.barriers 0 = state.barriers 0 ∧
      count ≤ state'.steps options := by
    induction hworking with
    | start => exact ⟨(List.append_nil history).symm ▸ h, rfl, Nat.zero_le _⟩
    | next _ hworks ih =>
      obtain ⟨hruns, hbarrier, hcount⟩ := ih
      obtain ⟨hsame, hlt⟩ := hworks.steps_lt
      refine ⟨?_, hsame.trans hbarrier, Nat.lt_of_le_of_lt hcount hlt⟩
      rw [← List.append_assoc]
      exact hruns.next hworks.1
  obtain ⟨hruns, hbarrier, hcount⟩ := hrun
  have hinv := inv_of_runs hruns
  rw [← hbarrier]
  exact ⟨hcount.trans hinv.barriers.steps_le, hinv.works_or_completed⟩

def twoConsumers : Options :=
  ⟨4, 10, 2, Nat.succ_pos 3, sampleMemorySize_pos, sampleOptions.maxMemorySize_lt, Nat.succ_pos 1⟩

/-- The state behind the addition of one element. -/
def oneAdded : State Nat Bool :=
  { add id twoConsumers { State.init with memorySize := 7 } 7 with
    barriers := Function.update (fun _ => 0) 0 1
    producer := .idle }

theorem runs_oneAdded : Runs id (fun _ => false) twoConsumers [.added 7] oneAdded := by
  have hrun : Runs id (fun _ => false) twoConsumers _ (_ : State Nat Bool) :=
    .next (.next (.next (.next (.next (.next (.next .start (.lock (7 : Nat) rfl rfl)) (.readLast rfl)) (.readFirst rfl))
      (.checkMemory rfl)) (.reserve rfl)) (.push rfl)) (.advanceFirst rfl)
  exact hrun

/-- The first of two consumers aborts an element, the second one skips it; its completion is left. -/
theorem pipeline_drains_sample : ∃ events state', Runs id (fun _ => false) twoConsumers [.added 7] oneAdded ∧
    events = [.offered 0 0, .aborted 0 0, .finished 0 0, .skipped 1 0, .finished 1 0, .inspected 0] ∧
    Working id (fun _ => false) twoConsumers oneAdded 9 events state' ∧
    9 ≤ twoConsumers.numConsumers * (7 * oneAdded.barriers 0 + 2) ∧
      ((∃ event state'', Works id (fun _ => false) twoConsumers state' event state'') ∨
        completions ([.added 7] ++ events) = List.range (oneAdded.barriers 0)) := by
  have hfirst : 0 < twoConsumers.numConsumers := by decide
  have hsecond : 1 < twoConsumers.numConsumers := by decide
  have hstart : Working id (fun _ => false) twoConsumers oneAdded 0 [] oneAdded := .start
  have haborted := hstart.next (works_of_activity_ne 0 (.tryNext hfirst rfl (by decide)) rfl (by rintro ⟨⟩))
    |>.next (works_of_activity_ne 0 (.offer hfirst rfl rfl rfl) rfl (by rintro ⟨⟩))
    |>.next (works_of_activity_ne 0 (.abort 7 true hfirst rfl rfl) rfl (by rintro ⟨⟩))
    |>.next (works_of_activity_ne 0 (.markSkipped hfirst rfl rfl) rfl (by rintro ⟨⟩))
    |>.next (works_of_activity_ne 0 (.advance hfirst rfl) rfl (by rintro ⟨⟩))
  have hskipped := haborted.next (works_of_activity_ne 1 (.tryNext hsecond rfl (by decide)) rfl (by rintro ⟨⟩))
    |>.next (works_of_activity_ne 1 (.skip hsecond rfl rfl rfl) rfl (by rintro ⟨⟩))
    |>.next (works_of_activity_ne 1 (.advance hsecond rfl) rfl (by rintro ⟨⟩))
    |>.next (works_of_activity_ne 1 (.inspect hsecond rfl rfl) rfl (by rintro ⟨⟩))
  exact ⟨_, _, runs_oneAdded, rfl, hskipped, pipeline_drains runs_oneAdded hskipped⟩

end Catapult.Disruptor
