import Catapult.Disruptor.ConsumerDispatcher

/-!
# Barriers and progress

The barriers go down from the first to the last one, and a consumer is busy only below its own barrier. So each consumer
visits and finishes the positions from 0 on, and the last one leaves the inspector at most one position behind.
-/

namespace Catapult.Disruptor
variable {Input Code : Type} {memorySize : Input → Nat} {isEmpty : Input → Bool} {options : Options}
  {state state' : State Input Code} {event : Option Event} {history : List Event} {level position : Nat}

namespace Activity

def isBusy : Activity Code → Bool
  | checking | consuming | marking _ | advancing => true
  | _ => false

/-- One when the position of the entry has been visited already. -/
def visited : Activity Code → Nat
  | consuming | marking _ | advancing => 1
  | _ => 0

def behind : Activity Code → Option Nat
  | inspecting position | completing position => some position
  | _ => none

def uninspected : Activity Code → Nat
  | inspecting _ => 1
  | _ => 0

def uncompleted : Activity Code → Nat
  | inspecting _ | completing _ => 1
  | _ => 0

end Activity

section Advance
variable {other : Nat}

theorem advance_barriers_self : (advance options state level).barriers (level + 1) = state.barriers (level + 1) + 1 :=
  Function.update_self ..

theorem advance_barriers_of_ne (h : other ≠ level + 1) :
    (advance options state level).barriers other = state.barriers other := Function.update_of_ne h ..

theorem le_advance_barriers : state.barriers other ≤ (advance options state level).barriers other := by
  rcases eq_or_ne other (level + 1) with rfl | hne
  · rw [advance_barriers_self]
    exact Nat.le_succ _
  · rw [advance_barriers_of_ne hne]

theorem advance_consumers_self : (advance options state level).consumers level =
    { position := (state.consumers level).position + 1
      activity :=
        if level + 1 = options.numConsumers then .inspecting (state.consumers level).position else .waiting } :=
  Function.update_self ..

theorem advance_consumers_of_ne (h : other ≠ level) :
    (advance options state level).consumers other = state.consumers other := Function.update_of_ne h ..

end Advance

/-! ## Barriers -/

structure Barriers (options : Options) (state : State Input Code) : Prop where
  ordered : ∀ level < options.numConsumers, state.barriers (level + 1) ≤ state.barriers level
  position : ∀ level < options.numConsumers, (state.consumers level).position = state.barriers (level + 1)
  busy : ∀ level < options.numConsumers, (state.consumers level).activity.isBusy →
    (state.consumers level).position < state.barriers level
  behind : ∀ level < options.numConsumers, ∀ position, (state.consumers level).activity.behind = some position →
    level + 1 = options.numConsumers ∧ position + 1 = state.barriers (level + 1)

theorem barriers_init : Barriers options (State.init : State Input Code) :=
  ⟨fun _ _ => Nat.le_refl _, fun _ _ => rfl, fun _ _ h => (nomatch h), fun _ _ _ h => (nomatch h)⟩

namespace Barriers

theorem setActivity (h : Barriers options state) {activity : Activity Code}
    (hbusy : activity.isBusy → (state.consumers level).position < state.barriers level)
    (hbehind : ∀ position, activity.behind = some position →
      level + 1 = options.numConsumers ∧ position + 1 = state.barriers (level + 1)) :
    Barriers options (state.setActivity level activity) := by
  refine ⟨h.ordered, fun k hk => ?_, fun k hk => ?_, fun k hk => ?_⟩
  all_goals
    by_cases hlevel : k = level
    · subst hlevel
      simp only [State.setActivity, Function.update_self]
      first
        | exact h.position k hk
        | exact hbusy
        | exact hbehind
    · simp only [State.setActivity, Function.update_of_ne hlevel]
      first
        | exact h.position k hk
        | exact h.busy k hk
        | exact h.behind k hk

theorem advance (h : Barriers options state) (hlevel : level < options.numConsumers)
    (hactivity : (state.consumers level).activity = .advancing) : Barriers options (advance options state level) := by
  have hposition := h.position level hlevel
  have hlt := h.busy level hlevel (by rw [hactivity]; rfl)
  refine ⟨fun k hk => ?_, fun k hk => ?_, fun k hk => ?_, fun k hk => ?_⟩
  · have hordered := h.ordered k hk
    rcases eq_or_ne k level with rfl | hne
    · rw [advance_barriers_self, advance_barriers_of_ne (by omega)]
      omega
    · rw [advance_barriers_of_ne (show k + 1 ≠ level + 1 by omega)]
      exact Nat.le_trans hordered le_advance_barriers
  · rcases eq_or_ne k level with rfl | hne
    · rw [advance_barriers_self, advance_consumers_self, hposition]
    · rw [advance_barriers_of_ne (by omega), advance_consumers_of_ne hne]
      exact h.position k hk
  · rcases eq_or_ne k level with rfl | hne
    · rw [advance_consumers_self]
      dsimp only
      split <;> exact fun hfalse => nomatch hfalse
    · rw [advance_consumers_of_ne hne]
      exact fun hbusy => Nat.lt_of_lt_of_le (h.busy k hk hbusy) le_advance_barriers
  · rcases eq_or_ne k level with rfl | hne
    · rw [advance_consumers_self, advance_barriers_self]
      dsimp only
      split
      · rintro p ⟨⟩
        omega
      · exact fun p hfalse => nomatch hfalse
    · rw [advance_consumers_of_ne hne, advance_barriers_of_ne (by omega)]
      exact h.behind k hk

theorem step (h : Barriers options state) (hstep : Step memorySize isEmpty options state event state') :
    Barriers options state' := by
  cases hstep with
  | lock | readLast | readFirst | checkMemory | reserve | push | sleep =>
    exact ⟨h.ordered, h.position, h.busy, h.behind⟩
  | advanceFirst =>
    have hmono : ∀ k, state.barriers k ≤ Function.update state.barriers 0 (state.barriers 0 + 1) k := by
      intro k
      rcases eq_or_ne k 0 with rfl | hne
      · rw [Function.update_self]
        exact Nat.le_succ _
      · rw [Function.update_of_ne hne]
    have hsame : ∀ k, Function.update state.barriers 0 (state.barriers 0 + 1) (k + 1) = state.barriers (k + 1) :=
      fun k => Function.update_of_ne (Nat.succ_ne_zero k) ..
    refine ⟨fun k hk => ?_, fun k hk => ?_, fun k hk hbusy => ?_, fun k hk p hp => ?_⟩
    · exact Nat.le_trans (Nat.le_of_eq (hsame k)) (Nat.le_trans (h.ordered k hk) (hmono k))
    · exact (h.position k hk).trans (hsame k).symm
    · exact Nat.lt_of_lt_of_le (h.busy k hk hbusy) (hmono k)
    · exact ⟨(h.behind k hk p hp).1, (h.behind k hk p hp).2.trans (hsame k).symm⟩
  | @tryNext level hlevel hactivity hbarrier =>
    refine h.setActivity (fun _ => ?_) (fun p hp => nomatch hp)
    have hposition := h.position level hlevel
    have hordered := h.ordered level hlevel
    omega
  | @offer level _ hlevel hactivity | @skip level _ hlevel hactivity =>
    exact h.setActivity (fun _ => h.busy level hlevel (by rw [hactivity]; rfl)) (fun p hp => nomatch hp)
  | @consume level _ _ hlevel hactivity =>
    have hset : Barriers options (state.setActivity level .advancing) :=
      h.setActivity (fun _ => h.busy level hlevel (by rw [hactivity]; rfl)) (fun p hp => nomatch hp)
    exact ⟨hset.ordered, hset.position, hset.busy, hset.behind⟩
  | @abort level _ _ code hlevel hactivity =>
    have hset : Barriers options (state.setActivity level (.marking code)) :=
      h.setActivity (fun _ => h.busy level hlevel (by rw [hactivity]; rfl)) (fun p hp => nomatch hp)
    exact ⟨hset.ordered, hset.position, hset.busy, hset.behind⟩
  | @markSkipped level _ _ hlevel hactivity =>
    have hset : Barriers options (state.setActivity level .advancing) :=
      h.setActivity (fun _ => h.busy level hlevel (by rw [hactivity]; rfl)) (fun p hp => nomatch hp)
    exact ⟨hset.ordered, hset.position, hset.busy, hset.behind⟩
  | advance hlevel hactivity => exact h.advance hlevel hactivity
  | @inspect level position _ hlevel hactivity =>
    refine h.setActivity (fun hbusy => nomatch hbusy) ?_
    rintro p ⟨⟩
    exact h.behind level hlevel position (by rw [hactivity]; rfl)
  | @complete level position _ hlevel hactivity =>
    have hset : Barriers options (state.setActivity level .waiting) :=
      h.setActivity (fun hbusy => nomatch hbusy) (fun p hp => nomatch hp)
    exact ⟨hset.ordered, hset.position, hset.busy, hset.behind⟩

theorem le (h : Barriers options state) {later : Nat} (hlater : later ≤ options.numConsumers) (hle : level ≤ later) :
    state.barriers later ≤ state.barriers level := by
  induction later, hle using Nat.le_induction with
  | base => exact Nat.le_refl _
  | succ k _ ih => exact Nat.le_trans (h.ordered k (by omega)) (ih (by omega))

end Barriers

/-! ## History -/

def Event.addedSize : Event → Option Nat
  | .added memorySize => some memorySize
  | _ => none

/-- The position that a consumer visits, whether it is offered the element or skips it. -/
def Event.visit (level : Nat) : Event → Option Nat
  | .offered visitor position | .skipped visitor position => if visitor = level then some position else none
  | _ => none

def Event.finish (level : Nat) : Event → Option Nat
  | .finished visitor position => if visitor = level then some position else none
  | _ => none

def Event.inspection : Event → Option Nat
  | .inspected position => some position
  | _ => none

def Event.completion : Event → Option Nat
  | .completed position => some position
  | _ => none

def addedSizes (history : List Event) : List Nat := history.filterMap Event.addedSize

def visits (level : Nat) (history : List Event) : List Nat := history.filterMap (Event.visit level)

def finishes (level : Nat) (history : List Event) : List Nat := history.filterMap (Event.finish level)

def inspections (history : List Event) : List Nat := history.filterMap Event.inspection

def completions (history : List Event) : List Nat := history.filterMap Event.completion

def lastActivity (options : Options) (state : State Input Code) : Activity Code :=
  (state.consumers (options.numConsumers - 1)).activity

structure Progress (options : Options) (history : List Event) (state : State Input Code) : Prop where
  visits : ∀ level < options.numConsumers, visits level history =
    List.range ((state.consumers level).position + (state.consumers level).activity.visited)
  finishes : ∀ level < options.numConsumers, finishes level history = List.range (state.consumers level).position
  inspections : ∃ count, inspections history = List.range count ∧
    count + (lastActivity options state).uninspected = state.barriers options.numConsumers
  completions : ∃ count, completions history = List.range count ∧
    count + (lastActivity options state).uncompleted = state.barriers options.numConsumers

theorem progress_init : Progress options [] (State.init : State Input Code) :=
  ⟨fun _ _ => rfl, fun _ _ => rfl, ⟨0, rfl, rfl⟩, ⟨0, rfl, rfl⟩⟩

theorem visits_append {events : List Event} :
    visits level (history ++ events) = visits level history ++ visits level events := List.filterMap_append ..

theorem finishes_append {events : List Event} :
    finishes level (history ++ events) = finishes level history ++ finishes level events := List.filterMap_append ..

theorem inspections_append {events : List Event} :
    inspections (history ++ events) = inspections history ++ inspections events := List.filterMap_append ..

theorem completions_append {events : List Event} :
    completions (history ++ events) = completions history ++ completions events := List.filterMap_append ..

theorem addedSizes_append {events : List Event} :
    addedSizes (history ++ events) = addedSizes history ++ addedSizes events := List.filterMap_append ..

structure Quiet (events : List Event) : Prop where
  visits : ∀ level, visits level events = []
  finishes : ∀ level, finishes level events = []
  inspections : inspections events = []
  completions : completions events = []

theorem quiet_nil : Quiet [] := ⟨fun _ => rfl, fun _ => rfl, rfl, rfl⟩

theorem quiet_added {size : Nat} : Quiet [.added size] := ⟨fun _ => rfl, fun _ => rfl, rfl, rfl⟩

theorem quiet_aborted : Quiet [.aborted level position] := ⟨fun _ => rfl, fun _ => rfl, rfl, rfl⟩

namespace Progress

theorem quiet (h : Progress options history state) {events : List Event} (hevents : Quiet events)
    (hposition : ∀ k, (state'.consumers k).position = (state.consumers k).position)
    (hvisited : ∀ k, (state'.consumers k).activity.visited = (state.consumers k).activity.visited)
    (hinspected : (lastActivity options state').uninspected = (lastActivity options state).uninspected)
    (hcompleted : (lastActivity options state').uncompleted = (lastActivity options state).uncompleted)
    (hbarrier : state'.barriers options.numConsumers = state.barriers options.numConsumers) :
    Progress options (history ++ events) state' := by
  refine ⟨fun k hk => ?_, fun k hk => ?_, ?_, ?_⟩
  · rw [visits_append, hevents.visits, List.append_nil, hposition, hvisited]
    exact h.visits k hk
  · rw [finishes_append, hevents.finishes, List.append_nil, hposition]
    exact h.finishes k hk
  · rw [inspections_append, hevents.inspections, List.append_nil, hinspected, hbarrier]
    exact h.inspections
  · rw [completions_append, hevents.completions, List.append_nil, hcompleted, hbarrier]
    exact h.completions

theorem position_setActivity {activity : Activity Code} {k : Nat} :
    ((state.setActivity level activity).consumers k).position = (state.consumers k).position := by
  unfold State.setActivity
  rcases eq_or_ne k level with rfl | hne
  · simp only [Function.update_self]
  · simp only [Function.update_of_ne hne]

theorem measure_setActivity {activity : Activity Code} {k : Nat} (measure : Activity Code → Nat)
    (h : measure activity = measure (state.consumers level).activity) :
    measure ((state.setActivity level activity).consumers k).activity = measure (state.consumers k).activity := by
  unfold State.setActivity
  rcases eq_or_ne k level with rfl | hne
  · simp only [Function.update_self, h]
  · simp only [Function.update_of_ne hne]

theorem quiet_setActivity (h : Progress options history state) {events : List Event} (hevents : Quiet events)
    {activity : Activity Code} (hvisited : activity.visited = (state.consumers level).activity.visited)
    (hinspected : activity.uninspected = (state.consumers level).activity.uninspected)
    (hcompleted : activity.uncompleted = (state.consumers level).activity.uncompleted) :
    Progress options (history ++ events) (state.setActivity level activity) :=
  h.quiet hevents (fun _ => position_setActivity) (fun _ => measure_setActivity _ hvisited)
    (measure_setActivity _ hinspected) (measure_setActivity _ hcompleted) rfl

theorem visit (h : Progress options history state) (hactivity : (state.consumers level).activity = .checking)
    {events : List Event}
    (hvisit : ∀ k, Disruptor.visits k events = if level = k then [(state.consumers level).position] else [])
    (hquiet : (∀ k, Disruptor.finishes k events = []) ∧ Disruptor.inspections events = [] ∧
      Disruptor.completions events = [])
    {activity : Activity Code} (hvisited : activity.visited = 1) (hinspected : activity.uninspected = 0)
    (hcompleted : activity.uncompleted = 0) :
    Progress options (history ++ events) (state.setActivity level activity) := by
  have hzero : (state.consumers level).activity.uninspected = 0 ∧ (state.consumers level).activity.uncompleted = 0 ∧
      (state.consumers level).activity.visited = 0 := by rw [hactivity]; exact ⟨rfl, rfl, rfl⟩
  refine ⟨fun k hk => ?_, fun k hk => ?_, ?_, ?_⟩
  · rw [visits_append, hvisit, position_setActivity, h.visits k hk]
    rcases eq_or_ne k level with rfl | hne
    · simp only [State.setActivity, Function.update_self, hvisited, hzero.2.2, if_true, Nat.add_zero]
      exact List.range_succ.symm
    · simp only [State.setActivity, Function.update_of_ne hne, hne.symm, if_false, List.append_nil]
  · rw [finishes_append, hquiet.1, List.append_nil, position_setActivity]
    exact h.finishes k hk
  · rw [inspections_append, hquiet.2.1, List.append_nil, lastActivity,
      measure_setActivity _ (hinspected.trans hzero.1.symm)]
    exact h.inspections
  · rw [completions_append, hquiet.2.2, List.append_nil, lastActivity,
      measure_setActivity _ (hcompleted.trans hzero.2.1.symm)]
    exact h.completions

theorem advance (h : Progress options history state)
    (hlevel : level < options.numConsumers) (hactivity : (state.consumers level).activity = .advancing) :
    Progress options (history ++ [.finished level (state.consumers level).position])
      (Disruptor.advance options state level) := by
  have hfinishes : ∀ k, Disruptor.finishes k [.finished level (state.consumers level).position] =
      if level = k then [(state.consumers level).position] else [] := by
    intro k
    by_cases hk : level = k <;> simp [Disruptor.finishes, Event.finish, hk]
  have hlast : lastActivity options (Disruptor.advance options state level) =
      if level + 1 = options.numConsumers then .inspecting (state.consumers level).position
      else lastActivity options state := by
    unfold lastActivity
    rcases eq_or_ne (options.numConsumers - 1) level with rfl | hne
    · rw [advance_consumers_self]
      simp [show options.numConsumers - 1 + 1 = options.numConsumers by omega]
    · rw [advance_consumers_of_ne hne, if_neg (by omega)]
  -- the last consumer moves the last barrier and leaves the inspector one behind
  have hmeasure : ∀ measure : Activity Code → Nat, (∀ p, measure (.inspecting p) = 1) →
      measure .advancing = 0 → ∀ count, count + measure (lastActivity options state) =
        state.barriers options.numConsumers →
      count + measure (lastActivity options (Disruptor.advance options state level)) =
        (Disruptor.advance options state level).barriers options.numConsumers := by
    intro measure hone hzero count hcount
    rw [hlast]
    split
    · rename_i heq
      have hself : lastActivity options state = .advancing := by
        rw [lastActivity, show options.numConsumers - 1 = level by omega, hactivity]
      rw [hself, hzero] at hcount
      rw [hone, ← heq, advance_barriers_self, heq]
      omega
    · rw [advance_barriers_of_ne (by omega)]
      exact hcount
  refine ⟨fun k hk => ?_, fun k hk => ?_, ?_, ?_⟩
  · rw [visits_append, show Disruptor.visits k [.finished level (state.consumers level).position] = [] from rfl,
      List.append_nil, h.visits k hk]
    rcases eq_or_ne k level with rfl | hne
    · rw [advance_consumers_self, hactivity]
      dsimp only
      split <;> rfl
    · rw [advance_consumers_of_ne hne]
  · rw [finishes_append, hfinishes, h.finishes k hk]
    rcases eq_or_ne k level with rfl | hne
    · rw [advance_consumers_self, if_pos rfl]
      exact List.range_succ.symm
    · rw [advance_consumers_of_ne hne, if_neg hne.symm, List.append_nil]
  · obtain ⟨count, hrange, hcount⟩ := h.inspections
    refine ⟨count, ?_, hmeasure _ (fun _ => rfl) rfl count hcount⟩
    rw [inspections_append, hrange]
    exact List.append_nil _
  · obtain ⟨count, hrange, hcount⟩ := h.completions
    refine ⟨count, ?_, hmeasure _ (fun _ => rfl) rfl count hcount⟩
    rw [completions_append, hrange]
    exact List.append_nil _

theorem lastActivity_setActivity (hlevel : level + 1 = options.numConsumers) {activity : Activity Code} :
    lastActivity options (state.setActivity level activity) = activity := by
  rw [lastActivity, show options.numConsumers - 1 = level by omega, State.setActivity]
  simp only [Function.update_self]

theorem lastActivity_eq (hlevel : level + 1 = options.numConsumers) :
    lastActivity options state = (state.consumers level).activity := by
  rw [lastActivity, show options.numConsumers - 1 = level by omega]

theorem inspect (h : Progress options history state) (hbarriers : Barriers options state)
    (hlevel : level < options.numConsumers) (hactivity : (state.consumers level).activity = .inspecting position) :
    Progress options (history ++ [.inspected position]) (state.setActivity level (.completing position)) := by
  obtain ⟨hlast, hposition⟩ := hbarriers.behind level hlevel position (by rw [hactivity]; rfl)
  have hself : lastActivity options state = .inspecting position := (lastActivity_eq hlast).trans hactivity
  refine ⟨fun k hk => ?_, fun k hk => ?_, ?_, ?_⟩
  · rw [visits_append, position_setActivity, measure_setActivity Activity.visited (by rw [hactivity]; rfl)]
    exact (List.append_nil _).trans (h.visits k hk)
  · rw [finishes_append, position_setActivity]
    exact (List.append_nil _).trans (h.finishes k hk)
  · obtain ⟨count, hrange, hcount⟩ := h.inspections
    rw [hself, ← hlast, ← hposition] at hcount
    have heq : count = position := Nat.succ.inj hcount
    refine ⟨count + 1, ?_, ?_⟩
    · rw [inspections_append, hrange, List.range_succ, heq]
      rfl
    · rw [lastActivity_setActivity hlast, ← hlast]
      exact hcount.trans hposition
  · obtain ⟨count, hrange, hcount⟩ := h.completions
    refine ⟨count, ?_, ?_⟩
    · rw [completions_append, hrange]
      exact List.append_nil _
    · rw [lastActivity_setActivity hlast]
      rw [hself] at hcount
      exact hcount

theorem complete (h : Progress options history state) (hbarriers : Barriers options state)
    (hlevel : level < options.numConsumers) (hactivity : (state.consumers level).activity = .completing position) :
    Progress options (history ++ [.completed position]) (state.setActivity level .waiting) := by
  obtain ⟨hlast, hposition⟩ := hbarriers.behind level hlevel position (by rw [hactivity]; rfl)
  have hself : lastActivity options state = .completing position := (lastActivity_eq hlast).trans hactivity
  refine ⟨fun k hk => ?_, fun k hk => ?_, ?_, ?_⟩
  · rw [visits_append, position_setActivity, measure_setActivity Activity.visited (by rw [hactivity]; rfl)]
    exact (List.append_nil _).trans (h.visits k hk)
  · rw [finishes_append, position_setActivity]
    exact (List.append_nil _).trans (h.finishes k hk)
  · obtain ⟨count, hrange, hcount⟩ := h.inspections
    refine ⟨count, ?_, ?_⟩
    · rw [inspections_append, hrange]
      exact List.append_nil _
    · rw [lastActivity_setActivity hlast]
      rw [hself] at hcount
      exact hcount
  · obtain ⟨count, hrange, hcount⟩ := h.completions
    rw [hself, ← hlast, ← hposition] at hcount
    have heq : count = position := Nat.succ.inj hcount
    refine ⟨count + 1, ?_, ?_⟩
    · rw [completions_append, hrange, List.range_succ, heq]
      rfl
    · rw [lastActivity_setActivity hlast, ← hlast]
      exact hcount.trans hposition

theorem step (h : Progress options history state) (hbarriers : Barriers options state)
    (hstep : Step memorySize isEmpty options state event state') :
    Progress options (history ++ event.toList) state' := by
  have hsame : ∀ {s : State Input Code}, Progress options (history ++ event.toList) s →
      s.consumers = state'.consumers → s.barriers = state'.barriers →
      Progress options (history ++ event.toList) state' := by
    intro s hs hconsumers hbarriersSame
    refine ⟨fun k hk => ?_, fun k hk => ?_, ?_, ?_⟩
    · exact hconsumers ▸ hs.visits k hk
    · exact hconsumers ▸ hs.finishes k hk
    · have := hs.inspections
      rwa [lastActivity, hconsumers, hbarriersSame] at this
    · have := hs.completions
      rwa [lastActivity, hconsumers, hbarriersSame] at this
  cases hstep with
  | lock | readLast | readFirst | checkMemory | reserve | sleep =>
    exact h.quiet quiet_nil (fun _ => rfl) (fun _ => rfl) rfl rfl rfl
  | push => exact h.quiet quiet_added (fun _ => rfl) (fun _ => rfl) rfl rfl rfl
  | advanceFirst =>
    refine h.quiet quiet_nil (fun _ => rfl) (fun _ => rfl) rfl rfl ?_
    exact Function.update_of_ne (Nat.ne_of_gt options.numConsumers_pos) ..
  | tryNext hlevel hactivity =>
    exact h.quiet_setActivity quiet_nil (by rw [hactivity]; rfl) (by rw [hactivity]; rfl) (by rw [hactivity]; rfl)
  | @offer level _ hlevel hactivity | @skip level _ hlevel hactivity =>
    refine h.visit hactivity (fun k => ?_) ⟨fun _ => rfl, rfl, rfl⟩ rfl rfl rfl
    by_cases hk : level = k <;> simp [Disruptor.visits, Event.visit, hk]
  | @consume level _ _ hlevel hactivity =>
    have hset : Progress options (history ++ []) (state.setActivity level .advancing) :=
      h.quiet_setActivity quiet_nil (by rw [hactivity]; rfl) (by rw [hactivity]; rfl) (by rw [hactivity]; rfl)
    exact hsame hset rfl rfl
  | @abort level _ _ code hlevel hactivity =>
    have hset : Progress options (history ++ [.aborted level (state.consumers level).position])
        (state.setActivity level (.marking code)) :=
      h.quiet_setActivity quiet_aborted (by rw [hactivity]; rfl) (by rw [hactivity]; rfl) (by rw [hactivity]; rfl)
    exact hsame hset rfl rfl
  | @markSkipped level _ _ hlevel hactivity =>
    have hset : Progress options (history ++ []) (state.setActivity level .advancing) :=
      h.quiet_setActivity quiet_nil (by rw [hactivity]; rfl) (by rw [hactivity]; rfl) (by rw [hactivity]; rfl)
    exact hsame hset rfl rfl
  | advance hlevel hactivity => exact h.advance hlevel hactivity
  | inspect hlevel hactivity => exact h.inspect hbarriers hlevel hactivity
  | complete hlevel hactivity => exact hsame (h.complete hbarriers hlevel hactivity) rfl rfl

end Progress

end Catapult.Disruptor
