import Catapult.Disruptor.Barriers

/-!
# Slots that are reused

The slot of a position is reused only for a position that is a capacity above it. An addition checks the free slots with
a last barrier that may have moved on since, which only leaves more room, and one slot is kept for the element that the
inspector has still to see. So the positions in use have slots of their own.
-/

namespace Catapult.Disruptor
open Catapult.Chain (add64 sub64)

variable {Input Code : Type} {memorySize : Input → Nat} {isEmpty : Input → Bool} {options : Options}
  {state state' : State Input Code} {event : Option Event} {history : List Event} {level position : Nat}

/-- One when an element was added that the first barrier does not count yet. -/
def Producer.uncounted : Producer Input → Nat
  | pushed => 1
  | _ => 0

@[mk_iff]
structure Counts (history : List Event) (state : State Input Code) : Prop where
  next : state.next = (addedSizes history).length
  count : state.allElementsCount = (addedSizes history).length
  first : state.barriers 0 + state.producer.uncounted = (addedSizes history).length

theorem counts_init : Counts [] (State.init : State Input Code) := ⟨rfl, rfl, rfl⟩

theorem addedSizes_eq_of_ne {event : Option Event} (h : ∀ size, event ≠ some (.added size)) :
    addedSizes (history ++ event.toList) = addedSizes history := by
  rw [addedSizes_append]
  cases event with
  | none => exact List.append_nil _
  | some event =>
    cases event with
    | added size => exact absurd rfl (h size)
    | _ => exact List.append_nil _

theorem Counts.congr {history' : List Event} (h : Counts history state)
    (hadded : addedSizes history' = addedSizes history) (hnext : state'.next = state.next)
    (hcount : state'.allElementsCount = state.allElementsCount)
    (hfirst : state'.barriers 0 + state'.producer.uncounted = state.barriers 0 + state.producer.uncounted) :
    Counts history' state' := by
  rw [counts_iff, hadded, hnext, hcount, hfirst]
  exact ⟨h.next, h.count, h.first⟩

theorem Counts.step (h : Counts history state) (hstep : Step memorySize isEmpty options state event state') :
    Counts (history ++ event.toList) state' := by
  cases hstep with
  | lock _ hproducer | readLast hproducer | readFirst hproducer | reserve hproducer =>
    refine h.congr (addedSizes_eq_of_ne fun _ hfalse => nomatch hfalse) rfl rfl ?_
    rw [hproducer]
    rfl
  | checkMemory hproducer =>
    refine h.congr (addedSizes_eq_of_ne fun _ hfalse => nomatch hfalse) rfl rfl ?_
    rw [hproducer]
    dsimp only
    split <;> rfl
  | @push input hproducer =>
    have hadded : addedSizes (history ++ [Event.added (memorySize input)]) = addedSizes history ++ [memorySize input] :=
      addedSizes_append
    have hfirst := h.first
    rw [hproducer] at hfirst
    refine ⟨?_, ?_, ?_⟩
    · show state.next + 1 = (addedSizes (history ++ [Event.added (memorySize input)])).length
      rw [hadded, List.length_append, h.next]
      rfl
    · show state.allElementsCount + 1 = (addedSizes (history ++ [Event.added (memorySize input)])).length
      rw [hadded, List.length_append, h.count]
      rfl
    · show state.barriers 0 + 1 = (addedSizes (history ++ [Event.added (memorySize input)])).length
      rw [hadded, List.length_append, ← hfirst]
      rfl
  | advanceFirst hproducer =>
    refine h.congr (addedSizes_eq_of_ne fun _ hfalse => nomatch hfalse) rfl rfl ?_
    rw [hproducer]
    show Function.update state.barriers 0 (state.barriers 0 + 1) 0 + 0 = state.barriers 0 + 1
    rw [Function.update_self]
  | sleep | tryNext | offer | skip | consume | abort | markSkipped | inspect | complete =>
    exact h.congr (addedSizes_eq_of_ne fun _ hfalse => nomatch hfalse) rfl rfl rfl
  | advance =>
    refine h.congr (addedSizes_eq_of_ne fun _ hfalse => nomatch hfalse) rfl rfl ?_
    exact congrArg (· + state.producer.uncounted) (advance_barriers_of_ne (Nat.succ_ne_zero _).symm)

/-- What the addition that holds the lock has found out, which later moves of the consumers do not take away. -/
def Producer.Ready (options : Options) (barriers : Nat → Nat) : Producer Input → Prop
  | readLast _ minPosition => minPosition ≤ barriers options.numConsumers
  | checked _ isFull =>
    isFull = false → barriers 0 + 2 ≤ barriers options.numConsumers + options.slotCount
  | accepted _ | reserved _ => barriers 0 + 2 ≤ barriers options.numConsumers + options.slotCount
  | _ => True

structure Room (options : Options) (history : List Event) (state : State Input Code) : Prop where
  ready : state.producer.Ready options state.barriers
  room : (addedSizes history).length ≤ (completions history).length + options.slotCount

theorem room_init : Room options [] (State.init : State Input Code) := ⟨trivial, Nat.zero_le _⟩

theorem Producer.Ready.mono {producer : Producer Input} {barriers barriers' : Nat → Nat}
    (h : producer.Ready options barriers) (hfirst : barriers' 0 = barriers 0)
    (hlast : barriers options.numConsumers ≤ barriers' options.numConsumers) : producer.Ready options barriers' := by
  cases producer with
  | idle | locked | pushed => trivial
  | readLast => exact Nat.le_trans h hlast
  | checked _ isFull =>
    intro hfull
    have := h hfull
    rw [hfirst]
    omega
  | accepted | reserved =>
    have : barriers 0 + 2 ≤ barriers options.numConsumers + options.slotCount := h
    show barriers' 0 + 2 ≤ barriers' options.numConsumers + options.slotCount
    omega

theorem completions_le {events : List Event} :
    (completions history).length ≤ (completions (history ++ events)).length := by
  rw [completions_append, List.length_append]
  exact Nat.le_add_right _ _

namespace Room

theorem of_ready (h : Room options history state) (hadded : ∀ size, event ≠ some (.added size))
    (hready : state'.producer.Ready options state'.barriers) : Room options (history ++ event.toList) state' := by
  refine ⟨hready, ?_⟩
  rw [addedSizes_eq_of_ne hadded]
  exact Nat.le_trans h.room (Nat.add_le_add_right completions_le _)

theorem barrier_le (hprogress : Progress options history state) :
    (completions history).length ≤ state.barriers options.numConsumers ∧
      state.barriers options.numConsumers ≤ (completions history).length + 1 := by
  obtain ⟨count, hrange, hcount⟩ := hprogress.completions
  have hone : (lastActivity options state).uncompleted ≤ 1 := by
    cases lastActivity options state <;> simp [Activity.uncompleted]
  rw [hrange, List.length_range]
  omega

theorem step (h : Room options history state)
    (hprogress : Progress options history state) (hcounts : Counts history state)
    (hstep : Step memorySize isEmpty options state event state') : Room options (history ++ event.toList) state' := by
  have hready := h.ready
  cases hstep with
  | lock | sleep | tryNext | offer | skip | consume | abort | markSkipped | inspect | complete =>
    exact h.of_ready (fun _ hfalse => nomatch hfalse) (by first | exact hready | trivial)
  | readLast => exact h.of_ready (fun _ hfalse => nomatch hfalse) (Nat.le_refl _)
  | @readFirst input minPosition hproducer =>
    rw [hproducer] at hready
    have hle : minPosition ≤ state.barriers options.numConsumers := hready
    refine h.of_ready (fun _ hfalse => nomatch hfalse) fun hfull => ?_
    have hcan : state.barriers 0 - minPosition + 1 + 1 ≤ options.slotCount := by
      simpa [canProcessNextElement] using hfull
    show state.barriers 0 + 2 ≤ state.barriers options.numConsumers + options.slotCount
    omega
  | @checkMemory input isFull hproducer =>
    rw [hproducer] at hready
    refine h.of_ready (fun _ hfalse => nomatch hfalse) ?_
    dsimp only
    split
    · trivial
    · rename_i hfits
      refine hready ?_
      cases isFull with
      | false => rfl
      | true => exact absurd rfl hfits
  | reserve hproducer =>
    rw [hproducer] at hready
    exact h.of_ready (fun _ hfalse => nomatch hfalse) hready
  | @push input hproducer =>
    rw [hproducer] at hready
    have hspace : state.barriers 0 + 2 ≤ state.barriers options.numConsumers + options.slotCount := hready
    have hfirst := hcounts.first
    rw [hproducer] at hfirst
    have hlength : state.barriers 0 = (addedSizes history).length := hfirst
    have hlast := barrier_le hprogress
    refine ⟨trivial, ?_⟩
    show (addedSizes (history ++ [Event.added (memorySize input)])).length ≤
      (completions (history ++ [Event.added (memorySize input)])).length + options.slotCount
    have hcompletions : completions (history ++ [Event.added (memorySize input)]) = completions history :=
      completions_append.trans (List.append_nil _)
    rw [addedSizes_append, List.length_append, hcompletions,
      show (addedSizes [Event.added (memorySize input)]).length = 1 from rfl]
    omega
  | advanceFirst => exact h.of_ready (fun _ hfalse => nomatch hfalse) trivial
  | advance =>
    refine h.of_ready (fun _ hfalse => nomatch hfalse) (hready.mono ?_ le_advance_barriers)
    exact advance_barriers_of_ne (Nat.succ_ne_zero _).symm

end Room

def InUse (history : List Event) (position : Nat) : Prop :=
  (completions history).length ≤ position ∧ position < (addedSizes history).length

theorem inUse_of_busy (hbarriers : Barriers options state) (hprogress : Progress options history state)
    (hcounts : Counts history state) (hlevel : level < options.numConsumers)
    (hbusy : (state.consumers level).activity.isBusy) : InUse history (state.consumers level).position := by
  have hlt := hbarriers.busy level hlevel hbusy
  have hfirst := hbarriers.le (Nat.le_of_lt hlevel) (Nat.zero_le level)
  have hlast := hbarriers.le (Nat.le_refl _) (show level + 1 ≤ options.numConsumers from hlevel)
  have hposition := hbarriers.position level hlevel
  have hcompleted := Room.barrier_le hprogress
  have hcount := hcounts.first
  exact ⟨by omega, by omega⟩

theorem inUse_of_behind (hbarriers : Barriers options state) (hprogress : Progress options history state)
    (hcounts : Counts history state) (hlevel : level < options.numConsumers)
    (hbehind : (state.consumers level).activity.behind = some position) :
    InUse history position ∧ (completions history).length = position := by
  obtain ⟨hlast, hposition⟩ := hbarriers.behind level hlevel position hbehind
  obtain ⟨count, hrange, hcount⟩ := hprogress.completions
  have hone : (lastActivity options state).uncompleted = 1 := by
    rw [Progress.lastActivity_eq hlast]
    cases hactivity : (state.consumers level).activity with
    | inspecting | completing => rfl
    | _ => rw [hactivity] at hbehind; cases hbehind
  have hfirst := hbarriers.le (Nat.le_refl _) (Nat.zero_le options.numConsumers)
  have hadded := hcounts.first
  rw [hone, ← hlast, ← hposition] at hcount
  have hlength : (completions history).length = position := by
    rw [hrange, List.length_range]
    omega
  rw [← hlast] at hfirst
  exact ⟨⟨Nat.le_of_eq hlength, by omega⟩, hlength⟩

theorem mod_ne_mod {p q capacity : Nat} (hlt : p < q) (hcapacity : q < p + capacity) : p % capacity ≠ q % capacity := by
  intro hmod
  have hdiff : (q - p) % capacity = 0 := Nat.sub_mod_eq_zero_of_mod_eq hmod.symm
  rw [Nat.mod_eq_of_lt (by omega)] at hdiff
  omega

theorem elementAt_setElement {element : Element Input Code} {p q : Nat}
    (hroom : (addedSizes history).length ≤ (completions history).length + options.slotCount)
    (hp : InUse history p) (hq : InUse history q) :
    elementAt options (state.setElement options q element) p =
      if p = q then some element else elementAt options state p := by
  obtain ⟨hp₁, hp₂⟩ := hp
  obtain ⟨hq₁, hq₂⟩ := hq
  unfold elementAt State.setElement
  split
  · rename_i heq
    rw [heq]
    exact Function.update_self ..
  · rename_i hne
    refine Function.update_of_ne ?_ ..
    rcases Nat.lt_or_gt_of_ne hne with hlt | hlt
    · exact mod_ne_mod hlt (by omega)
    · exact (mod_ne_mod hlt (by omega)).symm

end Catapult.Disruptor
