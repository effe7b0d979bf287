import Catapult.Disruptor.Slots

/-!
# Elements and who has aborted them

The slot of a position in use holds the element that was added there. Its result is set exactly by the consumers that
have aborted it, as soon as they have left it.
-/

namespace Catapult.Disruptor
variable {Input Code : Type} {memorySize : Input → Nat} {isEmpty : Input → Bool} {options : Options}
  {state state' : State Input Code} {event : Option Event} {history : List Event} {level position : Nat}

def Holds (options : Options) (history : List Event) (state : State Input Code) (position : Nat) : Prop :=
  ∃ element, elementAt options state position = some element ∧ element.id = position + 1 ∧
    (addedSizes history)[position]? = some element.memorySize

/-- A result is the one of a consumer that has aborted the element, and is there once that consumer has marked it. -/
structure Marked (history : List Event) (state : State Input Code) (position : Nat) (element : Element Input Code) :
    Prop where
  aborted : element.result.isSome → ∃ level, .aborted level position ∈ history
  result : ∀ level, .aborted level position ∈ history → element.result.isSome ∨
    ∃ code, (state.consumers level).activity = .marking code ∧ (state.consumers level).position = position

structure Elements (options : Options) (history : List Event) (state : State Input Code) : Prop where
  held : ∀ position, InUse history position → Holds options history state position
  marked : ∀ position, InUse history position → ∀ element, elementAt options state position = some element →
    Marked history state position element
  marking : ∀ level < options.numConsumers, ∀ code, (state.consumers level).activity = .marking code →
    .aborted level (state.consumers level).position ∈ history
  visited : ∀ level position, .aborted level position ∈ history → level < options.numConsumers ∧
    position < (state.consumers level).position + (state.consumers level).activity.visited

theorem elements_init : Elements options [] (State.init : State Input Code) where
  held _ h := absurd h.2 (Nat.not_lt_zero _)
  marked _ h := absurd h.2 (Nat.not_lt_zero _)
  marking _ _ _ h := nomatch h
  visited _ _ h := nomatch h

theorem InUse.of_append {events : List Event} (hadded : addedSizes (history ++ events) = addedSizes history)
    (h : InUse (history ++ events) position) : InUse history position :=
  ⟨Nat.le_trans completions_le h.1, hadded ▸ h.2⟩

namespace Elements

theorem transfer (h : Elements options history state) {events : List Event}
    (hadded : addedSizes (history ++ events) = addedSizes history)
    (haborted : ∀ k p, .aborted k p ∈ history ++ events → .aborted k p ∈ history) (hslots : state'.slots = state.slots)
    (hmarking : ∀ k code, (state'.consumers k).activity = .marking code ↔ (state.consumers k).activity = .marking code)
    (hposition : ∀ k code, (state.consumers k).activity = .marking code →
      (state'.consumers k).position = (state.consumers k).position)
    (hvisited : ∀ k, (state.consumers k).position + (state.consumers k).activity.visited ≤
      (state'.consumers k).position + (state'.consumers k).activity.visited) :
    Elements options (history ++ events) state' := by
  have hat : ∀ p, elementAt options state' p = elementAt options state p := fun p => congrFun hslots _
  refine ⟨fun p hp => ?_, fun p hp element helement => ?_, fun k hk code hmark => ?_, fun k p hmem => ?_⟩
  · obtain ⟨element, helement, hid, hsize⟩ := h.held p (hp.of_append hadded)
    exact ⟨element, (hat p).trans helement, hid, hadded.symm ▸ hsize⟩
  · have hmarked := h.marked p (hp.of_append hadded) element ((hat p).symm.trans helement)
    refine ⟨fun hsome => ?_, fun k hmem => ?_⟩
    · obtain ⟨k, hmem⟩ := hmarked.aborted hsome
      exact ⟨k, List.mem_append_left _ hmem⟩
    · refine (hmarked.result k (haborted k p hmem)).imp_right ?_
      rintro ⟨code, hmark, hpositionAt⟩
      exact ⟨code, (hmarking k code).2 hmark, (hposition k code hmark).trans hpositionAt⟩
  · have hmark' := (hmarking k code).1 hmark
    rw [hposition k code hmark']
    exact List.mem_append_left _ (h.marking k hk code hmark')
  · obtain ⟨hk, hlt⟩ := h.visited k p (haborted k p hmem)
    exact ⟨hk, Nat.lt_of_lt_of_le hlt (hvisited k)⟩

theorem setActivity (h : Elements options history state) {events : List Event}
    (hadded : addedSizes (history ++ events) = addedSizes history)
    (haborted : ∀ k p, .aborted k p ∈ history ++ events → .aborted k p ∈ history)
    (hnot : ∀ code, (state.consumers level).activity ≠ .marking code) {activity : Activity Code}
    (hnew : ∀ code, activity ≠ .marking code)
    (hvisited : (state.consumers level).activity.visited ≤ activity.visited) :
    Elements options (history ++ events) (state.setActivity level activity) := by
  refine h.transfer hadded haborted rfl (fun k code => ?_) (fun k _ _ => Progress.position_setActivity) fun k => ?_
  · rcases eq_or_ne k level with rfl | hne
    · simp only [State.setActivity, Function.update_self, hnew, hnot]
    · simp only [State.setActivity, Function.update_of_ne hne]
  · rw [Progress.position_setActivity]
    rcases eq_or_ne k level with rfl | hne
    · simp only [State.setActivity, Function.update_self]
      omega
    · simp only [State.setActivity, Function.update_of_ne hne]
      exact Nat.le_refl _

theorem setInput (h : Elements options history state)
    (hroom : (addedSizes history).length ≤ (completions history).length + options.slotCount)
    (hposition : InUse history position) {element : Element Input Code}
    (helement : elementAt options state position = some element) (input : Input) :
    Elements options history (state.setElement options position { element with input }) := by
  refine ⟨fun p hp => ?_, fun p hp other hother => ?_, h.marking, h.visited⟩
  · obtain ⟨held, hheld, hid, hsize⟩ := h.held p hp
    unfold Holds
    rw [elementAt_setElement hroom hp hposition]
    split
    · rename_i heq
      subst heq
      cases hheld.symm.trans helement
      exact ⟨_, rfl, hid, hsize⟩
    · exact ⟨held, hheld, hid, hsize⟩
  · rw [elementAt_setElement hroom hp hposition] at hother
    split at hother
    · rename_i heq
      subst heq
      cases hother
      have hmarked := h.marked p hp element helement
      exact ⟨hmarked.aborted, hmarked.result⟩
    · have hmarked := h.marked p hp other hother
      exact ⟨hmarked.aborted, hmarked.result⟩

theorem abort (h : Elements options history state) (hlevel : level < options.numConsumers)
    (hactivity : (state.consumers level).activity = .consuming) (code : Code) :
    Elements options (history ++ [.aborted level (state.consumers level).position])
      (state.setActivity level (.marking code)) := by
  have hadded : addedSizes (history ++ [.aborted level (state.consumers level).position]) = addedSizes history :=
    addedSizes_append.trans (List.append_nil _)
  have hother : ∀ k c, (state.consumers k).activity = .marking c →
      (state.setActivity level (.marking code)).consumers k = state.consumers k := by
    intro k c hmarking
    refine Function.update_of_ne ?_ ..
    rintro rfl
    rw [hactivity] at hmarking
    cases hmarking
  have hself : (state.setActivity level (.marking code)).consumers level =
      { state.consumers level with activity := .marking code } := Function.update_self ..
  have hmem_iff : ∀ k p, .aborted k p ∈ history ++ [Event.aborted level (state.consumers level).position] →
      .aborted k p ∈ history ∨ k = level ∧ p = (state.consumers level).position := by
    intro k p hmem
    refine (List.mem_append.1 hmem).imp_right fun hlast => ?_
    cases List.mem_singleton.1 hlast
    exact ⟨rfl, rfl⟩
  refine ⟨fun p hp => ?_, fun p hp element helement => ?_, fun k hk c hmarking => ?_, fun k p hmem => ?_⟩
  · obtain ⟨element, helement, hid, hsize⟩ := h.held p (hp.of_append hadded)
    exact ⟨element, helement, hid, hadded.symm ▸ hsize⟩
  · have hmarked := h.marked p (hp.of_append hadded) element helement
    refine ⟨fun hsome => ?_, fun k hmem => ?_⟩
    · obtain ⟨k, hmem⟩ := hmarked.aborted hsome
      exact ⟨k, List.mem_append_left _ hmem⟩
    · rcases hmem_iff k p hmem with hmem | ⟨rfl, rfl⟩
      · refine (hmarked.result k hmem).imp_right ?_
        rintro ⟨c, hmarking, hposition⟩
        rw [hother k c hmarking]
        exact ⟨c, hmarking, hposition⟩
      · rw [hself]
        exact .inr ⟨code, rfl, rfl⟩
  · rcases eq_or_ne k level with rfl | hne
    · rw [Progress.position_setActivity]
      exact List.mem_append_right _ List.mem_cons_self
    · have hsame : (state.setActivity level (.marking code)).consumers k = state.consumers k :=
        Function.update_of_ne hne ..
      rw [hsame] at hmarking ⊢
      exact List.mem_append_left _ (h.marking k hk c hmarking)
  · rw [Progress.position_setActivity, Progress.measure_setActivity Activity.visited (by rw [hactivity]; rfl)]
    rcases hmem_iff k p hmem with hmem | ⟨rfl, rfl⟩
    · exact h.visited k p hmem
    · rw [hactivity]
      exact ⟨hlevel, Nat.lt_succ_self _⟩

theorem markSkipped (h : Elements options history state)
    (hroom : (addedSizes history).length ≤ (completions history).length + options.slotCount)
    (hlevel : level < options.numConsumers) {code : Code}
    (hactivity : (state.consumers level).activity = .marking code)
    (hposition : InUse history (state.consumers level).position) {element : Element Input Code}
    (helement : elementAt options state (state.consumers level).position = some element) :
    Elements options history ((state.setElement options (state.consumers level).position
      { element with result := some (code, (state.consumers level).position) }).setActivity level .advancing) := by
  have hat : ∀ p, InUse history p → elementAt options ((state.setElement options (state.consumers level).position
      { element with result := some (code, (state.consumers level).position) }).setActivity level .advancing) p =
      if p = (state.consumers level).position then
        some { element with result := some (code, (state.consumers level).position) }
      else elementAt options state p := fun p hp => elementAt_setElement hroom hp hposition
  refine ⟨fun p hp => ?_, fun p hp other hother => ?_, fun k hk c hmarking => ?_, fun k p hmem => ?_⟩
  · obtain ⟨held, hheld, hid, hsize⟩ := h.held p hp
    unfold Holds
    rw [hat p hp]
    split
    · rename_i heq
      subst heq
      cases hheld.symm.trans helement
      exact ⟨_, rfl, hid, hsize⟩
    · exact ⟨held, hheld, hid, hsize⟩
  · rw [hat p hp] at hother
    split at hother
    · rename_i heq
      subst heq
      cases hother
      exact ⟨fun _ => ⟨level, h.marking level hlevel code hactivity⟩, fun _ _ => .inl rfl⟩
    · rename_i hne
      have hmarked := h.marked p hp other hother
      refine ⟨hmarked.aborted, fun k hmem => (hmarked.result k hmem).imp_right ?_⟩
      rintro ⟨c, hmarking, hpositionAt⟩
      have hk : k ≠ level := by
        rintro rfl
        exact hne hpositionAt.symm
      refine ⟨c, ?_, ?_⟩
      · simp only [State.setActivity, State.setElement, Function.update_of_ne hk]
        exact hmarking
      · simp only [State.setActivity, State.setElement, Function.update_of_ne hk]
        exact hpositionAt
  · rcases eq_or_ne k level with rfl | hne
    · simp only [State.setActivity, Function.update_self] at hmarking
      cases hmarking
    · simp only [State.setActivity, State.setElement, Function.update_of_ne hne] at hmarking ⊢
      exact h.marking k hk c hmarking
  · obtain ⟨hk, hlt⟩ := h.visited k p hmem
    refine ⟨hk, ?_⟩
    rcases eq_or_ne k level with rfl | hne
    · rw [hactivity] at hlt
      simp only [State.setActivity, State.setElement, Function.update_self]
      exact hlt
    · simp only [State.setActivity, State.setElement, Function.update_of_ne hne]
      exact hlt

theorem advance (h : Elements options history state)
    (hactivity : (state.consumers level).activity = .advancing) :
    Elements options (history ++ [.finished level (state.consumers level).position])
      (Disruptor.advance options state level) := by
  refine h.transfer (addedSizes_append.trans (List.append_nil _)) (fun k p hmem => ?_) rfl (fun k code => ?_)
    (fun k code hmarking => ?_) fun k => ?_
  · rcases List.mem_append.1 hmem with hmem | hmem
    · exact hmem
    · cases List.mem_singleton.1 hmem
  · rcases eq_or_ne k level with rfl | hne
    · rw [advance_consumers_self, hactivity]
      dsimp only
      split <;> exact ⟨fun hfalse => (nomatch hfalse), fun hfalse => (nomatch hfalse)⟩
    · rw [advance_consumers_of_ne hne]
  · rw [advance_consumers_of_ne]
    rintro rfl
    rw [hactivity] at hmarking
    cases hmarking
  · rcases eq_or_ne k level with rfl | hne
    · rw [advance_consumers_self, hactivity]
      exact Nat.le_add_right _ _
    · rw [advance_consumers_of_ne hne]

theorem push (h : Elements options history state) (hbarriers : Barriers options state) (hcounts : Counts history state)
    (input : Input) (hroom : (addedSizes (history ++ [.added (memorySize input)])).length ≤
      (completions (history ++ [.added (memorySize input)])).length + options.slotCount) :
    Elements options (history ++ [.added (memorySize input)]) (add memorySize options state input) := by
  have hadded : addedSizes (history ++ [.added (memorySize input)]) = addedSizes history ++ [memorySize input] :=
    addedSizes_append
  have hcompletions : completions (history ++ [.added (memorySize input)]) = completions history :=
    completions_append.trans (List.append_nil _)
  have haborted : ∀ k p, .aborted k p ∈ history ++ [Event.added (memorySize input)] → .aborted k p ∈ history := by
    intro k p hmem
    rcases List.mem_append.1 hmem with hmem | hmem
    · exact hmem
    · cases List.mem_singleton.1 hmem
  have hlength : (addedSizes (history ++ [.added (memorySize input)])).length = (addedSizes history).length + 1 := by
    rw [hadded, List.length_append]
    rfl
  -- nobody has come to the new position yet
  have hbelow : ∀ k p, .aborted k p ∈ history → p < (addedSizes history).length := by
    intro k p hmem
    obtain ⟨hk, hlt⟩ := h.visited k p hmem
    have hfirst := hcounts.first
    have hmono := hbarriers.le (Nat.le_of_lt hk) (Nat.zero_le k)
    have hposition := hbarriers.position k hk
    have hordered := hbarriers.ordered k hk
    by_cases hbusy : (state.consumers k).activity.isBusy
    · have hpositionLt := hbarriers.busy k hk hbusy
      have hone : (state.consumers k).activity.visited ≤ 1 := by
        cases (state.consumers k).activity <;> simp [Activity.visited]
      omega
    · have hzero : (state.consumers k).activity.visited = 0 := by
        cases hactivity : (state.consumers k).activity <;> simp_all [Activity.visited, Activity.isBusy]
      omega
  have hat : ∀ p, InUse (history ++ [.added (memorySize input)]) p →
      elementAt options (add memorySize options state input) p =
        if p = (addedSizes history).length then
          some { id := state.allElementsCount + 1, memorySize := memorySize input, input, result := none }
        else elementAt options state p := by
    intro p hp
    have hnext : InUse (history ++ [.added (memorySize input)]) state.next := by
      refine ⟨?_, by rw [hlength, hcounts.next]; exact Nat.lt_succ_self _⟩
      rw [hcounts.next]
      have := hp.1
      have := hp.2
      omega
    rw [← hcounts.next]
    exact elementAt_setElement hroom hp hnext
  have hold : ∀ p, InUse (history ++ [.added (memorySize input)]) p → p ≠ (addedSizes history).length →
      InUse history p := by
    intro p hp hne
    have hlt := hp.2
    exact ⟨hcompletions ▸ hp.1, by omega⟩
  refine ⟨fun p hp => ?_, fun p hp element helement => ?_, fun k hk code hmarking => ?_, fun k p hmem => ?_⟩
  · unfold Holds
    rw [hat p hp, hadded]
    split
    · rename_i heq
      subst heq
      refine ⟨_, rfl, by rw [hcounts.count], ?_⟩
      rw [List.getElem?_append_right (Nat.le_refl _), Nat.sub_self]
      rfl
    · rename_i hne
      obtain ⟨element, helement, hid, hsize⟩ := h.held p (hold p hp hne)
      refine ⟨element, helement, hid, ?_⟩
      rw [List.getElem?_append_left (hold p hp hne).2]
      exact hsize
  · rw [hat p hp] at helement
    split at helement
    · rename_i heq
      subst heq
      cases helement
      refine ⟨fun hfalse => (nomatch hfalse), fun k hmem => ?_⟩
      exact absurd (hbelow k _ (haborted k _ hmem)) (Nat.lt_irrefl _)
    · rename_i hne
      have hmarked := h.marked p (hold p hp hne) element helement
      refine ⟨fun hsome => ?_, fun k hmem => hmarked.result k (haborted k p hmem)⟩
      obtain ⟨k, hmem⟩ := hmarked.aborted hsome
      exact ⟨k, List.mem_append_left _ hmem⟩
  · exact List.mem_append_left _ (h.marking k hk code hmarking)
  · exact h.visited k p (haborted k p hmem)

theorem aborted_mem_of_ne {event : Option Event} (h : ∀ level position, event ≠ some (.aborted level position))
    (k p : Nat) (hmem : .aborted k p ∈ history ++ event.toList) : .aborted k p ∈ history := by
  rcases List.mem_append.1 hmem with hmem | hmem
  · exact hmem
  · exact absurd (Option.mem_toList.1 hmem) (h k p)

theorem step (h : Elements options history state) (hbarriers : Barriers options state)
    (hprogress : Progress options history state) (hcounts : Counts history state) (hroom : Room options history state)
    (hstep : Step memorySize isEmpty options state event state') :
    Elements options (history ++ event.toList) state' := by
  have hroom' := hroom.step hprogress hcounts hstep
  cases hstep with
  | lock | readLast | readFirst | checkMemory | reserve | advanceFirst | sleep =>
    exact h.transfer (addedSizes_eq_of_ne fun _ hfalse => nomatch hfalse)
      (aborted_mem_of_ne fun _ _ hfalse => nomatch hfalse) rfl (fun _ _ => Iff.rfl) (fun _ _ _ => rfl)
      (fun _ => Nat.le_refl _)
  | push => exact h.push hbarriers hcounts _ hroom'.room
  | tryNext hlevel hactivity | offer hlevel hactivity | skip hlevel hactivity | inspect hlevel hactivity =>
    refine h.setActivity (addedSizes_eq_of_ne (by rintro _ ⟨⟩)) (aborted_mem_of_ne (by rintro _ _ ⟨⟩)) (fun _ => ?_)
      (fun _ hfalse => nomatch hfalse) ?_
    · rw [hactivity]
      exact fun hfalse => nomatch hfalse
    · rw [hactivity]
      exact Nat.zero_le _
  | @consume level _ input hlevel hactivity helement =>
    have hposition := inUse_of_busy hbarriers hprogress hcounts hlevel (by rw [hactivity]; rfl)
    refine (h.setInput hroom.room hposition helement input).setActivity
      (addedSizes_eq_of_ne (by rintro _ ⟨⟩)) (aborted_mem_of_ne (by rintro _ _ ⟨⟩)) (fun code hfalse => ?_)
      (fun _ hfalse => nomatch hfalse) ?_
    · cases hactivity.symm.trans hfalse
    · show (state.consumers level).activity.visited ≤ 1
      rw [hactivity]
      exact Nat.le_refl _
  | @abort level _ input code hlevel hactivity helement =>
    have hposition := inUse_of_busy hbarriers hprogress hcounts hlevel (by rw [hactivity]; rfl)
    exact (h.setInput hroom.room hposition helement input).abort hlevel hactivity code
  | @markSkipped level _ _ hlevel hactivity helement =>
    have hposition := inUse_of_busy hbarriers hprogress hcounts hlevel (by rw [hactivity]; rfl)
    rw [Option.toList_none, List.append_nil]
    exact h.markSkipped hroom.room hlevel hactivity hposition helement
  | advance hlevel hactivity => exact h.advance hactivity
  | @complete level position _ hlevel hactivity =>
    have hset : Elements options (history ++ [.completed position]) (state.setActivity level .waiting) := by
      refine h.setActivity (addedSizes_append.trans (List.append_nil _)) (fun k p hmem => ?_) (fun _ => ?_)
        (fun _ hfalse => nomatch hfalse) ?_
      · rcases List.mem_append.1 hmem with hmem | hmem
        · exact hmem
        · cases List.mem_singleton.1 hmem
      · rw [hactivity]
        exact fun hfalse => nomatch hfalse
      · rw [hactivity]
        exact Nat.zero_le _
    refine ⟨hset.held, fun p hp element helement => ?_, hset.marking, hset.visited⟩
    have hmarked := hset.marked p hp element helement
    exact ⟨hmarked.aborted, hmarked.result⟩

end Elements

end Catapult.Disruptor
