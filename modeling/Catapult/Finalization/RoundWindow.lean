import Catapult.Finalization.ProofGrouping

/-!
# The window of rounds (`MultiRoundMessageAggregator`)

The aggregators are kept for rounds between the least and the greatest round of a window. `Run` are the states after
sequences of calls that never decrease the greatest round, together with the messages that were accepted and whose
round was not pruned since.
-/

namespace Catapult.Finalization
open RoundMessageAggregator

namespace MultiRoundMessageAggregator
variable {crypto : Crypto} {config : FinalizationConfiguration} {state state' : MultiRoundMessageAggregator}
  {accepted : List FinalizationMessage} {round : FinalizationRound} {agg : RoundMessageAggregator}

/-- A call of the modifier, with the accounts of the moment when a message is added. -/
inductive ModifierCall where
  | add (accounts : HighValueAccounts) (message : FinalizationMessage)
  | setMaxFinalizationRound (round : FinalizationRound)
  | prune (epoch : UInt32)

def apply (crypto : Crypto) (state : MultiRoundMessageAggregator) : ModifierCall → MultiRoundMessageAggregator
  | .add accounts message => (state.add crypto accounts message).2
  | .setMaxFinalizationRound round => (state.setMaxFinalizationRound round).getD state
  | .prune epoch => state.prune epoch

def NonDecreasing (state : MultiRoundMessageAggregator) : ModifierCall → Prop
  | .setMaxFinalizationRound round => state.maxFinalizationRound ≤ round
  | _ => True

/-- The result of `add` is a success. -/
def accepts (crypto : Crypto) (accounts : HighValueAccounts) (state : MultiRoundMessageAggregator)
    (message : FinalizationMessage) : Bool :=
  (state.add crypto accounts message).1.any RoundMessageAggregatorAddResult.isSuccess

/-- The messages that were accepted, without the ones of rounds that are pruned. -/
def acceptedAfter (crypto : Crypto) (state : MultiRoundMessageAggregator) (accepted : List FinalizationMessage) :
    ModifierCall → List FinalizationMessage
  | .add accounts message => if state.accepts crypto accounts message then accepted ++ [message] else accepted
  | .setMaxFinalizationRound _ => accepted
  | .prune epoch => accepted.filter fun message => decide (epoch ≤ message.stepIdentifier.round.epoch)

inductive Run (crypto : Crypto) (config : FinalizationConfiguration) :
    MultiRoundMessageAggregator → List FinalizationMessage → Prop
  | create (round : FinalizationRound) (previousFinalized : HeightHashPair) :
    Run crypto config (create config round previousFinalized) []
  | call {state : MultiRoundMessageAggregator} {accepted : List FinalizationMessage} (call : ModifierCall)
    (h : Run crypto config state accepted) (hcall : state.NonDecreasing call) :
    Run crypto config (state.apply crypto call) (state.acceptedAfter crypto accepted call)

/-- A call that does not decrease the greatest round. -/
def Step (crypto : Crypto) (state state' : MultiRoundMessageAggregator) : Prop :=
  ∃ call, state.NonDecreasing call ∧ state' = state.apply crypto call

theorem lt_iff_epoch (epoch : UInt32) (round : FinalizationRound) :
    round < ⟨epoch, 0⟩ ↔ round.epoch < epoch := by
  change toLex (round.epoch.toNat, round.point.toNat) < toLex (epoch.toNat, 0) ↔ _
  rw [Prod.Lex.toLex_lt_toLex, UInt32.lt_iff_toNat_lt]
  simp

theorem find?_prune (state : MultiRoundMessageAggregator) (epoch : UInt32) (round : FinalizationRound) :
    (state.prune epoch).roundMessageAggregators.find? round =
      if round.epoch < epoch then none else state.roundMessageAggregators.find? round := by
  rw [prune, SortedMap.find?_filterKeys]
  by_cases hlt : round.epoch < epoch
  · simp [lt_iff_epoch, hlt]
  · simp [lt_iff_epoch, hlt]

/-! ## The window -/

structure InWindow (state : MultiRoundMessageAggregator) : Prop where
  min_le_max : state.minFinalizationRound ≤ state.maxFinalizationRound
  rounds : ∀ round agg, state.roundMessageAggregators.find? round = some agg →
    state.minFinalizationRound ≤ round ∧ round ≤ state.maxFinalizationRound

theorem add_window (crypto : Crypto) (accounts : HighValueAccounts) (state : MultiRoundMessageAggregator)
    (message : FinalizationMessage) :
    (state.add crypto accounts message).2 = state ∧ state.accepts crypto accounts message = false ∨
    (state.minFinalizationRound ≤ message.stepIdentifier.round ∧
      message.stepIdentifier.round ≤ state.maxFinalizationRound ∧
      ∃ agg, (state.roundMessageAggregators.find? message.stepIdentifier.round = some agg ∨
          state.roundMessageAggregators.find? message.stepIdentifier.round = none ∧
          ∃ context, createContext state.config accounts message.stepIdentifier.round.epoch = some context ∧
            agg = .create context) ∧
        state.add crypto accounts message = ((agg.add crypto message).1, { state with
          roundMessageAggregators := state.roundMessageAggregators.alter message.stepIdentifier.round fun _ =>
            some (agg.add crypto message).2 })) := by
  by_cases hout : message.stepIdentifier.round < state.minFinalizationRound ∨
      state.maxFinalizationRound < message.stepIdentifier.round
  · left
    simp [accepts, add, hout, RoundMessageAggregatorAddResult.isSuccess]
  cases hagg : (state.roundMessageAggregators.find? message.stepIdentifier.round).or
      ((createContext state.config accounts message.stepIdentifier.round.epoch).map RoundMessageAggregator.create) with
  | none =>
    left
    simp [accepts, add, hout, hagg]
  | some agg =>
    right
    obtain ⟨hmin, hmax⟩ := not_or.1 hout
    refine ⟨not_lt.1 hmin, not_lt.1 hmax, agg, ?_, by simp [add, hout, hagg]⟩
    rcases Option.or_eq_some_iff.1 hagg with hfind | ⟨hnone, hnew⟩
    · exact .inl hfind
    · obtain ⟨context, hcontext, heq⟩ := Option.map_eq_some_iff.1 hnew
      exact .inr ⟨hnone, context, hcontext, heq.symm⟩

theorem setMax_of_nonDecreasing (h : state.InWindow) (hround : state.maxFinalizationRound ≤ round) :
    state.apply crypto (.setMaxFinalizationRound round) = { state with maxFinalizationRound := round } := by
  have hmin := h.min_le_max.trans hround
  simp [apply, setMaxFinalizationRound, not_lt.2 hmin]

theorem InWindow.min_prune (h : state.InWindow) (epoch : UInt32) :
    state.minFinalizationRound ≤ (state.prune epoch).minFinalizationRound ∧
    (state.prune epoch).minFinalizationRound ≤ state.maxFinalizationRound ∧
    ∀ round agg, (state.prune epoch).roundMessageAggregators.find? round = some agg →
      (state.prune epoch).minFinalizationRound ≤ round := by
  have hfind : ∀ e ∈ (state.prune epoch).roundMessageAggregators.entries,
      state.roundMessageAggregators.find? e.1 = some e.2 := by
    intro e he
    exact SortedMap.find?_filterKeys_eq_some (SortedMap.mem_entries_iff.1 he)
  have hsorted := (state.prune epoch).roundMessageAggregators.sorted
  have hmin : (state.prune epoch).minFinalizationRound =
      ((state.prune epoch).roundMessageAggregators.entries.head?.map Prod.fst).getD state.maxFinalizationRound := rfl
  rw [hmin]
  cases hentries : (state.prune epoch).roundMessageAggregators.entries with
  | nil =>
    refine ⟨h.min_le_max, le_refl _, fun round agg hround => ?_⟩
    have hmem := SortedMap.mem_entries_iff (e := (round, agg)).2 hround
    rw [hentries] at hmem
    cases hmem
  | cons e entries =>
    rw [hentries] at hfind hsorted
    obtain ⟨hle, hmax⟩ := h.rounds _ _ (hfind e List.mem_cons_self)
    refine ⟨hle, hmax, fun round agg hround => ?_⟩
    have hmem := SortedMap.mem_entries_iff (e := (round, agg)).2 hround
    rw [hentries] at hmem
    rcases List.mem_cons.1 hmem with rfl | hmem
    · exact le_refl _
    · exact le_of_lt ((List.pairwise_cons.1 hsorted).1 _ hmem)

theorem InWindow.apply (h : state.InWindow) {call : ModifierCall} (hcall : state.NonDecreasing call) :
    (state.apply crypto call).InWindow ∧
    state.minFinalizationRound ≤ (state.apply crypto call).minFinalizationRound := by
  cases call with
  | add accounts message =>
    rcases add_window crypto accounts state message with ⟨hsame, -⟩ | ⟨hmin, hmax, agg, -, hadd⟩
    · rw [MultiRoundMessageAggregator.apply, hsame]
      exact ⟨h, le_refl _⟩
    · rw [MultiRoundMessageAggregator.apply, hadd]
      refine ⟨⟨h.min_le_max, fun round agg' hfind => ?_⟩, le_refl _⟩
      simp only [SortedMap.find?_alter] at hfind
      split at hfind
      · rename_i heq
        rw [heq]
        exact ⟨hmin, hmax⟩
      · exact h.rounds _ _ hfind
  | setMaxFinalizationRound round =>
    rw [setMax_of_nonDecreasing h hcall]
    refine ⟨⟨h.min_le_max.trans hcall, fun other agg hfind => ?_⟩, le_refl _⟩
    obtain ⟨hmin, hmax⟩ := h.rounds _ _ hfind
    exact ⟨hmin, hmax.trans hcall⟩
  | prune epoch =>
    obtain ⟨hmin, hmax, hrounds⟩ := h.min_prune epoch
    refine ⟨⟨hmax, fun round agg hfind => ⟨hrounds _ _ hfind, ?_⟩⟩, hmin⟩
    exact (h.rounds _ _ (SortedMap.find?_filterKeys_eq_some hfind)).2

theorem Run.inWindow (h : Run crypto config state accepted) : state.InWindow := by
  induction h with
  | create round previousFinalized => exact ⟨le_refl _, fun _ _ hfind => by cases hfind⟩
  | call call _ hcall ih => exact (ih.apply hcall).1

theorem InWindow.min_le_of_steps (h : state.InWindow) (hsteps : Relation.ReflTransGen (Step crypto) state state') :
    state'.InWindow ∧ state.minFinalizationRound ≤ state'.minFinalizationRound := by
  induction hsteps with
  | refl => exact ⟨h, le_refl _⟩
  | tail _ hstep ih =>
    obtain ⟨call, hcall, rfl⟩ := hstep
    obtain ⟨hwindow, hmin⟩ := @InWindow.apply crypto _ ih.1 call hcall
    exact ⟨hwindow, ih.2.trans hmin⟩

/-! ## Accepted messages -/

def ofRound (round : FinalizationRound) (accepted : List FinalizationMessage) : List FinalizationMessage :=
  accepted.filter fun message => decide (message.stepIdentifier.round = round)

structure HasMessages (crypto : Crypto) (state : MultiRoundMessageAggregator) (accepted : List FinalizationMessage) :
    Prop where
  rounds : ∀ round agg, state.roundMessageAggregators.find? round = some agg →
    Accepted crypto agg.finalizationContext (ofRound round accepted) agg
  retained : ∀ message ∈ accepted, ∃ agg, state.roundMessageAggregators.find? message.stepIdentifier.round = some agg

theorem ofRound_append_of_eq {message : FinalizationMessage} (h : message.stepIdentifier.round = round) :
    ofRound round (accepted ++ [message]) = ofRound round accepted ++ [message] := by
  simp [ofRound, h]

theorem ofRound_append_of_ne {message : FinalizationMessage} (h : message.stepIdentifier.round ≠ round) :
    ofRound round (accepted ++ [message]) = ofRound round accepted := by
  simp [ofRound, h]

theorem ofRound_filter {epoch : UInt32} (h : ¬round.epoch < epoch) :
    ofRound round (accepted.filter fun message => decide (epoch ≤ message.stepIdentifier.round.epoch)) =
      ofRound round accepted := by
  rw [ofRound, ofRound, List.filter_filter]
  refine List.filter_congr fun message _ => ?_
  by_cases heq : message.stepIdentifier.round = round
  · simp [heq, UInt32.not_lt.1 h]
  · simp [heq]

theorem HasMessages.aggregator (h : HasMessages crypto state accepted) {accounts : HighValueAccounts}
    (hagg : state.roundMessageAggregators.find? round = some agg ∨
      state.roundMessageAggregators.find? round = none ∧
      ∃ context, createContext state.config accounts round.epoch = some context ∧ agg = .create context) :
    Accepted crypto agg.finalizationContext (ofRound round accepted) agg := by
  rcases hagg with hfind | ⟨hnone, context, -, rfl⟩
  · exact h.rounds _ _ hfind
  have hempty : ofRound round accepted = [] := by
    refine List.filter_eq_nil_iff.2 fun message hmem heq => ?_
    obtain ⟨agg, hfind⟩ := h.retained message hmem
    rw [of_decide_eq_true heq, hnone] at hfind
    cases hfind
  rw [hempty]
  exact Accepted.create crypto context

theorem HasMessages.add (h : HasMessages crypto state accepted) (accounts : HighValueAccounts)
    (message : FinalizationMessage) : HasMessages crypto (state.apply crypto (.add accounts message))
      (state.acceptedAfter crypto accepted (.add accounts message)) := by
  rcases add_window crypto accounts state message with ⟨hsame, hnot⟩ | ⟨-, -, agg, hagg, hadd⟩
  · rw [apply, hsame, acceptedAfter, hnot]
    exact h
  have haccepted := h.aggregator hagg
  rw [apply, acceptedAfter, accepts, hadd]
  -- the aggregators of the other rounds are the same
  have hothers : ∀ accepted' : List FinalizationMessage,
      (∀ round, message.stepIdentifier.round ≠ round → ofRound round accepted' = ofRound round accepted) →
      Accepted crypto (agg.add crypto message).2.finalizationContext
        (ofRound message.stepIdentifier.round accepted') (agg.add crypto message).2 →
      (∀ other ∈ accepted', other ∈ accepted ∨ other = message) → HasMessages crypto { state with
        roundMessageAggregators := state.roundMessageAggregators.alter message.stepIdentifier.round fun _ =>
          some (agg.add crypto message).2 } accepted' := by
    intro accepted' hothers hnew hmem
    refine ⟨fun round agg' hfind => ?_, fun other hother => ?_⟩
    · simp only [SortedMap.find?_alter] at hfind
      split at hfind
      · rename_i heq
        cases hfind
        rw [heq]
        exact hnew
      · rename_i hne
        rw [hothers round (Ne.symm hne)]
        exact h.rounds _ _ hfind
    · simp only [SortedMap.find?_alter]
      split
      · exact ⟨_, rfl⟩
      · rename_i hne
        rcases hmem other hother with hother | rfl
        · exact h.retained other hother
        · exact absurd rfl hne
  rcases RoundMessageAggregator.add_cases crypto agg message with ⟨hsame, hfail⟩ | ⟨hvalid, hnew⟩
  · simp only [hfail, Bool.false_eq_true, if_false]
    refine hothers accepted (fun _ _ => rfl) ?_ fun other hother => .inl hother
    rw [hsame]
    exact haccepted
  · have hadded := add_of_valid hvalid hnew
    have hyes : (agg.add crypto message).1.any RoundMessageAggregatorAddResult.isSuccess = true := by
      rw [hadded]
      cases message.isPrevote <;> rfl
    simp only [hyes, if_true]
    refine hothers _ (fun round hne => ofRound_append_of_ne hne) ?_ fun other hother => ?_
    · rw [ofRound_append_of_eq rfl, hadded]
      exact haccepted.accept hvalid hnew
    · simpa using hother

theorem HasMessages.prune (h : HasMessages crypto state accepted) (epoch : UInt32) :
    HasMessages crypto (state.apply crypto (.prune epoch)) (state.acceptedAfter crypto accepted (.prune epoch)) := by
  refine ⟨fun round agg hfind => ?_, fun message hmem => ?_⟩
  · rw [apply, find?_prune] at hfind
    split at hfind
    · cases hfind
    · rename_i hnot
      rw [acceptedAfter, ofRound_filter hnot]
      exact h.rounds _ _ hfind
  · obtain ⟨hmem, hle⟩ := List.mem_filter.1 hmem
    rw [apply, find?_prune, if_neg (UInt32.not_lt.2 (of_decide_eq_true hle))]
    exact h.retained message hmem

theorem Run.hasMessages (h : Run crypto config state accepted) : HasMessages crypto state accepted := by
  induction h with
  | create round previousFinalized =>
    refine ⟨fun _ _ hfind => ?_, fun _ hmem => ?_⟩
    · cases hfind
    · cases hmem
  | call call hrun hcall ih =>
    cases call with
    | add accounts message => exact ih.add accounts message
    | setMaxFinalizationRound round =>
      rw [setMax_of_nonDecreasing hrun.inWindow hcall]
      exact ⟨ih.rounds, ih.retained⟩
    | prune epoch => exact ih.prune epoch

/-- In every run the stored rounds are in the window, whose least round never decreases; messages are accepted for
rounds of the window only, pruning removes the rounds of earlier epochs and nothing else, and what was accepted for the
rounds that are left is still there. -/
theorem window_of_run (h : Run crypto config state accepted) :
    (∀ round agg, state.roundMessageAggregators.find? round = some agg →
      state.minFinalizationRound ≤ round ∧ round ≤ state.maxFinalizationRound) ∧
    (∀ state', Relation.ReflTransGen (Step crypto) state state' →
      state.minFinalizationRound ≤ state'.minFinalizationRound) ∧
    (∀ accounts message, state.accepts crypto accounts message = true →
      state.minFinalizationRound ≤ message.stepIdentifier.round ∧
      message.stepIdentifier.round ≤ state.maxFinalizationRound) ∧
    (∀ epoch round, (state.prune epoch).roundMessageAggregators.find? round =
      if round.epoch < epoch then none else state.roundMessageAggregators.find? round) ∧
    (∀ message ∈ accepted, ∃ agg, state.roundMessageAggregators.find? message.stepIdentifier.round = some agg ∧
      message ∈ agg.storedMessages) := by
  refine ⟨h.inWindow.rounds, fun state' hsteps => (h.inWindow.min_le_of_steps hsteps).2, ?_, find?_prune state, ?_⟩
  · intro accounts message haccepts
    rcases add_window crypto accounts state message with ⟨-, hnot⟩ | ⟨hmin, hmax, -⟩
    · rw [hnot] at haccepts
      cases haccepts
    · exact ⟨hmin, hmax⟩
  · intro message hmem
    obtain ⟨agg, hfind⟩ := h.hasMessages.retained message hmem
    refine ⟨agg, hfind, ?_⟩
    have hround : message ∈ ofRound message.stepIdentifier.round accepted := by
      simpa [ofRound] using hmem
    exact (h.hasMessages.rounds _ _ hfind).storedMessages_perm.mem_iff.2 hround

/-- A prevote of the only round of a new aggregator is accepted and kept. -/
theorem window_of_run_prevote : ∃ state agg, Run sampleCrypto defaultConfig state [sampleMessage 1 0] ∧
    state.roundMessageAggregators.find? (sampleMessage 1 0).stepIdentifier.round = some agg ∧
    sampleMessage 1 0 ∈ agg.storedMessages := by
  have hrun := Run.call (.add (twoVoters 7000 3000 (by decide)) (sampleMessage 1 0))
    (@Run.create sampleCrypto defaultConfig ⟨2, 1⟩ ⟨1, 1⟩) trivial
  have haccepts : (create defaultConfig ⟨2, 1⟩ ⟨1, 1⟩).accepts sampleCrypto (twoVoters 7000 3000 (by decide))
      (sampleMessage 1 0) = true := by decide +kernel
  rw [acceptedAfter, if_pos haccepts, List.nil_append] at hrun
  obtain ⟨agg, hfind, hmem⟩ := (window_of_run hrun).2.2.2.2 (sampleMessage 1 0) List.mem_cons_self
  exact ⟨_, agg, hrun, hfind, hmem⟩

end MultiRoundMessageAggregator
end Catapult.Finalization
