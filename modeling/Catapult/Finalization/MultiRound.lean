import Catapult.Finalization.VoterWeight

/-!
# Messages of several rounds (`MultiRoundMessageAggregator`)

One round aggregator is kept for every round of a window that has received a message. Its context is
created, with the high value accounts of that moment, when the first message of the round arrives.

`Reachable` are the states after any sequence of `add`, `setMaxFinalizationRound` and `prune` calls.
In all of them (`Reachable.wellFormed`) the aggregator of a round has the context of the epoch of the
round, and has accepted messages of this round only.
-/

namespace Catapult.Finalization
open RoundMessageAggregator

/-- `FinalizationContextFactory::create` over the accounts of the moment; `none` when it throws. -/
def createContext (config : FinalizationConfiguration) (accounts : HighValueAccounts) (epoch : UInt32) :
    Option FinalizationContext :=
  if epoch = 0 then none
  else do
    let votingSetHeight ← calculateVotingSetEndHeight (epoch - 1) config.votingSetGrouping
    return FinalizationContext.create epoch votingSetHeight config accounts

structure BestPrecommitDescriptor where
  round : FinalizationRound
  target : HeightHashPair
  proof : List FinalizationMessage

/-- The order in which the hash map of a round aggregator is iterated. -/
structure HashMapOrder where
  iterate : RoundMessageAggregator → List MessageDescriptor
  perm : ∀ agg, (iterate agg).Perm (agg.messages.entries.map Sigma.snd)

structure MultiRoundMessageAggregator where
  config : FinalizationConfiguration
  minFinalizationRound : FinalizationRound
  maxFinalizationRound : FinalizationRound
  previousFinalizedHeightHashPair : HeightHashPair
  roundMessageAggregators : SortedMap FinalizationRound RoundMessageAggregator

namespace MultiRoundMessageAggregator
variable {crypto : Crypto} {config : FinalizationConfiguration} {state : MultiRoundMessageAggregator}

def create (config : FinalizationConfiguration) (round : FinalizationRound) (previousFinalized : HeightHashPair) :
    MultiRoundMessageAggregator :=
  ⟨config, round, round, previousFinalized, ∅⟩

def findEstimate (state : MultiRoundMessageAggregator) (round : FinalizationRound) : HeightHashPair :=
  match state.roundMessageAggregators.findLast? fun r agg =>
      decide (r ≤ round) && agg.roundContext.tryFindEstimate.isSome with
  | some (_, agg) => agg.roundContext.tryFindEstimate.getD state.previousFinalizedHeightHashPair
  | none => state.previousFinalizedHeightHashPair

/-- The best precommit of the last round that has one, with the messages that prove it. -/
def tryFindBestPrecommit (order : HashMapOrder) (state : MultiRoundMessageAggregator) :
    Option BestPrecommitDescriptor := do
  let (round, agg) ← state.roundMessageAggregators.findLast? fun _ agg => agg.roundContext.tryFindBestPrecommit.isSome
  let target ← agg.roundContext.tryFindBestPrecommit
  return ⟨round, target, agg.unknownMessages [] (order.iterate agg)⟩

/-- `setMaxFinalizationRound`; `none` when it throws. -/
def setMaxFinalizationRound (state : MultiRoundMessageAggregator) (round : FinalizationRound) :
    Option MultiRoundMessageAggregator :=
  if round < state.minFinalizationRound then none else some { state with maxFinalizationRound := round }

/-- `add`; the result is `none` when an exception is thrown. -/
def add (crypto : Crypto) (accounts : HighValueAccounts) (state : MultiRoundMessageAggregator)
    (message : FinalizationMessage) : Option RoundMessageAggregatorAddResult × MultiRoundMessageAggregator :=
  let messageRound := message.stepIdentifier.round
  if messageRound < state.minFinalizationRound ∨ state.maxFinalizationRound < messageRound then
    (some .failureInvalidPoint, state)
  else
    let roundAggregator := (state.roundMessageAggregators.find? messageRound).or
      ((createContext state.config accounts messageRound.epoch).map RoundMessageAggregator.create)
    match roundAggregator with
    | none => (none, state)
    | some agg =>
      let (result, agg) := agg.add crypto message
      (result, { state with
        roundMessageAggregators := state.roundMessageAggregators.alter messageRound fun _ => some agg })

def prune (state : MultiRoundMessageAggregator) (epoch : UInt32) : MultiRoundMessageAggregator :=
  let remaining := state.roundMessageAggregators.filterKeys fun round => !decide (round < ⟨epoch, 0⟩)
  { state with
    roundMessageAggregators := remaining
    minFinalizationRound := (remaining.entries.head?.map Prod.fst).getD state.maxFinalizationRound }

/-- The states that calls of the modifiers lead to, with any accounts at the time of every call. -/
inductive Reachable (crypto : Crypto) (config : FinalizationConfiguration) : MultiRoundMessageAggregator → Prop
  | create (round : FinalizationRound) (previousFinalized : HeightHashPair) :
    Reachable crypto config (create config round previousFinalized)
  | add {state : MultiRoundMessageAggregator} (accounts : HighValueAccounts) (message : FinalizationMessage) :
    Reachable crypto config state → Reachable crypto config (add crypto accounts state message).2
  | setMaxFinalizationRound {state state' : MultiRoundMessageAggregator} (round : FinalizationRound) :
    Reachable crypto config state → state.setMaxFinalizationRound round = some state' → Reachable crypto config state'
  | prune {state : MultiRoundMessageAggregator} (epoch : UInt32) :
    Reachable crypto config state → Reachable crypto config (state.prune epoch)

/-- The aggregator of a round has accepted messages of that round, in a context of its epoch. -/
structure RoundOk (crypto : Crypto) (config : FinalizationConfiguration) (round : FinalizationRound)
    (agg : RoundMessageAggregator) : Prop where
  config_eq : agg.finalizationContext.config = config
  epoch_eq : agg.finalizationContext.epoch = round.epoch
  accepted : ∃ A, Accepted crypto agg.finalizationContext A agg ∧ ∀ m ∈ A, m.stepIdentifier.round = round

structure WellFormed (crypto : Crypto) (config : FinalizationConfiguration)
    (state : MultiRoundMessageAggregator) : Prop where
  config_eq : state.config = config
  rounds : ∀ round agg, state.roundMessageAggregators.find? round = some agg → RoundOk crypto config round agg

theorem roundOk_create {accounts : HighValueAccounts} {round : FinalizationRound} {context : FinalizationContext}
    (h : createContext config accounts round.epoch = some context) :
    RoundOk crypto config round (RoundMessageAggregator.create context) := by
  unfold createContext at h
  split at h
  · cases h
  obtain ⟨votingSetHeight, -, hcontext⟩ := Option.bind_eq_some_iff.1 h
  cases hcontext
  exact ⟨(FinalizationContext.create_fields ..).1, (FinalizationContext.create_fields ..).2,
    [], Accepted.create crypto _, fun m hm => by simp at hm⟩

theorem RoundOk.add {round : FinalizationRound} {agg : RoundMessageAggregator} {message : FinalizationMessage}
    (h : RoundOk crypto config round agg) (hround : message.stepIdentifier.round = round) :
    RoundOk crypto config round (agg.add crypto message).2 := by
  rcases add_cases crypto agg message with ⟨hsame, -⟩ | ⟨hv, hnew⟩
  · rw [hsame]; exact h
  · rw [add_of_valid hv hnew]
    obtain ⟨A, hA, hrounds⟩ := h.accepted
    refine ⟨h.config_eq, h.epoch_eq, A ++ [message], hA.accept hv hnew, fun m hm => ?_⟩
    rcases List.mem_append.1 hm with hm | hm
    · exact hrounds m hm
    · rw [List.mem_singleton.1 hm]; exact hround

theorem WellFormed.add (h : WellFormed crypto config state) (accounts : HighValueAccounts)
    (message : FinalizationMessage) :
    WellFormed crypto config (state.add crypto accounts message).2 := by
  unfold MultiRoundMessageAggregator.add
  simp only
  split
  · exact h
  split
  · exact h
  · rename_i agg hagg
    have hok : RoundOk crypto config message.stepIdentifier.round agg := by
      rcases Option.or_eq_some_iff.1 hagg with hfind | ⟨-, hnew⟩
      · exact h.rounds _ _ hfind
      · obtain ⟨context, hcontext, rfl⟩ := Option.map_eq_some_iff.1 hnew
        rw [h.config_eq] at hcontext
        exact roundOk_create hcontext
    refine ⟨h.config_eq, fun round agg' hfind => ?_⟩
    simp only [SortedMap.find?_alter] at hfind
    split at hfind
    · rename_i heq
      cases hfind
      rw [heq]
      exact hok.add rfl
    · exact h.rounds _ _ hfind

theorem Reachable.wellFormed (h : Reachable crypto config state) : WellFormed crypto config state := by
  induction h with
  | create round previousFinalized => exact ⟨rfl, fun round agg hfind => by cases hfind⟩
  | add accounts message _ ih => exact ih.add accounts message
  | setMaxFinalizationRound round _ hset ih =>
    unfold MultiRoundMessageAggregator.setMaxFinalizationRound at hset
    split at hset
    · cases hset
    · cases hset; exact ⟨ih.config_eq, ih.rounds⟩
  | prune epoch _ ih =>
    exact ⟨ih.config_eq, fun round agg hfind => ih.rounds _ _ (SortedMap.find?_filterKeys_eq_some hfind)⟩

end MultiRoundMessageAggregator
end Catapult.Finalization
