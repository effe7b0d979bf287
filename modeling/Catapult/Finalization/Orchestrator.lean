import Catapult.Finalization.ProofGrouping

/-!
# The voter (`FinalizationOrchestrator`)

A voter sends a prevote and a precommit in every round, when its stage advancer allows it, and starts the next round
when the round is completable.

`Run` are the polls and changes of epoch with times that do not decrease, with everything that was processed. When no
time wraps around and the points stay below `2 ^ 31`, the messages that were sent are in the order `Before`.
-/

namespace Catapult.Finalization
open RoundMessageAggregator

abbrev Timestamp := UInt64
abbrev TimeSpan := UInt64

structure VotingStatus where
  round : FinalizationRound
  hasSentPrevote : Bool := false
  hasSentPrecommit : Bool := false

/-! ## Stages -/

structure PollingTimer where
  startTime : Timestamp
  stepDuration : TimeSpan

def PollingTimer.isElapsed (timer : PollingTimer) (time : Timestamp) (numSteps : UInt16) : Bool :=
  decide (timer.startTime + numSteps.toUInt64 * timer.stepDuration ≤ time)

/-- `DefaultFinalizationStageAdvancer`, to which the message aggregator is given with every call. -/
structure FinalizationStageAdvancer where
  round : FinalizationRound
  timer : PollingTimer

namespace FinalizationStageAdvancer

def tryGetRoundContext (aggregator : MultiRoundMessageAggregator) (round : FinalizationRound) : Option RoundContext :=
  (aggregator.roundMessageAggregators.find? round).map RoundMessageAggregator.roundContext

def canSendPrevote (advancer : FinalizationStageAdvancer) (aggregator : MultiRoundMessageAggregator)
    (time : Timestamp) : Bool :=
  if advancer.timer.isElapsed time 1 then true
  else (tryGetRoundContext aggregator advancer.round).any RoundContext.isCompletable

def canSendPrecommit (advancer : FinalizationStageAdvancer) (aggregator : MultiRoundMessageAggregator)
    (time : Timestamp) : Option HeightHashPair := do
  let roundContext ← tryGetRoundContext aggregator advancer.round
  let bestPrevote ← roundContext.tryFindBestPrevote
  let estimate := aggregator.findEstimate ⟨advancer.round.epoch, advancer.round.point - 1⟩
  if !roundContext.isDescendant estimate bestPrevote then none
  else if advancer.timer.isElapsed time 2 then some bestPrevote
  else if roundContext.isCompletable then some bestPrevote
  else none

def canStartNextRound (advancer : FinalizationStageAdvancer) (aggregator : MultiRoundMessageAggregator) : Bool :=
  (tryGetRoundContext aggregator advancer.round).any RoundContext.isCompletable

end FinalizationStageAdvancer

/-! ## Messages -/

/-- What a prevote is made of: the finalized height, the hashes from there on and the signature. -/
structure PrevoteContent where
  signature : BmTreeSignature
  height : UInt64
  hashes : List Hash256
  hashesCount_lt : hashes.length < 2 ^ 32

/-- `createPrevote`, which is `none` when there is no key to sign with. -/
def createPrevote (round : FinalizationRound) (content : Option PrevoteContent) : Option FinalizationMessage :=
  content.map fun content =>
    { reserved1 := 0
      signature := content.signature
      version := FinalizationMessage.currentVersion
      stepIdentifier := .make round.epoch round.point 0
      height := content.height
      hashes := content.hashes
      hashesCount_lt := content.hashesCount_lt }

def createPrecommit (round : FinalizationRound) (target : HeightHashPair) (signature : Option BmTreeSignature) :
    Option FinalizationMessage :=
  signature.map fun signature =>
    { reserved1 := 0
      signature := signature
      version := FinalizationMessage.currentVersion
      stepIdentifier := .make round.epoch round.point 1
      height := target.height
      hashes := [target.hash]
      hashesCount_lt := by simp }

/-- What a poll reads. Making a message can throw, and sending one can change the aggregator. -/
structure PollEnvironment where
  messageAggregator : MultiRoundMessageAggregator
  messagePredicate : FinalizationMessage → Bool
  prevoteContent : Except Unit (Option PrevoteContent)
  afterPrevote : MultiRoundMessageAggregator
  precommitSignature : Except Unit (Option BmTreeSignature)
  afterPrecommit : MultiRoundMessageAggregator

/-- A call of `process`, with the message that was given to the sink. -/
structure ProcessedMessage where
  round : FinalizationRound
  stage : FinalizationStage
  sent : Option FinalizationMessage

structure FinalizationOrchestrator where
  votingStatus : VotingStatus
  stageAdvancer : Option FinalizationStageAdvancer

namespace FinalizationOrchestrator

/-- `none` when it throws. -/
def setEpoch (orchestrator : FinalizationOrchestrator) (epoch : UInt32) : Option FinalizationOrchestrator :=
  if epoch < orchestrator.votingStatus.round.epoch then none
  else if epoch = orchestrator.votingStatus.round.epoch then some orchestrator
  else some ⟨⟨⟨epoch, 1⟩, false, false⟩, none⟩

/-- The orchestrator and the aggregator during a poll, with what was processed. -/
structure PollState where
  votingStatus : VotingStatus
  stageAdvancer : FinalizationStageAdvancer
  messageAggregator : MultiRoundMessageAggregator
  processed : List ProcessedMessage

def startRound (stepDuration : TimeSpan) (round : FinalizationRound) (time : Timestamp) : FinalizationStageAdvancer :=
  ⟨round, time, stepDuration⟩

/-- The message is sent when it was made and is one of an eligible voter. -/
def process (state : PollState) (stage : FinalizationStage) (message : Option FinalizationMessage)
    (messagePredicate : FinalizationMessage → Bool) (afterMessage : MultiRoundMessageAggregator) : PollState :=
  let sent := message.filter messagePredicate
  { state with
    messageAggregator := if sent.isSome then afterMessage else state.messageAggregator
    processed := state.processed ++ [⟨state.votingStatus.round, stage, sent⟩] }

def processPrevote (env : PollEnvironment) (state : PollState) (content : Option PrevoteContent) : PollState :=
  let state := process state .prevote (createPrevote state.votingStatus.round content) env.messagePredicate
    env.afterPrevote
  { state with votingStatus := { state.votingStatus with hasSentPrevote := true } }

/-- The state at the time of a throw is an error. -/
def pollPrevote (env : PollEnvironment) (time : Timestamp) (state : PollState) : Except PollState PollState :=
  if !state.votingStatus.hasSentPrevote && state.stageAdvancer.canSendPrevote state.messageAggregator time then
    match env.prevoteContent with
    | .error _ => .error state
    | .ok content => .ok (processPrevote env state content)
  else .ok state

def processPrecommit (env : PollEnvironment) (state : PollState) (commitTarget : HeightHashPair)
    (signature : Option BmTreeSignature) : PollState :=
  let state := process state .precommit (createPrecommit state.votingStatus.round commitTarget signature)
    env.messagePredicate env.afterPrecommit
  { state with votingStatus := { state.votingStatus with hasSentPrecommit := true } }

def pollPrecommit (env : PollEnvironment) (time : Timestamp) (state : PollState) : Except PollState PollState :=
  if state.votingStatus.hasSentPrecommit then .ok state
  else
    match state.stageAdvancer.canSendPrecommit state.messageAggregator time with
    | none => .ok state
    | some commitTarget =>
      match env.precommitSignature with
      | .error _ => .error state
      | .ok signature => .ok (processPrecommit env state commitTarget signature)

def pollNextRound (stepDuration : TimeSpan) (time : Timestamp) (state : PollState) : PollState :=
  if state.votingStatus.hasSentPrecommit && state.stageAdvancer.canStartNextRound state.messageAggregator then
    let round : FinalizationRound := ⟨state.votingStatus.round.epoch, state.votingStatus.round.point + 1⟩
    { state with votingStatus := ⟨round, false, false⟩, stageAdvancer := startRound stepDuration round time }
  else state

def pollStages (stepDuration : TimeSpan) (env : PollEnvironment) (time : Timestamp) (state : PollState) : PollState :=
  match pollPrevote env time state with
  | .error state => state
  | .ok state =>
    match pollPrecommit env time state with
    | .error state => state
    | .ok state => pollNextRound stepDuration time state

/-- The orchestrator after a poll, whether it throws or not, and what was processed. -/
def poll (stepDuration : TimeSpan) (orchestrator : FinalizationOrchestrator) (time : Timestamp)
    (env : PollEnvironment) : FinalizationOrchestrator × List ProcessedMessage :=
  let advancer := orchestrator.stageAdvancer.getD
    (startRound stepDuration orchestrator.votingStatus.round time)
  let state := pollStages stepDuration env time ⟨orchestrator.votingStatus, advancer, env.messageAggregator, []⟩
  (⟨state.votingStatus, some state.stageAdvancer⟩, state.processed)

/-- Runs from a voting status, of polls that satisfy a condition: the time of the last poll, the orchestrator and
what was processed. -/
inductive Run (ok : FinalizationOrchestrator → Timestamp → Prop) (stepDuration : TimeSpan) (initial : VotingStatus) :
    Timestamp → FinalizationOrchestrator → List ProcessedMessage → Prop
  | create : Run ok stepDuration initial 0 ⟨initial, none⟩ []
  | setEpoch {time : Timestamp} {orchestrator : FinalizationOrchestrator} {processed : List ProcessedMessage}
    (epoch : UInt32) (h : Run ok stepDuration initial time orchestrator processed) :
    Run ok stepDuration initial time ((orchestrator.setEpoch epoch).getD orchestrator) processed
  | poll {time : Timestamp} {orchestrator : FinalizationOrchestrator} {processed : List ProcessedMessage}
    (time' : Timestamp) (env : PollEnvironment) (h : Run ok stepDuration initial time orchestrator processed)
    (htime : time ≤ time') (hok : ok orchestrator time') :
    Run ok stepDuration initial time' (orchestrator.poll stepDuration time' env).1
      (processed ++ (orchestrator.poll stepDuration time' env).2)

/-! ## The order of the votes -/

theorem round_lt_iff {round round' : FinalizationRound} :
    round < round' ↔ round.epoch.toNat < round'.epoch.toNat ∨
      round.epoch.toNat = round'.epoch.toNat ∧ round.point.toNat < round'.point.toNat :=
  Prod.Lex.toLex_lt_toLex

def Before (round : FinalizationRound) (stage : FinalizationStage) (round' : FinalizationRound)
    (stage' : FinalizationStage) : Prop :=
  round < round' ∨ round = round' ∧ stage = .prevote ∧ stage' = .precommit

/-- What is known of everything that was processed until the voter is in the status `status`. -/
structure Disciplined (initial status : VotingStatus) (processed : List ProcessedMessage) : Prop where
  ordered : processed.Pairwise fun p p' => Before p.round p.stage p'.round p'.stage
  past : ∀ p ∈ processed, p.round < status.round ∨ p.round = status.round ∧ status.hasSentPrevote = true ∧
    (p.stage = .precommit → status.hasSentPrecommit = true)
  prevoted : status.hasSentPrevote = true → (∃ p ∈ processed, p.round = status.round ∧ p.stage = .prevote) ∨
    status.round = initial.round ∧ initial.hasSentPrevote = true
  precommits : ∀ earlier p later, processed = earlier ++ p :: later → p.stage = .precommit →
    (∃ p' ∈ earlier, p'.round = p.round ∧ p'.stage = .prevote) ∨
    p.round = initial.round ∧ initial.hasSentPrevote = true
  sent : ∀ p ∈ processed, ∀ message ∈ p.sent,
    message.stepIdentifier.round = p.round ∧ message.stepIdentifier.stage = p.stage

section
variable {initial status : VotingStatus} {processed : List ProcessedMessage} {message : Option FinalizationMessage}

theorem Disciplined.create (initial : VotingStatus) : Disciplined initial initial [] := by
  refine ⟨.nil, fun p hp => ?_, fun h => .inr ⟨rfl, h⟩, fun earlier p later h => ?_, fun p hp => ?_⟩
  · cases hp
  · simp at h
  · cases hp

theorem Disciplined.nextRound (h : Disciplined initial status processed) {round : FinalizationRound}
    (hround : status.round < round) : Disciplined initial ⟨round, false, false⟩ processed := by
  have hpast : ∀ p ∈ processed, p.round < round := by
    intro p hp
    rcases h.past p hp with hlt | ⟨heq, -⟩
    · exact hlt.trans hround
    · exact heq ▸ hround
  exact ⟨h.ordered, fun p hp => .inl (hpast p hp), nofun, h.precommits, h.sent⟩

theorem Disciplined.concat (h : Disciplined initial status processed) {stage : FinalizationStage}
    (hbefore : ∀ p ∈ processed, Before p.round p.stage status.round stage) {status' : VotingStatus}
    (hround : status'.round = status.round) (hprevote : status'.hasSentPrevote = true)
    (hprecommit : status.hasSentPrecommit = true ∨ stage = .precommit → status'.hasSentPrecommit = true)
    (hstage : stage = .prevote ∨ status.hasSentPrevote = true)
    (hsent : ∀ m ∈ message, m.stepIdentifier.round = status.round ∧ m.stepIdentifier.stage = stage) :
    Disciplined initial status' (processed ++ [⟨status.round, stage, message⟩]) := by
  refine ⟨?_, ?_, ?_, ?_, ?_⟩
  · refine List.pairwise_append.2 ⟨h.ordered, List.pairwise_singleton _ _, fun p hp p' hp' => ?_⟩
    rw [List.mem_singleton.1 hp']
    exact hbefore p hp
  · intro p hp
    rw [hround]
    rcases List.mem_append.1 hp with hp | hp
    · rcases h.past p hp with hlt | ⟨heq, -, hcommit⟩
      · exact .inl hlt
      · exact .inr ⟨heq, hprevote, fun hp => hprecommit (.inl (hcommit hp))⟩
    · rw [List.mem_singleton.1 hp]
      exact .inr ⟨rfl, hprevote, fun hp => hprecommit (.inr hp)⟩
  · intro _
    rw [hround]
    rcases hstage with rfl | hstage
    · exact .inl ⟨_, List.mem_append_right _ List.mem_cons_self, rfl, rfl⟩
    · rcases h.prevoted hstage with ⟨p, hp, hpround, hpstage⟩ | hinitial
      · exact .inl ⟨p, List.mem_append_left _ hp, hpround, hpstage⟩
      · exact .inr hinitial
  · intro earlier p later hsplit hp
    rcases List.eq_nil_or_concat later with rfl | ⟨later, last, rfl⟩
    · -- the new entry
      obtain ⟨rfl, hlast⟩ := List.append_inj' hsplit rfl
      cases hlast
      rcases hstage with hstage | hstage
      · cases hp.symm.trans hstage
      · exact h.prevoted hstage
    · rw [List.concat_eq_append, ← List.cons_append, ← List.append_assoc] at hsplit
      obtain ⟨hsplit, -⟩ := List.append_inj' hsplit rfl
      exact h.precommits earlier p later hsplit hp
  · intro p hp m hm
    rcases List.mem_append.1 hp with hp | hp
    · exact h.sent p hp m hm
    · rw [List.mem_singleton.1 hp] at hm ⊢
      exact hsent m hm

end

/-- A poll of a point with 31 bits in which two steps do not end before one step, when the prevote is not sent yet. -/
def NoWrap (stepDuration : TimeSpan) (orchestrator : FinalizationOrchestrator) (time : Timestamp) : Prop :=
  orchestrator.votingStatus.round.point < 2 ^ 31 ∧
  (orchestrator.votingStatus.hasSentPrevote = false →
    let timer := (orchestrator.stageAdvancer.getD (startRound stepDuration orchestrator.votingStatus.round time)).timer
    timer.isElapsed time 2 = true → timer.isElapsed time 1 = true)

theorem isElapsed_one {timer : PollingTimer} {time : Timestamp}
    (hwrap : timer.startTime.toNat + 2 * timer.stepDuration.toNat < 2 ^ 64) (h : timer.isElapsed time 2 = true) :
    timer.isElapsed time 1 = true := by
  simp only [PollingTimer.isElapsed, decide_eq_true_eq, UInt64.le_iff_toNat_le, UInt64.toNat_add,
    UInt64.toNat_mul] at h ⊢
  have htwo : (2 : UInt16).toUInt64.toNat = 2 := rfl
  have hone : (1 : UInt16).toUInt64.toNat = 1 := rfl
  rw [htwo] at h
  rw [hone]
  omega

theorem canSendPrevote_of_canSendPrecommit {advancer : FinalizationStageAdvancer}
    {aggregator : MultiRoundMessageAggregator} {time : Timestamp} {target : HeightHashPair}
    (hwrap : advancer.timer.isElapsed time 2 = true → advancer.timer.isElapsed time 1 = true)
    (h : advancer.canSendPrecommit aggregator time = some target) : advancer.canSendPrevote aggregator time = true := by
  obtain ⟨context, hcontext, h⟩ := Option.bind_eq_some_iff.1 h
  obtain ⟨bestPrevote, -, h⟩ := Option.bind_eq_some_iff.1 h
  rw [FinalizationStageAdvancer.canSendPrevote, hcontext]
  by_cases hone : advancer.timer.isElapsed time 1 = true
  · rw [if_pos hone]
  · have htwo : ¬advancer.timer.isElapsed time 2 = true := fun htwo => hone (hwrap htwo)
    rw [if_neg hone]
    simp only [htwo, Bool.false_eq_true, if_false, Option.ite_none_left_eq_some, Option.ite_none_right_eq_some] at h
    exact h.2.1

/-- What holds during a poll, after what was processed in earlier ones. -/
structure PollInv (time : Timestamp) (initial : VotingStatus) (earlier : List ProcessedMessage) (state : PollState) :
    Prop where
  disciplined : Disciplined initial state.votingStatus (earlier ++ state.processed)
  point_lt : state.votingStatus.round.point < 2 ^ 31
  round_eq : state.stageAdvancer.round = state.votingStatus.round
  noWrap : state.votingStatus.hasSentPrevote = false → state.stageAdvancer.timer.isElapsed time 2 = true →
    state.stageAdvancer.timer.isElapsed time 1 = true

section
variable {initial : VotingStatus} {earlier : List ProcessedMessage} {state state' : PollState} {env : PollEnvironment}
  {time : Timestamp} {stepDuration : TimeSpan}

theorem before_prevote {status : VotingStatus} {processed : List ProcessedMessage}
    (h : Disciplined initial status processed) (hnot : status.hasSentPrevote = false) :
    ∀ p ∈ processed, Before p.round p.stage status.round .prevote := by
  intro p hp
  rcases h.past p hp with hlt | ⟨-, hprevote, -⟩
  · exact .inl hlt
  · rw [hnot] at hprevote
    cases hprevote

theorem before_precommit {status : VotingStatus} {processed : List ProcessedMessage}
    (h : Disciplined initial status processed) (hnot : status.hasSentPrecommit = false) :
    ∀ p ∈ processed, Before p.round p.stage status.round .precommit := by
  intro p hp
  rcases h.past p hp with hlt | ⟨heq, -, hprecommit⟩
  · exact .inl hlt
  · refine .inr ⟨heq, ?_, rfl⟩
    cases hstage : p.stage with
    | prevote => rfl
    | precommit =>
      rw [hprecommit hstage] at hnot
      cases hnot

theorem PollInv.processPrevote (h : PollInv time initial earlier state)
    (hnot : state.votingStatus.hasSentPrevote = false) (content : Option PrevoteContent) :
    PollInv time initial earlier (processPrevote env state content) := by
  refine ⟨?_, h.point_lt, h.round_eq, nofun⟩
  simp only [FinalizationOrchestrator.processPrevote, process]
  rw [← List.append_assoc]
  refine h.disciplined.concat (before_prevote h.disciplined hnot) rfl rfl (fun hp => ?_) (.inl rfl) fun m hm => ?_
  · exact hp.resolve_right nofun
  · obtain ⟨hm, -⟩ := Option.mem_filter_iff.1 hm
    obtain ⟨content, -, rfl⟩ := Option.map_eq_some_iff.1 hm
    exact ⟨(StepIdentifier.round_make_iff _ _).2 h.point_lt, stage_make _ _ 0⟩

theorem PollInv.processPrecommit (h : PollInv time initial earlier state)
    (hprevote : state.votingStatus.hasSentPrevote = true) (hnot : state.votingStatus.hasSentPrecommit = false)
    (target : HeightHashPair) (signature : Option BmTreeSignature) :
    PollInv time initial earlier (processPrecommit env state target signature) := by
  refine ⟨?_, h.point_lt, h.round_eq, h.noWrap⟩
  simp only [FinalizationOrchestrator.processPrecommit, process]
  rw [← List.append_assoc]
  refine h.disciplined.concat (before_precommit h.disciplined hnot) rfl hprevote (fun _ => rfl) (.inr hprevote)
    fun m hm => ?_
  obtain ⟨hm, -⟩ := Option.mem_filter_iff.1 hm
  obtain ⟨signature, -, rfl⟩ := Option.map_eq_some_iff.1 hm
  exact ⟨(StepIdentifier.round_make_iff _ _).2 h.point_lt, stage_make _ _ 1⟩

theorem pollPrevote_cases (env : PollEnvironment) (time : Timestamp) (state : PollState) :
    pollPrevote env time state = .error state ∨
    pollPrevote env time state = .ok state ∧ (state.votingStatus.hasSentPrevote = false →
      state.stageAdvancer.canSendPrevote state.messageAggregator time = false) ∨
    state.votingStatus.hasSentPrevote = false ∧ ∃ content,
      pollPrevote env time state = .ok (processPrevote env state content) := by
  rw [pollPrevote]
  cases hnot : state.votingStatus.hasSentPrevote with
  | true => exact .inr (.inl ⟨rfl, nofun⟩)
  | false =>
    cases hcan : state.stageAdvancer.canSendPrevote state.messageAggregator time with
    | false => exact .inr (.inl ⟨rfl, fun _ => rfl⟩)
    | true =>
      cases env.prevoteContent with
      | error => exact .inl rfl
      | ok content => exact .inr (.inr ⟨rfl, content, rfl⟩)

theorem pollPrecommit_cases (env : PollEnvironment) (time : Timestamp) (state : PollState) :
    pollPrecommit env time state = .error state ∨ pollPrecommit env time state = .ok state ∨
    state.votingStatus.hasSentPrecommit = false ∧ ∃ target signature,
      state.stageAdvancer.canSendPrecommit state.messageAggregator time = some target ∧
      pollPrecommit env time state = .ok (processPrecommit env state target signature) := by
  rw [pollPrecommit]
  cases hnot : state.votingStatus.hasSentPrecommit with
  | true => exact .inr (.inl rfl)
  | false =>
    cases hcan : state.stageAdvancer.canSendPrecommit state.messageAggregator time with
    | none => exact .inr (.inl rfl)
    | some target =>
      cases env.precommitSignature with
      | error => exact .inl rfl
      | ok signature => exact .inr (.inr ⟨rfl, target, signature, rfl, rfl⟩)

theorem PollInv.pollPrecommit (h : PollInv time initial earlier state)
    (hprevote : state.votingStatus.hasSentPrevote = false →
      state.stageAdvancer.canSendPrevote state.messageAggregator time = false) :
    pollPrecommit env time state = .error state ∨
    ∃ state', pollPrecommit env time state = .ok state' ∧ PollInv time initial earlier state' := by
  rcases pollPrecommit_cases env time state with herror | hsame | ⟨hnot, target, signature, hcan, hok⟩
  · exact .inl herror
  · exact .inr ⟨state, hsame, h⟩
  · have hsent : state.votingStatus.hasSentPrevote = true := by
      cases hsent : state.votingStatus.hasSentPrevote with
      | true => rfl
      | false =>
        have hcannot := hprevote hsent
        rw [canSendPrevote_of_canSendPrecommit (h.noWrap hsent) hcan] at hcannot
        cases hcannot
    exact .inr ⟨_, hok, h.processPrecommit hsent hnot target signature⟩

structure Inv (initial : VotingStatus) (orchestrator : FinalizationOrchestrator) (processed : List ProcessedMessage) :
    Prop where
  disciplined : Disciplined initial orchestrator.votingStatus processed
  advancer : ∀ advancer ∈ orchestrator.stageAdvancer, advancer.round = orchestrator.votingStatus.round

variable {orchestrator : FinalizationOrchestrator} {processed : List ProcessedMessage}

theorem PollInv.inv (h : PollInv time initial earlier state) :
    Inv initial ⟨state.votingStatus, some state.stageAdvancer⟩ (earlier ++ state.processed) := by
  refine ⟨h.disciplined, fun advancer hadvancer => ?_⟩
  obtain rfl := Option.mem_some.1 hadvancer
  exact h.round_eq

theorem PollInv.pollNextRound (h : PollInv time initial earlier state) :
    Inv initial ⟨(pollNextRound stepDuration time state).votingStatus,
      some (pollNextRound stepDuration time state).stageAdvancer⟩
      (earlier ++ (pollNextRound stepDuration time state).processed) := by
  rw [FinalizationOrchestrator.pollNextRound]
  split
  · refine ⟨h.disciplined.nextRound (round_lt_iff.2 (.inr ⟨rfl, ?_⟩)), fun advancer hadvancer => ?_⟩
    · have hpoint : state.votingStatus.round.point.toNat < 2 ^ 31 := UInt32.lt_iff_toNat_lt.1 h.point_lt
      simp only [UInt32.toNat_add, UInt32.toNat_one]
      omega
    · obtain rfl := Option.mem_some.1 hadvancer
      rfl
  · exact h.inv

theorem PollInv.pollStages (h : PollInv time initial earlier state) (env : PollEnvironment) :
    Inv initial ⟨(pollStages stepDuration env time state).votingStatus,
      some (pollStages stepDuration env time state).stageAdvancer⟩
      (earlier ++ (pollStages stepDuration env time state).processed) := by
  have hrest : ∀ state₁, PollInv time initial earlier state₁ →
      (state₁.votingStatus.hasSentPrevote = false →
        state₁.stageAdvancer.canSendPrevote state₁.messageAggregator time = false) →
      pollPrevote env time state = .ok state₁ →
      Inv initial ⟨(FinalizationOrchestrator.pollStages stepDuration env time state).votingStatus,
        some (FinalizationOrchestrator.pollStages stepDuration env time state).stageAdvancer⟩
        (earlier ++ (FinalizationOrchestrator.pollStages stepDuration env time state).processed) := by
    intro state₁ h₁ hprevote hok
    rw [FinalizationOrchestrator.pollStages, hok]
    have hprecommit : FinalizationOrchestrator.pollPrecommit env time state₁ = _ ∨ _ := h₁.pollPrecommit hprevote
    rcases hprecommit with herror | ⟨state₂, hok₂, h₂⟩
    · simp only [herror]
      exact h₁.inv
    · simp only [hok₂]
      exact h₂.pollNextRound
  rcases pollPrevote_cases env time state with herror | ⟨hsame, hprevote⟩ | ⟨hnot, content, hok⟩
  · rw [FinalizationOrchestrator.pollStages, herror]
    exact h.inv
  · exact hrest state h hprevote hsame
  · exact hrest _ (h.processPrevote hnot content) nofun hok

theorem Inv.poll (h : Inv initial orchestrator processed) (hwrap : NoWrap stepDuration orchestrator time)
    (env : PollEnvironment) : Inv initial (orchestrator.poll stepDuration time env).1
      (processed ++ (orchestrator.poll stepDuration time env).2) := by
  -- the advancer is the one of an earlier poll or a new one
  have hround : (orchestrator.stageAdvancer.getD
      (startRound stepDuration orchestrator.votingStatus.round time)).round = orchestrator.votingStatus.round := by
    cases hadvancer : orchestrator.stageAdvancer with
    | none => rfl
    | some advancer => exact h.advancer advancer hadvancer
  refine PollInv.pollStages ⟨?_, hwrap.1, hround, hwrap.2⟩ env
  rw [List.append_nil]
  exact h.disciplined

theorem Inv.setEpoch (h : Inv initial orchestrator processed) (epoch : UInt32) :
    Inv initial ((orchestrator.setEpoch epoch).getD orchestrator) processed := by
  rw [FinalizationOrchestrator.setEpoch]
  split
  · exact h
  · split
    · exact h
    · rename_i hnot hne
      refine ⟨h.disciplined.nextRound (round_lt_iff.2 (.inl ?_)), fun advancer hadvancer => ?_⟩
      · have hle := UInt32.not_lt.1 hnot
        have hlt := UInt32.lt_of_le_of_ne hle (Ne.symm hne)
        exact UInt32.lt_iff_toNat_lt.1 hlt
      · cases hadvancer

theorem Run.inv (h : Run (NoWrap stepDuration) stepDuration initial time orchestrator processed) :
    Inv initial orchestrator processed := by
  induction h with
  | create => exact ⟨.create initial, nofun⟩
  | setEpoch epoch _ ih => exact ih.setEpoch epoch
  | poll time' env _ _ hok ih => exact ih.poll hok env

def sentMessages (processed : List ProcessedMessage) : List FinalizationMessage :=
  processed.filterMap ProcessedMessage.sent

/-- When two steps never end before one step and points have 31 bits, the messages that were sent are of increasing
rounds, with at most one prevote and one precommit of a round, in this order; and a precommit is processed only after
the prevote of its round, which may be one of the time before the run. -/
theorem Run.votes_ordered (h : Run (NoWrap stepDuration) stepDuration initial time orchestrator processed) :
    ((sentMessages processed).Pairwise fun m m' =>
      Before m.stepIdentifier.round m.stepIdentifier.stage m'.stepIdentifier.round m'.stepIdentifier.stage) ∧
    ∀ earlier p later, processed = earlier ++ p :: later → p.stage = .precommit →
      (∃ p' ∈ earlier, p'.round = p.round ∧ p'.stage = .prevote) ∨
      p.round = initial.round ∧ initial.hasSentPrevote = true := by
  have hdisciplined := h.inv.disciplined
  refine ⟨List.pairwise_filterMap.2 ?_, hdisciplined.precommits⟩
  refine hdisciplined.ordered.imp_of_mem fun {p p'} hp hp' hbefore m hm m' hm' => ?_
  obtain ⟨hround, hstage⟩ := hdisciplined.sent p hp m hm
  obtain ⟨hround', hstage'⟩ := hdisciplined.sent p' hp' m' hm'
  rw [hround, hstage, hround', hstage']
  exact hbefore

def prevotedAggregator : MultiRoundMessageAggregator :=
  ((MultiRoundMessageAggregator.create defaultConfig ⟨2, 1⟩ ⟨10, 7⟩).add sampleCrypto (twoVoters 7000 3000 balances_lt)
    (sampleMessage 1 0)).2

def sampleEnvironment : PollEnvironment where
  messageAggregator := prevotedAggregator
  messagePredicate _ := true
  prevoteContent := .ok (some ⟨⟨⟨2, 1⟩, ⟨1, 1⟩⟩, 10, [7], oneHash_lt⟩)
  afterPrevote := prevotedAggregator
  precommitSignature := .ok (some ⟨⟨2, 1⟩, ⟨1, 1⟩⟩)
  afterPrecommit := prevotedAggregator

def twoPolls (env : PollEnvironment) (time time' : Timestamp) : List ProcessedMessage :=
  let first := poll 120000 ⟨{ round := ⟨2, 1⟩ }, none⟩ time env
  let second := poll 120000 first.1 time' env
  first.2 ++ second.2

theorem run_twoPolls {ok : FinalizationOrchestrator → Timestamp → Prop} {env : PollEnvironment}
    {time time' : Timestamp} (h : time ≤ time') (hok : ok ⟨{ round := ⟨2, 1⟩ }, none⟩ time)
    (hok' : ok (poll 120000 ⟨{ round := ⟨2, 1⟩ }, none⟩ time env).1 time') :
    ∃ orchestrator, Run ok 120000 { round := ⟨2, 1⟩ } time' orchestrator (twoPolls env time time') := by
  have hzero : (0 : UInt64) ≤ time := by simp
  have hfirst := Run.poll time env (@Run.create ok 120000 { round := ⟨2, 1⟩ }) hzero hok
  rw [List.nil_append] at hfirst
  exact ⟨_, .poll time' env hfirst h hok'⟩

/-- A prevote after one step and a precommit after two. -/
theorem votes_ordered_two_polls : (sentMessages (twoPolls sampleEnvironment 1000 300000)).length = 2 ∧
    (sentMessages (twoPolls sampleEnvironment 1000 300000)).Pairwise fun m m' =>
      Before m.stepIdentifier.round m.stepIdentifier.stage m'.stepIdentifier.round m'.stepIdentifier.stage := by
  obtain ⟨orchestrator, hrun⟩ := @run_twoPolls (NoWrap 120000) sampleEnvironment 1000 300000 (by decide)
    ⟨by decide, fun _ => isElapsed_one (by decide)⟩ ⟨by decide +kernel, fun _ => isElapsed_one (by decide +kernel)⟩
  exact ⟨by decide +kernel, (Run.votes_ordered hrun).1⟩

/-- Near `2 ^ 64` two steps end before one step: the precommit is sent first. -/
theorem precommit_before_prevote :
    ¬∀ stepDuration initial time orchestrator processed,
      Run (fun _ _ => True) stepDuration initial time orchestrator processed →
      (sentMessages processed).Pairwise fun m m' =>
        Before m.stepIdentifier.round m.stepIdentifier.stage m'.stepIdentifier.round m'.stepIdentifier.stage := by
  intro h
  obtain ⟨orchestrator, hrun⟩ := @run_twoPolls (fun _ _ => True) sampleEnvironment 18446744073709391616
    18446744073709511616 (by decide) trivial trivial
  have hsteps : (sentMessages (twoPolls sampleEnvironment 18446744073709391616 18446744073709511616)).map
      FinalizationMessage.stepIdentifier = [.make 2 1 1, .make 2 1 0] := by decide +kernel
  have hvotes : ((sentMessages (twoPolls sampleEnvironment 18446744073709391616 18446744073709511616)).map
      FinalizationMessage.stepIdentifier).Pairwise fun s s' => Before s.round s.stage s'.round s'.stage :=
    List.pairwise_map.2 (h _ _ _ _ _ hrun)
  rw [hsteps] at hvotes
  rcases List.rel_of_pairwise_cons hvotes List.mem_cons_self with hlt | ⟨-, hprevote, -⟩
  · exact absurd hlt (by decide)
  · exact absurd hprevote (by decide)

end

end FinalizationOrchestrator
end Catapult.Finalization
