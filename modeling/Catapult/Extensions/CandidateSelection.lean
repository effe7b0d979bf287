import Catapult.Extensions.ServiceNodes
import Catapult.Lib.Drawing

/-!
# Selection of candidates

When the selected nodes are eligible, weigh what they should and fill the free slots. A ban takes one off the
multiplier of a node before the multiplier is tested, so the multiplier of a banned node of neither a dynamic nor a
static source wraps and the node becomes a candidate.
-/

namespace Catapult.Extensions
open Ionet Lib

/-! ## Weights -/

section
variable {nodeInteractions : NodeInteractions} {importanceDescriptor : ImportanceDescriptor} {policy : WeightPolicy}
  {weight : UInt32}

/-- Few attempts, or a quotient of at most 10000, all in 32 bits. It holds while the divisor does not wrap. -/
def RatioInRange (interactions : NodeInteractions) : Prop :=
  interactions.numSuccesses + interactions.numFailures ≤ 3 ∨
    interactions.numSuccesses.toNat * 10000 % 2 ^ 32 <
      10001 * ((interactions.numSuccesses.toNat + 9 * interactions.numFailures.toNat) % 2 ^ 32)

instance (interactions : NodeInteractions) : Decidable (RatioInRange interactions) :=
  inferInstanceAs (Decidable (_ ∨ _))

theorem toNat_divisor (nodeInteractions : NodeInteractions) :
    (nodeInteractions.numSuccesses + 9 * nodeInteractions.numFailures).toNat =
      (nodeInteractions.numSuccesses.toNat + 9 * nodeInteractions.numFailures.toNat) % 2 ^ 32 := by
  have hnine : (9 : UInt32).toNat = 9 := rfl
  rw [UInt32.toNat_add, UInt32.toNat_mul, hnine]
  omega

theorem RatioInRange.weighable (h : RatioInRange nodeInteractions) :
    nodeInteractions.numSuccesses + nodeInteractions.numFailures ≤ 3 ∨
      nodeInteractions.numSuccesses + 9 * nodeInteractions.numFailures ≠ 0 := by
  refine h.imp id fun hlt hzero => ?_
  rw [← toNat_divisor, hzero] at hlt
  simp at hlt

theorem calculateWeight_le (h : calculateWeight nodeInteractions policy importanceDescriptor = some weight) :
    500 ≤ weight.toNat ∧ (weight.toNat ≤ 10000 ↔ policy = .interactions → RatioInRange nodeInteractions) := by
  cases policy with
  | importance =>
    simp only [calculateWeight] at h
    split at h
    · cases h
    · cases h
      rw [toNat_max, toNat_min]
      simp
  | interactions =>
    simp only [calculateWeight] at h
    split at h
    · rename_i hattempts
      cases h
      exact ⟨by decide, iff_of_true (by decide) fun _ => .inl hattempts⟩
    · rename_i hattempts
      split at h
      · cases h
      · rename_i hdivisor
        cases h
        have hpositive : 0 < (nodeInteractions.numSuccesses + 9 * nodeInteractions.numFailures).toNat := by
          rw [Nat.pos_iff_ne_zero]
          exact fun hzero => hdivisor (UInt32.toNat_inj.mp hzero)
        rw [toNat_max, UInt32.toNat_div, UInt32.toNat_mul]
        refine ⟨le_max_left _ _, ?_⟩
        rw [RatioInRange, or_iff_right hattempts, ← toNat_divisor]
        have hquotient := Nat.div_lt_iff_lt_mul (x := nodeInteractions.numSuccesses.toNat * 10000 % 2 ^ 32)
          (y := 10001) hpositive
        simp only [UInt32.reduceToNat, max_le_iff, true_implies]
        constructor
        · rintro ⟨-, hle⟩
          exact hquotient.mp (by omega)
        · intro hlt
          have := hquotient.mpr hlt
          omega

end

/-! ## Drawing candidates -/

section
variable {Key Host : Type} {candidates : List (WeightedCandidate Key Host)} {usedNodeFlags : List Bool}

theorem findCandidateIndexFrom_spec (selectedWeight cumulativeWeight : UInt64) (i lastUnusedNodeIndex : Nat)
    (hlength : usedNodeFlags.length = candidates.length) :
    (∃ k, usedNodeFlags[k]? = some false ∧
      findCandidateIndexFrom selectedWeight candidates usedNodeFlags i cumulativeWeight lastUnusedNodeIndex = i + k) ∨
    (∀ k : Nat, usedNodeFlags[k]? ≠ some false) ∧
      findCandidateIndexFrom selectedWeight candidates usedNodeFlags i cumulativeWeight lastUnusedNodeIndex =
        lastUnusedNodeIndex := by
  induction candidates generalizing usedNodeFlags i cumulativeWeight lastUnusedNodeIndex with
  | nil =>
    rw [List.length_nil, List.length_eq_zero_iff] at hlength
    subst hlength
    exact .inr ⟨by simp, rfl⟩
  | cons candidate candidates ih =>
    rcases usedNodeFlags with _ | ⟨used, usedNodeFlags⟩
    · simp at hlength
    · have hlength' : usedNodeFlags.length = candidates.length := by simpa using hlength
      cases used with
      | true =>
        simp only [findCandidateIndexFrom, if_true]
        rcases ih cumulativeWeight (i + 1) lastUnusedNodeIndex hlength' with ⟨k, hk, heq⟩ | ⟨hnone, heq⟩
        · exact .inl ⟨k + 1, hk, by rw [heq]; omega⟩
        · refine .inr ⟨fun k => ?_, heq⟩
          cases k with
          | zero => simp
          | succ k => exact hnone k
      | false =>
        left
        simp only [findCandidateIndexFrom, Bool.false_eq_true, if_false]
        split
        · exact ⟨0, rfl, rfl⟩
        · rcases ih (cumulativeWeight + candidate.weight) (i + 1) i hlength' with ⟨k, hk, heq⟩ | ⟨-, heq⟩
          · exact ⟨k + 1, hk, by rw [heq]; omega⟩
          · exact ⟨0, rfl, heq⟩

theorem findCandidateIndex_unused (selectedWeight : UInt64) (hlength : usedNodeFlags.length = candidates.length)
    (h : ∃ i : Nat, usedNodeFlags[i]? = some false) :
    usedNodeFlags[findCandidateIndex candidates usedNodeFlags selectedWeight]? = some false := by
  obtain ⟨i, hi⟩ := h
  rcases findCandidateIndexFrom_spec selectedWeight 0 0 0 hlength with ⟨k, hk, heq⟩ | ⟨hnone, -⟩
  · rw [findCandidateIndex, heq, Nat.zero_add]
    exact hk
  · exact absurd hi (hnone i)

end

section
variable {Key Host : Type} [DecidableEq Key] [DecidableEq Host] {candidates : List (WeightedCandidate Key Host)}
  {totalCandidateWeight : UInt64} {drawing : Drawing Key Host} {rounds : Nat}

theorem emplaceNode_of_ne {nodes : List (Node Key Host)} {node : Node Key Host}
    (h : ∀ other ∈ nodes, other.identity ≠ node.identity) : emplaceNode nodes node = nodes ++ [node] := by
  rw [emplaceNode, if_neg]
  rw [List.any_eq_true]
  rintro ⟨other, hmem, hequal⟩
  simp only [nodeIdentityEquality, Bool.and_eq_true, decide_eq_true_eq] at hequal
  refine h other hmem ?_
  cases hother : other.identity
  cases hnode : node.identity
  simp_all

def WeightedCandidate.identity (candidate : WeightedCandidate Key Host) : NodeIdentity Key Host :=
  candidate.node.identity

/-- After a number of rounds, as many candidates were chosen, and the total is the weight of the others. -/
structure Drawn (candidates : List (WeightedCandidate Key Host)) (rounds : Nat) (drawing : Drawing Key Host) :
    Prop where
  length_flags : drawing.usedNodeFlags.length = candidates.length
  unused : openWeight (fun _ => 1) candidates drawing.usedNodeFlags + rounds = candidates.length
  total : drawing.totalCandidateWeight.toNat =
    openWeight (fun candidate => candidate.weight.toNat) candidates drawing.usedNodeFlags
  length_chosen : drawing.addCandidates.length = rounds
  nodup : (drawing.addCandidates.map Node.identity).Nodup
  chosen : ∀ node ∈ drawing.addCandidates,
    ∃ candidate, Marked candidates drawing.usedNodeFlags candidate ∧ candidate.node = node

section
omit [DecidableEq Key] [DecidableEq Host]

theorem drawn_zero
    (htotal : totalCandidateWeight.toNat = (candidates.map fun candidate => candidate.weight.toNat).sum) :
    Drawn candidates 0 ⟨[], totalCandidateWeight, List.replicate candidates.length false⟩ where
  length_flags := List.length_replicate
  unused := by simp [openWeight_replicate]
  total := by rw [openWeight_replicate, htotal]
  length_chosen := rfl
  nodup := List.nodup_nil
  chosen := by simp

theorem Drawn.exists_candidate (h : Drawn candidates rounds drawing) (hrounds : rounds < candidates.length)
    (randomWeight : UInt64) :
    ∃ candidate, drawing.usedNodeFlags[findCandidateIndex candidates drawing.usedNodeFlags randomWeight]? = some false ∧
      candidates[findCandidateIndex candidates drawing.usedNodeFlags randomWeight]? = some candidate := by
  have hopen : 0 < openWeight (fun _ => 1) candidates drawing.usedNodeFlags := by
    have := h.unused
    omega
  have hunused := findCandidateIndex_unused randomWeight h.length_flags (exists_unmarked hopen)
  have hlt := (List.getElem?_eq_some_iff.mp hunused).1
  rw [h.length_flags] at hlt
  exact ⟨_, hunused, List.getElem?_eq_getElem hlt⟩

theorem Drawn.weight_le (h : Drawn candidates rounds drawing) {i : Nat} {candidate : WeightedCandidate Key Host}
    (hunused : drawing.usedNodeFlags[i]? = some false) (hcandidate : candidates[i]? = some candidate) :
    candidate.weight ≤ drawing.totalCandidateWeight := by
  have hweight :=
    openWeight_set (fun candidate : WeightedCandidate Key Host => candidate.weight.toNat) hunused hcandidate
  rw [UInt64.le_iff_toNat_le, h.total, hweight]
  exact Nat.le_add_right _ _

end

theorem Drawn.draw (h : Drawn candidates rounds drawing) (hrounds : rounds < candidates.length)
    (hidentities : (candidates.map WeightedCandidate.identity).Nodup) (randomWeight : UInt64) :
    ∃ next, drawCandidate candidates drawing randomWeight = some next ∧ Drawn candidates (rounds + 1) next := by
  obtain ⟨candidate, hunused, hcandidate⟩ := h.exists_candidate hrounds randomWeight
  have hfresh : ∀ node ∈ drawing.addCandidates, node.identity ≠ candidate.node.identity := by
    intro node hnode heq
    obtain ⟨other, hmarked, rfl⟩ := h.chosen node hnode
    exact hmarked.key_ne hidentities hunused hcandidate heq.symm
  refine ⟨⟨emplaceNode drawing.addCandidates candidate.node, _, _⟩, by rw [drawCandidate, hcandidate]; rfl, ?_⟩
  rw [emplaceNode_of_ne hfresh]
  refine ⟨?_, ?_, ?_, ?_, ?_, ?_⟩
  · rw [List.length_set, h.length_flags]
  · have hcount := openWeight_set (fun _ : WeightedCandidate Key Host => 1) hunused hcandidate
    have := h.unused
    simp only at hcount ⊢
    omega
  · have hweight :=
      openWeight_set (fun candidate : WeightedCandidate Key Host => candidate.weight.toNat) hunused hcandidate
    simp only
    rw [UInt64.toNat_sub_of_le _ _ (h.weight_le hunused hcandidate), h.total, hweight]
    exact Nat.add_sub_cancel_left _ _
  · simp [h.length_chosen]
  · rw [List.map_append, List.nodup_append]
    refine ⟨h.nodup, by simp, ?_⟩
    simp only [List.mem_map, List.map_cons, List.map_nil, List.mem_singleton, forall_eq, forall_exists_index, and_imp,
      forall_apply_eq_imp_iff₂]
    exact hfresh
  · intro node hnode
    rcases List.mem_append.mp hnode with hnode | hnode
    · obtain ⟨other, hmarked, heq⟩ := h.chosen node hnode
      exact ⟨other, hmarked.set _, heq⟩
    · exact ⟨candidate, marked_set_self hunused hcandidate, (List.mem_singleton.mp hnode).symm⟩

theorem drawn
    (htotal : totalCandidateWeight.toNat = (candidates.map fun candidate => candidate.weight.toNat).sum)
    (hidentities : (candidates.map WeightedCandidate.identity).Nodup) (distr : Nat → UInt64)
    (rounds : Nat) (hrounds : rounds ≤ candidates.length) :
    ∃ drawing, drawCandidates candidates totalCandidateWeight distr rounds = some drawing ∧
      Drawn candidates rounds drawing := by
  induction rounds with
  | zero => exact ⟨_, rfl, drawn_zero htotal⟩
  | succ rounds ih =>
    obtain ⟨drawing, hdrawing, hdrawn⟩ := ih (by omega)
    obtain ⟨next, hnext, hdrawn'⟩ := hdrawn.draw (by omega) hidentities (distr rounds)
    exact ⟨next, by rw [drawCandidates, hdrawing]; exact hnext, hdrawn'⟩

theorem mem_foldl_emplaceNode {node : Node Key Host} (nodes : List (Node Key Host))
    (h : node ∈ candidates.foldl (fun addCandidates candidate => emplaceNode addCandidates candidate.node) nodes) :
    node ∈ nodes ∨ ∃ candidate ∈ candidates, candidate.node = node := by
  induction candidates generalizing nodes with
  | nil => exact .inl h
  | cons candidate candidates ih =>
    rcases ih _ h with hmem | ⟨other, hother, heq⟩
    · simp only [emplaceNode] at hmem
      split at hmem
      · exact .inl hmem
      · rcases List.mem_append.mp hmem with hmem | hmem
        · exact .inl hmem
        · exact .inr ⟨candidate, List.mem_cons_self, (List.mem_singleton.mp hmem).symm⟩
    · exact .inr ⟨other, List.mem_cons_of_mem _ hother, heq⟩

theorem selectCandidates_spec
    (htotal : totalCandidateWeight.toNat = (candidates.map fun candidate => candidate.weight.toNat).sum)
    (hidentities : (candidates.map WeightedCandidate.identity).Nodup) (distr : Nat → UInt64) (maxCandidates : Nat) :
    ∃ addCandidates,
      selectCandidatesBasedOnWeight candidates totalCandidateWeight distr maxCandidates = some addCandidates ∧
      (∀ node ∈ addCandidates, ∃ candidate ∈ candidates, candidate.node = node) ∧
      (maxCandidates < candidates.length →
        addCandidates.length = maxCandidates ∧ (addCandidates.map Node.identity).Nodup) := by
  rw [selectCandidatesBasedOnWeight]
  split
  · rename_i hle
    refine ⟨_, rfl, fun node hmem => ?_, fun hlt => absurd hlt (by omega)⟩
    exact (mem_foldl_emplaceNode [] hmem).resolve_left (by simp)
  · rename_i hle
    obtain ⟨drawing, hdrawing, hdrawn⟩ := drawn htotal hidentities distr maxCandidates (by omega)
    refine ⟨drawing.addCandidates, by rw [hdrawing]; rfl, fun node hmem => ?_, fun _ => ?_⟩
    · obtain ⟨candidate, hmarked, heq⟩ := hdrawn.chosen node hmem
      exact ⟨candidate, hmarked.mem, heq⟩
    · exact ⟨hdrawn.length_chosen, hdrawn.nodup⟩

end

/-! ## Selected nodes -/

section
variable {Key Host : Type} {view : NodeContainerView Key Host} {config : NodeSelectionConfiguration}
  {importanceRetriever : Key → ImportanceDescriptor} {generator : Nat → WeightPolicy} {distr : Nat → UInt64}
  {entry : NodeEntry Key Host} {state : ConnectionState} {nodesInfo : ServiceNodesInfo Key Host}

def EligibleSource (source : NodeSource) (state : ConnectionState) : Prop :=
  source = .dynamic ∧ state.banAge = 0 ∨ source = .static

theorem eligibleSource_iff (source : NodeSource) (state : ConnectionState) :
    EligibleSource source state ↔ weightMultiplier source state ≠ 0 ∧
      ((source = .dynamicIncoming ∨ source = .localNode) → state.banAge = 0) := by
  rw [EligibleSource, weightMultiplier]
  by_cases hban : state.banAge = 0 <;> cases source <;> simp [hban, getWeightMultiplier]

theorem eligibleSource_iff_multiplier (source : NodeSource) (state : ConnectionState) :
    EligibleSource source state ↔ weightMultiplier source state = 1 ∨ weightMultiplier source state = 2 := by
  rw [EligibleSource, weightMultiplier]
  have hwrapped : ¬(0 - 1 : UInt32) = 1 ∧ ¬(0 - 1 : UInt32) = 2 := by decide
  by_cases hban : state.banAge = 0 <;> cases source <;> simp_all [getWeightMultiplier]

def Eligible (view : NodeContainerView Key Host) (config : NodeSelectionConfiguration) (node : Node Key Host) : Prop :=
  ∃ entry ∈ view.entries, entry.node = node ∧ ∃ state,
    entry.info.getConnectionState config.serviceId = some state ∧ EligibleSource entry.info.source state ∧
    state.age = 0 ∧ hasFlag config.requiredRole node.roles = true ∧
    hasAnyProtocol config.supportedProtocols node.roles = true

def ExactWeight (view : NodeContainerView Key Host) (config : NodeSelectionConfiguration)
    (importanceRetriever : Key → ImportanceDescriptor) (generator : Nat → WeightPolicy)
    (candidate : WeightedCandidate Key Host) : Prop :=
  ∃ entry ∈ view.entries, entry.node = candidate.node ∧ ∃ state n weight,
    entry.info.getConnectionState config.serviceId = some state ∧
    calculateWeight (interactions entry.buckets view.time) (generator n)
      (importanceRetriever entry.identity.publicKey) = some weight ∧
    500 ≤ weight.toNat ∧ weight.toNat ≤ 10000 ∧
    (weightMultiplier entry.info.source state = 1 ∨ weightMultiplier entry.info.source state = 2) ∧
    candidate.weight.toNat = weight.toNat * (weightMultiplier entry.info.source state).toNat

def NodeSelectionConfiguration.freeSlots (config : NodeSelectionConfiguration) (nodesInfo : ServiceNodesInfo Key Host)
    (result : NodeSelectionResult Key Host) : Nat :=
  config.maxConnections.toNat - (nodesInfo.actives.length - result.removeCandidates.length)

/-- A right selection. In each round of a drawing the weight that is taken off the total is at most the total. -/
structure RightSelection [DecidableEq Key] [DecidableEq Host] (view : NodeContainerView Key Host)
    (config : NodeSelectionConfiguration) (importanceRetriever : Key → ImportanceDescriptor)
    (generator : Nat → WeightPolicy) (distr : Nat → UInt64) (nodesInfo : ServiceNodesInfo Key Host)
    (result : NodeSelectionResult Key Host) : Prop where
  eligible : ∀ node ∈ result.addCandidates, Eligible view config node
  exactWeight : ∀ candidate ∈ nodesInfo.candidates, ExactWeight view config importanceRetriever generator candidate
  noUnderflow : config.freeSlots nodesInfo result < nodesInfo.candidates.length →
    ∀ round < config.freeSlots nodesInfo result, ∃ drawing candidate,
      drawCandidates nodesInfo.candidates nodesInfo.totalCandidateWeight distr round = some drawing ∧
      nodesInfo.candidates[findCandidateIndex nodesInfo.candidates drawing.usedNodeFlags (distr round)]? =
        some candidate ∧
      candidate.weight ≤ drawing.totalCandidateWeight
  filled : config.freeSlots nodesInfo result < nodesInfo.candidates.length →
    result.addCandidates.length = config.freeSlots nodesInfo result ∧ (result.addCandidates.map Node.identity).Nodup

/-- Whatever the random generators yield, the selection is completed and right. -/
def SelectsRight [DecidableEq Key] [DecidableEq Host] (view : NodeContainerView Key Host)
    (config : NodeSelectionConfiguration) (importanceRetriever : Key → ImportanceDescriptor) : Prop :=
  ∀ generator distr, ∃ nodesInfo result,
    findServiceNodes view config.filter importanceRetriever generator = some nodesInfo ∧
    selectNodes view config importanceRetriever generator distr = some result ∧
    RightSelection view config importanceRetriever generator distr nodesInfo result

/-- The node is known to the service, not connected to it, and has the role and a protocol. -/
structure Offered (config : NodeSelectionConfiguration) (entry : NodeEntry Key Host) (state : ConnectionState) :
    Prop where
  state_eq : entry.info.getConnectionState config.serviceId = some state
  age_eq : state.age = 0
  matched : config.filter.matches entry.node.roles = true

theorem Found.identities
    (h : Found config.filter importanceRetriever generator view.time view.entries nodesInfo) :
    (nodesInfo.candidates.map WeightedCandidate.identity).Nodup := by
  have hsublist := h.nodes.map Node.identity
  rw [List.map_map, List.map_map] at hsublist
  exact hsublist.nodup view.nodup

theorem selectNodes_spec [DecidableEq Key] [DecidableEq Host] (distr : Nat → UInt64)
    (h : findServiceNodes view config.filter importanceRetriever generator = some nodesInfo) :
    ∃ result, selectNodes view config importanceRetriever generator distr = some result ∧
      (∀ node ∈ result.addCandidates, ∃ candidate ∈ nodesInfo.candidates, candidate.node = node) ∧
      (config.freeSlots nodesInfo result < nodesInfo.candidates.length →
        result.addCandidates.length = config.freeSlots nodesInfo result ∧
          (result.addCandidates.map Node.identity).Nodup) := by
  have hfound := found h
  simp only [selectNodes, h, Option.bind_eq_bind, Option.bind_some]
  split
  · obtain ⟨addCandidates, hselected, hcandidates, hfilled⟩ :=
      selectCandidates_spec (hfound.total view.length_lt) hfound.identities distr
        (config.maxConnections.toNat - (nodesInfo.actives.length -
          (findRemoveCandidates nodesInfo.actives config.maxConnections config.maxConnectionAge).length))
    rw [hselected]
    exact ⟨_, rfl, hcandidates, hfilled⟩
  · rename_i hfull
    refine ⟨_, rfl, by simp, fun _ => ?_⟩
    have hslots : config.maxConnections.toNat - (nodesInfo.actives.length -
        (findRemoveCandidates nodesInfo.actives config.maxConnections config.maxConnectionAge).length) = 0 := by
      omega
    exact ⟨hslots.symm, List.nodup_nil⟩

theorem noUnderflow [DecidableEq Key] [DecidableEq Host] {slots : Nat}
    (h : findServiceNodes view config.filter importanceRetriever generator = some nodesInfo)
    (hslots : slots < nodesInfo.candidates.length) (distr : Nat → UInt64) (round : Nat) (hround : round < slots) :
    ∃ drawing candidate,
      drawCandidates nodesInfo.candidates nodesInfo.totalCandidateWeight distr round = some drawing ∧
      nodesInfo.candidates[findCandidateIndex nodesInfo.candidates drawing.usedNodeFlags (distr round)]? =
        some candidate ∧
      candidate.weight ≤ drawing.totalCandidateWeight := by
  have hfound := found h
  obtain ⟨drawing, hdrawing, hdrawn⟩ :=
    drawn (hfound.total view.length_lt) hfound.identities distr round (by omega)
  obtain ⟨candidate, hunused, hcandidate⟩ := hdrawn.exists_candidate (by omega) (distr round)
  exact ⟨drawing, candidate, hdrawing, hcandidate, hdrawn.weight_le hunused hcandidate⟩

theorem Considered.offered (h : Considered config.filter entry state) (hage : state.age = 0) :
    Offered config entry state :=
  ⟨h.state_eq, hage, h.matched⟩

theorem toNat_weight_mul {weight multiplier : UInt32} (hweight : weight.toNat ≤ 10000)
    (hmultiplier : multiplier = 1 ∨ multiplier = 2) :
    (weight * multiplier).toUInt64.toNat = weight.toNat * multiplier.toNat := by
  have hle : multiplier.toNat ≤ 2 := by rcases hmultiplier with rfl | rfl <;> decide
  rw [UInt32.toNat_toUInt64, UInt32.toNat_mul, Nat.mod_eq_of_lt]
  calc weight.toNat * multiplier.toNat ≤ 10000 * 2 := Nat.mul_le_mul hweight hle
    _ < 2 ^ 32 := by decide

def sampleBanned : NodeContainerView Nat Nat where
  entries := [⟨⟨⟨1, 1⟩, 1, 0x41⟩, ⟨.dynamicIncoming, [(7, ⟨0, 3, 1⟩)]⟩, []⟩]
  time := 0
  nodup := by decide
  length_lt := by decide

def sampleConfiguration : NodeSelectionConfiguration := ⟨7, 1, 1, 5, 10⟩

end
end Catapult.Extensions
