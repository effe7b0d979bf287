import Catapult.Extensions.CandidateSelection

/-!
# Aging of connections

The removed connections are the first old ones, up to a number that follows from the limit. With a limit of one all of
two or more connections can be removed, and a limit of two is scaled down to one for incoming connections.
-/

namespace Catapult.Extensions
open Ionet

/-! ## Removed connections -/

section
variable {Key Host : Type} [DecidableEq Key] [DecidableEq Host] {nodePairs : List (Node Key Host × UInt32)}
  {removeCandidates : List (NodeIdentity Key Host)} {maxConnections maxConnectionAge : UInt32}
  {maxNodesToRemove : Nat}

def pairIdentity (pair : Node Key Host × UInt32) : NodeIdentity Key Host := pair.1.identity

def agedIdentities (maxConnectionAge : UInt32) (nodePairs : List (Node Key Host × UInt32)) :
    List (NodeIdentity Key Host) :=
  (nodePairs.filter fun pair => maxConnectionAge ≤ pair.2).map pairIdentity

theorem emplaceIdentity_of_notMem {identity : NodeIdentity Key Host} (h : identity ∉ removeCandidates) :
    emplaceIdentity removeCandidates identity = removeCandidates ++ [identity] := by
  rw [emplaceIdentity, if_neg]
  rw [List.any_eq_true]
  rintro ⟨other, hmem, hequal⟩
  simp only [nodeIdentityEquality, Bool.and_eq_true, decide_eq_true_eq] at hequal
  have heq : other = identity := by
    cases other
    cases identity
    simp_all
  exact h (heq ▸ hmem)

theorem collectRemoveCandidates_eq (hnodup : (removeCandidates ++ nodePairs.map pairIdentity).Nodup)
    (hle : removeCandidates.length ≤ maxNodesToRemove) :
    collectRemoveCandidates maxNodesToRemove maxConnectionAge nodePairs removeCandidates =
      removeCandidates ++
        (agedIdentities maxConnectionAge nodePairs).take (maxNodesToRemove - removeCandidates.length) := by
  induction nodePairs generalizing removeCandidates with
  | nil => simp [collectRemoveCandidates, agedIdentities]
  | cons pair nodePairs ih =>
    rcases pair with ⟨node, age⟩
    simp only [collectRemoveCandidates]
    split
    · rename_i hfull
      simp [hfull]
    · rename_i hnotfull
      rw [List.map_cons] at hnodup
      split
      · rename_i hage
        have hfresh : node.identity ∉ removeCandidates := by
          intro hmem
          exact (List.nodup_append.mp hnodup).2.2 _ hmem _ List.mem_cons_self rfl
        have haged : agedIdentities maxConnectionAge ((node, age) :: nodePairs) =
            node.identity :: agedIdentities maxConnectionAge nodePairs := by
          simp [agedIdentities, pairIdentity, hage]
        have hcount : maxNodesToRemove - removeCandidates.length =
            maxNodesToRemove - (removeCandidates ++ [node.identity]).length + 1 := by
          rw [List.length_append, List.length_singleton]
          omega
        rw [emplaceIdentity_of_notMem hfresh, ih (by simpa [pairIdentity] using hnodup), haged, hcount,
          List.take_succ_cons, List.append_assoc]
        · rfl
        · rw [List.length_append, List.length_singleton]
          omega
      · rename_i hage
        have haged : agedIdentities maxConnectionAge ((node, age) :: nodePairs) =
            agedIdentities maxConnectionAge nodePairs := by
          simp [agedIdentities, hage]
        rw [haged]
        refine ih ?_ hle
        exact hnodup.sublist ((List.Sublist.refl _).append (List.sublist_cons_self _ _))

def removable (nodePairs : List (Node Key Host × UInt32)) (maxConnections : UInt32) : Nat :=
  if nodePairs.length ≤ 1 then 0
  else (if maxConnections.toNat ≤ nodePairs.length then nodePairs.length - maxConnections.toNat else 0) + 1

theorem findRemoveCandidates_eq (hnodup : (nodePairs.map pairIdentity).Nodup) :
    findRemoveCandidates nodePairs maxConnections maxConnectionAge =
      (agedIdentities maxConnectionAge nodePairs).take (removable nodePairs maxConnections) := by
  rw [findRemoveCandidates, removable]
  split
  · simp
  · rw [collectRemoveCandidates_eq (by simpa using hnodup) (Nat.zero_le _)]
    rfl

omit [DecidableEq Key] [DecidableEq Host] in
theorem agedIdentities_sublist (maxConnectionAge : UInt32) (nodePairs : List (Node Key Host × UInt32)) :
    (agedIdentities maxConnectionAge nodePairs).Sublist (nodePairs.map pairIdentity) :=
  List.filter_sublist.map _

theorem mem_findRemoveCandidates {identity : NodeIdentity Key Host} (hnodup : (nodePairs.map pairIdentity).Nodup)
    (h : identity ∈ findRemoveCandidates nodePairs maxConnections maxConnectionAge) :
    ∃ pair ∈ nodePairs, pair.1.identity = identity ∧ maxConnectionAge ≤ pair.2 := by
  rw [findRemoveCandidates_eq hnodup] at h
  obtain ⟨pair, hpair, rfl⟩ := List.mem_map.mp (List.mem_of_mem_take h)
  obtain ⟨hmem, hage⟩ := List.mem_filter.mp hpair
  exact ⟨pair, hmem, rfl, by simpa using hage⟩

theorem all_removed_iff (hnodup : (nodePairs.map pairIdentity).Nodup) :
    (nodePairs ≠ [] ∧
      ∀ pair ∈ nodePairs, pair.1.identity ∈ findRemoveCandidates nodePairs maxConnections maxConnectionAge) ↔
    maxConnections.toNat ≤ 1 ∧ 2 ≤ nodePairs.length ∧ ∀ pair ∈ nodePairs, maxConnectionAge ≤ pair.2 := by
  rw [findRemoveCandidates_eq hnodup]
  constructor
  · rintro ⟨hne, hall⟩
    have hpositive : 0 < nodePairs.length := List.length_pos_iff.mpr hne
    have hsubset : nodePairs.map pairIdentity ⊆
        (agedIdentities maxConnectionAge nodePairs).take (removable nodePairs maxConnections) := by
      intro identity hidentity
      obtain ⟨pair, hpair, rfl⟩ := List.mem_map.mp hidentity
      exact hall pair hpair
    have hlength := (List.subperm_of_subset hnodup hsubset).length_le
    rw [List.length_map, List.length_take] at hlength
    have haged : (agedIdentities maxConnectionAge nodePairs).length ≤ nodePairs.length := by
      simpa using (agedIdentities_sublist maxConnectionAge nodePairs).length_le
    rw [removable] at hlength
    split at hlength
    · omega
    · refine ⟨?_, by omega, ?_⟩
      · split at hlength <;> omega
      · have heq : (nodePairs.filter fun pair => maxConnectionAge ≤ pair.2).length = nodePairs.length := by
          rw [agedIdentities, List.length_map] at hlength
          have := List.length_filter_le (fun pair : Node Key Host × UInt32 => maxConnectionAge ≤ pair.2) nodePairs
          omega
        simpa using List.length_filter_eq_length_iff.mp heq
  · rintro ⟨hlimit, hlength, hall⟩
    have hnonempty : nodePairs ≠ [] := by
      rintro rfl
      simp at hlength
    refine ⟨hnonempty, fun pair hpair => ?_⟩
    have haged : agedIdentities maxConnectionAge nodePairs = nodePairs.map pairIdentity := by
      rw [agedIdentities, List.filter_eq_self.mpr fun pair hpair => by simpa using hall pair hpair]
    rw [haged, List.take_of_length_le]
    · exact List.mem_map.mpr ⟨pair, hpair, rfl⟩
    · rw [List.length_map, removable, if_neg (by omega)]
      split <;> omega

end

/-! ## Retained connections -/

section
variable {Key Host : Type} {view : NodeContainerView Key Host} {filter : FindServiceNodesFilter}
  {importanceRetriever : Key → ImportanceDescriptor} {generator : Nat → WeightPolicy} {entry : NodeEntry Key Host}
  {state : ConnectionState} {nodesInfo : ServiceNodesInfo Key Host} {maxConnections maxConnectionAge : UInt32}

def Connected (serviceId : ServiceIdentifier) (entry : NodeEntry Key Host) (state : ConnectionState) : Prop :=
  entry.info.getConnectionState serviceId = some state ∧ 0 < state.age

/-- The removed identities are those of old connections, and if there are connections, not all of them are removed. -/
def Retains (view : NodeContainerView Key Host) (serviceId : ServiceIdentifier) (maxConnectionAge : UInt32)
    (removed : List (NodeIdentity Key Host)) : Prop :=
  (∀ identity ∈ removed, ∃ entry ∈ view.entries, entry.identity = identity ∧
    ∃ state, Connected serviceId entry state ∧ maxConnectionAge ≤ state.age) ∧
  ((∃ entry ∈ view.entries, ∃ state, Connected serviceId entry state) →
    ∃ entry ∈ view.entries, (∃ state, Connected serviceId entry state) ∧ entry.identity ∉ removed)

/-- There are several connections, and the filter lets all of them through, each one old enough. -/
def AllAged (view : NodeContainerView Key Host) (filter : FindServiceNodesFilter) (maxConnectionAge : UInt32) : Prop :=
  (∃ entry ∈ view.entries, ∃ entry' ∈ view.entries, entry.identity ≠ entry'.identity ∧
    (∃ state, Connected filter.serviceId entry state) ∧ ∃ state, Connected filter.serviceId entry' state) ∧
  ∀ entry ∈ view.entries, ∀ state, Connected filter.serviceId entry state →
    Considered filter entry state ∧ maxConnectionAge ≤ state.age

theorem Found.active_identities (h : Found filter importanceRetriever generator view.time view.entries nodesInfo) :
    (nodesInfo.actives.map pairIdentity).Nodup := by
  have hsublist := h.sublist.map Node.identity
  rw [List.map_map, List.map_map] at hsublist
  exact hsublist.nodup view.nodup

theorem eq_of_identity_eq {entry' : NodeEntry Key Host} (h : entry ∈ view.entries) (h' : entry' ∈ view.entries)
    (heq : entry.identity = entry'.identity) : entry = entry' :=
  List.inj_on_of_nodup_map view.nodup h h' heq

theorem Found.considered_of_removed [DecidableEq Key] [DecidableEq Host]
    (h : Found filter importanceRetriever generator view.time view.entries nodesInfo) (hentry : entry ∈ view.entries)
    (hremoved : entry.identity ∈ findRemoveCandidates nodesInfo.actives maxConnections maxConnectionAge) :
    ∃ state, Considered filter entry state ∧ 0 < state.age ∧ maxConnectionAge ≤ state.age := by
  obtain ⟨⟨node, age⟩, hpair, hidentity, hage⟩ := mem_findRemoveCandidates h.active_identities hremoved
  obtain ⟨entry', hentry', state, hconsidered, hpositive, rfl, rfl⟩ := (h.mem_actives _ _).mp hpair
  obtain rfl := eq_of_identity_eq hentry' hentry hidentity
  exact ⟨state, hconsidered, hpositive, hage⟩

theorem Found.retains_iff [DecidableEq Key] [DecidableEq Host]
    (h : Found filter importanceRetriever generator view.time view.entries nodesInfo) :
    Retains view filter.serviceId maxConnectionAge
        (findRemoveCandidates nodesInfo.actives maxConnections maxConnectionAge) ↔
      ¬(maxConnections.toNat ≤ 1 ∧ AllAged view filter maxConnectionAge) := by
  have hremoved : _ ↔ maxConnections.toNat ≤ 1 ∧ 2 ≤ nodesInfo.actives.length ∧
      ∀ pair ∈ nodesInfo.actives, maxConnectionAge ≤ pair.2 := all_removed_iff h.active_identities
  constructor
  · rintro ⟨-, hretained⟩ ⟨hlimit, ⟨entry, hentry, entry', hentry', hne, ⟨state, hstate⟩, ⟨state', hstate'⟩⟩, hall⟩
    obtain ⟨hconsidered, -⟩ := hall entry hentry state hstate
    obtain ⟨hconsidered', -⟩ := hall entry' hentry' state' hstate'
    have hactive : (entry.node, state.age) ∈ nodesInfo.actives :=
      (h.mem_actives _ _).mpr ⟨entry, hentry, state, hconsidered, hstate.2, rfl, rfl⟩
    have hactive' : (entry'.node, state'.age) ∈ nodesInfo.actives :=
      (h.mem_actives _ _).mpr ⟨entry', hentry', state', hconsidered', hstate'.2, rfl, rfl⟩
    have hlength : 2 ≤ nodesInfo.actives.length := by
      have hpair : [(entry.node, state.age), (entry'.node, state'.age)] ⊆ nodesInfo.actives := by
        simp [hactive, hactive']
      refine (List.subperm_of_subset ?_ hpair).length_le
      simp only [List.nodup_cons, List.mem_singleton, Prod.mk.injEq, List.not_mem_nil, not_false_eq_true,
        List.nodup_nil, and_true]
      exact fun heq => hne (congrArg Node.identity heq.1)
    obtain ⟨-, hallRemoved⟩ := hremoved.mpr ⟨hlimit, hlength, by
      rintro ⟨node, age⟩ hpair
      obtain ⟨other, hother, stateOther, hconsideredOther, hpositive, rfl, rfl⟩ := (h.mem_actives _ _).mp hpair
      exact (hall other hother stateOther ⟨hconsideredOther.state_eq, hpositive⟩).2⟩
    obtain ⟨kept, hkept, ⟨stateKept, hstateKept⟩, hnot⟩ := hretained ⟨entry, hentry, state, hstate⟩
    obtain ⟨hconsideredKept, -⟩ := hall kept hkept stateKept hstateKept
    exact hnot (hallRemoved (kept.node, stateKept.age)
      ((h.mem_actives _ _).mpr ⟨kept, hkept, stateKept, hconsideredKept, hstateKept.2, rfl, rfl⟩))
  · intro hnot
    refine ⟨fun identity hidentity => ?_, ?_⟩
    · obtain ⟨⟨node, age⟩, hpair, rfl, hage⟩ := mem_findRemoveCandidates h.active_identities hidentity
      obtain ⟨entry, hentry, state, hconsidered, hpositive, rfl, rfl⟩ := (h.mem_actives _ _).mp hpair
      exact ⟨entry, hentry, rfl, state, ⟨hconsidered.state_eq, hpositive⟩, hage⟩
    · rintro ⟨entry, hentry, state, hstate⟩
      by_contra hnone
      simp only [not_exists, not_and, not_not] at hnone
      have hall : ∀ entry ∈ view.entries, ∀ state, Connected filter.serviceId entry state →
          Considered filter entry state ∧ maxConnectionAge ≤ state.age := by
        intro entry hentry state hstate
        obtain ⟨state', hconsidered, -, hage⟩ :=
          h.considered_of_removed hentry (hnone entry hentry ⟨state, hstate⟩)
        obtain rfl := Option.some.inj (hstate.1.symm.trans hconsidered.state_eq)
        exact ⟨hconsidered, hage⟩
      have hactive : (entry.node, state.age) ∈ nodesInfo.actives :=
        (h.mem_actives _ _).mpr ⟨entry, hentry, state, (hall entry hentry state hstate).1, hstate.2, rfl, rfl⟩
      obtain ⟨hlimit, hlength, -⟩ := hremoved.mp ⟨List.ne_nil_of_mem hactive, by
        rintro ⟨node, age⟩ hpair
        obtain ⟨other, hother, stateOther, hconsidered, hpositive, rfl, rfl⟩ := (h.mem_actives _ _).mp hpair
        exact hnone other hother ⟨stateOther, hconsidered.state_eq, hpositive⟩⟩
      refine hnot ⟨hlimit, ?_, hall⟩
      -- the first two active nodes differ
      rcases hactives : nodesInfo.actives with _ | ⟨⟨node₁, age₁⟩, _ | ⟨⟨node₂, age₂⟩, rest⟩⟩
      · simp [hactives] at hlength
      · simp [hactives] at hlength
      · have hnodup := h.active_identities
        rw [hactives] at hnodup
        obtain ⟨entry₁, hentry₁, state₁, hconsidered₁, hpositive₁, rfl, rfl⟩ :=
          (h.mem_actives node₁ age₁).mp (by simp [hactives])
        obtain ⟨entry₂, hentry₂, state₂, hconsidered₂, hpositive₂, rfl, rfl⟩ :=
          (h.mem_actives node₂ age₂).mp (by simp [hactives])
        refine ⟨entry₁, hentry₁, entry₂, hentry₂, fun heq => ?_, ⟨state₁, hconsidered₁.state_eq, hpositive₁⟩,
          state₂, hconsidered₂.state_eq, hpositive₂⟩
        rw [List.map_cons, List.nodup_cons] at hnodup
        exact hnodup.1 (List.mem_map.mpr ⟨(entry₂.node, state₂.age), List.mem_cons_self, heq.symm⟩)

/-! ## Selections -/

variable [DecidableEq Key] [DecidableEq Host]

/-- Whatever is drawn, the removal is completed and retains a connection. -/
def RemovalRetains (view : NodeContainerView Key Host) (config : NodeAgingConfiguration)
    (importanceRetriever : Key → ImportanceDescriptor) : Prop :=
  ∀ generator, ∃ removed, selectNodesForRemoval view config importanceRetriever generator = some removed ∧
    Retains view config.serviceId config.maxConnectionAge removed

def SelectionRetains (view : NodeContainerView Key Host) (config : NodeSelectionConfiguration)
    (importanceRetriever : Key → ImportanceDescriptor) : Prop :=
  ∀ generator distr, ∃ result, selectNodes view config importanceRetriever generator distr = some result ∧
    Retains view config.serviceId config.maxConnectionAge result.removeCandidates

theorem adjusted_le_one_iff (maxConnections : UInt32) :
    (max 1 (maxConnections * 3 / 4)).toNat ≤ 1 ↔ 3 * maxConnections.toNat % 2 ^ 32 < 8 := by
  rw [toNat_max, UInt32.toNat_div, UInt32.toNat_mul]
  have hone : (1 : UInt32).toNat = 1 := rfl
  have hthree : (3 : UInt32).toNat = 3 := rfl
  have hfour : (4 : UInt32).toNat = 4 := rfl
  rw [hone, hthree, hfour, Nat.mul_comm]
  omega

theorem removalRetains_iff (config : NodeAgingConfiguration) :
    RemovalRetains view config importanceRetriever ↔
      AllWeighable view config.filter importanceRetriever ∧
      ¬(3 * config.maxConnections.toNat % 2 ^ 32 < 8 ∧ AllAged view config.filter config.maxConnectionAge) := by
  have hremoval : ∀ generator nodesInfo,
      findServiceNodes view config.filter importanceRetriever generator = some nodesInfo →
      selectNodesForRemoval view config importanceRetriever generator = some (findRemoveCandidates nodesInfo.actives
        (max 1 (config.maxConnections * 3 / 4)) config.maxConnectionAge) := by
    intro generator nodesInfo hfound
    simp [selectNodesForRemoval, hfound]
  rw [← adjusted_le_one_iff, ← findServiceNodes_isSome_iff]
  constructor
  · intro h
    have hfound : ∀ generator, ∃ nodesInfo,
        findServiceNodes view config.filter importanceRetriever generator = some nodesInfo := by
      intro generator
      obtain ⟨removed, hremoved, -⟩ := h generator
      obtain ⟨nodesInfo, hfound, -⟩ := Option.bind_eq_some_iff.mp hremoved
      exact ⟨nodesInfo, hfound⟩
    refine ⟨hfound, ?_⟩
    obtain ⟨removed, hremoved, hretains⟩ := h fun _ => .interactions
    obtain ⟨nodesInfo, hnodesInfo⟩ := hfound fun _ => .interactions
    obtain rfl := Option.some.inj ((hremoval _ _ hnodesInfo).symm.trans hremoved)
    exact (found hnodesInfo).retains_iff.mp hretains
  · rintro ⟨hfound, hnot⟩ generator
    obtain ⟨nodesInfo, hnodesInfo⟩ := hfound generator
    exact ⟨_, hremoval _ _ hnodesInfo, (found hnodesInfo).retains_iff.mpr hnot⟩

theorem selectNodes_removeCandidates {result : NodeSelectionResult Key Host} {distr : Nat → UInt64}
    {config : NodeSelectionConfiguration}
    (hfound : findServiceNodes view config.filter importanceRetriever generator = some nodesInfo)
    (h : selectNodes view config importanceRetriever generator distr = some result) :
    result.removeCandidates =
      findRemoveCandidates nodesInfo.actives config.maxConnections config.maxConnectionAge := by
  simp only [selectNodes, hfound, Option.bind_eq_bind, Option.bind_some] at h
  split at h
  · obtain ⟨addCandidates, -, hresult⟩ := Option.bind_eq_some_iff.mp h
    cases hresult
    rfl
  · cases h
    rfl

theorem selectionRetains_iff (config : NodeSelectionConfiguration) :
    SelectionRetains view config importanceRetriever ↔
      AllWeighable view config.filter importanceRetriever ∧
      ¬(config.maxConnections.toNat ≤ 1 ∧ AllAged view config.filter config.maxConnectionAge) := by
  rw [← findServiceNodes_isSome_iff]
  constructor
  · intro h
    have hfound : ∀ generator, ∃ nodesInfo,
        findServiceNodes view config.filter importanceRetriever generator = some nodesInfo := by
      intro generator
      obtain ⟨result, hresult, -⟩ := h generator fun _ => 0
      obtain ⟨nodesInfo, hfound, -⟩ := Option.bind_eq_some_iff.mp hresult
      exact ⟨nodesInfo, hfound⟩
    refine ⟨hfound, ?_⟩
    obtain ⟨result, hresult, hretains⟩ := h (fun _ => .interactions) fun _ => 0
    obtain ⟨nodesInfo, hnodesInfo⟩ := hfound fun _ => .interactions
    rw [selectNodes_removeCandidates hnodesInfo hresult] at hretains
    exact (found hnodesInfo).retains_iff.mp hretains
  · rintro ⟨hfound, hnot⟩ generator distr
    obtain ⟨nodesInfo, hnodesInfo⟩ := hfound generator
    obtain ⟨result, hresult, -, -⟩ := selectNodes_spec distr hnodesInfo
    refine ⟨result, hresult, ?_⟩
    rw [selectNodes_removeCandidates hnodesInfo hresult]
    exact (found hnodesInfo).retains_iff.mpr hnot

end

def sampleConnections : NodeContainerView Nat Nat where
  entries :=
    [⟨⟨⟨1, 1⟩, 1, 0x41⟩, ⟨.static, [(7, ⟨10, 0, 0⟩)]⟩, []⟩, ⟨⟨⟨2, 2⟩, 1, 0x41⟩, ⟨.static, [(7, ⟨12, 0, 0⟩)]⟩, []⟩]
  time := 0
  nodup := by decide
  length_lt := by decide

theorem sampleConnections_allAged (filter : FindServiceNodesFilter) (hservice : filter.serviceId = 7)
    (hmatched : filter.matches 0x41 = true) : AllAged sampleConnections filter 10 := by
  have hconnected : ∀ entry ∈ sampleConnections.entries, ∃ state, Connected filter.serviceId entry state := by
    rw [hservice]
    intro entry hentry
    simp only [sampleConnections, List.mem_cons, List.not_mem_nil, or_false] at hentry
    rcases hentry with rfl | rfl
    · exact ⟨⟨10, 0, 0⟩, rfl, by decide⟩
    · exact ⟨⟨12, 0, 0⟩, rfl, by decide⟩
  refine ⟨⟨_, List.mem_cons_self, _, List.mem_cons_of_mem _ List.mem_cons_self, by decide,
    hconnected _ List.mem_cons_self, hconnected _ (List.mem_cons_of_mem _ List.mem_cons_self)⟩, ?_⟩
  rintro entry hentry state ⟨hstate, -⟩
  simp only [sampleConnections, List.mem_cons, List.not_mem_nil, or_false] at hentry
  rcases hentry with rfl | rfl
  · obtain rfl : (⟨10, 0, 0⟩ : ConnectionState) = state := by
      rw [hservice] at hstate
      exact Option.some.inj hstate
    exact ⟨⟨hstate, by decide, hmatched⟩, by decide⟩
  · obtain rfl : (⟨12, 0, 0⟩ : ConnectionState) = state := by
      rw [hservice] at hstate
      exact Option.some.inj hstate
    exact ⟨⟨hstate, by decide, hmatched⟩, by decide⟩

end Catapult.Extensions
