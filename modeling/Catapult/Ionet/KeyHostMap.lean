import Mathlib.Logic.Relation
import Catapult.Ionet.PrepareInsert

/-!
# Keys and hosts of the nodes of a container

An operation changes the entries by removals of known identities and by insertions of unknown ones (`Change`). The
invariants are kept by each of these. When hosts tell nodes apart, the nodes and the map from keys to hosts describe the
same relation (`OneToOne`) as long as the key of a node that is inserted leads nowhere before.
-/

namespace Catapult.Ionet
variable {Key Host : Type}

namespace NodeDataContainer

structure SameIdentities (container container' : NodeDataContainer Key Host) : Prop where
  equalityStrategy : container'.equalityStrategy = container.equalityStrategy
  identities : container'.identities = container.identities
  keyHostMap : container'.keyHostMap = container.keyHostMap

theorem size_eq_length (container : NodeDataContainer Key Host) : container.size = container.identities.length :=
  (List.length_map _).symm

theorem SameIdentities.size_eq {container container' : NodeDataContainer Key Host}
    (h : SameIdentities container container') : container'.size = container.size := by
  rw [size_eq_length, size_eq_length, h.identities]

theorem SameButFlags.sameIdentities {container container' : NodeDataContainer Key Host}
    (h : SameButFlags container container') : SameIdentities container container' :=
  ⟨h.equalityStrategy, h.identities, h.keyHostMap⟩

theorem sameIdentities_forEach {container : NodeDataContainer Key Host}
    {consumer : NodeData Key Host → NodeData Key Host}
    (h : ∀ nodeData, (consumer nodeData).node.identity = nodeData.node.identity) :
    SameIdentities container (container.forEach consumer) :=
  ⟨rfl, identities_forEach h, rfl⟩

section
variable [DecidableEq Key] [DecidableEq Host] {container container' : NodeDataContainer Key Host}
  {identity pointer : NodeIdentity Key Host} {nodeData : NodeData Key Host} {source : NodeSource} {maxNodes : Nat}
  {strict : Prop}

theorem sameIdentities_modify {change : NodeData Key Host → NodeData Key Host}
    (h : ∀ nodeData ∈ container.nodeMap, container.isAt pointer nodeData = true →
      (change nodeData).node.identity = nodeData.node.identity) :
    SameIdentities container (container.modify pointer change) := by
  refine ⟨rfl, ?_, rfl⟩
  rw [identities, modify, forEach, List.map_map, identities]
  refine List.map_congr_left fun nodeData hmem => ?_
  rw [Function.comp_apply]
  split
  next hat => exact h nodeData hmem hat
  next => rfl

theorem identities_erase : (container.erase pointer).identities =
    container.identities.filter fun other => !nodeIdentityEquality container.equalityStrategy pointer other := by
  simp only [identities, erase, List.filter_map, isAt]
  rfl

theorem keyHostMap_erase {key : Key} : (container.erase pointer).keyHostMap key =
    if container.equalityStrategy = .host ∧ key = pointer.publicKey then none else container.keyHostMap key :=
  rfl

theorem identities_insert (hfresh : container.tryGet nodeData.node.identity = none) :
    (container.insert nodeData).identities = container.identities ++ [nodeData.node.identity] := by
  rw [insert]
  refine Eq.trans (SameIdentities.identities (sameIdentities_modify fun _ _ _ => rfl)) ?_
  simp [identities, hfresh]

theorem keyHostMap_insert {key : Key} : (container.insert nodeData).keyHostMap key =
    if container.equalityStrategy = .host ∧ key = nodeData.node.identity.publicKey ∧ container.keyHostMap key = none
    then some nodeData.node.identity.host
    else container.keyHostMap key :=
  rfl

theorem tryGet_eq_none_iff : container.tryGet identity = none ↔
    ∀ other ∈ container.identities,
      container.equalityStrategy.part identity ≠ container.equalityStrategy.part other := by
  rw [tryGet, List.find?_eq_none, identities, List.forall_mem_map]
  simp only [isAt_iff, ne_eq]

theorem SameIdentities.tryGet_eq_none (hsame : SameIdentities container container')
    (h : container.tryGet identity = none) : container'.tryGet identity = none := by
  rw [tryGet_eq_none_iff, hsame.identities, hsame.equalityStrategy]
  exact tryGet_eq_none_iff.1 h

theorem tryGet_erase_eq_none (h : container.tryGet identity = none) :
    (container.erase pointer).tryGet identity = none := by
  rw [tryGet_eq_none_iff, identities_erase]
  exact fun other hmem => tryGet_eq_none_iff.1 h other (List.mem_of_mem_filter hmem)

theorem tryGet_erase_self (h : container.equalityStrategy.part identity = container.equalityStrategy.part pointer) :
    (container.erase pointer).tryGet identity = none := by
  rw [tryGet_eq_none_iff, identities_erase]
  intro other hmem heq
  have hne := (List.mem_filter.1 hmem).2
  rw [nodeIdentityEquality_iff.2 (h.symm.trans heq)] at hne
  cases hne

theorem keyHostMap_erase_eq_none {key : Key} (h : container.keyHostMap key = none) :
    (container.erase pointer).keyHostMap key = none := by
  rw [keyHostMap_erase, h, ite_self]

theorem keyHostMap_erase_self (h : container.equalityStrategy = .host) :
    (container.erase pointer).keyHostMap pointer.publicKey = none :=
  if_pos ⟨h, rfl⟩

theorem size_erase_lt (hmem : identity ∈ container.identities) :
    (container.erase identity).size < container.size := by
  rw [size_eq_length, size_eq_length, identities_erase, List.length_filter_lt_length_iff_exists]
  exact ⟨identity, hmem, by simpa using nodeIdentityEquality_iff.2 rfl⟩

/-- In a strict change the key of a node that is inserted leads nowhere before. -/
inductive Change (maxNodes : Nat) (strict : Prop) : NodeDataContainer Key Host → NodeDataContainer Key Host → Prop
  | same {container container' : NodeDataContainer Key Host} (h : SameIdentities container container') :
      Change maxNodes strict container container'
  | erase {container : NodeDataContainer Key Host} {identity : NodeIdentity Key Host}
      (hmem : identity ∈ container.identities) : Change maxNodes strict container (container.erase identity)
  | insert {container : NodeDataContainer Key Host} {nodeData : NodeData Key Host}
      (hfresh : container.tryGet nodeData.node.identity = none) (hroom : container.size < maxNodes)
      (hunmapped : strict → container.equalityStrategy = .host →
        container.keyHostMap nodeData.node.identity.publicKey = none) :
      Change maxNodes strict container (container.insert nodeData)

theorem Change.equalityStrategy (h : Change maxNodes strict container container') :
    container'.equalityStrategy = container.equalityStrategy := by
  cases h with
  | same h => exact h.equalityStrategy
  | erase hmem => rfl
  | insert hfresh hroom hunmapped => rfl

omit [DecidableEq Key] [DecidableEq Host] in
theorem WellFormed.part_injective (h : container.WellFormed) (hmem : identity ∈ container.identities)
    (hmem' : pointer ∈ container.identities)
    (heq : container.equalityStrategy.part identity = container.equalityStrategy.part pointer) : identity = pointer :=
  List.inj_on_of_nodup_map h.nodup hmem hmem' heq

theorem WellFormed.exists_tryGet (h : container.WellFormed) (hmem : pointer ∈ container.identities)
    (hpart : container.equalityStrategy.part identity = container.equalityStrategy.part pointer) :
    ∃ nodeData, container.tryGet identity = some nodeData ∧ nodeData.node.identity = pointer := by
  cases hfound : container.tryGet identity with
  | none => exact absurd hpart (tryGet_eq_none_iff.1 hfound pointer hmem)
  | some nodeData =>
    refine ⟨nodeData, rfl, h.part_injective (List.mem_map_of_mem (mem_of_tryGet hfound)) hmem ?_⟩
    exact (isAt_iff.1 (isAt_of_tryGet hfound)).symm.trans hpart

omit [DecidableEq Key] [DecidableEq Host] in
theorem WellFormed.same (h : container.WellFormed) (hsame : SameIdentities container container') :
    container'.WellFormed := by
  refine ⟨?_, fun hstrategy key host hmapped => ?_⟩
  · rw [hsame.identities, hsame.equalityStrategy]
    exact h.nodup
  · rw [hsame.keyHostMap] at hmapped
    rw [hsame.equalityStrategy] at hstrategy
    rw [hsame.identities]
    exact h.mapped hstrategy key host hmapped

theorem WellFormed.change (h : container.WellFormed) (hchange : Change maxNodes strict container container') :
    container'.WellFormed := by
  cases hchange with
  | same hsame => exact h.same hsame
  | @erase identity hmem =>
    refine ⟨?_, fun hstrategy key host hmapped => ?_⟩
    · rw [identities_erase]
      exact (List.filter_sublist.map _).nodup h.nodup
    · change container.equalityStrategy = .host at hstrategy
      rw [keyHostMap_erase] at hmapped
      split at hmapped
      next => cases hmapped
      next hne =>
        have hmem' := h.mapped hstrategy key host hmapped
        rw [identities_erase, List.mem_filter]
        refine ⟨hmem', ?_⟩
        rw [Bool.not_eq_true', Bool.eq_false_iff, ne_eq, nodeIdentityEquality_iff]
        intro heq
        exact hne ⟨hstrategy, (congrArg NodeIdentity.publicKey (h.part_injective hmem hmem' heq)).symm⟩
  | @insert nodeData hfresh hroom hunmapped =>
    refine ⟨?_, fun hstrategy key host hmapped => ?_⟩
    · rw [identities_insert hfresh, List.map_append, List.map_singleton, List.nodup_append]
      refine ⟨h.nodup, List.nodup_singleton _, ?_⟩
      intro part hpart part' hpart'
      obtain ⟨other, hother, rfl⟩ := List.mem_map.1 hpart
      rw [List.mem_singleton.1 hpart']
      exact (tryGet_eq_none_iff.1 hfresh other hother).symm
    · change container.equalityStrategy = .host at hstrategy
      rw [identities_insert hfresh, List.mem_append, List.mem_singleton]
      rw [keyHostMap_insert] at hmapped
      split at hmapped
      next hnew =>
        cases hmapped
        rw [hnew.2.1]
        exact .inr rfl
      next => exact .inl (h.mapped hstrategy key host hmapped)

theorem WellFormed.of_erase (h : container.WellFormed) (hmem : identity ∈ container.identities) :
    (container.erase identity).WellFormed :=
  h.change (Change.erase hmem : Change 0 True container _)

theorem WellFormed.of_prepared {code : PrepareInsertCode} {pointer : Option (NodeIdentity Key Host)}
    (h : container.WellFormed) (hprepared : Prepared container identity source container' pointer code) :
    container'.WellFormed := by
  cases hprepared with
  | merged hhost hkey hadmitted hallowed hdowngrade hsame =>
    exact (h.of_erase (List.mem_map_of_mem (mem_of_tryGet hkey.found))).same hsame.sameIdentities
  | hostConflict _ _ hsame | keyConflict _ _ hsame | new _ _ hsame | known _ _ hsame =>
    exact h.same hsame.sameIdentities
  | firstPhase _ _ _ _ hsame | keyRedundant _ _ _ _ hsame | migrated _ _ _ _ hsame =>
    exact h.same hsame.sameIdentities

theorem size_le_of_change (h : container.size ≤ maxNodes) (hchange : Change maxNodes strict container container') :
    container'.size ≤ maxNodes := by
  cases hchange with
  | same hsame => rwa [hsame.size_eq]
  | erase hmem => exact Nat.le_trans (Nat.le_of_lt (size_erase_lt hmem)) h
  | insert hfresh hroom hunmapped =>
    rw [size_eq_length, identities_insert hfresh, List.length_append, ← size_eq_length]
    exact hroom

section Changes
variable (hchanges : Relation.ReflTransGen (Change maxNodes strict) container container')
include hchanges

theorem WellFormed.changes (h : container.WellFormed) : container'.WellFormed := by
  induction hchanges with
  | refl => exact h
  | tail _ hchange ih => exact ih.change hchange

theorem size_le_of_changes (h : container.size ≤ maxNodes) : container'.size ≤ maxNodes := by
  induction hchanges with
  | refl => exact h
  | tail _ hchange ih => exact size_le_of_change ih hchange

theorem equalityStrategy_of_changes : container'.equalityStrategy = container.equalityStrategy := by
  induction hchanges with
  | refl => rfl
  | tail _ hchange ih => exact hchange.equalityStrategy.trans ih

end Changes

/-- Nodes are distinct, keys are, and a key leads to a host when a node has both. -/
structure OneToOne (container : NodeDataContainer Key Host) : Prop where
  nodup : (container.identities.map NodeIdentity.host).Nodup
  publicKeys : (container.identities.map NodeIdentity.publicKey).Nodup
  mapped : ∀ key host, container.keyHostMap key = some host ↔ ⟨key, host⟩ ∈ container.identities

def KeysMapped (container : NodeDataContainer Key Host) : Prop :=
  container.equalityStrategy = .host →
    ∀ identity ∈ container.identities, container.keyHostMap identity.publicKey = some identity.host

theorem KeysMapped.change (h : container.KeysMapped) (hchange : Change maxNodes strict container container')
    (hstrict : strict) : container'.KeysMapped := by
  cases hchange with
  | same hsame =>
    rw [KeysMapped, hsame.equalityStrategy, hsame.identities, hsame.keyHostMap]
    exact h
  | @erase erased hmem =>
    intro hstrategy identity hidentity
    change container.equalityStrategy = .host at hstrategy
    rw [identities_erase, List.mem_filter] at hidentity
    obtain ⟨hidentity, hne⟩ := hidentity
    rw [keyHostMap_erase, if_neg, h hstrategy identity hidentity]
    rintro ⟨-, heq⟩
    -- the key of both leads to the host of both
    have hhost := (h hstrategy identity hidentity).symm.trans ((congrArg _ heq).trans (h hstrategy erased hmem))
    have hat : nodeIdentityEquality container.equalityStrategy erased identity = true := by
      rw [nodeIdentityEquality_iff, hstrategy]
      exact congrArg (Prod.mk none) hhost.symm
    rw [hat] at hne
    cases hne
  | @insert nodeData hfresh hroom hunmapped =>
    intro hstrategy identity hidentity
    rw [identities_insert hfresh, List.mem_append, List.mem_singleton] at hidentity
    have hnone := hunmapped hstrict hstrategy
    rcases hidentity with hidentity | rfl
    · have hmapped := h hstrategy identity hidentity
      rw [keyHostMap_insert, if_neg, hmapped]
      rintro ⟨-, -, heq⟩
      rw [hmapped] at heq
      cases heq
    · rw [keyHostMap_insert, if_pos ⟨hstrategy, rfl, hnone⟩]

theorem KeysMapped.changes (h : container.KeysMapped)
    (hchanges : Relation.ReflTransGen (Change maxNodes strict) container container') (hstrict : strict) :
    container'.KeysMapped := by
  induction hchanges with
  | refl => exact h
  | tail _ hchange ih => exact ih.change hchange hstrict

section
omit [DecidableEq Key] [DecidableEq Host]

theorem WellFormed.hosts_nodup (h : container.WellFormed) (hstrategy : container.equalityStrategy = .host) :
    (container.identities.map NodeIdentity.host).Nodup := by
  have hnodup := h.nodup
  rw [hstrategy] at hnodup
  refine List.Nodup.of_map (fun host => ((none : Option Key), some host)) ?_
  rwa [List.map_map]

theorem WellFormed.oneToOne (h : container.WellFormed) (hkeys : container.KeysMapped)
    (hstrategy : container.equalityStrategy = .host) : container.OneToOne := by
  have hhosts := h.hosts_nodup hstrategy
  refine ⟨hhosts, ?_, fun key host => ⟨h.mapped hstrategy key host, fun hmem => hkeys hstrategy _ hmem⟩⟩
  refine List.Nodup.map_on ?_ hhosts.of_map
  intro identity hmem identity' hmem' heq
  refine List.inj_on_of_nodup_map hhosts hmem hmem' (Option.some.inj ?_)
  rw [← hkeys hstrategy identity hmem, ← hkeys hstrategy identity' hmem', heq]

end

def Prunable (nodeData : NodeData Key Host) : Prop :=
  nodeData.nodeInfo.source.value ≤ NodeSource.dynamic.value ∧ nodeData.nodeInfo.hasActiveConnection = false

omit [DecidableEq Key] [DecidableEq Host] in
theorem prunable_of_tryFindWorst (h : container.tryFindWorst = some nodeData) :
    nodeData ∈ container.nodeMap ∧ Prunable nodeData := by
  suffices hfold : ∀ found, container.tryFindWorst = some found → found ∈ container.nodeMap ∧ Prunable found from
    hfold nodeData h
  unfold tryFindWorst
  apply List.foldlRecOn
    (motive := fun worst => ∀ found, worst = some found → found ∈ container.nodeMap ∧ Prunable found)
  · exact fun _ hfound => nomatch hfound
  intro worst hworst candidate hmem
  split
  next => exact hworst
  next hprunable =>
    have hcandidate : candidate ∈ container.nodeMap ∧ Prunable candidate := by
      rw [Bool.or_eq_true, decide_eq_true_eq, not_or, Nat.not_lt, Bool.not_eq_true] at hprunable
      exact ⟨hmem, hprunable⟩
    split
    next => rintro found ⟨⟩; exact hcandidate
    next =>
      split_ifs
      · exact hworst
      · exact hworst
      · rintro found ⟨⟩; exact hcandidate

theorem WellFormed.mem_erase (h : container.WellFormed) (hmem : nodeData ∈ container.nodeMap)
    {other : NodeData Key Host} : other ∈ (container.erase nodeData.node.identity).nodeMap ↔
      other ∈ container.nodeMap ∧ other ≠ nodeData := by
  simp only [erase, List.mem_filter]
  refine and_congr_right fun hother => ?_
  rw [Bool.not_eq_true', Bool.eq_false_iff, ne_eq, isAt_iff]
  refine not_congr ⟨fun heq => (h.eq_of_part_eq hmem hother heq).symm, ?_⟩
  rintro rfl
  rfl

end
end NodeDataContainer

end Catapult.Ionet
