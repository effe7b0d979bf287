import Catapult.Ionet.NodeDataContainer

/-!
# What preparing an insertion can do

`Prepared` lists the ways in which `prepareInsert` ends, with the tests that led there. In a well-formed container no
pointer is to a missing entry and one of the ways is taken (`WellFormed.prepared`).
-/

namespace Catapult.Ionet
variable {Key Host : Type}

def NodeIdentityEqualityStrategy.part (strategy : NodeIdentityEqualityStrategy) (identity : NodeIdentity Key Host) :
    Option Key × Option Host :=
  match strategy with
  | key => (some identity.publicKey, none)
  | host => (none, some identity.host)
  | keyAndHost => (some identity.publicKey, some identity.host)

section Equality
variable [DecidableEq Key] [DecidableEq Host] {strategy : NodeIdentityEqualityStrategy}
  {lhs rhs : NodeIdentity Key Host}

theorem nodeIdentityEquality_iff :
    nodeIdentityEquality strategy lhs rhs = true ↔ strategy.part lhs = strategy.part rhs := by
  cases strategy <;> simp [nodeIdentityEquality, NodeIdentityEqualityStrategy.part]

theorem nodeIdentityEquality_strict : nodeIdentityEquality .keyAndHost lhs rhs = true ↔ lhs = rhs := by
  cases lhs
  cases rhs
  simp [nodeIdentityEquality]

variable {nodeData : NodeData Key Host} {identity : NodeIdentity Key Host} {source : NodeSource}

theorem canUpdateIdentity_eq_equal_iff :
    (canUpdateIdentity nodeData identity source).1 = .equal ↔ nodeData.node.identity = identity := by
  rw [eq_comm (a := nodeData.node.identity), ← nodeIdentityEquality_strict, canUpdateIdentity]
  split
  next h => simp [h]
  next h => split_ifs <;> simp_all

theorem canUpdateIdentity_eq_allowed_iff :
    (canUpdateIdentity nodeData identity source).1 = .allowed ↔
      nodeData.node.identity ≠ identity ∧ nodeData.nodeInfo.source ≠ .localNode ∧
        (nodeData.nodeInfo.hasActiveConnection = true →
          nodeData.hasIdentityUpdateInProgress = true ∧ isSourceDowngrade nodeData source = false) := by
  rw [ne_comm (a := nodeData.node.identity), ne_eq, ← nodeIdentityEquality_strict, canUpdateIdentity]
  split_ifs <;> simp_all

end Equality

def NodeData.clearFlag (nodeData : NodeData Key Host) : NodeData Key Host :=
  { nodeData with hasIdentityUpdateInProgress := false }

namespace NodeDataContainer

def clearFlags (container : NodeDataContainer Key Host) : NodeDataContainer Key Host :=
  container.forEach NodeData.clearFlag

/-- The nodes with their data and the map from keys to hosts are the same. -/
def SameButFlags (container container' : NodeDataContainer Key Host) : Prop :=
  container'.clearFlags = container.clearFlags

def identities (container : NodeDataContainer Key Host) : List (NodeIdentity Key Host) :=
  container.nodeMap.map fun nodeData => nodeData.node.identity

theorem identities_forEach {container : NodeDataContainer Key Host} {consumer : NodeData Key Host → NodeData Key Host}
    (h : ∀ nodeData, (consumer nodeData).node.identity = nodeData.node.identity) :
    (container.forEach consumer).identities = container.identities := by
  simp [identities, forEach, Function.comp_def, h]

theorem identities_clearFlags (container : NodeDataContainer Key Host) :
    container.clearFlags.identities = container.identities :=
  identities_forEach fun _ => rfl

namespace SameButFlags
variable {container container' : NodeDataContainer Key Host}

theorem equalityStrategy (h : SameButFlags container container') :
    container'.equalityStrategy = container.equalityStrategy := by
  have hcleared := congrArg NodeDataContainer.equalityStrategy h
  exact hcleared

theorem keyHostMap (h : SameButFlags container container') : container'.keyHostMap = container.keyHostMap := by
  have hcleared := congrArg NodeDataContainer.keyHostMap h
  exact hcleared

theorem identities (h : SameButFlags container container') : container'.identities = container.identities := by
  have hcleared := congrArg NodeDataContainer.identities h
  rwa [identities_clearFlags, identities_clearFlags] at hcleared

theorem trans {container'' : NodeDataContainer Key Host} (h : SameButFlags container container')
    (h' : SameButFlags container' container'') : SameButFlags container container'' :=
  Eq.trans h' h

end SameButFlags

section Entries
variable [DecidableEq Key] [DecidableEq Host] {container : NodeDataContainer Key Host}
  {identity pointer update : NodeIdentity Key Host} {nodeData : NodeData Key Host} {source : NodeSource}

theorem canUpdateIdentity_clearFlag :
    (canUpdateIdentity nodeData identity source).2.clearFlag = nodeData.clearFlag := by
  unfold canUpdateIdentity
  split_ifs <;> rfl

theorem canUpdateIdentity_node : (canUpdateIdentity nodeData identity source).2.node = nodeData.node := by
  have hcleared := congrArg NodeData.node (@canUpdateIdentity_clearFlag _ _ _ _ identity nodeData source)
  exact hcleared

theorem canUpdateIdentity_nodeInfo : (canUpdateIdentity nodeData identity source).2.nodeInfo = nodeData.nodeInfo := by
  have hcleared := congrArg NodeData.nodeInfo (@canUpdateIdentity_clearFlag _ _ _ _ identity nodeData source)
  exact hcleared

theorem isAt_iff : container.isAt identity nodeData = true ↔
    container.equalityStrategy.part identity = container.equalityStrategy.part nodeData.node.identity :=
  nodeIdentityEquality_iff

theorem mem_of_tryGet (h : container.tryGet identity = some nodeData) : nodeData ∈ container.nodeMap :=
  List.mem_of_find?_eq_some h

theorem isAt_of_tryGet (h : container.tryGet identity = some nodeData) : container.isAt identity nodeData = true :=
  List.find?_some h

theorem sameButFlags_modify {change : NodeData Key Host → NodeData Key Host}
    (h : ∀ nodeData, (change nodeData).clearFlag = nodeData.clearFlag) :
    SameButFlags container (container.modify pointer change) := by
  simp only [SameButFlags, clearFlags, modify, forEach, List.map_map, Function.comp_def, mk.injEq, true_and, and_true]
  refine List.map_congr_left fun nodeData _ => ?_
  split
  · exact h nodeData
  · rfl

theorem tryGet_modify {change : NodeData Key Host → NodeData Key Host}
    (h : ∀ nodeData, (change nodeData).node.identity = nodeData.node.identity) :
    (container.modify pointer change).tryGet identity = (container.tryGet identity).map fun nodeData =>
      if container.isAt pointer nodeData then change nodeData else nodeData := by
  unfold tryGet modify forEach
  rw [List.find?_map]
  congr 2
  funext nodeData
  have hidentity : (if container.isAt pointer nodeData then change nodeData else nodeData).node.identity =
      nodeData.node.identity := by
    split <;> simp [h]
  rw [Function.comp_apply, isAt, hidentity, isAt]

theorem tryGet_erase_of_ne (h : container.equalityStrategy.part identity ≠ container.equalityStrategy.part pointer) :
    (container.erase pointer).tryGet identity = container.tryGet identity := by
  rw [tryGet, erase, List.find?_filter, tryGet]
  congr 1
  funext nodeData
  change decide ((!container.isAt pointer nodeData) = true ∧ container.isAt identity nodeData = true) =
    container.isAt identity nodeData
  by_cases hat : container.isAt identity nodeData = true
  · have hne : container.isAt pointer nodeData = false := by
      rw [Bool.eq_false_iff, ne_eq, isAt_iff, ← isAt_iff.1 hat]
      exact fun heq => h heq.symm
    simp [hne]
  · simp [hat]

/-- Every node has an entry of its own, and where a key leads there is its node. -/
structure WellFormed (container : NodeDataContainer Key Host) : Prop where
  nodup : (container.identities.map container.equalityStrategy.part).Nodup
  mapped : container.equalityStrategy = .host →
    ∀ key host, container.keyHostMap key = some host → ⟨key, host⟩ ∈ container.identities

omit [DecidableEq Key] [DecidableEq Host] in
theorem WellFormed.eq_of_part_eq (h : container.WellFormed) {nodeData nodeData' : NodeData Key Host}
    (hmem : nodeData ∈ container.nodeMap) (hmem' : nodeData' ∈ container.nodeMap)
    (heq : container.equalityStrategy.part nodeData.node.identity =
      container.equalityStrategy.part nodeData'.node.identity) : nodeData = nodeData' := by
  have hnodup := h.nodup
  rw [identities, List.map_map] at hnodup
  exact List.inj_on_of_nodup_map hnodup hmem hmem' heq

theorem WellFormed.tryGet_of_mem (h : container.WellFormed) (hmem : nodeData ∈ container.nodeMap) :
    container.tryGet nodeData.node.identity = some nodeData := by
  cases hfound : container.tryGet nodeData.node.identity with
  | none =>
    have hnone := List.find?_eq_none.1 hfound nodeData hmem
    exact absurd (isAt_iff.2 rfl) hnone
  | some found =>
    exact congrArg some (h.eq_of_part_eq hmem (mem_of_tryGet hfound) (isAt_iff.1 (isAt_of_tryGet hfound))).symm

structure KeyElsewhere (container : NodeDataContainer Key Host) (identity : NodeIdentity Key Host)
    (nodeData : NodeData Key Host) : Prop where
  strategy : container.equalityStrategy = .host
  publicKey : nodeData.node.identity.publicKey = identity.publicKey
  host : nodeData.node.identity.host ≠ identity.host
  mapped : container.keyHostMap identity.publicKey = some nodeData.node.identity.host
  found : container.tryGet nodeData.node.identity = some nodeData

def codeFor (nodeData : NodeData Key Host) (source : NodeSource) : PrepareInsertCode :=
  if isSourceDowngrade nodeData source then .redundant else .allowed

inductive Prepared (container : NodeDataContainer Key Host) (identity : NodeIdentity Key Host) (source : NodeSource) :
    NodeDataContainer Key Host → Option (NodeIdentity Key Host) → PrepareInsertCode → Prop
  | hostConflict {container' : NodeDataContainer Key Host} {hostData : NodeData Key Host}
      (hhost : container.tryGet identity = some hostData)
      (hdisallowed : (canUpdateIdentity hostData identity source).1 = .disallowed)
      (hsame : SameButFlags container container') : Prepared container identity source container' none .conflict
  | keyConflict {container' : NodeDataContainer Key Host} {keyData : NodeData Key Host}
      (hkey : container.KeyElsewhere identity keyData)
      (hdisallowed : (canUpdateIdentity keyData identity source).1 = .disallowed)
      (hsame : SameButFlags container container') : Prepared container identity source container' none .conflict
  /-- The first phase of a change of the host is a new node. -/
  | firstPhase {container' : NodeDataContainer Key Host} {keyData : NodeData Key Host}
      (hhost : container.tryGet identity = none) (hkey : container.KeyElsewhere identity keyData)
      (hallowed : (canUpdateIdentity keyData identity source).1 = .allowed)
      (hdowngrade : isSourceDowngrade keyData source = true)
      (hsame : SameButFlags container container') : Prepared container identity source container' none .allowed
  | keyRedundant {container' : NodeDataContainer Key Host} {hostData keyData : NodeData Key Host}
      (hhost : container.tryGet identity = some hostData) (hkey : container.KeyElsewhere identity keyData)
      (hallowed : (canUpdateIdentity keyData identity source).1 = .allowed)
      (hdowngrade : isSourceDowngrade keyData source = true)
      (hsame : SameButFlags container container') :
      Prepared container identity source container' (some identity) .redundant
  | migrated {container' : NodeDataContainer Key Host} {keyData : NodeData Key Host}
      (hhost : container.tryGet identity = none) (hkey : container.KeyElsewhere identity keyData)
      (hallowed : (canUpdateIdentity keyData identity source).1 = .allowed)
      (hdowngrade : isSourceDowngrade keyData source = false)
      (hsame : SameButFlags container container') :
      Prepared container identity source container' (some keyData.node.identity) .allowed
  | new {container' : NodeDataContainer Key Host} (hhost : container.tryGet identity = none)
      (hkey : container.equalityStrategy = .host → container.keyHostMap identity.publicKey = none)
      (hsame : SameButFlags container container') : Prepared container identity source container' none .allowed
  | known {container' : NodeDataContainer Key Host} {hostData : NodeData Key Host}
      (hhost : container.tryGet identity = some hostData)
      (hkey : container.equalityStrategy = .host →
        container.keyHostMap identity.publicKey = none ∨ container.keyHostMap identity.publicKey = some identity.host)
      (hsame : SameButFlags container container') :
      Prepared container identity source container' (some identity) (codeFor hostData source)
  /-- Host and key are known separately, and the node of the key is removed. -/
  | merged {container' : NodeDataContainer Key Host} {hostData keyData : NodeData Key Host}
      (hhost : container.tryGet identity = some hostData) (hkey : container.KeyElsewhere identity keyData)
      (hadmitted : (canUpdateIdentity hostData identity source).1 ≠ .disallowed)
      (hallowed : (canUpdateIdentity keyData identity source).1 = .allowed)
      (hdowngrade : isSourceDowngrade keyData source = false)
      (hsame : SameButFlags (container.erase keyData.node.identity) container') :
      Prepared container identity source container' (some identity) (codeFor hostData source)

theorem prepareSource_eq (h : container.tryGet pointer = some nodeData) :
    container.prepareSource source (some pointer) = some (container, some pointer, codeFor nodeData source) := by
  simp [prepareSource, h, codeFor]

theorem tryGet_updateFlag : (container.updateFlag pointer update source).tryGet identity =
    (container.tryGet identity).map fun nodeData =>
      if container.isAt pointer nodeData then (canUpdateIdentity nodeData update source).2 else nodeData :=
  tryGet_modify fun nodeData => by rw [canUpdateIdentity_node]

theorem codeFor_canUpdateIdentity (update : NodeIdentity Key Host) :
    codeFor (canUpdateIdentity nodeData update source).2 source = codeFor nodeData source := by
  rw [codeFor, codeFor, isSourceDowngrade, isSourceDowngrade, canUpdateIdentity_nodeInfo]

theorem prepareSource_updateFlag (h : container.tryGet identity = some nodeData) :
    (container.updateFlag pointer update source).prepareSource source (some identity) =
      some (container.updateFlag pointer update source, some identity, codeFor nodeData source) := by
  have hupdated : (container.updateFlag pointer update source).tryGet identity =
      some (if container.isAt pointer nodeData then (canUpdateIdentity nodeData update source).2 else nodeData) := by
    rw [tryGet_updateFlag, h, Option.map_some]
  rw [prepareSource_eq hupdated]
  split <;> simp only [codeFor_canUpdateIdentity]

theorem WellFormed.keyElsewhere (h : container.WellFormed) (hstrategy : container.equalityStrategy = .host)
    {host : Host} (hmapped : container.keyHostMap identity.publicKey = some host) :
    ∃ keyData, keyData.node.identity = ⟨identity.publicKey, host⟩ ∧
      container.tryGet ⟨identity.publicKey, host⟩ = some keyData ∧
        (host ≠ identity.host → container.KeyElsewhere identity keyData) := by
  obtain ⟨keyData, hmem, hidentity⟩ := List.mem_map.1 (h.mapped hstrategy identity.publicKey host hmapped)
  have hfound := h.tryGet_of_mem hmem
  refine ⟨keyData, hidentity, hidentity ▸ hfound, fun hne => ⟨hstrategy, ?_, ?_, ?_, hfound⟩⟩
  · rw [hidentity]
  · rwa [hidentity]
  · rwa [hidentity]

theorem clearFlags_erase : (container.erase pointer).clearFlags = container.clearFlags.erase pointer := by
  simp only [clearFlags, forEach, erase, List.filter_map, mk.injEq, true_and]
  exact ⟨rfl, rfl⟩

theorem SameButFlags.erase {container' : NodeDataContainer Key Host} (h : SameButFlags container container') :
    SameButFlags (container.erase pointer) (container'.erase pointer) := by
  rw [SameButFlags, clearFlags_erase, clearFlags_erase, h]

theorem sameButFlags_updateFlag (container : NodeDataContainer Key Host) (pointer update : NodeIdentity Key Host)
    (source : NodeSource) :
    SameButFlags container (container.updateFlag pointer update source) :=
  sameButFlags_modify fun _ => canUpdateIdentity_clearFlag

theorem ne_of_tryGet_eq_none (hstrategy : container.equalityStrategy = .host)
    (hhost : container.tryGet identity = none) (hmem : nodeData ∈ container.nodeMap) :
    nodeData.node.identity.host ≠ identity.host := by
  intro heq
  refine absurd ?_ (List.find?_eq_none.1 hhost nodeData hmem)
  rw [isAt_iff, hstrategy]
  simp [NodeIdentityEqualityStrategy.part, heq]

theorem prepareKey_of_equal (hfound : container.tryGet identity = some nodeData)
    (heq : nodeData.node.identity = identity) :
    container.prepareKey identity source (some identity) identity.host =
      some (container.updateFlag identity identity source, some identity, codeFor nodeData source) := by
  rw [prepareKey, show (⟨identity.publicKey, identity.host⟩ : NodeIdentity Key Host) = identity from rfl, hfound,
    Option.bind_eq_bind, Option.bind_some, canUpdateIdentity_eq_equal_iff.2 heq]
  exact prepareSource_updateFlag hfound

theorem WellFormed.prepared_of_unknown (h : container.WellFormed) (hhost : container.tryGet identity = none) :
    ∃ container' pointer code, container.prepareHost identity source none = some (container', pointer, code) ∧
      Prepared container identity source container' pointer code := by
  unfold prepareHost
  split
  next hstrategy =>
    cases hmapped : container.keyHostMap identity.publicKey with
    | none => exact ⟨container, none, .allowed, rfl, .new hhost (fun _ => hmapped) rfl⟩
    | some host =>
      obtain ⟨keyData, hidentity, hfound, helsewhere⟩ := h.keyElsewhere hstrategy hmapped
      have hne := ne_of_tryGet_eq_none hstrategy hhost (mem_of_tryGet hfound)
      have hkey := helsewhere (by simpa [hidentity] using hne)
      have hsame := sameButFlags_updateFlag container ⟨identity.publicKey, host⟩ identity source
      dsimp only
      rw [prepareKey, hfound, Option.bind_eq_bind, Option.bind_some]
      cases hresult : (canUpdateIdentity keyData identity source).1 with
      | equal => exact absurd (congrArg NodeIdentity.host (canUpdateIdentity_eq_equal_iff.1 hresult)) hne
      | disallowed => exact ⟨_, _, _, rfl, .keyConflict hkey hresult hsame⟩
      | allowed =>
        cases hdowngrade : isSourceDowngrade keyData source with
        | true => exact ⟨_, _, _, rfl, .firstPhase hhost hkey hresult hdowngrade hsame⟩
        | false =>
          refine ⟨_, _, _, prepareSource_updateFlag hfound, ?_⟩
          have hmigrated := Prepared.migrated hhost hkey hresult hdowngrade hsame
          rwa [hidentity, ← show codeFor keyData source = .allowed by simp [codeFor, hdowngrade]] at hmigrated
  next hstrategy => exact ⟨container, none, .allowed, rfl, .new hhost (fun heq => absurd heq hstrategy) rfl⟩

theorem WellFormed.prepared_of_known (h : container.WellFormed) (hhost : container.tryGet identity = some nodeData)
    (hadmitted : (canUpdateIdentity nodeData identity source).1 ≠ .disallowed) :
    ∃ container' pointer code,
      (container.updateFlag identity identity source).prepareHost identity source (some identity) =
          some (container', pointer, code) ∧
        Prepared container identity source container' pointer code := by
  have hsame := sameButFlags_updateFlag container identity identity source
  have htryGet (other : NodeIdentity Key Host) :=
    @tryGet_updateFlag Key Host _ _ container other identity identity source
  unfold prepareHost
  rw [hsame.equalityStrategy, hsame.keyHostMap]
  split
  next hstrategy =>
    cases hmapped : container.keyHostMap identity.publicKey with
    | none => exact ⟨_, _, _, prepareSource_updateFlag hhost, .known hhost (fun _ => .inl hmapped) hsame⟩
    | some host =>
      obtain ⟨keyData, hidentity, hfound, helsewhere⟩ := h.keyElsewhere hstrategy hmapped
      have hhostUpdated := htryGet identity
      rw [hhost, Option.map_some, if_pos (isAt_of_tryGet hhost)] at hhostUpdated
      dsimp only
      by_cases heq : host = identity.host
      · subst heq
        -- the node of the host has the key already
        obtain rfl : nodeData = keyData := Option.some.inj (hhost.symm.trans hfound)
        refine ⟨_, _, _, prepareKey_of_equal hhostUpdated (by rw [canUpdateIdentity_node, hidentity]), ?_⟩
        rw [codeFor_canUpdateIdentity]
        exact .known hhost (fun _ => .inr hmapped) (hsame.trans (sameButFlags_updateFlag _ _ _ _))
      · have hkey := helsewhere heq
        have hpart : container.equalityStrategy.part identity ≠
            container.equalityStrategy.part ⟨identity.publicKey, host⟩ := by
          rw [hstrategy]
          simpa [NodeIdentityEqualityStrategy.part] using fun h => heq h.symm
        have hkeyUpdated := htryGet ⟨identity.publicKey, host⟩
        rw [hfound, Option.map_some, if_neg (by rwa [isAt_iff, hidentity])] at hkeyUpdated
        have hsame' := hsame.trans (sameButFlags_updateFlag _ ⟨identity.publicKey, host⟩ identity source)
        rw [prepareKey, hkeyUpdated, Option.bind_eq_bind, Option.bind_some]
        cases hresult : (canUpdateIdentity keyData identity source).1 with
        | equal => exact absurd (congrArg NodeIdentity.host (canUpdateIdentity_eq_equal_iff.1 hresult)) hkey.host
        | disallowed => exact ⟨_, _, _, rfl, .keyConflict hkey hresult hsame'⟩
        | allowed =>
          cases hdowngrade : isSourceDowngrade keyData source with
          | true => exact ⟨_, _, _, rfl, .keyRedundant hhost hkey hresult hdowngrade hsame'⟩
          | false =>
            have herased := @SameButFlags.erase _ _ _ _ _ ⟨identity.publicKey, host⟩ _ hsame'
            rw [← hidentity] at herased
            have hmerged := Prepared.merged hhost hkey hadmitted hresult hdowngrade herased
            rw [← codeFor_canUpdateIdentity identity, hidentity] at hmerged
            refine ⟨_, _, _, prepareSource_eq ?_, hmerged⟩
            rw [tryGet_erase_of_ne, tryGet_updateFlag, hhostUpdated, Option.map_some, if_neg]
            · rw [isAt_iff, hsame.equalityStrategy, canUpdateIdentity_node]
              exact fun h => hpart ((isAt_iff.1 (isAt_of_tryGet hhost)).trans h.symm)
            · rwa [hsame'.equalityStrategy]
  next hstrategy =>
    exact ⟨_, _, _, prepareSource_updateFlag hhost, .known hhost (fun heq => absurd heq hstrategy) hsame⟩

theorem WellFormed.prepared (h : container.WellFormed) (identity : NodeIdentity Key Host) (source : NodeSource) :
    ∃ container' pointer code, container.prepareInsert identity source = some (container', pointer, code) ∧
      Prepared container identity source container' pointer code := by
  unfold prepareInsert
  cases hhost : container.tryGet identity with
  | none => exact h.prepared_of_unknown hhost
  | some nodeData =>
    dsimp only
    split
    next hresult =>
      exact ⟨_, _, _, rfl, .hostConflict hhost hresult (sameButFlags_updateFlag container identity identity source)⟩
    next hresult => exact h.prepared_of_known hhost hresult

end Entries
end NodeDataContainer
end Catapult.Ionet
