import Catapult.Ionet.NodeContainer
import Catapult.Ionet.KeyHostMap

/-!
# Runs of a node container

Every operation is made of changes that keep the invariants of the entries, so that they hold after every run. An
announcement of a known key at an unknown host, from a source that is worse than the one of the node of the key, is
the first phase of a change of its host: when the node could move, a second node with the key is inserted, and the key
still leads to the first one.
-/

namespace Catapult.Ionet
variable {Key Host : Type} [DecidableEq Key] [DecidableEq Host]

namespace NodeContainer
variable {container : NodeContainer Key Host} {strict : Prop} {node : Node Key Host} {source : NodeSource}
  {pointer : NodeIdentity Key Host} {nodeData : NodeData Key Host}
open NodeDataContainer

/-! ## Room -/

inductive EmptySlot (container : NodeContainer Key Host) : Bool → NodeContainer Key Host → Prop
  | room (h : container.nodeDataContainer.size < container.maxNodes) : EmptySlot container true container
  | full : EmptySlot container false container
  | pruned {worst : NodeData Key Host} (hmem : worst ∈ container.nodeDataContainer.nodeMap) (h : Prunable worst) :
      EmptySlot container true
        { container with nodeDataContainer := container.nodeDataContainer.erase worst.node.identity }

theorem emptySlot (container : NodeContainer Key Host) :
    EmptySlot container container.ensureAtLeastOneEmptySlot.1 container.ensureAtLeastOneEmptySlot.2 := by
  unfold ensureAtLeastOneEmptySlot
  split
  next hroom => exact .room hroom
  next =>
    cases hworst : container.nodeDataContainer.tryFindWorst with
    | none => exact .full
    | some worst => exact .pruned (prunable_of_tryFindWorst hworst).1 (prunable_of_tryFindWorst hworst).2

/-- Nothing is removed, or an inactive node of a dynamic source is. -/
def EvictsOnlyInactive (container : NodeContainer Key Host) : Prop :=
  container.ensureAtLeastOneEmptySlot.2.nodeDataContainer = container.nodeDataContainer ∨
    ∃ worst ∈ container.nodeDataContainer.nodeMap,
      (worst.nodeInfo.source.value ≤ NodeSource.dynamic.value ∧ worst.nodeInfo.hasActiveConnection = false) ∧
        ∀ other, other ∈ container.ensureAtLeastOneEmptySlot.2.nodeDataContainer.nodeMap ↔
          other ∈ container.nodeDataContainer.nodeMap ∧ other ≠ worst

theorem evictsOnlyInactive (h : container.nodeDataContainer.WellFormed) : container.EvictsOnlyInactive := by
  have hslot := emptySlot container
  unfold EvictsOnlyInactive
  generalize container.ensureAtLeastOneEmptySlot = slot at hslot ⊢
  obtain ⟨ok, after⟩ := slot
  cases hslot with
  | room => exact .inl rfl
  | full => exact .inl rfl
  | @pruned worst hmem hprunable => exact .inr ⟨worst, hmem, hprunable, fun other => h.mem_erase hmem⟩

/-! ## Changes of an operation -/

structure Changes (strict : Prop) (container container' : NodeContainer Key Host) : Prop where
  maxNodes : container'.maxNodes = container.maxNodes
  entries : Relation.ReflTransGen (Change container.maxNodes strict) container.nodeDataContainer
    container'.nodeDataContainer

omit [DecidableEq Key] [DecidableEq Host] in
theorem autoProvisionConnectionStates_node (nodeData : NodeData Key Host) :
    (container.autoProvisionConnectionStates nodeData).node = nodeData.node := by
  unfold autoProvisionConnectionStates
  apply List.foldlRecOn (motive := fun provisioned : NodeData Key Host => provisioned.node = nodeData.node)
  · rfl
  · intro provisioned h pair _
    rw [← h, provisionIfMatch]
    split <;> rfl

theorem addNew_changes (h : container.nodeDataContainer.size ≤ container.maxNodes)
    (hfresh : container.nodeDataContainer.tryGet node.identity = none)
    (hunmapped : strict → container.nodeDataContainer.equalityStrategy = .host →
      container.nodeDataContainer.keyHostMap node.identity.publicKey = none) :
    Changes strict container (container.addNew node source).2 := by
  have hslot := emptySlot container
  unfold addNew
  generalize container.ensureAtLeastOneEmptySlot = slot at hslot ⊢
  obtain ⟨ok, after⟩ := slot
  cases hslot with
  | full => exact ⟨rfl, .refl⟩
  | room hroom =>
    refine ⟨rfl, .tail (.single (.insert hfresh hroom hunmapped))
      (.same (sameIdentities_modify fun nodeData _ _ => ?_))⟩
    rw [autoProvisionConnectionStates_node]
  | @pruned worst hmem hprunable =>
    have hmem' : worst.node.identity ∈ container.nodeDataContainer.identities := List.mem_map_of_mem hmem
    refine ⟨rfl, .tail (.tail (.single (.erase hmem')) (.insert ?_ ?_ ?_))
      (.same (sameIdentities_modify fun nodeData _ _ => ?_))⟩
    · exact tryGet_erase_eq_none hfresh
    · exact Nat.lt_of_lt_of_le (size_erase_lt hmem') h
    · exact fun hstrict hstrategy => keyHostMap_erase_eq_none (hunmapped hstrict hstrategy)
    · rw [autoProvisionConnectionStates_node]

theorem updateNode_changes (container : NodeContainer Key Host) (strict : Prop) (source : NodeSource)
    (h : container.nodeDataContainer.WellFormed)
    (hsize : container.nodeDataContainer.size ≤ container.maxNodes)
    (hget : container.nodeDataContainer.tryGet pointer = some nodeData)
    (hfresh : nodeData.node.identity ≠ node.identity →
      (container.nodeDataContainer.erase nodeData.node.identity).tryGet node.identity = none)
    (hunmapped : nodeData.node.identity ≠ node.identity → container.nodeDataContainer.equalityStrategy = .host →
      (container.nodeDataContainer.erase nodeData.node.identity).keyHostMap node.identity.publicKey = none) :
    ∃ container', container.updateNode pointer node source = some container' ∧ Changes strict container container' := by
  rw [updateNode, hget, Option.bind_eq_bind, Option.bind_some]
  refine ⟨_, rfl, rfl, .tail ?_ (.same (sameIdentities_modify fun _ _ _ => ?_))⟩
  · split
    next hne =>
      rw [Bool.not_eq_true', Bool.eq_false_iff, ne_eq, nodeIdentityEquality_strict] at hne
      have hmem : nodeData.node.identity ∈ container.nodeDataContainer.identities :=
        List.mem_map_of_mem (mem_of_tryGet hget)
      refine .tail (.single (.erase hmem)) (.insert (hfresh hne) ?_ fun _ => hunmapped hne)
      exact Nat.lt_of_lt_of_le (size_erase_lt hmem) hsize
    next heq =>
      rw [Bool.not_eq_true, Bool.not_eq_false', nodeIdentityEquality_strict] at heq
      refine .single (.same (sameIdentities_modify fun other hmem hat => ?_))
      -- there is one node at the pointer
      have hpart := (isAt_iff.1 (isAt_of_tryGet hget)).symm.trans (isAt_iff.1 hat)
      rw [← h.eq_of_part_eq (mem_of_tryGet hget) hmem hpart, heq]
  · rw [autoProvisionConnectionStates_node]

/-- A known key is announced at an unknown host, by a source that is worse than the one of the node of the key. The node
could move, as it is not the local node and has no active connection. -/
def FirstPhase (container : NodeDataContainer Key Host) (identity : NodeIdentity Key Host) (source : NodeSource) :
    Prop :=
  container.tryGet identity = none ∧ ∃ keyData, container.KeyElsewhere identity keyData ∧
    keyData.nodeInfo.source ≠ .localNode ∧ keyData.nodeInfo.hasActiveConnection = false ∧
      isSourceDowngrade keyData source = true

theorem firstPhase_of_allowed {dataContainer : NodeDataContainer Key Host} {identity : NodeIdentity Key Host}
    (hhost : dataContainer.tryGet identity = none) (hkey : dataContainer.KeyElsewhere identity nodeData)
    (hallowed : (canUpdateIdentity nodeData identity source).1 = .allowed)
    (hdowngrade : isSourceDowngrade nodeData source = true) : FirstPhase dataContainer identity source := by
  obtain ⟨-, hlocal, hactive⟩ := canUpdateIdentity_eq_allowed_iff.1 hallowed
  refine ⟨hhost, nodeData, hkey, hlocal, ?_, hdowngrade⟩
  rw [Bool.eq_false_iff]
  intro hconnected
  rw [hdowngrade] at hactive
  cases (hactive hconnected).2

theorem Changes.head {container' : NodeContainer Key Host} {dataContainer : NodeDataContainer Key Host}
    (hentries : Relation.ReflTransGen (Change container.maxNodes strict) container.nodeDataContainer dataContainer)
    (h : Changes strict { container with nodeDataContainer := dataContainer } container') :
    Changes strict container container' :=
  ⟨h.maxNodes, hentries.trans h.entries⟩

section Add
variable {dataContainer : NodeDataContainer Key Host}

theorem updateHost_changes (container : NodeContainer Key Host) (strict : Prop) {hostData : NodeData Key Host}
    {hostIdentity : NodeIdentity Key Host}
    (h : dataContainer.WellFormed) (hsize : dataContainer.size ≤ container.maxNodes)
    (hmem : hostIdentity ∈ dataContainer.identities)
    (hpart : dataContainer.equalityStrategy.part node.identity = dataContainer.equalityStrategy.part hostIdentity)
    (hunmapped : hostIdentity ≠ node.identity → dataContainer.equalityStrategy = .host →
      dataContainer.keyHostMap node.identity.publicKey = none) :
    ∃ ok container', (if codeFor hostData source ≠ .allowed then
          some (decide (codeFor hostData source ≠ .conflict), { container with nodeDataContainer := dataContainer })
        else do
          return (true, ← { container with nodeDataContainer := dataContainer }.updateNode node.identity node source)) =
      some (ok, container') ∧ Changes strict { container with nodeDataContainer := dataContainer } container' := by
  split
  next => exact ⟨_, _, rfl, rfl, .refl⟩
  next =>
    obtain ⟨nodeData, hget, rfl⟩ := h.exists_tryGet hmem hpart
    obtain ⟨container', hupdate, hchanges⟩ := updateNode_changes { container with nodeDataContainer := dataContainer }
      strict source h hsize hget (fun _ => tryGet_erase_self hpart)
      fun hne hstrategy => keyHostMap_erase_eq_none (hunmapped hne hstrategy)
    exact ⟨true, container', by rw [hupdate]; rfl, hchanges⟩

theorem updateKey_changes (container : NodeContainer Key Host) (strict : Prop) (source : NodeSource)
    {keyIdentity : NodeIdentity Key Host} (h : dataContainer.WellFormed)
    (hsize : dataContainer.size ≤ container.maxNodes) (hmem : keyIdentity ∈ dataContainer.identities)
    (hfresh : dataContainer.tryGet node.identity = none) (hkey : keyIdentity.publicKey = node.identity.publicKey) :
    ∃ container', { container with nodeDataContainer := dataContainer }.updateNode keyIdentity node source =
        some container' ∧ Changes strict { container with nodeDataContainer := dataContainer } container' := by
  obtain ⟨keyData, hget, rfl⟩ := h.exists_tryGet hmem rfl
  refine updateNode_changes { container with nodeDataContainer := dataContainer } strict source h hsize hget
    (fun _ => tryGet_erase_eq_none hfresh) fun _ hstrategy => ?_
  rw [← hkey]
  exact keyHostMap_erase_self hstrategy

theorem add_changes (h : container.nodeDataContainer.WellFormed)
    (hsize : container.nodeDataContainer.size ≤ container.maxNodes) (isBanned : NodeIdentity Key Host → Bool) :
    ∃ ok container', container.add isBanned node source = some (ok, container') ∧
      Changes (¬FirstPhase container.nodeDataContainer node.identity source) container container' := by
  unfold add
  split
  · exact ⟨_, _, rfl, rfl, .refl⟩
  split
  · exact ⟨_, _, rfl, rfl, .refl⟩
  obtain ⟨dataContainer, pointer, code, hprepare, hprepared⟩ := h.prepared node.identity source
  rw [hprepare, Option.bind_eq_bind, Option.bind_some]
  cases hprepared with
  | hostConflict _ _ hsame | keyConflict _ _ hsame | keyRedundant _ _ _ _ hsame =>
    exact ⟨_, _, rfl, rfl, .single (.same hsame.sameIdentities)⟩
  | firstPhase hhost hkey hallowed hdowngrade hsame =>
    refine ⟨_, _, rfl, .head (.single (.same hsame.sameIdentities)) (addNew_changes ?_ ?_ fun hstrict => ?_)⟩
    · rwa [hsame.sameIdentities.size_eq]
    · exact hsame.sameIdentities.tryGet_eq_none hhost
    · exact absurd (firstPhase_of_allowed hhost hkey hallowed hdowngrade) hstrict
  | new hhost hkey hsame =>
    refine ⟨_, _, rfl, .head (.single (.same hsame.sameIdentities)) (addNew_changes ?_ ?_ fun _ hstrategy => ?_)⟩
    · rwa [hsame.sameIdentities.size_eq]
    · exact hsame.sameIdentities.tryGet_eq_none hhost
    · rw [hsame.keyHostMap, hkey (hsame.equalityStrategy.symm.trans hstrategy)]
  | @migrated keyData hhost hkey hallowed hdowngrade hsame =>
    have hmem : keyData.node.identity ∈ dataContainer.identities := by
      rw [hsame.identities]
      exact List.mem_map_of_mem (mem_of_tryGet hkey.found)
    obtain ⟨container', hupdate, hchanges⟩ := updateKey_changes container _ source
      (h.same hsame.sameIdentities) (hsame.sameIdentities.size_eq ▸ hsize) hmem
      (hsame.sameIdentities.tryGet_eq_none hhost) hkey.publicKey
    exact ⟨true, container', by simp [hupdate], .head (.single (.same hsame.sameIdentities)) hchanges⟩
  | @known hostData hhost hkey hsame =>
    have hmem : hostData.node.identity ∈ container.nodeDataContainer.identities :=
      List.mem_map_of_mem (mem_of_tryGet hhost)
    have hpart := isAt_iff.1 (isAt_of_tryGet hhost)
    obtain ⟨ok, container', hupdate, hchanges⟩ := updateHost_changes container _
      (h.same hsame.sameIdentities) (hsame.sameIdentities.size_eq ▸ hsize) (hsame.identities ▸ hmem)
      (hsame.equalityStrategy ▸ hpart) fun hne hstrategy => by
        rw [hsame.keyHostMap]
        rw [hsame.equalityStrategy] at hstrategy
        refine (hkey hstrategy).resolve_right fun hmapped => hne ?_
        exact h.part_injective hmem (h.mapped hstrategy _ _ hmapped) hpart.symm
    exact ⟨ok, container', hupdate, .head (.single (.same hsame.sameIdentities)) hchanges⟩
  | @merged hostData keyData hhost hkey hadmitted hallowed hdowngrade hsame =>
    have hkeyMem : keyData.node.identity ∈ container.nodeDataContainer.identities :=
      List.mem_map_of_mem (mem_of_tryGet hkey.found)
    have hpart := isAt_iff.1 (isAt_of_tryGet hhost)
    have hmem : hostData.node.identity ∈ (container.nodeDataContainer.erase keyData.node.identity).identities := by
      rw [identities_erase, List.mem_filter]
      refine ⟨List.mem_map_of_mem (mem_of_tryGet hhost), ?_⟩
      rw [Bool.not_eq_true', Bool.eq_false_iff, ne_eq, nodeIdentityEquality_iff, ← hpart, hkey.strategy]
      exact fun heq => hkey.host (Option.some.inj (congrArg Prod.snd heq))
    have hentries : Relation.ReflTransGen
        (Change container.maxNodes (¬FirstPhase container.nodeDataContainer node.identity source))
        container.nodeDataContainer dataContainer :=
      .tail (.single (.erase hkeyMem)) (.same hsame.sameIdentities)
    obtain ⟨ok, container', hupdate, hchanges⟩ := updateHost_changes container _
      (WellFormed.changes hentries h) (size_le_of_changes hentries hsize) (hsame.identities ▸ hmem)
      (hsame.equalityStrategy ▸ hpart) fun hne hstrategy => by
        rw [hsame.keyHostMap, ← hkey.publicKey]
        exact keyHostMap_erase_self hkey.strategy
    exact ⟨ok, container', hupdate, .head hentries hchanges⟩

end Add

/-! ## Runs -/

def Strict (container : NodeContainer Key Host) : Operation Key Host → Prop
  | .add _ node source => ¬FirstPhase container.nodeDataContainer node.identity source
  | _ => True

theorem forEach_changes {consumer : NodeData Key Host → NodeData Key Host}
    (h : ∀ nodeData, (consumer nodeData).node = nodeData.node) :
    Changes strict container (container.forEach consumer) :=
  ⟨rfl, .single (.same (sameIdentities_forEach fun nodeData => by rw [h]))⟩

theorem apply_changes (h : container.nodeDataContainer.WellFormed)
    (hsize : container.nodeDataContainer.size ≤ container.maxNodes) (operation : Operation Key Host) :
    ∃ container', container.apply operation = some container' ∧
      Changes (container.Strict operation) container container' := by
  cases operation with
  | add isBanned node source =>
    obtain ⟨ok, container', hadd, hchanges⟩ := @add_changes _ _ _ _ container node source h hsize isBanned
    exact ⟨container', by rw [apply, hadd]; rfl, hchanges⟩
  | addConnectionStates serviceId role =>
    refine ⟨_, rfl, rfl, .single (.same (sameIdentities_forEach fun nodeData => ?_))⟩
    rw [provisionIfMatch]
    split <;> rfl
  | provisionConnectionState serviceId identity change =>
    exact ⟨_, rfl, rfl, .single (.same (sameIdentities_modify fun _ _ _ => rfl))⟩
  | ageConnections serviceId identities => exact ⟨_, rfl, forEach_changes fun _ => rfl⟩
  | ageConnectionBans serviceId maxConnectionBanAge numConsecutiveFailuresBeforeBanning =>
    exact ⟨_, rfl, forEach_changes fun _ => rfl⟩

def FirstPhaseFree (container : NodeContainer Key Host) : List (Operation Key Host) → Prop
  | [] => True
  | operation :: operations =>
    container.Strict operation ∧
      ∀ container', container.apply operation = some container' → container'.FirstPhaseFree operations

structure Sound (container : NodeContainer Key Host) : Prop where
  wellFormed : container.nodeDataContainer.WellFormed
  size_le : container.nodeDataContainer.size ≤ container.maxNodes

theorem Sound.changes {container' : NodeContainer Key Host} (h : container.Sound)
    (hchanges : Changes strict container container') : container'.Sound :=
  ⟨h.wellFormed.changes hchanges.entries, hchanges.maxNodes ▸ size_le_of_changes hchanges.entries h.size_le⟩

omit [DecidableEq Key] [DecidableEq Host] in
theorem sound_create (maxNodes : Nat) (strategy : NodeIdentityEqualityStrategy)
    (versionPredicate : NodeVersion → Bool) :
    (create maxNodes strategy versionPredicate : NodeContainer Key Host).Sound :=
  ⟨⟨List.nodup_nil, fun _ _ _ hmapped => nomatch hmapped⟩, Nat.zero_le _⟩

theorem Sound.run (h : container.Sound) (operations : List (Operation Key Host)) :
    ∃ container', container.run operations = some container' ∧ container'.Sound ∧
      container'.maxNodes = container.maxNodes ∧
      container'.nodeDataContainer.equalityStrategy = container.nodeDataContainer.equalityStrategy ∧
      (container.FirstPhaseFree operations → container.nodeDataContainer.KeysMapped →
        container'.nodeDataContainer.KeysMapped) := by
  induction operations generalizing container with
  | nil => exact ⟨container, rfl, h, rfl, rfl, fun _ hkeys => hkeys⟩
  | cons operation operations ih =>
    obtain ⟨next, hnext, hchanges⟩ := apply_changes h.wellFormed h.size_le operation
    obtain ⟨container', hrun, hsound, hmax, hstrategy, hkeys⟩ := ih (h.changes hchanges)
    refine ⟨container', ?_, hsound, hmax.trans hchanges.maxNodes, hstrategy.trans ?_, fun hfree hmapped => ?_⟩
    · rw [NodeContainer.run, List.foldlM_cons, hnext]
      exact hrun
    · exact equalityStrategy_of_changes hchanges.entries
    · exact hkeys (hfree.2 next hnext) (hmapped.changes hchanges.entries hfree.1)

theorem run_oneToOne (maxNodes : Nat) (versionPredicate : NodeVersion → Bool)
    (operations : List (Operation Key Host)) :
    ∃ container, (create maxNodes .host versionPredicate).run operations = some container ∧
      (container.nodeDataContainer.identities.map NodeIdentity.host).Nodup ∧
      (∀ key host, container.nodeDataContainer.keyHostMap key = some host →
        ⟨key, host⟩ ∈ container.nodeDataContainer.identities) ∧
      (∀ identity source, (container.nodeDataContainer.prepareInsert identity source).isSome = true) ∧
      container.nodeDataContainer.size ≤ maxNodes ∧
      (∀ identity source nodeDataContainer,
        container.nodeDataContainer.prepareInsert identity source = some (nodeDataContainer, none, .allowed) →
          { container with nodeDataContainer }.EvictsOnlyInactive) ∧
      ((create maxNodes .host versionPredicate).FirstPhaseFree operations → container.nodeDataContainer.OneToOne) := by
  obtain ⟨container, hrun, hsound, hmax, hstrategy, hkeys⟩ :=
    (sound_create maxNodes .host versionPredicate).run operations
  change container.nodeDataContainer.equalityStrategy = .host at hstrategy
  refine ⟨container, hrun, ?_, hsound.wellFormed.mapped hstrategy, fun identity source => ?_,
    Nat.le_trans hsound.size_le (Nat.le_of_eq hmax), fun identity source nodeDataContainer hprepare => ?_,
    fun hfree => ?_⟩
  · exact hsound.wellFormed.hosts_nodup hstrategy
  · obtain ⟨_, _, _, hprepare, -⟩ := hsound.wellFormed.prepared identity source
    rw [hprepare]
    rfl
  · obtain ⟨_, _, _, hprepare', hprepared⟩ := hsound.wellFormed.prepared identity source
    cases hprepare'.symm.trans hprepare
    exact evictsOnlyInactive (hsound.wellFormed.of_prepared hprepared)
  · exact hsound.wellFormed.oneToOne (hkeys hfree fun _ _ hmem => nomatch hmem) hstrategy

def sampleFirstPhase : List (Operation Nat Nat) :=
  [.add (fun _ => false) ⟨⟨1, 1⟩, 1, 0⟩ .static, .add (fun _ => false) ⟨⟨1, 2⟩, 0, 0⟩ .dynamicIncoming]

/-- Both nodes have the key after the first phase, and it leads to the first one. -/
theorem not_oneToOne_sample : ∃ container : NodeContainer Nat Nat,
    (create 10 .host fun _ => true).run sampleFirstPhase = some container ∧
      container.nodeDataContainer.identities = [⟨1, 1⟩, ⟨1, 2⟩] ∧ container.nodeDataContainer.keyHostMap 1 = some 1 ∧
        ¬container.nodeDataContainer.OneToOne := by
  refine ⟨_, rfl, rfl, rfl, fun h => ?_⟩
  exact absurd h.publicKeys (by decide)

/-! ## Announcements that are not taken over -/

theorem keyElsewhere_unique {dataContainer : NodeDataContainer Key Host} {identity : NodeIdentity Key Host}
    {nodeData' : NodeData Key Host} (h : dataContainer.KeyElsewhere identity nodeData)
    (h' : dataContainer.KeyElsewhere identity nodeData') : nodeData' = nodeData := by
  have hidentity : nodeData'.node.identity = nodeData.node.identity := by
    have hkey := h'.publicKey.trans h.publicKey.symm
    have hhost := Option.some.inj (h'.mapped.symm.trans h.mapped)
    cases hidentity' : nodeData'.node.identity
    cases hidentity : nodeData.node.identity
    simp_all
  exact Option.some.inj (h'.found.symm.trans (hidentity ▸ h.found))

/-- Host and key are known separately. The node of the key is removed for an update of the node of the host, which is
not done, because its source is better. -/
def LosesKey (container : NodeDataContainer Key Host) (identity : NodeIdentity Key Host) (source : NodeSource) : Prop :=
  ∃ hostData keyData, container.tryGet identity = some hostData ∧ container.KeyElsewhere identity keyData ∧
    (hostData.node.identity = identity ∨
      hostData.nodeInfo.source ≠ .localNode ∧ hostData.nodeInfo.hasActiveConnection = false) ∧
    keyData.nodeInfo.source ≠ .localNode ∧
    (keyData.nodeInfo.hasActiveConnection = true → keyData.hasIdentityUpdateInProgress = true) ∧
    isSourceDowngrade keyData source = false ∧ isSourceDowngrade hostData source = true

section Announcement
variable {dataContainer : NodeDataContainer Key Host} {identity : NodeIdentity Key Host}
  {hostData keyData : NodeData Key Host}

theorem LosesKey.admitted (h : LosesKey dataContainer identity source)
    (hhost : dataContainer.tryGet identity = some hostData) :
    (canUpdateIdentity hostData identity source).1 ≠ .disallowed := by
  obtain ⟨hostData', keyData, hhost', -, hadmitted, -⟩ := h
  cases hhost.symm.trans hhost'
  rcases hadmitted with heq | ⟨hlocal, hinactive⟩
  · rw [canUpdateIdentity_eq_equal_iff.2 heq]
    decide
  · by_cases heq : hostData.node.identity = identity
    · rw [canUpdateIdentity_eq_equal_iff.2 heq]
      decide
    · rw [canUpdateIdentity_eq_allowed_iff.2 ⟨heq, hlocal, fun hactive => by rw [hinactive] at hactive; cases hactive⟩]
      decide

theorem LosesKey.allowed (h : LosesKey dataContainer identity source)
    (hkey : dataContainer.KeyElsewhere identity keyData) :
    (canUpdateIdentity keyData identity source).1 = .allowed ∧ isSourceDowngrade keyData source = false := by
  obtain ⟨hostData, keyData', -, hkey', -, hlocal, hflag, hdowngrade, -⟩ := h
  obtain rfl := keyElsewhere_unique hkey hkey'
  have hne : keyData'.node.identity ≠ identity := fun heq => hkey.host (congrArg NodeIdentity.host heq)
  exact ⟨canUpdateIdentity_eq_allowed_iff.2 ⟨hne, hlocal, fun h => ⟨hflag h, hdowngrade⟩⟩, hdowngrade⟩

theorem losesKey_of_admitted (hhost : dataContainer.tryGet identity = some hostData)
    (hkey : dataContainer.KeyElsewhere identity keyData)
    (hadmitted : (canUpdateIdentity hostData identity source).1 ≠ .disallowed)
    (hallowed : (canUpdateIdentity keyData identity source).1 = .allowed)
    (hdowngrade : isSourceDowngrade keyData source = false) (hworse : isSourceDowngrade hostData source = true) :
    LosesKey dataContainer identity source := by
  obtain ⟨-, hlocal, hactive⟩ := canUpdateIdentity_eq_allowed_iff.1 hallowed
  refine ⟨hostData, keyData, hhost, hkey, ?_, hlocal, fun h => (hactive h).1, hdowngrade, hworse⟩
  cases hresult : (canUpdateIdentity hostData identity source).1 with
  | equal => exact .inl (canUpdateIdentity_eq_equal_iff.1 hresult)
  | disallowed => exact absurd hresult hadmitted
  | allowed =>
    obtain ⟨-, hlocal, hactive⟩ := canUpdateIdentity_eq_allowed_iff.1 hresult
    refine .inr ⟨hlocal, Bool.eq_false_iff.2 fun h => ?_⟩
    rw [hworse] at hactive
    cases (hactive h).2

/-- An announcement that is not taken over leaves nodes and keys as they are, unless it removes the node of the key. -/
theorem prepareInsert_same_iff {maxNodes : Nat} {strategy : NodeIdentityEqualityStrategy}
    {versionPredicate : NodeVersion → Bool} {operations : List (Operation Key Host)}
    (hrun : (create maxNodes strategy versionPredicate).run operations = some container)
    (identity : NodeIdentity Key Host) (source : NodeSource) :
    ∃ nodeDataContainer pointer code,
      container.nodeDataContainer.prepareInsert identity source = some (nodeDataContainer, pointer, code) ∧
        (code ≠ .allowed → (SameButFlags container.nodeDataContainer nodeDataContainer ↔
          ¬LosesKey container.nodeDataContainer identity source)) := by
  obtain ⟨container', hrun', hsound, -⟩ := (sound_create maxNodes strategy versionPredicate).run operations
  cases hrun.symm.trans hrun'
  obtain ⟨nodeDataContainer, pointer, code, hprepare, hprepared⟩ := hsound.wellFormed.prepared identity source
  refine ⟨nodeDataContainer, pointer, code, hprepare, fun hcode => ?_⟩
  cases hprepared with
  | hostConflict hhost hdisallowed hsame => exact iff_of_true hsame fun hloses => hloses.admitted hhost hdisallowed
  | keyConflict hkey hdisallowed hsame =>
    refine iff_of_true hsame fun hloses => ?_
    rw [(hloses.allowed hkey).1] at hdisallowed
    cases hdisallowed
  | keyRedundant hhost hkey hallowed hdowngrade hsame =>
    refine iff_of_true hsame fun hloses => ?_
    rw [(hloses.allowed hkey).2] at hdowngrade
    cases hdowngrade
  | firstPhase | migrated | new => exact absurd rfl hcode
  | known hhost hkey hsame =>
    refine iff_of_true hsame fun ⟨_, keyData, _, helsewhere, _⟩ => ?_
    rcases hkey helsewhere.strategy with hnone | hsome
    · cases hnone.symm.trans helsewhere.mapped
    · exact helsewhere.host (Option.some.inj (helsewhere.mapped.symm.trans hsome))
  | @merged hostData keyData hhost hkey hadmitted hallowed hdowngrade hsame =>
    refine iff_of_false (fun hsame' => ?_) (not_not_intro ?_)
    · have hmapped := (congrFun hsame'.keyHostMap _).trans hkey.mapped
      rw [hsame.keyHostMap, ← hkey.publicKey, keyHostMap_erase_self hkey.strategy] at hmapped
      cases hmapped
    · refine losesKey_of_admitted hhost hkey hadmitted hallowed hdowngrade ?_
      by_contra hbetter
      exact hcode (if_neg hbetter)

end Announcement

def sampleNodes : List (Operation Nat Nat) :=
  [.add (fun _ => false) ⟨⟨1, 1⟩, 1, 0⟩ .static, .add (fun _ => false) ⟨⟨2, 2⟩, 1, 0⟩ .dynamic]

/-- Key 2 is announced at host 1, and the answer is that the announcement is redundant. -/
theorem not_sameButFlags_sample : ∃ (container : NodeContainer Nat Nat) (nodeDataContainer : NodeDataContainer Nat Nat),
    (create 10 .host fun _ => true).run sampleNodes = some container ∧
      container.nodeDataContainer.prepareInsert ⟨2, 1⟩ .dynamic =
          some (nodeDataContainer, some ⟨2, 1⟩, .redundant) ∧
        container.nodeDataContainer.identities = [⟨1, 1⟩, ⟨2, 2⟩] ∧ nodeDataContainer.identities = [⟨1, 1⟩] ∧
          ¬SameButFlags container.nodeDataContainer nodeDataContainer := by
  refine ⟨_, _, rfl, rfl, rfl, rfl, fun h => ?_⟩
  exact absurd h.identities (by decide)

theorem prepareInsert_same_sample : ∃ (container : NodeContainer Nat Nat)
    (nodeDataContainer : NodeDataContainer Nat Nat) (pointer : Option (NodeIdentity Nat Nat))
    (code : PrepareInsertCode),
    (create 10 .host fun _ => true).run sampleNodes = some container ∧
      container.nodeDataContainer.prepareInsert ⟨1, 1⟩ .dynamic = some (nodeDataContainer, pointer, code) ∧
        (code ≠ .allowed → (SameButFlags container.nodeDataContainer nodeDataContainer ↔
          ¬LosesKey container.nodeDataContainer ⟨1, 1⟩ .dynamic)) := by
  obtain ⟨nodeDataContainer, pointer, code, hsame⟩ :=
    prepareInsert_same_iff (rfl : (create 10 .host fun _ => true).run sampleNodes = some _) ⟨1, 1⟩ .dynamic
  exact ⟨_, nodeDataContainer, pointer, code, rfl, hsame⟩

end NodeContainer
end Catapult.Ionet
