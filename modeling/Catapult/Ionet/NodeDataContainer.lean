import Mathlib.Data.List.Nodup

/-!
# Nodes by identity

A node has an identity of a public key and a host, and an equality strategy says which of the two tell nodes apart.
The container has one entry for an identity. When hosts tell nodes apart, a second map leads from a public key to its
host. Preparing an insertion decides what becomes of a node whose host or whose key is known already, which can take
two announcements (phases) when the first one comes from a worse source.
-/

namespace Catapult.Ionet

structure NodeIdentity (Key Host : Type) where
  publicKey : Key
  host : Host
  deriving DecidableEq

inductive NodeIdentityEqualityStrategy where
  | key
  | host
  | keyAndHost
  deriving DecidableEq

inductive NodeSource where
  | dynamicIncoming
  | dynamic
  | static
  | localNode
  deriving DecidableEq

def NodeSource.value : NodeSource → Nat
  | dynamicIncoming => 0
  | dynamic => 1
  | static => 2
  | localNode => 3

abbrev ServiceIdentifier := UInt32
abbrev NodeRoles := UInt32
abbrev NodeVersion := UInt32

structure ConnectionState where
  age : UInt32
  numConsecutiveFailures : UInt32
  banAge : UInt32
  deriving DecidableEq

def ConnectionState.zero : ConnectionState := ⟨0, 0, 0⟩

structure NodeInfo where
  source : NodeSource
  connectionStates : List (ServiceIdentifier × ConnectionState)
  deriving DecidableEq

namespace NodeInfo

def hasActiveConnection (info : NodeInfo) : Bool := info.connectionStates.any fun pair => pair.2.age ≠ 0

def modifyFirst (serviceId : ServiceIdentifier) (change : ConnectionState → ConnectionState) :
    List (ServiceIdentifier × ConnectionState) → List (ServiceIdentifier × ConnectionState)
  | [] => []
  | (id, state) :: states =>
    if serviceId = id then (id, change state) :: states else (id, state) :: modifyFirst serviceId change states

/-- The caller changes the state that it gets. -/
def provisionConnectionState (info : NodeInfo) (serviceId : ServiceIdentifier)
    (change : ConnectionState → ConnectionState) : NodeInfo :=
  if info.connectionStates.any fun pair => serviceId = pair.1 then
    { info with connectionStates := modifyFirst serviceId change info.connectionStates }
  else { info with connectionStates := info.connectionStates ++ [(serviceId, change .zero)] }

def clearAge (info : NodeInfo) (serviceId : ServiceIdentifier) : NodeInfo :=
  { info with
    connectionStates := modifyFirst serviceId (fun state => { state with age := 0 }) info.connectionStates }

def updateBan (info : NodeInfo) (serviceId : ServiceIdentifier)
    (maxConnectionBanAge numConsecutiveFailuresBeforeBanning : UInt32) : NodeInfo :=
  { info with
    connectionStates := modifyFirst serviceId (fun state =>
      let failures := if state.banAge = maxConnectionBanAge then 0 else state.numConsecutiveFailures
      ⟨state.age, failures, if numConsecutiveFailuresBeforeBanning ≤ failures then state.banAge + 1 else 0⟩)
      info.connectionStates }

end NodeInfo

variable {Key Host : Type}

structure Node (Key Host : Type) where
  identity : NodeIdentity Key Host
  version : NodeVersion
  roles : NodeRoles
  deriving DecidableEq

structure NodeData (Key Host : Type) where
  node : Node Key Host
  nodeInfo : NodeInfo
  nodeId : Nat
  hasIdentityUpdateInProgress : Bool
  deriving DecidableEq

section Identity
variable [DecidableEq Key] [DecidableEq Host]

def nodeIdentityEquality (strategy : NodeIdentityEqualityStrategy) (lhs rhs : NodeIdentity Key Host) : Bool :=
  match strategy with
  | .key => lhs.publicKey = rhs.publicKey
  | .host => lhs.host = rhs.host
  | .keyAndHost => lhs.publicKey = rhs.publicKey && lhs.host = rhs.host

inductive CanUpdateIdentityResult where
  | equal
  | allowed
  | disallowed
  deriving DecidableEq

def isSourceDowngrade (nodeData : NodeData Key Host) (source : NodeSource) : Bool :=
  source.value < nodeData.nodeInfo.source.value

def canUpdateIdentity (nodeData : NodeData Key Host) (newIdentity : NodeIdentity Key Host) (newSource : NodeSource) :
    CanUpdateIdentityResult × NodeData Key Host :=
  if nodeIdentityEquality .keyAndHost newIdentity nodeData.node.identity then (.equal, nodeData)
  else if nodeData.nodeInfo.source = .localNode then (.disallowed, nodeData)
  else if !nodeData.nodeInfo.hasActiveConnection then
    -- a downgrade allows the next update
    (.allowed, if isSourceDowngrade nodeData newSource then { nodeData with hasIdentityUpdateInProgress := true }
      else nodeData)
  else
    (if nodeData.hasIdentityUpdateInProgress && !isSourceDowngrade nodeData newSource then .allowed else .disallowed,
      { nodeData with hasIdentityUpdateInProgress := false })

structure NodeDataContainer (Key Host : Type) where
  equalityStrategy : NodeIdentityEqualityStrategy
  nodeMap : List (NodeData Key Host)
  keyHostMap : Key → Option Host

inductive PrepareInsertCode where
  | conflict
  | redundant
  | allowed
  deriving DecidableEq

namespace NodeDataContainer

def empty (equalityStrategy : NodeIdentityEqualityStrategy) : NodeDataContainer Key Host :=
  ⟨equalityStrategy, [], fun _ => none⟩

variable (container : NodeDataContainer Key Host)

def size : Nat := container.nodeMap.length

def isAt (identity : NodeIdentity Key Host) (nodeData : NodeData Key Host) : Bool :=
  nodeIdentityEquality container.equalityStrategy identity nodeData.node.identity

def tryGet (identity : NodeIdentity Key Host) : Option (NodeData Key Host) :=
  container.nodeMap.find? (container.isAt identity)

def forEach (consumer : NodeData Key Host → NodeData Key Host) : NodeDataContainer Key Host :=
  { container with nodeMap := container.nodeMap.map consumer }

/-- The change of an entry through a pointer to it. -/
def modify (identity : NodeIdentity Key Host) (change : NodeData Key Host → NodeData Key Host) :
    NodeDataContainer Key Host :=
  container.forEach fun nodeData => if container.isAt identity nodeData then change nodeData else nodeData

/-- The flag of an entry after its identity was tested. -/
def updateFlag (pointer identity : NodeIdentity Key Host) (source : NodeSource) : NodeDataContainer Key Host :=
  container.modify pointer fun nodeData => (canUpdateIdentity nodeData identity source).2

def insert (nodeData : NodeData Key Host) : NodeDataContainer Key Host :=
  let identity := nodeData.node.identity
  let keyHostMap := fun key =>
    if container.equalityStrategy = .host ∧ key = identity.publicKey ∧ container.keyHostMap key = none then
      some identity.host
    else container.keyHostMap key
  -- an entry that is there stays
  let nodeMap := if (container.tryGet identity).isSome then container.nodeMap else container.nodeMap ++ [nodeData]
  { container with nodeMap, keyHostMap }.modify identity fun nodeData =>
    { nodeData with hasIdentityUpdateInProgress := false }

def erase (identity : NodeIdentity Key Host) : NodeDataContainer Key Host :=
  { container with
    keyHostMap := fun key =>
      if container.equalityStrategy = .host ∧ key = identity.publicKey then none else container.keyHostMap key
    nodeMap := container.nodeMap.filter fun nodeData => !container.isAt identity nodeData }

def prepareSource (source : NodeSource) :
    Option (NodeIdentity Key Host) →
      Option (NodeDataContainer Key Host × Option (NodeIdentity Key Host) × PrepareInsertCode)
  | none => some (container, none, .allowed)
  | some pointer => do
    let nodeData ← container.tryGet pointer
    return (container, some pointer, if isSourceDowngrade nodeData source then .redundant else .allowed)

def prepareKey (identity : NodeIdentity Key Host) (source : NodeSource) (pointer : Option (NodeIdentity Key Host))
    (host : Host) : Option (NodeDataContainer Key Host × Option (NodeIdentity Key Host) × PrepareInsertCode) := do
  let keyHostNodeIdentity := ⟨identity.publicKey, host⟩
  let nodeData ← container.tryGet keyHostNodeIdentity
  let updated := container.updateFlag keyHostNodeIdentity identity source
  match (canUpdateIdentity nodeData identity source).1 with
  | .equal => updated.prepareSource source pointer
  | .disallowed => return (updated, none, .conflict)
  | .allowed =>
    if isSourceDowngrade nodeData source then
      return (updated, pointer, if pointer.isSome then .redundant else .allowed)
    else
      match pointer with
      | none => updated.prepareSource source (some keyHostNodeIdentity)
      -- host and key are known separately, and the data of the host is used
      | some _ => (updated.erase keyHostNodeIdentity).prepareSource source pointer

def prepareHost (identity : NodeIdentity Key Host) (source : NodeSource) (pointer : Option (NodeIdentity Key Host)) :
    Option (NodeDataContainer Key Host × Option (NodeIdentity Key Host) × PrepareInsertCode) :=
  if container.equalityStrategy = .host then
    match container.keyHostMap identity.publicKey with
    | none => container.prepareSource source pointer
    | some host => container.prepareKey identity source pointer host
  else container.prepareSource source pointer

def prepareInsert (identity : NodeIdentity Key Host) (source : NodeSource) :
    Option (NodeDataContainer Key Host × Option (NodeIdentity Key Host) × PrepareInsertCode) :=
  match container.tryGet identity with
  | none => container.prepareHost identity source none
  | some nodeData =>
    let updated := container.updateFlag identity identity source
    if (canUpdateIdentity nodeData identity source).1 = .disallowed then some (updated, none, .conflict)
    else updated.prepareHost identity source (some identity)

/-- Of the inactive nodes of dynamic sources, one of the worst source, and of these one of the least id. -/
def tryFindWorst : Option (NodeData Key Host) :=
  container.nodeMap.foldl (fun worst nodeData =>
    if NodeSource.dynamic.value < nodeData.nodeInfo.source.value || nodeData.nodeInfo.hasActiveConnection then worst
    else
      match worst with
      | none => some nodeData
      | some worstNodeData =>
        if worstNodeData.nodeInfo.source.value < nodeData.nodeInfo.source.value then worst
        else if worstNodeData.nodeInfo.source = nodeData.nodeInfo.source ∧ worstNodeData.nodeId < nodeData.nodeId then
          worst
        else some nodeData) none

end NodeDataContainer
end Identity
end Catapult.Ionet
