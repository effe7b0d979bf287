import Catapult.Ionet.NodeDataContainer

/-!
# The node container

Nodes are added with the source that announced them. The container has a maximum size, and an inactive node of a
dynamic source can make room for another one. What a ban, the version predicate and the connections do is up to the
other operations, which come in any order.
-/

namespace Catapult.Ionet
variable {Key Host : Type} [DecidableEq Key] [DecidableEq Host]

/-! ## Operations -/

structure NodeContainer (Key Host : Type) where
  maxNodes : Nat
  versionPredicate : NodeVersion → Bool
  nextNodeId : Nat
  nodeDataContainer : NodeDataContainer Key Host
  serviceRolesMap : List (ServiceIdentifier × NodeRoles)

def hasFlag (testedFlag value : NodeRoles) : Bool := testedFlag = value &&& testedFlag

def provisionIfMatch (nodeData : NodeData Key Host) (serviceId : ServiceIdentifier) (role : NodeRoles) :
    NodeData Key Host :=
  if hasFlag role nodeData.node.roles then
    { nodeData with nodeInfo := nodeData.nodeInfo.provisionConnectionState serviceId id }
  else nodeData

namespace NodeContainer

def create (maxNodes : Nat) (equalityStrategy : NodeIdentityEqualityStrategy) (versionPredicate : NodeVersion → Bool) :
    NodeContainer Key Host :=
  ⟨maxNodes, versionPredicate, 1, .empty equalityStrategy, []⟩

variable (container : NodeContainer Key Host)

def autoProvisionConnectionStates (nodeData : NodeData Key Host) : NodeData Key Host :=
  container.serviceRolesMap.foldl (fun nodeData pair => provisionIfMatch nodeData pair.1 pair.2) nodeData

def ensureAtLeastOneEmptySlot : Bool × NodeContainer Key Host :=
  if container.nodeDataContainer.size < container.maxNodes then (true, container)
  else
    match container.nodeDataContainer.tryFindWorst with
    | none => (false, container)
    | some worst =>
      (true, { container with nodeDataContainer := container.nodeDataContainer.erase worst.node.identity })

def addNew (node : Node Key Host) (source : NodeSource) : Bool × NodeContainer Key Host :=
  match container.ensureAtLeastOneEmptySlot with
  | (false, container) => (false, container)
  | (true, container) =>
    let inserted := container.nodeDataContainer.insert ⟨node, ⟨source, []⟩, container.nextNodeId, false⟩
    (true, { container with
      nextNodeId := container.nextNodeId + 1
      nodeDataContainer := inserted.modify node.identity container.autoProvisionConnectionStates })

/-- The data of a known node, under a new identity if it has one. -/
def updateNode (pointer : NodeIdentity Key Host) (node : Node Key Host) (source : NodeSource) :
    Option (NodeContainer Key Host) := do
  let nodeData ← container.nodeDataContainer.tryGet pointer
  let nodeDataContainer :=
    if !nodeIdentityEquality .keyAndHost nodeData.node.identity node.identity then
      (container.nodeDataContainer.erase nodeData.node.identity).insert { nodeData with node }
    else container.nodeDataContainer.modify pointer fun nodeData => { nodeData with node }
  return { container with
    nodeDataContainer := nodeDataContainer.modify node.identity fun nodeData =>
      container.autoProvisionConnectionStates { nodeData with nodeInfo := { nodeData.nodeInfo with source } } }

/-- The placeholder version of zero is always accepted. -/
def add (isBanned : NodeIdentity Key Host → Bool) (node : Node Key Host) (source : NodeSource) :
    Option (Bool × NodeContainer Key Host) :=
  if 0 ≠ node.version && !container.versionPredicate node.version then some (false, container)
  else if isBanned node.identity then some (false, container)
  else do
    let (nodeDataContainer, pointer, code) ← container.nodeDataContainer.prepareInsert node.identity source
    let prepared := { container with nodeDataContainer }
    if code ≠ .allowed then return (code ≠ .conflict, prepared)
    else
      match pointer with
      | none => return prepared.addNew node source
      | some pointer => return (true, ← prepared.updateNode pointer node source)

def forEach (consumer : NodeData Key Host → NodeData Key Host) : NodeContainer Key Host :=
  { container with nodeDataContainer := container.nodeDataContainer.forEach consumer }

def addConnectionStates (serviceId : ServiceIdentifier) (role : NodeRoles) : NodeContainer Key Host :=
  { container.forEach (fun nodeData => provisionIfMatch nodeData serviceId role) with
    serviceRolesMap := container.serviceRolesMap ++ [(serviceId, role)] }

/-- The container stays as it is when the node is unknown, which is an error of the caller. -/
def provisionConnectionState (serviceId : ServiceIdentifier) (identity : NodeIdentity Key Host)
    (change : ConnectionState → ConnectionState) : NodeContainer Key Host :=
  { container with
    nodeDataContainer := container.nodeDataContainer.modify identity fun nodeData =>
      { nodeData with nodeInfo := nodeData.nodeInfo.provisionConnectionState serviceId change } }

def ageConnections (serviceId : ServiceIdentifier) (identities : NodeIdentity Key Host → Bool) :
    NodeContainer Key Host :=
  container.forEach fun nodeData =>
    { nodeData with
      nodeInfo :=
        if identities nodeData.node.identity then
          nodeData.nodeInfo.provisionConnectionState serviceId fun state => { state with age := state.age + 1 }
        else nodeData.nodeInfo.clearAge serviceId }

def ageConnectionBans (serviceId : ServiceIdentifier)
    (maxConnectionBanAge numConsecutiveFailuresBeforeBanning : UInt32) : NodeContainer Key Host :=
  container.forEach fun nodeData =>
    { nodeData with
      nodeInfo := nodeData.nodeInfo.updateBan serviceId maxConnectionBanAge numConsecutiveFailuresBeforeBanning }

end NodeContainer

/-- The banned nodes of the moment come with a node that is added. -/
inductive Operation (Key Host : Type) where
  | add (isBanned : NodeIdentity Key Host → Bool) (node : Node Key Host) (source : NodeSource)
  | addConnectionStates (serviceId : ServiceIdentifier) (role : NodeRoles)
  | provisionConnectionState (serviceId : ServiceIdentifier) (identity : NodeIdentity Key Host)
      (change : ConnectionState → ConnectionState)
  | ageConnections (serviceId : ServiceIdentifier) (identities : NodeIdentity Key Host → Bool)
  | ageConnectionBans (serviceId : ServiceIdentifier)
      (maxConnectionBanAge numConsecutiveFailuresBeforeBanning : UInt32)

namespace NodeContainer

def apply (container : NodeContainer Key Host) : Operation Key Host → Option (NodeContainer Key Host)
  | .add isBanned node source => (container.add isBanned node source).map Prod.snd
  | .addConnectionStates serviceId role => some (container.addConnectionStates serviceId role)
  | .provisionConnectionState serviceId identity change =>
    some (container.provisionConnectionState serviceId identity change)
  | .ageConnections serviceId identities => some (container.ageConnections serviceId identities)
  | .ageConnectionBans serviceId maxConnectionBanAge numConsecutiveFailuresBeforeBanning =>
    some (container.ageConnectionBans serviceId maxConnectionBanAge numConsecutiveFailuresBeforeBanning)

def run (container : NodeContainer Key Host) (operations : List (Operation Key Host)) :
    Option (NodeContainer Key Host) :=
  operations.foldlM apply container

end NodeContainer
end Catapult.Ionet
