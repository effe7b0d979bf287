import Catapult.Ionet.NodeContainerRuns
import Mathlib.Algebra.Group.Nat.Defs

/-!
# Interactions with nodes

The interactions of a node are counted in buckets by the time at which a bucket was created, and those of the last
seven days count. A view shows the nodes of a container with their interactions at a time.
-/

namespace Catapult.Ionet

abbrev Timestamp := UInt64

structure NodeInteractions where
  numSuccesses : UInt32
  numFailures : UInt32
  deriving DecidableEq

structure NodeInteractionsBucket where
  creationTime : Timestamp
  numSuccesses : UInt32
  numFailures : UInt32
  deriving DecidableEq

def interactionDuration : UInt64 := 7 * 24 * 3600000

def isBucketTooOld (currentTime creationTime : Timestamp) : Bool :=
  creationTime < currentTime && interactionDuration ≤ currentTime - creationTime

def interactions (buckets : List NodeInteractionsBucket) (timestamp : Timestamp) : NodeInteractions :=
  buckets.foldl (fun results bucket =>
    if isBucketTooOld timestamp bucket.creationTime then results
    else ⟨results.numSuccesses + bucket.numSuccesses, results.numFailures + bucket.numFailures⟩) ⟨0, 0⟩

/-- The first state with the identifier. -/
def NodeInfo.getConnectionState (info : NodeInfo) (serviceId : ServiceIdentifier) : Option ConnectionState :=
  (info.connectionStates.find? fun pair => serviceId = pair.1).map Prod.snd

abbrev IpProtocol := UInt8

/-- Without any of the two roles of a protocol a node counts as one of IPv4. -/
def mapNodeRolesToIpProtocols (roles : NodeRoles) : IpProtocol :=
  let protocols := (if hasFlag 0x40 roles then 1 else 0) ||| if hasFlag 0x80 roles then 2 else 0
  if protocols = 0 then 1 else protocols

def hasAnyProtocol (protocols : IpProtocol) (roles : NodeRoles) : Bool :=
  protocols &&& mapNodeRolesToIpProtocols roles ≠ 0

variable {Key Host : Type}

structure NodeEntry (Key Host : Type) where
  node : Node Key Host
  info : NodeInfo
  buckets : List NodeInteractionsBucket

def NodeEntry.identity (entry : NodeEntry Key Host) : NodeIdentity Key Host := entry.node.identity

/-- A container has one entry for an identity, and the most nodes that it tracks are a 32-bit number. -/
structure NodeContainerView (Key Host : Type) where
  entries : List (NodeEntry Key Host)
  time : Timestamp
  nodup : (entries.map NodeEntry.identity).Nodup
  length_lt : entries.length < 2 ^ 32

namespace NodeContainerView
variable {view : NodeContainerView Key Host} {entry entry' : NodeEntry Key Host}

theorem eq_of_node_eq (h : entry ∈ view.entries) (h' : entry' ∈ view.entries) (heq : entry.node = entry'.node) :
    entry = entry' := by
  have hidentity : entry.identity = entry'.identity := by rw [NodeEntry.identity, heq, NodeEntry.identity]
  exact List.inj_on_of_nodup_map view.nodup h h' hidentity

end NodeContainerView

section
variable [DecidableEq Key] [DecidableEq Host]

/-- The entries of a container, with the interactions that were counted for each node. -/
def NodeContainer.entries (container : NodeContainer Key Host)
    (buckets : NodeIdentity Key Host → List NodeInteractionsBucket) : List (NodeEntry Key Host) :=
  container.nodeDataContainer.nodeMap.map fun nodeData =>
    ⟨nodeData.node, nodeData.nodeInfo, buckets nodeData.node.identity⟩

def NodeContainer.Sound.view {container : NodeContainer Key Host} (h : container.Sound)
    (hmax : container.maxNodes < 2 ^ 32) (buckets : NodeIdentity Key Host → List NodeInteractionsBucket)
    (time : Timestamp) : NodeContainerView Key Host where
  entries := container.entries buckets
  time
  nodup := by
    have hidentities : (container.entries buckets).map NodeEntry.identity = container.nodeDataContainer.identities := by
      simp [NodeContainer.entries, NodeEntry.identity, NodeDataContainer.identities, Function.comp_def]
    rw [hidentities]
    exact List.Nodup.of_map _ h.wellFormed.nodup
  length_lt := by
    have hsize : (container.entries buckets).length = container.nodeDataContainer.size := by
      simp [NodeContainer.entries, NodeDataContainer.size]
    have := h.size_le
    omega

end

end Catapult.Ionet
