import Mathlib.Data.List.Basic

/-!
# Commits and the files that they change (`BlockchainSyncConsumer::commitAll`)

`Disk` has the files that recovery decides from: the commit step, the `state_change` queue with its messages
and indexes, the staged and the stored blocks, and the heights of the saved state. `Step` is one file
operation of `commitAll` or of the broker that reads the queue, so that a crash can come between any two of
them; the contents of a message, of an index file and of a block are each written in one operation.

`chain` and `log` of a node are not read by the program. They are the chain and the messages of the commits
that have reached `State_Written`.
-/

namespace Catapult.Recovery

inductive CommitOperationStep where
  | blocksWritten
  | stateWritten
  | allUpdated
  deriving DecidableEq, Repr

/-- A block storage: the index file and the blocks that have been written. -/
structure BlockFiles (Block : Type*) where
  indexFile : Option Nat
  blocks : Nat → Option Block

namespace BlockFiles
variable {Block : Type*}

def purged : BlockFiles Block := ⟨none, fun _ => none⟩

def chainHeight (files : BlockFiles Block) : Nat := files.indexFile.getD 0

def setHeight (height : Nat) (files : BlockFiles Block) : BlockFiles Block := { files with indexFile := some height }

def writeBlock (height : Nat) (block : Option Block) (files : BlockFiles Block) : BlockFiles Block :=
  { files with blocks := Function.update files.blocks height block }

def removeBlocks (heights : Nat → Bool) (files : BlockFiles Block) : BlockFiles Block :=
  { files with blocks := fun height => if heights height then none else files.blocks height }

end BlockFiles

/-- The files of a node. `stateHeight` and `stateTmpHeight` are the heights of the state that is saved in `state`
and in `state.tmp`. -/
structure Disk (Block Message : Type*) where
  commitStep : Option CommitOperationStep
  indexServer : Option Nat
  index : Option Nat
  indexBrokerReader : Option Nat
  indexServerReader : Option Nat
  messages : Nat → Option Message
  storage : BlockFiles Block
  staging : BlockFiles Block
  stateHeight : Option Nat
  stateTmpHeight : Option Nat

/-- What a peer chain changes: the blocks after the common height, and the two messages of `StateChange`. -/
structure Commit (Block Message : Type*) where
  commonHeight : Nat
  blocks : List Block
  scoreChange : Message
  stateChange : Message

namespace Commit
variable {Block Message : Type*} (c : Commit Block Message)

def messages : List Message := [c.scoreChange, c.stateChange]

def newHeight : Nat := c.commonHeight + c.blocks.length

def newChain (chain : List Block) : List Block := chain.take c.commonHeight ++ c.blocks

structure Linked (chain : List Block) : Prop where
  pos : 0 < c.commonHeight
  le : c.commonHeight ≤ chain.length
  ne_nil : c.blocks ≠ []

end Commit

/-- What is left to do after the staged blocks have been moved. -/
inductive FinishOperation where
  | removeState
  | renameState
  | setAllUpdated
  | setIndex
  deriving DecidableEq

/-- `CommitStep(All_Updated)`, with the handler that moves `state.tmp` to `state` before it. -/
def finishOperations (enableCacheDatabaseStorage : Bool) : List FinishOperation :=
  if enableCacheDatabaseStorage then [.removeState, .renameState, .setAllUpdated, .setIndex]
  else [.setAllUpdated, .setIndex]

/-- Where `commitAll` is. -/
inductive Phase (Block Message : Type*) where
  | idle
  /-- The modifier has been created. -/
  | opened (c : Commit Block Message)
  /-- So many blocks have been saved in the staging directory; the next one may have been written. -/
  | saving (c : Commit Block Message) (count : Nat) (isWritten : Bool)
  /-- So many messages are in the queue; the next one may have been written. -/
  | notifying (c : Commit Block Message) (count : Nat) (isWritten : Bool)
  | prepared (c : Commit Block Message)
  | committing (c : Commit Block Message)
  /-- The blocks up to a height have been moved; the next one may have been written. -/
  | moving (c : Commit Block Message) (height : Nat) (isWritten : Bool)
  | purging (c : Commit Block Message)
  | finishing (operations : List FinishOperation)

/-- Where the broker is with the message at an index. -/
inductive BrokerPhase where
  | idle
  | forwarded (reader : Nat)
  | advanced (reader : Nat)
  deriving DecidableEq

structure Node (Block Message : Type*) where
  disk : Disk Block Message
  phase : Phase Block Message
  broker : BrokerPhase
  forwarded : List Message
  chain : List Block
  log : List Message

namespace Disk
variable {Block Message : Type*}

def finish (disk : Disk Block Message) : FinishOperation → Disk Block Message
  | .removeState => { disk with stateHeight := none }
  | .renameState => { disk with stateHeight := disk.stateTmpHeight, stateTmpHeight := none }
  | .setAllUpdated => { disk with commitStep := some .allUpdated }
  | .setIndex => if disk.indexServer.isSome then { disk with index := disk.indexServer } else disk

def preStateWritten (enableCacheDatabaseStorage : Bool) (height : Nat) (disk : Disk Block Message) :
    Disk Block Message :=
  if enableCacheDatabaseStorage then { disk with stateTmpHeight := some height } else disk

end Disk

/-- `IndexFile::increment`. -/
def increment : Option Nat → Option Nat
  | none => some 0
  | some value => some (value + 1)

section Step
variable {Block Message : Type*}

/-- One file operation of `commitAll` or of the broker. -/
inductive Step (enableCacheDatabaseStorage : Bool) : Node Block Message → Node Block Message → Prop
  | create {node : Node Block Message} (c : Commit Block Message) (hphase : node.phase = .idle)
      (hlinked : c.Linked node.chain) :
      Step enableCacheDatabaseStorage node { node with
        phase := .opened c
        disk := { node.disk with staging := node.disk.staging.setHeight node.disk.storage.chainHeight } }
  | dropBlocksAfter {node : Node Block Message} {c : Commit Block Message} (hphase : node.phase = .opened c) :
      Step enableCacheDatabaseStorage node { node with
        phase := .saving c 0 false
        disk := { node.disk with staging := node.disk.staging.setHeight c.commonHeight } }
  | writeStaged {node : Node Block Message} {c : Commit Block Message} {count : Nat} {block : Block}
      (hphase : node.phase = .saving c count false) (hblock : c.blocks[count]? = some block) :
      Step enableCacheDatabaseStorage node { node with
        phase := .saving c count true
        disk := { node.disk with staging := node.disk.staging.writeBlock (c.commonHeight + count + 1) (some block) } }
  | indexStaged {node : Node Block Message} {c : Commit Block Message} {count : Nat}
      (hphase : node.phase = .saving c count true) :
      Step enableCacheDatabaseStorage node { node with
        phase := .saving c (count + 1) false
        disk := { node.disk with staging := node.disk.staging.setHeight (c.commonHeight + count + 1) } }
  | blocksWritten {node : Node Block Message} {c : Commit Block Message}
      (hphase : node.phase = .saving c c.blocks.length false) :
      Step enableCacheDatabaseStorage node { node with
        phase := .notifying c 0 false
        disk := { node.disk with commitStep := some .blocksWritten } }
  | writeMessage {node : Node Block Message} {c : Commit Block Message} {count : Nat} {message : Message}
      (hphase : node.phase = .notifying c count false) (hmessage : c.messages[count]? = some message) :
      Step enableCacheDatabaseStorage node { node with
        phase := .notifying c count true
        disk := { node.disk with
          messages := Function.update node.disk.messages (node.disk.indexServer.getD 0) (some message) } }
  | indexMessage {node : Node Block Message} {c : Commit Block Message} {count : Nat}
      (hphase : node.phase = .notifying c count true) :
      Step enableCacheDatabaseStorage node { node with
        phase := .notifying c (count + 1) false
        disk := { node.disk with indexServer := increment node.disk.indexServer } }
  | preStateWritten {node : Node Block Message} {c : Commit Block Message}
      (hphase : node.phase = .notifying c c.messages.length false) :
      Step enableCacheDatabaseStorage node { node with
        phase := .prepared c
        disk := node.disk.preStateWritten enableCacheDatabaseStorage c.newHeight }
  | stateWritten {node : Node Block Message} {c : Commit Block Message} (hphase : node.phase = .prepared c) :
      Step enableCacheDatabaseStorage node { node with
        phase := .committing c
        disk := { node.disk with commitStep := some .stateWritten }
        chain := c.newChain node.chain
        log := node.log ++ c.messages }
  | dropStored {node : Node Block Message} {c : Commit Block Message} (hphase : node.phase = .committing c) :
      Step enableCacheDatabaseStorage node { node with
        phase := .moving c c.commonHeight false
        disk := { node.disk with storage :=
          if c.commonHeight + 1 ≤ node.disk.storage.chainHeight then node.disk.storage.setHeight c.commonHeight
          else node.disk.storage } }
  | writeStored {node : Node Block Message} {c : Commit Block Message} {height : Nat}
      (hphase : node.phase = .moving c height false) (hlt : height < node.disk.staging.chainHeight) :
      Step enableCacheDatabaseStorage node { node with
        phase := .moving c height true
        disk := { node.disk with
          storage := node.disk.storage.writeBlock (height + 1) (node.disk.staging.blocks (height + 1)) } }
  | indexStored {node : Node Block Message} {c : Commit Block Message} {height : Nat}
      (hphase : node.phase = .moving c height true) :
      Step enableCacheDatabaseStorage node { node with
        phase := .moving c (height + 1) false
        disk := { node.disk with storage := node.disk.storage.setHeight (height + 1) } }
  | moved {node : Node Block Message} {c : Commit Block Message} {height : Nat}
      (hphase : node.phase = .moving c height false) (hle : node.disk.staging.chainHeight ≤ height) :
      Step enableCacheDatabaseStorage node { node with phase := .purging c }
  -- the entries of the staging directory are removed in no particular order
  | removeIndex {node : Node Block Message} {c : Commit Block Message} (hphase : node.phase = .purging c) :
      Step enableCacheDatabaseStorage node { node with
        disk := { node.disk with staging := { node.disk.staging with indexFile := none } } }
  | removeBlocks {node : Node Block Message} {c : Commit Block Message} (hphase : node.phase = .purging c)
      (heights : Nat → Bool) :
      Step enableCacheDatabaseStorage node { node with
        disk := { node.disk with staging := node.disk.staging.removeBlocks heights } }
  | purged {node : Node Block Message} {c : Commit Block Message} (hphase : node.phase = .purging c)
      (hpurged : node.disk.staging = .purged) :
      Step enableCacheDatabaseStorage node { node with
        phase := .finishing (finishOperations enableCacheDatabaseStorage) }
  | finish {node : Node Block Message} {operation : FinishOperation} {operations : List FinishOperation}
      (hphase : node.phase = .finishing (operation :: operations)) :
      Step enableCacheDatabaseStorage node { node with
        phase := .finishing operations
        disk := node.disk.finish operation }
  | finished {node : Node Block Message} (hphase : node.phase = .finishing []) :
      Step enableCacheDatabaseStorage node { node with phase := .idle }
  | createReader {node : Node Block Message} (hbroker : node.broker = .idle)
      (hreader : node.disk.indexBrokerReader = none) :
      Step enableCacheDatabaseStorage node { node with disk := { node.disk with indexBrokerReader := some 0 } }
  | forward {node : Node Block Message} {reader : Nat} {message : Message} (hbroker : node.broker = .idle)
      (hreader : node.disk.indexBrokerReader = some reader) (hlt : reader < node.disk.index.getD 0)
      (hmessage : node.disk.messages reader = some message) :
      Step enableCacheDatabaseStorage node { node with
        broker := .forwarded reader
        forwarded := node.forwarded ++ [message] }
  | advance {node : Node Block Message} {reader : Nat} (hbroker : node.broker = .forwarded reader) :
      Step enableCacheDatabaseStorage node { node with
        broker := .advanced reader
        disk := { node.disk with indexBrokerReader := increment node.disk.indexBrokerReader } }
  | removeMessage {node : Node Block Message} {reader : Nat} (hbroker : node.broker = .advanced reader) :
      Step enableCacheDatabaseStorage node { node with
        broker := .idle
        disk := { node.disk with messages := Function.update node.disk.messages reader none } }

/-- The nodes that are reached from a node that has been started. -/
inductive Run (enableCacheDatabaseStorage : Bool) (initial : Node Block Message) : Node Block Message → Prop
  | start : Run enableCacheDatabaseStorage initial initial
  | step {node node' : Node Block Message} (h : Run enableCacheDatabaseStorage initial node)
      (hstep : Step enableCacheDatabaseStorage node node') : Run enableCacheDatabaseStorage initial node'

end Step

end Catapult.Recovery
