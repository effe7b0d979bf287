import Catapult.Recovery.CommitAll

/-!
# Recovery (`RepairSpooling`, `RepairState`)

What the recovery process does to the files of a node that has crashed, and the messages that it forwards to the
registered subscribers. Recovery stops with an exception (`none`) when it does not accept the height of the saved
state, when a message is missing or when a staged block is missing.
-/

namespace Catapult.Recovery
variable {Block Message : Type*}

/-- `ReadAll`: the messages from the reader index on are forwarded and removed; the writer index is `pending` ahead. -/
def readAll (messages : Nat → Option Message) (reader : Nat) : Nat → Option (List Message × (Nat → Option Message))
  | 0 => some ([], messages)
  | pending + 1 =>
    match messages reader with
    | none => none
    | some message =>
      (readAll (Function.update messages reader none) (reader + 1) pending).map fun result =>
        (message :: result.1, result.2)

def repairSpooling (disk : Disk Block Message) : Disk Block Message :=
  if disk.commitStep.getD .allUpdated = .stateWritten then disk
  else { disk with
    staging := .purged
    indexServer := match disk.index with
      | some index => some index
      | none => disk.indexServer }

def finalReader (disk : Disk Block Message) : Option Nat :=
  if disk.indexBrokerReader.isSome then disk.indexBrokerReader else disk.indexServerReader

def setFinalReader (index : Nat) (disk : Disk Block Message) : Disk Block Message :=
  if disk.indexBrokerReader.isSome then { disk with indexBrokerReader := some index }
  else { disk with indexServerReader := some index }

/-- `RepairState`: `index.dat` is first the writer index of the registered subscribers, then the reader index of what is
repaired. -/
def repairState (disk : Disk Block Message) : Option (Disk Block Message × List Message) :=
  let reader := (finalReader disk).getD 0
  let index := disk.index.getD 0
  let indexServer := disk.indexServer.getD 0
  match readAll disk.messages reader (index - reader) with
  | none => none
  | some (registered, messages) =>
    match readAll messages index (indexServer - index) with
    | none => none
    | some (repaired, messages) =>
      let index := max index indexServer
      some (setFinalReader index { disk with messages := messages, index := some index }, registered ++ repaired)

/-- `FindStartHeight`, from a height with a block. -/
def findStartHeight (blocks : Nat → Option Block) : Nat → Nat
  | 0 => 0
  | height + 1 => if height = 0 ∨ blocks height = none then height + 1 else findStartHeight blocks height

/-- The blocks after a height are saved one by one; a block is saved on top of the chain only. -/
def moveFrom (blocks : Nat → Option Block) (height : Nat) : Nat → BlockFiles Block → Option (BlockFiles Block)
  | 0, destination => some destination
  | count + 1, destination =>
    match blocks (height + 1) with
    | none => none
    | some block =>
      if height + 1 = destination.chainHeight + 1 then
        moveFrom blocks (height + 1) count ((destination.writeBlock (height + 1) (some block)).setHeight (height + 1))
      else none

/-- `MoveBlockFiles`, without the purge of the source. -/
def moveBlockFiles (source destination : BlockFiles Block) (startHeight : Nat) : Option (BlockFiles Block) :=
  let destination :=
    if startHeight ≤ destination.chainHeight then destination.setHeight (startHeight - 1) else destination
  moveFrom source.blocks (startHeight - 1) (source.chainHeight + 1 - startHeight) destination

def moveStaged (disk : Disk Block Message) : Option (Disk Block Message) :=
  if disk.staging.chainHeight = 0 then some disk
  else if disk.staging.blocks disk.staging.chainHeight = none then none
  else
    (moveBlockFiles disk.staging disk.storage (findStartHeight disk.staging.blocks disk.staging.chainHeight)).map
      fun storage => { disk with storage := storage, staging := .purged }

inductive StateRecoveryMode where
  | none
  | repair
  | reseed
  deriving DecidableEq

/-- `none` when the state is higher than the storage, where it throws. -/
def calculateStateRecoveryMode (enableCacheDatabaseStorage : Bool) (cacheHeight storageHeight : Nat) :
    Option StateRecoveryMode :=
  if cacheHeight = storageHeight then some .none
  else if cacheHeight = 1 then some .reseed
  else if storageHeight < cacheHeight then none
  else some (if enableCacheDatabaseStorage then .none else .repair)

/-- Recovery goes on after the state has been loaded. Without a saved state the nemesis block is executed. -/
def stateAccepted (enableCacheDatabaseStorage : Bool) (disk : Disk Block Message) : Bool :=
  match calculateStateRecoveryMode enableCacheDatabaseStorage (disk.stateHeight.getD 1) disk.storage.chainHeight with
  | some .none => true
  | some .repair => true
  | _ => false

def moveSupplementalDataFiles (disk : Disk Block Message) : Disk Block Message :=
  if disk.stateTmpHeight.isSome then { disk with stateHeight := disk.stateTmpHeight, stateTmpHeight := none } else disk

/-- `recover`. The state is loaded between the repair of the queues and the repair of the state. -/
def recover (enableCacheDatabaseStorage : Bool) (disk : Disk Block Message) :
    Option (Disk Block Message × List Message) :=
  let commitStep := disk.commitStep.getD .allUpdated
  let disk := repairSpooling disk
  if stateAccepted enableCacheDatabaseStorage disk then
    match repairState disk with
    | none => none
    | some (disk, forwarded) =>
      if commitStep ≠ .stateWritten then some ({ disk with stateTmpHeight := none, commitStep := none }, forwarded)
      else (moveStaged (moveSupplementalDataFiles disk)).map fun disk => ({ disk with commitStep := none }, forwarded)
  else none

theorem readAll_log {log : List Message} {messages : Nat → Option Message} {reader pending : Nat}
    (hle : reader + pending ≤ log.length)
    (hmessages : ∀ i, reader ≤ i → i < reader + pending → messages i = log[i]?) :
    ∃ messages', readAll messages reader pending = some ((log.drop reader).take pending, messages') ∧
      ∀ i, reader + pending ≤ i → messages' i = messages i := by
  induction pending generalizing messages reader with
  | zero => exact ⟨messages, by rw [readAll, List.take_zero], fun _ _ => rfl⟩
  | succ pending ih =>
    have hlt : reader < log.length := by omega
    have hhead : messages reader = some log[reader] := by
      rw [hmessages reader (Nat.le_refl _) (by omega), List.getElem?_eq_getElem hlt]
    have htail : ∀ i, reader + 1 ≤ i → i < reader + 1 + pending → Function.update messages reader none i = log[i]? :=
      fun i hi hi' => by rw [Function.update_of_ne (by omega), hmessages i (by omega) (by omega)]
    obtain ⟨messages', hread, hrest⟩ := ih (by omega) htail
    refine ⟨messages', ?_, fun i hi => ?_⟩
    · rw [readAll, hhead]
      simp only [hread, Option.map_some]
      rw [List.drop_eq_getElem_cons hlt, List.take_succ_cons]
    · rw [hrest i (by omega), Function.update_of_ne (by omega)]

def Agrees (files : BlockFiles Block) (chain : List Block) (count : Nat) : Prop :=
  ∀ i < count, files.blocks (i + 1) = chain[i]?

structure Shows (files : BlockFiles Block) (chain : List Block) : Prop where
  height : files.chainHeight = chain.length
  agrees : Agrees files chain chain.length

namespace Agrees
variable {files : BlockFiles Block} {chain : List Block} {count : Nat}

theorem mono (h : Agrees files chain count) {count' : Nat} (hle : count' ≤ count) : Agrees files chain count' :=
  fun i hi => h i (by omega)

theorem write {block : Option Block} (h : Agrees files chain count) (hblock : block = chain[count]?) :
    Agrees (files.writeBlock (count + 1) block) chain (count + 1) := by
  intro i hi
  show Function.update files.blocks (count + 1) block (i + 1) = chain[i]?
  by_cases hlast : i = count
  · subst hlast
    rw [Function.update_self, hblock]
  · rw [Function.update_of_ne (by omega), h i (by omega)]

theorem congr {files' : BlockFiles Block} (h : Agrees files chain count) (heq : files'.blocks = files.blocks) :
    Agrees files' chain count := fun i hi => by rw [heq, h i hi]

end Agrees

theorem moveFrom_agrees {blocks : Nat → Option Block} {chain : List Block} {height count : Nat}
    {destination : BlockFiles Block} (hle : height + count ≤ chain.length)
    (hblocks : ∀ i, height ≤ i → i < height + count → blocks (i + 1) = chain[i]?)
    (hheight : destination.chainHeight = height) (hagrees : Agrees destination chain height) :
    ∃ destination', moveFrom blocks height count destination = some destination' ∧
      destination'.chainHeight = height + count ∧ Agrees destination' chain (height + count) := by
  induction count generalizing height destination with
  | zero => exact ⟨destination, rfl, hheight, hagrees⟩
  | succ count ih =>
    have hlt : height < chain.length := by omega
    have hblock : blocks (height + 1) = some chain[height] := by
      rw [hblocks height (Nat.le_refl _) (by omega), List.getElem?_eq_getElem hlt]
    have hwritten : Agrees ((destination.writeBlock (height + 1) (some chain[height])).setHeight (height + 1)) chain
        (height + 1) := (hagrees.write (List.getElem?_eq_getElem hlt).symm).congr rfl
    have hrest : ∀ i, height + 1 ≤ i → i < height + 1 + count → blocks (i + 1) = chain[i]? :=
      fun i hi hi' => hblocks i (by omega) (by omega)
    obtain ⟨destination', hmove, hheight', hagrees'⟩ := ih (by omega) hrest rfl hwritten
    refine ⟨destination', ?_, by omega, hagrees'.mono (by omega)⟩
    rw [moveFrom, hblock]
    simp only [hheight, if_true]
    exact hmove

theorem findStartHeight_spec {blocks : Nat → Option Block} {height : Nat} (hpos : 0 < height)
    (htip : blocks height ≠ none) :
    0 < findStartHeight blocks height ∧ findStartHeight blocks height ≤ height ∧
      (∀ h, findStartHeight blocks height ≤ h → h ≤ height → blocks h ≠ none) ∧
      (findStartHeight blocks height = 1 ∨ blocks (findStartHeight blocks height - 1) = none) := by
  induction height with
  | zero => omega
  | succ height ih =>
    rw [findStartHeight]
    split
    · rename_i hstop
      refine ⟨by omega, Nat.le_refl _, fun h hle hle' => ?_, ?_⟩
      · rw [Nat.le_antisymm hle' hle]
        exact htip
      · rcases hstop with rfl | hnone
        · exact .inl rfl
        · exact .inr hnone
    · rename_i hgo
      obtain ⟨hpos', hle, hpresent, hfirst⟩ := ih (by omega) fun hnone => hgo (.inr hnone)
      refine ⟨hpos', by omega, fun h hge hle' => ?_, hfirst⟩
      by_cases hlast : h = height + 1
      · rw [hlast]
        exact htip
      · exact hpresent h hge (by omega)

theorem moveStaged_shows {disk : Disk Block Message} {chain : List Block} (hpos : 0 < chain.length)
    (hheight : disk.staging.chainHeight = chain.length) (htip : disk.staging.blocks chain.length ≠ none)
    (hblocks : ∀ i < chain.length, disk.staging.blocks (i + 1) = none ∨ disk.staging.blocks (i + 1) = chain[i]?)
    (hstart : ∀ k, findStartHeight disk.staging.blocks chain.length = k + 1 →
      k ≤ disk.storage.chainHeight ∧ Agrees disk.storage chain k) :
    ∃ disk', moveStaged disk = some disk' ∧ Shows disk'.storage chain := by
  obtain ⟨hspos, hsle, hpresent, -⟩ := findStartHeight_spec hpos htip
  obtain ⟨k, hk⟩ : ∃ k, findStartHeight disk.staging.blocks chain.length = k + 1 :=
    Nat.exists_eq_succ_of_ne_zero (by omega)
  obtain ⟨hkle, hagrees⟩ := hstart k hk
  rw [hk] at hpresent hsle
  have hstaged : ∀ i, k ≤ i → i < k + (chain.length - k) → disk.staging.blocks (i + 1) = chain[i]? := by
    intro i hi hlt
    exact (hblocks i (by omega)).resolve_left (hpresent (i + 1) (by omega) (by omega))
  -- the storage is cut back to the block before the first one that is moved
  obtain ⟨cut, hcut, hcutHeight, hcutAgrees⟩ : ∃ cut, cut =
      (if k + 1 ≤ disk.storage.chainHeight then disk.storage.setHeight k else disk.storage) ∧
      cut.chainHeight = k ∧ Agrees cut chain k := by
    refine ⟨_, rfl, ?_⟩
    split
    · exact ⟨rfl, hagrees.congr rfl⟩
    · exact ⟨by omega, hagrees⟩
  obtain ⟨storage, hmove, hstorage, hstorageAgrees⟩ :=
    moveFrom_agrees (by omega) hstaged hcutHeight hcutAgrees
  refine ⟨{ disk with storage := storage, staging := .purged }, ?_, ?_, ?_⟩
  · have hcount : chain.length + 1 - (k + 1) = chain.length - k := by omega
    rw [moveStaged, if_neg (by omega), hheight, if_neg htip, moveBlockFiles, hk, hheight]
    simp only [Nat.add_sub_cancel, hcount, ← hcut, hmove, Option.map_some]
  · rw [hstorage]
    omega
  · exact hstorageAgrees.mono (by omega)

end Catapult.Recovery
