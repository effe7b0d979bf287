import Catapult.Recovery.Repair

/-!
# What recovery restores

`Inv` says, for every place where `commitAll` and the broker can be, what is in the files. From `State_Written` on the
staged blocks, or the storage, have the new chain, and the server index is the end of the log. `Step` keeps the
invariant (`Inv.step`), so that it holds wherever a run is cut off.

A message that the broker has forwarded without having advanced its index is forwarded once more. Three moments are
excluded: `IndexBehind`, `StagedTipMissing` and a saved state that recovery does not accept.
-/

namespace Catapult.Recovery
variable {Block Message : Type*} {db : Bool} {node node' : Node Block Message} {shared : Nat}

/-! ### The invariant -/

def BrokerOk (reader : Option Nat) (forwarded log : List Message) (shared : Nat) : BrokerPhase → Prop
  | .idle => forwarded = log.take (reader.getD 0)
  | .forwarded index => reader = some index ∧ index < shared ∧ forwarded = log.take (index + 1)
  | .advanced index => reader = some (index + 1) ∧ forwarded = log.take (index + 1)

/-- The queue below the end of the log; `shared` is the shared index. -/
structure QueueOk (node : Node Block Message) (shared : Nat) : Prop where
  index : node.disk.index = some shared
  serverReader : node.disk.indexServerReader = none
  reader_le : node.disk.indexBrokerReader.getD 0 ≤ shared
  shared_le : shared ≤ node.log.length
  messages : ∀ i, node.disk.indexBrokerReader.getD 0 ≤ i → i < node.log.length → node.disk.messages i = node.log[i]?
  broker : BrokerOk node.disk.indexBrokerReader node.forwarded node.log shared node.broker

/-- So many blocks of the commit have been staged. -/
def Staged (c : Commit Block Message) (count : Nat) (files : BlockFiles Block) : Prop :=
  ∀ i, files.blocks (i + 1) =
    if c.commonHeight ≤ i ∧ i < c.commonHeight + count then c.blocks[i - c.commonHeight]? else none

/-- The commit in progress has not reached `State_Written`. -/
structure Waiting (disk : Disk Block Message) (chain : List Block) (log : List Message) (shared : Nat) : Prop where
  shows_chain : Shows disk.storage chain
  step : disk.commitStep ≠ some .stateWritten
  shared_eq : shared = log.length

structure Notified (disk : Disk Block Message) (chain : List Block) (log : List Message) (c : Commit Block Message)
    (count written : Nat) : Prop where
  linked : c.Linked chain
  indexServer : disk.indexServer = some (log.length + count)
  messages : ∀ i < written, disk.messages (log.length + i) = c.messages[i]?
  stagingIndex : disk.staging.indexFile = some c.newHeight
  staged : Staged c c.blocks.length disk.staging

/-- The chain and the log are those of a commit that has reached `State_Written`. -/
structure Reached (disk : Disk Block Message) (log : List Message) (shared : Nat) : Prop where
  step : disk.commitStep = some .stateWritten
  shared_lt : shared < log.length
  indexServer : disk.indexServer = some log.length

structure Restorable (disk : Disk Block Message) (chain : List Block) (c : Commit Block Message) : Prop where
  pos : 0 < c.commonHeight
  lt : c.commonHeight < chain.length
  stagingIndex : disk.staging.indexFile = some chain.length
  staged : ∀ i, disk.staging.blocks (i + 1) = if c.commonHeight ≤ i then chain[i]? else none
  height_ge : c.commonHeight ≤ disk.storage.chainHeight
  agrees : Agrees disk.storage chain c.commonHeight

/-- What is in the files in every phase of `commitAll`. -/
def PhaseOk (disk : Disk Block Message) (chain : List Block) (log : List Message) (shared : Nat) :
    Phase Block Message → Prop
  | .idle => Waiting disk chain log shared ∧ disk.indexServer = some log.length ∧
    ∀ i, disk.staging.blocks (i + 1) = none
  | .opened c => Waiting disk chain log shared ∧ disk.indexServer = some log.length ∧ c.Linked chain ∧
    ∀ i, disk.staging.blocks (i + 1) = none
  | .saving c count isWritten => Waiting disk chain log shared ∧ disk.indexServer = some log.length ∧ c.Linked chain ∧
    disk.staging.indexFile = some (c.commonHeight + count) ∧ count + isWritten.toNat ≤ c.blocks.length ∧
    Staged c (count + isWritten.toNat) disk.staging
  | .notifying c count isWritten => Waiting disk chain log shared ∧ count + isWritten.toNat ≤ c.messages.length ∧
    Notified disk chain log c count (count + isWritten.toNat)
  | .prepared c => Waiting disk chain log shared ∧ Notified disk chain log c c.messages.length c.messages.length
  | .committing c => Reached disk log shared ∧ Restorable disk chain c
  | .moving c height isWritten => Reached disk log shared ∧ Restorable disk chain c ∧
    disk.storage.chainHeight = height ∧ height + isWritten.toNat ≤ chain.length ∧
    Agrees disk.storage chain (height + isWritten.toNat)
  | .purging _ => Reached disk log shared ∧ Shows disk.storage chain ∧ 0 < chain.length ∧
    (disk.staging.indexFile = none ∨ disk.staging.indexFile = some chain.length) ∧
    ∀ i, disk.staging.blocks (i + 1) = none ∨ disk.staging.blocks (i + 1) = chain[i]?
  | .finishing operations => Shows disk.storage chain ∧ disk.staging = .purged ∧ disk.indexServer = some log.length ∧
    (Reached disk log shared ∧ (operations = [.removeState, .renameState, .setAllUpdated, .setIndex] ∨
        operations = [.renameState, .setAllUpdated, .setIndex] ∨ operations = [.setAllUpdated, .setIndex]) ∨
      disk.commitStep = some .allUpdated ∧ shared < log.length ∧ operations = [.setIndex] ∨
      disk.commitStep = some .allUpdated ∧ shared = log.length ∧ operations = [])

def Inv (node : Node Block Message) : Prop :=
  ∃ shared, QueueOk node shared ∧ PhaseOk node.disk node.chain node.log shared node.phase

/-! ### Steps of `commitAll` -/

theorem Staged.write {c : Commit Block Message} {count : Nat} {files : BlockFiles Block} {block : Block}
    (h : Staged c count files) (hblock : c.blocks[count]? = some block) :
    Staged c (count + 1) (files.writeBlock (c.commonHeight + count + 1) (some block)) := by
  intro i
  show Function.update files.blocks (c.commonHeight + count + 1) (some block) (i + 1) = _
  by_cases hlast : i = c.commonHeight + count
  · subst hlast
    rw [Function.update_self, if_pos (by omega), Nat.add_sub_cancel_left, hblock]
  · rw [Function.update_of_ne (by omega), h i]
    by_cases hin : c.commonHeight ≤ i ∧ i < c.commonHeight + count
    · rw [if_pos hin, if_pos (by omega)]
    · rw [if_neg hin, if_neg (by omega)]

theorem length_newChain {c : Commit Block Message} {chain : List Block} (h : c.Linked chain) :
    (c.newChain chain).length = c.newHeight := by
  have hle := h.le
  rw [Commit.newChain, List.length_append, List.length_take, Commit.newHeight]
  omega

theorem Notified.restorable {disk : Disk Block Message} {chain : List Block} {log : List Message}
    {c : Commit Block Message} {count written : Nat} (h : Notified disk chain log c count written)
    (hshows : Shows disk.storage chain) : Restorable disk (c.newChain chain) c := by
  obtain ⟨hpos, hle, hne⟩ := h.linked
  have hblocks := List.length_pos_iff.2 hne
  have hlen := length_newChain h.linked
  refine ⟨hpos, ?_, by rw [hlen]; exact h.stagingIndex, fun i => ?_, ?_, fun i hi => ?_⟩
  · rw [hlen, Commit.newHeight]
    omega
  · rw [h.staged i, Commit.newChain]
    by_cases hge : c.commonHeight ≤ i
    · rw [if_pos hge, List.getElem?_append_right (by rw [List.length_take]; omega), List.length_take,
        Nat.min_eq_left hle]
      split
      · rfl
      · rw [List.getElem?_eq_none (by omega)]
    · rw [if_neg hge, if_neg (by omega)]
  · rw [hshows.height]
    exact hle
  · rw [hshows.agrees i (by omega), Commit.newChain, List.getElem?_append_left (by rw [List.length_take]; omega),
      List.getElem?_take_of_lt hi]

/-! ### The queue -/

namespace BrokerOk
variable {reader : Option Nat} {forwarded log : List Message} {broker : BrokerPhase}

theorem append (h : BrokerOk reader forwarded log shared broker) (hreader : reader.getD 0 ≤ shared)
    (hshared : shared ≤ log.length) (messages : List Message) :
    BrokerOk reader forwarded (log ++ messages) shared broker := by
  cases broker with
  | idle =>
    show forwarded = (log ++ messages).take (reader.getD 0)
    rw [List.take_append_of_le_length (by omega)]
    exact h
  | forwarded index =>
    obtain ⟨hindex, hlt, hforwarded⟩ := h
    exact ⟨hindex, hlt, by rw [List.take_append_of_le_length (by omega), hforwarded]⟩
  | advanced index =>
    obtain ⟨hindex, hforwarded⟩ := h
    rw [hindex, Option.getD_some] at hreader
    exact ⟨hindex, by rw [List.take_append_of_le_length (by omega), hforwarded]⟩

theorem mono (h : BrokerOk reader forwarded log shared broker) {shared' : Nat} (hle : shared ≤ shared') :
    BrokerOk reader forwarded log shared' broker := by
  cases broker with
  | idle => exact h
  | forwarded index => exact ⟨h.1, Nat.lt_of_lt_of_le h.2.1 hle, h.2.2⟩
  | advanced index => exact h

end BrokerOk

namespace QueueOk

theorem of_eq (h : QueueOk node shared) (hindex : node'.disk.index = node.disk.index)
    (hreader : node'.disk.indexBrokerReader = node.disk.indexBrokerReader)
    (hserver : node'.disk.indexServerReader = node.disk.indexServerReader) (hlog : node'.log = node.log)
    (hforwarded : node'.forwarded = node.forwarded) (hbroker : node'.broker = node.broker)
    (hmessages : ∀ i < node.log.length, node'.disk.messages i = node.disk.messages i) : QueueOk node' shared := by
  refine ⟨?_, ?_, ?_, ?_, ?_, ?_⟩
  · rw [hindex, h.index]
  · rw [hserver, h.serverReader]
  · rw [hreader]
    exact h.reader_le
  · rw [hlog]
    exact h.shared_le
  · rw [hreader, hlog]
    intro i hi hlt
    rw [hmessages i hlt, h.messages i hi hlt]
  · rw [hreader, hforwarded, hlog, hbroker]
    exact h.broker

theorem append (h : QueueOk node shared) {messages : List Message} (hdisk : node'.disk.index = node.disk.index)
    (hreader : node'.disk.indexBrokerReader = node.disk.indexBrokerReader)
    (hserver : node'.disk.indexServerReader = node.disk.indexServerReader) (hlog : node'.log = node.log ++ messages)
    (hforwarded : node'.forwarded = node.forwarded) (hbroker : node'.broker = node.broker)
    (hfiles : node'.disk.messages = node.disk.messages)
    (hmessages : ∀ i < messages.length, node.disk.messages (node.log.length + i) = messages[i]?) :
    QueueOk node' shared := by
  have hshared := h.shared_le
  refine ⟨?_, ?_, ?_, ?_, ?_, ?_⟩
  · rw [hdisk, h.index]
  · rw [hserver, h.serverReader]
  · rw [hreader]
    exact h.reader_le
  · rw [hlog, List.length_append]
    omega
  · rw [hreader, hlog, hfiles]
    intro i hi hlt
    rw [List.length_append] at hlt
    by_cases hold : i < node.log.length
    · rw [List.getElem?_append_left hold, h.messages i hi hold]
    · rw [List.getElem?_append_right (by omega)]
      have hnew := hmessages (i - node.log.length) (by omega)
      rwa [show node.log.length + (i - node.log.length) = i by omega] at hnew
  · rw [hreader, hforwarded, hlog, hbroker]
    exact h.broker.append h.reader_le hshared messages

end QueueOk

section Files
variable {disk disk' : Disk Block Message} {chain : List Block} {log : List Message}

theorem Waiting.of_eq (h : Waiting disk chain log shared) (hstorage : disk'.storage = disk.storage)
    (hstep : disk'.commitStep = disk.commitStep) : Waiting disk' chain log shared :=
  ⟨by rw [hstorage]; exact h.shows_chain, by rw [hstep]; exact h.step, h.shared_eq⟩

theorem Reached.of_eq (h : Reached disk log shared) (hstep : disk'.commitStep = disk.commitStep)
    (hserver : disk'.indexServer = disk.indexServer) : Reached disk' log shared :=
  ⟨by rw [hstep, h.step], h.shared_lt, by rw [hserver, h.indexServer]⟩

theorem Restorable.of_storage {c : Commit Block Message} (h : Restorable disk chain c)
    (hstaging : disk'.staging = disk.staging) (hheight : c.commonHeight ≤ disk'.storage.chainHeight)
    (hagrees : Agrees disk'.storage chain c.commonHeight) : Restorable disk' chain c :=
  ⟨h.pos, h.lt, by rw [hstaging, h.stagingIndex], by rw [hstaging]; exact h.staged, hheight, hagrees⟩

theorem preStateWritten_eq (db : Bool) (height : Nat) (disk : Disk Block Message) :
    ∃ stateTmpHeight, disk.preStateWritten db height = { disk with stateTmpHeight } := by
  cases db
  · exact ⟨disk.stateTmpHeight, rfl⟩
  · exact ⟨some height, rfl⟩

end Files

theorem PhaseOk.of_eq {disk disk' : Disk Block Message} {chain : List Block} {log : List Message}
    {phase : Phase Block Message} (h : PhaseOk disk chain log shared phase) (hstorage : disk'.storage = disk.storage)
    (hstaging : disk'.staging = disk.staging) (hstep : disk'.commitStep = disk.commitStep)
    (hserver : disk'.indexServer = disk.indexServer)
    (hmessages : ∀ i, log.length ≤ i → disk'.messages i = disk.messages i) : PhaseOk disk' chain log shared phase := by
  have hwaiting : Waiting disk chain log shared → Waiting disk' chain log shared := fun h => h.of_eq hstorage hstep
  have hreached : Reached disk log shared → Reached disk' log shared := fun h => h.of_eq hstep hserver
  have hnotified : ∀ {c count written}, Notified disk chain log c count written →
      Notified disk' chain log c count written := fun h =>
    ⟨h.linked, by rw [hserver, h.indexServer], fun i hi => by rw [hmessages _ (by omega), h.messages i hi],
      by rw [hstaging, h.stagingIndex], by rw [hstaging]; exact h.staged⟩
  have hrestorable : ∀ {c}, Restorable disk chain c → Restorable disk' chain c := fun h =>
    h.of_storage hstaging (by rw [hstorage]; exact h.height_ge) (by rw [hstorage]; exact h.agrees)
  cases phase with
  | idle => exact ⟨hwaiting h.1, by rw [hserver, h.2.1], by rw [hstaging]; exact h.2.2⟩
  | opened c => exact ⟨hwaiting h.1, by rw [hserver, h.2.1], h.2.2.1, by rw [hstaging]; exact h.2.2.2⟩
  | saving c count isWritten => exact ⟨hwaiting h.1, by rw [hserver, h.2.1], by rw [hstaging]; exact h.2.2⟩
  | notifying c count isWritten => exact ⟨hwaiting h.1, h.2.1, hnotified h.2.2⟩
  | prepared c => exact ⟨hwaiting h.1, hnotified h.2⟩
  | committing c => exact ⟨hreached h.1, hrestorable h.2⟩
  | moving c height isWritten => exact ⟨hreached h.1, hrestorable h.2.1, by rw [hstorage]; exact h.2.2⟩
  | purging c => exact ⟨hreached h.1, by rw [hstorage, hstaging]; exact h.2⟩
  | finishing operations =>
    obtain ⟨hshows, hpurged, hindex, hrest⟩ := h
    refine ⟨by rw [hstorage]; exact hshows, by rw [hstaging, hpurged], by rw [hserver, hindex], ?_⟩
    rw [hstep]
    exact hrest.imp_left fun h => ⟨hreached h.1, h.2⟩

theorem QueueOk.shared_lt_length (h : QueueOk node shared) {reader : Nat} (hlt : reader < node.disk.index.getD 0) :
    reader < shared := by
  rwa [h.index, Option.getD_some] at hlt

theorem finishOperations_cases (db : Bool) :
    finishOperations db = [.removeState, .renameState, .setAllUpdated, .setIndex] ∨
      finishOperations db = [.renameState, .setAllUpdated, .setIndex] ∨
      finishOperations db = [.setAllUpdated, .setIndex] := by
  cases db
  · exact .inr (.inr rfl)
  · exact .inl rfl

/-- Every file operation keeps the invariant. -/
theorem Inv.step (h : Inv node) (hstep : Step db node node') : Inv node' := by
  obtain ⟨shared, hq, hp⟩ := h
  cases hstep with
  | create c hphase hlinked =>
    rw [hphase] at hp
    obtain ⟨hwaiting, hserver, hstaging⟩ := hp
    exact ⟨shared, hq.of_eq rfl rfl rfl rfl rfl rfl fun _ _ => rfl,
      hwaiting.of_eq rfl rfl, hserver, hlinked, hstaging⟩
  | @dropBlocksAfter c hphase =>
    rw [hphase] at hp
    obtain ⟨hwaiting, hserver, hlinked, hstaging⟩ := hp
    refine ⟨shared, hq.of_eq rfl rfl rfl rfl rfl rfl fun _ _ => rfl,
      hwaiting.of_eq rfl rfl, hserver, hlinked, rfl, Nat.zero_le _, fun i => ?_⟩
    have hnone : ¬ (c.commonHeight ≤ i ∧ i < c.commonHeight + 0) := by omega
    show node.disk.staging.blocks (i + 1) =
      if c.commonHeight ≤ i ∧ i < c.commonHeight + 0 then c.blocks[i - c.commonHeight]? else none
    rw [if_neg hnone, hstaging i]
  | @writeStaged c count block hphase hblock =>
    rw [hphase] at hp
    obtain ⟨hwaiting, hserver, hlinked, hindex, -, hstaged⟩ := hp
    have hlt := (List.getElem?_eq_some_iff.1 hblock).1
    exact ⟨shared, hq.of_eq rfl rfl rfl rfl rfl rfl fun _ _ => rfl,
      hwaiting.of_eq rfl rfl, hserver, hlinked, hindex, hlt, hstaged.write hblock⟩
  | indexStaged hphase =>
    rw [hphase] at hp
    obtain ⟨hwaiting, hserver, hlinked, -, hle, hstaged⟩ := hp
    exact ⟨shared, hq.of_eq rfl rfl rfl rfl rfl rfl fun _ _ => rfl,
      hwaiting.of_eq rfl rfl, hserver, hlinked, rfl, hle, hstaged⟩
  | blocksWritten hphase =>
    rw [hphase] at hp
    obtain ⟨hwaiting, hserver, hlinked, hindex, -, hstaged⟩ := hp
    exact ⟨shared, hq.of_eq rfl rfl rfl rfl rfl rfl fun _ _ => rfl,
      ⟨hwaiting.shows_chain, (by simp), hwaiting.shared_eq⟩, Nat.zero_le _,
      ⟨hlinked, hserver, fun i hi => absurd hi (Nat.not_lt_zero i), hindex, hstaged⟩⟩
  | @writeMessage c count message hphase hmessage =>
    rw [hphase] at hp
    obtain ⟨hwaiting, -, hnotified⟩ := hp
    have hlt := (List.getElem?_eq_some_iff.1 hmessage).1
    have hserver : node.disk.indexServer.getD 0 = node.log.length + count := by
      rw [hnotified.indexServer, Option.getD_some]
    refine ⟨shared, hq.of_eq rfl rfl rfl rfl rfl rfl fun i hi => ?_,
      hwaiting.of_eq rfl rfl, hlt,
      ⟨hnotified.linked, hnotified.indexServer, fun i hi => ?_, hnotified.stagingIndex, hnotified.staged⟩⟩
    · show Function.update node.disk.messages (node.disk.indexServer.getD 0) (some message) i = _
      rw [hserver, Function.update_of_ne (by omega)]
    · show Function.update node.disk.messages (node.disk.indexServer.getD 0) (some message) (node.log.length + i) = _
      rw [hserver]
      by_cases hlast : i = count
      · rw [hlast, Function.update_self, hmessage]
      · have hold : i < count + 0 := by
          have hi' : i < count + 1 := hi
          omega
        rw [Function.update_of_ne (by omega), hnotified.messages i hold]
  | indexMessage hphase =>
    rw [hphase] at hp
    obtain ⟨hwaiting, hle, hnotified⟩ := hp
    refine ⟨shared, hq.of_eq rfl rfl rfl rfl rfl rfl fun _ _ => rfl,
      hwaiting.of_eq rfl rfl, hle,
      ⟨hnotified.linked, ?_, hnotified.messages, hnotified.stagingIndex, hnotified.staged⟩⟩
    show increment node.disk.indexServer = _
    rw [hnotified.indexServer]
    rfl
  | @preStateWritten c hphase =>
    rw [hphase] at hp
    obtain ⟨hwaiting, -, hnotified⟩ := hp
    obtain ⟨stateTmpHeight, hdisk⟩ := preStateWritten_eq db c.newHeight node.disk
    rw [hdisk]
    have hok : PhaseOk node.disk node.chain node.log shared (.prepared c) := ⟨hwaiting, hnotified⟩
    exact ⟨shared, hq.of_eq rfl rfl rfl rfl rfl rfl fun _ _ => rfl, hok.of_eq rfl rfl rfl rfl fun _ _ => rfl⟩
  | @stateWritten c hphase =>
    rw [hphase] at hp
    obtain ⟨hwaiting, hnotified⟩ := hp
    have hlen : (node.log ++ c.messages).length = node.log.length + c.messages.length := List.length_append
    have hpos : 0 < c.messages.length := Nat.succ_pos 1
    have hshared := hwaiting.shared_eq
    have hr := hnotified.restorable hwaiting.shows_chain
    refine ⟨shared, hq.append rfl rfl rfl rfl rfl rfl rfl hnotified.messages, ⟨rfl, ?_, ?_⟩,
      hr.of_storage rfl hr.height_ge hr.agrees⟩
    · rw [hlen]
      omega
    · rw [hlen]
      exact hnotified.indexServer
  | @dropStored c hphase =>
    rw [hphase] at hp
    obtain ⟨hreached, hr⟩ := hp
    have hge := hr.height_ge
    have hlt := hr.lt
    have hstorage : ∀ files : BlockFiles Block, c.commonHeight ≤ files.chainHeight →
        Agrees files node.chain c.commonHeight →
        (if c.commonHeight + 1 ≤ files.chainHeight then files.setHeight c.commonHeight else files).chainHeight =
            c.commonHeight ∧
          Agrees (if c.commonHeight + 1 ≤ files.chainHeight then files.setHeight c.commonHeight else files)
            node.chain c.commonHeight := by
      intro files hle hagrees
      split
      · exact ⟨rfl, hagrees.congr rfl⟩
      · exact ⟨by omega, hagrees⟩
    obtain ⟨hheight, hagrees⟩ := hstorage node.disk.storage hge hr.agrees
    exact ⟨shared, hq.of_eq rfl rfl rfl rfl rfl rfl fun _ _ => rfl,
      hreached.of_eq rfl rfl,
      hr.of_storage rfl (Nat.le_of_eq hheight.symm) hagrees, hheight, Nat.le_of_lt hlt,
      hagrees⟩
  | @writeStored c height hphase hlt =>
    rw [hphase] at hp
    obtain ⟨hreached, hr, hheight, -, hagrees⟩ := hp
    have hge := hr.height_ge
    have hstaging : node.disk.staging.chainHeight = node.chain.length := by
      rw [BlockFiles.chainHeight, hr.stagingIndex, Option.getD_some]
    have hblock : node.disk.staging.blocks (height + 1) = node.chain[height]? := by
      rw [hr.staged height, if_pos (by omega)]
    have hwritten : Agrees (node.disk.storage.writeBlock (height + 1) (node.disk.staging.blocks (height + 1)))
        node.chain (height + 1) := Agrees.write hagrees hblock
    exact ⟨shared, hq.of_eq rfl rfl rfl rfl rfl rfl fun _ _ => rfl,
      hreached.of_eq rfl rfl,
      hr.of_storage rfl hge (hwritten.mono (by omega)), hheight,
      show height + 1 ≤ node.chain.length by omega, hwritten⟩
  | @indexStored c height hphase =>
    rw [hphase] at hp
    obtain ⟨hreached, hr, hheight, hle, hagrees⟩ := hp
    have hge := hr.height_ge
    have hmoved : Agrees (node.disk.storage.setHeight (height + 1)) node.chain (height + 1) := Agrees.congr hagrees rfl
    exact ⟨shared, hq.of_eq rfl rfl rfl rfl rfl rfl fun _ _ => rfl,
      hreached.of_eq rfl rfl,
      hr.of_storage rfl (show c.commonHeight ≤ height + 1 by omega) (hmoved.mono (by omega)),
      rfl, hle, hmoved⟩
  | @moved c height hphase hle =>
    rw [hphase] at hp
    obtain ⟨hreached, hr, hheight, hle', hagrees⟩ := hp
    have hlt := hr.lt
    have hstaging : node.disk.staging.chainHeight = node.chain.length := by
      rw [BlockFiles.chainHeight, hr.stagingIndex, Option.getD_some]
    have hend : height = node.chain.length := by
      have hle'' : height + 0 ≤ node.chain.length := hle'
      omega
    refine ⟨shared, hq.of_eq rfl rfl rfl rfl rfl rfl fun _ _ => rfl,
      hreached.of_eq rfl rfl, ⟨hheight.trans hend, ?_⟩,
      Nat.lt_of_le_of_lt (Nat.zero_le _) hlt, .inr hr.stagingIndex, fun i => ?_⟩
    · rw [← hend]
      exact hagrees
    · rw [hr.staged i]
      split
      · exact .inr rfl
      · exact .inl rfl
  | removeIndex hphase =>
    have hp' := hp
    rw [hphase] at hp'
    obtain ⟨hreached, hshows, hpos, -, hstaged⟩ := hp'
    refine ⟨shared, hq.of_eq rfl rfl rfl rfl rfl rfl fun _ _ => rfl, ?_⟩
    show PhaseOk _ node.chain node.log shared node.phase
    rw [hphase]
    exact ⟨hreached.of_eq rfl rfl, hshows, hpos, .inl rfl, hstaged⟩
  | removeBlocks hphase heights =>
    have hp' := hp
    rw [hphase] at hp'
    obtain ⟨hreached, hshows, hpos, hindex, hstaged⟩ := hp'
    refine ⟨shared, hq.of_eq rfl rfl rfl rfl rfl rfl fun _ _ => rfl, ?_⟩
    show PhaseOk _ node.chain node.log shared node.phase
    rw [hphase]
    refine ⟨hreached.of_eq rfl rfl, hshows, hpos, hindex, fun i => ?_⟩
    show (if heights (i + 1) then none else node.disk.staging.blocks (i + 1)) = none ∨
      (if heights (i + 1) then none else node.disk.staging.blocks (i + 1)) = node.chain[i]?
    split
    · exact .inl rfl
    · exact hstaged i
  | purged hphase hpurged =>
    rw [hphase] at hp
    obtain ⟨hreached, hshows, -⟩ := hp
    exact ⟨shared, hq.of_eq rfl rfl rfl rfl rfl rfl fun _ _ => rfl, hshows, hpurged, hreached.indexServer,
      .inl ⟨hreached.of_eq rfl rfl, finishOperations_cases db⟩⟩
  | @finish operation operations hphase =>
    rw [hphase] at hp
    obtain ⟨hshows, hpurged, hserver, ⟨hreached, hops⟩ | ⟨hupdated, hlt, hops⟩ | ⟨-, -, hops⟩⟩ := hp
    · rcases hops with hops | hops | hops <;> obtain ⟨rfl, rfl⟩ := List.cons.inj hops
      · exact ⟨shared, hq.of_eq rfl rfl rfl rfl rfl rfl fun _ _ => rfl, hshows, hpurged, hserver,
          .inl ⟨hreached.of_eq rfl rfl, .inr (.inl rfl)⟩⟩
      · exact ⟨shared, hq.of_eq rfl rfl rfl rfl rfl rfl fun _ _ => rfl, hshows, hpurged, hserver,
          .inl ⟨hreached.of_eq rfl rfl, .inr (.inr rfl)⟩⟩
      · exact ⟨shared, hq.of_eq rfl rfl rfl rfl rfl rfl fun _ _ => rfl, hshows, hpurged, hserver,
          .inr (.inl ⟨rfl, hreached.shared_lt, rfl⟩)⟩
    · obtain ⟨rfl, rfl⟩ := List.cons.inj hops
      have hindex : node.disk.finish .setIndex = { node.disk with index := node.disk.indexServer } := by
        rw [Disk.finish, if_pos (by rw [hserver]; rfl)]
      rw [hindex]
      exact ⟨node.log.length, ⟨hserver, hq.serverReader, Nat.le_trans hq.reader_le hq.shared_le, Nat.le_refl _,
        hq.messages, hq.broker.mono hq.shared_le⟩, hshows, hpurged, hserver, .inr (.inr ⟨hupdated, rfl, rfl⟩)⟩
    · cases hops
  | finished hphase =>
    rw [hphase] at hp
    obtain ⟨hshows, hpurged, hserver, ⟨-, hops⟩ | ⟨-, -, hops⟩ | ⟨hupdated, hshared, -⟩⟩ := hp
    · rcases hops with hops | hops | hops <;> cases hops
    · cases hops
    · refine ⟨shared, hq.of_eq rfl rfl rfl rfl rfl rfl fun _ _ => rfl, ⟨hshows, ?_, hshared⟩, hserver, fun i => ?_⟩
      · show node.disk.commitStep ≠ _
        rw [hupdated]
        simp
      · show node.disk.staging.blocks (i + 1) = none
        rw [hpurged]
        rfl
  | createReader hbroker hreader =>
    have hbrokerOk := hq.broker
    rw [hbroker, hreader] at hbrokerOk
    refine ⟨shared, ⟨hq.index, hq.serverReader, Nat.zero_le _, hq.shared_le, ?_, ?_⟩,
      hp.of_eq rfl rfl rfl rfl fun _ _ => rfl⟩
    · have hmessages := hq.messages
      rw [hreader] at hmessages
      exact hmessages
    · show BrokerOk (some 0) node.forwarded node.log shared node.broker
      rw [hbroker]
      exact hbrokerOk
  | @forward reader message hbroker hreader hlt hmessage =>
    have hbrokerOk := hq.broker
    have hmessages := hq.messages
    rw [hreader, Option.getD_some] at hmessages
    rw [hbroker, hreader] at hbrokerOk
    have hreaderLt := hq.shared_lt_length hlt
    have hlen := hq.shared_le
    refine ⟨shared, ⟨hq.index, hq.serverReader, hq.reader_le, hq.shared_le, hq.messages, hreader, hreaderLt, ?_⟩,
      hp.of_eq rfl rfl rfl rfl fun _ _ => rfl⟩
    rw [hmessages reader (Nat.le_refl _) (by omega)] at hmessage
    rw [List.take_add_one, hmessage]
    exact congrArg (· ++ [message]) hbrokerOk
  | @advance reader hbroker =>
    have hbrokerOk := hq.broker
    rw [hbroker] at hbrokerOk
    obtain ⟨hreader, hlt, hforwarded⟩ := hbrokerOk
    have hincrement : increment node.disk.indexBrokerReader = some (reader + 1) := by
      rw [hreader]
      rfl
    have hmessages := hq.messages
    rw [hreader, Option.getD_some] at hmessages
    refine ⟨shared, ⟨hq.index, hq.serverReader, ?_, hq.shared_le, ?_, hincrement, hforwarded⟩,
      hp.of_eq rfl rfl rfl rfl fun _ _ => rfl⟩
    · rw [hincrement]
      exact hlt
    · rw [hincrement]
      exact fun i hi hlog => hmessages i (Nat.le_of_succ_le hi) hlog
  | @removeMessage reader hbroker =>
    have hbrokerOk := hq.broker
    rw [hbroker] at hbrokerOk
    obtain ⟨hreader, hforwarded⟩ := hbrokerOk
    have hreaderLe := hq.reader_le
    have hlen := hq.shared_le
    rw [hreader, Option.getD_some] at hreaderLe
    refine ⟨shared, ⟨hq.index, hq.serverReader, hq.reader_le, hq.shared_le, fun i hi hlog => ?_, ?_⟩,
      hp.of_eq rfl rfl rfl rfl fun i hi => ?_⟩
    · show Function.update node.disk.messages reader none i = _
      have hi' : reader + 1 ≤ i := by
        have hge : node.disk.indexBrokerReader.getD 0 ≤ i := hi
        rwa [hreader, Option.getD_some] at hge
      rw [Function.update_of_ne (by omega)]
      exact hq.messages i hi hlog
    · show node.forwarded = node.log.take (node.disk.indexBrokerReader.getD 0)
      rw [hreader]
      exact hforwarded
    · exact Function.update_of_ne (by omega) _ _

/-- A node that has been started: nothing is staged, the shared index is the end of the log, and the broker has
forwarded the messages below its index. -/
structure Started (node : Node Block Message) : Prop where
  phase : node.phase = .idle
  broker : node.broker = .idle
  step : node.disk.commitStep ≠ some .stateWritten
  shows_chain : Shows node.disk.storage node.chain
  staging : ∀ i, node.disk.staging.blocks (i + 1) = none
  indexServer : node.disk.indexServer = some node.log.length
  index : node.disk.index = some node.log.length
  serverReader : node.disk.indexServerReader = none
  reader_le : node.disk.indexBrokerReader.getD 0 ≤ node.log.length
  messages : ∀ i, node.disk.indexBrokerReader.getD 0 ≤ i → i < node.log.length → node.disk.messages i = node.log[i]?
  forwarded : node.forwarded = node.log.take (node.disk.indexBrokerReader.getD 0)

theorem Started.inv (h : Started node) : Inv node := by
  refine ⟨node.log.length, ⟨h.index, h.serverReader, h.reader_le, Nat.le_refl _, h.messages, ?_⟩, ?_⟩
  · rw [h.broker]
    exact h.forwarded
  · rw [h.phase]
    exact ⟨⟨h.shows_chain, h.step, rfl⟩, h.indexServer, h.staging⟩

theorem Run.inv {initial : Node Block Message} (hstarted : Started initial) (h : Run db initial node) : Inv node := by
  induction h with
  | start => exact hstarted.inv
  | step _ hstep ih => exact ih.step hstep

/-! ### Recovery -/

def IndexBehind (disk : Disk Block Message) : Prop := disk.commitStep = some .allUpdated ∧ disk.index ≠ disk.indexServer

/-- The staged block at the height of the staging directory has been removed, the index file has not. -/
def StagedTipMissing (disk : Disk Block Message) : Prop :=
  disk.commitStep = some .stateWritten ∧ disk.staging.chainHeight ≠ 0 ∧
    disk.staging.blocks disk.staging.chainHeight = none

/-- The messages of a log have been forwarded once and in order, but for one that the broker has forwarded without
having advanced its index: it is forwarded once more. -/
def Delivered (forwarded recovered log : List Message) : BrokerPhase → Prop
  | .forwarded _ => ∃ before message after, forwarded = before ++ [message] ∧ recovered = message :: after ∧
      log = before ++ message :: after
  | _ => forwarded ++ recovered = log

theorem BrokerOk.delivered {reader : Option Nat} {forwarded log : List Message} {broker : BrokerPhase}
    (h : BrokerOk reader forwarded log shared broker) (hshared : shared ≤ log.length) :
    Delivered forwarded (log.drop (reader.getD 0)) log broker := by
  cases broker with
  | idle =>
    show forwarded ++ log.drop (reader.getD 0) = log
    rw [show forwarded = _ from h, List.take_append_drop]
  | forwarded index =>
    obtain ⟨rfl, hlt, rfl⟩ := h
    have hlog : index < log.length := by omega
    refine ⟨log.take index, log[index], log.drop (index + 1), ?_, ?_, ?_⟩
    · rw [List.take_add_one, List.getElem?_eq_getElem hlog]
      rfl
    · exact List.drop_eq_getElem_cons hlog
    · rw [← List.drop_eq_getElem_cons hlog, List.take_append_drop]
  | advanced index =>
    obtain ⟨rfl, rfl⟩ := h
    exact List.take_append_drop _ _

theorem take_drop_append {log : List Message} {reader middle last : Nat} (hle : reader ≤ middle)
    (hle' : middle ≤ last) : (log.drop reader).take (middle - reader) ++ (log.drop middle).take (last - middle) =
      (log.take last).drop reader := by
  have hfirst : (log.drop reader).take (middle - reader) = ((log.take last).drop reader).take (middle - reader) := by
    rw [List.drop_take, List.take_take, Nat.min_eq_left (by omega)]
  have hrest : (log.drop middle).take (last - middle) = ((log.take last).drop reader).drop (middle - reader) := by
    rw [← List.drop_take, List.drop_drop, Nat.add_sub_cancel' hle]
  rw [hfirst, hrest, List.take_append_drop]

theorem QueueOk.repairState (h : QueueOk node shared) {disk : Disk Block Message} {last : Nat}
    (hindex : disk.index = node.disk.index) (hreader : disk.indexBrokerReader = node.disk.indexBrokerReader)
    (hserverReader : disk.indexServerReader = node.disk.indexServerReader)
    (hmessages : disk.messages = node.disk.messages)
    (hserver : disk.indexServer = some last) (hge : shared ≤ last) (hle : last ≤ node.log.length) :
    ∃ disk', repairState disk =
        some (disk', (node.log.take last).drop (node.disk.indexBrokerReader.getD 0)) ∧
      disk'.storage = disk.storage ∧ disk'.staging = disk.staging := by
  have hfinal : (finalReader disk).getD 0 = node.disk.indexBrokerReader.getD 0 := by
    rw [finalReader, hreader, hserverReader, h.serverReader]
    cases node.disk.indexBrokerReader <;> rfl
  have hreaderLe := h.reader_le
  obtain ⟨messages₁, hread₁, hrest₁⟩ : ∃ messages₁, readAll disk.messages (node.disk.indexBrokerReader.getD 0)
      (shared - node.disk.indexBrokerReader.getD 0) = some ((node.log.drop (node.disk.indexBrokerReader.getD 0)).take
        (shared - node.disk.indexBrokerReader.getD 0), messages₁) ∧
          ∀ i, shared ≤ i → messages₁ i = disk.messages i := by
    have hend : node.disk.indexBrokerReader.getD 0 + (shared - node.disk.indexBrokerReader.getD 0) = shared :=
      Nat.add_sub_cancel' hreaderLe
    have hlog : ∀ i, node.disk.indexBrokerReader.getD 0 ≤ i →
        i < node.disk.indexBrokerReader.getD 0 + (shared - node.disk.indexBrokerReader.getD 0) →
        disk.messages i = node.log[i]? := by
      intro i hi hi'
      rw [hmessages, h.messages i hi (by omega)]
    obtain ⟨messages₁, hread, hrest⟩ := readAll_log (by omega) hlog
    exact ⟨messages₁, hread, fun i hi => hrest i (by omega)⟩
  obtain ⟨messages₂, hread₂, -⟩ : ∃ messages₂, readAll messages₁ shared (last - shared) =
      some ((node.log.drop shared).take (last - shared), messages₂) ∧
        ∀ i, shared + (last - shared) ≤ i → messages₂ i = messages₁ i :=
    readAll_log (by omega) fun i hi hi' => by
      rw [hrest₁ i hi, hmessages, h.messages i (by omega) (by omega)]
  unfold Recovery.repairState
  simp only [hfinal, hindex, h.index, Option.getD_some, hserver, hread₁, hread₂, take_drop_append hreaderLe hge]
  refine ⟨_, rfl, ?_, ?_⟩
  · unfold setFinalReader
    split <;> rfl
  · unfold setFinalReader
    split <;> rfl

theorem QueueOk.recover_spooled (h : QueueOk node shared) (hstep : node.disk.commitStep ≠ some .stateWritten)
    (hstate : stateAccepted db node.disk = true) :
    ∃ disk', recover db node.disk =
        some (disk', (node.log.take shared).drop (node.disk.indexBrokerReader.getD 0)) ∧
      disk'.storage = node.disk.storage := by
  have hmarker : node.disk.commitStep.getD .allUpdated ≠ .stateWritten := by
    cases hcase : node.disk.commitStep with
    | none => simp
    | some step => exact fun heq => hstep (by rw [hcase, heq.symm]; rfl)
  have hspooled : repairSpooling node.disk = { node.disk with staging := .purged, indexServer := some shared } := by
    rw [repairSpooling, if_neg hmarker]
    simp only [h.index]
  obtain ⟨disk', hrepair, hstorage, -⟩ : ∃ disk', Recovery.repairState (repairSpooling node.disk) =
      some (disk', (node.log.take shared).drop (node.disk.indexBrokerReader.getD 0)) ∧
        disk'.storage = (repairSpooling node.disk).storage ∧ disk'.staging = (repairSpooling node.disk).staging := by
    rw [hspooled]
    exact h.repairState rfl rfl rfl rfl rfl (Nat.le_refl _) h.shared_le
  have haccepted : stateAccepted db (repairSpooling node.disk) = true := by
    rw [hspooled]
    exact hstate
  refine ⟨{ disk' with stateTmpHeight := none, commitStep := none }, ?_, ?_⟩
  · unfold recover
    simp only [haccepted, if_true, hrepair]
    rw [if_pos hmarker]
  · show disk'.storage = _
    rw [hstorage, hspooled]

theorem QueueOk.recover_reached (h : QueueOk node shared) (hreached : Reached node.disk node.log shared)
    (hstate : stateAccepted db node.disk = true)
    (hmove : ∀ disk : Disk Block Message, disk.storage = node.disk.storage → disk.staging = node.disk.staging →
      ∃ disk', moveStaged disk = some disk' ∧ Shows disk'.storage node.chain) :
    ∃ disk', recover db node.disk = some (disk', node.log.drop (node.disk.indexBrokerReader.getD 0)) ∧
      Shows disk'.storage node.chain := by
  have hspooled : repairSpooling node.disk = node.disk := by
    rw [repairSpooling, hreached.step, Option.getD_some, if_pos rfl]
  obtain ⟨disk, hrepair, hstorage, hstaging⟩ := h.repairState rfl rfl rfl rfl hreached.indexServer h.shared_le
    (Nat.le_refl _)
  rw [List.take_length] at hrepair
  have hfiles : (moveSupplementalDataFiles disk).storage = disk.storage ∧
      (moveSupplementalDataFiles disk).staging = disk.staging := by
    unfold moveSupplementalDataFiles
    split <;> exact ⟨rfl, rfl⟩
  obtain ⟨disk', hmoved, hshows⟩ := hmove (moveSupplementalDataFiles disk) (hfiles.1.trans hstorage)
    (hfiles.2.trans hstaging)
  refine ⟨{ disk' with commitStep := none }, ?_, hshows⟩
  unfold recover
  simp only [hspooled, hstate, if_true, hrepair, hreached.step, Option.getD_some, ne_eq, not_true, if_false, hmoved,
    Option.map_some]

theorem Restorable.moveStaged {disk disk' : Disk Block Message} {chain : List Block} {c : Commit Block Message}
    (h : Restorable disk chain c) (hstorage : disk'.storage = disk.storage) (hstaging : disk'.staging = disk.staging) :
    ∃ disk'', moveStaged disk' = some disk'' ∧ Shows disk''.storage chain := by
  have hpos := h.pos
  have hlt := h.lt
  have hge := h.height_ge
  have hblocks : ∀ i, disk'.staging.blocks (i + 1) = if c.commonHeight ≤ i then chain[i]? else none := by
    rw [hstaging]
    exact h.staged
  have htip : disk'.staging.blocks chain.length ≠ none := by
    rw [show chain.length = chain.length - 1 + 1 by omega, hblocks, if_pos (by omega),
      List.getElem?_eq_getElem (by omega)]
    exact Option.some_ne_none _
  refine moveStaged_shows (by omega) ?_ htip (fun i hi => ?_) fun k hk => ?_
  · rw [hstaging, BlockFiles.chainHeight, h.stagingIndex, Option.getD_some]
  · rw [hblocks i]
    split
    · exact .inr rfl
    · exact .inl rfl
  · -- the first staged block is the one after the common height
    obtain ⟨-, hle, hpresent, hfirst⟩ := findStartHeight_spec (by omega) htip
    rw [hk] at hle hpresent hfirst
    have hkle : k ≤ c.commonHeight := by
      rcases hfirst with hone | hnone
      · omega
      · by_contra hgt
        rw [Nat.add_sub_cancel, show k = k - 1 + 1 by omega, hblocks, if_pos (by omega),
          List.getElem?_eq_getElem (by omega)] at hnone
        cases hnone
    rw [hstorage]
    exact ⟨by omega, h.agrees.mono hkle⟩

theorem Shows.moveStaged {disk : Disk Block Message} {chain : List Block} (h : Shows disk.storage chain)
    (hpos : 0 < chain.length) (hindex : disk.staging.indexFile = none ∨ disk.staging.indexFile = some chain.length)
    (hblocks : ∀ i, disk.staging.blocks (i + 1) = none ∨ disk.staging.blocks (i + 1) = chain[i]?)
    (htip : disk.staging.chainHeight ≠ 0 → disk.staging.blocks disk.staging.chainHeight ≠ none) :
    ∃ disk', moveStaged disk = some disk' ∧ Shows disk'.storage chain := by
  rcases hindex with hindex | hindex
  · refine ⟨disk, ?_, h⟩
    rw [Recovery.moveStaged, BlockFiles.chainHeight, hindex, if_pos (Option.getD_none ..)]
  · have hheight : disk.staging.chainHeight = chain.length := by
      rw [BlockFiles.chainHeight, hindex, Option.getD_some]
    rw [hheight] at htip
    have htip' := htip (by omega)
    refine moveStaged_shows hpos hheight htip' (fun i _ => hblocks i) fun k hk => ?_
    have hle := (findStartHeight_spec hpos htip').2.1
    have hstorage := h.height
    exact ⟨by omega, h.agrees.mono (by omega)⟩

/-- Recovery after a crash between any two file operations: every message of a commit that has reached `State_Written`
is forwarded in order, and once but for the one that the broker has forwarded without having advanced its index; no
other message is forwarded. The storage shows the chain of these commits. -/
theorem recovers {initial : Node Block Message} (hstarted : Started initial) (h : Run db initial node)
    (hindex : ¬ IndexBehind node.disk) (hstaging : ¬ StagedTipMissing node.disk)
    (hstate : stateAccepted db node.disk = true) :
    ∃ disk recovered, recover db node.disk = some (disk, recovered) ∧
      Delivered node.forwarded recovered node.log node.broker ∧ Shows disk.storage node.chain := by
  obtain ⟨shared, hq, hp⟩ := h.inv hstarted
  have hdelivered := hq.broker.delivered hq.shared_le
  have hwaiting : node.disk.commitStep ≠ some .stateWritten → shared = node.log.length →
      Shows node.disk.storage node.chain → ∃ disk recovered, recover db node.disk = some (disk, recovered) ∧
        Delivered node.forwarded recovered node.log node.broker ∧ Shows disk.storage node.chain := by
    intro hstep hshared hshows
    obtain ⟨disk, hrecover, hstorage⟩ := hq.recover_spooled hstep hstate
    rw [hshared, List.take_length] at hrecover
    exact ⟨disk, _, hrecover, hdelivered, by rw [hstorage]; exact hshows⟩
  have hmarked : Reached node.disk node.log shared →
      (∀ disk : Disk Block Message, disk.storage = node.disk.storage → disk.staging = node.disk.staging →
        ∃ disk', Recovery.moveStaged disk = some disk' ∧ Shows disk'.storage node.chain) →
      ∃ disk recovered, recover db node.disk = some (disk, recovered) ∧
        Delivered node.forwarded recovered node.log node.broker ∧ Shows disk.storage node.chain := by
    intro hreached hmove
    obtain ⟨disk, hrecover, hshows⟩ := hq.recover_reached hreached hstate hmove
    exact ⟨disk, _, hrecover, hdelivered, hshows⟩
  cases hphase : node.phase <;> rw [hphase] at hp
  case idle | opened | saving | notifying | prepared => exact hwaiting hp.1.step hp.1.shared_eq hp.1.shows_chain
  case committing => exact hmarked hp.1 fun disk => hp.2.moveStaged
  case moving => exact hmarked hp.1 fun disk => hp.2.1.moveStaged
  case purging =>
    obtain ⟨hreached, hshows, hpos, hindexFile, hblocks⟩ := hp
    refine hmarked hreached fun disk hstorage hstaged => ?_
    refine Shows.moveStaged (by rw [hstorage]; exact hshows) hpos (by rw [hstaged]; exact hindexFile)
      (by rw [hstaged]; exact hblocks) fun hne hnone => hstaging ⟨hreached.step, ?_, ?_⟩
    · rw [← hstaged]
      exact hne
    · rw [← hstaged]
      exact hnone
  case finishing operations =>
    obtain ⟨hshows, hpurged, hserver, ⟨hreached, -⟩ | ⟨hupdated, hlt, -⟩ | ⟨hupdated, hshared, -⟩⟩ := hp
    · refine hmarked hreached fun disk hstorage hstaged => ⟨disk, ?_, by rw [hstorage]; exact hshows⟩
      rw [Recovery.moveStaged, hstaged, hpurged]
      exact if_pos rfl
    · refine absurd ⟨hupdated, ?_⟩ hindex
      rw [hq.index, hserver]
      exact fun heq => absurd (Option.some.inj heq) (by omega)
    · exact hwaiting (by rw [hupdated]; simp) hshared hshows

def sampleNode : Node Nat Nat where
  disk := {
    commitStep := some .allUpdated
    indexServer := some 2
    index := some 2
    indexBrokerReader := none
    indexServerReader := none
    messages := fun i => [0, 1][i]?
    storage := ⟨some 2, fun height => [9, 10, 11][height]?⟩
    staging := .purged
    stateHeight := some 2
    stateTmpHeight := none }
  phase := .idle
  broker := .idle
  forwarded := []
  chain := [10, 11]
  log := [0, 1]

def sampleCommit : Commit Nat Nat := ⟨1, [20, 21], 2, 3⟩

theorem started_sampleNode : Started sampleNode :=
  ⟨rfl, rfl, by decide, ⟨rfl, fun _ _ => rfl⟩, fun _ => rfl, rfl, rfl, rfl, by decide, fun _ _ _ => rfl, rfl⟩

/-- The broker has forwarded a message and one of the two blocks has been moved. -/
theorem recovers_moving : ∃ (node : Node Nat Nat) (disk : Disk Nat Nat) (recovered : List Nat),
    Run true sampleNode node ∧ node.phase = .moving sampleCommit 2 true ∧
      recover true node.disk = some (disk, recovered) ∧
      Delivered [0] recovered [0, 1, 2, 3] (.forwarded 0) ∧ Shows disk.storage [10, 20, 21] := by
  have hlinked : sampleCommit.Linked sampleNode.chain := ⟨by decide, by decide, by decide⟩
  have hstart : Run true sampleNode sampleNode := .start
  have hforwarded := (hstart.step (.createReader rfl rfl)).step (.forward rfl rfl (by decide) rfl)
  have hstaged := ((((((hforwarded.step (.create sampleCommit rfl hlinked)).step (.dropBlocksAfter rfl)).step
    (.writeStaged rfl rfl)).step (.indexStaged rfl)).step (.writeStaged rfl rfl)).step (.indexStaged rfl)).step
    (.blocksWritten rfl)
  have hcommitting := (((((hstaged.step (.writeMessage rfl rfl)).step (.indexMessage rfl)).step
    (.writeMessage rfl rfl)).step (.indexMessage rfl)).step (.preStateWritten rfl)).step (.stateWritten rfl)
  have hmoving := (((hcommitting.step (.dropStored rfl)).step (.writeStored rfl (by decide))).step
    (.indexStored rfl)).step (.writeStored rfl (by decide))
  obtain ⟨disk, recovered, hrecover, hdelivered, hshows⟩ := recovers started_sampleNode hmoving
    (fun h => absurd h.1 (by decide)) (fun h => absurd h.2.2 (by decide)) (by decide)
  exact ⟨_, disk, recovered, hmoving, rfl, hrecover, hdelivered, hshows⟩

/-- Nodes where recovery forwards a message for the second time, leaves the messages of a commit out, and stops. -/
theorem not_exactly_once :
    (∃ node : Node Nat Nat, Run true sampleNode node ∧ node.forwarded = [0] ∧ node.log = [0, 1] ∧
      (recover true node.disk).map Prod.snd = some [0, 1]) ∧
    (∃ node : Node Nat Nat, Run true sampleNode node ∧ IndexBehind node.disk ∧ node.forwarded = [] ∧
      node.log = [0, 1, 2, 3] ∧ (recover true node.disk).map Prod.snd = some [0, 1]) ∧
    (∃ node : Node Nat Nat, Run true sampleNode node ∧ StagedTipMissing node.disk ∧
      stateAccepted true node.disk = true ∧ recover true node.disk = none) ∧
    ∃ node : Node Nat Nat, Run true sampleNode node ∧ stateAccepted true node.disk = false ∧
      recover true node.disk = none := by
  have hlinked : sampleCommit.Linked sampleNode.chain := ⟨by decide, by decide, by decide⟩
  have hstart : Run true sampleNode sampleNode := .start
  have hforwarded := (hstart.step (.createReader rfl rfl)).step (.forward rfl rfl (by decide) rfl)
  have hstaged := ((((((hstart.step (.create sampleCommit rfl hlinked)).step (.dropBlocksAfter rfl)).step
    (.writeStaged rfl rfl)).step (.indexStaged rfl)).step (.writeStaged rfl rfl)).step (.indexStaged rfl)).step
    (.blocksWritten rfl)
  have hcommitting := (((((hstaged.step (.writeMessage rfl rfl)).step (.indexMessage rfl)).step
    (.writeMessage rfl rfl)).step (.indexMessage rfl)).step (.preStateWritten rfl)).step (.stateWritten rfl)
  have hdropped := hcommitting.step (.dropStored rfl)
  have hpurging := ((((hdropped.step (.writeStored rfl (by decide))).step (.indexStored rfl)).step
    (.writeStored rfl (by decide))).step (.indexStored rfl)).step (.moved rfl (by decide))
  have htipRemoved := hpurging.step (.removeBlocks rfl fun height => height == 3)
  have hpurged := ((hpurging.step (.removeBlocks rfl fun _ => true)).step (.removeIndex rfl)).step (.purged rfl rfl)
  have hupdated := ((hpurged.step (.finish rfl)).step (.finish rfl)).step (.finish rfl)
  refine ⟨⟨_, hforwarded, rfl, rfl, ?_⟩, ⟨_, hupdated, ?_, rfl, rfl, ?_⟩, ⟨_, htipRemoved, ?_, ?_, ?_⟩,
    ⟨_, hdropped, ?_, ?_⟩⟩
  · decide
  · exact ⟨rfl, by decide⟩
  · decide
  · exact ⟨rfl, by decide, rfl⟩
  · decide
  · rfl
  · decide
  · rfl

end Catapult.Recovery
