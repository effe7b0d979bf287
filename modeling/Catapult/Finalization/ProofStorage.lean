import Catapult.Finalization.ProofGrouping
import Catapult.Io.FileDatabase
import Catapult.Lib.Reader
import Catapult.Lib.Stateful

/-!
# Proof storage (`FileProofStorage`, `AggregateProofStorage`)

The proofs are in a file database, at their epochs, and the statistics of the last proof in an index file. The local
finalizer and the synchronizer of proofs both save through the aggregate storage, each under the lock of the storage,
so that a run is a sequence of proofs in any order. An older proof is skipped; a proof that leaves out an epoch or
goes back in height is refused.
-/

namespace Catapult.Finalization
open Stateful (get_apply)
open Reader
open Io (FileDatabase FileError Contents)

structure ProofEntity where
  bytes : List UInt8
  size_eq : ofLeBytes (bytes.take 4) = bytes.length
  headerSize_le : proofHeaderSize ≤ bytes.length
  deriving DecidableEq

namespace ProofEntity

def field (offset size : Nat) (proof : ProofEntity) : List UInt8 := (proof.bytes.drop offset).take size

def round (proof : ProofEntity) : FinalizationRound :=
  ⟨UInt32.ofNat (ofLeBytes (proof.field 8 4)), UInt32.ofNat (ofLeBytes (proof.field 12 4))⟩

def height (proof : ProofEntity) : UInt64 := UInt64.ofNat (ofLeBytes (proof.field 16 8))

def hash (proof : ProofEntity) : Hash256 := BitVec.ofNat 256 (ofLeBytes (proof.field 24 32).reverse)

def statistics (proof : ProofEntity) : FinalizationStatistics := ⟨proof.round, proof.height, proof.hash⟩

end ProofEntity

inductive ProofStorageError where
  /-- "cannot save proof with round … when storage round is …" -/
  | saveRound (round storageRound : FinalizationRound)
  /-- "cannot save proof with height … when storage height is …" -/
  | saveHeight (height storageHeight : UInt64)
  /-- "loadProof called with epoch 0" -/
  | loadEpochZero
  /-- "cannot load proof with epoch … when storage epoch is …" -/
  | loadEpoch (epoch storageEpoch : UInt32)
  | file (error : FileError)
  | endOfStream

structure FileProofStorage (batchSize : Nat) where
  database : FileDatabase batchSize
  indexFile : Option FinalizationStatistics := none

namespace FileProofStorage
variable {batchSize : Nat}

def statistics (storage : FileProofStorage batchSize) : FinalizationStatistics :=
  storage.indexFile.getD ⟨⟨0, 0⟩, 0, 0⟩

def readFinalizationProof : Reader ProofStorageError (List UInt8) := sizePrefixed .endOfStream

def loadProof (storage : FileProofStorage batchSize) (epoch : UInt32) : Except ProofStorageError (List UInt8) := do
  if epoch = 0 then throw .loadEpochZero
  let currentEpoch := storage.statistics.round.epoch
  if currentEpoch < epoch then throw (.loadEpoch epoch currentEpoch)
  let stream ← (storage.database.inputStream epoch.toNat).mapError .file
  match readFinalizationProof stream with
  | .ok proof _ => return proof
  | .error e _ => throw e

def saveProof (proof : ProofEntity) : EStateM ProofStorageError (FileProofStorage batchSize) Unit := do
  let storage ← get
  let currentStatistics := storage.statistics
  if proof.round < currentStatistics.round ∨ currentStatistics.round.epoch + 1 < proof.round.epoch then
    throw (.saveRound proof.round currentStatistics.round)
  if proof.height < currentStatistics.height then throw (.saveHeight proof.height currentStatistics.height)
  match storage.database.write proof.round.epoch.toNat proof.bytes with
  | .error e => throw (.file e)
  | .ok database => set { storage with database := database }
  modify fun storage => { storage with indexFile := some proof.statistics }

end FileProofStorage

/-- The subscriber is notified of the blocks that are finalized. -/
structure AggregateProofStorage (batchSize : Nat) where
  storage : FileProofStorage batchSize
  notifications : List FinalizationStatistics := []

namespace AggregateProofStorage
variable {batchSize : Nat}

def saveProof (proof : ProofEntity) : EStateM ProofStorageError (AggregateProofStorage batchSize) Unit := do
  let aggregate ← get
  if proof.round < aggregate.storage.statistics.round then return ()
  else
    match FileProofStorage.saveProof proof aggregate.storage with
    | .ok _ storage => set (⟨storage, aggregate.notifications ++ [proof.statistics]⟩ : AggregateProofStorage batchSize)
    | .error e storage => do
      set { aggregate with storage := storage }
      throw e

end AggregateProofStorage

/-! ## Proofs that a storage holds -/

namespace FileProofStorage
open Io.Contents
variable {batchSize : Nat} {storage : FileProofStorage batchSize} {accepted : Nat → Option ProofEntity} {c : Contents}

def epoch (storage : FileProofStorage batchSize) : Nat := storage.statistics.round.epoch.toNat

structure Holds (storage : FileProofStorage batchSize) (accepted : Nat → Option ProofEntity) (c : Contents) : Prop where
  database : storage.database.Shows c
  stored : ∀ epoch, 0 < epoch → epoch ≤ storage.epoch →
    ∃ proof, accepted epoch = some proof ∧ c epoch = some proof.bytes
  beyond : ∀ epoch, storage.epoch < epoch → c epoch = none

/-- The database has exactly the proofs from the first epoch to the current one. -/
def WellFormed (storage : FileProofStorage batchSize) (accepted : Nat → Option ProofEntity) : Prop :=
  ∃ c, storage.Holds accepted c

theorem Holds.loadProof (h : storage.Holds accepted c) {epoch : UInt32} (hne : epoch ≠ 0)
    (hle : epoch ≤ storage.statistics.round.epoch) :
    ∃ proof, accepted epoch.toNat = some proof ∧ storage.loadProof epoch = .ok proof.bytes := by
  have hpos : 0 < epoch.toNat := Nat.pos_of_ne_zero fun hzero => hne (UInt32.toNat_inj.1 hzero)
  obtain ⟨proof, haccepted, hproof⟩ := h.stored epoch.toNat hpos (UInt32.le_iff_toNat_le.1 hle)
  have hreadable : Readable batchSize c epoch.toNat := by
    by_cases hlt : epoch.toNat < storage.epoch
    · obtain ⟨next, -, hnext⟩ := h.stored (epoch.toNat + 1) (by omega) (by omega)
      refine readable_of_next ?_
      rw [hnext]
      exact Option.some_ne_none _
    · exact .inr fun j hj _ => h.beyond j (by omega)
  have hstream := FileDatabase.inputStream_spec h.database hproof hreadable
  have hheader := proof.headerSize_le
  have hread : readFinalizationProof proof.bytes = .ok proof.bytes [] :=
    (Reads.sizePrefixed proof.size_eq (Nat.le_trans (by decide) hheader)).run
  refine ⟨proof, haccepted, ?_⟩
  simp only [FileProofStorage.loadProof, if_neg hne, if_neg (UInt32.not_lt.2 hle), hstream, Except.mapError]
  change (match readFinalizationProof proof.bytes with
    | .ok proof _ => _
    | .error e _ => _) = _
  rw [hread]
  rfl

theorem loadProof_beyond {epoch : UInt32} (hlt : storage.statistics.round.epoch < epoch) :
    storage.loadProof epoch = .error (.loadEpoch epoch storage.statistics.round.epoch) := by
  have hne : epoch ≠ 0 := fun hzero => by simp [hzero] at hlt
  simp only [FileProofStorage.loadProof, if_neg hne, if_pos hlt]
  rfl

structure Follows (storage : FileProofStorage batchSize) (proof : ProofEntity) : Prop where
  round : storage.statistics.round ≤ proof.round
  epoch : proof.round.epoch.toNat ≤ storage.epoch + 1
  height : storage.statistics.height ≤ proof.height

theorem epoch_le_of_round_le {round round' : FinalizationRound} (hle : round ≤ round') :
    round.epoch.toNat ≤ round'.epoch.toNat := by
  rcases Prod.Lex.toLex_le_toLex.1 hle with hlt | ⟨heq, -⟩
  · exact Nat.le_of_lt hlt
  · exact Nat.le_of_eq heq

theorem saveProof_cases (h : storage.Holds accepted c) (proof : ProofEntity) :
    (∃ error, saveProof proof storage = .error error storage) ∨
    (storage.Follows proof ∧ ∃ storage' c', saveProof proof storage = .ok () storage' ∧
      storage'.statistics = proof.statistics ∧
      storage'.Holds (Function.update accepted proof.round.epoch.toNat (some proof)) c') := by
  by_cases hround : proof.round < storage.statistics.round ∨ storage.statistics.round.epoch + 1 < proof.round.epoch
  · left
    simp only [saveProof, bind, EStateM.bind, get_apply, if_pos hround]
    exact ⟨_, rfl⟩
  by_cases hheight : proof.height < storage.statistics.height
  · left
    simp only [saveProof, bind, EStateM.bind, get_apply, if_neg hround, if_pos hheight]
    exact ⟨_, rfl⟩
  right
  obtain ⟨hle, hnext⟩ := not_or.1 hround
  have hle : storage.statistics.round ≤ proof.round := not_lt.1 hle
  have hepoch : storage.epoch ≤ proof.round.epoch.toNat := epoch_le_of_round_le hle
  have hepoch' : proof.round.epoch.toNat ≤ storage.epoch + 1 := by
    rw [UInt32.not_lt, UInt32.le_iff_toNat_le, UInt32.toNat_add, UInt32.toNat_one] at hnext
    exact Nat.le_trans hnext (Nat.mod_le _ _)
  have hlast : Last batchSize c proof.round.epoch.toNat := fun j hj _ => h.beyond j (by omega)
  obtain ⟨database, hwrite, hshows⟩ := FileDatabase.write_spec h.database (.inr hlast) proof.bytes
  refine ⟨⟨hle, hepoch', UInt64.not_lt.1 hheight⟩, ⟨database, some proof.statistics⟩, _, ?_, rfl, hshows, ?_, ?_⟩
  · simp only [saveProof, bind, EStateM.bind, get_apply, if_neg hround, if_neg hheight,
      hwrite]
    rfl
  · intro epoch hpos hepoch''
    change epoch ≤ proof.round.epoch.toNat at hepoch''
    by_cases heq : epoch = proof.round.epoch.toNat
    · rw [heq]
      exact ⟨proof, Function.update_self .., write_self⟩
    · obtain ⟨earlier, haccepted, hstored⟩ := h.stored epoch hpos (by omega)
      exact ⟨earlier, by rw [Function.update_of_ne heq, haccepted], by rw [write_of_lt (by omega), hstored]⟩
  · intro epoch hbeyond
    change proof.round.epoch.toNat < epoch at hbeyond
    by_cases hsame : epoch / batchSize = proof.round.epoch.toNat / batchSize
    · exact write_last epoch hbeyond hsame
    · rw [write_of_ne hsame]
      exact h.beyond epoch (by omega)

end FileProofStorage

namespace AggregateProofStorage
variable {batchSize : Nat} {aggregate : AggregateProofStorage batchSize} {proof : ProofEntity}
  {storage : FileProofStorage batchSize}

theorem saveProof_of_older (hlt : proof.round < aggregate.storage.statistics.round) :
    saveProof proof aggregate = .ok () aggregate := by
  simp only [saveProof, bind, EStateM.bind, get_apply, if_pos hlt]
  rfl

theorem saveProof_of_error (hnot : ¬proof.round < aggregate.storage.statistics.round) {error : ProofStorageError}
    (hthrow : FileProofStorage.saveProof proof aggregate.storage = .error error storage) :
    saveProof proof aggregate = .error error { aggregate with storage := storage } := by
  simp only [saveProof, bind, EStateM.bind, get_apply, if_neg hnot, hthrow]
  rfl

theorem saveProof_of_ok (hnot : ¬proof.round < aggregate.storage.statistics.round)
    (hok : FileProofStorage.saveProof proof aggregate.storage = .ok () storage) :
    saveProof proof aggregate = .ok () ⟨storage, aggregate.notifications ++ [proof.statistics]⟩ := by
  simp only [saveProof, bind, EStateM.bind, get_apply, if_neg hnot, hok]
  rfl

end AggregateProofStorage

/-! ## Runs -/

structure RecordedProofs (batchSize : Nat) where
  aggregate : AggregateProofStorage batchSize
  accepted : Nat → Option ProofEntity

namespace RecordedProofs
variable {batchSize : Nat} {state : RecordedProofs batchSize}

def statistics (state : RecordedProofs batchSize) : FinalizationStatistics := state.aggregate.storage.statistics

/-- A proof is saved. It was accepted when the subscriber was notified of it. -/
def save (state : RecordedProofs batchSize) (proof : ProofEntity) : RecordedProofs batchSize :=
  match AggregateProofStorage.saveProof proof state.aggregate with
  | .ok _ aggregate =>
    if state.aggregate.notifications.length < aggregate.notifications.length then
      ⟨aggregate, Function.update state.accepted proof.round.epoch.toNat (some proof)⟩
    else ⟨aggregate, state.accepted⟩
  | .error _ aggregate => ⟨aggregate, state.accepted⟩

def saveAll (state : RecordedProofs batchSize) (proofs : List ProofEntity) : RecordedProofs batchSize :=
  proofs.foldl save state

def WellFormed (state : RecordedProofs batchSize) : Prop := state.aggregate.storage.WellFormed state.accepted

structure Accepts (state : RecordedProofs batchSize) (proof : ProofEntity) : Prop where
  follows : state.aggregate.storage.Follows proof
  statistics_eq : (state.save proof).statistics = proof.statistics
  notifications_eq : (state.save proof).aggregate.notifications = state.aggregate.notifications ++ [proof.statistics]
  accepted_eq : (state.save proof).accepted = Function.update state.accepted proof.round.epoch.toNat (some proof)

theorem save_cases (h : state.WellFormed) (proof : ProofEntity) :
    (state.save proof).WellFormed ∧ (state.save proof = state ∨ state.Accepts proof) := by
  obtain ⟨c, h⟩ := h
  by_cases hskip : proof.round < state.aggregate.storage.statistics.round
  · have hsame : state.save proof = state := by
      rw [save, AggregateProofStorage.saveProof_of_older hskip]
      simp only [Nat.lt_irrefl, if_false]
    rw [hsame]
    exact ⟨⟨c, h⟩, .inl rfl⟩
  rcases FileProofStorage.saveProof_cases h proof with ⟨error, hthrow⟩ | ⟨hfollows, storage, c', hok, hstatistics, h'⟩
  · have hsame : state.save proof = state := by rw [save, AggregateProofStorage.saveProof_of_error hskip hthrow]
    rw [hsame]
    exact ⟨⟨c, h⟩, .inl rfl⟩
  · have hsaved : state.save proof = ⟨⟨storage, state.aggregate.notifications ++ [proof.statistics]⟩,
        Function.update state.accepted proof.round.epoch.toNat (some proof)⟩ := by
      rw [save, AggregateProofStorage.saveProof_of_ok hskip hok]
      simp only [List.length_append, List.length_singleton, Nat.lt_add_one, if_true]
    refine ⟨?_, .inr ⟨hfollows, ?_, ?_, ?_⟩⟩
    · rw [hsaved]
      exact ⟨c', h'⟩
    · rw [hsaved]
      exact hstatistics
    · rw [hsaved]
    · rw [hsaved]

theorem saveAll_wellFormed (h : state.WellFormed) (proofs : List ProofEntity) : (state.saveAll proofs).WellFormed := by
  induction proofs generalizing state with
  | nil => exact h
  | cons proof proofs ih => exact ih (save_cases h proof).1

theorem save_statistics (h : state.WellFormed) (proof : ProofEntity) :
    state.statistics.round ≤ (state.save proof).statistics.round ∧
      state.statistics.height ≤ (state.save proof).statistics.height := by
  rcases (save_cases h proof).2 with hsame | haccepts
  · rw [hsame]
    exact ⟨le_refl _, UInt64.le_refl _⟩
  · rw [haccepts.statistics_eq]
    exact ⟨haccepts.follows.round, haccepts.follows.height⟩

theorem saveAll_statistics (h : state.WellFormed) (proofs : List ProofEntity) :
    state.statistics.round ≤ (state.saveAll proofs).statistics.round ∧
      state.statistics.height ≤ (state.saveAll proofs).statistics.height := by
  induction proofs generalizing state with
  | nil => exact ⟨le_refl _, UInt64.le_refl _⟩
  | cons proof proofs ih =>
    obtain ⟨hround, hheight⟩ := save_statistics h proof
    obtain ⟨hround', hheight'⟩ := ih (save_cases h proof).1
    exact ⟨hround.trans hround', UInt64.le_trans hheight hheight'⟩

theorem saveAll_append (state : RecordedProofs batchSize) (proofs later : List ProofEntity) :
    state.saveAll (proofs ++ later) = (state.saveAll proofs).saveAll later := List.foldl_append

/-- In every run the round and the height do not decrease, a proof that is rejected changes nothing and one that is
accepted is at most one epoch further, and exactly the last proofs of the epochs up to the current one are loaded. -/
theorem proofs_monotone (h : state.WellFormed) (proofs : List ProofEntity) :
    (∀ later, (state.saveAll proofs).statistics.round ≤ (state.saveAll (proofs ++ later)).statistics.round ∧
      (state.saveAll proofs).statistics.height ≤ (state.saveAll (proofs ++ later)).statistics.height) ∧
    (∀ proof, (state.saveAll proofs).save proof = state.saveAll proofs ∨ (state.saveAll proofs).Accepts proof) ∧
    (∀ epoch : UInt32, epoch ≠ 0 → epoch ≤ (state.saveAll proofs).statistics.round.epoch → ∃ proof,
      (state.saveAll proofs).accepted epoch.toNat = some proof ∧
      (state.saveAll proofs).aggregate.storage.loadProof epoch = .ok proof.bytes) ∧
    ∀ epoch : UInt32, (state.saveAll proofs).statistics.round.epoch < epoch →
      ∃ error, (state.saveAll proofs).aggregate.storage.loadProof epoch = .error error := by
  have hproofs := saveAll_wellFormed h proofs
  refine ⟨fun later => ?_, fun proof => (save_cases hproofs proof).2, fun epoch hne hle => ?_, fun epoch hlt => ?_⟩
  · rw [saveAll_append]
    exact saveAll_statistics hproofs later
  · obtain ⟨c, hholds⟩ := hproofs
    exact hholds.loadProof hne hle
  · exact ⟨_, FileProofStorage.loadProof_beyond hlt⟩

def emptyProof (epoch point height : Nat) : ProofEntity where
  bytes := leBytes 4 56 ++ (leBytes 4 1 ++ (leBytes 4 epoch ++ (leBytes 4 point ++ (leBytes 8 height ++
    List.replicate 32 0))))
  size_eq := by
    rw [List.take_left' (length_leBytes 4 56), ofLeBytes_leBytes (by decide)]
    simp
  headerSize_le := by
    simp only [List.length_append, length_leBytes, List.length_replicate]
    decide

theorem tenProofs_pos : 0 < 10 := by decide

def emptyProofs : RecordedProofs 10 :=
  ⟨{ storage := { database := { batchSize_pos := tenProofs_pos } } }, fun _ => none⟩

theorem emptyProofs_wellFormed : emptyProofs.WellFormed :=
  ⟨fun _ => none, FileDatabase.shows_empty fun _ => rfl, fun _ hpos hle => absurd hle (Nat.not_le.2 hpos),
    fun _ _ => rfl⟩

def fiveProofs : List ProofEntity :=
  [emptyProof 1 1 4, emptyProof 1 2 8, emptyProof 2 1 20, emptyProof 1 3 30, emptyProof 4 1 40]

theorem proofs_monotone_five : ∃ first second,
    (emptyProofs.saveAll fiveProofs).statistics.round.epoch = 2 ∧
    first = emptyProof 1 2 8 ∧ second = emptyProof 2 1 20 ∧
    (emptyProofs.saveAll fiveProofs).aggregate.storage.loadProof 1 = .ok first.bytes ∧
    (emptyProofs.saveAll fiveProofs).aggregate.storage.loadProof 2 = .ok second.bytes := by
  have hepoch : (emptyProofs.saveAll fiveProofs).statistics.round.epoch = 2 := by decide +kernel
  have haccepted : (emptyProofs.saveAll fiveProofs).accepted 1 = some (emptyProof 1 2 8) ∧
      (emptyProofs.saveAll fiveProofs).accepted 2 = some (emptyProof 2 1 20) := by decide +kernel
  obtain ⟨-, -, hloads, -⟩ := proofs_monotone emptyProofs_wellFormed fiveProofs
  obtain ⟨first, hfirst, hload⟩ := hloads 1 (by decide) (by rw [hepoch]; decide)
  obtain ⟨second, hsecond, hload'⟩ := hloads 2 (by decide) (by rw [hepoch]; decide)
  refine ⟨first, second, hepoch, ?_, ?_, hload, hload'⟩
  · exact Option.some.inj (hfirst.symm.trans haccepted.1)
  · exact Option.some.inj (hsecond.symm.trans haccepted.2)

end RecordedProofs
end Catapult.Finalization
