import Catapult.Io.BlockElement
import Catapult.Io.FileDatabase

/-!
# Block storage in files (`FileBlockStorage`)

The blocks and their statements are in two file databases, the hashes of the blocks in files with 65536 of them each,
and the height of the chain in an index file. Blocks are dropped by a change of the index file only.
-/

namespace Catapult.Io

def filesPerStorageDirectory : Nat := 65536

structure FixedSizeValueStorage (α : Type) where
  files : Nat → Option (List α) := fun _ => none
  cachedDirectoryId : Option Nat := none

namespace FixedSizeValueStorage
variable {α : Type}

def checkSize (key : Nat) (values : List α) : Except FileError (List α) :=
  if key < filesPerStorageDirectory ∧ values.length < 2 then throw .invalidSize else return values

def openStorageFile (storage : FixedSizeValueStorage α) (key : Nat) : Except FileError (List α) :=
  match storage.files (key / filesPerStorageDirectory) with
  | none => throw .notOpened
  | some values => checkSize key values

def readValues (values : List α) (index count : Nat) : Except FileError (List α) :=
  if values.length < index then throw .seekOutside
  else if values.length < index + count then throw .invalidRead
  else return (values.drop index).take count

def loadRangeFrom (storage : FixedSizeValueStorage α) (key numValues : Nat) : Except FileError (List α) :=
  if numValues = 0 then return []
  else do
    let file ← storage.openStorageFile key
    let count := min numValues (filesPerStorageDirectory - key % filesPerStorageDirectory)
    let values ← readValues file (key % filesPerStorageDirectory) count
    let rest ← loadRangeFrom storage (key + count) (numValues - count)
    return values ++ rest
termination_by numValues
decreasing_by
  have hlt : key % filesPerStorageDirectory < filesPerStorageDirectory := Nat.mod_lt _ (by decide)
  omega

/-- A file that is opened to be written is created when there is none. -/
def save (key : Nat) (value : α) : EStateM FileError (FixedSizeValueStorage α) Unit := do
  let storage ← get
  let currentId := key / filesPerStorageDirectory
  let values := (storage.files currentId).getD []
  if storage.cachedDirectoryId ≠ some currentId then do
    set { storage with files := Function.update storage.files currentId (some values) }
    if key < filesPerStorageDirectory ∧ values.length < 2 then throw .invalidSize
    modify fun storage => { storage with cachedDirectoryId := some currentId }
  let index := key % filesPerStorageDirectory
  if values.length < index then throw .seekOutside
  modify fun storage => { storage with
    files := Function.update storage.files currentId (some (values.take index ++ value :: values.drop (index + 1))) }

end FixedSizeValueStorage

inductive FileBlockStorageMode where
  | none
  | hashIndex
  deriving DecidableEq

inductive StorageError where
  /-- "cannot save block with height … when storage height is …" -/
  | saveHeight (height chainHeight : Nat)
  /-- "cannot load … at height (…) greater than chain height (…)" -/
  | loadHeight (height chainHeight : Nat)
  /-- "additional data after block at height" -/
  | additionalData (height : Nat)
  /-- "loadHashesFrom is not supported when Hash_Index mode is disabled" -/
  | noHashIndex
  | file (error : FileError)
  | read (error : ReadError)
  deriving DecidableEq

structure FileBlockStorage (batchSize : Nat) where
  blockDatabase : FileDatabase batchSize
  statementDatabase : FileDatabase batchSize
  hashFile : FixedSizeValueStorage Hash256 := {}
  indexFile : Option Nat := none

namespace FileBlockStorage
variable {batchSize : Nat} (mode : FileBlockStorageMode)

def chainHeight (storage : FileBlockStorage batchSize) : Nat := storage.indexFile.getD 0

def loadHashesFrom (storage : FileBlockStorage batchSize) (height maxHashes : Nat) :
    Except StorageError (List Hash256) :=
  if mode ≠ .hashIndex then throw .noHashIndex
  else if height = 0 ∨ storage.chainHeight < height then return []
  else
    let numHashes := min maxHashes (storage.chainHeight - height + 1)
    (storage.hashFile.loadRangeFrom height numHashes).mapError .file

/-- `outputStream` and the writing of the payload. -/
def writePayload (database : FileDatabase batchSize) (id : Nat) (payload : List UInt8) :
    EStateM StorageError (FileBlockStorage batchSize) (FileDatabase batchSize) :=
  match database.write id payload with
  | .ok database' => pure database'
  | .error e => throw (.file e)

def saveStatement (height : Nat) : Option (List UInt8) → EStateM StorageError (FileBlockStorage batchSize) Unit
  | some statement => do
    let storage ← get
    let statementDatabase ← writePayload storage.statementDatabase height statement
    set { storage with statementDatabase := statementDatabase }
  | none => pure ()

def saveHash (height : Nat) (hash : Hash256) : EStateM StorageError (FileBlockStorage batchSize) Unit :=
  if mode = .hashIndex then do
    let storage ← get
    match FixedSizeValueStorage.save height hash storage.hashFile with
    | .ok _ hashFile => set { storage with hashFile := hashFile }
    | .error e hashFile => do
      set { storage with hashFile := hashFile }
      throw (.file e)
  else pure ()

def saveBlock (element : BlockElementData) : EStateM StorageError (FileBlockStorage batchSize) Unit := do
  let storage ← get
  let currentHeight := storage.chainHeight
  let height := element.height
  if height ≠ (currentHeight + 1) % 2 ^ 64 then throw (.saveHeight height currentHeight)
  let blockDatabase ← writePayload storage.blockDatabase height (blockElementBytes element)
  set { storage with blockDatabase := blockDatabase }
  saveStatement height element.optionalStatement
  saveHash mode height element.entityHash
  if currentHeight < height then modify fun storage => { storage with indexFile := some height }

def dropBlocksAfter (height : Nat) (storage : FileBlockStorage batchSize) : FileBlockStorage batchSize :=
  { storage with indexFile := some height }

def requireHeight (storage : FileBlockStorage batchSize) (height : Nat) : Except StorageError Unit :=
  if height ≤ storage.chainHeight then return () else throw (.loadHeight height storage.chainHeight)

def loadBlockElement (storage : FileBlockStorage batchSize) (height : Nat) : Except StorageError BlockElementData := do
  storage.requireHeight height
  let stream ← (storage.blockDatabase.inputStream height).mapError .file
  match readBlockElement stream with
  | .ok element [] => return element
  | .ok _ _ => throw (.additionalData height)
  | .error e _ => throw (.read e)

def loadBlockStatementData (storage : FileBlockStorage batchSize) (height : Nat) :
    Except StorageError (Option (List UInt8)) := do
  storage.requireHeight height
  if !storage.statementDatabase.contains height then return none
  else
    let statement ← (storage.statementDatabase.inputStream height).mapError .file
    return some statement

end FileBlockStorage
end Catapult.Io
