import Catapult.State.AccountState

/-!
# Serializing account states (`AccountStateSerializer`, `AccountStateNonHistoricalSerializer`)

An account with a current importance is written in another format than the others: the current importance and the
buckets that belong to it are part of what is written without history, and only what is needed for a rollback comes
after it.
-/

namespace Catapult.State
open Reader

inductive AccountStateFormat where
  | regular
  | highValue
  deriving DecidableEq

def getFormat (state : AccountState) : AccountStateFormat :=
  if AccountImportanceSnapshots.active state.importanceSnapshots then .highValue else .regular

def AccountStateFormat.value : AccountStateFormat → UInt8
  | regular => 0
  | highValue => 1

inductive LoadError where
  | endOfStream
  /-- "cannot load account state with unsupported format" -/
  | unsupportedFormat (format : Nat)
  | key (error : KeyError)
  | stack (error : StackError)
  | balance (error : BalanceError)

def keyType (linked node vrf : Bool) : UInt8 :=
  (if linked then 1 else 0) ||| (if node then 2 else 0) ||| (if vrf then 4 else 0)

/-- `AccountPublicKeys::mask`. -/
def mask (keys : AccountPublicKeys) : UInt8 := keyType keys.linked.isSet keys.node.isSet keys.vrf.isSet

def hasFlag (flag mask : UInt8) : Bool := decide (mask &&& flag = flag)

def votingKeyBytes (key : PinnedVotingKey) : List UInt8 :=
  key.votingKey.1 ++ (leBytes 4 key.startEpoch.toNat ++ leBytes 4 key.endEpoch.toNat)

/-- The number of voting keys is cut off to one byte. -/
def writeSupplementalPublicKeys (keys : AccountPublicKeys) : List UInt8 :=
  mask keys :: UInt8.ofNat keys.voting.length ::
    ((if hasFlag 1 (mask keys) then keys.linked.get.1 else []) ++
    ((if hasFlag 2 (mask keys) then keys.node.get.1 else []) ++
    ((if hasFlag 4 (mask keys) then keys.vrf.get.1 else []) ++ keys.voting.flatMap votingKeyBytes)))

def snapshotBytes (snapshot : ImportanceSnapshot) : List UInt8 :=
  leBytes 8 snapshot.importance.toNat ++ leBytes 8 snapshot.height.toNat

def bucketBytes (bucket : ActivityBucket) : List UInt8 :=
  leBytes 8 bucket.startHeight.toNat ++ (leBytes 8 bucket.totalFeesPaid.toNat ++
    (leBytes 4 bucket.beneficiaryCount.toNat ++ leBytes 8 bucket.rawScore.toNat))

def processRange {α : Type} (values : List α) (start count : Nat) (action : α → List UInt8) : List UInt8 :=
  ((values.drop start).take count).flatMap action

def writeSnapshots (snapshots : AccountImportanceSnapshots) (start count : Nat) : List UInt8 :=
  processRange snapshots.values start count snapshotBytes

def writeBuckets (buckets : AccountActivityBuckets) (start count : Nat) : List UInt8 :=
  processRange buckets.values start count bucketBytes

def mosaicBytes (mosaic : Mosaic) : List UInt8 := leBytes 8 mosaic.1.value.toNat ++ leBytes 8 mosaic.2.toNat

/-- The number of mosaics is cut off to two bytes. -/
def writeMosaics (balances : AccountBalances) : List UInt8 :=
  leBytes 2 balances.size ++ balances.mosaics.flatMap mosaicBytes

/-- `AccountStateNonHistoricalSerializer::Save`. -/
def saveNonHistorical (state : AccountState) : List UInt8 :=
  state.address.1 ++ (leBytes 8 state.addressHeight.toNat ++ (state.publicKey.1 ++
    (leBytes 8 state.publicKeyHeight.toNat ++ (state.accountType.value :: (getFormat state).value ::
      (writeSupplementalPublicKeys state.supplementalPublicKeys ++
        ((match getFormat state with
          | .highValue =>
            writeSnapshots state.importanceSnapshots 0 (importanceHistorySize - rollbackBufferSize) ++
              writeBuckets state.activityBuckets 0 (activityBucketHistorySize - rollbackBufferSize)
          | .regular => []) ++
        writeMosaics state.balances))))))

/-- What `AccountStateSerializer::Save` writes after it. -/
def saveHistory (state : AccountState) : List UInt8 :=
  match getFormat state with
  | .highValue =>
    writeSnapshots state.importanceSnapshots (importanceHistorySize - rollbackBufferSize) rollbackBufferSize ++
      writeBuckets state.activityBuckets (activityBucketHistorySize - rollbackBufferSize) rollbackBufferSize
  | .regular =>
    writeSnapshots state.importanceSnapshots 0 importanceHistorySize ++
      writeBuckets state.activityBuckets 0 activityBucketHistorySize

def save (state : AccountState) : List UInt8 := saveNonHistorical state ++ saveHistory state

abbrev Loader := Reader LoadError

/-- What was read of the stacks, in the order in which it was read. -/
structure ImportanceReader where
  snapshots : List ImportanceSnapshot := []
  buckets : List ActivityBucket := []

namespace ImportanceReader

def hasSnapshots (reader : ImportanceReader) : Bool := !reader.snapshots.isEmpty

def readSnapshot : Loader ImportanceSnapshot := do
  let importance ← uint64 .endOfStream
  let height ← uint64 .endOfStream
  return ⟨importance, height⟩

def readBucket : Loader ActivityBucket := do
  let startHeight ← uint64 .endOfStream
  let totalFeesPaid ← uint64 .endOfStream
  let beneficiaryCount ← uint32 .endOfStream
  let rawScore ← uint64 .endOfStream
  return ⟨startHeight, totalFeesPaid, beneficiaryCount, rawScore⟩

/-- `readSnapshots` and then `readBuckets`. -/
def read (snapshotsCount bucketsCount : Nat) (reader : ImportanceReader) : Loader ImportanceReader := do
  let snapshots ← times readSnapshot snapshotsCount
  let buckets ← times readBucket bucketsCount
  return ⟨reader.snapshots ++ snapshots, reader.buckets ++ buckets⟩

/-- The array in which the values are stored from the end on. -/
def arrayOf {α : Type} [Inhabited α] (n : Nat) (values : List α) : List α :=
  List.replicate (n - values.length) default ++ values.reverse

def applySnapshot (snapshots : AccountImportanceSnapshots) (snapshot : ImportanceSnapshot) :
    Except StackError AccountImportanceSnapshots :=
  if snapshot.height = 0 then return snapshots.push default
  else AccountImportanceSnapshots.set snapshot.importance snapshot.height snapshots

def applyBucket (buckets : AccountActivityBuckets) (bucket : ActivityBucket) :
    Except StackError AccountActivityBuckets :=
  if bucket.startHeight = 0 then return buckets.push default
  else AccountActivityBuckets.update bucket.startHeight (fun _ => bucket) buckets

def apply (reader : ImportanceReader) (state : AccountState) : Except StackError AccountState := do
  let snapshots ← (arrayOf importanceHistorySize reader.snapshots).foldlM applySnapshot state.importanceSnapshots
  let buckets ← (arrayOf activityBucketHistorySize reader.buckets).foldlM applyBucket state.activityBuckets
  return { state with importanceSnapshots := snapshots, activityBuckets := buckets }

end ImportanceReader

def readSupplementalPublicKey (flag mask : UInt8) (accessor : PublicKeyAccessor) : Loader PublicKeyAccessor :=
  if hasFlag flag mask then do
    let key ← bytes .endOfStream 32
    Reader.lift .key (setKey accessor key)
  else return accessor

def readVotingKey : Loader PinnedVotingKey := do
  let votingKey ← bytes .endOfStream 32
  let startEpoch ← uint32 .endOfStream
  let endEpoch ← uint32 .endOfStream
  return ⟨votingKey, startEpoch, endEpoch⟩

def readVotingKeys : (numVotingKeys : Nat) → List PinnedVotingKey → Loader (List PinnedVotingKey)
  | 0, keys => return keys
  | numVotingKeys + 1, keys => do
    let key ← readVotingKey
    let keys ← Reader.lift .key (addVotingKey keys key)
    readVotingKeys numVotingKeys keys

def readSupplementalPublicKeys (keys : AccountPublicKeys) : Loader AccountPublicKeys := do
  let mask ← nat .endOfStream 1
  let numVotingKeys ← nat .endOfStream 1
  let linked ← readSupplementalPublicKey 1 (UInt8.ofNat mask) keys.linked
  let node ← readSupplementalPublicKey 2 (UInt8.ofNat mask) keys.node
  let vrf ← readSupplementalPublicKey 4 (UInt8.ofNat mask) keys.vrf
  let voting ← readVotingKeys numVotingKeys keys.voting
  return ⟨linked, node, vrf, voting⟩

/-- The loop over the mosaics. The first one is optimized. -/
def readMosaics : (numMosaics : Nat) → (isFirst : Bool) → AccountBalances → Loader AccountBalances
  | 0, _, balances => return balances
  | numMosaics + 1, isFirst, balances => do
    let id ← uint64 .endOfStream
    let amount ← uint64 .endOfStream
    let balances ← Reader.lift .balance (balances.credit ⟨id⟩ amount)
    let balances ← (if isFirst then Reader.lift .balance (balances.optimize ⟨id⟩) else pure balances)
    readMosaics numMosaics false balances

def readImportance (format : Nat) (reader : ImportanceReader) : Loader ImportanceReader :=
  if format = 1 then
    reader.read (importanceHistorySize - rollbackBufferSize) (activityBucketHistorySize - rollbackBufferSize)
  else if format = 0 then return reader
  else throw (.unsupportedFormat format)

def loadAccountStateWithoutHistory (reader : ImportanceReader) : Loader (AccountState × ImportanceReader) := do
  let address ← bytes .endOfStream 24
  let addressHeight ← uint64 .endOfStream
  let publicKey ← bytes .endOfStream 32
  let publicKeyHeight ← uint64 .endOfStream
  let accountType ← nat .endOfStream 1
  let format ← nat .endOfStream 1
  let supplementalPublicKeys ← readSupplementalPublicKeys {}
  let reader ← readImportance format reader
  let numMosaics ← nat .endOfStream 2
  let balances ← readMosaics numMosaics true {}
  let state : AccountState := {
    address := address, addressHeight := addressHeight, publicKey := publicKey, publicKeyHeight := publicKeyHeight,
    accountType := ⟨UInt8.ofNat accountType⟩, supplementalPublicKeys := supplementalPublicKeys, balances := balances }
  return (state, reader)

/-- `AccountStateSerializer::Load`. -/
def load : Loader AccountState := do
  let (state, reader) ← loadAccountStateWithoutHistory {}
  let reader ← (if reader.hasSnapshots then reader.read rollbackBufferSize rollbackBufferSize
    else reader.read importanceHistorySize activityBucketHistorySize)
  Reader.lift .stack (reader.apply state)

end Catapult.State
