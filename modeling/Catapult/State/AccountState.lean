import Catapult.Lib.Reader
import Catapult.State.CompactMosaicMap
import Mathlib.Data.List.Chain

/-!
# Account states

The state of an account has its keys, its importances and activities, which are stacks of a fixed size, and its
balances. Every class keeps an order of its own: the voting keys have disjoint ranges of epochs and are sorted by them
(`SortedKeys`), the heights in a stack descend where they are set (`Descending`), and the mosaics are sorted with the
optimized one first.
-/

namespace Catapult.State

structure AccountBalances where
  balances : CompactMosaicMap := {}
  optimizedMosaicId : MosaicId := 0

namespace AccountBalances

def size (b : AccountBalances) : Nat := b.balances.size

/-- The iteration from `begin` to `end`. -/
def mosaics (b : AccountBalances) : List Mosaic := b.balances.mosaics

def get (b : AccountBalances) (id : MosaicId) : Amount := (b.balances.find? id).getD 0

def credit (b : AccountBalances) (id : MosaicId) (amount : Amount) : Except BalanceError AccountBalances :=
  if amount = 0 then return b
  else
    match b.balances.find? id with
    | none => do
      let balances ← b.balances.insert (id, amount)
      return { b with balances := balances }
    | some balance => return { b with balances := b.balances.setAmount id (balance + amount) }

def debit (b : AccountBalances) (id : MosaicId) (amount : Amount) : Except BalanceError AccountBalances :=
  if amount = 0 then return b
  else
    match b.balances.find? id with
    | none => throw (.debitTooLarge amount 0 id)
    | some balance =>
      if balance < amount then throw (.debitTooLarge amount balance id)
      else if balance - amount = 0 then return { b with balances := b.balances.erase id }
      else return { b with balances := b.balances.setAmount id (balance - amount) }

def optimize (b : AccountBalances) (id : MosaicId) : Except BalanceError AccountBalances := do
  let balances ← b.balances.optimize id
  return ⟨balances, id⟩

/-- A mosaic without an amount is not stored. -/
structure Valid (b : AccountBalances) : Prop where
  balances : b.balances.Valid
  amounts : ∀ e ∈ b.mosaics, e.2 ≠ 0
  optimized : b.optimizedMosaicId = b.balances.optimizedMosaicId

variable {b : AccountBalances}

theorem valid_empty : Valid {} :=
  ⟨⟨CompactMosaicMap.stored_empty 0, List.Pairwise.nil⟩, fun _ hmem => (nomatch hmem), rfl⟩

theorem find?_eq_none {m : CompactMosaicMap} {id : MosaicId} (hnot : ∀ e ∈ m.mosaics, e.1 ≠ id) :
    m.find? id = none := by
  rw [CompactMosaicMap.find?, CompactMosaicMap.find_eq_none hnot]

theorem credit_new (hb : b.Valid) {id : MosaicId} {amount : Amount} (hid : id ≠ 0) (hamount : amount ≠ 0)
    (hnot : ∀ e ∈ b.mosaics, e.1 ≠ id) : ∃ b', b.credit id amount = .ok b' ∧ b'.Valid ∧
      b'.optimizedMosaicId = b.optimizedMosaicId ∧ b'.mosaics.Perm ((id, amount) :: b.mosaics) := by
  obtain ⟨balances, hok, hvalid, hopt, hperm⟩ := @CompactMosaicMap.insert_spec _ (id, amount) hb.balances hid hnot
  refine ⟨{ b with balances := balances }, ?_, ⟨hvalid, fun e he => ?_, hb.optimized.trans hopt.symm⟩, rfl, hperm⟩
  · rw [credit, if_neg hamount, find?_eq_none hnot]
    simp only [hok]
    rfl
  · rcases List.mem_cons.1 (hperm.mem_iff.1 he) with rfl | he
    · exact hamount
    · exact hb.amounts e he

theorem optimize_spec (hb : b.Valid) (id : MosaicId) : ∃ b', b.optimize id = .ok b' ∧ b'.Valid ∧
    b'.optimizedMosaicId = id ∧ b'.mosaics.Perm b.mosaics := by
  obtain ⟨balances, hok, hvalid, hopt, hperm⟩ := CompactMosaicMap.optimize_spec hb.balances id
  refine ⟨⟨balances, id⟩, by rw [optimize, hok]; rfl, ⟨hvalid, fun e he => ?_, hopt.symm⟩, rfl, hperm⟩
  exact hb.amounts e (hperm.mem_iff.1 he)

theorem setAmount_valid (hb : b.Valid) (id : MosaicId) {amount : Amount} (hne : amount ≠ 0) :
    ({ b with balances := b.balances.setAmount id amount } : AccountBalances).Valid := by
  obtain ⟨hvalid, hopt, hall⟩ := CompactMosaicMap.setAmount_spec hb.balances id amount
  refine ⟨hvalid, fun e he => ?_, hb.optimized.trans hopt.symm⟩
  rw [mosaics, hall] at he
  rcases CompactMosaicMap.mem_map_withAmount he with heq | he
  · rw [heq]
    exact hne
  · exact hb.amounts e he

theorem erase_valid (hb : b.Valid) (id : MosaicId) :
    ({ b with balances := b.balances.erase id } : AccountBalances).Valid := by
  rcases CompactMosaicMap.erase_spec hb.balances.toStored id with ⟨hnone, hnot⟩ | ⟨amount, -, herased⟩
  · have hsame : b.balances.erase id = b.balances := by
      rw [CompactMosaicMap.erase, CompactMosaicMap.find_eq_none hnot]
    rw [hsame]
    exact hb
  · refine ⟨⟨herased.stored, ?_⟩, fun e he => hb.amounts e (herased.sublist.subset he),
      hb.optimized.trans herased.optimized.symm⟩
    rw [herased.optimized]
    exact hb.balances.sorted.sublist herased.sublist

theorem credit_valid (hb : b.Valid) {id : MosaicId} {amount : Amount} {b' : AccountBalances}
    (hwrap : ∀ balance, b.balances.find? id = some balance → balance + amount ≠ 0)
    (hok : b.credit id amount = .ok b') : b'.Valid := by
  rw [credit] at hok
  split at hok
  · cases hok
    exact hb
  rename_i hamount
  cases hfind : b.balances.find? id with
  | none =>
    rcases CompactMosaicMap.erase_spec hb.balances.toStored id with ⟨-, hnot⟩ | ⟨amount', hsome, -⟩
    · by_cases hid : id = 0
      · have hreserved : b.balances.insert (id, amount) = .error (.reservedMosaic id) := by
          rw [CompactMosaicMap.insert, if_pos hid]
          rfl
        rw [hfind] at hok
        simp only [hreserved] at hok
        cases hok
      · obtain ⟨b'', hok', hvalid, -, -⟩ := credit_new hb hid hamount hnot
        rw [credit, if_neg hamount, hfind] at hok'
        rw [hfind] at hok
        cases hok.symm.trans hok'
        exact hvalid
    · rw [hfind] at hsome
      cases hsome
  | some balance =>
    rw [hfind] at hok
    cases hok
    exact setAmount_valid hb id (hwrap balance hfind)

theorem debit_valid (hb : b.Valid) {id : MosaicId} {amount : Amount} {b' : AccountBalances}
    (hok : b.debit id amount = .ok b') : b'.Valid := by
  rw [debit] at hok
  split at hok
  · cases hok
    exact hb
  · split at hok
    · cases hok
    · split at hok
      · cases hok
      · split at hok
        · cases hok
          exact erase_valid hb id
        · cases hok
          exact setAmount_valid hb id (by assumption)

end AccountBalances

abbrev Key := FixedBytes 32

def zeroKey : Key := ⟨List.replicate 32 0, List.length_replicate⟩

abbrev PublicKeyAccessor := Option Key

namespace PublicKeyAccessor

/-- A zero key counts as unset. -/
def isSet (accessor : PublicKeyAccessor) : Bool := decide (accessor.getD zeroKey ≠ zeroKey)

def get (accessor : PublicKeyAccessor) : Key := accessor.getD zeroKey

end PublicKeyAccessor

structure PinnedVotingKey where
  votingKey : FixedBytes 32
  startEpoch : UInt32
  endEpoch : UInt32
  deriving DecidableEq

namespace PinnedVotingKey

def containsEpoch (key : PinnedVotingKey) (epoch : UInt32) : Bool :=
  decide (key.startEpoch ≤ epoch) && decide (epoch ≤ key.endEpoch)

def overlaps (key existingKey : PinnedVotingKey) : Bool :=
  key.containsEpoch existingKey.startEpoch || key.containsEpoch existingKey.endEpoch ||
    existingKey.containsEpoch key.startEpoch

end PinnedVotingKey

inductive KeyError where
  /-- "must call unset before resetting key with value" -/
  | keyIsSet
  /-- "cannot add key with overlapping epoch …" -/
  | overlappingEpoch (key : PinnedVotingKey)

structure AccountPublicKeys where
  linked : PublicKeyAccessor := none
  node : PublicKeyAccessor := none
  vrf : PublicKeyAccessor := none
  voting : List PinnedVotingKey := []

/-- `PublicKeyAccessor::set`. -/
def setKey (accessor : PublicKeyAccessor) (key : Key) : Except KeyError PublicKeyAccessor :=
  if accessor.isSome then throw .keyIsSet else return some key

/-- `PublicKeysAccessor::add`. The keys are sorted. -/
def addVotingKey (keys : List PinnedVotingKey) (key : PinnedVotingKey) : Except KeyError (List PinnedVotingKey) :=
  if keys.any key.overlaps then throw (.overlappingEpoch key)
  else
    return keys.takeWhile (fun existingKey => !decide (key.endEpoch < existingKey.startEpoch)) ++
      key :: keys.dropWhile (fun existingKey => !decide (key.endEpoch < existingKey.startEpoch))

/-- `PublicKeysAccessor::remove`. -/
def removeVotingKey (keys : List PinnedVotingKey) (key : PinnedVotingKey) : List PinnedVotingKey := keys.erase key

structure SortedKeys (keys : List PinnedVotingKey) : Prop where
  ranges : ∀ key ∈ keys, key.startEpoch ≤ key.endEpoch
  sorted : keys.Pairwise fun key next => key.endEpoch < next.startEpoch

section Keys
variable {keys : List PinnedVotingKey} {key : PinnedVotingKey}

theorem lt_of_not_overlaps {existingKey : PinnedVotingKey} (hnot : key.overlaps existingKey = false)
    (hle : existingKey.startEpoch ≤ key.endEpoch) : existingKey.endEpoch < key.startEpoch := by
  simp only [PinnedVotingKey.overlaps, PinnedVotingKey.containsEpoch, Bool.or_eq_false_iff, Bool.and_eq_false_iff,
    decide_eq_false_iff_not, UInt32.not_le] at hnot
  obtain ⟨⟨hstart, -⟩, hcontains⟩ := hnot
  have hlt : existingKey.startEpoch < key.startEpoch := hstart.resolve_right (UInt32.not_lt.2 hle)
  exact hcontains.resolve_left (UInt32.not_lt.2 (UInt32.le_of_lt hlt))

theorem addVotingKey_spec (hkeys : SortedKeys keys) (hrange : key.startEpoch ≤ key.endEpoch)
    {keys' : List PinnedVotingKey}
    (hadd : addVotingKey keys key = .ok keys') : SortedKeys keys' ∧ keys'.Perm (key :: keys) := by
  rw [addVotingKey] at hadd
  split at hadd
  · cases hadd
  rename_i hnot
  cases hadd
  have hoverlap : ∀ existingKey ∈ keys, key.overlaps existingKey = false := by simpa using hnot
  have hperm : (keys.takeWhile (fun existingKey => !decide (key.endEpoch < existingKey.startEpoch)) ++
      key :: keys.dropWhile (fun existingKey => !decide (key.endEpoch < existingKey.startEpoch))).Perm (key :: keys) :=
    List.perm_middle.trans (by rw [List.takeWhile_append_dropWhile])
  refine ⟨⟨fun k hk => ?_, ?_⟩, hperm⟩
  · rcases List.mem_cons.1 (hperm.mem_iff.1 hk) with rfl | hk
    · exact hrange
    · exact hkeys.ranges k hk
  · have hsorted := hkeys.sorted
    rw [← List.takeWhile_append_dropWhile (p := fun existingKey => !decide (key.endEpoch < existingKey.startEpoch))
      (l := keys)] at hsorted
    obtain ⟨hbefore, hafter, hbetween⟩ := List.pairwise_append.1 hsorted
    refine List.pairwise_append.2 ⟨hbefore, List.pairwise_cons.2 ⟨fun k hk => ?_, hafter⟩, fun k hk k' hk' => ?_⟩
    · -- the first key after the place starts after the range, and the others start after it
      cases hdrop : keys.dropWhile fun existingKey => !decide (key.endEpoch < existingKey.startEpoch) with
      | nil => simp [hdrop] at hk
      | cons first rest =>
        have hfirst : key.endEpoch < first.startEpoch := by
          have hhead := List.head?_dropWhile_not
            (fun existingKey : PinnedVotingKey => !decide (key.endEpoch < existingKey.startEpoch)) keys
          rw [hdrop, List.head?_cons] at hhead
          simpa using hhead
        have hmem : first ∈ keys := (List.dropWhile_sublist _).subset (hdrop ▸ List.mem_cons_self)
        rw [hdrop] at hk hafter
        rcases List.mem_cons.1 hk with rfl | hk
        · exact hfirst
        · exact UInt32.lt_trans hfirst (UInt32.lt_of_le_of_lt (hkeys.ranges first hmem)
            ((List.pairwise_cons.1 hafter).1 k hk))
    · rcases List.mem_cons.1 hk' with rfl | hk'
      · have hle := List.mem_takeWhile_imp hk
        have hmem := (List.takeWhile_sublist _).subset hk
        exact lt_of_not_overlaps (hoverlap k hmem) (by simpa using hle)
      · exact hbetween k hk k' hk'

theorem addVotingKey_append (hkeys : ∀ k ∈ keys, k.startEpoch ≤ k.endEpoch) (hrange : key.startEpoch ≤ key.endEpoch)
    (hlast : ∀ k ∈ keys, k.endEpoch < key.startEpoch) : addVotingKey keys key = .ok (keys ++ [key]) := by
  have hstart : ∀ k ∈ keys, k.startEpoch < key.startEpoch := fun k hk => UInt32.lt_of_le_of_lt (hkeys k hk) (hlast k hk)
  have hoverlap : ¬keys.any key.overlaps = true := by
    simp only [List.any_eq_true, not_exists, not_and, Bool.not_eq_true, PinnedVotingKey.overlaps,
      PinnedVotingKey.containsEpoch, Bool.or_eq_false_iff, Bool.and_eq_false_iff, decide_eq_false_iff_not,
      UInt32.not_le]
    exact fun k hk => ⟨⟨.inl (hstart k hk), .inl (hlast k hk)⟩, .inr (hlast k hk)⟩
  have hall : ∀ k ∈ keys, (!decide (key.endEpoch < k.startEpoch)) = true := by
    intro k hk
    simp only [Bool.not_eq_true', decide_eq_false_iff_not, UInt32.not_lt]
    exact UInt32.le_of_lt (UInt32.lt_of_lt_of_le (hstart k hk) hrange)
  rw [addVotingKey, if_neg hoverlap, List.takeWhile_eq_self_iff.2 hall, List.dropWhile_eq_nil_iff.2 hall]
  rfl

theorem removeVotingKey_sorted (hkeys : SortedKeys keys) : SortedKeys (removeVotingKey keys key) :=
  ⟨fun k hk => hkeys.ranges k (List.mem_of_mem_erase hk), hkeys.sorted.sublist List.erase_sublist⟩

end Keys

def rollbackBufferSize : Nat := 2

def importanceHistorySize : Nat := 1 + rollbackBufferSize

def activityBucketHistorySize : Nat := 5 + rollbackBufferSize

theorem length_default (α : Type) [Inhabited α] (n : Nat) : (List.replicate n (default : α)).length = n :=
  List.length_replicate

/-- A stack of `n` values, of which `size` were pushed; the others have the default value. -/
structure CompactArrayStack (α : Type) [Inhabited α] (n : Nat) where
  values : List α := List.replicate n default
  size : Nat := 0
  length_eq : values.length = n := by exact length_default _ _

inductive StackError where
  /-- "cannot pop when empty" -/
  | popWhenEmpty
  /-- "cannot peek when empty" -/
  | peekWhenEmpty
  /-- "importances must be set with ascending heights (last = …, new = …)" -/
  | importanceHeight (last new : UInt64)
  /-- "older buckets cannot be updated (last = …, new = …)" -/
  | olderBucket (last new : UInt64)

namespace CompactArrayStack
variable {α : Type} [Inhabited α] {n : Nat}

/-- The value at `begin`. -/
def front (stack : CompactArrayStack α n) : α := stack.values.headD default

def push (value : α) (stack : CompactArrayStack α n) : CompactArrayStack α n where
  values := (value :: stack.values).take n
  size := if stack.size < n then stack.size + 1 else stack.size
  length_eq := by simp [stack.length_eq]

/-- A change of the value that `peek` returns. -/
def modifyFront (f : α → α) (stack : CompactArrayStack α n) : Except StackError (CompactArrayStack α n) :=
  if stack.size = 0 then throw .peekWhenEmpty
  else return ⟨stack.values.modifyHead f, stack.size, by simp [stack.length_eq]⟩

end CompactArrayStack

structure ImportanceSnapshot where
  importance : UInt64 := 0
  height : UInt64 := 0
  deriving DecidableEq, Inhabited

structure ActivityBucket where
  startHeight : UInt64 := 0
  totalFeesPaid : Amount := 0
  beneficiaryCount : UInt32 := 0
  rawScore : UInt64 := 0
  deriving DecidableEq, Inhabited

abbrev AccountImportanceSnapshots := CompactArrayStack ImportanceSnapshot importanceHistorySize

abbrev AccountActivityBuckets := CompactArrayStack ActivityBucket activityBucketHistorySize

namespace AccountImportanceSnapshots

def height (snapshots : AccountImportanceSnapshots) : UInt64 := snapshots.front.height

def active (snapshots : AccountImportanceSnapshots) : Bool := decide (snapshots.height ≠ 0)

def set (importance height : UInt64) (snapshots : AccountImportanceSnapshots) :
    Except StackError AccountImportanceSnapshots :=
  if snapshots.height ≠ 0 ∧ height ≤ snapshots.height then throw (.importanceHeight snapshots.height height)
  else return snapshots.push ⟨importance, height⟩

end AccountImportanceSnapshots

/-- `AccountActivityBuckets::update`. The bucket at the height is created when there is none. -/
def AccountActivityBuckets.update (height : UInt64) (consumer : ActivityBucket → ActivityBucket)
    (buckets : AccountActivityBuckets) : Except StackError AccountActivityBuckets :=
  let lastHeight := buckets.front.startHeight
  if lastHeight ≠ 0 ∧ height < lastHeight then throw (.olderBucket lastHeight height)
  else
    let buckets := if lastHeight < height then buckets.push { startHeight := height } else buckets
    buckets.modifyFront fun bucket => { consumer bucket with startHeight := bucket.startHeight }

section Descending
variable {α : Type} [Inhabited α] {n : Nat} {height : α → UInt64}

/-- The heights descend where they are set, and nothing is set without a height. -/
structure Descending (height : α → UInt64) (values : List α) : Prop where
  chain : values.IsChain fun newer older => height newer = 0 ∨ height older = 0 ∨ height older < height newer
  unset : ∀ value ∈ values, height value = 0 → value = default

theorem descending_empty (hdefault : height (default : α) = 0) :
    Descending height (List.replicate n (default : α)) := by
  refine ⟨?_, fun value hmem _ => (List.mem_replicate.1 hmem).2⟩
  induction n with
  | zero => exact List.isChain_nil
  | succ n ih =>
    cases n with
    | zero => exact List.isChain_singleton _
    | succ n => exact List.isChain_cons_cons.2 ⟨.inl hdefault, ih⟩

end Descending

/-- An enumeration with values of one byte. -/
structure AccountType where
  value : UInt8
  deriving DecidableEq

structure AccountState where
  address : FixedBytes 24
  addressHeight : UInt64
  publicKey : Key := zeroKey
  publicKeyHeight : UInt64 := 0
  accountType : AccountType := ⟨0⟩
  supplementalPublicKeys : AccountPublicKeys := {}
  importanceSnapshots : AccountImportanceSnapshots := {}
  activityBuckets : AccountActivityBuckets := {}
  balances : AccountBalances := {}

def sampleAddress : FixedBytes 24 := ⟨List.replicate 24 0, rfl⟩

structure AccountState.Valid (state : AccountState) : Prop where
  voting : SortedKeys state.supplementalPublicKeys.voting
  snapshots : Descending ImportanceSnapshot.height state.importanceSnapshots.values
  buckets : Descending ActivityBucket.startHeight state.activityBuckets.values
  balances : state.balances.Valid

structure Observed where
  address : FixedBytes 24
  addressHeight : UInt64
  publicKey : Key
  publicKeyHeight : UInt64
  accountType : AccountType
  linked : Key
  node : Key
  vrf : Key
  voting : List PinnedVotingKey
  snapshots : List ImportanceSnapshot
  buckets : List ActivityBucket
  mosaics : List Mosaic
  optimizedMosaicId : MosaicId
  deriving DecidableEq

def AccountState.observe (state : AccountState) : Observed where
  address := state.address
  addressHeight := state.addressHeight
  publicKey := state.publicKey
  publicKeyHeight := state.publicKeyHeight
  accountType := state.accountType
  linked := state.supplementalPublicKeys.linked.get
  node := state.supplementalPublicKeys.node.get
  vrf := state.supplementalPublicKeys.vrf.get
  voting := state.supplementalPublicKeys.voting
  snapshots := state.importanceSnapshots.values
  buckets := state.activityBuckets.values
  mosaics := state.balances.mosaics
  optimizedMosaicId := state.balances.optimizedMosaicId

end Catapult.State
