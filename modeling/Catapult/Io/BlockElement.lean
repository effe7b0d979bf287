import Catapult.Lib.Reader

/-!
# Block elements and their bytes (`BlockElementSerializer`)

A block element is written without its statement: the block, its hashes, the hashes of its transactions and the merkle
roots of the sub caches. The number of transactions is not taken from what was written but from the block: the hashes
are given to the transactions of the block one after another.
-/

namespace Catapult.Io
open Reader

def transactionSize : Nat := 128

def paddingSize (size : Nat) : Nat := if size % 8 = 0 then 0 else 8 - size % 8

/-- The number of entities that come one after another; all but the last are padded. There is none when the iteration
meets an error. -/
def countEntities : (fuel : Nat) → List UInt8 → Option Nat
  | _, [] => some 0
  | 0, _ :: _ => none
  | fuel + 1, b :: rest =>
    let entities := b :: rest
    let size := ofLeBytes (entities.take 4)
    if entities.length < 4 ∨ entities.length < size ∨ size < transactionSize then none
    else if entities.length = size then some 1
    else if entities.length < size + paddingSize size then none
    else (countEntities fuel (entities.drop (size + paddingSize size))).map (· + 1)

namespace Block

def isImportanceBlock (block : List UInt8) : Bool :=
  let type := ofLeBytes ((block.drop 110).take 2)
  decide (type = 0x8043) || decide (type = 0x8243)

/-- `GetBlockHeaderSize`. -/
def headerSize (block : List UInt8) : Nat := 372 + if isImportanceBlock block then 52 else 4

def height (block : List UInt8) : Nat := ofLeBytes ((block.drop 112).take 8)

def numTransactions (block : List UInt8) : Option Nat := countEntities block.length (block.drop (headerSize block))

end Block

abbrev Hash256 := FixedBytes 32

structure TransactionHashes where
  entityHash : Hash256
  merkleComponentHash : Hash256
  deriving DecidableEq

/-- A statement is what is written for it. -/
structure BlockElementData where
  block : List UInt8
  entityHash : Hash256
  generationHash : Hash256
  transactions : List TransactionHashes := []
  subCacheMerkleRoots : List Hash256 := []
  optionalStatement : Option (List UInt8) := none
  deriving DecidableEq

/-- An element has the transactions of its block. The size of a block comes first in it. -/
structure BlockElement extends BlockElementData where
  size_eq : ofLeBytes (block.take 4) = block.length
  headerSize_le : Block.headerSize block ≤ block.length
  transactions_eq : Block.numTransactions block = some transactions.length
  subCacheMerkleRoots_lt : subCacheMerkleRoots.length < 2 ^ 32
  deriving DecidableEq

namespace BlockElementData

def height (element : BlockElementData) : Nat := Block.height element.block

def withoutStatement (element : BlockElementData) : BlockElementData := { element with optionalStatement := none }

end BlockElementData

def transactionHashesBytes (transaction : TransactionHashes) : List UInt8 :=
  transaction.entityHash.1 ++ transaction.merkleComponentHash.1

/-- `WriteBlockElement`. -/
def blockElementBytes (element : BlockElementData) : List UInt8 :=
  element.block ++ (element.entityHash.1 ++ (element.generationHash.1 ++
    (leBytes 4 element.transactions.length ++ (element.transactions.flatMap transactionHashesBytes ++
      (leBytes 4 element.subCacheMerkleRoots.length ++ element.subCacheMerkleRoots.flatMap Subtype.val)))))

inductive ReadError where
  | endOfStream
  /-- "error encountered while iterating" -/
  | iteration
  /-- The hashes of a transaction were not written. -/
  | missingHashes
  deriving DecidableEq

def pairHashes : List Hash256 → List TransactionHashes
  | entityHash :: merkleComponentHash :: hashes => ⟨entityHash, merkleComponentHash⟩ :: pairHashes hashes
  | _ => []

def readBlock : Reader ReadError (List UInt8) := sizePrefixed .endOfStream

def readTransactionHashes (block : List UInt8) : Reader ReadError (List TransactionHashes) := do
  let numTransactions ← nat .endOfStream 4
  let hashes ← times (bytes .endOfStream 32) (2 * numTransactions % 2 ^ 32)
  match Block.numTransactions block with
  | none => throw .iteration
  | some n => if (pairHashes hashes).length < n then throw .missingHashes else return (pairHashes hashes).take n

def readBlockElement : Reader ReadError BlockElementData := do
  let block ← readBlock
  let entityHash ← bytes .endOfStream 32
  let generationHash ← bytes .endOfStream 32
  let transactions ← readTransactionHashes block
  let numHashes ← nat .endOfStream 4
  let subCacheMerkleRoots ← times (bytes .endOfStream 32) numHashes
  return { block := block, entityHash := entityHash, generationHash := generationHash, transactions := transactions,
           subCacheMerkleRoots := subCacheMerkleRoots }

theorem countEntities_le {fuel n : Nat} {entities : List UInt8} (hcount : countEntities fuel entities = some n) :
    transactionSize * n ≤ entities.length := by
  induction fuel generalizing entities n with
  | zero =>
    cases entities with
    | nil =>
      cases hcount
      exact Nat.zero_le _
    | cons b rest => cases hcount
  | succ fuel ih =>
    cases entities with
    | nil =>
      cases hcount
      exact Nat.zero_le _
    | cons b rest =>
      rw [countEntities] at hcount
      split at hcount
      · cases hcount
      rename_i hsize
      split at hcount
      · cases hcount
        omega
      split at hcount
      · cases hcount
      rename_i hpadded
      obtain ⟨n', hn', rfl⟩ := Option.map_eq_some_iff.1 hcount
      have hrest := ih hn'
      rw [List.length_drop] at hrest
      simp only [transactionSize] at *
      omega

theorem BlockElement.transactions_lt (element : BlockElement) : element.transactions.length < 2 ^ 31 := by
  have hle := countEntities_le element.transactions_eq
  have hlt := ofLeBytes_lt (element.block.take 4)
  have hpow : 256 ^ (element.block.take 4).length ≤ 256 ^ 4 :=
    Nat.pow_le_pow_right (by omega) (List.length_take_le 4 element.block)
  have hsize := element.size_eq
  rw [List.length_drop] at hle
  simp only [transactionSize] at hle
  omega

theorem pairHashes_flatMap (transactions : List TransactionHashes) :
    pairHashes (transactions.flatMap fun transaction => [transaction.entityHash, transaction.merkleComponentHash]) =
      transactions := by
  induction transactions with
  | nil => rfl
  | cons transaction transactions ih => rw [List.flatMap_cons, List.cons_append, List.cons_append, List.nil_append,
      pairHashes, ih]

theorem reads_block (element : BlockElement) : Reads readBlock element.block element.block := by
  have hle : 372 ≤ element.block.length := Nat.le_trans (Nat.le_add_right _ _) element.headerSize_le
  exact Reads.sizePrefixed element.size_eq (by omega)

theorem reads_transactionHashes (element : BlockElement) : Reads (readTransactionHashes element.block)
    (leBytes 4 element.transactions.length ++ element.transactions.flatMap transactionHashesBytes)
    element.transactions := by
  have hlt := element.transactions_lt
  have hhashes := @Reads.times _ _ (bytes ReadError.endOfStream 32) Subtype.val
    (element.transactions.flatMap fun transaction => [transaction.entityHash, transaction.merkleComponentHash])
    fun hash _ => Reads.bytes hash
  have hlength : (element.transactions.flatMap fun transaction =>
      [transaction.entityHash, transaction.merkleComponentHash]).length = 2 * element.transactions.length % 2 ^ 32 := by
    rw [Nat.mod_eq_of_lt (by omega)]
    simp [List.length_flatMap, Nat.mul_comm]
  have hbytes : (element.transactions.flatMap fun transaction =>
      [transaction.entityHash, transaction.merkleComponentHash]).flatMap Subtype.val =
        element.transactions.flatMap transactionHashesBytes := by
    rw [List.flatMap_assoc]
    exact List.flatMap_congr fun transaction _ => by simp [transactionHashesBytes]
  rw [hlength, hbytes] at hhashes
  refine (Reads.nat (by omega)).bind ?_
  rw [← List.append_nil (element.transactions.flatMap transactionHashesBytes)]
  refine hhashes.bind ?_
  rw [element.transactions_eq, pairHashes_flatMap]
  simp only [Nat.lt_irrefl, if_false, List.take_length]
  exact Reads.pure _

theorem reads_blockElement (element : BlockElement) :
    Reads readBlockElement (blockElementBytes element.toBlockElementData) element.withoutStatement := by
  have hlt := element.subCacheMerkleRoots_lt
  have hroots := @Reads.times _ _ (bytes ReadError.endOfStream 32) Subtype.val element.subCacheMerkleRoots
    fun hash _ => Reads.bytes hash
  have htransactions := reads_transactionHashes element
  rw [readBlockElement, blockElementBytes]
  refine (reads_block element).bind ((Reads.bytes element.entityHash).bind
    ((Reads.bytes element.generationHash).bind ?_))
  rw [← List.append_assoc]
  exact htransactions.bind ((Reads.nat (by omega)).bind hroots.bind_pure)

end Catapult.Io
